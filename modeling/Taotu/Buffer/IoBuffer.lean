import Taotu.Lib.BigEndian
import Taotu.Lib.Region

/-!
# Taotu.Buffer.IoBuffer — the I/O buffer (`io_buffer.h`, `io_buffer.cc`)

`IoBuffer` is a byte vector with a reading and a writing index; the bytes
between the two are the readable ones, the bytes in front of the reading index
are reserved for headers. All index arithmetic is on `size_t` and wraps.

Every copy of the source goes through `load` or `store`, which fail with
`outOfBounds` when the range leaves `buffer_`. The source does not check, so
that outcome stands for undefined behaviour; `lengthError` is the exception a
`std::vector` throws when it is asked for more than `max_size()` bytes.

The second half of the file says what each operation does to a well-formed
buffer (`Wf`) in terms of its readable bytes. Making room has two regimes in
the source, growing and moving the content to the front; the second one is
reached exactly under `Compacts`, and the lemmas treat it separately.
-/

namespace Taotu

open Lib

/-- The number of `size_t` values, `2 ^ 64`. -/
def sizeRange : ℕ := 18446744073709551616

/-- `std::vector<char>::max_size()`, `2 ^ 63 - 1`. -/
def maxSize : ℕ := 9223372036854775807

/-- `size_t` addition. -/
@[irreducible] def addSize (a b : ℕ) : ℕ := (a + b) % sizeRange

/-- `size_t` subtraction. -/
@[irreducible] def subSize (a b : ℕ) : ℕ := (sizeRange + a - b) % sizeRange

/-- Conversion to `int32_t`, which is also `int`. -/
def toInt32 (x : ℤ) : ℤ := Int.bmod x 4294967296

/-- Ways in which an operation does not return normally. -/
inductive Fault where
  | lengthError
  | outOfBounds
  | badFunctionCall
deriving DecidableEq, Repr

@[simp] theorem ok_bind {α β : Type} (a : α) (f : α → Except Fault β) :
    (Except.ok a >>= f) = f a := rfl

@[simp] theorem error_bind {α β : Type} (e : Fault) (f : α → Except Fault β) :
    (Except.error e >>= f) = .error e := rfl

theorem bind_eq_ok {α β : Type} {x : Except Fault α} {f : α → Except Fault β} {r : β}
    (h : (x >>= f) = .ok r) : ∃ a, x = .ok a ∧ f a = .ok r := by
  cases x with
  | error e => cases h
  | ok a => exact ⟨a, rfl, h⟩

theorem bind_ok_eq_error {α β : Type} {x : Except Fault α} {f : α → β} {e : Fault} :
    (x >>= fun a => .ok (f a)) = .error e ↔ x = .error e := by
  cases x <;> simp

structure IoBuffer where
  buffer : List UInt8
  readingIndex : ℕ
  writingIndex : ℕ
deriving DecidableEq, Repr

namespace IoBuffer

def kReservedCapacity : ℕ := 8
def kInitialCapacity : ℕ := 1024

/-! ## Model -/

def new (initialCapacity : ℕ) : Except Fault IoBuffer :=
  let n := addSize kReservedCapacity initialCapacity
  if maxSize < n then .error .lengthError
  else .ok ⟨List.replicate n 0, kReservedCapacity, kReservedCapacity⟩

def swap (a b : IoBuffer) : IoBuffer × IoBuffer := (b, a)

def getReadableBytes (b : IoBuffer) : ℕ := subSize b.writingIndex b.readingIndex
def getWritableBytes (b : IoBuffer) : ℕ := subSize b.buffer.length b.writingIndex
def getReservedBytes (b : IoBuffer) : ℕ := b.readingIndex

/-- Read `n` bytes of `buffer_` from offset `off` on. -/
def load (b : IoBuffer) (off n : ℕ) : Except Fault (List UInt8) :=
  if off + n ≤ b.buffer.length then .ok (slice b.buffer off n) else .error .outOfBounds

/-- Copy `src` into `buffer_` from offset `off` on. -/
def store (b : IoBuffer) (off : ℕ) (src : List UInt8) : Except Fault IoBuffer :=
  if off + src.length ≤ b.buffer.length then .ok { b with buffer := blit b.buffer off src }
  else .error .outOfBounds

/-- `buffer_.resize(n)`. -/
def resize (b : IoBuffer) (n : ℕ) : Except Fault IoBuffer :=
  if maxSize < n then .error .lengthError
  else .ok { b with buffer := b.buffer.take n ++ List.replicate (n - b.buffer.length) 0 }

def refreshRW (b : IoBuffer) : IoBuffer :=
  { b with readingIndex := kReservedCapacity, writingIndex := kReservedCapacity }

def refreshW (b : IoBuffer) (len : ℕ) : IoBuffer :=
  { b with writingIndex := addSize b.writingIndex len }

def refresh (b : IoBuffer) (len : ℕ) : IoBuffer :=
  if len < b.getReadableBytes then { b with readingIndex := addSize b.readingIndex len }
  else b.refreshRW

def retrieveAString (b : IoBuffer) (len : ℕ) : Except Fault (List UInt8 × IoBuffer) :=
  if b.getReadableBytes < len then .ok ([], b)
  else do
    let ret ← b.load b.readingIndex len
    return (ret, b.refresh len)

def reserveWritableSpace (b : IoBuffer) (len : ℕ) : Except Fault IoBuffer :=
  if subSize (addSize b.getWritableBytes b.getReservedBytes) kReservedCapacity < len then
    b.resize (addSize b.writingIndex len)
  else do
    let content ← b.load b.readingIndex b.getReadableBytes
    let b ← b.store kReservedCapacity content
    let b := { b with readingIndex := kReservedCapacity }
    -- the reading index has already moved when `GetReadableBytes` is asked again
    return { b with writingIndex := addSize b.readingIndex b.getReadableBytes }

def ensureWritableSpace (b : IoBuffer) (len : ℕ) : Except Fault IoBuffer :=
  if b.getWritableBytes < len then b.reserveWritableSpace len else .ok b

def append (b : IoBuffer) (str : List UInt8) : Except Fault IoBuffer := do
  let b ← b.ensureWritableSpace str.length
  let b ← b.store b.writingIndex str
  return b.refreshW str.length

def setHeadContent (b : IoBuffer) (str : List UInt8) : Except Fault IoBuffer :=
  if b.getReservedBytes < str.length then .ok b
  else
    let b := { b with readingIndex := subSize b.readingIndex str.length }
    b.store b.readingIndex str

def shrinkWritableSpace (b : IoBuffer) (len : ℕ) : Except Fault IoBuffer :=
  if len ≤ 32 then .ok b
  else do
    let buffer ← new kInitialCapacity
    let buffer ← buffer.ensureWritableSpace
      (addSize (addSize kReservedCapacity b.getReadableBytes) len)
    let content ← b.load b.readingIndex b.getReadableBytes
    let buffer ← buffer.append content
    return (b.swap buffer).1

/-- `n` is what `send` returns. -/
def writeToFd (b : IoBuffer) (n : ℤ) : Except Fault IoBuffer := do
  let _ ← b.load b.readingIndex b.getReadableBytes
  return if 0 < n then b.refresh n.toNat else b

/-- `AppendInt32`: the two's complement of `x` in big-endian order. -/
def appendInt32 (b : IoBuffer) (x : ℤ) : Except Fault IoBuffer :=
  b.append (beBytes 4 (x % 2 ^ 32).toNat)

def getReadableInt32 (io : IoBuffer) : Except Fault ℤ :=
  if io.getReadableBytes < 4 then .ok 0
  else do
    let result ← io.load io.readingIndex 4
    return toInt32 (ofBeBytes result)

/-! ## Well-formed buffers -/

/-- The readable bytes. -/
def readable (b : IoBuffer) : List UInt8 :=
  slice b.buffer b.readingIndex (b.writingIndex - b.readingIndex)

/-- The indices are in order and inside `buffer_`, which has room for a head. -/
structure Wf (b : IoBuffer) : Prop where
  reading_le : b.readingIndex ≤ b.writingIndex
  writing_le : b.writingIndex ≤ b.buffer.length
  reserved_le : kReservedCapacity ≤ b.buffer.length
  size_le : b.buffer.length ≤ maxSize

/-- Making room for `len` bytes takes the branch that moves the content. -/
def Compacts (b : IoBuffer) (len : ℕ) : Prop :=
  b.getWritableBytes < len ∧
    len ≤ subSize (addSize b.getWritableBytes b.getReservedBytes) kReservedCapacity

/-- Making room for `len` bytes asks for a size that does not fit in `size_t`. -/
def Overflows (b : IoBuffer) (len : ℕ) : Prop :=
  b.getWritableBytes < len ∧ sizeRange ≤ b.writingIndex + len

instance (b : IoBuffer) (len : ℕ) : Decidable (b.Compacts len) :=
  inferInstanceAs (Decidable (_ ∧ _))

instance (b : IoBuffer) (len : ℕ) : Decidable (b.Overflows len) :=
  inferInstanceAs (Decidable (_ ∧ _))

instance (b : IoBuffer) : Decidable b.Wf :=
  decidable_of_iff (b.readingIndex ≤ b.writingIndex ∧ b.writingIndex ≤ b.buffer.length ∧
      kReservedCapacity ≤ b.buffer.length ∧ b.buffer.length ≤ maxSize)
    ⟨fun ⟨h1, h2, h3, h4⟩ => ⟨h1, h2, h3, h4⟩, fun ⟨h1, h2, h3, h4⟩ => ⟨h1, h2, h3, h4⟩⟩

theorem addSize_eq {a b : ℕ} (h : a + b < sizeRange) : addSize a b = a + b := by
  rw [addSize, Nat.mod_eq_of_lt h]

theorem addSize_lt (a b : ℕ) : addSize a b < sizeRange := by
  rw [addSize]
  exact Nat.mod_lt _ (Nat.succ_pos _)

theorem subSize_eq {a b : ℕ} (ha : a < sizeRange) (h : b ≤ a) : subSize a b = a - b := by
  rw [subSize, show sizeRange + a - b = (a - b) + sizeRange by omega, Nat.add_mod_right]
  exact Nat.mod_eq_of_lt (by omega)

theorem maxSize_lt : maxSize + maxSize < sizeRange := by decide

variable {b : IoBuffer}

namespace Wf

variable (hb : b.Wf)
include hb

theorem getReadableBytes_eq : b.getReadableBytes = b.writingIndex - b.readingIndex :=
  subSize_eq (by have := hb.writing_le; have := hb.size_le; have := maxSize_lt; omega)
    hb.reading_le

theorem getWritableBytes_eq : b.getWritableBytes = b.buffer.length - b.writingIndex :=
  subSize_eq (by have := hb.size_le; have := maxSize_lt; omega) hb.writing_le

theorem length_readable : b.readable.length = b.writingIndex - b.readingIndex :=
  length_slice (by have := hb.reading_le; have := hb.writing_le; omega)

theorem getReadableBytes_length : b.getReadableBytes = b.readable.length := by
  rw [hb.getReadableBytes_eq, hb.length_readable]

/-- The branch that moves the content, on a well-formed buffer: either the
space in front of the content would do, or the test has wrapped. -/
theorem compacts_iff {len : ℕ} (hlen : len < sizeRange) :
    b.Compacts len ↔ b.buffer.length - b.writingIndex < len ∧
      if kReservedCapacity ≤ b.buffer.length - b.writingIndex + b.readingIndex then
        len + kReservedCapacity ≤ b.buffer.length - b.writingIndex + b.readingIndex
      else
        len + kReservedCapacity ≤
          b.buffer.length - b.writingIndex + b.readingIndex + sizeRange := by
  have h1 := hb.reading_le
  have h2 := hb.writing_le
  have h3 := hb.size_le
  have h4 := maxSize_lt
  have hadd : addSize (b.buffer.length - b.writingIndex) b.readingIndex =
      b.buffer.length - b.writingIndex + b.readingIndex := addSize_eq (by omega)
  rw [Compacts, hb.getWritableBytes_eq, getReservedBytes, hadd]
  split
  · next h =>
    rw [subSize_eq (by omega) h]
    omega
  · next h =>
    rw [subSize, Nat.mod_eq_of_lt (by unfold kReservedCapacity at *; omega)]
    unfold kReservedCapacity at *
    omega

end Wf

/-! ## What the operations do -/

theorem load_ok {off n : ℕ} (h : off + n ≤ b.buffer.length) :
    b.load off n = .ok (slice b.buffer off n) := by
  rw [load, if_pos h]

theorem load_readable (hb : b.Wf) : b.load b.readingIndex b.getReadableBytes = .ok b.readable := by
  have h1 := hb.reading_le
  have h2 := hb.writing_le
  rw [hb.getReadableBytes_eq, load_ok (by omega), readable]

/-- Reading a prefix of the readable bytes. -/
theorem load_take (hb : b.Wf) {n : ℕ} (hn : n ≤ b.getReadableBytes) :
    b.load b.readingIndex n = .ok (b.readable.take n) := by
  have h1 := hb.reading_le
  have h2 := hb.writing_le
  rw [hb.getReadableBytes_eq] at hn
  rw [load_ok (by omega), readable, take_slice _ _ hn]

theorem store_ok {off : ℕ} {src : List UInt8} (h : off + src.length ≤ b.buffer.length) :
    b.store off src = .ok { b with buffer := blit b.buffer off src } := by
  rw [store, if_pos h]

theorem store_outOfBounds {off : ℕ} {src : List UInt8} (h : b.buffer.length < off + src.length) :
    b.store off src = .error .outOfBounds := by
  rw [store, if_neg (by omega)]

/-- A fresh buffer is empty, with both indices behind the reserved area. -/
theorem new_ok {cap : ℕ} (hcap : kReservedCapacity + cap ≤ maxSize) :
    ∃ b, new cap = .ok b ∧ b.Wf ∧ b.readable = [] ∧ b.readingIndex = kReservedCapacity ∧
      b.writingIndex = kReservedCapacity ∧ b.buffer.length = kReservedCapacity + cap := by
  have h4 := maxSize_lt
  rw [new, addSize_eq (by omega), if_neg (by omega)]
  refine ⟨_, rfl, ⟨le_rfl, ?_, ?_, ?_⟩, by simp [readable], rfl, rfl, by simp⟩
  · simp
  · simp
  · simpa using hcap

/-- A construction that returns and whose size does not wrap gives a fresh buffer. -/
theorem new_spec {cap : ℕ} (hcap : kReservedCapacity + cap < sizeRange) (h : new cap = .ok b) :
    b.Wf ∧ b.readable = [] ∧ b.readingIndex = kReservedCapacity := by
  by_cases hmax : kReservedCapacity + cap ≤ maxSize
  · obtain ⟨b', hb', hwf, hread, hr, -, -⟩ := new_ok hmax
    rw [hb'] at h
    cases h
    exact ⟨hwf, hread, hr⟩
  · rw [new, addSize_eq hcap, if_pos (by omega)] at h
    cases h

/-- Making room without moving the content pads the buffer at its end. -/
theorem ensureWritableSpace_room (hb : b.Wf) {len : ℕ} (hc : ¬ b.Compacts len)
    (hroom : b.writingIndex + len ≤ maxSize) :
    ∃ pad, b.ensureWritableSpace len = .ok { b with buffer := b.buffer ++ pad } ∧
      b.writingIndex + len ≤ (b.buffer ++ pad).length ∧ (b.buffer ++ pad).length ≤ maxSize := by
  have h1 := hb.reading_le
  have h2 := hb.writing_le
  have h3 := hb.size_le
  have h4 := maxSize_lt
  rw [ensureWritableSpace]
  split
  · next hw =>
    have hgrow : subSize (addSize b.getWritableBytes b.getReservedBytes) kReservedCapacity < len := by
      by_contra h
      exact hc ⟨hw, by omega⟩
    rw [hb.getWritableBytes_eq] at hw
    refine ⟨List.replicate (b.writingIndex + len - b.buffer.length) 0, ?_, ?_, ?_⟩
    · rw [reserveWritableSpace, if_pos hgrow, addSize_eq (by omega), resize, if_neg (by omega),
        List.take_of_length_le (by omega)]
    · simp; omega
    · simp; omega
  · next hw =>
    rw [hb.getWritableBytes_eq] at hw
    exact ⟨[], by simp, by simp; omega, by simpa using h3⟩

/-- Making room without moving the content, when the vector may be asked for
more than it can hold. -/
theorem ensureWritableSpace_cases (hb : b.Wf) {len : ℕ} (hc : ¬ b.Compacts len)
    (ho : ¬ b.Overflows len) :
    b.ensureWritableSpace len = .error .lengthError ∨
      ∃ pad, b.ensureWritableSpace len = .ok { b with buffer := b.buffer ++ pad } ∧
        b.writingIndex + len ≤ (b.buffer ++ pad).length ∧ (b.buffer ++ pad).length ≤ maxSize := by
  by_cases hroom : b.writingIndex + len ≤ maxSize
  · exact .inr (ensureWritableSpace_room hb hc hroom)
  · left
    have h2 := hb.writing_le
    have h3 := hb.size_le
    have hw : b.getWritableBytes < len := by
      rw [hb.getWritableBytes_eq]
      omega
    have hgrow : subSize (addSize b.getWritableBytes b.getReservedBytes) kReservedCapacity < len := by
      by_contra h
      exact hc ⟨hw, by omega⟩
    have hsum : b.writingIndex + len < sizeRange := by
      by_contra h
      exact ho ⟨hw, by omega⟩
    rw [ensureWritableSpace, if_pos hw, reserveWritableSpace, if_pos hgrow, addSize_eq hsum, resize,
      if_pos (by omega)]

theorem readable_pad {pad : List UInt8} (hb : b.Wf) :
    ({ b with buffer := b.buffer ++ pad } : IoBuffer).readable = b.readable := by
  have h1 := hb.reading_le
  have h2 := hb.writing_le
  show slice (b.buffer ++ pad) b.readingIndex (b.writingIndex - b.readingIndex) = _
  rw [slice_append_left pad (by omega), readable]

theorem Wf.pad {pad : List UInt8} (hb : b.Wf) (h : (b.buffer ++ pad).length ≤ maxSize) :
    ({ b with buffer := b.buffer ++ pad } : IoBuffer).Wf := by
  have h2 := hb.writing_le
  have h3 := hb.reserved_le
  exact ⟨hb.reading_le, by simp; omega, by simp; omega, h⟩

/-- A string that exists in memory never overflows the size computation. -/
theorem not_overflows_of_le (hb : b.Wf) {len : ℕ} (hlen : len ≤ maxSize) : ¬ b.Overflows len := by
  rintro ⟨-, h⟩
  have h2 := hb.writing_le
  have h3 := hb.size_le
  have h4 := maxSize_lt
  omega

/-- `Append` once there is room: one copy behind the readable bytes. -/
theorem append_of_room {str : List UInt8} {b' : IoBuffer}
    (h : b.ensureWritableSpace str.length = .ok b')
    (hroom : b'.writingIndex + str.length ≤ b'.buffer.length) :
    b.append str = .ok ⟨blit b'.buffer b'.writingIndex str, b'.readingIndex,
      addSize b'.writingIndex str.length⟩ := by
  rw [append, h, ok_bind, store_ok hroom, ok_bind]
  rfl

/-- Bytes copied behind the readable ones become readable when the writing
index moves over them. -/
theorem Wf.extend (hb : b.Wf) {str : List UInt8}
    (hfit : b.writingIndex + str.length ≤ b.buffer.length) :
    (⟨blit b.buffer b.writingIndex str, b.readingIndex, b.writingIndex + str.length⟩ :
      IoBuffer).Wf ∧
    (⟨blit b.buffer b.writingIndex str, b.readingIndex, b.writingIndex + str.length⟩ :
      IoBuffer).readable = b.readable ++ str := by
  have h1 := hb.reading_le
  have h2 := hb.writing_le
  have hlen := length_blit hfit
  refine ⟨⟨?_, ?_, ?_, ?_⟩, ?_⟩
  · show b.readingIndex ≤ b.writingIndex + str.length
    omega
  · rw [hlen]
    exact hfit
  · rw [hlen]
    exact hb.reserved_le
  · rw [hlen]
    exact hb.size_le
  · -- the old readable range is in front of the copy, the new one is the copy
    show slice (blit b.buffer b.writingIndex str) b.readingIndex
      (b.writingIndex + str.length - b.readingIndex) = b.readable ++ str
    rw [show b.writingIndex + str.length - b.readingIndex =
        (b.writingIndex - b.readingIndex) + str.length by omega, slice_add,
      show b.readingIndex + (b.writingIndex - b.readingIndex) = b.writingIndex by omega,
      slice_blit_self str h2, slice_blit_before str h2 (by omega), readable]

/-- `Append` from the point where the buffer has been padded. -/
theorem append_of_pad (hb : b.Wf) {str pad : List UInt8}
    (h : b.ensureWritableSpace str.length = .ok { b with buffer := b.buffer ++ pad })
    (hroom : b.writingIndex + str.length ≤ (b.buffer ++ pad).length)
    (hmax : (b.buffer ++ pad).length ≤ maxSize) :
    ∃ b', b.append str = .ok b' ∧ b'.Wf ∧ b'.readable = b.readable ++ str ∧
      b'.readingIndex = b.readingIndex ∧ b'.writingIndex = b.writingIndex + str.length := by
  have h4 := maxSize_lt
  have hw : addSize b.writingIndex str.length = b.writingIndex + str.length :=
    addSize_eq (by omega)
  obtain ⟨hwf, hread⟩ := (hb.pad hmax).extend hroom
  refine ⟨_, ?_, hwf, ?_, rfl, rfl⟩
  · rw [append_of_room h hroom, hw]
  · rw [hread, readable_pad hb]

/-- `Append` puts the string behind the readable bytes and moves nothing. -/
theorem append_cases (hb : b.Wf) {str : List UInt8} (hlen : str.length ≤ maxSize)
    (hc : ¬ b.Compacts str.length) :
    b.append str = .error .lengthError ∨
      ∃ b', b.append str = .ok b' ∧ b'.Wf ∧ b'.readable = b.readable ++ str ∧
        b'.readingIndex = b.readingIndex ∧ b'.writingIndex = b.writingIndex + str.length := by
  rcases ensureWritableSpace_cases hb hc (not_overflows_of_le hb hlen) with h | ⟨pad, h, hroom, hmax⟩
  · left
    rw [append, h, error_bind]
  · exact .inr (append_of_pad hb h hroom hmax)

/-- Dropping a prefix of the readable bytes. -/
theorem refresh_spec (hb : b.Wf) {len : ℕ} (hlen : len ≤ b.getReadableBytes) :
    (b.refresh len).Wf ∧ (b.refresh len).readable = b.readable.drop len := by
  have h1 := hb.reading_le
  have h2 := hb.writing_le
  have h3 := hb.size_le
  have h4 := maxSize_lt
  rw [hb.getReadableBytes_eq] at hlen
  rw [refresh, hb.getReadableBytes_eq]
  split
  · next h =>
    rw [addSize_eq (by omega)]
    refine ⟨⟨?_, h2, hb.reserved_le, h3⟩, ?_⟩
    · show b.readingIndex + len ≤ b.writingIndex
      omega
    · rw [readable, readable, drop_slice]
      show slice b.buffer (b.readingIndex + len) (b.writingIndex - (b.readingIndex + len)) = _
      rw [Nat.sub_sub]
  · next h =>
    refine ⟨⟨le_rfl, hb.reserved_le, hb.reserved_le, h3⟩, ?_⟩
    rw [List.drop_of_length_le (by rw [hb.length_readable]; omega)]
    simp [readable, refreshRW]

/-- The reserved area is never given up by reading. -/
theorem refresh_reserved (hb : b.Wf) (hr : kReservedCapacity ≤ b.readingIndex) {len : ℕ} :
    kReservedCapacity ≤ (b.refresh len).readingIndex := by
  have h1 := hb.reading_le
  have h2 := hb.writing_le
  have h3 := hb.size_le
  have h4 := maxSize_lt
  rw [refresh, hb.getReadableBytes_eq]
  split
  · show _ ≤ addSize b.readingIndex len
    rw [addSize_eq (by omega)]
    omega
  · exact le_rfl

/-- A buffer read to its end starts over behind the reserved area. -/
theorem refresh_empty (hb : b.Wf) {len : ℕ} (h : (b.refresh len).readable = []) :
    (b.refresh len).readingIndex = kReservedCapacity := by
  by_cases hlen : len < b.getReadableBytes
  · rw [(refresh_spec hb hlen.le).2, List.drop_eq_nil_iff, ← hb.getReadableBytes_length] at h
    omega
  · rw [refresh, if_neg hlen]
    rfl

theorem refreshRW_spec (hb : b.Wf) : b.refreshRW.Wf ∧ b.refreshRW.readable = [] :=
  ⟨⟨le_rfl, hb.reserved_le, hb.reserved_le, hb.size_le⟩, by simp [readable, refreshRW]⟩

/-- Taking out any number of bytes leaves the indices in order. -/
theorem refresh_wf (hb : b.Wf) (len : ℕ) : (b.refresh len).Wf := by
  by_cases hlen : len < b.getReadableBytes
  · exact (refresh_spec hb hlen.le).1
  · rw [refresh, if_neg hlen]
    exact (refreshRW_spec hb).1

theorem retrieveAString_spec (hb : b.Wf) {len : ℕ} (hlen : len ≤ b.getReadableBytes) :
    b.retrieveAString len = .ok (b.readable.take len, b.refresh len) := by
  rw [retrieveAString, if_neg (by omega), load_take hb hlen, ok_bind]
  rfl

theorem writeToFd_spec (hb : b.Wf) (n : ℤ) :
    b.writeToFd n = .ok (if 0 < n then b.refresh n.toNat else b) := by
  rw [writeToFd, load_readable hb, ok_bind]
  rfl

/-- `SetHeadContent` puts the string in front of the readable bytes. -/
theorem setHeadContent_spec (hb : b.Wf) {str : List UInt8}
    (hlen : str.length ≤ b.getReservedBytes) :
    ∃ b', b.setHeadContent str = .ok b' ∧ b'.Wf ∧ b'.readable = str ++ b.readable := by
  have h1 := hb.reading_le
  have h2 := hb.writing_le
  have h3 := hb.size_le
  have h4 := maxSize_lt
  rw [getReservedBytes] at hlen
  have hsub : subSize b.readingIndex str.length = b.readingIndex - str.length :=
    subSize_eq (by omega) hlen
  have hin : b.readingIndex - str.length + str.length ≤ b.buffer.length := by omega
  refine ⟨⟨blit b.buffer (b.readingIndex - str.length) str, b.readingIndex - str.length,
    b.writingIndex⟩, ?_, ⟨?_, ?_, ?_, ?_⟩, ?_⟩
  · rw [setHeadContent, getReservedBytes, if_neg (by omega), hsub]
    exact store_ok hin
  · show b.readingIndex - str.length ≤ b.writingIndex
    omega
  · rw [length_blit hin]
    exact h2
  · rw [length_blit hin]
    exact hb.reserved_le
  · rw [length_blit hin]
    exact h3
  · show slice (blit b.buffer (b.readingIndex - str.length) str) (b.readingIndex - str.length)
      (b.writingIndex - (b.readingIndex - str.length)) = str ++ b.readable
    rw [show b.writingIndex - (b.readingIndex - str.length) =
        str.length + (b.writingIndex - b.readingIndex) by omega, slice_add,
      slice_blit_self str (by omega),
      show b.readingIndex - str.length + str.length = b.readingIndex by omega,
      slice_blit_after (by omega) (by omega), readable]

end IoBuffer

end Taotu
