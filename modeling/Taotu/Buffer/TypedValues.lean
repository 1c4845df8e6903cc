import Taotu.Buffer.ByteQueue

/-!
# Taotu.Buffer.TypedValues — integers and strings in the buffer (`io_buffer.h`, `io_buffer.cc`)

The typed operations of `IoBuffer`: integers of four widths and byte strings, appended
behind the content or set in front of it, and retrieved again. An integer is converted to
big-endian order and copied as it stands in memory, so the machine has a byte order here.

1. **Model layer.** The operations under their names, each family with one definition for
   its widths. `AppendInt8` and its kind convert nothing.
2. **Round trip.** What is appended to a fresh buffer and set in front of it comes back
   (`typed_values_survive`). The constructor adds the reserved area to the capacity in
   `size_t`; a capacity for which that wraps is outside of this result.
3. **Failed retrievals.** A string is looked at before it is taken, an integer is taken
   anyway, and that resets the buffer (`failed_retrieval`).
-/

namespace Taotu

open Lib

/-- The integer types. -/
inductive IntWidth where
  | int8
  | int16
  | int32
  | int64
deriving DecidableEq, Repr

/-- `sizeof`. -/
def IntWidth.size : IntWidth → ℕ
  | int8 => 1
  | int16 => 2
  | int32 => 4
  | int64 => 8

/-- An integer of one of the types. -/
structure TypedInt where
  width : IntWidth
  value : ℤ
  lo : -((256 ^ width.size : ℕ) : ℤ) ≤ 2 * value
  hi : 2 * value < ((256 ^ width.size : ℕ) : ℤ)
deriving DecidableEq, Repr

/-- Its two's complement, most significant byte first. -/
def TypedInt.wire (i : TypedInt) : List UInt8 :=
  beBytes i.width.size (toUnsigned i.width.size i.value)

theorem TypedInt.length_wire (i : TypedInt) : i.wire.length = i.width.size := length_beBytes _ _

namespace IoBuffer

/-! ## Model layer -/

section Model

variable (o : ByteOrder) (b : IoBuffer)

/-- The object `int_bt`: `x` converted to big-endian order, as it stands in memory. -/
def intObject (n : ℕ) (x : ℤ) : List UInt8 := o.bytes n (o.toBig n (toUnsigned n x))

def appendInt8 (x : ℤ) : Except Fault IoBuffer := b.append (o.bytes 1 (toUnsigned 1 x))
def appendInt16 (x : ℤ) : Except Fault IoBuffer := b.append (intObject o 2 x)
def appendInt64 (x : ℤ) : Except Fault IoBuffer := b.append (intObject o 8 x)

def setHeadContentInt8 (x : ℤ) : Except Fault IoBuffer :=
  b.setHeadContent (o.bytes 1 (toUnsigned 1 x))
def setHeadContentInt16 (x : ℤ) : Except Fault IoBuffer := b.setHeadContent (intObject o 2 x)
def setHeadContentInt32 (x : ℤ) : Except Fault IoBuffer := b.setHeadContent (intObject o 4 x)
def setHeadContentInt64 (x : ℤ) : Except Fault IoBuffer := b.setHeadContent (intObject o 8 x)

def getReadableInt8 : Except Fault ℤ :=
  if b.getReadableBytes < 1 then .ok 0
  else do
    let result ← b.load b.readingIndex 1
    return toSigned 1 (o.word result)

/-- The integers that are converted back; too few bytes read as 0. -/
def getReadableInt (n : ℕ) : Except Fault ℤ :=
  if b.getReadableBytes < n then .ok 0
  else do
    let result ← b.load b.readingIndex n
    return toSigned n (o.toBig n (o.word result))

def getReadableInt16 : Except Fault ℤ := b.getReadableInt o 2
def getReadableInt64 : Except Fault ℤ := b.getReadableInt o 8

/-- The integer is looked at and then taken, whether it was there or not. -/
def retrieveInt (n : ℕ) (peek : Except Fault ℤ) : Except Fault (ℤ × IoBuffer) := do
  let result ← peek
  return (result, b.refresh n)

def retrieveInt8 : Except Fault (ℤ × IoBuffer) := b.retrieveInt 1 (b.getReadableInt8 o)
def retrieveInt16 : Except Fault (ℤ × IoBuffer) := b.retrieveInt 2 (b.getReadableInt16 o)
def retrieveInt32 : Except Fault (ℤ × IoBuffer) := b.retrieveInt 4 b.getReadableInt32
def retrieveInt64 : Except Fault (ℤ × IoBuffer) := b.retrieveInt 8 (b.getReadableInt64 o)

def retrieveAByteArray (len : ℕ) : Except Fault (List UInt8 × IoBuffer) :=
  if b.getReadableBytes < len then .ok ([], b)
  else do
    let ret ← b.load b.readingIndex len
    return (ret, b.refresh len)

/-- The operation of the width. -/
def appendTyped (i : TypedInt) : Except Fault IoBuffer :=
  match i.width with
  | .int8 => b.appendInt8 o i.value
  | .int16 => b.appendInt16 o i.value
  | .int32 => b.appendInt32 i.value
  | .int64 => b.appendInt64 o i.value

def setHeadTyped (i : TypedInt) : Except Fault IoBuffer :=
  match i.width with
  | .int8 => b.setHeadContentInt8 o i.value
  | .int16 => b.setHeadContentInt16 o i.value
  | .int32 => b.setHeadContentInt32 o i.value
  | .int64 => b.setHeadContentInt64 o i.value

def retrieveTyped : IntWidth → Except Fault (ℤ × IoBuffer)
  | .int8 => b.retrieveInt8 o
  | .int16 => b.retrieveInt16 o
  | .int32 => b.retrieveInt32
  | .int64 => b.retrieveInt64 o

end Model

/-! ## What the operations do -/

variable {o : ByteOrder} {b b' : IoBuffer} {str : List UInt8}

theorem intObject_eq (o : ByteOrder) (n : ℕ) (x : ℤ) :
    intObject o n x = beBytes n (toUnsigned n x) := o.bytes_toBig n _

/-- The order of a single byte does not matter. -/
theorem bytes_one (o : ByteOrder) (x : ℕ) : o.bytes 1 x = beBytes 1 x := by
  cases o <;> rfl

theorem word_one (o : ByteOrder) {bs : List UInt8} (h : bs.length = 1) :
    o.word bs = ofBeBytes bs := by
  rcases List.length_eq_one_iff.mp h with ⟨x, rfl⟩
  cases o <;> rfl

/-- Every machine puts the same bytes on the wire. -/
theorem appendTyped_eq (o : ByteOrder) (b : IoBuffer) (i : TypedInt) :
    b.appendTyped o i = b.append i.wire := by
  rcases i with ⟨width, value, lo, hi⟩
  cases width with
  | int8 => exact congrArg b.append (bytes_one o _)
  | int16 => exact congrArg b.append (intObject_eq o 2 value)
  | int32 => rfl
  | int64 => exact congrArg b.append (intObject_eq o 8 value)

theorem setHeadTyped_eq (o : ByteOrder) (b : IoBuffer) (i : TypedInt) :
    b.setHeadTyped o i = b.setHeadContent i.wire := by
  rcases i with ⟨width, value, lo, hi⟩
  cases width with
  | int8 => exact congrArg b.setHeadContent (bytes_one o _)
  | int16 => exact congrArg b.setHeadContent (intObject_eq o 2 value)
  | int32 => exact congrArg b.setHeadContent (intObject_eq o 4 value)
  | int64 => exact congrArg b.setHeadContent (intObject_eq o 8 value)

theorem length_load {off n : ℕ} {bs : List UInt8} (h : b.load off n = .ok bs) : bs.length = n := by
  rw [load] at h
  split at h
  · next hfit =>
    cases h
    exact length_slice hfit
  · cases h

/-- A peek that reads the bytes of an integer most significant first. -/
theorem peek_eq {n : ℕ} {f : List UInt8 → ℤ}
    (hf : ∀ bs : List UInt8, bs.length = n → f bs = toSigned n (ofBeBytes bs)) :
    (if b.getReadableBytes < n then Except.ok 0
      else b.load b.readingIndex n >>= fun result => pure (f result)) = b.getReadableInt o n := by
  rw [getReadableInt]
  split
  · rfl
  · cases hload : b.load b.readingIndex n with
    | error e => rfl
    | ok bs =>
      have hlen := length_load hload
      rw [ok_bind, ok_bind, hf bs hlen, o.toBig_word hlen]

theorem getReadableInt8_eq (o : ByteOrder) (b : IoBuffer) :
    b.getReadableInt8 o = b.getReadableInt o 1 :=
  peek_eq fun _ hlen => congrArg (toSigned 1) (word_one o hlen)

theorem getReadableInt32_eq_swapped (o : ByteOrder) (b : IoBuffer) :
    b.getReadableInt32 = b.getReadableInt o 4 :=
  peek_eq fun _ _ => rfl

/-- All four widths are retrieved in the same way. -/
theorem retrieveTyped_eq (o : ByteOrder) (b : IoBuffer) (w : IntWidth) :
    b.retrieveTyped o w = b.retrieveInt w.size (b.getReadableInt o w.size) := by
  cases w with
  | int8 => exact congrArg (b.retrieveInt 1) (getReadableInt8_eq o b)
  | int16 => rfl
  | int32 => exact congrArg (b.retrieveInt 4) (getReadableInt32_eq_swapped o b)
  | int64 => rfl

/-- An integer whose bytes are there is read most significant byte first. -/
theorem retrieveTyped_spec (hb : b.Wf) (w : IntWidth) (hn : w.size ≤ b.getReadableBytes) :
    b.retrieveTyped o w =
      .ok (toSigned w.size (ofBeBytes (b.readable.take w.size)), b.refresh w.size) := by
  have hlen : (b.readable.take w.size).length = w.size := by
    rw [List.length_take, ← hb.getReadableBytes_length, Nat.min_eq_left hn]
  rw [retrieveTyped_eq, retrieveInt, getReadableInt, if_neg (by omega), load_take hb hn, ok_bind,
    o.toBig_word hlen]
  rfl

/-- An integer that is not there reads as 0, and what is there is given up. -/
theorem retrieveTyped_short (w : IntWidth) (hn : b.getReadableBytes < w.size) :
    b.retrieveTyped o w = .ok (0, b.refreshRW) := by
  have hrefresh : b.refresh w.size = b.refreshRW := by
    rw [refresh, if_neg (by omega)]
  rw [retrieveTyped_eq, retrieveInt, getReadableInt, if_pos hn, ok_bind, hrefresh]
  rfl

/-! ## A buffer that starts behind the reserved area -/

theorem writing_eq (hb : b.Wf) : b.writingIndex = b.readingIndex + b.readable.length := by
  have h := hb.reading_le
  have hlen := hb.length_readable
  omega

/-- Such a buffer grows and never moves its content. -/
theorem append_fits (hb : b.Wf) (hr : b.readingIndex = kReservedCapacity)
    (hmax : kReservedCapacity + (b.readable.length + str.length) ≤ maxSize) :
    ∃ b', b.append str = .ok b' ∧ b'.Wf ∧ b'.readable = b.readable ++ str ∧
      b'.readingIndex = kReservedCapacity := by
  have hw := writing_eq hb
  have hsize := maxSize_lt
  rcases ensureWritableSpace_room hb (not_compacts_of_reading hb hr (by omega))
    (by omega : b.writingIndex + str.length ≤ maxSize) with ⟨pad, hens, hroom, hle⟩
  rcases append_of_pad hb hens hroom hle with ⟨b', happ, hwf, hread, hr', -⟩
  exact ⟨b', happ, hwf, hread, hr'.trans hr⟩

theorem append_too_long (hb : b.Wf) (hr : b.readingIndex = kReservedCapacity)
    (hlen : str.length ≤ maxSize)
    (hmax : maxSize < kReservedCapacity + (b.readable.length + str.length)) :
    b.append str = .error .lengthError := by
  have hw := writing_eq hb
  have hsize := maxSize_lt
  rcases append_cases hb hlen (not_compacts_of_reading hb hr (by omega)) with
    h | ⟨b', -, hwf, -, -, hw'⟩
  · exact h
  · have hin := hwf.writing_le
    have hle := hwf.size_le
    omega

theorem setHeadContent_reading (hb : b.Wf) (hlen : str.length ≤ b.getReservedBytes)
    (h : b.setHeadContent str = .ok b') : b'.readingIndex + str.length = b.readingIndex := by
  have h1 := hb.reading_le
  have h2 := hb.writing_le
  have h3 := hb.size_le
  have h4 := maxSize_lt
  rw [getReservedBytes] at hlen
  rw [setHeadContent, getReservedBytes, if_neg (by omega), store] at h
  split at h
  · cases h
    show subSize b.readingIndex str.length + str.length = b.readingIndex
    rw [subSize_eq (by omega) hlen]
    omega
  · cases h

end IoBuffer

/-! ## Values -/

/-- What is appended: an integer or a string. -/
inductive Value where
  | int (i : TypedInt)
  | str (s : List UInt8)
deriving DecidableEq, Repr

/-- The calls that take something out of the buffer. -/
inductive Retrieval where
  | int (w : IntWidth)
  | aString (len : ℕ)
  | aByteArray (len : ℕ)
deriving DecidableEq, Repr

/-- What they return. -/
inductive Retrieved where
  | int (x : ℤ)
  | bytes (bs : List UInt8)
deriving DecidableEq, Repr

namespace Value

/-- The bytes of a value. -/
def wire : Value → List UInt8
  | int i => i.wire
  | str s => s

def append (o : ByteOrder) (b : IoBuffer) : Value → Except Fault IoBuffer
  | int i => b.appendTyped o i
  | str s => b.append s

/-- The call that takes the value out again. -/
def retrieval : Value → Retrieval
  | int i => .int i.width
  | str s => .aString s.length

def retrieved : Value → Retrieved
  | int i => .int i.value
  | str s => .bytes s

end Value

namespace Retrieval

/-- The number of bytes asked for. -/
def len : Retrieval → ℕ
  | int w => w.size
  | aString len | aByteArray len => len

/-- The zero or empty value. -/
def nothing : Retrieval → Retrieved
  | int _ => .int 0
  | aString _ | aByteArray _ => .bytes []

def exec (o : ByteOrder) (b : IoBuffer) : Retrieval → Except Fault (Retrieved × IoBuffer)
  | int w => (b.retrieveTyped o w).map fun r => (.int r.1, r.2)
  | aString len => (b.retrieveAString len).map fun r => (.bytes r.1, r.2)
  | aByteArray len => (b.retrieveAByteArray len).map fun r => (.bytes r.1, r.2)

end Retrieval

namespace IoBuffer

variable {o : ByteOrder} {b : IoBuffer} {v : Value} {vs : List Value} {heads : List TypedInt}

def appendAll (o : ByteOrder) : IoBuffer → List Value → Except Fault IoBuffer
  | b, [] => .ok b
  | b, v :: vs => do
    let b ← v.append o b
    appendAll o b vs

def setHeads (o : ByteOrder) : IoBuffer → List TypedInt → Except Fault IoBuffer
  | b, [] => .ok b
  | b, i :: heads => do
    let b ← b.setHeadTyped o i
    setHeads o b heads

def retrieveAll (o : ByteOrder) :
    IoBuffer → List Retrieval → Except Fault (List Retrieved × IoBuffer)
  | b, [] => .ok ([], b)
  | b, r :: rs => do
    let (x, b) ← r.exec o b
    let (xs, b) ← retrieveAll o b rs
    return (x :: xs, b)

/-- The values in the order in which they come out. -/
def inOrder (values : List Value) (heads : List TypedInt) : List Value :=
  heads.reverse.map .int ++ values

/-- The bytes of values in a row. -/
def wireOf (vs : List Value) : List UInt8 := vs.flatMap Value.wire

/-- Append the values to a fresh buffer, set the heads, look at the readable bytes and
retrieve everything again. -/
def roundTrip (o : ByteOrder) (cap : ℕ) (values : List Value) (heads : List TypedInt) :
    Except Fault (List UInt8 × List Retrieved × IoBuffer) := do
  let b ← new cap
  let b ← appendAll o b values
  let b ← setHeads o b heads
  let (xs, b') ← retrieveAll o b ((inOrder values heads).map Value.retrieval)
  return (b.readable, xs, b')

theorem append_eq (o : ByteOrder) (b : IoBuffer) (v : Value) : v.append o b = b.append v.wire := by
  cases v with
  | int i => exact appendTyped_eq o b i
  | str s => rfl

theorem appendAll_fits (hb : b.Wf) (hr : b.readingIndex = kReservedCapacity)
    (hmax : kReservedCapacity + (b.readable.length + (wireOf vs).length) ≤ maxSize) :
    ∃ b', appendAll o b vs = .ok b' ∧ b'.Wf ∧ b'.readable = b.readable ++ wireOf vs ∧
      b'.readingIndex = kReservedCapacity := by
  induction vs generalizing b with
  | nil => exact ⟨b, rfl, hb, (List.append_nil _).symm, hr⟩
  | cons v vs ih =>
    have hcons : wireOf (v :: vs) = v.wire ++ wireOf vs := List.flatMap_cons
    rw [hcons, List.length_append] at hmax
    rcases append_fits hb hr (by omega : _ + (_ + v.wire.length) ≤ _) with
      ⟨b₁, happ, hwf, hread, hr₁⟩
    have hlen : b₁.readable.length = b.readable.length + v.wire.length := by
      rw [hread, List.length_append]
    rcases ih hwf hr₁ (by omega) with ⟨b', hall, hwf', hread', hr'⟩
    refine ⟨b', ?_, hwf', ?_, hr'⟩
    · rw [appendAll, append_eq, happ, ok_bind, hall]
    · rw [hread', hread, hcons, List.append_assoc]

/-- What the vector cannot hold is refused. -/
theorem appendAll_too_long (hb : b.Wf) (hr : b.readingIndex = kReservedCapacity)
    (hlen : ∀ v ∈ vs, v.wire.length ≤ maxSize)
    (hmax : maxSize < kReservedCapacity + (b.readable.length + (wireOf vs).length)) :
    appendAll o b vs = .error .lengthError := by
  induction vs generalizing b with
  | nil =>
    -- what is in the buffer already does fit
    have hw := writing_eq hb
    have hin := hb.writing_le
    have hle := hb.size_le
    rw [wireOf, List.flatMap_nil, List.length_nil] at hmax
    omega
  | cons v vs ih =>
    have hcons : wireOf (v :: vs) = v.wire ++ wireOf vs := List.flatMap_cons
    rw [hcons, List.length_append] at hmax
    rw [appendAll, append_eq]
    by_cases hfits : kReservedCapacity + (b.readable.length + v.wire.length) ≤ maxSize
    · rcases append_fits hb hr hfits with ⟨b₁, happ, hwf, hread, hr₁⟩
      have hlen₁ : b₁.readable.length = b.readable.length + v.wire.length := by
        rw [hread, List.length_append]
      rw [happ, ok_bind]
      exact ih hwf hr₁ (fun v' hv' => hlen v' (List.mem_cons_of_mem _ hv')) (by omega)
    · rw [append_too_long hb hr (hlen v List.mem_cons_self) (by omega), error_bind]

theorem wireOf_append (vs ws : List Value) : wireOf (vs ++ ws) = wireOf vs ++ wireOf ws :=
  List.flatMap_append

theorem wireOf_heads_cons (i : TypedInt) (heads : List TypedInt) :
    wireOf ((i :: heads).reverse.map .int) = wireOf (heads.reverse.map .int) ++ i.wire := by
  have hone : wireOf [Value.int i] = i.wire := List.append_nil _
  rw [List.reverse_cons, List.map_append, wireOf_append]
  exact congrArg (wireOf (heads.reverse.map .int) ++ ·) hone

/-- The number of bytes of the heads. -/
def headBytes (heads : List TypedInt) : ℕ := (heads.map fun i => i.width.size).sum

/-- Each head goes in front of the ones before. -/
theorem setHeads_fits (hb : b.Wf) (hfits : headBytes heads ≤ b.readingIndex) :
    ∃ b', setHeads o b heads = .ok b' ∧ b'.Wf ∧
      b'.readable = wireOf (heads.reverse.map .int) ++ b.readable ∧
      b'.readingIndex + headBytes heads = b.readingIndex := by
  induction heads generalizing b with
  | nil => exact ⟨b, rfl, hb, rfl, rfl⟩
  | cons i heads ih =>
    have hsum : headBytes (i :: heads) = i.width.size + headBytes heads := List.sum_cons
    have hwire := i.length_wire
    have hroom : i.wire.length ≤ b.getReservedBytes := by
      rw [getReservedBytes]
      omega
    rcases setHeadContent_spec hb hroom with ⟨b₁, hset, hwf, hread⟩
    have hr₁ := setHeadContent_reading hb hroom hset
    rcases ih hwf (by omega) with ⟨b', hall, hwf', hread', hr'⟩
    refine ⟨b', ?_, hwf', ?_, by omega⟩
    · rw [setHeads, setHeadTyped_eq, hset, ok_bind, hall]
    · rw [hread', hread, wireOf_heads_cons, List.append_assoc]

/-- A value at the front is taken out as it was put in. -/
theorem exec_retrieval (hb : b.Wf) {rest : List UInt8} (h : b.readable = v.wire ++ rest) :
    v.retrieval.exec o b = .ok (v.retrieved, b.refresh v.wire.length) := by
  have hreadable : v.wire.length ≤ b.getReadableBytes := by
    rw [hb.getReadableBytes_length, h, List.length_append]
    omega
  cases v with
  | int i =>
    have hwire := i.length_wire
    have htake : b.readable.take i.width.size = i.wire := by
      rw [h]
      exact List.take_left' hwire
    have hback : toSigned i.width.size (ofBeBytes i.wire) = i.value := by
      rw [TypedInt.wire, ofBeBytes_beBytes, Nat.mod_eq_of_lt (toUnsigned_lt _ _)]
      exact toSigned_toUnsigned i.lo i.hi
    have hspec := retrieveTyped_spec (o := o) hb i.width (hwire ▸ hreadable)
    rw [htake, hback] at hspec
    show (b.retrieveTyped o i.width).map _ = _
    rw [hspec, ← hwire]
    rfl
  | str s =>
    have htake : b.readable.take s.length = s := by
      rw [h]
      exact List.take_left
    have hspec := retrieveAString_spec hb hreadable
    show (b.retrieveAString s.length).map _ = _
    change b.retrieveAString s.length = .ok (b.readable.take s.length, _) at hspec
    rw [hspec, htake]
    rfl

/-- An empty buffer starts over behind the reserved area. -/
def Rests (b : IoBuffer) : Prop :=
  b.readable = [] → b.readingIndex = kReservedCapacity ∧ b.writingIndex = kReservedCapacity

theorem rests_of_reading (hb : b.Wf)
    (h : b.readable = [] → b.readingIndex = kReservedCapacity) : b.Rests := by
  intro hnil
  have hw := writing_eq hb
  rw [hnil, List.length_nil] at hw
  exact ⟨h hnil, hw.trans (h hnil)⟩

theorem retrieveAll_spec (hb : b.Wf) (hrests : b.Rests) (h : b.readable = wireOf vs) :
    ∃ b', retrieveAll o b (vs.map Value.retrieval) = .ok (vs.map Value.retrieved, b') ∧
      b'.readable = [] ∧ b'.readingIndex = kReservedCapacity ∧
      b'.writingIndex = kReservedCapacity := by
  induction vs generalizing b with
  | nil => exact ⟨b, rfl, h, hrests h⟩
  | cons v vs ih =>
    have hcons : wireOf (v :: vs) = v.wire ++ wireOf vs := List.flatMap_cons
    rw [hcons] at h
    have hlen : v.wire.length ≤ b.getReadableBytes := by
      rw [hb.getReadableBytes_length, h, List.length_append]
      omega
    rcases refresh_spec hb hlen with ⟨hwf, hread⟩
    rw [h, List.drop_left] at hread
    rcases ih hwf (rests_of_reading hwf (refresh_empty hb)) hread with ⟨b', hall, hend⟩
    refine ⟨b', ?_, hend⟩
    rw [List.map_cons, retrieveAll, exec_retrieval hb h, ok_bind]
    dsimp only
    rw [hall]
    rfl

theorem headBytes_eq (heads : List TypedInt) :
    (wireOf (heads.reverse.map .int)).length = headBytes heads := by
  induction heads with
  | nil => rfl
  | cons i heads ih =>
    have hsum : headBytes (i :: heads) = i.width.size + headBytes heads := List.sum_cons
    have hwire := i.length_wire
    rw [wireOf_heads_cons, List.length_append, ih, hwire, hsum, Nat.add_comm]

/-- **Typed values survive the buffer.** When the size of the fresh buffer does not wrap and
the heads fit into the reserved area, the readable bytes are the two's complements of the
integers in big-endian order and the strings, the retrievals give the values back, and the
buffer ends empty behind the reserved area; if the vector cannot hold the values, though it
could hold each, the constructor or an append throws. -/
theorem typed_values_survive (o : ByteOrder) (cap : ℕ) (values : List Value)
    (heads : List TypedInt) (hcap : kReservedCapacity + cap < sizeRange)
    (hheads : headBytes heads ≤ kReservedCapacity) :
    (kReservedCapacity + cap ≤ maxSize →
      kReservedCapacity + (wireOf values).length ≤ maxSize →
      ∃ b, roundTrip o cap values heads = .ok (wireOf (inOrder values heads),
          (inOrder values heads).map Value.retrieved, b) ∧
        b.readable = [] ∧ b.readingIndex = kReservedCapacity ∧
        b.writingIndex = kReservedCapacity) ∧
    (maxSize < kReservedCapacity + cap ∨ maxSize < kReservedCapacity + (wireOf values).length →
      (∀ v ∈ values, v.wire.length ≤ maxSize) →
      roundTrip o cap values heads = .error .lengthError) := by
  constructor
  · intro hnew hmax
    rcases new_ok hnew with ⟨b₀, h₀, hwf₀, hread₀, hr₀, -, -⟩
    have hmax₀ : kReservedCapacity + (b₀.readable.length + (wireOf values).length) ≤ maxSize := by
      rw [hread₀, List.length_nil, Nat.zero_add]
      exact hmax
    rcases appendAll_fits (o := o) hwf₀ hr₀ hmax₀ with ⟨b₁, h₁, hwf₁, hread₁, hr₁⟩
    rcases @setHeads_fits o b₁ heads hwf₁ (by omega) with ⟨b₂, h₂, hwf₂, hread₂, hr₂⟩
    have hwire : b₂.readable = wireOf (inOrder values heads) := by
      rw [hread₂, hread₁, hread₀, List.nil_append, inOrder, wireOf_append]
    -- an empty buffer has no heads in it, so its indices have not moved
    have hrests : b₂.Rests := by
      refine rests_of_reading hwf₂ fun hnil => ?_
      rw [hread₂, List.append_eq_nil_iff] at hnil
      have hzero := headBytes_eq heads
      rw [hnil.1, List.length_nil] at hzero
      omega
    rcases retrieveAll_spec (o := o) hwf₂ hrests hwire with ⟨b, h₃, hend⟩
    refine ⟨b, ?_, hend⟩
    rw [roundTrip, h₀, ok_bind, h₁, ok_bind, h₂, ok_bind, h₃, ← hwire]
    rfl
  · intro hmax hlen
    by_cases hnew : kReservedCapacity + cap ≤ maxSize
    · rcases new_ok hnew with ⟨b₀, h₀, hwf₀, hread₀, hr₀, -, -⟩
      have hmax₀ : maxSize < kReservedCapacity + (b₀.readable.length + (wireOf values).length) := by
        rw [hread₀, List.length_nil, Nat.zero_add]
        exact hmax.resolve_left (by omega)
      rw [roundTrip, h₀, ok_bind, appendAll_too_long hwf₀ hr₀ hlen hmax₀, error_bind]
    · rw [roundTrip, new, addSize_eq hcap, if_pos (by omega), error_bind]

/-- The theorem at a buffer of two bytes that has to grow, with two heads. -/
theorem typed_values_survive_growth :
    ∃ b, roundTrip .little 2
        [.int ⟨.int16, -2, by decide, by decide⟩, .str [7, 7], .int ⟨.int64, 5, by decide, by decide⟩]
        [⟨.int8, -1, by decide, by decide⟩, ⟨.int32, 300, by decide, by decide⟩] =
      .ok ([0, 0, 1, 44] ++ [255] ++ [255, 254] ++ [7, 7] ++ [0, 0, 0, 0, 0, 0, 0, 5],
        [.int 300, .int (-1), .int (-2), .bytes [7, 7], .int 5], b) ∧
      b.readable = [] ∧ b.readingIndex = 8 ∧ b.writingIndex = 8 :=
  (typed_values_survive .little 2 _ _ (by decide) (by decide)).1 (by decide) (by decide)

/-- A capacity of `2 ^ 63` bytes is more than a vector can have, and the constructor throws.
With `2 ^ 64 - 8` bytes the size wraps: `buffer_` is empty, both indices are 8, and the first
byte is written outside. -/
theorem no_room_for_capacity :
    roundTrip .little 9223372036854775808 [] [] = .error .lengthError ∧
    roundTrip .little 18446744073709551608 [.int ⟨.int8, 1, by decide, by decide⟩] [] =
      .error .outOfBounds := by
  decide +kernel

/-! ## Failed retrievals -/

/-- **A failed retrieval.** When fewer bytes are readable than are asked for, the call
returns the zero or empty value. It changes nothing if it is for a string or an array, or if
both indices are at the reserved area; otherwise what is readable is given up, or the indices
move. -/
theorem failed_retrieval (o : ByteOrder) (b : IoBuffer) (r : Retrieval)
    (h : b.getReadableBytes < r.len) :
    ∃ b', r.exec o b = .ok (r.nothing, b') ∧ b'.buffer = b.buffer ∧
      ((b'.readable = b.readable ∧ b'.readingIndex = b.readingIndex ∧
          b'.writingIndex = b.writingIndex) ↔
        (∀ w, r ≠ .int w) ∨
          (b.readingIndex = kReservedCapacity ∧ b.writingIndex = kReservedCapacity)) := by
  cases r with
  | int w =>
    refine ⟨b.refreshRW, ?_, rfl, ?_⟩
    · rw [Retrieval.exec, retrieveTyped_short w h]
      rfl
    · constructor
      · rintro ⟨-, hr, hw⟩
        exact .inr ⟨hr.symm, hw.symm⟩
      · rintro (hint | ⟨hr, hw⟩)
        · exact absurd rfl (hint w)
        · have hsame : b.refreshRW = b := by
            rw [refreshRW, ← hr]
            nth_rewrite 2 [hr]
            rw [← hw]
          exact ⟨congrArg readable hsame, hr.symm, hw.symm⟩
  | aString len =>
    have h : b.getReadableBytes < len := h
    have hint : ∀ w, Retrieval.aString len ≠ .int w := by
      intro w hw
      cases hw
    refine ⟨b, ?_, rfl, fun _ => .inl hint, fun _ => ⟨rfl, rfl, rfl⟩⟩
    rw [Retrieval.exec, retrieveAString, if_pos h]
    rfl
  | aByteArray len =>
    have h : b.getReadableBytes < len := h
    have hint : ∀ w, Retrieval.aByteArray len ≠ .int w := by
      intro w hw
      cases hw
    refine ⟨b, ?_, rfl, fun _ => .inl hint, fun _ => ⟨rfl, rfl, rfl⟩⟩
    rw [Retrieval.exec, retrieveAByteArray, if_pos h]
    rfl

/-- The theorem at a string of three bytes of which two have arrived. -/
theorem string_waits_for_bytes :
    ∃ b', (Retrieval.aString 3).exec .little ⟨List.replicate 8 0 ++ [1, 2], 8, 10⟩ =
        .ok (.bytes [], b') ∧ b'.readable = [1, 2] := by
  rcases failed_retrieval .little ⟨List.replicate 8 0 ++ [1, 2], 8, 10⟩ (.aString 3)
    (by decide +kernel) with ⟨b', hexec, -, hsame⟩
  exact ⟨b', hexec, (hsame.mpr (.inl nofun)).1.trans (by decide)⟩

/-- Three bytes of a 32-bit integer have arrived. `RetrieveInt32` returns 0 and gives them
up, so the fourth byte finds nothing to complete. -/
theorem partial_integer_given_up :
    ∃ b b', (new 8 >>= fun b => b.append [0, 0, 1]) = .ok b ∧ b.readable = [0, 0, 1] ∧
      b.retrieveInt32 = .ok (0, b') ∧ b'.readable = [] ∧
      (b'.append [2] >>= fun b => b.getReadableInt32) = .ok 0 := by
  refine ⟨⟨List.replicate 8 0 ++ [0, 0, 1, 0, 0, 0, 0, 0], 8, 11⟩,
    ⟨List.replicate 8 0 ++ [0, 0, 1, 0, 0, 0, 0, 0], 8, 8⟩, ?_⟩
  decide +kernel

end IoBuffer

end Taotu
