import Taotu.Buffer.TypedValues
import Taotu.Rpc.SyncChannel

/-!
# Taotu.Buffer.SpaceTest — the test of `ReserveWritableSpace` (`io_buffer.cc`)

`ReserveWritableSpace` compares the space behind and in front of the content, less the
reserved area, with what is asked for. The three terms are `size_t` values, and nothing in
the source keeps the difference from wrapping: `SetHeadContent` uses up the space in front,
and appending the space behind.

1. **Calls.** Every public call that changes the buffer, with what the kernel answers as
   arguments, and what it leaves behind: it may return, throw, or leave `buffer_`.
2. **What the test needs.** It is right exactly when the content and the reserved area fit
   into `buffer_` together (`spaceTestRight_iff`).
3. **Runs.** `Roomy` says for each call whether this stays so (`space_test_right`).
-/

namespace Taotu.IoBuffer

open Lib

/-! ## Calls -/

/-- The public calls that change the buffer. The results of `recvmsg` and `recv` and the
bytes they deliver are arguments. -/
inductive Call where
  | op (op : Op)
  | refreshW (len : ℕ)
  | appendTyped (i : TypedInt)
  | setHeadTyped (i : TypedInt)
  | retrieve (r : Retrieval)
  | readFromFd (n : ℤ) (data : List UInt8)
  | readFully (readLen : ℕ) (inbound : List UInt8) (results : List ℤ)
deriving DecidableEq, Repr

/-- How a call ends. A loop that runs out of results of `recv` is still running. -/
inductive Outcome where
  | returned (b : IoBuffer)
  | thrown (b : IoBuffer)
  | running
  | undefined
deriving DecidableEq, Repr

/-- An exception leaves the buffer `b`. -/
def Outcome.of (b : IoBuffer) : Except Fault IoBuffer → Outcome
  | .ok b' => .returned b'
  | .error .lengthError => .thrown b
  | .error _ => .undefined

/-- The size of `extra_buffer`. -/
def kExtraBytes : ℕ := 65536

/-- `int writable_bytes`, which `iov_len` and the comparison convert back to `size_t`. -/
def writableInt (b : IoBuffer) : ℤ := toInt32 b.getWritableBytes

/-- `ReadFromFd(fd, tmp_errno)`: `recvmsg` returns `n` and puts `data` behind the content
and then into the extra buffer. -/
def readDiscrete (b : IoBuffer) (n : ℤ) (data : List UInt8) : Outcome :=
  let writableBytes := toSize b.writableInt
  if n < 0 then .returned b
  else
    match b.store b.writingIndex (data.take writableBytes) with
    | .error _ => .undefined
    | .ok b =>
      if toSize n ≤ writableBytes then
        .returned { b with writingIndex := addSize b.writingIndex (toSize n) }
      else
        let b := { b with writingIndex := b.buffer.length }
        .of b (b.append (data.drop writableBytes))

def call (o : ByteOrder) (b : IoBuffer) : Call → Outcome
  | .op op => .of b ((b.exec op).map Prod.snd)
  | .refreshW len => .returned (b.refreshW len)
  | .appendTyped i => .of b (b.appendTyped o i)
  | .setHeadTyped i => .of b (b.setHeadTyped o i)
  | .retrieve r => .of b ((r.exec o b).map Prod.snd)
  | .readFromFd n data => b.readDiscrete n data
  | .readFully readLen inbound results =>
    match readFromFd readLen (b, inbound, results) with
    | .ok (some (b', _, _)) => .returned b'
    | .ok none => .running
    | .error .lengthError => .thrown b
    | .error _ => .undefined

/-- What the caller and the kernel owe: sizes are `size_t` values, strings exist in memory,
`RefreshW` is told no more than there was room for, and `recvmsg` delivers as many bytes as
it says, no more than the vectors it was given hold. -/
def CallLegal (b : IoBuffer) : Call → Prop
  | .op (.append str) => str.length ≤ maxSize
  | .op (.ensureWritableSpace len) => len < sizeRange
  | .op _ => True
  | .refreshW len => len ≤ b.getWritableBytes
  | .appendTyped _ | .setHeadTyped _ | .retrieve _ => True
  | .readFromFd n data => 0 ≤ n → (data.length : ℤ) = n ∧ 0 ≤ b.writableInt ∧
      data.length ≤ b.writableInt.toNat + (if b.writableInt < kExtraBytes then kExtraBytes else 0)
  | .readFully readLen _ _ => readLen < sizeRange

/-- No size asked of the vector wraps; the blocking read does not move the content, which
would gain it no room. -/
def Unwrapped (b : IoBuffer) : Call → Prop
  | .op (.ensureWritableSpace len) => ¬ b.Overflows len
  | .op (.shrinkWritableSpace len) => ¬ b.ShrinkOverflows len
  | .readFully readLen _ _ => ¬ b.Overflows readLen ∧ ¬ b.Compacts readLen
  | _ => True

/-- `k` bytes in front of the content leave as much space as the reserved area takes. -/
def RoomyFront (b : IoBuffer) (k : ℕ) : Prop :=
  k ≤ b.getReservedBytes → b.getReadableBytes + k + kReservedCapacity ≤ b.buffer.length

/-- So do `k` bytes behind it. When the buffer has to grow it gets no more than these bytes
need, and the space in front of the content is all there is. -/
def RoomyBack (b : IoBuffer) (k : ℕ) : Prop :=
  if k ≤ b.getWritableBytes then b.getReadableBytes + k + kReservedCapacity ≤ b.buffer.length
  else kReservedCapacity ≤ b.getReservedBytes

def Roomy (b : IoBuffer) : Call → Prop
  | .op (.append str) => b.RoomyBack str.length
  | .op (.setHeadContent str) => b.RoomyFront str.length
  | .op _ => True
  | .refreshW len => b.RoomyBack len
  | .appendTyped i => b.RoomyBack i.width.size
  | .setHeadTyped i => b.RoomyFront i.width.size
  | .retrieve _ => True
  | .readFromFd n data =>
    0 ≤ n → if toSize n ≤ toSize b.writableInt then b.RoomyBack data.length
      else kReservedCapacity ≤ b.getReservedBytes
  | .readFully readLen _ _ => b.RoomyBack readLen

instance (b : IoBuffer) (k : ℕ) : Decidable (b.RoomyFront k) :=
  inferInstanceAs (Decidable (k ≤ _ → _ ≤ _))

instance (b : IoBuffer) (k : ℕ) : Decidable (b.RoomyBack k) :=
  inferInstanceAs (Decidable (if k ≤ _ then _ ≤ _ else _ ≤ _))

instance (b : IoBuffer) : ∀ c, Decidable (b.CallLegal c)
  | .op (.append _) | .refreshW _ => inferInstanceAs (Decidable (_ ≤ _))
  | .op (.ensureWritableSpace _) | .readFully _ _ _ => inferInstanceAs (Decidable (_ < _))
  | .op (.shrinkWritableSpace _) | .op (.refresh _) | .op (.retrieveAString _) | .op .refreshRW
  | .op (.setHeadContent _) | .op (.writeToFd _) | .appendTyped _ | .setHeadTyped _
  | .retrieve _ => inferInstanceAs (Decidable True)
  | .readFromFd n data => inferInstanceAs (Decidable (0 ≤ n → (data.length : ℤ) = n ∧ _ ≤ _ ∧ _ ≤ _))

instance (b : IoBuffer) : ∀ c, Decidable (b.Unwrapped c)
  | .op (.ensureWritableSpace len) => inferInstanceAs (Decidable ¬ b.Overflows len)
  | .op (.shrinkWritableSpace len) => inferInstanceAs (Decidable ¬ b.ShrinkOverflows len)
  | .readFully len _ _ => inferInstanceAs (Decidable (¬ b.Overflows len ∧ ¬ b.Compacts len))
  | .op (.append _) | .op (.refresh _) | .op (.retrieveAString _) | .op .refreshRW
  | .op (.setHeadContent _) | .op (.writeToFd _) | .refreshW _ | .appendTyped _ | .setHeadTyped _
  | .retrieve _ | .readFromFd _ _ => inferInstanceAs (Decidable True)

instance (b : IoBuffer) : ∀ c, Decidable (b.Roomy c)
  | .op (.append str) => inferInstanceAs (Decidable (b.RoomyBack str.length))
  | .op (.setHeadContent str) => inferInstanceAs (Decidable (b.RoomyFront str.length))
  | .refreshW len | .readFully len _ _ => inferInstanceAs (Decidable (b.RoomyBack len))
  | .appendTyped i => inferInstanceAs (Decidable (b.RoomyBack i.width.size))
  | .setHeadTyped i => inferInstanceAs (Decidable (b.RoomyFront i.width.size))
  | .op (.ensureWritableSpace _) | .op (.shrinkWritableSpace _) | .op (.refresh _)
  | .op (.retrieveAString _) | .op .refreshRW | .op (.writeToFd _)
  | .retrieve _ => inferInstanceAs (Decidable True)
  | .readFromFd n data => inferInstanceAs (Decidable
      (0 ≤ n → if toSize n ≤ toSize b.writableInt then b.RoomyBack data.length else _ ≤ _))

/-! ## What the test needs -/

/-- When `ReserveWritableSpace(len)` is entered, the expression of the test is the space that
can be reclaimed, and the content is moved only if it then fits together with `len` bytes. -/
def SpaceTestRight (b : IoBuffer) : Prop :=
  ∀ len < sizeRange, b.getWritableBytes < len →
    kReservedCapacity ≤ b.getWritableBytes + b.getReservedBytes ∧
    subSize (addSize b.getWritableBytes b.getReservedBytes) kReservedCapacity =
      b.getWritableBytes + b.getReservedBytes - kReservedCapacity ∧
    (b.Compacts len → kReservedCapacity + b.getReadableBytes + len ≤ b.buffer.length)

/-- There is space for the reserved area beside the content. -/
def Spacious (b : IoBuffer) : Prop :=
  kReservedCapacity ≤ b.buffer.length - b.writingIndex + b.readingIndex

variable {o : ByteOrder} {b b' : IoBuffer}

/-- Content is moved only when that makes room, unless the test has wrapped. -/
theorem Spacious.of_compacts (hs : b.Spacious) (hb : b.Wf) {len : ℕ} (hlen : len < sizeRange)
    (hc : b.Compacts len) :
    b.buffer.length - b.writingIndex < len ∧
      len + kReservedCapacity ≤ b.buffer.length - b.writingIndex + b.readingIndex := by
  have hspace := (hb.compacts_iff hlen).mp hc
  rw [Spacious] at hs
  rwa [if_pos hs] at hspace

theorem spaceTestRight_iff (hb : b.Wf) : b.SpaceTestRight ↔ b.Spacious := by
  have h1 := hb.reading_le
  have h2 := hb.writing_le
  have h3 := hb.size_le
  have h4 := maxSize_lt
  constructor
  · intro h
    have hsome : b.getWritableBytes + 1 < sizeRange := by
      have hpos := hb.reserved_le
      unfold kReservedCapacity at hpos
      rw [hb.getWritableBytes_eq]
      omega
    have hright := h (b.getWritableBytes + 1) hsome (Nat.lt_succ_self _)
    rw [hb.getWritableBytes_eq] at hright
    exact hright.1
  · intro h len hlen hwritable
    have hsum : addSize b.getWritableBytes b.getReservedBytes =
        b.getWritableBytes + b.getReservedBytes := by
      rw [hb.getWritableBytes_eq, getReservedBytes]
      exact addSize_eq (by omega)
    have hle : kReservedCapacity ≤ b.getWritableBytes + b.getReservedBytes := by
      rw [hb.getWritableBytes_eq]
      exact h
    refine ⟨hle, ?_, ?_⟩
    · rw [hsum, subSize_eq (by rw [← hsum]; exact addSize_lt _ _) hle]
    · intro hc
      have hspace := h.of_compacts hb hlen hc
      rw [hb.getReadableBytes_eq]
      omega

/-! ## One call -/

theorem Outcome.of_returned {r : Except Fault IoBuffer} (h : Outcome.of b r = .returned b') :
    r = .ok b' := by
  cases r with
  | ok b₁ =>
    cases h
    rfl
  | error e => cases e <;> cases h

theorem Outcome.of_thrown {r : Except Fault IoBuffer} (h : Outcome.of b r = .thrown b') :
    b' = b := by
  cases r with
  | ok b₁ => cases h
  | error e =>
    cases e with
    | lengthError =>
      cases h
      rfl
    | outOfBounds | badFunctionCall => cases h

theorem spacious_of_reading (h : kReservedCapacity ≤ b.readingIndex) : b.Spacious :=
  h.trans (Nat.le_add_left _ _)

/-- Room made without moving the content is no more than is asked for. -/
theorem ensureWritableSpace_size (hb : b.Wf) {len : ℕ} (hc : ¬ b.Compacts len)
    (ho : ¬ b.Overflows len) (h : b.ensureWritableSpace len = .ok b') :
    b'.Wf ∧ b'.readingIndex = b.readingIndex ∧ b'.writingIndex = b.writingIndex ∧
      b'.buffer.length = max b.buffer.length (b.writingIndex + len) := by
  rcases ensureWritableSpace_cases hb hc ho with he | ⟨pad, hp, hroom, hmax⟩
  · cases he.symm.trans h
  · cases hp.symm.trans h
    refine ⟨hb.pad hmax, rfl, rfl, ?_⟩
    have h2 := hb.writing_le
    have h4 := maxSize_lt
    rw [ensureWritableSpace] at h
    split at h
    · next hw =>
      have hgrow : subSize (addSize b.getWritableBytes b.getReservedBytes) kReservedCapacity < len := by
        by_contra hle
        exact hc ⟨hw, by omega⟩
      rw [hb.getWritableBytes_eq] at hw
      rw [reserveWritableSpace, if_pos hgrow, addSize_eq (by omega), resize, if_neg (by omega)] at h
      have hbuf := congrArg (fun r => List.length (buffer r)) (Except.ok.inj h)
      simp only [List.length_append, List.length_take, List.length_replicate] at hbuf
      rw [List.length_append, ← hbuf]
      omega
    · next hw =>
      rw [hb.getWritableBytes_eq] at hw
      have hbuf := congrArg (fun r => List.length (buffer r)) (Except.ok.inj h)
      rw [← hbuf]
      exact (Nat.max_eq_left (by omega)).symm

theorem append_size (hb : b.Wf) {str : List UInt8} (hlen : str.length ≤ maxSize)
    (h : b.append str = .ok b') :
    b'.Wf ∧ b'.readingIndex = b.readingIndex ∧ b'.writingIndex = b.writingIndex + str.length ∧
      b'.buffer.length = max b.buffer.length (b.writingIndex + str.length) := by
  have hc : ¬ b.Compacts str.length := by
    intro hc
    cases (append_of_compacts hb hlen hc).symm.trans h
  rcases append_cases hb hlen hc with he | ⟨b₁, hb₁, hwf, -, hr, hw⟩
  · cases he.symm.trans h
  · cases hb₁.symm.trans h
    refine ⟨hwf, hr, hw, ?_⟩
    obtain ⟨b₂, hens, hrest⟩ := bind_eq_ok h
    obtain ⟨-, -, hw₂, hsize⟩ := ensureWritableSpace_size hb hc (not_overflows_of_le hb hlen) hens
    rw [store_ok (by rw [hw₂, hsize]; exact le_max_right _ _), ok_bind] at hrest
    cases hrest
    show (blit b₂.buffer b₂.writingIndex str).length = _
    rw [length_blit (by rw [hw₂, hsize]; exact le_max_right _ _), hsize]

/-- What bytes behind the content do to the space, whoever put them there. -/
theorem spacious_back_iff (hb : b.Wf) {k : ℕ} (hr : b'.readingIndex = b.readingIndex)
    (hw : b'.writingIndex = b.writingIndex + k)
    (hsize : b'.buffer.length = max b.buffer.length (b.writingIndex + k)) :
    b'.Spacious ↔ b.RoomyBack k := by
  have h1 := hb.reading_le
  have h2 := hb.writing_le
  rw [Spacious, RoomyBack, hb.getWritableBytes_eq, hb.getReadableBytes_eq, getReservedBytes, hr, hw,
    hsize]
  split <;> omega

theorem append_spacious (hb : b.Wf) {str : List UInt8} (hlen : str.length ≤ maxSize)
    (h : b.append str = .ok b') : b'.Wf ∧ (b'.Spacious ↔ b.RoomyBack str.length) := by
  obtain ⟨hwf, hr, hw, hsize⟩ := append_size hb hlen h
  exact ⟨hwf, spacious_back_iff hb hr hw hsize⟩

theorem setHeadContent_spacious (hb : b.Wf) (hs : b.Spacious) {str : List UInt8}
    (h : b.setHeadContent str = .ok b') : b'.Wf ∧ (b'.Spacious ↔ b.RoomyFront str.length) := by
  have h1 := hb.reading_le
  have h2 := hb.writing_le
  by_cases hlen : str.length ≤ b.getReservedBytes
  · obtain ⟨b₁, hb₁, hwf, hread⟩ := setHeadContent_spec hb hlen
    cases hb₁.symm.trans h
    have hr := setHeadContent_reading hb hlen h
    rw [setHeadContent, if_neg (by omega), store] at h
    split at h
    · next hfit =>
      cases h
      refine ⟨hwf, ?_⟩
      rw [Spacious, RoomyFront, hb.getReadableBytes_eq]
      simp only [length_blit hfit] at hr ⊢
      omega
    · cases h
  · -- too long a head is refused
    rw [setHeadContent, if_pos (by omega)] at h
    cases h
    exact ⟨hb, fun _ hle => absurd hle hlen, fun _ => hs⟩

/-- Taking bytes out only adds to the space. -/
theorem refresh_spacious (hb : b.Wf) (hs : b.Spacious) (len : ℕ) :
    (b.refresh len).Wf ∧ (b.refresh len).Spacious := by
  refine ⟨refresh_wf hb len, ?_⟩
  by_cases hlen : len < b.getReadableBytes
  · have h2 := hb.writing_le
    have h3 := hb.size_le
    have h4 := maxSize_lt
    rw [hb.getReadableBytes_eq] at hlen
    rw [refresh, hb.getReadableBytes_eq, if_pos hlen, addSize_eq (by omega)]
    exact hs.trans (Nat.add_le_add_left (Nat.le_add_right _ _) _)
  · rw [refresh, if_neg hlen]
    exact spacious_of_reading le_rfl

/-- A retrieval takes bytes out or leaves the buffer alone. -/
theorem retrieve_spacious (hb : b.Wf) (hs : b.Spacious) (r : Retrieval) :
    ∃ b', (r.exec o b).map Prod.snd = .ok b' ∧ b'.Wf ∧ b'.Spacious := by
  by_cases hlen : b.getReadableBytes < r.len
  · cases r with
    | int w =>
      refine ⟨b.refreshRW, ?_, (refreshRW_spec hb).1, spacious_of_reading le_rfl⟩
      rw [Retrieval.exec, retrieveTyped_short w hlen]
      rfl
    | aString len =>
      have hlen : b.getReadableBytes < len := hlen
      refine ⟨b, ?_, hb, hs⟩
      rw [Retrieval.exec, retrieveAString, if_pos hlen]
      rfl
    | aByteArray len =>
      have hlen : b.getReadableBytes < len := hlen
      refine ⟨b, ?_, hb, hs⟩
      rw [Retrieval.exec, retrieveAByteArray, if_pos hlen]
      rfl
  · have hle : r.len ≤ b.getReadableBytes := Nat.le_of_not_lt hlen
    cases r with
    | int w =>
      refine ⟨b.refresh w.size, ?_, refresh_spacious hb hs _⟩
      rw [Retrieval.exec, retrieveTyped_spec hb w hle]
      rfl
    | aString len =>
      have hle : len ≤ b.getReadableBytes := hle
      refine ⟨b.refresh len, ?_, refresh_spacious hb hs _⟩
      rw [Retrieval.exec, retrieveAString_spec hb hle]
      rfl
    | aByteArray len =>
      have hle : len ≤ b.getReadableBytes := hle
      refine ⟨b.refresh len, ?_, refresh_spacious hb hs _⟩
      rw [Retrieval.exec, retrieveAByteArray, if_neg (by omega), load_take hb hle]
      rfl

/-- Content that is moved starts right behind the reserved area. -/
theorem ensureWritableSpace_spacious (hb : b.Wf) (hs : b.Spacious) {len : ℕ}
    (hlen : len < sizeRange) (ho : ¬ b.Overflows len) (h : b.ensureWritableSpace len = .ok b') :
    b'.Wf ∧ b'.Spacious := by
  by_cases hc : b.Compacts len
  · have h1 := hb.reading_le
    have h2 := hb.writing_le
    have hspace := hs.of_compacts hb hlen hc
    rcases reserve_of_compacts hb hlen hc with he | ⟨b₁, hb₁, hw, hsize⟩
    · cases he.symm.trans h
    · cases hb₁.symm.trans h
      have hr : b'.readingIndex = kReservedCapacity := by
        rw [ensureWritableSpace, if_pos hc.1, reserveWritableSpace, if_neg (Nat.not_lt.mpr hc.2)] at h
        obtain ⟨content, -, h⟩ := bind_eq_ok h
        obtain ⟨b₂, -, h⟩ := bind_eq_ok h
        cases h
        rfl
      refine ⟨⟨?_, ?_, ?_, ?_⟩, spacious_of_reading hr.ge⟩
      · rw [hr, hw]
        omega
      · rw [hw, hsize]
        exact h2
      · rw [hsize]
        exact hb.reserved_le
      · rw [hsize]
        exact hb.size_le
  · obtain ⟨hwf, hr, hw, hsize⟩ := ensureWritableSpace_size hb hc ho h
    refine ⟨hwf, hs.trans ?_⟩
    rw [hr, hw, hsize]
    omega

/-- The fresh buffer of `ShrinkWritableSpace` keeps its reserved area. -/
theorem shrinkWritableSpace_spacious (hb : b.Wf) (hs : b.Spacious) {len : ℕ}
    (ho : ¬ b.ShrinkOverflows len) (h : b.shrinkWritableSpace len = .ok b') :
    b'.Wf ∧ b'.Spacious := by
  rcases shrinkWritableSpace_cases hb ho with he | ⟨b₁, hb₁, hwf, -⟩
  · cases he.symm.trans h
  · cases hb₁.symm.trans h
    refine ⟨hwf, ?_⟩
    by_cases hlen : len ≤ 32
    · rw [shrinkWritableSpace, if_pos hlen] at h
      cases h
      exact hs
    · obtain ⟨f, hf, hwff, -, hr, hw, hsz⟩ := @new_ok kInitialCapacity (by decide)
      have hreq : b.shrinkRequest len < sizeRange := addSize_lt _ _
      rw [shrinkWritableSpace_eq hb (by omega) hf] at h
      obtain ⟨g, hg, happ⟩ := bind_eq_ok h
      have hof := not_overflows_fresh (by omega) ho hwff hw hsz
      obtain ⟨hwfg, hrg, -, -⟩ :=
        ensureWritableSpace_size hwff (not_compacts_of_reading hwff hr hreq) hof hg
      have hra := (append_ok hwfg (length_readable_le hb) happ).2.2
      exact spacious_of_reading (by rw [hra, hrg, hr])

theorem toSize_lt (x : ℤ) : toSize x < sizeRange := by
  unfold toSize sizeRange
  omega

/-- What is added to the one and taken from the other does not change the sum. -/
theorem toSize_add_sub (w r : ℕ) (d : ℤ) :
    (toSize ((w : ℤ) + d) + toSize ((r : ℤ) - d)) % sizeRange = (w + r) % sizeRange := by
  unfold toSize sizeRange
  omega

/-- The loop of the blocking read ends when it has counted down, and the writing index has
then moved by what was asked for, whatever `recv` returned in between. -/
theorem recvLoop_indices {results results' : List ℤ} {readLen : ℕ} {inbound inbound' : List UInt8}
    (hw : b.writingIndex < sizeRange) (hlen : readLen < sizeRange)
    (h : recvLoop results readLen b inbound = .ok (some (b', inbound', results'))) :
    b'.readingIndex = b.readingIndex ∧ b'.buffer.length = b.buffer.length ∧
      b'.writingIndex = (b.writingIndex + readLen) % sizeRange := by
  induction results generalizing b readLen inbound with
  | nil =>
    cases readLen with
    | zero =>
      cases h
      exact ⟨rfl, rfl, (Nat.mod_eq_of_lt hw).symm⟩
    | succ readLen => cases h
  | cons n results ih =>
    cases readLen with
    | zero =>
      cases h
      exact ⟨rfl, rfl, (Nat.mod_eq_of_lt hw).symm⟩
    | succ readLen =>
      rw [recvLoop] at h
      obtain ⟨b₁, hstore, hrest⟩ := bind_eq_ok h
      rw [store] at hstore
      split at hstore
      · next hfit =>
        cases hstore
        obtain ⟨hr, hsize, hw'⟩ := ih (toSize_lt _) (toSize_lt _) hrest
        exact ⟨hr, hsize.trans (length_blit hfit), hw'.trans (toSize_add_sub _ _ _)⟩
      · cases hstore

theorem readFully_spacious (hb : b.Wf) {readLen : ℕ} {inbound inbound' : List UInt8}
    {results results' : List ℤ} (hlen : readLen < sizeRange) (ho : ¬ b.Overflows readLen)
    (hc : ¬ b.Compacts readLen)
    (h : readFromFd readLen (b, inbound, results) = .ok (some (b', inbound', results'))) :
    b'.Wf ∧ (b'.Spacious ↔ b.RoomyBack readLen) := by
  obtain ⟨b₁, hens, hloop⟩ := bind_eq_ok h
  obtain ⟨hwf, hr, hw, hsize⟩ := ensureWritableSpace_size hb hc ho hens
  have h1 := hb.reading_le
  have h2 := hwf.writing_le
  have h3 := hwf.size_le
  have h4 := maxSize_lt
  obtain ⟨hr', hsize', hw'⟩ := recvLoop_indices (by omega) hlen hloop
  have hin : b₁.writingIndex + readLen ≤ b₁.buffer.length := by
    rw [hw, hsize]
    exact le_max_right _ _
  rw [Nat.mod_eq_of_lt (by omega)] at hw'
  refine ⟨⟨?_, ?_, ?_, ?_⟩, ?_⟩
  · omega
  · rw [hw', hsize']
    exact hin
  · rw [hsize']
    exact hwf.reserved_le
  · rw [hsize']
    exact hwf.size_le
  · exact spacious_back_iff hb (hr'.trans hr) (by rw [hw', hw]) (hsize'.trans hsize)

/-- The `int` that the number of writable bytes is put into is never too large. -/
theorem toSize_writableInt (hb : b.Wf) (h : 0 ≤ b.writableInt) :
    toSize b.writableInt = b.writableInt.toNat ∧
      b.writableInt.toNat ≤ b.buffer.length - b.writingIndex := by
  rw [← hb.getWritableBytes_eq]
  unfold writableInt at h ⊢
  unfold toSize toInt32 sizeRange at *
  rw [Int.bmod_def] at h ⊢
  split at h <;> omega

/-- `recvmsg` keeps to the room behind the content; the rest is in the extra buffer. -/
theorem recvmsg_bounds (hb : b.Wf) {n : ℤ} {data : List UInt8} (hn : 0 ≤ n)
    (hlegal : b.CallLegal (.readFromFd n data)) :
    toSize n = data.length ∧ toSize b.writableInt ≤ b.buffer.length - b.writingIndex ∧
      data.length ≤ toSize b.writableInt + kExtraBytes := by
  obtain ⟨hdata, hint, hle⟩ := hlegal hn
  have h3 := hb.size_le
  obtain ⟨hsame, hwritable⟩ := toSize_writableInt hb hint
  have hbound : data.length ≤ toSize b.writableInt + kExtraBytes := by
    rw [hsame]
    refine hle.trans (Nat.add_le_add_left ?_ _)
    split
    · exact le_rfl
    · exact Nat.zero_le _
  refine ⟨?_, hsame ▸ hwritable, hbound⟩
  rw [← hdata]
  refine toSize_natCast ?_
  unfold kExtraBytes at hbound
  unfold maxSize at h3
  unfold sizeRange
  omega

theorem readDiscrete_fits (hb : b.Wf) {n : ℤ} {data : List UInt8} (hn : 0 ≤ n)
    (hlegal : b.CallLegal (.readFromFd n data)) (hall : toSize n ≤ toSize b.writableInt) :
    b.writingIndex + data.length ≤ b.buffer.length ∧
      b.readDiscrete n data = .returned ⟨blit b.buffer b.writingIndex data, b.readingIndex,
        b.writingIndex + data.length⟩ := by
  obtain ⟨hsize, hwritable, -⟩ := recvmsg_bounds hb hn hlegal
  have h2 := hb.writing_le
  have h3 := hb.size_le
  have h4 := maxSize_lt
  have hfit : b.writingIndex + data.length ≤ b.buffer.length := by omega
  refine ⟨hfit, ?_⟩
  have hstore : b.store b.writingIndex (data.take (toSize b.writableInt)) =
      .ok { b with buffer := blit b.buffer b.writingIndex data } := by
    rw [List.take_of_length_le (hsize ▸ hall), store_ok hfit]
  rw [hsize] at hall
  simp only [readDiscrete, Int.not_lt.mpr hn, hstore, hall, hsize, if_true, if_false,
    addSize_eq (by omega : b.writingIndex + data.length < sizeRange)]

theorem readDiscrete_spills (hb : b.Wf) {n : ℤ} {data : List UInt8} (hn : 0 ≤ n)
    (hlegal : b.CallLegal (.readFromFd n data)) (hall : ¬ toSize n ≤ toSize b.writableInt) :
    ∃ tail extra, b.writingIndex + tail.length ≤ b.buffer.length ∧ extra.length ≤ maxSize ∧
      b.readDiscrete n data =
        .of ⟨blit b.buffer b.writingIndex tail, b.readingIndex, b.buffer.length⟩
          (append ⟨blit b.buffer b.writingIndex tail, b.readingIndex, b.buffer.length⟩ extra) := by
  obtain ⟨hsize, hwritable, hbound⟩ := recvmsg_bounds hb hn hlegal
  have h2 := hb.writing_le
  have hfit : b.writingIndex + (data.take (toSize b.writableInt)).length ≤ b.buffer.length := by
    rw [List.length_take]
    omega
  refine ⟨_, data.drop (toSize b.writableInt), hfit, ?_, ?_⟩
  · rw [List.length_drop]
    unfold kExtraBytes at hbound
    unfold maxSize
    omega
  · simp only [readDiscrete, Int.not_lt.mpr hn, store_ok hfit, hall, if_false, length_blit hfit]

/-- What a read leaves. One that finds no room for the extra buffer has taken all the space
behind the content. -/
theorem readDiscrete_spacious (hb : b.Wf) (hs : b.Spacious) {n : ℤ} {data : List UInt8}
    (hlegal : b.CallLegal (.readFromFd n data)) :
    (∀ b', b.readDiscrete n data = .returned b' →
      b'.Wf ∧ (b'.Spacious ↔ b.Roomy (.readFromFd n data))) ∧
    (∀ b', b.readDiscrete n data = .thrown b' →
      b'.Wf ∧ (b.Roomy (.readFromFd n data) → b'.Spacious)) := by
  by_cases hn : 0 ≤ n
  · have hroomy : b.Roomy (.readFromFd n data) ↔
        if toSize n ≤ toSize b.writableInt then b.RoomyBack data.length
        else kReservedCapacity ≤ b.getReservedBytes := ⟨fun h => h hn, fun h _ => h⟩
    rw [hroomy]
    by_cases hall : toSize n ≤ toSize b.writableInt
    · obtain ⟨hfit, heq⟩ := readDiscrete_fits hb hn hlegal hall
      rw [heq, if_pos hall]
      constructor
      · rintro _ ⟨⟩
        refine ⟨(hb.extend hfit).1, spacious_back_iff hb rfl rfl ?_⟩
        exact (length_blit hfit).trans (Nat.max_eq_left hfit).symm
      · intro b' hthrown
        cases hthrown
    · obtain ⟨tail, extra, hfit, hextra, heq⟩ := readDiscrete_spills hb hn hlegal hall
      have hsize := length_blit hfit
      rw [heq, if_neg hall]
      have hwf : (⟨blit b.buffer b.writingIndex tail, b.readingIndex, b.buffer.length⟩ :
          IoBuffer).Wf :=
        ⟨hb.reading_le.trans hb.writing_le, hsize.ge, hsize.symm ▸ hb.reserved_le,
          hsize.symm ▸ hb.size_le⟩
      constructor
      · intro b' hret
        obtain ⟨hwf', hr, hw, hsize'⟩ := append_size hwf hextra (Outcome.of_returned hret)
        refine ⟨hwf', ?_⟩
        rw [Spacious, hr, hw, hsize']
        simp only [hsize, getReservedBytes]
        omega
      · intro b' hthrown
        cases Outcome.of_thrown hthrown
        exact ⟨hwf, fun h => spacious_of_reading h⟩
  · rw [readDiscrete, if_pos (by omega)]
    constructor
    · rintro _ ⟨⟩
      exact ⟨hb, fun _ h => absurd h hn, fun _ => hs⟩
    · intro b' hthrown
      cases hthrown

theorem map_snd_map (r : Except Fault IoBuffer) :
    (r.map (([] : List UInt8), ·)).map Prod.snd = r := by
  cases r <;> rfl

/-- A call that always has room keeps the space. -/
theorem keeps_spacious {c : Call} (hroomy : b.Roomy c) (h : b'.Wf ∧ b'.Spacious) :
    b'.Wf ∧ (b'.Spacious ↔ b.Roomy c) :=
  ⟨h.1, iff_of_true h.2 hroomy⟩

theorem exec_spacious (hb : b.Wf) (hs : b.Spacious) {op : Op} (hlegal : b.CallLegal (.op op))
    (hun : b.Unwrapped (.op op)) (hok : (b.exec op).map Prod.snd = .ok b') :
    b'.Wf ∧ (b'.Spacious ↔ b.Roomy (.op op)) := by
  cases op with
  | append str =>
    rw [exec, map_snd_map] at hok
    exact append_spacious hb hlegal hok
  | ensureWritableSpace len =>
    rw [exec, map_snd_map] at hok
    exact keeps_spacious trivial (ensureWritableSpace_spacious hb hs hlegal hun hok)
  | shrinkWritableSpace len =>
    rw [exec, map_snd_map] at hok
    exact keeps_spacious trivial (shrinkWritableSpace_spacious hb hs hun hok)
  | refresh len =>
    cases hok
    exact keeps_spacious trivial (refresh_spacious hb hs len)
  | retrieveAString len =>
    -- the same function as among the typed retrievals
    have hsame : ((Retrieval.aString len).exec .little b).map Prod.snd =
        (b.retrieveAString len).map Prod.snd := by
      rw [Retrieval.exec]
      cases b.retrieveAString len <;> rfl
    obtain ⟨b₁, hb₁, hkept⟩ := retrieve_spacious (o := .little) hb hs (.aString len)
    cases (hsame.symm.trans hb₁).symm.trans hok
    exact keeps_spacious trivial hkept
  | refreshRW =>
    cases hok
    exact keeps_spacious trivial ⟨(refreshRW_spec hb).1, spacious_of_reading le_rfl⟩
  | setHeadContent str =>
    rw [exec, map_snd_map] at hok
    exact setHeadContent_spacious hb hs hok
  | writeToFd n =>
    rw [exec, map_snd_map, writeToFd_spec hb] at hok
    cases hok
    split
    · exact keeps_spacious trivial (refresh_spacious hb hs _)
    · exact keeps_spacious trivial ⟨hb, hs⟩

theorem refreshW_spacious (hb : b.Wf) {len : ℕ} (hlegal : b.CallLegal (.refreshW len)) :
    (b.refreshW len).Wf ∧ ((b.refreshW len).Spacious ↔ b.Roomy (.refreshW len)) := by
  have hfit : len ≤ b.buffer.length - b.writingIndex := by
    rw [← hb.getWritableBytes_eq]
    exact hlegal
  have h1 := hb.reading_le
  have h2 := hb.writing_le
  have h3 := hb.size_le
  have h4 := maxSize_lt
  have hw : addSize b.writingIndex len = b.writingIndex + len := addSize_eq (by omega)
  refine ⟨⟨?_, ?_, hb.reserved_le, hb.size_le⟩, spacious_back_iff hb rfl hw ?_⟩
  · show b.readingIndex ≤ addSize b.writingIndex len
    omega
  · show addSize b.writingIndex len ≤ b.buffer.length
    omega
  · show b.buffer.length = _
    omega

/-- **One call that returns** keeps the space for the reserved area exactly when it is
`Roomy`. -/
theorem returned_spacious (hb : b.Wf) (hs : b.Spacious) {c : Call} (hlegal : b.CallLegal c)
    (hun : b.Unwrapped c) (h : b.call o c = .returned b') :
    b'.Wf ∧ (b'.Spacious ↔ b.Roomy c) := by
  cases c with
  | op op => exact exec_spacious hb hs hlegal hun (Outcome.of_returned h)
  | refreshW len =>
    cases h
    exact refreshW_spacious hb hlegal
  | appendTyped i =>
    have hok := Outcome.of_returned h
    rw [appendTyped_eq] at hok
    have hshort : i.wire.length ≤ maxSize := by
      rw [i.length_wire]
      cases i.width <;> decide
    have hback := append_spacious hb hshort hok
    rw [i.length_wire] at hback
    exact hback
  | setHeadTyped i =>
    have hok := Outcome.of_returned h
    rw [setHeadTyped_eq] at hok
    have hfront := setHeadContent_spacious hb hs hok
    rw [i.length_wire] at hfront
    exact hfront
  | retrieve r =>
    obtain ⟨b₁, hb₁, hkept⟩ := retrieve_spacious (o := o) hb hs r
    cases hb₁.symm.trans (Outcome.of_returned h)
    exact keeps_spacious trivial hkept
  | readFromFd n data =>
    rw [call] at h
    exact (readDiscrete_spacious hb hs hlegal).1 b' h
  | readFully readLen inbound results =>
    rw [call] at h
    split at h
    · next b₁ _ _ hread =>
      cases h
      exact readFully_spacious hb hlegal hun.1 hun.2 hread
    all_goals cases h

/-- A call that throws has changed nothing, or has filled the space behind the content. -/
theorem thrown_spacious (hb : b.Wf) (hs : b.Spacious) {c : Call} (hlegal : b.CallLegal c)
    (hroomy : b.Roomy c) (h : b.call o c = .thrown b') : b'.Wf ∧ b'.Spacious := by
  have hsame : ∀ {r : Except Fault IoBuffer}, Outcome.of b r = .thrown b' → b'.Wf ∧ b'.Spacious := by
    intro r hr
    cases Outcome.of_thrown hr
    exact ⟨hb, hs⟩
  cases c with
  | op op => exact hsame h
  | refreshW len => cases h
  | appendTyped i => exact hsame h
  | setHeadTyped i => exact hsame h
  | retrieve r => exact hsame h
  | readFromFd n data =>
    rw [call] at h
    obtain ⟨hwf, hspace⟩ := (readDiscrete_spacious hb hs hlegal).2 b' h
    exact ⟨hwf, hspace hroomy⟩
  | readFully readLen inbound results =>
    rw [call] at h
    split at h
    · cases h
    · cases h
    · cases h
      exact ⟨hb, hs⟩
    · cases h

/-! ## Runs -/

section Runs

variable {ι : Type} [DecidableEq ι]

/-- A call on one buffer, or a swap of two. -/
inductive BufferCall (ι : Type) where
  | on (i : ι) (c : Call)
  | swap (i j : ι)

/-- The buffer that is there afterwards. -/
def Outcome.left : Outcome → Option IoBuffer
  | returned b | thrown b => some b
  | running | undefined => none

def stepBuffers (o : ByteOrder) (s : ι → IoBuffer) : BufferCall ι → Option (ι → IoBuffer)
  | .on i c =>
    if (s i).CallLegal c then ((s i).call o c).left.map (Function.update s i) else none
  | .swap i j =>
    let (a, c) := (s i).swap (s j)
    some (Function.update (Function.update s i a) j c)

/-- The buffers are constructed with the capacities `caps`. -/
def buffers (o : ByteOrder) (caps : ι → ℕ) : Machine (ι → IoBuffer) (BufferCall ι) where
  Init s := ∀ i, new (caps i) = .ok (s i)
  step := stepBuffers o

/-- The condition on a call of a run. -/
def BuffersOk (s : ι → IoBuffer) : BufferCall ι → Prop
  | .on i c => (s i).Unwrapped c ∧ (s i).Roomy c
  | .swap _ _ => True

instance (s : ι → IoBuffer) : ∀ c, Decidable (BuffersOk s c)
  | .on i c => inferInstanceAs (Decidable ((s i).Unwrapped c ∧ (s i).Roomy c))
  | .swap _ _ => inferInstanceAs (Decidable True)

variable {s s' : ι → IoBuffer} {caps : ι → ℕ}

theorem buffers_spacious_step (hs : ∀ i, (s i).Wf ∧ (s i).Spacious) {c : BufferCall ι}
    (hok : BuffersOk s c) (hstep : stepBuffers o s c = some s') (i : ι) :
    (s' i).Wf ∧ (s' i).Spacious := by
  cases c with
  | on j c =>
    rw [stepBuffers] at hstep
    split at hstep
    · next hlegal =>
      obtain ⟨b', hleft, hs'⟩ := Option.map_eq_some_iff.mp hstep
      have hkept : b'.Wf ∧ b'.Spacious := by
        cases hcall : (s j).call o c with
        | returned b₁ =>
          rw [hcall] at hleft
          cases hleft
          obtain ⟨hwf, hiff⟩ := returned_spacious (hs j).1 (hs j).2 hlegal hok.1 hcall
          exact ⟨hwf, hiff.mpr hok.2⟩
        | thrown b₁ =>
          rw [hcall] at hleft
          cases hleft
          exact thrown_spacious (hs j).1 (hs j).2 hlegal hok.2 hcall
        | running | undefined =>
          rw [hcall] at hleft
          cases hleft
      subst hs'
      by_cases hij : i = j
      · subst hij
        rw [Function.update_self]
        exact hkept
      · rw [Function.update_of_ne hij]
        exact hs i
    · cases hstep
  | swap j k =>
    cases hstep
    by_cases hik : i = k
    · subst hik
      rw [Function.update_self]
      exact hs j
    · by_cases hij : i = j
      · subst hij
        rw [Function.update_of_ne hik, Function.update_self]
        exact hs k
      · rw [Function.update_of_ne hik, Function.update_of_ne hij]
        exact hs i

/-- **The space test is right as long as there is space for the reserved area.** In every run
from buffers whose size did not wrap, and whose calls are all `Roomy` and wrap no size, the
expression of the test does not wrap in any buffer, and the content is moved only where it
fits; and a further call that returns keeps it so if and only if it is `Roomy` as well. -/
theorem space_test_right (hcaps : ∀ i, kReservedCapacity + caps i < sizeRange)
    (h : (buffers o caps).Reachable BuffersOk s) :
    (∀ i, (s i).SpaceTestRight) ∧
    ∀ i c b', (s i).CallLegal c → (s i).Unwrapped c → (s i).call o c = .returned b' →
      (b'.SpaceTestRight ↔ (s i).Roomy c) := by
  have hinv : ∀ i, (s i).Wf ∧ (s i).Spacious := by
    refine h.invariant (fun s h0 i => ?_) (fun _ _ _ _ hs hok hstep =>
      buffers_spacious_step hs hok hstep)
    obtain ⟨hwf, -, hr⟩ := new_spec (hcaps i) (h0 i)
    exact ⟨hwf, spacious_of_reading hr.ge⟩
  refine ⟨fun i => (spaceTestRight_iff (hinv i).1).mpr (hinv i).2, ?_⟩
  intro i c b' hlegal hun hret
  obtain ⟨hwf, hiff⟩ := returned_spacious (hinv i).1 (hinv i).2 hlegal hun hret
  rw [spaceTestRight_iff hwf, hiff]

/-- One buffer of capacity 4. -/
def oneOfFour : Unit → IoBuffer := fun _ => ⟨List.replicate 12 0, 8, 8⟩

theorem oneOfFour_init : (buffers .little fun _ => 4).Init oneOfFour := by
  intro i
  cases i
  decide +kernel

/-- The theorem at a buffer with content behind and a head in front of the first index. -/
theorem space_test_right_with_head :
    ∃ s, (buffers .little fun _ : Unit => 4).Reachable BuffersOk s ∧
      (s ()).readable = [9, 1, 2] ∧ (s ()).SpaceTestRight := by
  obtain ⟨s, hs, hread⟩ := (buffers .little fun _ : Unit => 4).exists_of_run BuffersOk
    oneOfFour_init [.on () (.op (.append [1, 2])), .on () (.op (.setHeadContent [9]))]
    (fun s => (s ()).readable = [9, 1, 2]) (by decide +kernel)
  exact ⟨s, hs, hread, (space_test_right (fun _ => by decide) hs).1 ()⟩

/-- Four bytes fill the buffer, and a head of eight bytes uses up the reserved area. The test
of `ReserveWritableSpace(1)` then wraps to `2 ^ 64 - 8`, the content of twelve bytes is moved
to offset 8 of a buffer of twelve bytes, and the next append leaves the buffer. -/
theorem space_test_wraps :
    ∃ s, (buffers .little fun _ : Unit => 4).Reachable (fun _ _ => True) s ∧
      (s ()).getWritableBytes + (s ()).getReservedBytes = 0 ∧
      subSize (addSize (s ()).getWritableBytes (s ()).getReservedBytes) kReservedCapacity =
        18446744073709551608 ∧
      (s ()).Compacts 1 ∧ (s ()).getReadableBytes = (s ()).buffer.length ∧
      (s ()).append [5] = .error .outOfBounds := by
  obtain ⟨s, hs, hP⟩ := (buffers .little fun _ : Unit => 4).exists_of_run (fun _ _ => True)
    oneOfFour_init [.on () (.op (.append [1, 2, 3, 4])),
      .on () (.op (.setHeadContent [0, 0, 0, 0, 0, 0, 0, 4]))]
    (fun s => (s ()).getWritableBytes + (s ()).getReservedBytes = 0 ∧
      subSize (addSize (s ()).getWritableBytes (s ()).getReservedBytes) kReservedCapacity =
        18446744073709551608 ∧
      (s ()).Compacts 1 ∧ (s ()).getReadableBytes = (s ()).buffer.length ∧
      (s ()).append [5] = .error .outOfBounds) (by decide +kernel)
  exact ⟨s, hs, hP⟩

end Runs

end Taotu.IoBuffer
