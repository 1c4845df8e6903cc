import Taotu.Lib.Machine
import Taotu.Buffer.IoBuffer

/-!
# Taotu.Buffer.ByteQueue — the buffer as a byte queue

What an `IoBuffer` is for: a queue of bytes. `Op.queue` says what each public
operation does to the abstract queue, `exec` is the operation of the source,
and the machine `pool` runs both side by side on any number of buffers, which
may also be swapped with each other.

1. **Where it holds.** Along every run whose steps meet `StepOk` the buffers
   stay well-formed and hold their abstract queues (`pool_sound`).
2. **Where it fails.** From such a state a call is right exactly when it meets
   `StepOk` (`stepCorrect_iff`): when room has to be made by moving the content
   to the front, `ReserveWritableSpace` computes the new writing index from the
   reading index it has just overwritten, so no room is gained. The same branch
   is entered when the reserved area is in use and the test wraps.
-/

namespace Taotu.IoBuffer

open Lib

/-! ## Making room the wrong way -/

variable {b : IoBuffer}

/-- Content that starts behind the reserved area is never moved. -/
theorem not_compacts_of_reading (hb : b.Wf) (hr : b.readingIndex = kReservedCapacity) {len : ℕ}
    (hlen : len < sizeRange) : ¬ b.Compacts len := by
  rw [hb.compacts_iff hlen, hr]
  rintro ⟨h1, h2⟩
  rw [if_pos (Nat.le_add_left _ _)] at h2
  omega

/-- Moving the content either leaves the buffer or gains no room. -/
theorem reserve_of_compacts (hb : b.Wf) {len : ℕ} (hlen : len < sizeRange)
    (hc : b.Compacts len) :
    b.ensureWritableSpace len = .error .outOfBounds ∨
      ∃ b', b.ensureWritableSpace len = .ok b' ∧ b'.writingIndex = b.writingIndex ∧
        b'.buffer.length = b.buffer.length := by
  have h1 := hb.reading_le
  have h2 := hb.writing_le
  have h3 := hb.size_le
  have h4 := maxSize_lt
  have hcond := (hb.compacts_iff hlen).mp hc
  have hens : b.ensureWritableSpace len =
      (b.store kReservedCapacity b.readable >>= fun b₁ =>
        pure { b₁ with
          readingIndex := kReservedCapacity
          writingIndex := addSize kReservedCapacity (subSize b₁.writingIndex kReservedCapacity) }) := by
    rw [ensureWritableSpace, if_pos hc.1, reserveWritableSpace, if_neg (Nat.not_lt.mpr hc.2),
      load_readable hb, ok_bind]
    rfl
  have hlenR := hb.length_readable
  by_cases hfit : kReservedCapacity + b.readable.length ≤ b.buffer.length
  · -- the copy fits, so the content started behind the reserved area
    right
    have hres : kReservedCapacity ≤ b.readingIndex := by
      by_contra h
      rw [if_pos (by omega)] at hcond
      omega
    refine ⟨_, hens.trans (by rw [store_ok hfit, ok_bind]; rfl), ?_, ?_⟩
    · show addSize kReservedCapacity (subSize b.writingIndex kReservedCapacity) = b.writingIndex
      rw [subSize_eq (by omega) (by omega), addSize_eq (by omega)]
      omega
    · exact length_blit hfit
  · left
    rw [hens, store_outOfBounds (by omega), error_bind]

/-- Appending across a move copies past the end of the buffer. -/
theorem append_of_compacts (hb : b.Wf) {str : List UInt8} (hlen : str.length ≤ maxSize)
    (hc : b.Compacts str.length) : b.append str = .error .outOfBounds := by
  have h4 := maxSize_lt
  have hw := hc.1
  rw [hb.getWritableBytes_eq] at hw
  have h2 := hb.writing_le
  rcases reserve_of_compacts hb (by omega) hc with h | ⟨b', h, hwr, hsz⟩
  · rw [append, h, error_bind]
  · rw [append, h, ok_bind, store_outOfBounds (by omega), error_bind]

/-- An append that returns has put the string behind the readable bytes. -/
theorem append_ok (hb : b.Wf) {str : List UInt8} {b' : IoBuffer} (hlen : str.length ≤ maxSize)
    (h : b.append str = .ok b') :
    b'.Wf ∧ b'.readable = b.readable ++ str ∧ b'.readingIndex = b.readingIndex := by
  by_cases hc : b.Compacts str.length
  · rw [append_of_compacts hb hlen hc] at h
    cases h
  · rcases append_cases hb hlen hc with he | ⟨b₁, hb₁, hwf, hread, hr, -⟩
    · rw [he] at h
      cases h
    · cases hb₁.symm.trans h
      exact ⟨hwf, hread, hr⟩

/-- A size computation that wraps shrinks the buffer below its writing index. -/
theorem reserve_of_overflows (hb : b.Wf) {len : ℕ} (hlen : len < sizeRange)
    (hc : ¬ b.Compacts len) (ho : b.Overflows len) :
    ∃ b', b.ensureWritableSpace len = .ok b' ∧ b'.writingIndex = b.writingIndex ∧
      b'.buffer.length < b.writingIndex := by
  have h2 := hb.writing_le
  have h3 := hb.size_le
  have hgrow : subSize (addSize b.getWritableBytes b.getReservedBytes) kReservedCapacity < len := by
    by_contra h
    exact hc ⟨ho.1, by omega⟩
  have hsum : addSize b.writingIndex len = b.writingIndex + len - sizeRange := by
    have := ho.2
    have := maxSize_lt
    rw [addSize, Nat.mod_eq_sub_mod ho.2, Nat.mod_eq_of_lt (by omega)]
  refine ⟨{ b with buffer := b.buffer.take (addSize b.writingIndex len) ++
      List.replicate (addSize b.writingIndex len - b.buffer.length) 0 }, ?_, rfl, ?_⟩
  · rw [ensureWritableSpace, if_pos ho.1, reserveWritableSpace, if_pos hgrow, resize,
      if_neg (by have := ho.2; omega)]
  · have := ho.2
    simp only [List.length_append, List.length_take, List.length_replicate, hsum]
    omega

/-! ## The operations and what they are for -/

/-- The public byte operations, each with its arguments; `n` of `writeToFd` is
the result of `send`. -/
inductive Op where
  | append (str : List UInt8)
  | ensureWritableSpace (len : ℕ)
  | shrinkWritableSpace (len : ℕ)
  | refresh (len : ℕ)
  | retrieveAString (len : ℕ)
  | refreshRW
  | setHeadContent (str : List UInt8)
  | writeToFd (n : ℤ)
deriving DecidableEq, Repr

/-- An operation of the source: the string it returns and the buffer after it. -/
def exec (b : IoBuffer) : Op → Except Fault (List UInt8 × IoBuffer)
  | .append str => (b.append str).map ([], ·)
  | .ensureWritableSpace len => (b.ensureWritableSpace len).map ([], ·)
  | .shrinkWritableSpace len => (b.shrinkWritableSpace len).map ([], ·)
  | .refresh len => .ok ([], b.refresh len)
  | .retrieveAString len => b.retrieveAString len
  | .refreshRW => .ok ([], b.refreshRW)
  | .setHeadContent str => (b.setHeadContent str).map ([], ·)
  | .writeToFd n => (b.writeToFd n).map ([], ·)

/-- What the caller owes: sizes are `size_t` values, strings exist in memory,
no more is taken than is readable, no head is longer than the reserved area,
and `send` reports at most what it was given. -/
def Legal (b : IoBuffer) : Op → Prop
  | .append str => str.length ≤ maxSize
  | .ensureWritableSpace len => len < sizeRange
  | .shrinkWritableSpace len => len < sizeRange
  | .refresh len => len ≤ b.getReadableBytes
  | .retrieveAString len => len ≤ b.getReadableBytes
  | .refreshRW => True
  | .setHeadContent str => str.length ≤ b.getReservedBytes
  | .writeToFd n => n ≤ b.getReadableBytes

instance (b : IoBuffer) : ∀ op, Decidable (b.Legal op)
  | .append _ | .refresh _ | .retrieveAString _ | .setHeadContent _ =>
    inferInstanceAs (Decidable ((_ : ℕ) ≤ _))
  | .ensureWritableSpace _ | .shrinkWritableSpace _ => inferInstanceAs (Decidable ((_ : ℕ) < _))
  | .refreshRW => inferInstanceAs (Decidable True)
  | .writeToFd _ => inferInstanceAs (Decidable ((_ : ℤ) ≤ _))

/-- The abstract queue after an operation. -/
def Op.queue : Op → List UInt8 → List UInt8
  | .append str, q => q ++ str
  | .ensureWritableSpace _, q => q
  | .shrinkWritableSpace _, q => q
  | .refresh len, q => q.drop len
  | .retrieveAString len, q => q.drop len
  | .refreshRW, _ => []
  | .setHeadContent str, q => str ++ q
  | .writeToFd n, q => q.drop n.toNat

/-- The string an operation hands to the caller. -/
def Op.output : Op → List UInt8 → List UInt8
  | .retrieveAString len, q => q.take len
  | _, _ => []

/-- The room an operation promises afterwards. -/
def Op.room : Op → ℕ
  | .ensureWritableSpace len => len
  | _ => 0

/-- The room `ShrinkWritableSpace` asks of its fresh buffer. -/
def shrinkRequest (b : IoBuffer) (len : ℕ) : ℕ :=
  addSize (addSize kReservedCapacity b.getReadableBytes) len

/-- The request of `ShrinkWritableSpace` wraps in the fresh buffer. -/
def ShrinkOverflows (b : IoBuffer) (len : ℕ) : Prop :=
  32 < len ∧ kInitialCapacity < b.shrinkRequest len ∧
    sizeRange ≤ kReservedCapacity + b.shrinkRequest len

/-- The condition on a call: room is not made by moving the content, and the
sizes asked of the vector do not wrap. -/
def StepOk (b : IoBuffer) : Op → Prop
  | .append str => ¬ b.Compacts str.length
  | .ensureWritableSpace len => ¬ b.Compacts len ∧ ¬ b.Overflows len
  | .shrinkWritableSpace len => ¬ b.ShrinkOverflows len
  | _ => True

instance (b : IoBuffer) (len : ℕ) : Decidable (b.ShrinkOverflows len) :=
  inferInstanceAs (Decidable (_ ∧ _))

instance (b : IoBuffer) : ∀ op, Decidable (b.StepOk op)
  | .append _ | .shrinkWritableSpace _ => inferInstanceAs (Decidable ¬ _)
  | .ensureWritableSpace _ => inferInstanceAs (Decidable (_ ∧ _))
  | .refresh _ | .retrieveAString _ | .refreshRW | .setHeadContent _ | .writeToFd _ =>
    inferInstanceAs (Decidable True)

/-- An outcome is what the queue `q` does under `op`: no copy left the buffer,
and the buffer afterwards is well-formed and holds the queue afterwards. A call
that throws has changed nothing. -/
def Op.Correct (op : Op) (q : List UInt8) : Except Fault (List UInt8 × IoBuffer) → Prop
  | .ok (out, b') =>
    b'.Wf ∧ b'.readable = op.queue q ∧ out = op.output q ∧ op.room ≤ b'.getWritableBytes
  | .error .lengthError => True
  | .error _ => False

def StepCorrect (b : IoBuffer) (q : List UInt8) (op : Op) : Prop := op.Correct q (b.exec op)

/-! ## One call -/

theorem stepCorrect_append (hb : b.Wf) {str : List UInt8} (hlen : str.length ≤ maxSize) :
    b.StepCorrect b.readable (.append str) ↔ b.StepOk (.append str) := by
  constructor
  · intro h hc
    rw [StepCorrect, exec, append_of_compacts hb hlen hc] at h
    exact h
  · intro hc
    rcases append_cases hb hlen hc with h | ⟨b', h, hwf, hread, -, -⟩
    · rw [StepCorrect, exec, h]
      trivial
    · rw [StepCorrect, exec, h]
      exact ⟨hwf, hread, rfl, Nat.zero_le _⟩

/-- A call that moves the content is never right: no room was gained. -/
theorem not_stepCorrect_of_compacts (hb : b.Wf) {len : ℕ} (hlen : len < sizeRange)
    (hc : b.Compacts len) (q : List UInt8) : ¬ b.StepCorrect q (.ensureWritableSpace len) := by
  intro h
  rw [StepCorrect, exec] at h
  rcases reserve_of_compacts hb hlen hc with hr | ⟨b', hr, hw, hs⟩
  · rw [hr] at h
    exact h
  · rw [hr] at h
    obtain ⟨hwf, -, -, hroom⟩ := h
    have hlt := hc.1
    rw [hb.getWritableBytes_eq] at hlt
    rw [hwf.getWritableBytes_eq, hw, hs] at hroom
    exact absurd hroom (Nat.not_le.mpr hlt)

theorem stepCorrect_ensureWritableSpace (hb : b.Wf) {len : ℕ} (hlen : len < sizeRange) :
    b.StepCorrect b.readable (.ensureWritableSpace len) ↔ b.StepOk (.ensureWritableSpace len) := by
  constructor
  · intro h
    have hc : ¬ b.Compacts len := fun hc => not_stepCorrect_of_compacts hb hlen hc _ h
    refine ⟨hc, fun ho => ?_⟩
    obtain ⟨b', hr, hw, hs⟩ := reserve_of_overflows hb hlen hc ho
    rw [StepCorrect, exec, hr] at h
    have hle := h.1.writing_le
    rw [hw] at hle
    omega
  · rintro ⟨hc, ho⟩
    rw [StepCorrect, exec]
    rcases ensureWritableSpace_cases hb hc ho with h | ⟨pad, h, hroom, hmax⟩
    · rw [h]
      trivial
    · rw [h]
      have hwf := hb.pad hmax
      refine ⟨hwf, readable_pad hb, rfl, ?_⟩
      rw [hwf.getWritableBytes_eq]
      exact Nat.le_sub_of_add_le' hroom

/-- `ShrinkWritableSpace` from the point where its fresh buffer has room. -/
theorem shrinkWritableSpace_eq (hb : b.Wf) {len : ℕ} (hlen : 32 < len) {f : IoBuffer}
    (hf : new kInitialCapacity = .ok f) :
    b.shrinkWritableSpace len = f.ensureWritableSpace (b.shrinkRequest len) >>= fun buffer =>
      buffer.append b.readable := by
  rw [shrinkWritableSpace, if_neg (by omega), hf, ok_bind, load_readable hb, ← shrinkRequest]
  congr 1
  funext g
  rw [ok_bind]
  cases g.append b.readable <;> rfl

theorem length_readable_le (hb : b.Wf) : b.readable.length ≤ maxSize := by
  rw [hb.length_readable]
  have := hb.writing_le
  have := hb.size_le
  omega

/-- When the request wraps, the fresh buffer ends inside its own reserved area. -/
theorem shrinkWritableSpace_of_overflows (hb : b.Wf) {len : ℕ} (ho : b.ShrinkOverflows len) :
    b.shrinkWritableSpace len = .error .outOfBounds := by
  obtain ⟨hlen, hbig, hover⟩ := ho
  obtain ⟨f, hf, hwf, -, hr, hw, hsz⟩ := @new_ok kInitialCapacity (by decide)
  have hreq : b.shrinkRequest len < sizeRange := addSize_lt _ _
  have hlenR := length_readable_le hb
  have h4 := maxSize_lt
  have hfree : f.getWritableBytes < b.shrinkRequest len := by
    rw [hwf.getWritableBytes_eq, hw, hsz]
    omega
  obtain ⟨g, hg, hgw, hgs⟩ := reserve_of_overflows hwf hreq
    (not_compacts_of_reading hwf hr hreq) ⟨hfree, by rw [hw]; exact hover⟩
  have hfits : ¬ g.getWritableBytes < b.readable.length := by
    rw [getWritableBytes, subSize, hgw, hw, Nat.mod_eq_of_lt (by omega)]
    have : kReservedCapacity ≤ maxSize := by decide
    omega
  rw [shrinkWritableSpace_eq hb hlen hf, hg, ok_bind, append, ensureWritableSpace, if_neg hfits,
    ok_bind, store_outOfBounds (by omega), error_bind]

theorem not_overflows_fresh {len : ℕ} (hlen : 32 < len) (ho : ¬ b.ShrinkOverflows len)
    {f : IoBuffer} (hwf : f.Wf) (hw : f.writingIndex = kReservedCapacity)
    (hsz : f.buffer.length = kReservedCapacity + kInitialCapacity) :
    ¬ f.Overflows (b.shrinkRequest len) := by
  rintro ⟨h1, h2⟩
  rw [hwf.getWritableBytes_eq, hw, hsz] at h1
  rw [hw] at h2
  exact ho ⟨hlen, by omega, h2⟩

theorem shrinkWritableSpace_cases (hb : b.Wf) {len : ℕ} (ho : ¬ b.ShrinkOverflows len) :
    b.shrinkWritableSpace len = .error .lengthError ∨
      ∃ b', b.shrinkWritableSpace len = .ok b' ∧ b'.Wf ∧ b'.readable = b.readable := by
  by_cases hlen : len ≤ 32
  · -- too little space is asked for: nothing happens
    exact .inr ⟨b, by rw [shrinkWritableSpace, if_pos hlen], hb, rfl⟩
  · obtain ⟨f, hf, hwf, hread, hr, hw, hsz⟩ := @new_ok kInitialCapacity (by decide)
    have hreq : b.shrinkRequest len < sizeRange := addSize_lt _ _
    have hlenR := length_readable_le hb
    have h4 := maxSize_lt
    have hof := not_overflows_fresh (by omega) ho hwf hw hsz
    rw [shrinkWritableSpace_eq hb (by omega) hf]
    rcases ensureWritableSpace_cases hwf (not_compacts_of_reading hwf hr hreq) hof with
      h | ⟨pad, h, -, hmax⟩
    · exact .inl (by rw [h, error_bind])
    · have hg := hwf.pad hmax
      rw [h, ok_bind]
      rcases append_cases hg hlenR (not_compacts_of_reading hg hr (by omega)) with
        ha | ⟨b', ha, hwf', hread', -, -⟩
      · exact .inl ha
      · refine .inr ⟨b', ha, hwf', ?_⟩
        rw [hread', readable_pad hwf, hread, List.nil_append]

theorem stepCorrect_shrinkWritableSpace (hb : b.Wf) (len : ℕ) :
    b.StepCorrect b.readable (.shrinkWritableSpace len) ↔ b.StepOk (.shrinkWritableSpace len) := by
  constructor
  · intro h ho
    rw [StepCorrect, exec, shrinkWritableSpace_of_overflows hb ho] at h
    exact h
  · intro ho
    rcases shrinkWritableSpace_cases hb ho with h | ⟨b', h, hwf, hread⟩
    · rw [StepCorrect, exec, h]
      trivial
    · rw [StepCorrect, exec, h]
      exact ⟨hwf, hread, rfl, Nat.zero_le _⟩

/-- **One call, exactly.** On a well-formed buffer a call does what the queue of
its readable bytes does if and only if it meets `StepOk`. -/
theorem stepCorrect_iff (hb : b.Wf) {op : Op} (hop : b.Legal op) :
    b.StepCorrect b.readable op ↔ b.StepOk op := by
  cases op with
  | append str => exact stepCorrect_append hb hop
  | ensureWritableSpace len => exact stepCorrect_ensureWritableSpace hb hop
  | shrinkWritableSpace len => exact stepCorrect_shrinkWritableSpace hb len
  | refresh len =>
    have h := refresh_spec hb hop
    exact ⟨fun _ => trivial, fun _ => ⟨h.1, h.2, rfl, Nat.zero_le _⟩⟩
  | retrieveAString len =>
    have h := refresh_spec hb hop
    refine ⟨fun _ => trivial, fun _ => ?_⟩
    rw [StepCorrect, exec, retrieveAString_spec hb hop]
    exact ⟨h.1, h.2, rfl, Nat.zero_le _⟩
  | refreshRW =>
    have h := refreshRW_spec hb
    exact ⟨fun _ => trivial, fun _ => ⟨h.1, h.2, rfl, Nat.zero_le _⟩⟩
  | setHeadContent str =>
    obtain ⟨b', h, hwf, hread⟩ := setHeadContent_spec hb hop
    refine ⟨fun _ => trivial, fun _ => ?_⟩
    rw [StepCorrect, exec, h]
    exact ⟨hwf, hread, rfl, Nat.zero_le _⟩
  | writeToFd n =>
    refine ⟨fun _ => trivial, fun _ => ?_⟩
    rw [StepCorrect, exec, writeToFd_spec hb]
    by_cases hn : 0 < n
    · have hle : n.toNat ≤ b.getReadableBytes := by
        have : n ≤ b.getReadableBytes := hop
        omega
      have h := refresh_spec hb hle
      rw [if_pos hn]
      exact ⟨h.1, h.2, rfl, Nat.zero_le _⟩
    · rw [if_neg hn]
      refine ⟨hb, ?_, rfl, Nat.zero_le _⟩
      show b.readable = b.readable.drop n.toNat
      rw [show n.toNat = 0 by omega, List.drop_zero]

/-! ## Runs -/

section Pool

variable {ι : Type} [DecidableEq ι]

/-- Any number of buffers, each with the queue it stands for. -/
structure Pool (ι : Type) where
  bufs : ι → IoBuffer
  queues : ι → List UInt8

/-- A call on one buffer, or a swap of two. -/
inductive PoolCall (ι : Type) where
  | on (i : ι) (op : Op)
  | swap (i j : ι)

namespace Pool

/-- One call. A call that throws leaves the pool as it was; a copy that leaves
its buffer has no successor state. -/
def step (s : Pool ι) : PoolCall ι → Option (Pool ι)
  | .on i op =>
    if (s.bufs i).Legal op then
      match (s.bufs i).exec op with
      | .ok (_, b') => some
        { bufs := Function.update s.bufs i b'
          queues := Function.update s.queues i (op.queue (s.queues i)) }
      | .error .lengthError => some s
      | .error _ => none
    else none
  | .swap i j =>
    let (a, c) := (s.bufs i).swap (s.bufs j)
    some
      { bufs := Function.update (Function.update s.bufs i a) j c
        queues := Function.update (Function.update s.queues i (s.queues j)) j (s.queues i) }

/-- The buffers are constructed with the capacities `caps`. -/
def machine (caps : ι → ℕ) : Machine (Pool ι) (PoolCall ι) where
  Init s := ∀ i, IoBuffer.new (caps i) = .ok (s.bufs i) ∧ s.queues i = []
  step := step

/-- The condition on a call of a run. -/
def CallOk (s : Pool ι) : PoolCall ι → Prop
  | .on i op => (s.bufs i).StepOk op
  | .swap _ _ => True

instance (s : Pool ι) : ∀ c, Decidable (s.CallOk c)
  | .on i op => inferInstanceAs (Decidable ((s.bufs i).StepOk op))
  | .swap _ _ => inferInstanceAs (Decidable True)

/-- Every buffer is well-formed and holds its queue. -/
def Sound (s : Pool ι) : Prop := ∀ i, (s.bufs i).Wf ∧ (s.bufs i).readable = s.queues i

theorem sound_init {caps : ι → ℕ} (hcaps : ∀ i, kReservedCapacity + caps i < sizeRange)
    {s : Pool ι} (h : (machine caps).Init s) : s.Sound := by
  intro i
  obtain ⟨hwf, hread, -⟩ := new_spec (hcaps i) (h i).1
  exact ⟨hwf, by rw [hread, (h i).2]⟩

theorem sound_step {s s' : Pool ι} {c : PoolCall ι} (hs : s.Sound) (hok : s.CallOk c)
    (hstep : s.step c = some s') : s'.Sound := by
  cases c with
  | on i op =>
    obtain ⟨hwf, hread⟩ := hs i
    rw [step] at hstep
    split at hstep
    · next hlegal =>
      have hcor : (s.bufs i).StepCorrect (s.bufs i).readable op := (stepCorrect_iff hwf hlegal).mpr hok
      rw [StepCorrect] at hcor
      cases hexec : (s.bufs i).exec op with
      | ok r =>
        rw [hexec] at hstep hcor
        cases hstep
        intro j
        by_cases hj : j = i
        · subst hj
          simp only [Function.update_self]
          exact ⟨hcor.1, by rw [hcor.2.1, hread]⟩
        · simp only [Function.update_of_ne hj]
          exact hs j
      | error e =>
        rw [hexec] at hstep hcor
        cases e with
        | lengthError =>
          cases hstep
          exact hs
        | outOfBounds => cases hstep
        | badFunctionCall => cases hstep
    · cases hstep
  | swap i j =>
    cases hstep
    intro k
    by_cases hk : k = j
    · subst hk
      simp only [Function.update_self]
      exact hs i
    · by_cases hki : k = i
      · subst hki
        simp only [Function.update_of_ne hk, Function.update_self]
        exact hs j
      · simp only [Function.update_of_ne hk, Function.update_of_ne hki]
        exact hs k

/-- Along every run whose calls meet `CallOk` the buffers hold their queues. -/
theorem sound {caps : ι → ℕ} (hcaps : ∀ i, kReservedCapacity + caps i < sizeRange)
    {s : Pool ι} (h : (machine caps).Reachable CallOk s) : s.Sound :=
  h.invariant (fun _ h0 => sound_init hcaps h0) (fun _ _ _ _ hs hok hstep => sound_step hs hok hstep)

/-- **An `IoBuffer` is a byte queue as long as it never moves its content.** In
every run from buffers whose size did not wrap, and whose calls all meet
`CallOk`, the indices stay in order inside the buffer and the readable bytes
are those of the queue; and from every state so reached a call is right, with
no copy outside the buffer, if and only if it meets `CallOk` as well. -/
theorem byte_queue_exactly {caps : ι → ℕ} (hcaps : ∀ i, kReservedCapacity + caps i < sizeRange)
    {s : Pool ι} (h : (machine caps).Reachable CallOk s) :
    (∀ i, (s.bufs i).readingIndex ≤ (s.bufs i).writingIndex ∧
      (s.bufs i).writingIndex ≤ (s.bufs i).buffer.length ∧
      (s.bufs i).readable = s.queues i) ∧
    ∀ i op, (s.bufs i).Legal op →
      ((s.bufs i).StepCorrect (s.queues i) op ↔ s.CallOk (.on i op)) := by
  have hs := sound hcaps h
  refine ⟨fun i => ⟨(hs i).1.reading_le, (hs i).1.writing_le, (hs i).2⟩, fun i op hop => ?_⟩
  rw [← (hs i).2]
  exact stepCorrect_iff (hs i).1 hop

/-- One buffer of capacity 4. -/
def fourBytes : Pool Unit := ⟨fun _ => ⟨List.replicate 12 0, 8, 8⟩, fun _ => []⟩

theorem fourBytes_init : (machine fun _ => 4).Init fourBytes := by
  intro i
  exact ⟨by cases i; decide +kernel, rfl⟩

/-- The theorem at a run that reads part of what was appended and then grows. -/
theorem byte_queue_after_growth :
    ∃ s : Pool Unit, (machine fun _ => 4).Reachable CallOk s ∧
      s.queues () = [2, 3, 4, 5, 6] ∧ (s.bufs ()).readable = [2, 3, 4, 5, 6] := by
  obtain ⟨s, hs, hq⟩ := (machine fun _ => 4).exists_of_run CallOk fourBytes_init
    [.on () (.append [1, 2]), .on () (.refresh 1), .on () (.append [3, 4, 5, 6])]
    (fun s => s.queues () = [2, 3, 4, 5, 6]) (by decide +kernel)
  have h := byte_queue_exactly (fun _ => by decide) hs
  exact ⟨s, hs, hq, by rw [← hq]; exact (h.1 ()).2.2⟩

/-- After `Append` of two bytes and `Refresh(1)` one byte is readable and three
bytes could be reclaimed. `EnsureWritableSpace(3)` then makes a stale byte
readable and gains no room, and `Append` of three bytes copies past the end. -/
theorem moving_content_breaks_queue :
    ∃ s : Pool Unit, (machine fun _ => 4).Reachable (fun _ _ => True) s ∧
      s.queues () = [2] ∧ (s.bufs ()).readable = [2] ∧
      ((s.bufs ()).ensureWritableSpace 3).toOption.map (fun b => (b.readable, b.getWritableBytes)) =
        some ([2, 2], 2) ∧
      (s.bufs ()).append [3, 4, 5] = .error .outOfBounds := by
  obtain ⟨s, hs, hP⟩ := (machine fun _ => 4).exists_of_run (fun _ _ => True) fourBytes_init
    [.on () (.append [1, 2]), .on () (.refresh 1)]
    (fun s => s.queues () = [2] ∧ (s.bufs ()).readable = [2] ∧
      ((s.bufs ()).ensureWritableSpace 3).toOption.map (fun b => (b.readable, b.getWritableBytes)) =
        some ([2, 2], 2) ∧
      (s.bufs ()).append [3, 4, 5] = .error .outOfBounds) (by decide +kernel)
  exact ⟨s, hs, hP⟩

end Pool
end Pool

end Taotu.IoBuffer
