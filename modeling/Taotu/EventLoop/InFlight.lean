import Taotu.EventLoop.EventManager

/-!
# Taotu.EventLoop.InFlight — flags, cancel keys and operations in step

A connection remembers what it has in flight by a flag and a cancel key for
each slot; the poller remembers it by the operations in `ops_` that still have
their completion function. The two sides agree in every state of every run in
which the counter of keys has not come round (`flightInv`): a submission links
a fresh key, a completion, a cancellation and a destruction unlink theirs.

1. From the agreement, completions reach only the connection that asked for
   them, also when its address is used again (`completions_reach_submitter`).
2. When `next_key_` has come round, a key that is still in use is drawn again
   and its operation is overwritten (`keys_come_round`).
-/

namespace Taotu

open Lib

/-! ## What a connection holds -/

/-- The key a connection holds for a slot. -/
def Connecting.IoView.held (v : Connecting.IoView) : Slot → Option ℕ
  | .read => if v.readInFlight then some v.readCancelKey else none
  | .write => if v.writeInFlight then some v.writeCancelKey else none

/-- `read_in_flight_` or `write_in_flight_`. -/
def Connecting.inFlight (c : Connecting) : Slot → Bool
  | .read => c.readInFlight
  | .write => c.writeInFlight

/-- `read_cancel_key_` or `write_cancel_key_`. -/
def Connecting.cancelKey (c : Connecting) : Slot → ℕ
  | .read => c.readCancelKey
  | .write => c.writeCancelKey

theorem Connecting.held_io (c : Connecting) (slot : Slot) :
    c.io.held slot = if c.inFlight slot then some (c.cancelKey slot) else none := by
  cases slot <;> rfl

namespace Poller

/-- `ops_` holds an operation of the slot, with its completion function, whose
context names the connection at `self`. -/
def Live (p : Poller) (slot : Slot) (self key : ℕ) : Prop :=
  ∃ op, p.ops key = some op ∧ op.completion = true ∧
    ∃ t, op.target = some t ∧ t.slot = slot ∧ t.self = self

/-- Cancel the operation with the key, if there is one. -/
def cancelHeld (p : Poller) : Option ℕ → Poller
  | some key => p.cancelOp key
  | none => p

theorem Wf.cancelHeld {p : Poller} (hp : p.Wf) (o : Option ℕ) : (p.cancelHeld o).Wf := by
  cases o with
  | none => exact hp
  | some key => exact hp.cancelOp key

theorem Wf.named_cancelHeld {p : Poller} (hp : p.Wf) (o : Option ℕ) :
    (p.cancelHeld o).named = strike p.named o := by
  cases o with
  | none => rfl
  | some key => exact hp.named_cancelOp key

@[simp] theorem cancelOp_states (p : Poller) (key : ℕ) : (p.cancelOp key).states = p.states := by
  unfold cancelOp
  split <;> rfl

@[simp] theorem cancelOp_draws (p : Poller) (key : ℕ) : (p.cancelOp key).draws = p.draws := by
  unfold cancelOp
  split <;> rfl

@[simp] theorem cancelHeld_draws (p : Poller) (o : Option ℕ) :
    (p.cancelHeld o).draws = p.draws := by
  cases o <;> simp [cancelHeld]

@[simp] theorem cancelHeld_states (p : Poller) (o : Option ℕ) :
    (p.cancelHeld o).states = p.states := by
  cases o <;> simp [cancelHeld]

/-- The calls of `CancelPendingIo` cancel what the connection holds. -/
theorem serve_cancels (p : Poller) (v : Connecting.IoView) (owner : ℕ) (sqe : Bool) :
    v.cancels.foldl (serve owner sqe) p =
      (p.cancelHeld (v.held .read)).cancelHeld (v.held .write) := by
  rcases v with ⟨addr, fd, r, rk, w, wk, ms, n⟩
  -- a key 0 is not cancelled, and cancelling it would do nothing
  by_cases hr : rk = 0 <;> by_cases hw : wk = 0 <;> cases r <;> cases w <;>
    simp [Connecting.IoView.cancels, Connecting.IoView.held, cancelHeld, serve, cancelOp, hr, hw]

/-- Only the calls to the poller count. -/
theorem serve_io (p : Poller) (owner : ℕ) (sqe : Bool) (out : List Output) :
    out.foldl (serve owner sqe) p = (out.filter Output.isIo).foldl (serve owner sqe) p := by
  induction out generalizing p with
  | nil => rfl
  | cons o out ih => cases o <;> simp [List.filter_cons, Output.isIo, serve, ih]

theorem normalizeKey_states (p : Poller) : p.normalizeKey.2.states = p.states := by
  unfold normalizeKey
  split <;> rfl

@[simp] theorem submit_states (p : Poller) (sqe : Bool) (op : IoUringOp) :
    (p.submit sqe op).2.states = p.states := by
  cases sqe <;> exact normalizeKey_states p

theorem submit_draws (p : Poller) (sqe : Bool) (op : IoUringOp) :
    (p.submit sqe op).2.draws = p.normalizeKey.2.draws := by
  cases sqe <;> rfl

@[simp] theorem lookupOp_states (p : Poller) (key : ℕ) : (p.lookupOp key).states = p.states := by
  unfold lookupOp
  split <;> rfl

@[simp] theorem lookupOp_draws (p : Poller) (key : ℕ) : (p.lookupOp key).draws = p.draws := by
  unfold lookupOp
  split <;> rfl

end Poller

namespace EventManager

/-- Taking an operation out does not change what a submission will answer. -/
theorem lookup_answer (s : EventManager) (key : ℕ) (sqe : Bool) :
    (s.lookup key).poller.answer sqe = s.poller.answer sqe := by
  have hnext : (s.lookup key).poller.nextKey = s.poller.nextKey := by
    show (s.poller.lookupOp key).nextKey = s.poller.nextKey
    unfold Poller.lookupOp
    split <;> rfl
  simp only [Poller.answer, Poller.normalizeKey, Poller.fetchAdd, hnext]
  split_ifs <;> rfl

/-- The key a target holds: that of its slot, if its owner lives at its address. -/
def held (heap : ℕ → Option Object) (t : Target) : Option ℕ :=
  (heap t.self).bind fun obj => if obj.owner = t.owner then obj.conn.io.held t.slot else none

variable {heap : ℕ → Option Object} {addr owner : ℕ} {c c' : Connecting}

theorem held_eq_some {t : Target} {key : ℕ} (h : held heap t = some key) :
    ∃ obj, heap t.self = some obj ∧ obj.owner = t.owner ∧ obj.conn.io.held t.slot = some key := by
  unfold held at h
  rw [Option.bind_eq_some_iff] at h
  rcases h with ⟨obj, hobj, h⟩
  split at h
  · next howner => exact ⟨obj, hobj, howner, h⟩
  · cases h

theorem held_of {obj : Object} (h : heap addr = some obj) (slot : Slot) :
    held heap ⟨slot, addr, obj.owner⟩ = obj.conn.io.held slot := by
  simp [held, h]

/-- A connection changes: only its own targets hold something else. -/
theorem held_update (h : heap addr = some ⟨owner, c⟩) :
    held (Function.update heap addr (some ⟨owner, c'⟩)) =
      fun t => if t.self = addr ∧ t.owner = owner then c'.io.held t.slot else held heap t := by
  funext ⟨slot, self, o⟩
  by_cases hself : self = addr
  · subst hself
    by_cases ho : owner = o
    · simp [held, ho]
    · simp [held, h, ho, Ne.symm ho]
  · simp [held, hself]

/-- A connection is destroyed: its targets hold nothing. -/
theorem held_erase (h : heap addr = some ⟨owner, c⟩) :
    held (Function.update heap addr none) =
      fun t => if t.self = addr ∧ t.owner = owner then none else held heap t := by
  funext ⟨slot, self, o⟩
  by_cases hself : self = addr
  · subst hself
    by_cases ho : owner = o
    · simp [held, ho]
    · simp [held, h, ho]
  · simp [held, hself]

/-- A new connection holds nothing. -/
theorem held_insert (free : heap addr = none) (hc : ∀ slot, c.io.held slot = none) :
    held (Function.update heap addr (some ⟨owner, c⟩)) = held heap := by
  funext ⟨slot, self, o⟩
  by_cases hself : self = addr
  · subst hself
    simp [held, free, hc]
  · simp [held, Function.update_of_ne hself]

/-- One slot of a connection changes. -/
theorem held_update_slot (h : heap addr = some ⟨owner, c⟩) (slot : Slot) (x : Option ℕ)
    (hslot : c'.io.held slot = x) (hother : ∀ sl, sl ≠ slot → c'.io.held sl = c.io.held sl) :
    held (Function.update heap addr (some ⟨owner, c'⟩)) =
      Function.update (held heap) ⟨slot, addr, owner⟩ x := by
  rw [held_update h]
  funext ⟨sl, self, o⟩
  by_cases ht : (⟨sl, self, o⟩ : Target) = ⟨slot, addr, owner⟩
  · cases ht
    simp [hslot]
  · rw [Function.update_of_ne ht]
    by_cases hmine : self = addr ∧ o = owner
    · rcases hmine with ⟨rfl, rfl⟩
      have hsl : sl ≠ slot := fun hsl => ht (by rw [hsl])
      simp [hother sl hsl, held, h]
    · exact if_neg hmine

/-- Both slots of a connection give up what they hold. -/
theorem release_both (held₀ : Target → Option ℕ) (addr owner : ℕ) :
    Function.update (Function.update held₀ ⟨.read, addr, owner⟩ none) ⟨.write, addr, owner⟩ none =
      fun t => if t.self = addr ∧ t.owner = owner then none else held₀ t := by
  funext ⟨sl, self, o⟩
  by_cases hmine : self = addr ∧ o = owner
  · rcases hmine with ⟨rfl, rfl⟩
    cases sl <;> simp [Function.update]
  · have hr : (⟨sl, self, o⟩ : Target) ≠ ⟨.read, addr, owner⟩ := fun h => hmine (by cases h; simp)
    have hw : (⟨sl, self, o⟩ : Target) ≠ ⟨.write, addr, owner⟩ := fun h => hmine (by cases h; simp)
    rw [Function.update_of_ne hw, Function.update_of_ne hr]
    exact (if_neg hmine).symm

/-! ## The agreement -/

/-- Connections live at their own addresses, and exactly their eventers are
registered. -/
def Placed (states : ℕ → Bool) (heap : ℕ → Option Object) : Prop :=
  ∀ a, states a = (heap a).isSome ∧ ∀ obj, heap a = some obj → obj.conn.addr = a

namespace Placed

variable {states : ℕ → Bool} (h : Placed states heap)
include h

theorem insert (hc : c.addr = addr) (owner : ℕ) :
    Placed (Function.update states addr true) (Function.update heap addr (some ⟨owner, c⟩)) := by
  intro a
  by_cases ha : a = addr
  · rw [ha, Function.update_self, Function.update_self]
    refine ⟨rfl, ?_⟩
    intro obj hobj
    cases hobj
    exact hc
  · rw [Function.update_of_ne ha, Function.update_of_ne ha]
    exact h a

theorem erase (addr : ℕ) :
    Placed (Function.update states addr false) (Function.update heap addr none) := by
  intro a
  by_cases ha : a = addr
  · rw [ha, Function.update_self, Function.update_self]
    refine ⟨rfl, ?_⟩
    intro obj hobj
    cases hobj
  · rw [Function.update_of_ne ha, Function.update_of_ne ha]
    exact h a

/-- A connection changes in place. -/
theorem replace {obj : Object} (hobj : heap addr = some obj) (hc : c.addr = obj.conn.addr)
    (owner : ℕ) : Placed states (Function.update heap addr (some ⟨owner, c⟩)) := by
  have hon : states addr = true := by
    rw [(h addr).1, hobj]
    rfl
  have hins := h.insert (hc.trans ((h addr).2 obj hobj)) owner
  rwa [← hon, Function.update_eq_self] at hins

end Placed

/-- Poller and connections agree on what is in flight: what is named is held,
and what is held is named as long as the counter of keys has not come round. -/
structure InStep (p : Poller) (heap : ℕ → Option Object) : Prop where
  wf : p.Wf
  placed : Placed p.states heap
  sound : Sound p.named (held heap)
  complete : p.draws < keyRange → Complete p.named (held heap)

namespace InStep

variable {p : Poller}

/-- Cancelling everything a connection holds, seen from both sides. -/
theorem cancel (hs : InStep p heap) (h : heap addr = some ⟨owner, c⟩) (sqe : Bool) :
    (c.io.cancels.foldl (Poller.serve owner sqe) p).Wf ∧
      (c.io.cancels.foldl (Poller.serve owner sqe) p).states = p.states ∧
      Sound (c.io.cancels.foldl (Poller.serve owner sqe) p).named
        (fun t => if t.self = addr ∧ t.owner = owner then none else held heap t) ∧
      ((c.io.cancels.foldl (Poller.serve owner sqe) p).draws < keyRange →
        Complete (c.io.cancels.foldl (Poller.serve owner sqe) p).named
          (fun t => if t.self = addr ∧ t.owner = owner then none else held heap t)) := by
  have hr : held heap ⟨.read, addr, owner⟩ = c.io.held .read := held_of h .read
  have hw : Function.update (held heap) ⟨.read, addr, owner⟩ none ⟨.write, addr, owner⟩ =
      c.io.held .write := by
    rw [Function.update_of_ne (by simp)]
    exact held_of h .write
  have hp₁ := hs.wf.cancelHeld (c.io.held .read)
  have hnamed : ((p.cancelHeld (c.io.held .read)).cancelHeld (c.io.held .write)).named =
      strike (strike p.named (held heap ⟨.read, addr, owner⟩))
        (Function.update (held heap) ⟨.read, addr, owner⟩ none ⟨.write, addr, owner⟩) := by
    rw [hp₁.named_cancelHeld, hs.wf.named_cancelHeld, hr, hw]
  rw [Poller.serve_cancels, hnamed, ← release_both]
  refine ⟨hp₁.cancelHeld _, by simp, (hs.sound.unlink _).unlink _, ?_⟩
  intro hd
  exact ((hs.complete (by simpa using hd)).unlink _).unlink _

/-- A submission of the connection at `addr`, seen from both sides. -/
theorem submit (hs : InStep p heap) (h : heap addr = some ⟨owner, c⟩) (slot : Slot) (sqe : Bool)
    {op : IoUringOp} (hop : op.completion = true) (ht : op.target = some ⟨slot, addr, owner⟩)
    (hev : op.eventer = some addr) (haddr : c'.addr = c.addr) (free : c.io.held slot = none)
    (hslot : c'.io.held slot = if p.answer sqe ≠ 0 then some (p.answer sqe) else none)
    (hother : ∀ sl, sl ≠ slot → c'.io.held sl = c.io.held sl) :
    InStep (p.submit sqe op).2 (Function.update heap addr (some ⟨owner, c'⟩)) := by
  obtain ⟨-, hpos, -, hlt⟩ := hs.wf.normalizeKey
  have hfree : held heap ⟨slot, addr, owner⟩ = none := (held_of h slot).trans free
  refine ⟨?_, ?_, ?_, ?_⟩
  · apply hs.wf.submit
    intro t ht'
    rw [ht] at ht'
    cases ht'
    exact hev
  · rw [Poller.submit_states]
    exact hs.placed.replace h haddr owner
  · rw [Poller.named_submit p sqe hop, held_update_slot h slot _ hslot hother, Poller.answer]
    cases sqe with
    | false =>
      -- no entry, no operation: the slot stays free
      simpa [← hfree] using hs.sound
    | true =>
      simp only [if_true, Nat.one_le_iff_ne_zero.mp hpos, ne_eq, not_false_eq_true]
      rw [ht]
      exact hs.sound.link hfree _
  · intro hd
    rw [Poller.submit_draws] at hd
    have hcomplete := hs.complete (by omega)
    rw [Poller.named_submit p sqe hop, held_update_slot h slot _ hslot hother, Poller.answer]
    cases sqe with
    | false => simpa [← hfree] using hcomplete
    | true =>
      simp only [if_true, Nat.one_le_iff_ne_zero.mp hpos, ne_eq, not_false_eq_true]
      rw [ht]
      exact hcomplete.link (hs.wf.fresh hd) _

/-- The held keys of a connection are all that matters. -/
theorem replace (hs : InStep p heap) (h : heap addr = some ⟨owner, c⟩) (haddr : c'.addr = c.addr)
    (hheld : c'.io.held = c.io.held) :
    InStep p (Function.update heap addr (some ⟨owner, c'⟩)) := by
  have heq : held (Function.update heap addr (some ⟨owner, c'⟩)) = held heap := by
    rw [held_update h, hheld, ← held_update h, Function.update_eq_self_iff.mpr h.symm]
  refine ⟨hs.wf, hs.placed.replace h haddr owner, ?_, ?_⟩
  · rw [heq]
    exact hs.sound
  · rw [heq]
    exact hs.complete

/-- **A turn of a connection keeps poller and connections in step.** -/
theorem turn (hs : InStep p heap) (h : heap addr = some ⟨owner, c⟩) {sqe : Bool}
    {st : ConnectionState} {t : Turn} (hmove : Connecting.IoMove (p.answer sqe) c.io st t) :
    InStep ((t.out.map Prod.snd).foldl (Poller.serve owner sqe) p)
      (Function.update heap addr (some ⟨owner, t.conn⟩)) := by
  have haddr : t.conn.addr = c.addr := hmove.addr
  have hself : c.io.addr = addr := (hs.placed addr).2 _ h
  rw [Poller.serve_io, show (t.out.map Prod.snd).filter Output.isIo = t.io from rfl]
  cases hmove with
  | quiet out io =>
    rw [out]
    exact hs.replace h haddr (by rw [io])
  | submitRead c₁ free out _ _ io =>
    rw [Turn.io_single out rfl]
    refine hs.submit h .read sqe rfl ?_ (congrArg some hself) haddr ?_ ?_ ?_
    · rw [← hself]
      rfl
    · simp [Connecting.IoView.held, free]
    · rw [io]
      simp [Connecting.IoView.held]
    · intro sl hsl
      rw [io]
      cases sl with
      | read => exact absurd rfl hsl
      | write => rfl
  | submitWrite c₁ free _ out _ _ io =>
    rw [Turn.io_single out rfl]
    refine hs.submit h .write sqe rfl ?_ (congrArg some hself) haddr ?_ ?_ ?_
    · rw [← hself]
      rfl
    · simp [Connecting.IoView.held, free]
    · rw [io]
      simp [Connecting.IoView.held]
    · intro sl hsl
      rw [io]
      cases sl with
      | read => rfl
      | write => exact absurd rfl hsl
  | cancel out io =>
    have hheld : held (Function.update heap addr (some ⟨owner, t.conn⟩)) =
        fun t => if t.self = addr ∧ t.owner = owner then none else held heap t := by
      rw [held_update h, io]
      funext ⟨slot, self, o⟩
      cases slot <;> simp [Connecting.IoView.held, Connecting.IoView.idle]
    obtain ⟨hwf, hst, hsound, hcomplete⟩ := hs.cancel h sqe
    rw [out]
    refine ⟨hwf, ?_, ?_, ?_⟩
    · rw [hst]
      exact hs.placed.replace h haddr owner
    · rw [hheld]
      exact hsound
    · rw [hheld]
      exact hcomplete

/-- An operation whose completion function runs is held by its target. -/
theorem called (hs : InStep p heap) {key : ℕ} {op : IoUringOp} {t : Target}
    (hcall : p.handleCqe key = .call op) (ht : op.target = some t) : held heap t = some key := by
  rcases Poller.handleCqe_call hcall with ⟨-, hop, hc⟩
  exact hs.sound key t (Poller.named_eq_some.mpr ⟨op, hop, hc, ht⟩)

/-- The operation of an entry is taken out, and its target lets go of the key. -/
theorem complete_op (hs : InStep p heap) {key : ℕ} {op : IoUringOp} {slot : Slot}
    (hcall : p.handleCqe key = .call op) (ht : op.target = some ⟨slot, addr, op.owner⟩)
    {obj : Object} (h : heap addr = some obj) (haddr : c.addr = obj.conn.addr)
    (hslot : c.io.held slot = none)
    (hother : ∀ sl, sl ≠ slot → c.io.held sl = obj.conn.io.held sl) :
    InStep (p.lookupOp key) (Function.update heap addr (some ⟨obj.owner, c⟩)) := by
  have hheld := hs.called hcall ht
  -- the object at the address is the one that submitted the operation
  have howner : obj.owner = op.owner := by
    obtain ⟨obj', hobj', howner, -⟩ := held_eq_some hheld
    rw [h] at hobj'
    cases hobj'
    exact howner
  have hnamed : (p.lookupOp key).named = strike p.named (held heap ⟨slot, addr, op.owner⟩) := by
    rw [hheld]
    exact hs.wf.named_lookupOp key
  refine ⟨hs.wf.lookupOp key, ?_, ?_, ?_⟩
  · rw [Poller.lookupOp_states]
    exact hs.placed.replace h haddr obj.owner
  · rw [hnamed, held_update_slot h slot none hslot hother, howner]
    exact hs.sound.unlink _
  · rw [hnamed, held_update_slot h slot none hslot hother, howner, Poller.lookupOp_draws]
    intro hd
    exact (hs.complete hd).unlink _

/-- An entry that reaches no connection takes out an operation nobody holds. -/
theorem unheard (hs : InStep p heap) {key : ℕ}
    (hno : ∀ op, p.handleCqe key = .call op → op.target = none) : InStep (p.lookupOp key) heap := by
  have hnone : p.named key = none := by
    cases hn : p.named key with
    | none => rfl
    | some t =>
      -- a named operation is watched, so its completion function would have run
      obtain ⟨op, hop, hc, ht⟩ := Poller.named_eq_some.mp hn
      obtain ⟨obj, hobj, -, -⟩ := held_eq_some (hs.sound key t hn)
      have hpos := (hs.wf.keys key op hop).1
      have hw : p.watches op = true := by
        rw [Poller.watches, hs.wf.eventer key op t hop hc ht]
        show p.states t.self = true
        rw [(hs.placed t.self).1, hobj]
        rfl
      have hcall : p.handleCqe key = .call op := by
        simp [Poller.handleCqe, Nat.one_le_iff_ne_zero.mp hpos, hop, hc, hw]
      rw [hno op hcall] at ht
      cases ht
  have hnamed : (p.lookupOp key).named = p.named := by
    rw [hs.wf.named_lookupOp, strike_of_none hnone]
  refine ⟨hs.wf.lookupOp key, ?_, ?_, ?_⟩
  · rw [Poller.lookupOp_states]
    exact hs.placed
  · rw [hnamed]
    exact hs.sound
  · rw [hnamed, Poller.lookupOp_draws]
    exact hs.complete

/-- The kernel's own list of requests does not matter. -/
theorem of_kernel (hs : InStep p heap) (ks : List ℕ) : InStep { p with kernel := ks } heap :=
  ⟨⟨hs.wf.next, hs.wf.keys, hs.wf.eventer⟩, hs.placed, hs.sound, hs.complete⟩

/-- A completion handler: its slot is given up, then the connection moves. -/
theorem completion {s : EventManager} (hs : InStep s.poller s.heap) {key : ℕ} {op : IoUringOp}
    {slot : Slot} (hcall : s.poller.handleCqe key = .call op)
    (ht : op.target = some ⟨slot, addr, op.owner⟩) {obj : Object} (h : s.heap addr = some obj)
    (haddr : c.addr = obj.conn.addr) (hslot : c.io.held slot = none)
    (hother : ∀ sl, sl ≠ slot → c.io.held sl = obj.conn.io.held sl) {sqe : Bool}
    {st : ConnectionState} {t : Turn}
    (hmove : Connecting.IoMove (s.poller.answer sqe) c.io st t) :
    InStep ((s.lookup key).take addr obj.owner sqe t).poller
      ((s.lookup key).take addr obj.owner sqe t).heap := by
  have hdone := (hs.complete_op hcall ht h haddr hslot hother).of_kernel (s.poller.kernel.erase key)
  rw [← lookup_answer s key sqe] at hmove
  have hturn := hdone.turn (Function.update_self ..) hmove
  rwa [Function.update_idem] at hturn

/-- Other eventers draw keys, but name no connection. -/
theorem other (hs : InStep p heap) (sqe : Bool) : InStep (p.submitOther sqe).2 heap := by
  have hlt := hs.wf.normalizeKey.2.2.2
  have hnamed : (p.submitOther sqe).2.named =
      strike p.named (if sqe then some p.normalizeKey.1 else none) := by
    rw [Poller.submitOther, Poller.named_submit p sqe rfl]
    cases sqe <;> rfl
  refine ⟨?_, ?_, ?_, ?_⟩
  · apply hs.wf.submit
    intro t ht
    cases ht
  · rw [Poller.submitOther, Poller.submit_states]
    exact hs.placed
  · rw [hnamed]
    exact hs.sound.strike _
  · intro hd
    rw [Poller.submitOther, Poller.submit_draws] at hd
    rw [hnamed]
    cases sqe with
    | false => exact hs.complete (by omega)
    | true =>
      rw [if_pos rfl, strike_of_none (hs.wf.fresh hd)]
      exact hs.complete (by omega)

/-- A destroyed connection holds nothing, and nothing names it. -/
theorem destroy {s : EventManager} (hs : InStep s.poller s.heap) (a : ℕ) :
    InStep (s.destroy a).poller (s.destroy a).heap := by
  unfold EventManager.destroy
  split
  · exact hs
  · next obj hobj =>
    obtain ⟨hwf, hst, hsound, hcomplete⟩ := hs.cancel hobj false
    rw [← Connecting.cancelPendingIo_out, ← Poller.serve_io] at hwf hst hsound hcomplete
    refine ⟨⟨hwf.next, hwf.keys, hwf.eventer⟩, ?_, ?_, ?_⟩
    · show Placed (Function.update _ a false) (Function.update s.heap a none)
      rw [hst]
      exact hs.placed.erase a
    · rw [held_erase hobj]
      exact hsound
    · rw [held_erase hobj]
      exact hcomplete

/-- A new connection has nothing in flight. -/
theorem insert {s : EventManager} (hs : InStep s.poller s.heap) {fd : ℕ}
    (free : s.heap addr = none) (hc : c.addr = addr) (hidle : ∀ slot, c.io.held slot = none) :
    InStep (s.insertNewConnection addr fd c).poller (s.insertNewConnection addr fd c).heap := by
  have hnew : InStep (s.poller.addEventer addr)
      (Function.update s.heap addr (some ⟨s.created, c⟩)) := by
    refine ⟨⟨hs.wf.next, hs.wf.keys, hs.wf.eventer⟩, hs.placed.insert hc _, ?_, ?_⟩
    · rw [held_insert free hidle]
      exact hs.sound
    · rw [held_insert free hidle]
      exact hs.complete
  unfold insertNewConnection
  dsimp only
  split
  · exact hnew.destroy _
  · exact hnew

theorem remove {s : EventManager} (hs : InStep s.poller s.heap) (fd a : ℕ) (obj : Object) :
    InStep (s.remove fd a obj).poller (s.remove fd a obj).heap := by
  unfold EventManager.remove
  refine InStep.destroy ?_ a
  exact hs

/-- One descriptor of the pass. -/
theorem destroyClosed {s : EventManager} (hs : InStep s.poller s.heap) (fd : ℕ) :
    InStep (s.destroyClosed fd).1.poller (s.destroyClosed fd).1.heap := by
  cases s.destroyClosed_passed fd with
  | skipped h =>
    rw [h]
    exact hs
  | waited a obj hmap hobj hdisc hwait h =>
    rw [h]
    exact hs.replace hobj rfl rfl
  | removed a obj hmap hobj hdisc hwait h =>
    rw [h]
    exact hs.remove fd a obj

theorem destroyAll {s : EventManager} (hs : InStep s.poller s.heap) (fds : List ℕ) :
    InStep (destroyAll s fds).1.poller (destroyAll s fds).1.heap := by
  induction fds generalizing s with
  | nil => exact hs
  | cons fd fds ih => exact ih (hs.destroyClosed fd)

end InStep

theorem inStep_start : InStep start.poller start.heap := by
  refine ⟨Poller.wf_new, ?_, ?_, ?_⟩
  · intro a
    refine ⟨rfl, ?_⟩
    intro obj h
    cases h
  · intro key t h
    cases h
  · intro _ key t h
    cases h

/-- A new connection has nothing in flight. -/
theorem new_idle {fd : ℕ} {b₁ b₂ b₃ b₄ : Bool} {hwm : Option ℕ}
    (h : Connecting.new addr fd b₁ b₂ b₃ hwm b₄ = .ok c) :
    c.addr = addr ∧ ∀ slot, c.io.held slot = none := by
  unfold Connecting.new at h
  obtain ⟨_, -, h⟩ := bind_eq_ok h
  obtain ⟨_, -, h⟩ := bind_eq_ok h
  obtain ⟨_, -, h⟩ := bind_eq_ok h
  cases h
  refine ⟨rfl, ?_⟩
  intro slot
  cases slot <;> rfl

/-- **One step keeps poller and connections in step.** -/
theorem InStep.step {s s' : EventManager} {l : Label} (hs : InStep s.poller s.heap)
    (hp : s.Performed l s') : InStep s'.poller s'.heap := by
  cases hp with
  | insert a fd b₁ b₂ b₃ hwm b₄ c free hc =>
    obtain ⟨haddr, hidle⟩ := new_idle hc
    exact hs.insert free haddr hidle
  | call a act sqe obj t hobj ht => exact hs.turn hobj (Connecting.exec_ioMove ht)
  | ret sqe a f rest obj t hobj ht => exact hs.turn hobj (Connecting.resume_ioMove ht)
  | readComplete key res data sqe op ctx ctx' obj b t hcall hctx hobj ht =>
    have htarget : op.target = some ⟨.read, ctx.self, op.owner⟩ := by rw [IoUringOp.target, hctx]
    have hother : ∀ sl, sl ≠ Slot.read →
        obj.conn.readDone.io.held sl = obj.conn.io.held sl := by
      intro sl hsl
      cases sl with
      | read => exact absurd rfl hsl
      | write => rfl
    have hmove := Connecting.onReadComplete_ioMove ht
    exact hs.completion (c := obj.conn.readDone) hcall htarget hobj rfl rfl hother hmove
  | writeComplete key res data sqe op ctx obj hcall hctx hobj =>
    have htarget : op.target = some ⟨.write, ctx.self, op.owner⟩ := by rw [IoUringOp.target, hctx]
    have hother : ∀ sl, sl ≠ Slot.write →
        obj.conn.writeDone.io.held sl = obj.conn.io.held sl := by
      intro sl hsl
      cases sl with
      | read => rfl
      | write => exact absurd rfl hsl
    exact hs.completion (c := obj.conn.writeDone) hcall htarget hobj rfl rfl hother
      Connecting.onWriteComplete_ioMove
  | unheard key res data more sqe hno => exact (hs.unheard hno).of_kernel _
  | repeated key res data sqe => exact hs
  | other sqe => exact hs.other sqe
  | destroyClosed => exact hs.destroyAll s.closedFds

/-- Poller and connections are in step in every run. -/
theorem inStep {ok : EventManager → Label → Prop} {s : EventManager}
    (h : machine.Reachable ok s) : InStep s.poller s.heap :=
  invariant (fun s => InStep s.poller s.heap) inStep_start (fun _ _ hs => hs)
    (fun _ _ _ _ hs _ hp => hs.step hp) h

/-! ## Completions reach their submitters -/

/-- A live operation is named, -/
theorem named_of_live {p : Poller} {slot : Slot} {key : ℕ} (h : p.Live slot addr key) :
    ∃ o, p.named key = some ⟨slot, addr, o⟩ := by
  rcases h with ⟨op, hop, hc, ⟨slot', self, o⟩, ht, rfl, rfl⟩
  exact ⟨o, Poller.named_eq_some.mpr ⟨op, hop, hc, ht⟩⟩

/-- so the connection at its address holds its key. -/
theorem InStep.live {p : Poller} (hs : InStep p heap) {obj : Object} (hobj : heap addr = some obj)
    {slot : Slot} {key : ℕ} (h : p.Live slot addr key) :
    obj.conn.inFlight slot = true ∧ key = obj.conn.cancelKey slot := by
  obtain ⟨o, hnamed⟩ := named_of_live h
  obtain ⟨obj', hobj', -, hheld⟩ := held_eq_some (hs.sound key _ hnamed)
  rw [hobj] at hobj'
  cases hobj'
  rw [Connecting.held_io] at hheld
  split at hheld
  · next hfl => exact ⟨hfl, (Option.some.inj hheld).symm⟩
  · cases hheld

/-- **Flags, cancel keys and operations say the same**, in every run that has drawn fewer than
`2 ^ 64` keys, **and a completion reaches the connection that submitted its operation**, in
every run. -/
theorem completions_reach_submitter {s : EventManager}
    (h : machine.Reachable (fun _ _ => True) s) :
    (s.poller.draws < keyRange → ∀ a obj slot, s.heap a = some obj →
      (obj.conn.inFlight slot = true ↔ ∃! key, s.poller.Live slot a key) ∧
        ∀ key, s.poller.Live slot a key → key = obj.conn.cancelKey slot) ∧
    ∀ key op t, s.poller.handleCqe key = .call op → op.target = some t →
      ∃ obj, s.heap t.self = some obj ∧ obj.owner = t.owner := by
  have hs := inStep h
  constructor
  · intro hd a obj slot hobj
    refine ⟨?_, fun key hlive => (hs.live hobj hlive).2⟩
    constructor
    · intro hfl
      have hheld : held s.heap ⟨slot, a, obj.owner⟩ = some (obj.conn.cancelKey slot) := by
        rw [held_of hobj, Connecting.held_io, if_pos hfl]
      obtain ⟨op, hop, hc, ht⟩ := Poller.named_eq_some.mp (hs.complete hd _ _ hheld)
      exact ⟨obj.conn.cancelKey slot, ⟨op, hop, hc, _, ht, rfl, rfl⟩,
        fun key hlive => (hs.live hobj hlive).2⟩
    · rintro ⟨key, hlive, -⟩
      exact (hs.live hobj hlive).1
  · intro key op t hcall ht
    obtain ⟨obj, hobj, howner, -⟩ := held_eq_some (hs.called hcall ht)
    exact ⟨obj, hobj, howner⟩

/-- A connection is closed with a read in flight and destroyed; another one at
the same address then submits its own read. -/
def recycled : List Label :=
  [.insert 1 7 true true true none true, .call 1 .onEstablishing true, .ret true,
    .call 1 .forceClose true, .ret true, .ret true, .destroyClosed,
    .insert 1 8 true true true none true, .call 1 .onEstablishing true, .ret true]

theorem completions_reach_recycled :
    ∃ s, machine.Reachable (fun _ _ => True) s ∧ s.poller.draws < keyRange ∧
      (s.poller.ops 1).map IoUringOp.owner = some 0 ∧
      ∃ obj, s.heap 1 = some obj ∧ obj.owner = 1 ∧ ∃! key, s.poller.Live .read 1 key := by
  obtain ⟨s, hs, hd, hold, hnew⟩ := machine.exists_of_run (fun _ _ => True) rfl recycled
    (fun s => s.poller.draws < keyRange ∧ (s.poller.ops 1).map IoUringOp.owner = some 0 ∧
      (s.heap 1).any (fun obj => obj.owner = 1 && obj.conn.inFlight .read) = true)
    (by decide +kernel)
  obtain ⟨obj, hobj, hfl⟩ := (Option.any_eq_true _ _).mp hnew
  rw [Bool.and_eq_true, decide_eq_true_iff] at hfl
  refine ⟨s, hs, hd, hold, obj, hobj, hfl.1, ?_⟩
  exact ((completions_reach_submitter hs).1 hd 1 obj .read hobj).1.mp hfl.2

/-! ## When the keys come round -/

/-- A submission of another eventer that finds no entry only draws a key. -/
theorem step_draw {s : EventManager} (hf : s.fault = none) {p : Poller} (hpos : p.nextKey ≠ 0) :
    machine.step { s with poller := p } (.other false) = some { s with poller := p.fetchAdd } := by
  show step _ (.other false) = _
  rw [step, if_pos ⟨hf, trivial⟩]
  simp [perform, Poller.submitOther, Poller.submit, Poller.normalizeKey, hpos]

/-- Keys are drawn until the counter reaches 0. -/
theorem reachable_draws {s : EventManager} (h : machine.Reachable (fun _ _ => True) s)
    (hf : s.fault = none) (hpos : s.poller.nextKey ≠ 0) (n : ℕ)
    (hn : s.poller.nextKey + n ≤ keyRange) :
    machine.Reachable (fun _ _ => True)
      { s with poller := { s.poller with
        nextKey := (s.poller.nextKey + n) % keyRange
        draws := s.poller.draws + n } } := by
  induction n with
  | zero =>
    have hlt : s.poller.nextKey < keyRange := by
      rw [(inStep h).wf.next]
      exact Nat.mod_lt _ (by decide)
    rw [Nat.add_zero, Nat.add_zero, Nat.mod_eq_of_lt hlt]
    exact h
  | succ n ih =>
    have hlt : (s.poller.nextKey + n) % keyRange = s.poller.nextKey + n :=
      Nat.mod_eq_of_lt (by omega)
    refine .step (.other false) (ih (by omega)) trivial ?_
    rw [step_draw hf (show (s.poller.nextKey + n) % keyRange ≠ 0 by omega), Poller.fetchAdd]
    dsimp only
    rw [hlt]
    rfl

/-- The counter of keys after the last key has been drawn. -/
def lap (s : EventManager) : EventManager :=
  { s with poller := { s.poller with
    nextKey := (s.poller.nextKey + (keyRange - 2)) % keyRange
    draws := s.poller.draws + (keyRange - 2) } }

/-- After `2 ^ 64` draws the key of a read in flight is drawn again for a write,
and the read is lost from `ops_`. -/
theorem keys_come_round :
    ∃ s, machine.Reachable (fun _ _ => True) s ∧
      ∃ obj, s.heap 1 = some obj ∧ obj.conn.readInFlight = true ∧
        ∀ key, ¬ s.poller.Live .read 1 key := by
  obtain ⟨s, hs, hf, hnext, hrun⟩ := machine.exists_of_run (fun _ _ => True) rfl
    [.insert 1 7 true true true none true, .call 1 .onEstablishing true, .ret true]
    (fun s => s.fault = none ∧ s.poller.nextKey = 2 ∧
      (machine.step (lap s) (.call 1 (.send [0]) true)).any (fun s' =>
        (s'.heap 1).any (fun obj => obj.conn.readInFlight && obj.conn.readCancelKey = 1) &&
          (s'.poller.ops 1).any (fun op => op.target = some ⟨.write, 1, 0⟩)) = true)
    (by decide +kernel)
  have hlap : machine.Reachable (fun _ _ => True) (lap s) :=
    reachable_draws hs hf (by omega) _ (by rw [hnext]; decide)
  obtain ⟨s', hstep, hs'⟩ := (Option.any_eq_true _ _).mp hrun
  rw [Bool.and_eq_true] at hs'
  obtain ⟨obj, hobj, hconn⟩ := (Option.any_eq_true _ _).mp hs'.1
  obtain ⟨op, hop, htarget⟩ := (Option.any_eq_true _ _).mp hs'.2
  rw [Bool.and_eq_true, decide_eq_true_iff] at hconn
  have hreach := Machine.Reachable.step _ hlap trivial hstep
  refine ⟨s', hreach, obj, hobj, hconn.1, ?_⟩
  intro key hlive
  -- a live read would be the one at the cancel key, where the write is
  have hkey : key = 1 := ((inStep hreach).live hobj hlive).2.trans hconn.2
  rcases hlive with ⟨op', hop', -, t, ht, hslot, -⟩
  rw [hkey, hop] at hop'
  cases hop'
  rw [of_decide_eq_true htarget] at ht
  cases ht
  cases hslot

end EventManager

end Taotu
