import Taotu.EventLoop.Polling

/-!
# Taotu.EventLoop.Contexts — who deletes a context (`poller.cc`, `connecting.cc`, `acceptor.cc`)

A read, a write or an accept is submitted with a context on the heap. Its
submitter deletes it if there is no submission queue entry, its completion function
when the operation is over, and the poller if the operation has been cancelled, if
its eventer is gone, or if the poller itself is destroyed first.

1. **Model layer.** The operations in `ops_` with their contexts, and the operation
   that is out of `ops_` while its completion function runs. That function may submit
   and cancel, so a run interleaves its steps with those of everybody else.
2. **Connection.** `calls_poller`: the completion function is called when the model of
   `Taotu.EventLoop.Poller` calls it.
3. **Safety.** Before the keys come round, every context that was allocated is in one
   place: in `ops_`, with the running completion function, or deleted
   (`contexts_released_once`).

**Ghosts.** `serial` numbers the submissions, `kernel` has each operation as it was
submitted, `ran` pairs that with the operation its CQE found, `deletions` lists the
contexts in the order they were deleted and who deleted them, and `overwritten` is set
when an operation in `ops_` is overwritten. A context is named by the number of those
allocated before it.
-/

namespace Taotu

open Lib

inductive OpType where
  | kPoll
  | kRead
  | kWrite
  | kAccept
deriving DecidableEq, Repr

/-- What an `IoUringOp` knows about its context; the completion function is present or
not. -/
structure ContextOp where
  type : OpType
  eventer : Option ℕ
  context : Option ℕ
  completion : Bool
  serial : ℕ
deriving DecidableEq, Repr

/-- What `CancelOp` leaves of an operation. -/
def ContextOp.cancelled (op : ContextOp) : ContextOp :=
  { op with eventer := none, completion := false }

/-- The operation whose completion function runs; `released` says that it has deleted
its context. -/
structure Completing where
  key : ℕ
  op : ContextOp
  more : Bool
  released : Bool
deriving DecidableEq, Repr

/-- What a completion function does with its context when it comes to its end. -/
inductive Ending where
  | keeps
  | deletes
  | deletesAndClears
deriving DecidableEq, Repr

namespace Completing

/-- `OnReadComplete` deletes its context with the last CQE, and clears the pointer. -/
def onReadComplete (more : Bool) : Ending := if more then .keeps else .deletesAndClears

/-- `OnWriteComplete` deletes its context in any case. If it has swapped its buffers it returns
before it clears the pointer. -/
def onWriteComplete (swapped : Bool) : Ending := if swapped then .deletes else .deletesAndClears

/-- `OnAcceptComplete` deletes its context with the last CQE, and leaves the pointer. -/
def onAcceptComplete (more : Bool) : Ending := if more then .keeps else .deletes

/-- How the completion function ends; a poll has none. -/
def ending (c : Completing) (swapped : Bool) : Option Ending :=
  match c.op.type with
  | .kPoll => none
  | .kRead => some (onReadComplete c.more)
  | .kWrite => some (onWriteComplete swapped)
  | .kAccept => some (onAcceptComplete c.more)

def Deletes (c : Completing) (swapped : Bool) : Prop :=
  c.ending swapped = some .deletes ∨ c.ending swapped = some .deletesAndClears

/-- There is a way through the function on which it does not delete. -/
def Keeps (c : Completing) : Prop := ∃ swapped, c.ending swapped = some .keeps

instance (c : Completing) (swapped : Bool) : Decidable (c.Deletes swapped) :=
  inferInstanceAs (Decidable (_ ∨ _))

instance (c : Completing) : Decidable c.Keeps :=
  inferInstanceAs (Decidable (∃ swapped, c.ending swapped = some .keeps))

/-- With a CQE that is not the last one only a write deletes. -/
theorem Deletes.last {c : Completing} {swapped : Bool} (h : c.Deletes swapped)
    (hmore : c.more = true) : c.op.type = .kWrite := by
  cases htype : c.op.type <;>
    simp [Deletes, ending, htype, hmore, onReadComplete, onAcceptComplete] at h ⊢

theorem Keeps.more {c : Completing} (h : c.Keeps) : c.more = true := by
  obtain ⟨swapped, h⟩ := h
  cases htype : c.op.type with
  | kPoll => simp [ending, htype] at h
  | kWrite => cases swapped <;> simp [ending, htype, onWriteComplete] at h
  | kRead | kAccept => simpa [ending, htype, onReadComplete, onAcceptComplete] using h

end Completing

/-- Who deletes a context. -/
inductive Deleter where
  | submitter
  | completionFunction
  | handleCqe
  | destructor
deriving DecidableEq, Repr

structure Contexts where
  ops : List (ℕ × ContextOp)
  states : ℕ → Bool
  nextKey : ℕ
  kernel : List (ℕ × ContextOp)
  running : Option Completing
  destroyed : Bool
  submissions : ℕ
  allocated : ℕ
  deletions : List (ℕ × Deleter)
  ran : List (ContextOp × ContextOp)
  overwritten : Bool

namespace Contexts

/-! ## Model layer -/

/-- `ops_[key] = op`. -/
def enter (key : ℕ) (op : ContextOp) (s : Contexts) : Contexts :=
  { s with
    ops := (key, op) :: without key s.ops
    overwritten := s.overwritten || s.ops.any (·.1 = key) }

/-- `delete ctx`, which does nothing for a null pointer. -/
def delete (who : Deleter) (ctx : Option ℕ) (s : Contexts) : Contexts :=
  { s with deletions := s.deletions ++ ctx.toList.map fun c => (c, who) }

/-- `NormalizeKey(0)`. -/
def drawn (s : Contexts) : ℕ := (Polls.normalizeKey s.nextKey).1

def draw (s : Contexts) : Contexts :=
  { s with nextKey := (Polls.normalizeKey s.nextKey).2, submissions := s.submissions + 1 }

/-- `SubmitRead`, `SubmitWrite`, `SubmitAccept` and `SubmitPoll` in the poller; only a poll
has no completion function. Without an SQE the answer is 0. -/
def submit (sqe : Bool) (type : OpType) (eventer context : Option ℕ) (s : Contexts) :
    ℕ × Contexts :=
  if sqe then
    let op : ContextOp := ⟨type, eventer, context, type ≠ .kPoll, s.submissions⟩
    (s.drawn, { s.draw.enter s.drawn op with kernel := (s.drawn, op) :: s.kernel })
  else (0, s.draw)

def allocate (s : Contexts) : Contexts := { s with allocated := s.allocated + 1 }

/-- A context is allocated and submitted, and deleted again if the answer is 0. -/
def submitOnce (sqe : Bool) (type : OpType) (eventer : Option ℕ) (s : Contexts) : Contexts :=
  let context := some s.allocated
  let (key, s) := s.allocate.submit sqe type eventer context
  if key = 0 then s.delete .submitter context else s

/-- The part of `Connecting::SubmitReadOnce` behind its check. -/
def submitReadOnce (sqe : Bool) (e : ℕ) (s : Contexts) : Contexts :=
  s.submitOnce sqe .kRead (some e)

/-- The part of `Connecting::SubmitWriteOnce` behind its check. -/
def submitWriteOnce (sqe : Bool) (e : ℕ) (s : Contexts) : Contexts :=
  s.submitOnce sqe .kWrite (some e)

/-- The part of `Acceptor::SubmitAcceptOnce` behind its check. -/
def submitAcceptOnce (sqe : Bool) (s : Contexts) : Contexts :=
  s.submitOnce sqe .kAccept none

def submitPoll (sqe : Bool) (e : ℕ) (s : Contexts) : Contexts :=
  (s.submit sqe .kPoll (some e) none).2

def cancelOp (key : ℕ) (s : Contexts) : Contexts :=
  if key = 0 then s
  else { s with ops := s.ops.map fun p => if p.1 = key then (p.1, p.2.cancelled) else p }

/-- `HandleCqe` calls the completion function. -/
def calls (s : Contexts) (op : ContextOp) : Bool :=
  op.completion &&
    !(decide (op.type = .kRead ∨ op.type = .kWrite) && !op.eventer.any s.states)

/-- `HandleCqe` up to the call of the completion function, for a CQE of the operation that
was submitted as `request`. -/
def handleCqe (key : ℕ) (request : ContextOp) (more : Bool) (s : Contexts) : Contexts :=
  if key = 0 then s
  else
    match s.ops.find? (·.1 = key) with
    | none => s
    | some (_, op) =>
      let s := { s with ops := without key s.ops }
      if s.calls op then
        { s with running := some ⟨key, op, more, false⟩, ran := s.ran ++ [(request, op)] }
      else s.delete .handleCqe op.context

/-- The completion function comes to the point where it deletes its context. -/
def release (swapped : Bool) (c : Completing) (s : Contexts) : Contexts :=
  let op :=
    if c.ending swapped = some .deletesAndClears then { c.op with context := none } else c.op
  { s.delete .completionFunction c.op.context with
    running := some { c with op := op, released := true } }

/-- `HandleCqe` after the completion function has returned. -/
def afterCompletion (c : Completing) (s : Contexts) : Contexts :=
  if c.more = true ∧ c.op.context.isSome = true then { s.enter c.key c.op with running := none }
  else { s with running := none }

/-- The contexts of operations. -/
def contexts (ops : List (ℕ × ContextOp)) : List ℕ := ops.filterMap (·.2.context)

/-- `~Poller`. -/
def destroy (s : Contexts) : Contexts :=
  { s with
    ops := []
    destroyed := true
    deletions := s.deletions ++ (contexts s.ops).map fun c => (c, .destructor) }

/-- The contexts in the order they were deleted. -/
def deleted (s : Contexts) : List ℕ := s.deletions.map Prod.fst

inductive Label where
  | addEventer (e : ℕ)
  | removeEventer (e : ℕ)
  | submitReadOnce (e : ℕ) (sqe : Bool)
  | submitWriteOnce (e : ℕ) (sqe : Bool)
  | submitAcceptOnce (sqe : Bool)
  | submitPoll (e : ℕ) (sqe : Bool)
  | cancelOp (key : ℕ)
  | cqe (key : ℕ) (request : ContextOp) (more : Bool)
  | release (swapped : Bool)
  | finish
  | destroy
deriving DecidableEq, Repr

/-- Only an accept has several CQEs. A completion function returns after it has deleted its
context, or on a way on which it keeps it. -/
def perform (s : Contexts) : Label → Option Contexts
  | .addEventer e => some { s with states := Function.update s.states e true }
  | .removeEventer e => some { s with states := Function.update s.states e false }
  | .submitReadOnce e sqe => some (s.submitReadOnce sqe e)
  | .submitWriteOnce e sqe => some (s.submitWriteOnce sqe e)
  | .submitAcceptOnce sqe => some (s.submitAcceptOnce sqe)
  | .submitPoll e sqe => some (s.submitPoll sqe e)
  | .cancelOp key => some (s.cancelOp key)
  | .cqe key request more =>
    if (key, request) ∈ s.kernel ∧ s.running = none ∧ (more = true → request.type = .kAccept) then
      let kernel := if more then s.kernel else s.kernel.erase (key, request)
      some (handleCqe key request more { s with kernel := kernel })
    else none
  | .release swapped =>
    match s.running with
    | none => none
    | some c =>
      if c.released = false ∧ c.Deletes swapped then some (s.release swapped c) else none
  | .finish =>
    match s.running with
    | none => none
    | some c =>
      if c.released = true ∨ c.Keeps then some (s.afterCompletion c) else none
  | .destroy => if s.running = none then some s.destroy else none

/-- Nothing happens after `~Poller`. -/
def step (s : Contexts) (l : Label) : Option Contexts :=
  if s.destroyed then none else s.perform l

def start : Contexts := ⟨[], fun _ => false, 1, [], none, false, 0, 0, [], [], false⟩

def machine : Machine Contexts Label := ⟨fun s => s = start, step⟩

/-! ## Connection -/

/-- For the operation of a connection the completion function is called when the poller calls
it. -/
theorem calls_poller {s : Contexts} {p : Poller} {op : IoUringOp} {o : ContextOp} {key : ℕ}
    (hkey : key ≠ 0) (hop : p.ops key = some op) (hstates : p.states = s.states)
    (htype : op.target.isSome = true ↔ o.type = .kRead ∨ o.type = .kWrite)
    (heventer : o.eventer = op.eventer) (hcompletion : o.completion = op.completion) :
    s.calls o = true ↔ p.handleCqe key = .call op := by
  have hwatches : p.watches op = o.eventer.any s.states := by
    rw [Poller.watches, hstates, heventer]
  have htarget : decide (o.type = .kRead ∨ o.type = .kWrite) = op.target.isSome := by
    rw [Bool.eq_iff_iff, decide_eq_true_iff, htype]
  rw [calls, htarget, hcompletion, ← hwatches, Poller.handleCqe, if_neg hkey, hop]
  dsimp only
  by_cases hcall : op.completion = true
  · by_cases hclean : (op.target.isSome && !p.watches op) = true
    · simp [hcall, hclean]
    · simp [hcall, hclean]
  · simp [hcall]

/-! ## Where a context is -/

/-- The context that the running completion function has not deleted yet. -/
def held : Option Completing → List ℕ
  | some c => if c.released then [] else c.op.context.toList
  | none => []

/-- In how many places a context is. -/
def places (s : Contexts) (ctx : ℕ) : ℕ :=
  s.deleted.count ctx + (held s.running).count ctx + (contexts s.ops).count ctx

variable {s s' : Contexts} {key : ℕ} {op request : ContextOp} {more : Bool} {c : Completing}

theorem contexts_cons (p : ℕ × ContextOp) (ops : List (ℕ × ContextOp)) :
    contexts (p :: ops) = p.2.context.toList ++ contexts ops := by
  rw [contexts, List.filterMap_cons]
  cases p.2.context <;> rfl

theorem count_contexts {ops : List (ℕ × ContextOp)} (h : (ops.map Prod.fst).Nodup)
    (hmem : (key, op) ∈ ops) (ctx : ℕ) :
    (contexts ops).count ctx =
      op.context.toList.count ctx + (contexts (without key ops)).count ctx := by
  have hperm : (contexts ops).Perm (contexts ((key, op) :: without key ops)) :=
    (perm_without h hmem).filterMap _
  rw [hperm.count_eq, contexts_cons, List.count_append]

theorem deleted_delete (who : Deleter) (context : Option ℕ) :
    (s.delete who context).deleted = s.deleted ++ context.toList := by
  simp [deleted, delete, Function.comp_def]

theorem deleted_destroy : s.destroy.deleted = s.deleted ++ contexts s.ops := by
  simp [deleted, destroy, Function.comp_def]

theorem places_delete (who : Deleter) (context : Option ℕ) (ctx : ℕ) :
    (s.delete who context).places ctx = s.places ctx + context.toList.count ctx := by
  rw [places, deleted_delete, List.count_append]
  simp only [places, delete]
  omega

/-- A new operation is a new place for its context. -/
theorem places_enter (hfresh : ∀ p ∈ s.ops, p.1 ≠ key) (ctx : ℕ) :
    (s.enter key op).places ctx = s.places ctx + op.context.toList.count ctx := by
  simp only [places, deleted, enter, without_of_fresh hfresh, contexts_cons, List.count_append]
  omega

theorem places_cancelOp (key ctx : ℕ) : (s.cancelOp key).places ctx = s.places ctx := by
  have hsame : (fun p : ℕ × ContextOp => p.2.context) ∘
      (fun p => if p.1 = key then (p.1, p.2.cancelled) else p) = fun p => p.2.context := by
    funext p
    dsimp only [Function.comp]
    split <;> rfl
  unfold cancelOp
  split
  · rfl
  · simp only [places, deleted, contexts, List.filterMap_map, hsame]

/-- What a CQE does: nothing, or it takes an operation out of `ops_`, for its completion
function or to delete its context. -/
theorem handleCqe_cases (key : ℕ) (request : ContextOp) (more : Bool) (s : Contexts) :
    s.handleCqe key request more = s ∨
    ∃ op, (key, op) ∈ s.ops ∧
      (s.handleCqe key request more =
          { s with
            ops := without key s.ops
            running := some ⟨key, op, more, false⟩
            ran := s.ran ++ [(request, op)] } ∨
        s.handleCqe key request more =
          { s with ops := without key s.ops }.delete .handleCqe op.context) := by
  unfold handleCqe
  split
  · exact .inl rfl
  · split
    · exact .inl rfl
    · next k op hfind =>
      refine .inr ⟨op, mem_of_find hfind, ?_⟩
      dsimp only
      split
      · exact .inl rfl
      · exact .inr rfl

theorem places_handleCqe (hkeys : (s.ops.map Prod.fst).Nodup) (hidle : s.running = none) (ctx : ℕ) :
    (s.handleCqe key request more).places ctx = s.places ctx := by
  rcases handleCqe_cases key request more s with heq | ⟨op, hmem, heq | heq⟩
  · rw [heq]
  · rw [heq]
    simp only [places, deleted, held, hidle, count_contexts hkeys hmem]
    simp only [Bool.false_eq_true, if_false, List.count_nil]
    omega
  · rw [heq, places_delete]
    simp only [places, deleted, count_contexts hkeys hmem]
    omega

theorem places_release (hrun : s.running = some c) (hheld : c.released = false) (swapped : Bool)
    (ctx : ℕ) : (s.release swapped c).places ctx = s.places ctx := by
  have hdeleted : (s.release swapped c).deleted = s.deleted ++ c.op.context.toList :=
    deleted_delete .completionFunction c.op.context
  rw [places, hdeleted, List.count_append]
  simp only [places, release, delete, held, hrun, hheld]
  simp only [if_true, Bool.false_eq_true, if_false, List.count_nil]
  omega

theorem places_destroy (hidle : s.running = none) (ctx : ℕ) :
    s.destroy.places ctx = s.places ctx := by
  rw [places, deleted_destroy, List.count_append]
  simp only [places, destroy, held, hidle, contexts, List.filterMap_nil, List.count_nil]
  omega

/-! ## Keys -/

/-- The operation is the one that was submitted as `request`, perhaps cancelled since. -/
structure OfRequest (op request : ContextOp) : Prop where
  type : op.type = request.type
  context : op.context = request.context
  serial : op.serial = request.serial

/-- The operation of the running completion function. Only an accept has more CQEs to come,
and then it still has its context. -/
structure Out (ops kernel : List (ℕ × ContextOp)) (submissions : ℕ) (c : Completing) : Prop where
  absent : ∀ p ∈ ops, p.1 ≠ c.key
  key : c.key ≤ submissions
  last : c.released = true → c.more = false
  accept : c.more = true → c.op.type = .kAccept
  own : c.released = false → ∀ r ∈ kernel, r.1 = c.key → OfRequest c.op r.2

/-- Keys have been drawn in order, so every operation has its own. -/
structure Keyed (s : Contexts) : Prop where
  next : s.nextKey = (s.submissions + 1) % keyRange
  keys : (s.ops.map Prod.fst).Nodup
  used : ∀ p ∈ s.ops, p.1 ≤ s.submissions
  launched : ∀ r ∈ s.kernel, r.1 ≤ s.submissions
  own : ∀ p ∈ s.ops, ∀ r ∈ s.kernel, r.1 = p.1 → OfRequest p.2 r.2
  out : ∀ c ∈ s.running, Out s.ops s.kernel s.submissions c
  ran : ∀ p ∈ s.ran, OfRequest p.2 p.1
  kept : s.overwritten = false

theorem OfRequest.cancelled (h : OfRequest op request) : OfRequest op.cancelled request :=
  ⟨h.type, h.context, h.serial⟩

theorem keyed_start : start.Keyed := by
  refine ⟨by decide, List.nodup_nil, ?_, ?_, ?_, ?_, ?_, rfl⟩
  · exact List.forall_mem_nil _
  · exact List.forall_mem_nil _
  · exact List.forall_mem_nil _
  · intro c hc
    cases hc
  · exact List.forall_mem_nil _

section

variable (h : s.Keyed)

include h

/-- Before the counter comes round, the next key is the number of the submission. -/
theorem Keyed.drawn (hfew : s.submissions + 1 < keyRange) :
    s.drawn = s.submissions + 1 ∧ s.draw.nextKey = (s.submissions + 2) % keyRange := by
  have hnext : s.nextKey = s.submissions + 1 := by
    rw [h.next, Nat.mod_eq_of_lt hfew]
  rw [Contexts.drawn, draw, hnext, Polls.normalizeKey, if_neg (by omega)]
  exact ⟨rfl, rfl⟩

theorem Keyed.draw (hfew : s.submissions + 1 < keyRange) : s.draw.Keyed := by
  refine ⟨(h.drawn hfew).2, h.keys, ?_, ?_, h.own, ?_, h.ran, h.kept⟩
  · intro p hp
    exact (h.used p hp).trans (Nat.le_succ _)
  · intro r hr
    exact (h.launched r hr).trans (Nat.le_succ _)
  · intro c hc
    have hout := h.out c hc
    exact ⟨hout.absent, hout.key.trans (Nat.le_succ _), hout.last, hout.accept, hout.own⟩

/-- An operation enters `ops_` under a key that is free there. -/
theorem Keyed.enter (hrun : ∀ c ∈ s.running, c.key ≠ key) (hfresh : ∀ p ∈ s.ops, p.1 ≠ key)
    (hle : key ≤ s.submissions) (hown : ∀ r ∈ s.kernel, r.1 = key → OfRequest op r.2) :
    (s.enter key op).Keyed := by
  have hops : (s.enter key op).ops = (key, op) :: s.ops := by
    rw [Contexts.enter, without_of_fresh hfresh]
  constructor
  · exact h.next
  · rw [hops, List.map_cons, List.nodup_cons]
    refine ⟨?_, h.keys⟩
    intro hmem
    rcases List.mem_map.mp hmem with ⟨p, hp, heq⟩
    exact hfresh p hp heq
  · rw [hops]
    exact List.forall_mem_cons.mpr ⟨hle, h.used⟩
  · exact h.launched
  · rw [hops]
    exact List.forall_mem_cons.mpr ⟨hown, h.own⟩
  · intro c hc
    have hout := h.out c hc
    refine ⟨?_, hout.key, hout.last, hout.accept, hout.own⟩
    rw [hops]
    exact List.forall_mem_cons.mpr ⟨(hrun c hc).symm, hout.absent⟩
  · exact h.ran
  · have hnone : s.ops.any (·.1 = key) = false :=
      List.any_eq_false.mpr fun p hp => by simpa using hfresh p hp
    rw [Contexts.enter, h.kept, hnone]
    rfl

theorem Keyed.launch {r : ℕ × ContextOp} (hle : r.1 ≤ s.submissions)
    (hown : ∀ p ∈ s.ops, r.1 = p.1 → OfRequest p.2 r.2) (hrun : ∀ c ∈ s.running, r.1 ≠ c.key) :
    Keyed { s with kernel := r :: s.kernel } := by
  refine ⟨h.next, h.keys, h.used, ?_, ?_, ?_, h.ran, h.kept⟩
  · exact List.forall_mem_cons.mpr ⟨hle, h.launched⟩
  · intro p hp
    exact List.forall_mem_cons.mpr ⟨hown p hp, h.own p hp⟩
  · intro c hc
    have hout := h.out c hc
    refine ⟨hout.absent, hout.key, hout.last, hout.accept, ?_⟩
    intro hheld
    exact List.forall_mem_cons.mpr ⟨fun heq => absurd heq (hrun c hc), hout.own hheld⟩

theorem Keyed.submit (hfew : s.submissions + 1 < keyRange) (sqe : Bool) (type : OpType)
    (eventer context : Option ℕ) : (s.submit sqe type eventer context).2.Keyed := by
  have hdraw := h.draw hfew
  cases sqe with
  | false => exact hdraw
  | true =>
    have hkey := (h.drawn hfew).1
    have hrun : ∀ c ∈ s.running, s.drawn ≠ c.key := by
      intro c hc
      have hle := (h.out c hc).key
      omega
    have hfresh : ∀ p ∈ s.ops, p.1 ≠ s.drawn := by
      intro p hp
      have hle := h.used p hp
      omega
    have hkernel : ∀ r ∈ s.kernel, r.1 ≠ s.drawn := by
      intro r hr
      have hle := h.launched r hr
      omega
    let op : ContextOp := ⟨type, eventer, context, type ≠ .kPoll, s.submissions⟩
    have henter : (s.draw.enter s.drawn op).Keyed := hdraw.enter
      (fun c hc => (hrun c hc).symm) hfresh hkey.le (fun r hr heq => absurd heq (hkernel r hr))
    refine henter.launch (r := (s.drawn, op)) hkey.le ?_ hrun
    intro p hp heq
    rcases List.mem_cons.mp hp with rfl | hold
    · exact ⟨rfl, rfl, rfl⟩
    · exact absurd heq.symm (mem_without.mp hold).2

theorem Keyed.cancelOp (key : ℕ) : (s.cancelOp key).Keyed := by
  unfold Contexts.cancelOp
  split
  · exact h
  · have hops : ∀ {P : ℕ × ContextOp → Prop}, (∀ p ∈ s.ops, P p) →
        (∀ p, P p → P (p.1, p.2.cancelled)) →
        ∀ p ∈ s.ops.map (fun p => if p.1 = key then (p.1, p.2.cancelled) else p), P p := by
      intro P hall hcancel p hp
      rcases List.mem_map.mp hp with ⟨q, hq, rfl⟩
      split
      · exact hcancel q (hall q hq)
      · exact hall q hq
    refine ⟨h.next, ?_, hops h.used fun p hp => hp, h.launched, ?_, ?_, h.ran, h.kept⟩
    · have hfst : (Prod.fst ∘ fun p : ℕ × ContextOp =>
          if p.1 = key then (p.1, p.2.cancelled) else p) = Prod.fst := by
        funext p
        dsimp only [Function.comp]
        split <;> rfl
      rw [List.map_map, hfst]
      exact h.keys
    · exact hops h.own fun p hp r hr heq => (hp r hr heq).cancelled
    · intro c hc
      have hout := h.out c hc
      exact ⟨hops hout.absent fun p hp => hp, hout.key, hout.last, hout.accept, hout.own⟩

/-- A CQE may be the last of its operation, so the kernel may forget it. -/
theorem Keyed.handleCqe {kernel : List (ℕ × ContextOp)} (hmem : (key, request) ∈ s.kernel)
    (hidle : s.running = none) (hmore : more = true → request.type = .kAccept)
    (hsub : kernel ⊆ s.kernel) : ({ s with kernel := kernel }.handleCqe key request more).Keyed := by
  have hkernel : Keyed { s with kernel := kernel } := by
    refine ⟨h.next, h.keys, h.used, ?_, ?_, ?_, h.ran, h.kept⟩
    · intro r hr
      exact h.launched r (hsub hr)
    · intro p hp r hr
      exact h.own p hp r (hsub hr)
    · rw [hidle]
      intro c hc
      cases hc
  have herase : ∀ {P : ℕ × ContextOp → Prop}, (∀ p ∈ s.ops, P p) → ∀ p ∈ without key s.ops, P p :=
    fun hall p hp => hall p (mem_without.mp hp).1
  rcases handleCqe_cases key request more { s with kernel := kernel } with
    heq | ⟨op, hop, heq | heq⟩
  · rw [heq]
    exact hkernel
  · have hof : OfRequest op request := h.own _ hop _ hmem rfl
    rw [heq]
    refine ⟨h.next, nodup_without h.keys, herase h.used, hkernel.launched, herase hkernel.own,
      ?_, ?_, h.kept⟩
    · rintro c ⟨⟩
      refine ⟨?_, h.used _ hop, ?_, ?_, ?_⟩
      · intro p hp
        exact (mem_without.mp hp).2
      · intro hreleased
        cases hreleased
      · intro hm
        exact hof.type.trans (hmore hm)
      · intro _
        exact hkernel.own _ hop
    · intro p hp
      rcases List.mem_append.mp hp with hold | hnew
      · exact h.ran p hold
      · cases List.mem_singleton.mp hnew
        exact hof
  · rw [heq]
    refine ⟨h.next, nodup_without h.keys, herase h.used, hkernel.launched, herase hkernel.own,
      ?_, h.ran, h.kept⟩
    intro c hc
    cases hidle.symm.trans hc

theorem Keyed.release {swapped : Bool} (hrun : s.running = some c) (hdeletes : c.Deletes swapped) :
    (s.release swapped c).Keyed := by
  refine ⟨h.next, h.keys, h.used, h.launched, h.own, ?_, h.ran, h.kept⟩
  have hout := h.out c hrun
  have hmore : c.more = false := by
    by_contra hne
    have htrue : c.more = true := by simpa using hne
    cases (hout.accept htrue).symm.trans (hdeletes.last htrue)
  rintro c' ⟨⟩
  refine ⟨hout.absent, hout.key, fun _ => hmore, ?_, ?_⟩
  · intro htrue
    cases hmore.symm.trans htrue
  · intro hheld
    cases hheld

theorem Keyed.afterCompletion (hrun : s.running = some c) : (s.afterCompletion c).Keyed := by
  have hout := h.out c hrun
  have hidle : Keyed { s with running := none } := by
    refine ⟨h.next, h.keys, h.used, h.launched, h.own, ?_, h.ran, h.kept⟩
    intro c' hc'
    cases hc'
  unfold Contexts.afterCompletion
  split
  · next hmore =>
    -- more is to come, so the function has not deleted the context
    have hheld : c.released = false := by
      by_contra hne
      cases hmore.1.symm.trans (hout.last (by simpa using hne))
    apply hidle.enter
    · intro c' hc'
      cases hc'
    · exact hout.absent
    · exact hout.key
    · exact hout.own hheld
  · exact hidle

theorem places_afterCompletion (hrun : s.running = some c)
    (hend : c.released = true ∨ c.Keeps) (ctx : ℕ) :
    (s.afterCompletion c).places ctx = s.places ctx := by
  have hout := h.out c hrun
  have hidle : ({ s with running := none } : Contexts).places ctx + (held (some c)).count ctx =
      s.places ctx := by
    simp only [places, deleted, hrun, held, List.count_nil]
    omega
  unfold Contexts.afterCompletion
  split
  · next hmore =>
    have hheld : c.released = false := by
      by_contra hne
      cases hmore.1.symm.trans (hout.last (by simpa using hne))
    rw [← hidle, held, hheld]
    exact places_enter (s := { s with running := none }) hout.absent ctx
  · next hmore =>
    rw [← hidle]
    rcases hend with hreleased | hkeeps
    · rw [held, hreleased]
      rfl
    · have hnone : c.op.context = none := by
        by_contra hne
        exact hmore ⟨hkeeps.more, Option.isSome_iff_ne_none.mpr hne⟩
      rw [held, hnone]
      split <;> rfl

end

/-! ## Safety -/

/-- Every context that was allocated is in one place. -/
def Conserved (s : Contexts) : Prop := ∀ ctx, s.places ctx = if ctx < s.allocated then 1 else 0

structure Inv (s : Contexts) : Prop where
  keyed : s.Keyed
  conserved : s.Conserved
  ended : s.destroyed = true → s.ops = [] ∧ s.running = none

theorem submit_places (h : s.Keyed) (hfew : s.submissions + 1 < keyRange) (type : OpType)
    (eventer context : Option ℕ) (ctx : ℕ) :
    (s.submit true type eventer context).2.places ctx =
      s.places ctx + context.toList.count ctx := by
  have hfresh : ∀ p ∈ s.draw.ops, p.1 ≠ s.drawn := by
    intro p hp
    have hle := h.used p hp
    have hkey := (h.drawn hfew).1
    omega
  exact places_enter (s := s.draw) hfresh ctx

theorem Keyed.allocate (h : s.Keyed) : s.allocate.Keyed :=
  ⟨h.next, h.keys, h.used, h.launched, h.own, h.out, h.ran, h.kept⟩

/-- A context that could not be submitted is deleted at once, so it has its place as well. -/
theorem submitOnce_places (h : s.Keyed) (hfew : s.submissions + 1 < keyRange) (sqe : Bool)
    (type : OpType) (eventer : Option ℕ) (ctx : ℕ) :
    (s.submitOnce sqe type eventer).places ctx = s.places ctx + [s.allocated].count ctx := by
  cases sqe with
  | false => exact places_delete (s := s.allocate.draw) .submitter (some s.allocated) ctx
  | true =>
    have hkey : (s.allocate.submit true type eventer (some s.allocated)).1 ≠ 0 := by
      have hdrawn := (h.allocate.drawn hfew).1
      exact hdrawn.trans_ne (Nat.succ_ne_zero _)
    unfold submitOnce
    dsimp only
    rw [if_neg hkey]
    exact submit_places h.allocate hfew type eventer (some s.allocated) ctx

theorem Keyed.submitOnce (h : s.Keyed) (hfew : s.submissions + 1 < keyRange) (sqe : Bool)
    (type : OpType) (eventer : Option ℕ) : (s.submitOnce sqe type eventer).Keyed := by
  have h' := h.allocate.submit hfew sqe type eventer (some s.allocated)
  unfold Contexts.submitOnce
  dsimp only
  split
  · exact ⟨h'.next, h'.keys, h'.used, h'.launched, h'.own, h'.out, h'.ran, h'.kept⟩
  · exact h'

theorem submit_frame (sqe : Bool) (type : OpType) (eventer context : Option ℕ) (s : Contexts) :
    (s.submit sqe type eventer context).2.submissions = s.submissions + 1 ∧
      (s.submit sqe type eventer context).2.destroyed = s.destroyed ∧
      (s.submit sqe type eventer context).2.allocated = s.allocated := by
  cases sqe <;> exact ⟨rfl, rfl, rfl⟩

theorem submitOnce_frame (sqe : Bool) (type : OpType) (eventer : Option ℕ) (s : Contexts) :
    (s.submitOnce sqe type eventer).submissions = s.submissions + 1 ∧
      (s.submitOnce sqe type eventer).destroyed = s.destroyed ∧
      (s.submitOnce sqe type eventer).allocated = s.allocated + 1 := by
  unfold submitOnce
  dsimp only
  split <;> exact submit_frame sqe type eventer (some s.allocated) s.allocate

theorem handleCqe_frame (key : ℕ) (request : ContextOp) (more : Bool) (s : Contexts) :
    (s.handleCqe key request more).submissions = s.submissions ∧
      (s.handleCqe key request more).destroyed = s.destroyed ∧
      (s.handleCqe key request more).allocated = s.allocated := by
  rcases handleCqe_cases key request more s with heq | ⟨op, -, heq | heq⟩
  · rw [heq]
    exact ⟨rfl, rfl, rfl⟩
  · rw [heq]
    exact ⟨rfl, rfl, rfl⟩
  · rw [heq]
    exact ⟨rfl, rfl, rfl⟩

/-- What a step preserves while the keys last: an operation is submitted once at most, and
only `~Poller` ends the run. -/
structure Kept (s s' : Contexts) : Prop where
  submissions : s.submissions ≤ s'.submissions
  inv : s'.submissions < keyRange → s.Inv → s'.Keyed ∧ s'.Conserved
  ended : s'.destroyed = s.destroyed ∨ s'.ops = [] ∧ s'.running = none

theorem Kept.of_places (hsub : s'.submissions = s.submissions) (hdestroyed : s'.destroyed = s.destroyed)
    (halloc : s'.allocated = s.allocated) (hkeyed : s.Keyed → s'.Keyed)
    (hplaces : s.Keyed → ∀ ctx, s'.places ctx = s.places ctx) : s.Kept s' := by
  refine ⟨hsub.ge, ?_, .inl hdestroyed⟩
  intro _ hinv
  refine ⟨hkeyed hinv.keyed, ?_⟩
  intro ctx
  rw [hplaces hinv.keyed, hinv.conserved, halloc]

theorem Kept.submitOnce (sqe : Bool) (type : OpType) (eventer : Option ℕ) (s : Contexts) :
    s.Kept (s.submitOnce sqe type eventer) := by
  rcases submitOnce_frame sqe type eventer s with ⟨hsub, hdestroyed, halloc⟩
  refine ⟨by omega, ?_, .inl hdestroyed⟩
  intro hfew hinv
  rw [hsub] at hfew
  refine ⟨hinv.keyed.submitOnce hfew sqe type eventer, ?_⟩
  intro ctx
  rw [submitOnce_places hinv.keyed hfew, hinv.conserved, halloc, List.count_singleton]
  rcases lt_trichotomy ctx s.allocated with hlt | heq | hgt
  · rw [if_pos hlt, if_neg (by simp; omega), if_pos (by omega)]
  · rw [if_neg (by omega), if_pos (by simp [heq]), if_pos (by omega)]
  · rw [if_neg (by omega), if_neg (by simp; omega), if_neg (by omega)]

theorem Kept.submitPoll (sqe : Bool) (e : ℕ) (s : Contexts) : s.Kept (s.submitPoll sqe e) := by
  rcases submit_frame sqe .kPoll (some e) none s with ⟨hsub, hdestroyed, halloc⟩
  refine ⟨by rw [Contexts.submitPoll, hsub]; exact Nat.le_succ _, ?_, .inl hdestroyed⟩
  intro hfew hinv
  rw [Contexts.submitPoll, hsub] at hfew
  refine ⟨hinv.keyed.submit hfew sqe .kPoll (some e) none, ?_⟩
  intro ctx
  rw [Contexts.submitPoll, halloc, ← hinv.conserved]
  cases sqe with
  | false => rfl
  | true => exact submit_places hinv.keyed hfew .kPoll (some e) none ctx

theorem Kept.perform {l : Label} (hs : s.perform l = some s') : s.Kept s' := by
  cases l with
  | addEventer e | removeEventer e =>
    cases hs
    refine .of_places rfl rfl rfl ?_ fun _ _ => rfl
    exact fun h => ⟨h.next, h.keys, h.used, h.launched, h.own, h.out, h.ran, h.kept⟩
  | submitReadOnce e sqe =>
    cases hs
    exact .submitOnce sqe .kRead (some e) s
  | submitWriteOnce e sqe =>
    cases hs
    exact .submitOnce sqe .kWrite (some e) s
  | submitAcceptOnce sqe =>
    cases hs
    exact .submitOnce sqe .kAccept none s
  | submitPoll e sqe =>
    cases hs
    exact .submitPoll sqe e s
  | cancelOp key =>
    cases hs
    have hframe : (s.cancelOp key).submissions = s.submissions ∧
        (s.cancelOp key).destroyed = s.destroyed ∧ (s.cancelOp key).allocated = s.allocated := by
      unfold Contexts.cancelOp
      split <;> exact ⟨rfl, rfl, rfl⟩
    exact .of_places hframe.1 hframe.2.1 hframe.2.2 (fun h => h.cancelOp key)
      fun _ => places_cancelOp key
  | cqe key request more =>
    simp only [Contexts.perform, Option.ite_none_right_eq_some, Option.some.injEq] at hs
    rcases hs with ⟨⟨hmem, hidle, hmore⟩, rfl⟩
    have hsub : (if more = true then s.kernel else s.kernel.erase (key, request)) ⊆ s.kernel := by
      split
      · exact List.Subset.refl _
      · exact List.erase_subset
    generalize (if more = true then s.kernel else s.kernel.erase (key, request)) = kernel at hsub ⊢
    rcases handleCqe_frame key request more { s with kernel := kernel } with ⟨h₁, h₂, h₃⟩
    exact .of_places h₁ h₂ h₃ (fun h => h.handleCqe hmem hidle hmore hsub)
      fun h => places_handleCqe h.keys hidle
  | release swapped =>
    simp only [Contexts.perform] at hs
    split at hs
    · cases hs
    · next c hrun =>
      simp only [Option.ite_none_right_eq_some, Option.some.injEq] at hs
      rcases hs with ⟨⟨hheld, hdeletes⟩, rfl⟩
      exact .of_places rfl rfl rfl (fun h => h.release hrun hdeletes)
        fun _ => places_release hrun hheld swapped
  | finish =>
    simp only [Contexts.perform] at hs
    split at hs
    · cases hs
    · next c hrun =>
      simp only [Option.ite_none_right_eq_some, Option.some.injEq] at hs
      rcases hs with ⟨hend, rfl⟩
      have hframe : (s.afterCompletion c).submissions = s.submissions ∧
          (s.afterCompletion c).destroyed = s.destroyed ∧
          (s.afterCompletion c).allocated = s.allocated := by
        unfold Contexts.afterCompletion
        split <;> exact ⟨rfl, rfl, rfl⟩
      exact .of_places hframe.1 hframe.2.1 hframe.2.2 (fun h => h.afterCompletion hrun)
        fun h => places_afterCompletion h hrun hend
  | destroy =>
    simp only [Contexts.perform, Option.ite_none_right_eq_some, Option.some.injEq] at hs
    rcases hs with ⟨hidle, rfl⟩
    refine ⟨le_rfl, ?_, .inr ⟨rfl, hidle⟩⟩
    intro _ hinv
    constructor
    · refine ⟨hinv.keyed.next, List.nodup_nil, List.forall_mem_nil _, hinv.keyed.launched,
        List.forall_mem_nil _, ?_, hinv.keyed.ran, hinv.keyed.kept⟩
      intro c hc
      cases hidle.symm.trans hc
    · intro ctx
      rw [places_destroy hidle, hinv.conserved]
      rfl

theorem inv_start : start.Inv := by
  refine ⟨keyed_start, ?_, ?_⟩
  · intro ctx
    rfl
  · intro hended
    cases hended

/-- What one step preserves while the keys last. -/
theorem Inv.step {l : Label} (hs : s.step l = some s') :
    s.submissions ≤ s'.submissions ∧ (s'.submissions < keyRange → s.Inv → s'.Inv) := by
  simp only [Contexts.step, Option.ite_none_left_eq_some] at hs
  rcases hs with ⟨hgoing, hs⟩
  have hkept := Kept.perform hs
  refine ⟨hkept.submissions, ?_⟩
  intro hfew hinv
  rcases hkept.inv hfew hinv with ⟨hkeyed, hconserved⟩
  refine ⟨hkeyed, hconserved, ?_⟩
  intro hended
  rcases hkept.ended with hsame | hempty
  · exact absurd (hsame.symm.trans hended) hgoing
  · exact hempty

theorem inv (h : machine.Reachable (fun _ _ => True) s) (hfew : s.submissions < keyRange) : s.Inv := by
  revert hfew
  apply h.invariant
  · rintro _ rfl _
    exact inv_start
  · intro s l s' _ hinv _ hs hfew
    have hstep := Inv.step hs
    exact hstep.2 hfew (hinv (hstep.1.trans_lt hfew))

/-- **Every context is deleted once.** In every run with fewer than `2 ^ 64` submissions no
operation in `ops_` is overwritten, a completion function has the context that its
submission registered, no context is deleted twice, and after `~Poller` all have been. -/
theorem contexts_released_once (h : machine.Reachable (fun _ _ => True) s)
    (hfew : s.submissions < keyRange) :
    s.overwritten = false ∧ (∀ p ∈ s.ran, OfRequest p.2 p.1) ∧
      (∀ ctx, s.deleted.count ctx ≤ if ctx < s.allocated then 1 else 0) ∧
      (s.destroyed = true → ∀ ctx < s.allocated, s.deleted.count ctx = 1) := by
  have hinv := inv h hfew
  refine ⟨hinv.keyed.kept, hinv.keyed.ran, ?_, ?_⟩
  · intro ctx
    have hone := hinv.conserved ctx
    unfold places at hone
    omega
  · intro hended ctx hlt
    rcases hinv.ended hended with ⟨hops, hrun⟩
    have hone := hinv.conserved ctx
    rw [places, hops, hrun, if_pos hlt] at hone
    exact hone

/-- A read is cancelled, a write completes after its buffers were swapped, an accept is called
twice, and a read finds no entry: each of their contexts has another deleter. -/
theorem contexts_released_in_four_ways :
    ∃ s : Contexts, machine.Reachable (fun _ _ => True) s ∧ s.allocated = 4 ∧ s.ran.length = 3 ∧
      s.destroyed = true ∧
      s.deletions = [(0, .handleCqe), (3, .submitter), (1, .completionFunction),
        (2, .destructor)] ∧
      ∀ ctx < 4, s.deleted.count ctx = 1 := by
  rcases machine.exists_of_run (fun _ _ => True) (s := start) rfl
    [.addEventer 0, .submitReadOnce 0 true, .submitWriteOnce 0 true, .submitAcceptOnce true,
      .cancelOp 1, .cqe 1 ⟨.kRead, some 0, some 0, true, 0⟩ false,
      .cqe 2 ⟨.kWrite, some 0, some 1, true, 1⟩ false, .submitReadOnce 0 false, .release true,
      .finish, .cqe 3 ⟨.kAccept, none, some 2, true, 2⟩ true, .finish,
      .cqe 3 ⟨.kAccept, none, some 2, true, 2⟩ true, .finish, .destroy]
    (fun s => s.allocated = 4 ∧ s.ran.length = 3 ∧ s.destroyed = true ∧
      s.deletions = [(0, .handleCqe), (3, .submitter), (1, .completionFunction),
        (2, .destructor)] ∧ s.submissions < keyRange)
    (by decide +kernel) with ⟨s, hs, halloc, hran, hended, hdeletions, hfew⟩
  refine ⟨s, hs, halloc, hran, hended, hdeletions, ?_⟩
  rw [← halloc]
  exact (contexts_released_once hs hfew).2.2.2 hended

end Contexts

end Taotu
