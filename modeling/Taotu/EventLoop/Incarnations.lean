import Mathlib.Data.List.Nodup
import Taotu.EventLoop.Polling

/-!
# Taotu.EventLoop.Incarnations — whose event it is (`eventer.cc`, `poller.cc`)

An `Eventer` registers with the poller when it is constructed and unregisters when it is
removed or destroyed. A poll in the kernel knows its eventer by address and outlives
both, so its CQE may find another eventer at that address, or the same one registered
again.

1. **Model layer.** The eventers at their addresses with their `out_events_`, over the
   polls of `Taotu.EventLoop.Polling`. `kernel` are the operations in the kernel, whose
   CQEs come in any order.
2. **Safety.** `Settled` asks that an eventer is registered at an address only when no poll
   of that address is in the kernel, that nothing leaves `out_events_` at the value that
   stands for a removed eventer, and that keys do not come round while in use. In settled
   runs a CQE touches only the eventer that asked (`events_reach_only_their_eventer`).

**Ghosts.** `incarnation` numbers the eventers as they are constructed. A poll in the
kernel carries the incarnation it was submitted for, and whether its removal has been
requested since.
-/

namespace Taotu

open Lib

namespace Polls

/-- The address of the eventer of a poll; an operation of another kind has none. -/
def addressAt (p : Polls) (key : ℕ) : Option (Option ℕ) :=
  (p.ops key).map fun
    | .poll e _ => some e
    | .other => none

/-- The key of the poll that a call between `p` and `p'` has handed to the kernel. -/
def submitted (sqe : Bool) (p p' : Polls) : Option ℕ :=
  if sqe = true ∧ p'.nextKey ≠ p.nextKey then some p.drawn else none

/-- The eventer that a CQE with the key is about. -/
def target (p : Polls) (key : ℕ) : Option ℕ :=
  match p.ops key with
  | some (.poll e _) => some e
  | some .other | none => none

end Polls

/-- What an `Eventer` keeps: which one it is, and its `out_events_`. -/
structure Eventer where
  incarnation : ℕ
  outEvents : UInt32
deriving DecidableEq, Repr

namespace Eventer

def kNoEvent : UInt32 := 0x0000
/-- `POLLIN | POLLPRI`. -/
def kReadEvents : UInt32 := 0x0003
/-- `POLLOUT`. -/
def kWriteEvents : UInt32 := 0x0004
def kRemoved : UInt32 := 4294967290

/-- The calls that change `out_events_` and tell the poller. -/
inductive Update where
  | enableReadEvents
  | disableReadEvents
  | enableWriteEvents
  | disableWriteEvents
  | disableAllEvents
deriving DecidableEq, Repr

def Update.apply : Update → UInt32 → UInt32
  | enableReadEvents, out => out ||| kReadEvents
  | disableReadEvents, out => out &&& ~~~kReadEvents
  | enableWriteEvents, out => out ||| kWriteEvents
  | disableWriteEvents, out => out &&& ~~~kWriteEvents
  | disableAllEvents, _ => kNoEvent

end Eventer

/-- An operation in the kernel. -/
inductive Flight where
  | poll (address : ℕ) (owner : Option ℕ) (removed : Bool)
  | other
deriving DecidableEq, Repr

namespace Flight

def address : Flight → Option ℕ
  | poll e _ _ => some e
  | other => none

/-- The removal of the eventer at `e` is requested. -/
def remove (e : ℕ) : Flight → Flight
  | poll a owner removed => poll a owner (removed || a == e)
  | other => other

end Flight

structure Eventers where
  polls : Polls
  eventers : ℕ → Option Eventer
  created : ℕ
  kernel : List (ℕ × Flight)

namespace Eventers

/-! ## Model layer -/

/-- The poll that a call has submitted for the eventer at `e`. -/
def launched (s : Eventers) (e : ℕ) (sqe : Bool) (polls : Polls) : List (ℕ × Flight) :=
  match s.polls.submitted sqe polls with
  | some key => [(key, .poll e ((s.eventers e).map Eventer.incarnation) false)]
  | none => []

/-- The poller has been called for the eventer at `e`. -/
def called (s : Eventers) (e : ℕ) (sqe : Bool) (polls : Polls) : Eventers :=
  { s with polls := polls, kernel := s.kernel ++ s.launched e sqe polls }

/-- The constructor: a new eventer has no events and registers. -/
def create (s : Eventers) (e : ℕ) (sqe : Bool) : Eventers :=
  let s := { s with
    eventers := Function.update s.eventers e (some ⟨s.created, Eventer.kNoEvent⟩)
    created := s.created + 1 }
  s.called e sqe (s.polls.addEventer e Eventer.kNoEvent sqe)

def update (s : Eventers) (e : ℕ) (x : Eventer) (u : Eventer.Update) (sqe : Bool) : Eventers :=
  let out := u.apply x.outEvents
  let s := { s with eventers := Function.update s.eventers e (some { x with outEvents := out }) }
  s.called e sqe (s.polls.modifyEventer e out sqe)

def removeMyself (s : Eventers) (e : ℕ) (x : Eventer) (sqe : Bool) : Eventers :=
  if x.outEvents = Eventer.kRemoved then s
  else
    { s with
      polls := s.polls.removeEventer e sqe
      eventers := Function.update s.eventers e (some { x with outEvents := Eventer.kRemoved })
      kernel := s.kernel.map fun f => (f.1, f.2.remove e) }

/-- The destructor. -/
def destroy (s : Eventers) (e : ℕ) (x : Eventer) (sqe : Bool) : Eventers :=
  let s := s.removeMyself e x sqe
  { s with eventers := Function.update s.eventers e none }

/-- `HandleCqe` for an operation in the kernel. A poll completes once. -/
def complete (s : Eventers) (key : ℕ) (f : Flight) (res : ℤ) (more sqe : Bool) : Eventers :=
  let polls := s.polls.handleCqe key res more sqe
  let left := if f = .other ∧ more = true then s.kernel else s.kernel.erase (key, f)
  { s with
    polls := polls
    kernel :=
      match s.polls.target key with
      | some e => left ++ s.launched e sqe polls
      | none => left }

inductive Label where
  | create (e : ℕ) (sqe : Bool)
  | update (e : ℕ) (u : Eventer.Update) (sqe : Bool)
  | removeMyself (e : ℕ) (sqe : Bool)
  | destroy (e : ℕ) (sqe : Bool)
  | submitOther (sqe : Bool)
  | cqe (key : ℕ) (f : Flight) (res : ℤ) (more sqe : Bool)
deriving DecidableEq, Repr

def step (s : Eventers) : Label → Option Eventers
  | .create e sqe => if s.eventers e = none then some (s.create e sqe) else none
  | .update e u sqe => (s.eventers e).map fun x => s.update e x u sqe
  | .removeMyself e sqe => (s.eventers e).map fun x => s.removeMyself e x sqe
  | .destroy e sqe => (s.eventers e).map fun x => s.destroy e x sqe
  | .submitOther sqe =>
    some { s with
      polls := s.polls.submitOther sqe
      kernel := if sqe then s.kernel ++ [(s.polls.drawn, .other)] else s.kernel }
  | .cqe key f res more sqe =>
    if (key, f) ∈ s.kernel then some (s.complete key f res more sqe) else none

def start : Eventers := ⟨.new, fun _ => none, 0, []⟩

def machine : Machine Eventers Label := ⟨fun s => s = start, step⟩

/-- No poll of the address is in the kernel. -/
def Quiet (s : Eventers) (e : ℕ) : Prop := ∀ f ∈ s.kernel, f.2.address ≠ some e

def Settled (s : Eventers) : Label → Prop
  | .create e _ => s.Quiet e
  | .update e u _ =>
    s.polls.Fresh ∧ (s.polls.states e = none → s.Quiet e) ∧
      ∀ x ∈ s.eventers e, u.apply x.outEvents ≠ Eventer.kRemoved
  | .removeMyself _ _ | .destroy _ _ => True
  | .submitOther _ => s.polls.Fresh
  | .cqe _ _ _ _ _ => s.polls.Fresh

instance (s : Eventers) (e : ℕ) : Decidable (s.Quiet e) :=
  inferInstanceAs (Decidable (∀ f ∈ s.kernel, _))

instance (p : Polls) : Decidable p.Fresh := inferInstanceAs (Decidable (_ = _))

instance (s : Eventers) : ∀ l, Decidable (s.Settled l)
  | .create _ _ => inferInstanceAs (Decidable (s.Quiet _))
  | .update _ _ _ => inferInstanceAs (Decidable (_ ∧ (_ → _) ∧ ∀ x ∈ s.eventers _, _))
  | .removeMyself _ _ | .destroy _ _ => inferInstanceAs (Decidable True)
  | .submitOther _ | .cqe _ _ _ _ _ => inferInstanceAs (Decidable (Polls.Fresh _))

end Eventers

/-! ## What the calls do to the polls -/

namespace Polls

variable {p p' : Polls} {e key : ℕ} {sqe : Bool}

/-- `SubmitPoll` has nothing to ask for, gets no submission queue entry, or arms a poll. -/
inductive Submits (sqe : Bool) (e : ℕ) (p : Polls) : Polls → Prop
  | skipped : Submits sqe e p p
  | failed (hsqe : sqe = false) : Submits sqe e p p.draw
  | armed (st : EventerState) (state : p.states e = some st) (hsqe : sqe = true) :
      Submits sqe e p (p.draw.arm e st p.drawn)

theorem submitPoll_submits (sqe : Bool) (e : ℕ) (p : Polls) :
    Submits sqe e p (p.submitPoll sqe e) := by
  unfold submitPoll
  split
  · exact .skipped
  next st hst =>
  split
  · exact .skipped
  split
  · next hsqe => exact .armed st hst hsqe
  · next hsqe => exact .failed (by simpa using hsqe)

/-- `CancelPoll` has nothing to cancel, or marks the poll as removed. -/
inductive Cancels (e : ℕ) (p : Polls) : Polls → Prop
  | skipped : Cancels e p p
  | removed (st : EventerState) (state : p.states e = some st) :
      Cancels e p { p with
        ops := Function.update p.ops st.pollKey ((p.ops st.pollKey).map PollOp.remove)
        states := Function.update p.states e (some { st with armed := false, pollKey := 0 }) }

theorem cancelPoll_cancels (sqe : Bool) (e : ℕ) (p : Polls) : Cancels e p (p.cancelPoll sqe e) := by
  unfold cancelPoll
  split
  · exact .skipped
  next st hst =>
  split
  · exact .removed st hst
  · exact .skipped

/-- A call for the eventer at `e` has armed a poll for it, or it has armed nothing. -/
inductive Arms (e : ℕ) (sqe : Bool) (p p' : Polls) : Prop
  | kept (ops : p'.addressAt = p.addressAt) (none : submitted sqe p p' = none)
  | armed (ops : p'.addressAt = Function.update p.addressAt p.drawn (some (some e)))
      (key : submitted sqe p p' = some p.drawn)

theorem addressAt_update (p : Polls) (key : ℕ) (o : Option PollOp)
    (h : p'.ops = Function.update p.ops key o) :
    p'.addressAt = Function.update p.addressAt key (o.map fun
      | .poll e _ => some e
      | .other => none) := by
  funext key'
  rw [addressAt, h]
  by_cases hk : key' = key
  · rw [hk, Function.update_self, Function.update_self]
  · rw [Function.update_of_ne hk, Function.update_of_ne hk, addressAt]

theorem nextKey_draw (p : Polls) : p.draw.nextKey ≠ p.nextKey := by
  unfold draw normalizeKey keyRange
  dsimp only
  split <;> omega

theorem submitted_self (h : p'.nextKey = p.nextKey) : submitted sqe p p' = none :=
  if_neg fun hs => hs.2 h

/-- Only the operations and the counter matter for what is armed. -/
theorem Arms.congr {q : Polls} (h : Arms e sqe q p') (hops : q.ops = p.ops)
    (hkey : q.nextKey = p.nextKey) : Arms e sqe p p' := by
  have haddress : q.addressAt = p.addressAt := by
    funext key
    rw [addressAt, hops, addressAt]
  have hdrawn : q.drawn = p.drawn := by
    rw [drawn, hkey, drawn]
  have hsub : submitted sqe q p' = submitted sqe p p' := by
    rw [submitted, hkey, hdrawn, submitted]
  cases h with
  | kept ops none => exact .kept (ops.trans haddress) (hsub.symm.trans none)
  | armed ops key =>
    rw [haddress, hdrawn] at ops
    exact .armed ops (hsub.symm.trans (key.trans (congrArg some hdrawn)))

theorem submitPoll_arms (sqe : Bool) (e : ℕ) (p : Polls) : Arms e sqe p (p.submitPoll sqe e) := by
  have hsubmits := submitPoll_submits sqe e p
  generalize p.submitPoll sqe e = p' at hsubmits ⊢
  cases hsubmits with
  | skipped => exact .kept rfl (submitted_self rfl)
  | failed hsqe =>
    subst hsqe
    exact .kept rfl (if_neg fun h => Bool.false_ne_true h.1)
  | armed st _ hsqe =>
    refine .armed (addressAt_update p p.drawn (some (.poll e false)) rfl) ?_
    exact if_pos ⟨hsqe, nextKey_draw p⟩

/-- A poll that is cancelled stays in `ops_`. -/
theorem cancelPoll_addressAt (sqe : Bool) (e : ℕ) (p : Polls) :
    (p.cancelPoll sqe e).addressAt = p.addressAt := by
  have hcancels := cancelPoll_cancels sqe e p
  generalize p.cancelPoll sqe e = p' at hcancels ⊢
  cases hcancels with
  | skipped => rfl
  | removed st =>
    rw [addressAt_update p st.pollKey ((p.ops st.pollKey).map PollOp.remove) rfl]
    apply Function.update_eq_self_iff.mpr
    rw [addressAt]
    cases p.ops st.pollKey with
    | none => rfl
    | some op => cases op <;> rfl

theorem cancelPoll_nextKey (sqe : Bool) (e : ℕ) (p : Polls) :
    (p.cancelPoll sqe e).nextKey = p.nextKey := by
  have hcancels := cancelPoll_cancels sqe e p
  generalize p.cancelPoll sqe e = p' at hcancels ⊢
  cases hcancels with
  | skipped | removed => rfl

theorem addEventer_arms (e : ℕ) (mask : UInt32) (sqe : Bool) (p : Polls) :
    Arms e sqe p (p.addEventer e mask sqe) :=
  (submitPoll_arms sqe e _).congr rfl rfl

theorem modifyEventer_arms (e : ℕ) (mask : UInt32) (sqe : Bool) (p : Polls) :
    Arms e sqe p (p.modifyEventer e mask sqe) := by
  unfold modifyEventer
  split
  · exact addEventer_arms e mask sqe p
  dsimp only
  split
  · exact .kept (cancelPoll_addressAt ..) (submitted_self (cancelPoll_nextKey ..))
  · exact (submitPoll_arms sqe e _).congr rfl rfl

/-- A new eventer has no events, so nothing is armed for it. -/
theorem addEventer_noEvent (e : ℕ) (sqe : Bool) (p : Polls) :
    p.addEventer e Eventer.kNoEvent sqe =
      { p with states := Function.update p.states e (some ⟨Eventer.kNoEvent, false, 0⟩) } := by
  unfold addEventer submitPoll
  dsimp only
  rw [Function.update_self]
  exact if_pos (.inl rfl)

/-! Which eventers are registered. -/

theorem submitPoll_registered (sqe : Bool) (e : ℕ) (p : Polls) (e' : ℕ) :
    ((p.submitPoll sqe e).states e').isSome = (p.states e').isSome := by
  have hsubmits := submitPoll_submits sqe e p
  generalize p.submitPoll sqe e = p' at hsubmits ⊢
  cases hsubmits with
  | skipped | failed => rfl
  | armed st hst => exact isSome_update hst rfl e'

theorem cancelPoll_registered (sqe : Bool) (e : ℕ) (p : Polls) (e' : ℕ) :
    ((p.cancelPoll sqe e).states e').isSome = (p.states e').isSome := by
  have hcancels := cancelPoll_cancels sqe e p
  generalize p.cancelPoll sqe e = p' at hcancels ⊢
  cases hcancels with
  | skipped => rfl
  | removed st hst => exact isSome_update hst rfl e'

theorem addEventer_registered {mask : UInt32} {e' : ℕ}
    (h : ((p.addEventer e mask sqe).states e').isSome = true) :
    e' = e ∨ (p.states e').isSome = true := by
  unfold addEventer at h
  rw [submitPoll_registered] at h
  dsimp only at h
  by_cases he : e' = e
  · exact .inl he
  · rw [Function.update_of_ne he] at h
    exact .inr h

theorem modifyEventer_registered {mask : UInt32} {e' : ℕ}
    (h : ((p.modifyEventer e mask sqe).states e').isSome = true) :
    e' = e ∨ (p.states e').isSome = true := by
  unfold modifyEventer at h
  split at h
  · exact addEventer_registered h
  next st hst =>
  have hreg : ∀ e', ((Function.update p.states e (some { st with mask := mask })) e').isSome =
      (p.states e').isSome :=
    @isSome_update p
      { p with states := Function.update p.states e (some { st with mask := mask }) } e _ _ hst rfl
  dsimp only at h
  split at h
  · rw [cancelPoll_registered] at h
    exact .inr ((hreg e').symm.trans h)
  · rw [submitPoll_registered] at h
    exact .inr ((hreg e').symm.trans h)

theorem removeEventer_registered {e' : ℕ}
    (h : ((p.removeEventer e sqe).states e').isSome = true) :
    e' ≠ e ∧ (p.states e').isSome = true := by
  unfold removeEventer at h
  dsimp only at h
  by_cases he : e' = e
  · rw [he, Function.update_self] at h
    cases h
  · rw [Function.update_of_ne he, cancelPoll_registered] at h
    exact ⟨he, h⟩

theorem removeEventer_addressAt (e : ℕ) (sqe : Bool) (p : Polls) :
    (p.removeEventer e sqe).addressAt = p.addressAt :=
  cancelPoll_addressAt sqe e p

/-- The CQE of a poll: the poll is gone, and another may be armed. -/
theorem handleCqe_arms {removed : Bool} (hop : p.ops key = some (.poll e removed)) (hz : key ≠ 0)
    (res : ℤ) (more sqe : Bool) :
    ∃ p₁, p₁.addressAt = Function.update p.addressAt key none ∧ p₁.nextKey = p.nextKey ∧
      Arms e sqe p₁ (p.handleCqe key res more sqe) := by
  unfold handleCqe
  rw [if_neg hz, hop]
  dsimp only
  split
  · exact ⟨{ p with ops := Function.update p.ops key none }, addressAt_update p key none rfl, rfl,
      .kept rfl (submitted_self rfl)⟩
  · exact ⟨{ p with ops := Function.update p.ops key none }, addressAt_update p key none rfl, rfl,
      (submitPoll_arms sqe e _).congr rfl rfl⟩

theorem handleCqe_registered (res : ℤ) (more : Bool) (e' : ℕ) :
    ((p.handleCqe key res more sqe).states e').isSome = (p.states e').isSome := by
  unfold handleCqe
  split
  · rfl
  split
  · rfl
  · split <;> rfl
  · next e _ _ =>
    dsimp only
    split
    · rfl
    · next st hst =>
      rw [submitPoll_registered]
      exact @isSome_update p
        { p with states := Function.update p.states e (some { st with armed := false }) } e _ _ hst
        rfl e'

theorem submitPoll_active (sqe : Bool) (e : ℕ) (p : Polls) :
    (p.submitPoll sqe e).active = p.active := by
  have hsubmits := submitPoll_submits sqe e p
  generalize p.submitPoll sqe e = p' at hsubmits ⊢
  cases hsubmits with
  | skipped | failed | armed => rfl

theorem submitPoll_states_of_ne (sqe : Bool) (p : Polls) {e' : ℕ} (he : e' ≠ e) :
    (p.submitPoll sqe e).states e' = p.states e' := by
  have hsubmits := submitPoll_submits sqe e p
  generalize p.submitPoll sqe e = p' at hsubmits ⊢
  cases hsubmits with
  | skipped | failed => rfl
  | armed => exact Function.update_of_ne he ..

/-- A CQE marks or changes no eventer but its target, and that one only if registered. -/
theorem handleCqe_touches {res : ℤ} {more : Bool} {e' : ℕ}
    (h : (∃ r, (p.handleCqe key res more sqe).active = p.active ++ [(e', r)]) ∨
      (p.handleCqe key res more sqe).states e' ≠ p.states e') :
    p.target key = some e' ∧ (p.states e').isSome = true := by
  have hsame : ¬ ((∃ r, p.active = p.active ++ [(e', r)]) ∨ p.states e' ≠ p.states e') := by
    simp
  unfold handleCqe at h
  split at h
  · exact absurd h hsame
  split at h
  · exact absurd h hsame
  · split at h
    · exact absurd h hsame
    · exact absurd h hsame
  · next e _ hop =>
    dsimp only at h
    split at h
    · exact absurd h hsame
    · next st hst =>
      rw [submitPoll_active] at h
      dsimp only at h
      have he : e' = e := by
        rcases h with ⟨r, hr⟩ | hne
        · split at hr
          · have hlast := List.append_cancel_left hr
            cases hlast
            rfl
          · exact absurd ⟨r, hr⟩ fun hbad => hsame (.inl hbad)
        · by_contra hne'
          rw [submitPoll_states_of_ne _ _ hne'] at hne
          exact hne (Function.update_of_ne hne' ..)
      subst he
      refine ⟨?_, by rw [hst]; rfl⟩
      rw [target, hop]

end Polls

namespace Eventers

/-! ## Safety -/

variable {s s' : Eventers} {p p' : Polls} {e key : ℕ} {sqe : Bool} {L : List (ℕ × Flight)}

/-- Each operation in the kernel has an entry of its own in `ops_`. -/
structure Tracks (p : Polls) (L : List (ℕ × Flight)) : Prop where
  keys : (L.map Prod.fst).Nodup
  nonzero : ∀ f ∈ L, f.1 ≠ 0
  ops : ∀ f ∈ L, p.addressAt f.1 = some f.2.address

theorem Tracks.congr (h : Tracks p L) (haddress : p'.addressAt = p.addressAt) : Tracks p' L where
  keys := h.keys
  nonzero := h.nonzero
  ops f hf := by rw [haddress]; exact h.ops f hf

/-- An operation is handed to the kernel under a fresh key. -/
theorem Tracks.launch (h : Tracks p L) (hfresh : p.addressAt key = none) (hz : key ≠ 0) (f : Flight)
    (hops : p'.addressAt = Function.update p.addressAt key (some f.address)) :
    Tracks p' (L ++ [(key, f)]) := by
  have hne : ∀ g ∈ L, g.1 ≠ key := by
    rintro g hg rfl
    cases hfresh.symm.trans (h.ops g hg)
  constructor
  · rw [List.map_append, List.nodup_append]
    refine ⟨h.keys, List.nodup_singleton _, ?_⟩
    intro a ha b hb
    rcases List.mem_map.mp ha with ⟨g, hg, rfl⟩
    rw [List.mem_singleton.mp hb]
    exact hne g hg
  · intro g hg
    rcases List.mem_append.mp hg with hold | hnew
    · exact h.nonzero g hold
    · rw [List.mem_singleton.mp hnew]
      exact hz
  · intro g hg
    rw [hops]
    rcases List.mem_append.mp hg with hold | hnew
    · rw [Function.update_of_ne (hne g hold)]
      exact h.ops g hold
    · rw [List.mem_singleton.mp hnew, Function.update_self]

/-- An operation completes for good. -/
theorem Tracks.complete (h : Tracks p L) {f : Flight} (hf : (key, f) ∈ L)
    (hops : p'.addressAt = Function.update p.addressAt key none) :
    Tracks p' (L.erase (key, f)) := by
  constructor
  · exact (List.erase_sublist.map Prod.fst).nodup h.keys
  · intro g hg
    exact h.nonzero g (List.mem_of_mem_erase hg)
  · intro g hg
    rcases (h.keys.of_map _).mem_erase_iff.mp hg with ⟨hne, hmem⟩
    have hkey : g.1 ≠ key := by
      intro heq
      exact hne (List.inj_on_of_nodup_map h.keys hmem hf heq)
    rw [hops, Function.update_of_ne hkey]
    exact h.ops g hmem

structure Inv (s : Eventers) : Prop where
  tracks : Tracks s.polls s.kernel
  /-- A poll of a registered eventer was submitted for this one. -/
  current : ∀ key a owner removed, (key, Flight.poll a owner removed) ∈ s.kernel →
    (s.polls.states a).isSome = true →
      removed = false ∧ ∃ x, s.eventers a = some x ∧ owner = some x.incarnation
  /-- A registered eventer exists and will be removed by its destructor. -/
  registered : ∀ e, (s.polls.states e).isSome = true →
    ∃ x, s.eventers e = some x ∧ x.outEvents ≠ Eventer.kRemoved

theorem inv_start : start.Inv where
  tracks := ⟨List.nodup_nil, List.forall_mem_nil _, List.forall_mem_nil _⟩
  current key a owner removed h := by cases h
  registered e h := by cases h

theorem drawn_ne_zero (p : Polls) : p.drawn ≠ 0 := by
  unfold Polls.drawn Polls.normalizeKey keyRange
  dsimp only
  split <;> dsimp only <;> omega

/-- A key that is free has no operation. -/
theorem addressAt_fresh (h : p.Fresh) : p.addressAt p.drawn = none := by
  rw [Polls.addressAt, h]
  rfl

/-- The kernel after a call for the eventer at `e`. -/
theorem Tracks.arms (h : Tracks p L) (hfresh : p.addressAt p.drawn = none)
    (harms : Polls.Arms e sqe p p') (hpolls : s.polls.submitted sqe p' = p.submitted sqe p') :
    Tracks p' (L ++ s.launched e sqe p') := by
  unfold launched
  cases harms with
  | kept ops none =>
    rw [hpolls, none]
    dsimp only
    rw [List.append_nil]
    exact h.congr ops
  | armed ops key =>
    rw [hpolls, key]
    exact h.launch hfresh (drawn_ne_zero p) _ ops

/-- What is launched is a poll for the eventer that is there. -/
theorem mem_launched {a : ℕ} {owner : Option ℕ} {removed : Bool}
    (h : (key, Flight.poll a owner removed) ∈ s.launched e sqe p) :
    a = e ∧ owner = (s.eventers e).map Eventer.incarnation ∧ removed = false := by
  unfold launched at h
  split at h
  · cases List.mem_singleton.mp h
    exact ⟨rfl, rfl, rfl⟩
  · cases h

theorem create_eq (h : s.step (.create e sqe) = some s') : s' = s.create e sqe := by
  simp only [step, Option.ite_none_right_eq_some, Option.some.injEq] at h
  exact h.2.symm

/-- A CQE is of an operation in the kernel. -/
theorem cqe_eq {f : Flight} {res : ℤ} {more : Bool}
    (h : s.step (.cqe key f res more sqe) = some s') :
    (key, f) ∈ s.kernel ∧ s' = s.complete key f res more sqe := by
  simp only [step, Option.ite_none_right_eq_some, Option.some.injEq] at h
  exact ⟨h.1, h.2.symm⟩

section

variable (h : s.Inv)
include h

theorem Inv.create (hquiet : s.Quiet e) : (s.create e sqe).Inv := by
  have hpolls := Polls.addEventer_noEvent e sqe s.polls
  have hsub : s.polls.submitted sqe (s.polls.addEventer e Eventer.kNoEvent sqe) = none := by
    rw [hpolls]
    exact Polls.submitted_self rfl
  have hkernel : (s.create e sqe).kernel = s.kernel := by
    unfold Eventers.create called launched
    dsimp only
    rw [hsub, List.append_nil]
  have hreg : ∀ a, ((s.create e sqe).polls.states a).isSome = true →
      a = e ∨ (s.polls.states a).isSome = true := fun a => Polls.addEventer_registered
  constructor
  · rw [hkernel]
    apply h.tracks.congr
    show (s.polls.addEventer e Eventer.kNoEvent sqe).addressAt = _
    rw [hpolls]
    rfl
  · rw [hkernel]
    intro key a owner removed hmem ha
    -- the polls in the kernel are of other addresses
    have hne : a ≠ e := by
      rintro rfl
      exact hquiet _ hmem rfl
    rcases h.current key a owner removed hmem ((hreg a ha).resolve_left hne) with ⟨hr, x, hx, ho⟩
    exact ⟨hr, x, (Function.update_of_ne hne ..).trans hx, ho⟩
  · intro a ha
    by_cases hne : a = e
    · subst hne
      exact ⟨_, Function.update_self .., show Eventer.kNoEvent ≠ Eventer.kRemoved by decide⟩
    · rcases h.registered a ((hreg a ha).resolve_left hne) with ⟨x, hx, hout⟩
      exact ⟨x, (Function.update_of_ne hne ..).trans hx, hout⟩

theorem Inv.update {x : Eventer} {u : Eventer.Update} (hx : s.eventers e = some x)
    (hfresh : s.polls.Fresh) (hquiet : s.polls.states e = none → s.Quiet e)
    (hout : u.apply x.outEvents ≠ Eventer.kRemoved) : (s.update e x u sqe).Inv := by
  have hreg : ∀ a, ((s.update e x u sqe).polls.states a).isSome = true →
      a = e ∨ (s.polls.states a).isSome = true := fun a => Polls.modifyEventer_registered
  constructor
  · exact h.tracks.arms (addressAt_fresh hfresh) (Polls.modifyEventer_arms ..) rfl
  · intro key a owner removed hmem ha
    rcases List.mem_append.mp hmem with hold | hnew
    · by_cases hne : a = e
      · subst hne
        -- a poll of this address is one of this eventer, which was registered
        have hsome : (s.polls.states a).isSome = true := by
          rw [Option.isSome_iff_ne_none]
          intro hnone
          exact hquiet hnone _ hold rfl
        rcases h.current key a owner removed hold hsome with ⟨hr, y, hy, ho⟩
        cases hx.symm.trans hy
        exact ⟨hr, _, Function.update_self .., ho⟩
      · rcases h.current key a owner removed hold ((hreg a ha).resolve_left hne) with
          ⟨hr, y, hy, ho⟩
        exact ⟨hr, y, (Function.update_of_ne hne ..).trans hy, ho⟩
    · rcases mem_launched hnew with ⟨rfl, ho, hr⟩
      refine ⟨hr, _, Function.update_self .., ?_⟩
      rw [ho]
      dsimp only
      rw [Function.update_self]
      rfl
  · intro a ha
    by_cases hne : a = e
    · subst hne
      exact ⟨_, Function.update_self .., hout⟩
    · rcases h.registered a ((hreg a ha).resolve_left hne) with ⟨y, hy, hout'⟩
      exact ⟨y, (Function.update_of_ne hne ..).trans hy, hout'⟩

theorem Inv.removeMyself {x : Eventer} (hx : s.eventers e = some x) (sqe : Bool) :
    (s.removeMyself e x sqe).Inv ∧ (s.removeMyself e x sqe).polls.states e = none := by
  unfold Eventers.removeMyself
  split
  · next hremoved =>
    refine ⟨h, Option.not_isSome_iff_eq_none.mp ?_⟩
    intro hsome
    rcases h.registered e hsome with ⟨y, hy, hout⟩
    cases hx.symm.trans hy
    exact hout hremoved
  · refine ⟨⟨?_, ?_, ?_⟩, Function.update_self ..⟩
    · have haddress : ∀ f : ℕ × Flight, (f.2.remove e).address = f.2.address := by
        rintro ⟨key, f⟩
        cases f <;> rfl
      constructor
      · dsimp only
        rw [List.map_map]
        exact h.tracks.keys
      · intro f hf
        rcases List.mem_map.mp hf with ⟨g, hg, rfl⟩
        exact h.tracks.nonzero g hg
      · intro f hf
        rcases List.mem_map.mp hf with ⟨g, hg, rfl⟩
        dsimp only
        rw [Polls.removeEventer_addressAt, haddress]
        exact h.tracks.ops g hg
    · intro key a owner removed hmem ha
      rcases Polls.removeEventer_registered ha with ⟨hne, hsome⟩
      rcases List.mem_map.mp hmem with ⟨⟨k, f⟩, hf, heq⟩
      cases f with
      | other => cases heq
      | poll a' owner' removed' =>
        cases heq
        rcases h.current k a owner removed' hf hsome with ⟨hr, y, hy, ho⟩
        refine ⟨?_, y, (Function.update_of_ne hne ..).trans hy, ho⟩
        rw [hr, Bool.false_or]
        exact beq_eq_false_iff_ne.mpr hne
    · intro a ha
      rcases Polls.removeEventer_registered ha with ⟨hne, hsome⟩
      rcases h.registered a hsome with ⟨y, hy, hout⟩
      exact ⟨y, (Function.update_of_ne hne ..).trans hy, hout⟩

theorem Inv.destroy {x : Eventer} (hx : s.eventers e = some x) : (s.destroy e x sqe).Inv := by
  rcases h.removeMyself hx sqe with ⟨hinv, hnone⟩
  have hne : ∀ a, ((s.removeMyself e x sqe).polls.states a).isSome = true → a ≠ e := by
    rintro a ha rfl
    rw [hnone] at ha
    cases ha
  refine ⟨hinv.tracks, ?_, ?_⟩
  · intro key a owner removed hmem ha
    rcases hinv.current key a owner removed hmem ha with ⟨hr, y, hy, ho⟩
    exact ⟨hr, y, (Function.update_of_ne (hne a ha) ..).trans hy, ho⟩
  · intro a ha
    rcases hinv.registered a ha with ⟨y, hy, hout⟩
    exact ⟨y, (Function.update_of_ne (hne a ha) ..).trans hy, hout⟩

theorem Inv.submitOther (hfresh : s.polls.Fresh) :
    Inv { s with
      polls := s.polls.submitOther sqe
      kernel := if sqe then s.kernel ++ [(s.polls.drawn, .other)] else s.kernel } := by
  cases sqe with
  | false => exact ⟨h.tracks.congr rfl, h.current, h.registered⟩
  | true =>
    refine ⟨?_, ?_, h.registered⟩
    · exact h.tracks.launch (addressAt_fresh hfresh) (drawn_ne_zero _) .other
        (Polls.addressAt_update s.polls s.polls.drawn (some .other) rfl)
    · intro key a owner removed hmem ha
      rcases List.mem_append.mp hmem with hold | hnew
      · exact h.current key a owner removed hold ha
      · cases List.mem_singleton.mp hnew

/-- A poll in the kernel is the one that its CQE is about. -/
theorem Inv.target {a : ℕ} {owner : Option ℕ} {removed : Bool}
    (hmem : (key, Flight.poll a owner removed) ∈ s.kernel) :
    ∃ r, s.polls.ops key = some (.poll a r) := by
  have hop := h.tracks.ops _ hmem
  rcases Option.map_eq_some_iff.mp hop with ⟨op, hop, haddress⟩
  cases op with
  | poll a' r =>
    cases haddress
    exact ⟨r, hop⟩
  | other => cases haddress

theorem Inv.complete_poll {a : ℕ} {owner : Option ℕ} {removed : Bool} {res : ℤ} {more : Bool}
    (hmem : (key, Flight.poll a owner removed) ∈ s.kernel) (hfresh : s.polls.Fresh) :
    (s.complete key (.poll a owner removed) res more sqe).Inv := by
  rcases h.target hmem with ⟨r, hop⟩
  have hkernel : (s.complete key (.poll a owner removed) res more sqe).kernel =
      s.kernel.erase (key, .poll a owner removed) ++
        s.launched a sqe (s.polls.handleCqe key res more sqe) := by
    have htarget : s.polls.target key = some a := by
      rw [Polls.target, hop]
    unfold complete
    dsimp only
    rw [htarget, if_neg (by simp)]
  have hreg : ∀ e, ((s.polls.handleCqe key res more sqe).states e).isSome =
      (s.polls.states e).isSome := Polls.handleCqe_registered res more
  rcases Polls.handleCqe_arms hop (h.tracks.nonzero _ hmem) res more sqe with
    ⟨p₁, haddress, hnext, harms⟩
  have hdrawn : p₁.drawn = s.polls.drawn := by
    rw [Polls.drawn, hnext, Polls.drawn]
  constructor
  · rw [hkernel]
    apply (h.tracks.complete hmem haddress).arms _ harms
    · rw [Polls.submitted, Polls.submitted, hnext, hdrawn]
    · rw [haddress, hdrawn, Function.update_apply, addressAt_fresh hfresh, ite_self]
  · rw [hkernel]
    intro k e o rm hf he
    have hsome : (s.polls.states e).isSome = true := (hreg e).symm.trans he
    rcases List.mem_append.mp hf with hold | hnew
    · exact h.current k e o rm (List.mem_of_mem_erase hold) hsome
    · rcases mem_launched hnew with ⟨rfl, ho, hr⟩
      rcases h.registered e hsome with ⟨x, hx, -⟩
      rw [hx] at ho
      exact ⟨hr, x, hx, ho⟩
  · intro e he
    exact h.registered e ((hreg e).symm.trans he)

theorem Inv.complete_other {res : ℤ} {more : Bool} (hmem : (key, Flight.other) ∈ s.kernel) :
    (s.complete key .other res more sqe).Inv := by
  have hop : s.polls.ops key = some .other := by
    rcases Option.map_eq_some_iff.mp (h.tracks.ops _ hmem) with ⟨op, hop, haddress⟩
    cases op with
    | poll a r => cases haddress
    | other => exact hop
  have htarget : s.polls.target key = none := by
    rw [Polls.target, hop]
  have hcqe : s.polls.handleCqe key res more sqe =
      if more then s.polls else { s.polls with ops := Function.update s.polls.ops key none } := by
    rw [Polls.handleCqe, if_neg (h.tracks.nonzero _ hmem), hop]
  unfold complete
  dsimp only
  rw [htarget, hcqe]
  cases more with
  | true => exact h
  | false =>
    refine ⟨?_, ?_, h.registered⟩
    · exact h.tracks.complete hmem (Polls.addressAt_update s.polls key none rfl)
    · intro k e o r hf he
      exact h.current k e o r (List.mem_of_mem_erase hf) he

/-- What a settled step preserves. -/
theorem Inv.step {l : Label} (hok : s.Settled l) (hs : s.step l = some s') : s'.Inv := by
  cases l with
  | create e sqe =>
    rw [create_eq hs]
    exact h.create hok
  | update e u sqe =>
    rcases Option.map_eq_some_iff.mp hs with ⟨x, hx, rfl⟩
    exact h.update hx hok.1 hok.2.1 (hok.2.2 x hx)
  | removeMyself e sqe =>
    rcases Option.map_eq_some_iff.mp hs with ⟨x, hx, rfl⟩
    exact (h.removeMyself hx sqe).1
  | destroy e sqe =>
    rcases Option.map_eq_some_iff.mp hs with ⟨x, hx, rfl⟩
    exact h.destroy hx
  | submitOther sqe =>
    cases hs
    exact h.submitOther hok
  | cqe key f res more sqe =>
    rcases cqe_eq hs with ⟨hmem, rfl⟩
    cases f with
    | poll a owner removed => exact h.complete_poll hmem hok
    | other => exact h.complete_other hmem

end

theorem inv (h : machine.Reachable Settled s) : s.Inv := by
  apply h.invariant
  · rintro _ rfl
    exact inv_start
  · intro s l s' _ hinv hok hs
    exact hinv.step hok hs

/-- A step marks the eventer at `e` active, or changes what the poller knows of it. -/
def Touches (s s' : Eventers) (e : ℕ) : Prop :=
  (∃ r, s'.polls.active = s.polls.active ++ [(e, r)]) ∨ s'.polls.states e ≠ s.polls.states e

/-- **Events go to the eventer that asked for them.** In every settled run the CQE of a poll
marks or changes no eventer but the one the poll was submitted for, whose removal has not
been requested since. -/
theorem events_reach_only_their_eventer (h : machine.Reachable Settled s) {a : ℕ}
    {owner : Option ℕ} {removed : Bool} {res : ℤ} {more : Bool}
    (hs : s.step (.cqe key (.poll a owner removed) res more sqe) = some s')
    (ht : s.Touches s' e) :
    e = a ∧ removed = false ∧ ∃ x, s.eventers e = some x ∧ owner = some x.incarnation := by
  have hinv := inv h
  rcases cqe_eq hs with ⟨hmem, rfl⟩
  rcases hinv.target hmem with ⟨r, hop⟩
  rcases Polls.handleCqe_touches ht with ⟨htarget, hsome⟩
  rw [Polls.target, hop] at htarget
  have hea : a = e := Option.some.inj htarget
  subst hea
  exact ⟨rfl, hinv.current key a owner removed hmem hsome⟩

/-- An eventer that is interested in reading gets its event. -/
theorem event_reaches_its_eventer :
    ∃ s s' : Eventers, machine.Reachable Settled s ∧
      s.step (.cqe 1 (.poll 0 (some 0) false) 1 false true) = some s' ∧ s.Touches s' 0 ∧
      ∃ x, s.eventers 0 = some x ∧ some 0 = some x.incarnation := by
  rcases machine.exists_of_run Settled (s := start) rfl
    [.create 0 true, .update 0 .enableReadEvents true]
    (fun s => s.polls.active = [] ∧
      (s.step (.cqe 1 (.poll 0 (some 0) false) 1 false true)).any
        fun s' => s'.polls.active = [(0, 1)])
    (by decide +kernel) with ⟨s, hs, hactive, hstep⟩
  rcases (Option.any_eq_true _ _).mp hstep with ⟨s', hs', hactive'⟩
  have htouch : s.Touches s' 0 := by
    refine .inl ⟨1, ?_⟩
    rw [hactive, List.nil_append]
    exact of_decide_eq_true hactive'
  exact ⟨s, s', hs, hs', htouch, (events_reach_only_their_eventer hs hs' htouch).2.2⟩

/-- An eventer asks for events, is removed and destroyed, and another one is constructed at
its address, which asks for nothing. The late CQE marks that one. -/
theorem late_cqe_reaches_next_eventer :
    ∃ s s' : Eventers, machine.Reachable (fun _ _ => True) s ∧
      s.step (.cqe 1 (.poll 0 (some 0) true) 1 false true) = some s' ∧
      s.eventers 0 = some ⟨1, Eventer.kNoEvent⟩ ∧ s.polls.active = [] ∧
      s'.polls.active = [(0, 1)] := by
  rcases machine.exists_of_run (fun _ _ => True) (s := start) rfl
    [.create 0 true, .update 0 .enableReadEvents true, .removeMyself 0 true, .destroy 0 true,
      .create 0 true]
    (fun s => s.eventers 0 = some ⟨1, Eventer.kNoEvent⟩ ∧ s.polls.active = [] ∧
      (s.step (.cqe 1 (.poll 0 (some 0) true) 1 false true)).any
        fun s' => s'.polls.active = [(0, 1)])
    (by decide +kernel) with ⟨s, hs, hx, hactive, hstep⟩
  rcases (Option.any_eq_true _ _).mp hstep with ⟨s', hs', hactive'⟩
  exact ⟨s, s', hs, hs', hx, hactive, of_decide_eq_true hactive'⟩

end Eventers

end Taotu
