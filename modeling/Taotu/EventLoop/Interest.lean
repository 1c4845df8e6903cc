import Taotu.EventLoop.Incarnations

/-!
# Taotu.EventLoop.Interest — changing interest (`eventer.cc`, `poller.cc`)

A poll watches for the events it was submitted with. `ModifyEventer` stores the new events
in the state of the eventer; it cancels the poll if there are none, and submits one if none
is armed. A poll that is armed with other events stays as it is.

1. **Model layer.** The eventers of `Taotu.EventLoop.Incarnations`. A step of theirs is a
   step of the polls of `Taotu.EventLoop.Polling` or leaves those alone (`step_polls`).
2. **Safety.** `Steady` asks that the run is calm for the polls, and that an armed eventer
   goes only to no events or to the ones it has. Then every change takes effect
   (`interest_takes_effect`).

**Ghosts.** `masks` are the events that the polls were submitted with.
-/

namespace Taotu

open Lib

namespace Polls

/-- The poll that a call between `p` and `p'` has handed to the kernel: its key and the
mask it was prepared with. -/
def prepared (sqe : Bool) (p p' : Polls) : Option (ℕ × UInt32) := do
  let key ← submitted sqe p p'
  let e ← p'.target key
  let st ← p'.states e
  return (key, st.mask)

def recorded (sqe : Bool) (masks : ℕ → UInt32) (p p' : Polls) : ℕ → UInt32 :=
  match prepared sqe p p' with
  | some (key, mask) => Function.update masks key mask
  | none => masks

end Polls

namespace Eventers

/-- The call of the poller that a step makes. -/
def lower (s : Eventers) : Label → Option Polls.Label
  | .create e sqe => some (.addEventer e Eventer.kNoEvent sqe)
  | .update e u sqe => (s.eventers e).map fun x => .modifyEventer e (u.apply x.outEvents) sqe
  | .removeMyself e sqe | .destroy e sqe => some (.removeEventer e sqe)
  | .submitOther sqe => some (.submitOther sqe)
  | .cqe key _ res more sqe => some (.cqe key res more sqe)

/-- Whether the submission queue has an entry left. -/
def Label.sqe : Label → Bool
  | .create _ sqe | .update _ _ sqe | .removeMyself _ sqe | .destroy _ sqe | .submitOther sqe
  | .cqe _ _ _ _ sqe => sqe

end Eventers

structure Interests where
  base : Eventers
  masks : ℕ → UInt32

namespace Interests

/-! ## Model layer -/

def polls (s : Interests) : Polls := s.base.polls

def step (s : Interests) (l : Eventers.Label) : Option Interests :=
  (s.base.step l).map fun base =>
    { base := base, masks := Polls.recorded l.sqe s.masks s.polls base.polls }

def start : Interests := ⟨.start, fun _ => 0⟩

def machine : Machine Interests Eventers.Label := ⟨fun s => s = start, step⟩

/-- An eventer that is armed changes its events only to none, or not at all. -/
def Keeps (s : Interests) : Eventers.Label → Prop
  | .update e u _ => ∀ x ∈ s.base.eventers e, ∀ st ∈ s.polls.states e, st.armed = true →
      u.apply x.outEvents = 0 ∨ u.apply x.outEvents = st.mask
  | _ => True

def Steady (s : Interests) (l : Eventers.Label) : Prop :=
  (∀ call ∈ s.base.lower l, s.polls.Calm call) ∧ s.Keeps l

/-- A poll of the eventer is in the kernel and not removed if and only if the eventer has
events, and it was submitted with these. -/
def Effective (s : Interests) (e : ℕ) : Prop :=
  ∀ x ∈ s.base.eventers e, ((∃ key, s.polls.Live e key) ↔ x.outEvents ≠ 0) ∧
    ∀ key, s.polls.Live e key → s.masks key = x.outEvents

end Interests

/-! ## Calls of the poller -/

theorem Eventers.removeMyself_polls (s : Eventers) (e : ℕ) (x : Eventer) (sqe : Bool) :
    (s.removeMyself e x sqe).polls = s.polls ∨
      (s.removeMyself e x sqe).polls = s.polls.removeEventer e sqe := by
  unfold removeMyself
  split
  · exact .inl rfl
  · exact .inr rfl

/-- Eventers change the polls only by calls of the poller. -/
theorem Eventers.step_polls {s s' : Eventers} {l : Label} (h : s.step l = some s') :
    s'.polls = s.polls ∨ ∃ call ∈ s.lower l, s.polls.step call = some s'.polls := by
  cases l with
  | create e sqe =>
    rw [create_eq h]
    exact .inr ⟨_, rfl, rfl⟩
  | update e u sqe =>
    rcases Option.map_eq_some_iff.mp h with ⟨x, hx, rfl⟩
    exact .inr ⟨_, Option.mem_map_of_mem _ hx, rfl⟩
  | removeMyself e sqe =>
    rcases Option.map_eq_some_iff.mp h with ⟨x, -, rfl⟩
    exact (s.removeMyself_polls e x sqe).imp id fun heq => ⟨_, rfl, congrArg some heq.symm⟩
  | destroy e sqe =>
    rcases Option.map_eq_some_iff.mp h with ⟨x, -, rfl⟩
    exact (s.removeMyself_polls e x sqe).imp id fun heq => ⟨_, rfl, congrArg some heq.symm⟩
  | submitOther sqe =>
    cases h
    exact .inr ⟨_, rfl, rfl⟩
  | cqe key f res more sqe =>
    rcases cqe_eq h with ⟨-, rfl⟩
    exact .inr ⟨_, rfl, rfl⟩

namespace Polls

variable {p p' : Polls} {e key : ℕ} {sqe : Bool} {masks : ℕ → UInt32}

/-! ## The masks of the polls -/

/-- The poll of an armed eventer was submitted with its events, unless there are none. -/
def Masked (p : Polls) (masks : ℕ → UInt32) : Prop :=
  ∀ e st, p.states e = some st → st.armed = true → st.mask = 0 ∨ masks st.pollKey = st.mask

/-- A call that draws no key prepares no poll. -/
theorem Masked.kept (h : p'.Masked masks) (hnext : p'.nextKey = p.nextKey) :
    p'.Masked (recorded sqe masks p p') := by
  rw [recorded, prepared, submitted_self hnext]
  exact h

/-- A key in use is not drawn. -/
theorem Agrees.pollKey_ne_drawn (h : p.Agrees) (hfresh : p.Fresh) {st : EventerState}
    (hst : p.states e = some st) (harmed : st.armed = true) : st.pollKey ≠ p.drawn := by
  intro hkey
  have hlive := h.live hst harmed
  rw [Live, hkey, hfresh] at hlive
  cases hlive

/-- The state of one eventer changes, within what its poll allows. -/
theorem Masked.update (h : p.Masked masks) {o : Option EventerState}
    (hstates : p'.states = Function.update p.states e o)
    (ho : ∀ st ∈ o, st.armed = true → st.mask = 0 ∨ masks st.pollKey = st.mask) :
    p'.Masked masks := by
  intro e' st hst harmed
  rw [hstates] at hst
  by_cases he : e' = e
  · rw [he, Function.update_self] at hst
    exact ho st hst harmed
  · rw [Function.update_of_ne he] at hst
    exact h e' st hst harmed

/-- `SubmitPoll` prepares a poll with the events of its eventer. -/
theorem Masked.submitPoll (h : p.Masked masks)
    (hkeys : ∀ e' st, e' ≠ e → p.states e' = some st → st.armed = true → st.pollKey ≠ p.drawn) :
    (p.submitPoll sqe e).Masked (recorded sqe masks p (p.submitPoll sqe e)) := by
  have hsubmits := submitPoll_submits sqe e p
  generalize p.submitPoll sqe e = p' at hsubmits ⊢
  cases hsubmits with
  | skipped => exact h.kept rfl
  | failed hsqe =>
    subst hsqe
    exact h
  | armed st hst hsqe =>
    have hprepared : prepared sqe p (p.draw.arm e st p.drawn) = some (p.drawn, st.mask) := by
      simp [prepared, submitted, hsqe, arm, nextKey_draw, target]
    have hstates : (p.draw.arm e st p.drawn).states =
        Function.update p.states e (some { st with armed := true, pollKey := p.drawn }) := rfl
    rw [recorded, hprepared]
    dsimp only
    intro e' st' hst' harmed'
    rw [hstates] at hst'
    by_cases he : e' = e
    · rw [he, Function.update_self] at hst'
      cases hst'
      exact .inr (Function.update_self ..)
    · rw [Function.update_of_ne he] at hst'
      rw [Function.update_of_ne (hkeys e' st' he hst' harmed')]
      exact h e' st' hst' harmed'

theorem Masked.cancelPoll (h : p.Masked masks) : (p.cancelPoll sqe e).Masked masks := by
  have hcancels := cancelPoll_cancels sqe e p
  generalize p.cancelPoll sqe e = p' at hcancels ⊢
  cases hcancels with
  | skipped => exact h
  | removed st hst =>
    refine h.update rfl ?_
    rintro st' hst' harmed
    cases hst'
    cases harmed

/-- One eventer gets another state and then a poll, if it needs one. -/
theorem Masked.arm_update {p₁ : Polls} {st : EventerState} (h : p.Masked masks) (ha : p.Agrees)
    (hfresh : p.Fresh) (hstates : p₁.states = Function.update p.states e (some st))
    (hnext : p₁.nextKey = p.nextKey)
    (hst : st.armed = true → st.mask = 0 ∨ masks st.pollKey = st.mask) :
    (p₁.submitPoll sqe e).Masked (recorded sqe masks p (p₁.submitPoll sqe e)) := by
  have hp₁ : p₁.Masked masks := by
    refine h.update hstates ?_
    rintro st' ⟨⟩
    exact hst
  have hsame : recorded sqe masks p (p₁.submitPoll sqe e) =
      recorded sqe masks p₁ (p₁.submitPoll sqe e) := by
    simp only [recorded, prepared, submitted, drawn, hnext]
  rw [hsame]
  refine hp₁.submitPoll ?_
  intro e' st' he hst' harmed
  rw [hstates, Function.update_of_ne he] at hst'
  rw [drawn, hnext]
  exact ha.pollKey_ne_drawn hfresh hst' harmed

theorem Masked.addEventer {mask : UInt32} (h : p.Masked masks) (ha : p.Agrees)
    (hfresh : p.Fresh) :
    (p.addEventer e mask sqe).Masked (recorded sqe masks p (p.addEventer e mask sqe)) :=
  h.arm_update ha hfresh rfl rfl nofun

/-- The condition on an armed eventer is what `ModifyEventer` needs. -/
theorem Masked.modifyEventer {mask : UInt32} (h : p.Masked masks) (ha : p.Agrees)
    (hfresh : p.Fresh)
    (hkeeps : ∀ st ∈ p.states e, st.armed = true → mask = 0 ∨ mask = st.mask) :
    (p.modifyEventer e mask sqe).Masked (recorded sqe masks p (p.modifyEventer e mask sqe)) := by
  unfold Polls.modifyEventer
  split
  · exact h.addEventer ha hfresh
  next st hst =>
  have hmask : st.armed = true → mask = 0 ∨ masks st.pollKey = mask := by
    intro harmed
    rcases hkeeps st hst harmed with hzero | rfl
    · exact .inl hzero
    · exact h e st hst harmed
  dsimp only
  split
  · refine Masked.kept (Masked.cancelPoll (h.update rfl ?_)) (cancelPoll_nextKey ..)
    rintro st' ⟨⟩
    exact hmask
  · exact h.arm_update ha hfresh rfl rfl hmask

theorem Masked.removeEventer (h : p.Masked masks) :
    (p.removeEventer e sqe).Masked (recorded sqe masks p (p.removeEventer e sqe)) :=
  Masked.kept (h.cancelPoll.update rfl nofun) (cancelPoll_nextKey ..)

theorem Masked.handleCqe {res : ℤ} {more : Bool} (h : p.Masked masks) (ha : p.Agrees)
    (hfresh : p.Fresh) :
    (p.handleCqe key res more sqe).Masked
      (recorded sqe masks p (p.handleCqe key res more sqe)) := by
  unfold Polls.handleCqe
  split
  · exact h.kept rfl
  split
  · exact h.kept rfl
  · split
    · exact h.kept rfl
    · exact Masked.kept h rfl
  dsimp only
  split
  · exact Masked.kept h rfl
  · exact h.arm_update ha hfresh rfl rfl nofun

/-- An operation of another kind is prepared without a mask. -/
theorem Masked.submitOther (h : p.Masked masks) :
    (p.submitOther sqe).Masked (recorded sqe masks p (p.submitOther sqe)) := by
  have hprepared : prepared sqe p (p.submitOther sqe) = none := by
    cases sqe with
    | true => simp [prepared, submitted, Polls.submitOther, draw, target]
    | false => rfl
  rw [recorded, hprepared]
  unfold Polls.submitOther
  split <;> exact h

/-! ## `ModifyEventer` with an entry in the submission queue -/

theorem submitPoll_state {st : EventerState} (hst : p.states e = some st) :
    ∃ st', (p.submitPoll true e).states e = some st' ∧ st'.mask = st.mask ∧
      (st'.armed = true ↔ st.armed = true ∨ st.mask ≠ 0) := by
  rw [submitPoll, hst]
  dsimp only
  split
  · next hidle =>
    refine ⟨st, hst, rfl, .inl, ?_⟩
    rintro (harmed | hmask)
    · exact harmed
    · exact hidle.resolve_left hmask
  · next hidle =>
    have hmask : st.mask ≠ 0 := fun hzero => hidle (.inl hzero)
    exact ⟨_, Function.update_self .., rfl, fun _ => .inr hmask, fun _ => rfl⟩

theorem cancelPoll_state {st : EventerState} (hst : p.states e = some st) :
    ∃ st', (p.cancelPoll true e).states e = some st' ∧ st'.mask = st.mask ∧ st'.armed = false := by
  rw [cancelPoll, hst]
  dsimp only
  split
  · exact ⟨_, Function.update_self .., rfl, rfl⟩
  · next hidle => exact ⟨st, hst, rfl, by simpa using hidle⟩

/-- An eventer is armed if it has events. -/
theorem modifyEventer_state (mask : UInt32) :
    ∃ st, (p.modifyEventer e mask true).states e = some st ∧ st.mask = mask ∧
      (st.armed = true ↔ mask ≠ 0) := by
  unfold modifyEventer
  split
  · rcases submitPoll_state
        (p := { p with states := Function.update p.states e (some ⟨mask, false, 0⟩) })
        (Function.update_self ..) with ⟨st, hst, hmask, harmed⟩
    exact ⟨st, hst, hmask, by simpa using harmed⟩
  next st₀ _ =>
  dsimp only
  split
  · next hzero =>
    rcases cancelPoll_state
        (p := { p with states := Function.update p.states e (some { st₀ with mask := mask }) })
        (Function.update_self ..) with ⟨st, hst, hmask, harmed⟩
    exact ⟨st, hst, hmask, by simp [harmed, hzero]⟩
  · next hmask₀ =>
    rcases submitPoll_state
        (p := { p with states := Function.update p.states e (some { st₀ with mask := mask }) })
        (Function.update_self ..) with ⟨st, hst, hmask, harmed⟩
    exact ⟨st, hst, hmask, fun _ => hmask₀, fun _ => harmed.mpr (.inr hmask₀)⟩

end Polls

namespace Interests

/-! ## Safety -/

variable {s s' : Interests} {l : Eventers.Label} {e : ℕ}

theorem step_eq (h : s.step l = some s') :
    ∃ base, s.base.step l = some base ∧
      s' = ⟨base, Polls.recorded l.sqe s.masks s.polls base.polls⟩ := by
  rcases Option.map_eq_some_iff.mp h with ⟨base, hbase, rfl⟩
  exact ⟨base, hbase, rfl⟩

/-- In a steady run the polls are calm. -/
theorem polls_reachable (h : machine.Reachable Steady s) :
    Polls.machine.Reachable Polls.Calm s.polls := by
  refine h.project polls ?_ fun s l s' hok hs => ?_
  · rintro _ rfl
    rfl
  · rcases step_eq hs with ⟨base, hbase, rfl⟩
    exact (Eventers.step_polls hbase).imp id fun ⟨call, hcall, hpolls⟩ =>
      ⟨call, hok.1 call hcall, hpolls⟩

theorem masked_removeMyself (h : s.polls.Masked s.masks) (e : ℕ) (x : Eventer) (sqe : Bool) :
    (s.base.removeMyself e x sqe).polls.Masked
      (Polls.recorded sqe s.masks s.polls (s.base.removeMyself e x sqe).polls) := by
  rcases s.base.removeMyself_polls e x sqe with heq | heq <;> rw [heq]
  · exact h.kept rfl
  · exact h.removeEventer

theorem masked_step (h : s.polls.Masked s.masks) (ha : s.polls.Agrees) (hok : s.Steady l)
    (hs : s.step l = some s') : s'.polls.Masked s'.masks := by
  rcases step_eq hs with ⟨base, hbase, rfl⟩
  rcases hok with ⟨hcalm, hkeeps⟩
  cases l with
  | create e sqe =>
    rw [Eventers.create_eq hbase]
    exact h.addEventer ha (hcalm _ rfl).1
  | update e u sqe =>
    rcases Option.map_eq_some_iff.mp hbase with ⟨x, hx, rfl⟩
    exact h.modifyEventer ha (hcalm _ (Option.mem_map_of_mem _ hx)).1 (hkeeps x hx)
  | removeMyself e sqe =>
    rcases Option.map_eq_some_iff.mp hbase with ⟨x, -, rfl⟩
    exact masked_removeMyself h e x sqe
  | destroy e sqe =>
    rcases Option.map_eq_some_iff.mp hbase with ⟨x, -, rfl⟩
    exact masked_removeMyself h e x sqe
  | submitOther sqe =>
    cases hbase
    exact h.submitOther
  | cqe key f res more sqe =>
    rcases Eventers.cqe_eq hbase with ⟨-, rfl⟩
    exact h.handleCqe ha (hcalm _ rfl).1

theorem masked (h : machine.Reachable Steady s) : s.polls.Masked s.masks := by
  induction h with
  | init h0 =>
    cases h0
    nofun
  | step l hreach hok hs ih => exact masked_step ih (Polls.agrees (polls_reachable hreach)) hok hs

/-- **Changing interest takes effect.** In every steady run, when one of the calls that
change its events returns, the eventer has a poll if and only if it has events, and the poll
watches for these. -/
theorem interest_takes_effect (h : machine.Reachable Steady s) {u : Eventer.Update}
    (hok : s.Steady (.update e u true)) (hs : s.step (.update e u true) = some s') :
    s'.Effective e := by
  have hreach : machine.Reachable Steady s' := h.step (.update e u true) hok hs
  have ha := Polls.agrees (polls_reachable hreach)
  have hmasked := masked hreach
  rcases step_eq hs with ⟨base, hbase, rfl⟩
  rcases Option.map_eq_some_iff.mp hbase with ⟨x, -, rfl⟩
  rcases s.polls.modifyEventer_state (e := e) (u.apply x.outEvents) with ⟨st, hst, hmask, harmed⟩
  intro x' hx'
  have hout : x'.outEvents = st.mask := by
    cases (Function.update_self ..).symm.trans hx'
    exact hmask.symm
  rw [hout]
  refine ⟨(ha.armed_iff hst).symm.trans (hmask ▸ harmed), ?_⟩
  intro key hlive
  rcases ha.known hst hlive with ⟨harmed', rfl⟩
  exact (hmasked e st hst harmed').resolve_left (hmask ▸ harmed.mp harmed')

/-- The theorem at a run in which an eventer asks for reading, then for nothing, and for
writing when its first poll is gone. -/
theorem writing_after_reading :
    ∃ s s' : Interests, machine.Reachable Steady s ∧
      s.step (.update 7 .enableWriteEvents true) = some s' ∧
      s'.polls.ops 2 = some (.poll 7 false) ∧ s'.masks 2 = 4 ∧ s'.Effective 7 := by
  have hstart : machine.Reachable Steady start := .init rfl
  have hcreated := hstart.step (Eventers.Label.create 7 true)
    ⟨by rintro _ ⟨⟩; exact ⟨rfl, nofun⟩, trivial⟩ rfl
  have hreading := hcreated.step (Eventers.Label.update 7 .enableReadEvents true)
    ⟨by rintro _ ⟨⟩; exact ⟨rfl, nofun⟩, by rintro _ ⟨⟩ _ ⟨⟩; nofun⟩ rfl
  have hnone := hreading.step (Eventers.Label.update 7 .disableAllEvents true)
    ⟨by rintro _ ⟨⟩; exact ⟨rfl, nofun⟩, by rintro _ ⟨⟩ _ ⟨⟩ _; exact .inl rfl⟩ rfl
  have hgone := hnone.step (Eventers.Label.cqe 1 (.poll 7 (some 0) false) (-125) false true)
    ⟨by rintro _ ⟨⟩; exact ⟨rfl, by rintro _ _ ⟨⟩ ⟨⟩; exact ⟨rfl, rfl⟩⟩, trivial⟩ rfl
  exact ⟨_, _, hgone, rfl, rfl, rfl, interest_takes_effect hgone
    ⟨by rintro _ ⟨⟩; exact ⟨rfl, nofun⟩, by rintro _ ⟨⟩ _ ⟨⟩; nofun⟩ rfl⟩

/-- An eventer that asks for reading asks for writing, too. Its poll goes on to watch for
reading alone. -/
theorem writing_not_watched :
    ∃ s s' : Interests, machine.Reachable (fun _ _ => True) s ∧
      s.step (.update 7 .enableWriteEvents true) = some s' ∧
      s'.base.eventers 7 = some ⟨0, 7⟩ ∧ s'.polls.Live 7 1 ∧ s'.masks 1 = 3 ∧
      ¬ s'.Effective 7 := by
  rcases machine.exists_of_run (fun _ _ => True) (s := start) rfl
    [.create 7 true, .update 7 .enableReadEvents true]
    (fun s => (s.step (.update 7 .enableWriteEvents true)).any fun s' =>
      s'.base.eventers 7 = some ⟨0, 7⟩ ∧ s'.polls.ops 1 = some (.poll 7 false) ∧ s'.masks 1 = 3)
    (by decide +kernel) with ⟨s, hs, hstep⟩
  rcases (Option.any_eq_true _ _).mp hstep with ⟨s', hs', hstate⟩
  rcases of_decide_eq_true hstate with ⟨hx, hlive, hmask⟩
  refine ⟨s, s', hs, hs', hx, hlive, hmask, ?_⟩
  intro heffective
  have hout := (heffective _ hx).2 1 hlive
  rw [hmask] at hout
  exact absurd hout (by decide)

end Interests

end Taotu
