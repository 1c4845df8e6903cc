import Taotu.Lib.Machine
import Mathlib.Logic.Function.Basic

/-!
# Taotu.EventLoop.Quitting — how a loop is told to quit (`event_manager.cc`)

`Quit` sets `should_quit_` and wakes the loop, which looks at the flag before every
iteration. But `Start` clears the flag first, in the thread that `Loop` has made and does
not wait for: a `Quit` in between is forgotten (`quit_overwritten`).

The machine runs the loop's thread next to any number of threads that call `Quit`,
`RunSoon` and `WakeUp`. `InOrder` asks that a `Quit` that was issued after `Loop` sets the
flag only when `Start` has cleared it. Then it is not lost: the flag stays set, no iteration
begins, and the one that is under way is woken (`quit_is_never_lost`).

The work of an iteration is left out but for draining the eventfd, and so is the value of
`should_quit_` before `Start`, which may be any.

**Ghosts.** A call of `Quit` carries whether it was `late`: issued after `Loop` returned, or
after `Work` began. `completed` says that such a call has returned, and `begun` counts the
iterations that have begun since.
-/

namespace Taotu

open Lib

/-- What the loop's thread does next. -/
inductive Looping where
  /-- Neither `Loop` nor `Work` has been called. -/
  | idle
  | clearFlag
  | testFlag
  | poll
  | doWithActiveTasks
  | left
deriving DecidableEq, Repr

/-- What a thread in `Quit`, `RunSoon` or `WakeUp` does next. -/
inductive Telling where
  | idle
  | setFlag (late : Bool)
  /-- Write to the eventfd, in `Quit` if `quit` is given. -/
  | wakeUp (quit : Option Bool)
deriving DecidableEq, Repr

structure Quitting (τ : Type) where
  shouldQuit : Bool
  /-- The eventfd is readable. -/
  readable : Bool
  phase : Looping
  threads : τ → Telling
  completed : Bool
  begun : ℕ

namespace Quitting

/-! ## Machine -/

variable {τ : Type}

inductive Label (τ : Type) where
  | loop
  | work
  | quit (t : τ)
  | runSoon (t : τ)
  | wakeUp (t : τ)
  | thread (t : τ)
  | looper (drains : Bool)
deriving DecidableEq, Repr

def goto [DecidableEq τ] (s : Quitting τ) (t : τ) (pc : Telling) : Quitting τ :=
  { s with threads := Function.update s.threads t pc }

/-- `std::call_once`: the first of `Loop` and `Work` makes a thread run `Start`. -/
def startOnce (s : Quitting τ) : Quitting τ :=
  if s.phase = .idle then { s with phase := .clearFlag } else s

def call [DecidableEq τ] (s : Quitting τ) (t : τ) (pc : Telling) : Option (Quitting τ) :=
  if s.threads t = .idle then some (s.goto t pc) else none

def threadStep [DecidableEq τ] (s : Quitting τ) (t : τ) : Option (Quitting τ) :=
  match s.threads t with
  | .idle => none
  | .setFlag late => some { s.goto t (.wakeUp (some late)) with shouldQuit := true }
  | .wakeUp quit =>
    some { s.goto t .idle with
      readable := true
      completed := s.completed || quit.getD false }

/-- One step of `Start`. -/
def looperStep (s : Quitting τ) (drains : Bool) : Option (Quitting τ) :=
  match s.phase with
  | .idle | .left => none
  | .clearFlag => some { s with phase := .testFlag, shouldQuit := false }
  | .testFlag =>
    if s.shouldQuit then some { s with phase := .left }
    else some { s with phase := .poll, begun := if s.completed then s.begun + 1 else s.begun }
  | .poll => some { s with phase := .doWithActiveTasks }
  | .doWithActiveTasks =>
    some { s with phase := .testFlag, readable := if drains then false else s.readable }

def step [DecidableEq τ] (s : Quitting τ) : Label τ → Option (Quitting τ)
  | .loop | .work => some s.startOnce
  | .quit t => s.call t (.setFlag (s.phase ≠ .idle))
  | .runSoon t | .wakeUp t => s.call t (.wakeUp none)
  | .thread t => s.threadStep t
  | .looper drains => s.looperStep drains

/-- A new loop; the flag may have any value. -/
def start (shouldQuit : Bool) : Quitting τ :=
  ⟨shouldQuit, false, .idle, fun _ => .idle, false, 0⟩

def machine [DecidableEq τ] : Machine (Quitting τ) (Label τ) :=
  ⟨fun s => ∃ shouldQuit, s = start shouldQuit, step⟩

/-- A late `Quit` sets the flag when `Start` has cleared it. -/
def InOrder (s : Quitting τ) : Label τ → Prop
  | .thread t => s.threads t = .setFlag true → s.phase ≠ .clearFlag
  | _ => True

instance (s : Quitting τ) : ∀ l, Decidable (s.InOrder l)
  | .thread _ => inferInstanceAs (Decidable (_ → _))
  | .loop | .work | .quit _ | .runSoon _ | .wakeUp _ | .looper _ => inferInstanceAs (Decidable True)

/-! ## The flag stays set -/

variable {s s' : Quitting τ} {t : τ}

/-- `Start` has cleared the flag. -/
def Cleared (s : Quitting τ) : Prop := s.phase ≠ .idle ∧ s.phase ≠ .clearFlag

structure Inv (s : Quitting τ) : Prop where
  /-- A late `Quit` was issued when the loop had its thread, -/
  late : ∀ t, s.threads t = .setFlag true → s.phase ≠ .idle
  /-- and has set the flag for good. -/
  waking : ∀ t, s.threads t = .wakeUp (some true) → s.shouldQuit = true ∧ s.Cleared
  completed : s.completed = true → s.shouldQuit = true ∧ s.Cleared
  begun : s.begun = 0
  readable : s.completed = true → s.phase = .poll → s.readable = true

theorem Inv.startOnce (h : s.Inv) : s.startOnce.Inv := by
  unfold Quitting.startOnce
  split
  · next hidle =>
    -- nobody relies on a thread that was not there
    refine ⟨nofun, ?_, ?_, h.begun, nofun⟩
    · exact fun t ht => absurd hidle (h.waking t ht).2.1
    · exact fun hc => absurd hidle (h.completed hc).2.1
  · exact h

/-- The flag is set, by whomever. -/
theorem Inv.setFlag (h : s.Inv) : Inv { s with shouldQuit := true } :=
  ⟨h.late, fun t ht => ⟨rfl, (h.waking t ht).2⟩, fun hc => ⟨rfl, (h.completed hc).2⟩, h.begun,
    h.readable⟩

/-- The loop goes on, to a place that is neither its beginning nor `Poll`. -/
theorem Inv.goes_on (h : s.Inv) (phase : Looping) (hcleared : phase ≠ .idle ∧ phase ≠ .clearFlag)
    (hpoll : phase ≠ .poll) (readable : Bool) :
    Inv { s with phase := phase, readable := readable } :=
  ⟨fun _ _ => hcleared.1, fun t ht => ⟨(h.waking t ht).1, hcleared⟩,
    fun hc => ⟨(h.completed hc).1, hcleared⟩, h.begun, fun _ hp => absurd hp hpoll⟩

/-- Behind its first step the loop leaves the flag alone. -/
theorem Inv.looperStep {drains : Bool} (h : s.Inv) (hs : s.looperStep drains = some s') :
    s'.Inv := by
  rw [Quitting.looperStep] at hs
  split at hs
  · cases hs
  · cases hs
  · next hphase =>
    cases hs
    refine ⟨nofun, ?_, ?_, h.begun, nofun⟩
    · exact fun t ht => absurd hphase (h.waking t ht).2.2
    · exact fun hc => absurd hphase (h.completed hc).2.2
  · split at hs
    · cases hs
      exact h.goes_on .left ⟨nofun, nofun⟩ nofun s.readable
    · next hflag =>
      -- an iteration begins: no late call has returned
      cases hs
      have hnot : s.completed ≠ true := fun hc => hflag (h.completed hc).1
      refine ⟨nofun, ?_, fun hc => absurd hc hnot, ?_, fun hc => absurd hc hnot⟩
      · exact fun t ht => absurd (h.waking t ht).1 hflag
      · rw [← h.begun]
        exact if_neg hnot
  · cases hs
    exact h.goes_on .doWithActiveTasks ⟨nofun, nofun⟩ nofun s.readable
  · cases hs
    exact h.goes_on .testFlag ⟨nofun, nofun⟩ nofun _

section Steps

variable [DecidableEq τ]

theorem inv_init (h : machine.Init s) : s.Inv := by
  rcases h with ⟨shouldQuit, rfl⟩
  exact ⟨nofun, nofun, nofun, rfl, nofun⟩

theorem goto_eq {pc : Telling} {t' : τ} {pc' : Telling} (h : (s.goto t pc).threads t' = pc') :
    t' = t ∧ pc = pc' ∨ s.threads t' = pc' := by
  by_cases ht : t' = t
  · subst ht
    exact .inl ⟨rfl, (Function.update_self ..).symm.trans h⟩
  · exact .inr ((Function.update_of_ne ht ..).symm.trans h)

/-- A thread moves on with the flag. -/
theorem Inv.goto (h : s.Inv) {pc : Telling} (hlate : pc = .setFlag true → s.phase ≠ .idle)
    (hwaking : pc = .wakeUp (some true) → s.shouldQuit = true ∧ s.Cleared) : (s.goto t pc).Inv := by
  refine ⟨?_, ?_, h.completed, h.begun, h.readable⟩
  · intro t' ht'
    rcases goto_eq ht' with ⟨-, heq⟩ | hold
    · exact hlate heq
    · exact h.late t' hold
  · intro t' ht'
    rcases goto_eq ht' with ⟨-, heq⟩ | hold
    · exact hwaking heq
    · exact h.waking t' hold

theorem Inv.call (h : s.Inv) {pc : Telling} (hs : s.call t pc = some s')
    (hlate : pc = .setFlag true → s.phase ≠ .idle) (hnew : pc ≠ .wakeUp (some true)) :
    s'.Inv := by
  simp only [Quitting.call, Option.ite_none_right_eq_some, Option.some.injEq] at hs
  rcases hs with ⟨-, rfl⟩
  exact h.goto hlate fun heq => absurd heq hnew

theorem Inv.threadStep (h : s.Inv) (hok : s.InOrder (.thread t)) (hs : s.threadStep t = some s') :
    s'.Inv := by
  rw [Quitting.threadStep] at hs
  split at hs
  · cases hs
  · next late hpc =>
    cases hs
    refine h.setFlag.goto nofun ?_
    intro heq
    cases heq
    exact ⟨rfl, h.late t hpc, hok hpc⟩
  · next quit hpc =>
    cases hs
    have hidle : (s.goto t .idle).Inv := h.goto nofun nofun
    refine ⟨hidle.late, hidle.waking, ?_, h.begun, fun _ _ => rfl⟩
    -- it has been completed before, or is now
    intro hc
    rcases Bool.or_eq_true_iff.mp hc with hc | hquit
    · exact h.completed hc
    · cases quit with
      | none => cases hquit
      | some late =>
        cases hquit
        exact h.waking t hpc

theorem Inv.step {l : Label τ} (h : s.Inv) (hok : s.InOrder l) (hs : s.step l = some s') :
    s'.Inv := by
  cases l with
  | loop =>
    cases hs
    exact h.startOnce
  | work =>
    cases hs
    exact h.startOnce
  | quit t =>
    refine h.call hs ?_ nofun
    intro hlate
    exact of_decide_eq_true (Telling.setFlag.inj hlate)
  | runSoon t => exact h.call hs nofun nofun
  | wakeUp t => exact h.call hs nofun nofun
  | thread t => exact h.threadStep hok hs
  | looper drains => exact h.looperStep hs

end Steps

/-- When a late `Quit` has returned, the flag is set, no iteration has begun since, and a
loop that waits in `Poll` is woken. -/
def NotLost (s : Quitting τ) : Prop :=
  s.completed = true →
    s.shouldQuit = true ∧ s.begun = 0 ∧ (s.phase = .poll → s.readable = true)

/-- **A `Quit` is never lost.** In every run in order, with any number of threads. -/
theorem quit_is_never_lost [DecidableEq τ] (h : machine.Reachable InOrder s) : s.NotLost := by
  have hinv : s.Inv := h.invariant (fun _ => inv_init) fun _ _ _ _ hinv hok hs => hinv.step hok hs
  intro hc
  exact ⟨(hinv.completed hc).1, hinv.begun, hinv.readable hc⟩

/-- The theorem at a run in which one thread quits while another runs a task, and the loop
leaves after the iteration it is in. -/
theorem quit_ends_iteration :
    ∃ s : Quitting Bool, machine.Reachable InOrder s ∧ s.completed = true ∧ s.phase = .left ∧
      s.NotLost := by
  rcases machine.exists_of_run InOrder (s := (start true : Quitting Bool)) ⟨true, rfl⟩
    [.loop, .looper false, .looper false, .runSoon false, .quit true, .thread false, .looper true,
      .thread true, .looper true, .thread true, .looper false]
    (fun s => s.completed = true ∧ s.phase = .left) (by decide +kernel) with ⟨s, hs, hc, hleft⟩
  exact ⟨s, hs, hc, hleft, quit_is_never_lost hs⟩

/-- A thread quits when `Loop` has returned and the new thread has not run yet. `Start`
clears the flag, and the loop goes to sleep. -/
theorem quit_overwritten :
    ∃ s : Quitting Unit, machine.Reachable (fun _ _ => True) s ∧ s.completed = true ∧
      s.shouldQuit = false ∧ s.begun = 2 ∧ s.phase = .poll ∧ s.readable = false ∧
      s.threads () = .idle :=
  machine.exists_of_run (fun _ _ => True) (s := (start false : Quitting Unit)) ⟨false, rfl⟩
    [.loop, .quit (), .thread (), .thread (), .looper false, .looper false, .looper true,
      .looper true, .looper false]
    (fun s => s.completed = true ∧ s.shouldQuit = false ∧ s.begun = 2 ∧ s.phase = .poll ∧
      s.readable = false ∧ s.threads () = .idle) (by decide +kernel)

end Quitting

end Taotu
