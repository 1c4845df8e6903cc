import Taotu.Threads.Refinement

/-!
# Taotu.Threads.Turns — what the threads of a pool do (`thread_pool.h`, `thread_pool.cc`)

The steps of `Taotu.Threads.Waking` by what they do: those of a worker (`Turned`), which takes
its tests in turn, changes the queues in two places and runs its task, and those of a call of
`AddTask` (`Produced`).

In every state that is reached (`sane`) a mutex that is taken is held by a thread that is in
its section; and after `notify_all()` nobody waits, because `should_stop_` is set under the
mutex under which the workers test it.
-/

namespace Taotu

open Lib

/-! ## Steps -/

/-- It holds `que_csm_mutex_`. -/
def Adding.Locked {τ : Type} : Adding τ → Prop
  | push _ | notify | unlockQueue => True
  | idle | testStop _ | lockQueue _ => False

namespace Working

variable {τ : Type}

/-- The task in the hands of a worker. -/
def holds : Working τ → Option τ
  | unlock task | run task => some task
  | _ => none

/-- It holds `que_csm_mutex_`. -/
def LockedQueue : Working τ → Prop
  | flip | unlockQueue => True
  | _ => False

/-- It has found `should_stop_` unset and may be going to wait. -/
def Tests : Working τ → Prop
  | testPdt | testCsm | wait => True
  | _ => False

/-- The steps that leave the queues and `que_csm_mutex_` alone. -/
inductive Next (pdt csm : List τ) (stop : Bool) : Working τ → Working τ → Prop where
  | lock : Next pdt csm stop lock testStop
  | stopped (h : stop = true) : Next pdt csm stop testStop exitStop
  | unstopped (h : stop = false) : Next pdt csm stop testStop testPdt
  | pdtEmpty (h : pdt = []) : Next pdt csm stop testPdt testCsm
  | pdtFilled (h : pdt ≠ []) : Next pdt csm stop testPdt exitStop
  | csmEmpty (h : csm = []) : Next pdt csm stop testCsm wait
  | csmFilled (h : csm ≠ []) : Next pdt csm stop testCsm exitStop
  | wait : Next pdt csm stop wait waiting
  | exitStopped (h : stop = true) : Next pdt csm stop exitStop exitPdt
  | exitUnstopped (h : stop = false) : Next pdt csm stop exitStop testQueue
  | exitPdtEmpty (h : pdt = []) : Next pdt csm stop exitPdt exitCsm
  | exitPdtFilled (h : pdt ≠ []) : Next pdt csm stop exitPdt testQueue
  | exitCsmEmpty (h : csm = []) : Next pdt csm stop exitCsm leave
  | exitCsmFilled (h : csm ≠ []) : Next pdt csm stop exitCsm testQueue
  | leave : Next pdt csm stop leave returned
  | queueEmpty (h : csm = []) : Next pdt csm stop testQueue lockQueue
  | queueFilled (h : csm ≠ []) : Next pdt csm stop testQueue pop
  | unlock {task : τ} : Next pdt csm stop (unlock task) (run task)

end Working

namespace WakingPool

variable {π ω τ : Type} {s s' : WakingPool π ω τ} {p : π} {w : ω}

section Steps

variable [DecidableEq ω]

/-- What a step of a worker does. -/
inductive Turned (s : WakingPool π ω τ) (w : ω) : WakingPool π ω τ → Prop where
  | next {pc : Working τ} {m : Option (PoolThread π ω)}
      (hnext : Working.Next s.pdt s.csm s.shouldStop (s.workers w) pc)
      (hm : pc.Locked ∧ m = some (.worker w) ∨ ¬ pc.Locked ∧ m = none) :
      Turned s w { s.goto w pc with pdtCsmMutex := m }
  | lockQueue (hpc : s.workers w = .lockQueue) (hfree : s.queCsmMutex = none) :
      Turned s w { s.goto w .flip with queCsmMutex := some (.worker w) }
  | flip (hpc : s.workers w = .flip) :
      Turned s w { s.goto w .unlockQueue with quePdtIdx := !s.quePdtIdx }
  | unlockQueue (hpc : s.workers w = .unlockQueue) :
      Turned s w { s.goto w .pop with queCsmMutex := none }
  | pop {task : τ} {rest : List τ} (hpc : s.workers w = .pop) (hfront : s.csm = task :: rest) :
      Turned s w { s.goto w (.unlock task) with
        taskQueues := Function.update s.taskQueues (!s.quePdtIdx) rest }
  | ran {task : τ} (hpc : s.workers w = .run task) : Turned s w (s.goto w .lock)

/-- A step that goes on under the mutex. -/
theorem Turned.under (hinv : s.Inv False) {pc : Working τ}
    (hnext : Working.Next s.pdt s.csm s.shouldStop (s.workers w) pc) (hw : (s.workers w).Locked)
    (hpc : pc.Locked) : s.Turned w (s.goto w pc) :=
  .next (m := s.pdtCsmMutex) hnext (.inl ⟨hpc, hinv.locked w hw⟩)

theorem turned [DecidableEq τ] (hinv : s.Inv False) (hpop : s.workers w = .pop → s.csm ≠ [])
    (hs : s.workerStep w = some s') : s.Turned w s' := by
  rw [workerStep] at hs
  split at hs
  · next hpc =>
    simp only [Option.ite_none_right_eq_some, Option.some.injEq] at hs
    rcases hs with ⟨-, rfl⟩
    exact .next (hpc ▸ .lock) (.inl ⟨trivial, rfl⟩)
  · next hpc =>
    cases hs
    split
    · next hstop => exact .under hinv (hpc ▸ .stopped hstop) (hpc ▸ trivial) trivial
    · next hstop =>
      exact .under hinv (hpc ▸ .unstopped (Bool.not_eq_true _ ▸ hstop)) (hpc ▸ trivial) trivial
  · next hpc =>
    cases hs
    split
    · next hpdt => exact .under hinv (hpc ▸ .pdtEmpty hpdt) (hpc ▸ trivial) trivial
    · next hpdt => exact .under hinv (hpc ▸ .pdtFilled hpdt) (hpc ▸ trivial) trivial
  · next hpc =>
    cases hs
    split
    · next hcsm => exact .under hinv (hpc ▸ .csmEmpty hcsm) (hpc ▸ trivial) trivial
    · next hcsm => exact .under hinv (hpc ▸ .csmFilled hcsm) (hpc ▸ trivial) trivial
  · next hpc =>
    cases hs
    exact .next (hpc ▸ .wait) (.inr ⟨id, rfl⟩)
  · cases hs
  · next hpc =>
    cases hs
    split
    · next hstop => exact .under hinv (hpc ▸ .exitStopped hstop) (hpc ▸ trivial) trivial
    · next hstop =>
      exact .under hinv (hpc ▸ .exitUnstopped (Bool.not_eq_true _ ▸ hstop)) (hpc ▸ trivial) trivial
  · next hpc =>
    cases hs
    split
    · next hpdt => exact .under hinv (hpc ▸ .exitPdtEmpty hpdt) (hpc ▸ trivial) trivial
    · next hpdt => exact .under hinv (hpc ▸ .exitPdtFilled hpdt) (hpc ▸ trivial) trivial
  · next hpc =>
    cases hs
    split
    · next hcsm => exact .under hinv (hpc ▸ .exitCsmEmpty hcsm) (hpc ▸ trivial) trivial
    · next hcsm => exact .under hinv (hpc ▸ .exitCsmFilled hcsm) (hpc ▸ trivial) trivial
  · next hpc =>
    cases hs
    exact .next (hpc ▸ .leave) (.inr ⟨id, rfl⟩)
  · next hpc =>
    cases hs
    split
    · next hcsm => exact .under hinv (hpc ▸ .queueEmpty hcsm) (hpc ▸ trivial) trivial
    · next hcsm => exact .under hinv (hpc ▸ .queueFilled hcsm) (hpc ▸ trivial) trivial
  · next hpc =>
    simp only [Option.ite_none_right_eq_some, Option.some.injEq] at hs
    rcases hs with ⟨hfree, rfl⟩
    exact .lockQueue hpc hfree
  · next hpc =>
    cases hs
    exact .flip hpc
  · next hpc =>
    cases hs
    exact .unlockQueue hpc
  · next hpc =>
    split at hs
    · next hcsm => exact absurd hcsm (hpop hpc)
    · next task rest hfront =>
      cases hs
      exact .pop hpc hfront
  · next hpc =>
    cases hs
    exact .next (hpc ▸ .unlock) (.inr ⟨id, rfl⟩)
  · next hpc =>
    cases hs
    exact .ran hpc
  · cases hs

variable [DecidableEq π]

/-- What a step of `AddTask` does. -/
inductive Produced (s : WakingPool π ω τ) (p : π) : WakingPool π ω τ → Prop where
  | test {task : τ} {pc : Adding τ} (hpc : s.producers p = .testStop task)
      (hpc' : pc = .idle ∨ pc = .lockQueue task) : Produced s p (s.produce p pc)
  | lock {task : τ} (hpc : s.producers p = .lockQueue task) (hfree : s.queCsmMutex = none) :
      Produced s p { s.produce p (.push task) with queCsmMutex := some (.producer p) }
  | push {task : τ} (hpc : s.producers p = .push task) :
      Produced s p { s.produce p .notify with
        taskQueues := Function.update s.taskQueues s.quePdtIdx (s.pdt ++ [task]) }
  | wake {w : ω} (hpc : s.producers p = .notify) (hw : s.workers w = .waiting) :
      Produced s p ((s.wake w).produce p .unlockQueue)
  | unheard (hpc : s.producers p = .notify) : Produced s p (s.produce p .unlockQueue)
  | unlock (hpc : s.producers p = .unlockQueue) :
      Produced s p { s.produce p .idle with queCsmMutex := none }

theorem produced [Fintype ω] [DecidableEq τ] {woken : Option ω} (hs : s.producerStep p woken = some s') :
    s.Produced p s' := by
  rw [producerStep] at hs
  split at hs
  · cases hs
  · next hpc =>
    cases hs
    refine .test hpc ?_
    split
    · exact .inl rfl
    · exact .inr rfl
  · next hpc =>
    simp only [Option.ite_none_right_eq_some, Option.some.injEq] at hs
    rcases hs with ⟨hfree, rfl⟩
    exact .lock hpc hfree
  · next hpc =>
    cases hs
    exact .push hpc
  · next hpc =>
    rcases Option.map_eq_some_iff.mp hs with ⟨s₁, hnotified, rfl⟩
    cases woken with
    | some w =>
      simp only [notifyOne, Option.ite_none_right_eq_some, Option.some.injEq] at hnotified
      rcases hnotified with ⟨hw, rfl⟩
      exact .wake hpc hw
    | none =>
      simp only [notifyOne, Option.ite_none_right_eq_some, Option.some.injEq] at hnotified
      rcases hnotified with ⟨-, rfl⟩
      exact .unheard hpc
  · next hpc =>
    cases hs
    exact .unlock hpc

end Steps

/-! ## Who holds the mutexes, and who waits -/

/-- The threads that may hold `pdt_csm_mutex_`. -/
def HoldsPdt (s : WakingPool π ω τ) : PoolThread π ω → Prop
  | .worker w => (s.workers w).Locked
  | .destructor => s.destructor.Locked
  | .producer _ => False

/-- The threads that may hold `que_csm_mutex_`. -/
def HoldsQue (s : WakingPool π ω τ) : PoolThread π ω → Prop
  | .worker w => (s.workers w).LockedQueue
  | .producer p => (s.producers p).Locked
  | .destructor => False

/-- A mutex that is taken is held by a thread that goes on; a worker that may be going to wait
has found `should_stop_` unset; and after `notify_all()` nobody waits. -/
structure Sane (s : WakingPool π ω τ) : Prop where
  holdsPdt : ∀ x, s.pdtCsmMutex = some x → s.HoldsPdt x
  holdsQue : ∀ x, s.queCsmMutex = some x → s.HoldsQue x
  stop : s.shouldStop = true ↔ s.destructor.phase ≠ .notStarted
  tests : ∀ w, (s.workers w).Tests → s.shouldStop = false
  woken : s.destructor.phase ≠ .notStarted → s.destructor ≠ .notifyAll →
    ∀ w, s.workers w ≠ .waiting
  joined : s.destructor = .joined → ∀ w, s.workers w = .returned

theorem sane_start : (start : WakingPool π ω τ).Sane where
  holdsPdt x h := by cases h
  holdsQue x h := by cases h
  stop := by simp [start, Destructing.phase]
  tests w h := h.elim
  woken h := absurd rfl h
  joined h := by cases h

/-- Behind the notification of all no worker waits. -/
theorem Sane.woken_of (h : s.Sane) {pc : Destructing} (hpc : s.destructor = pc)
    (hphase : pc.phase ≠ .notStarted) (hnot : pc ≠ .notifyAll) : s.workers w ≠ .waiting :=
  h.woken (hpc ▸ hphase) (hpc ▸ hnot) w

/-- A worker moves on, and a mutex is still held by a thread that is in its section. `P` is the
section of a worker, and `Holds` says who may hold the mutex. -/
theorem held_goto [DecidableEq ω] {pc : Working τ} (P : Working τ → Prop)
    {Holds : WakingPool π ω τ → PoolThread π ω → Prop} {m m' : Option (PoolThread π ω)}
    (hworkers : s'.workers = (s.goto w pc).workers)
    (hworker : ∀ s w, Holds s (.worker w) ↔ P (s.workers w))
    (hproducer : ∀ p, Holds s (.producer p) → Holds s' (.producer p))
    (hdestructor : Holds s .destructor → Holds s' .destructor)
    (hm : m' = none ∨ m' = some (.worker w) ∧ P pc ∨ m' = m ∧ (P (s.workers w) → P pc))
    (hheld : ∀ x, m = some x → Holds s x) : ∀ x, m' = some x → Holds s' x := by
  rintro x rfl
  rcases hm with hm | ⟨hm, hpc⟩ | ⟨hm, hpc⟩
  · cases hm
  · -- the worker has just locked the mutex
    cases hm
    rwa [hworker, hworkers, goto_workers]
  · have hx := hheld x hm.symm
    cases x with
    | producer p => exact hproducer p hx
    | destructor => exact hdestructor hx
    | worker w' =>
      rw [hworker] at hx ⊢
      rw [hworkers]
      by_cases hne : w' = w
      · rw [hne, goto_workers]
        exact hpc (hne ▸ hx)
      · rwa [goto_of_ne hne]

/-- A worker moves on. -/
theorem Sane.turn [DecidableEq ω] (h : s.Sane) {pc : Working τ} {m m' : Option (PoolThread π ω)}
    (queues : Bool → List τ) (idx : Bool) (hw : s.workers w ≠ .returned)
    (hm : m = none ∨ m = some (.worker w) ∧ pc.Locked ∨
      m = s.pdtCsmMutex ∧ ((s.workers w).Locked → pc.Locked))
    (hm' : m' = none ∨ m' = some (.worker w) ∧ pc.LockedQueue ∨
      m' = s.queCsmMutex ∧ ((s.workers w).LockedQueue → pc.LockedQueue))
    (htests : pc.Tests ∨ pc = .waiting → s.shouldStop = false) :
    Sane { s.goto w pc with
      pdtCsmMutex := m, queCsmMutex := m', taskQueues := queues, quePdtIdx := idx } := by
  refine ⟨?_, ?_, h.stop, ?_, ?_, fun hjoined => absurd (h.joined hjoined w) hw⟩
  · exact held_goto Working.Locked rfl (fun _ _ => Iff.rfl) (fun _ => id) id hm h.holdsPdt
  · exact held_goto Working.LockedQueue rfl (fun _ _ => Iff.rfl) (fun _ => id) id hm' h.holdsQue
  · intro w' hw'
    change ((s.goto w pc).workers w').Tests at hw'
    by_cases hne : w' = w
    · rw [hne, goto_workers] at hw'
      exact htests (.inl hw')
    · rw [goto_of_ne hne] at hw'
      exact h.tests w' hw'
  · intro hphase hnotify w' hw'
    change (s.goto w pc).workers w' = .waiting at hw'
    by_cases hne : w' = w
    · rw [hne, goto_workers] at hw'
      exact Bool.false_ne_true ((htests (.inr hw')).symm.trans (h.stop.mpr hphase))
    · rw [goto_of_ne hne] at hw'
      exact h.woken hphase hnotify w' hw'

theorem Sane.wake [DecidableEq ω] (h : s.Sane) (hw : s.workers w = .waiting) :
    (s.wake w).Sane := by
  show Sane { s.goto w .lock with
    pdtCsmMutex := s.pdtCsmMutex, queCsmMutex := s.queCsmMutex, taskQueues := s.taskQueues,
    quePdtIdx := s.quePdtIdx }
  exact h.turn s.taskQueues s.quePdtIdx (hw ▸ nofun) (.inr (.inr ⟨rfl, hw ▸ False.elim⟩))
    (.inr (.inr ⟨rfl, hw ▸ False.elim⟩)) (fun hpc => hpc.elim False.elim nofun)

theorem Sane.turned [DecidableEq ω] (h : s.Sane) (hturned : s.Turned w s') : s'.Sane := by
  cases hturned with
  | @next pc m hnext hm =>
    refine h.turn s.taskQueues s.quePdtIdx ?_ ?_ ?_ ?_
    · intro hpc
      rw [hpc] at hnext
      cases hnext
    · rcases hm with ⟨hpc, hm⟩ | ⟨-, hm⟩
      · exact .inr (.inl ⟨hm, hpc⟩)
      · exact .inl hm
    · refine .inr (.inr ⟨rfl, fun hlocked => ?_⟩)
      generalize s.workers w = pc₀ at hnext hlocked
      cases hnext <;> exact hlocked.elim
    · intro hpc
      have htests := h.tests w
      generalize s.workers w = pc₀ at hnext htests
      cases hnext with
      | unstopped hstop => exact hstop
      | pdtEmpty | csmEmpty | wait => exact htests trivial
      | _ => exact hpc.elim False.elim nofun
  | lockQueue hpc hfree =>
    exact h.turn s.taskQueues s.quePdtIdx (hpc ▸ nofun) (.inr (.inr ⟨rfl, fun _ => trivial⟩))
      (.inr (.inl ⟨rfl, trivial⟩)) (fun hpc => hpc.elim False.elim nofun)
  | flip hpc =>
    exact h.turn s.taskQueues _ (hpc ▸ nofun) (.inr (.inr ⟨rfl, fun _ => trivial⟩))
      (.inr (.inr ⟨rfl, fun _ => trivial⟩)) (fun hpc => hpc.elim False.elim nofun)
  | unlockQueue hpc =>
    exact h.turn s.taskQueues s.quePdtIdx (hpc ▸ nofun) (.inr (.inr ⟨rfl, fun _ => trivial⟩))
      (.inl rfl) (fun hpc => hpc.elim False.elim nofun)
  | pop hpc hfront =>
    exact h.turn _ s.quePdtIdx (hpc ▸ nofun) (.inr (.inr ⟨rfl, fun _ => trivial⟩))
      (.inr (.inr ⟨rfl, hpc ▸ False.elim⟩)) (fun hpc => hpc.elim False.elim nofun)
  | ran hpc =>
    exact h.turn s.taskQueues s.quePdtIdx (hpc ▸ nofun) (.inr (.inr ⟨rfl, hpc ▸ False.elim⟩))
      (.inr (.inr ⟨rfl, hpc ▸ False.elim⟩)) (fun hpc => hpc.elim False.elim nofun)

/-- A call of `AddTask` moves on. -/
theorem Sane.produce [DecidableEq π] (h : s.Sane) {pc : Adding τ} {m : Option (PoolThread π ω)}
    (queues : Bool → List τ)
    (hm : m = none ∨ m = some (.producer p) ∧ pc.Locked ∨
      m = s.queCsmMutex ∧ ((s.producers p).Locked → pc.Locked)) :
    Sane { s.produce p pc with queCsmMutex := m, taskQueues := queues } := by
  refine ⟨h.holdsPdt, ?_, h.stop, h.tests, h.woken, h.joined⟩
  rintro x rfl
  rcases hm with hm | ⟨hm, hpc⟩ | ⟨hm, hpc⟩
  · cases hm
  · cases hm
    show (Function.update s.producers p pc p).Locked
    rwa [Function.update_self]
  · have hx := h.holdsQue x hm.symm
    cases x with
    | worker w => exact hx
    | destructor => exact hx
    | producer p' =>
      show (Function.update s.producers p pc p').Locked
      by_cases hne : p' = p
      · rw [hne, Function.update_self]
        exact hpc (hne ▸ hx)
      · rw [Function.update_of_ne hne]
        exact hx

theorem Sane.produced [DecidableEq π] [DecidableEq ω] (h : s.Sane) (hproduced : s.Produced p s') :
    s'.Sane := by
  cases hproduced with
  | test hpc _ => exact h.produce s.taskQueues (.inr (.inr ⟨rfl, hpc ▸ False.elim⟩))
  | lock hpc hfree => exact h.produce s.taskQueues (.inr (.inl ⟨rfl, trivial⟩))
  | push hpc => exact h.produce _ (.inr (.inr ⟨rfl, fun _ => trivial⟩))
  | wake hpc hw => exact (h.wake hw).produce s.taskQueues (.inr (.inr ⟨rfl, fun _ => trivial⟩))
  | unheard hpc => exact h.produce s.taskQueues (.inr (.inr ⟨rfl, fun _ => trivial⟩))
  | unlock hpc => exact h.produce s.taskQueues (.inl rfl)

/-- `wakeAll` only sets workers on that wait. -/
theorem wakeAll_workers [DecidableEq τ] (s : WakingPool π ω τ) (w : ω) :
    s.workers w = .waiting ∧ s.wakeAll.workers w = .lock ∨
      s.workers w ≠ .waiting ∧ s.wakeAll.workers w = s.workers w := by
  by_cases hw : s.workers w = .waiting
  · exact .inl ⟨hw, if_pos hw⟩
  · exact .inr ⟨hw, if_neg hw⟩

theorem Sane.wakeAll [DecidableEq τ] (h : s.Sane) (hpc : s.destructor = .notifyAll) :
    Sane { s.wakeAll with destructor := .unlock } where
  holdsPdt x hx := by
    have hheld := h.holdsPdt x hx
    cases x with
    | producer p => exact hheld
    | destructor => trivial
    | worker w =>
      show (s.wakeAll.workers w).Locked
      rcases wakeAll_workers s w with ⟨hw, -⟩ | ⟨-, hsame⟩
      · exact (hw ▸ hheld : (Working.waiting : Working τ).Locked).elim
      · exact hsame ▸ hheld
  holdsQue x hx := by
    have hheld := h.holdsQue x hx
    cases x with
    | producer p => exact hheld
    | destructor => exact hheld
    | worker w =>
      show (s.wakeAll.workers w).LockedQueue
      rcases wakeAll_workers s w with ⟨hw, -⟩ | ⟨-, hsame⟩
      · exact (hw ▸ hheld : (Working.waiting : Working τ).LockedQueue).elim
      · exact hsame ▸ hheld
  stop := by
    refine h.stop.trans ?_
    rw [hpc]
    exact Iff.rfl
  tests w hw := by
    change (s.wakeAll.workers w).Tests at hw
    rcases wakeAll_workers s w with ⟨-, hlock⟩ | ⟨-, hsame⟩
    · rw [hlock] at hw
      exact hw.elim
    · exact h.tests w (hsame ▸ hw)
  woken _ _ w hw := by
    change s.wakeAll.workers w = .waiting at hw
    rcases wakeAll_workers s w with ⟨-, hlock⟩ | ⟨hnot, hsame⟩
    · cases hlock.symm.trans hw
    · exact hnot (hsame.symm.trans hw)
  joined hjoined := by cases hjoined

theorem Sane.destructorStep [Fintype ω] [DecidableEq τ] (h : s.Sane)
    (hinv : s.Inv False) (hs : s.destructorStep = some s') : s'.Sane := by
  rw [WakingPool.destructorStep] at hs
  split at hs
  · next hpc =>
    cases hs
    refine ⟨?_, h.holdsQue, h.stop.trans (by rw [hpc]; exact Iff.rfl), h.tests,
      fun hphase => absurd rfl hphase, fun hjoined => (by cases hjoined)⟩
    intro x hx
    have hheld := h.holdsPdt x hx
    cases x with
    | worker w => exact hheld
    | producer p => exact hheld
    | destructor => exact (hpc ▸ hheld : Destructing.idle.Locked).elim
  · next hpc =>
    simp only [Option.ite_none_right_eq_some, Option.some.injEq] at hs
    rcases hs with ⟨hfree, rfl⟩
    refine ⟨?_, h.holdsQue, h.stop.trans (by rw [hpc]; exact Iff.rfl), h.tests,
      fun hphase => absurd rfl hphase, fun hjoined => (by cases hjoined)⟩
    rintro x ⟨⟩
    trivial
  · next hpc =>
    -- no worker tests, as the mutex is held here
    cases hs
    have hheld := hinv.destructor (hpc ▸ trivial)
    refine ⟨?_, h.holdsQue, by simp [Destructing.phase], ?_, fun _ hnot => absurd rfl hnot,
      fun hjoined => (by cases hjoined)⟩
    · intro x hx
      cases hheld.symm.trans hx
      trivial
    · intro w hw
      have hlocked : (s.workers w).Locked := by
        change (s.workers w).Tests at hw
        generalize s.workers w = pc at hw
        cases pc <;> first | exact hw.elim | trivial
      cases hheld.symm.trans (hinv.locked w hlocked)
  · next hpc =>
    cases hs
    exact h.wakeAll hpc
  · next hpc =>
    cases hs
    refine ⟨fun x hx => (by cases hx), h.holdsQue, h.stop.trans (by rw [hpc]; exact Iff.rfl),
      h.tests, fun _ _ w => h.woken_of hpc (by decide) (by decide), fun hjoined => (by cases hjoined)⟩
  · next hpc =>
    simp only [Option.ite_none_right_eq_some, Option.some.injEq] at hs
    rcases hs with ⟨hall, rfl⟩
    refine ⟨?_, h.holdsQue, h.stop.trans (by simp [hpc, Destructing.phase]), h.tests,
      fun _ _ w => h.woken_of hpc (by decide) (by decide), fun _ => hall⟩
    intro x hx
    have hheld := h.holdsPdt x hx
    cases x with
    | worker w => exact hheld
    | producer p => exact hheld
    | destructor => exact (hpc ▸ hheld : Destructing.join.Locked).elim
  · cases hs

section Reachable

variable [Fintype ω] [DecidableEq π] [DecidableEq ω] [DecidableEq τ]

/-- A worker that is going to take a task out of a queue finds one there. -/
theorem csm_ne_nil (h : machine.Reachable (fun _ _ => True) s) (hpc : s.workers w = .pop) :
    s.csm ≠ [] := by
  obtain ⟨t, -, href⟩ := exists_refined h
  have hknows := href.knows w
  rw [hpc] at hknows
  exact hknows

/-- What a worker does in a state that is reached. -/
theorem turned_of_reachable (h : machine.Reachable (fun _ _ => True) s)
    (hs : s.workerStep w = some s') : s.Turned w s' :=
  turned (inv False.elim h) (csm_ne_nil h) hs

theorem sane (h : machine.Reachable (fun _ _ => True) s) : s.Sane := by
  refine h.invariant ?_ ?_
  · rintro _ rfl
    exact sane_start
  · intro s l s' hreach hsane _ hs
    cases l with
    | addTask p task =>
      simp only [machine, WakingPool.step, Option.ite_none_right_eq_some, Option.some.injEq] at hs
      rcases hs with ⟨hidle, rfl⟩
      exact hsane.produce s.taskQueues (.inr (.inr ⟨rfl, hidle ▸ False.elim⟩))
    | producer p woken => exact hsane.produced (produced hs)
    | worker w => exact hsane.turned (turned_of_reachable hreach hs)
    | spurious w =>
      simp only [machine, WakingPool.step, Option.ite_none_right_eq_some, Option.some.injEq] at hs
      rcases hs with ⟨hw, rfl⟩
      exact hsane.wake hw
    | destructor => exact hsane.destructorStep (inv False.elim hreach) hs

end Reachable

end WakingPool

end Taotu
