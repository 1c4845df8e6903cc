import Mathlib.Data.Fintype.EquivFin
import Taotu.Lib.Machine

/-!
# Taotu.Threads.Waking — how workers are woken (`thread_pool.h`, `thread_pool.cc`)

A worker evaluates the predicate of its wait under `pdt_csm_mutex_`; `AddTask` pushes and
notifies under `que_csm_mutex_`. So the notification may come when a worker has found the
queues empty and does not wait yet, and is lost.

1. **Model layer.** The pool of `Taotu.Threads.ThreadPool` in small steps: every lock and
   unlock, every test, the push, the notifications and the wait. A wait may end for no
   reason.
2. **Safety.** While there is a task, some `AddTask` is about to notify or some worker is
   about to look (`Attended`). Since one worker at a time holds the mutex, two workers
   cannot both miss a notification. So a notification is lost only by a pool with one
   worker (`single_worker_sleeps_on_task`), or with none; `Heard` excludes that, and then no
   task is slept on (`no_sleep_on_tasks`).
-/

namespace Taotu

open Lib

/-- What a call of `AddTask` does next. -/
inductive Adding (τ : Type) where
  | idle
  | testStop (task : τ)
  | lockQueue (task : τ)
  | push (task : τ)
  | notify
  | unlockQueue
deriving DecidableEq, Repr

/-- What a worker does next. -/
inductive Working (τ : Type) where
  | lock
  /-- The predicate of the wait. -/
  | testStop
  | testPdt
  | testCsm
  | wait
  | waiting
  /-- The test behind the wait. -/
  | exitStop
  | exitPdt
  | exitCsm
  | leave
  | testQueue
  | lockQueue
  | flip
  | unlockQueue
  | pop
  | unlock (task : τ)
  | run (task : τ)
  | returned
deriving DecidableEq, Repr

namespace Working

variable {τ : Type}

/-- It has found the queue of the producers empty and is going to wait; `csm` is the queue
of the consumers. -/
def Misses (csm : List τ) : Working τ → Prop
  | wait => True
  | testCsm => csm = []
  | _ => False

/-- It is going to look at the queues, or has seen a task. -/
def Looks (csm : List τ) : Working τ → Prop
  | waiting | returned | wait => False
  | testCsm => csm ≠ []
  | _ => True

/-- It holds `pdt_csm_mutex_`. -/
def Locked : Working τ → Prop
  | lock | waiting | run _ | returned => False
  | _ => True

/-- It has found `should_stop_` set, behind its wait. -/
def Stopped : Working τ → Prop
  | exitPdt | exitCsm | leave | returned => True
  | _ => False

theorem looks_or_misses (csm : List τ) (pc : Working τ) :
    pc.Looks csm ∨ pc.Misses csm ∨ pc = .waiting ∨ pc = .returned := by
  cases pc with
  | testCsm => exact (Classical.em (csm = [])).symm.imp id .inl
  | wait => exact .inr (.inl trivial)
  | waiting => exact .inr (.inr (.inl rfl))
  | returned => exact .inr (.inr (.inr rfl))
  | _ => exact .inl trivial

theorem Misses.locked {csm : List τ} {pc : Working τ} (h : pc.Misses csm) : pc.Locked := by
  cases pc with
  | testCsm => trivial
  | wait => trivial
  | _ => exact h.elim

instance [DecidableEq τ] (csm : List τ) : (pc : Working τ) → Decidable (pc.Misses csm)
  | wait => inferInstanceAs (Decidable True)
  | testCsm => inferInstanceAs (Decidable (csm = []))
  | lock | testStop | testPdt | waiting | exitStop | exitPdt | exitCsm | leave | testQueue
  | lockQueue | flip | unlockQueue | pop | unlock _ | run _ | returned =>
    inferInstanceAs (Decidable False)

end Working

/-- What `~ThreadPool` does next. -/
inductive Destructing where
  | idle
  | lock
  | stop
  | notifyAll
  | unlock
  | join
  | joined
deriving DecidableEq, Repr

/-- It holds `pdt_csm_mutex_`. -/
def Destructing.Locked : Destructing → Prop
  | stop | notifyAll | unlock => True
  | idle | lock | join | joined => False

/-- Who holds a mutex. -/
inductive PoolThread (π ω : Type) where
  | producer (p : π)
  | worker (w : ω)
  | destructor
deriving DecidableEq, Repr

/-- `fault` is set if `front()` is called on an empty queue. -/
structure WakingPool (π ω τ : Type) where
  taskQueues : Bool → List τ
  quePdtIdx : Bool
  shouldStop : Bool
  pdtCsmMutex : Option (PoolThread π ω)
  queCsmMutex : Option (PoolThread π ω)
  producers : π → Adding τ
  workers : ω → Working τ
  destructor : Destructing
  fault : Bool

namespace WakingPool

/-! ## Model layer -/

variable {π ω τ : Type}

/-- The queue of the producers. -/
def pdt (s : WakingPool π ω τ) : List τ := s.taskQueues s.quePdtIdx

/-- The queue of the consumers. -/
def csm (s : WakingPool π ω τ) : List τ := s.taskQueues (!s.quePdtIdx)

section Model

variable [DecidableEq π] [DecidableEq ω] [DecidableEq τ]

def produce (s : WakingPool π ω τ) (p : π) (pc : Adding τ) : WakingPool π ω τ :=
  { s with producers := Function.update s.producers p pc }

def goto (s : WakingPool π ω τ) (w : ω) (pc : Working τ) : WakingPool π ω τ :=
  { s with workers := Function.update s.workers w pc }

/-- A worker that is woken locks the mutex and evaluates the predicate again. -/
def wake (s : WakingPool π ω τ) (w : ω) : WakingPool π ω τ := s.goto w .lock

def wakeAll (s : WakingPool π ω τ) : WakingPool π ω τ :=
  { s with workers := fun w => if s.workers w = .waiting then .lock else s.workers w }

/-- `notify_one()`: if workers are waiting, one of them is woken. -/
def notifyOne [Fintype ω] (s : WakingPool π ω τ) : Option ω → Option (WakingPool π ω τ)
  | some w => if s.workers w = .waiting then some (s.wake w) else none
  | none => if ∀ w, s.workers w ≠ .waiting then some s else none

/-- One step of `AddTask`; a notification wakes the worker `woken`. -/
def producerStep [Fintype ω] (s : WakingPool π ω τ) (p : π) (woken : Option ω) :
    Option (WakingPool π ω τ) :=
  match s.producers p with
  | .idle => none
  | .testStop task => some (s.produce p (if s.shouldStop then .idle else .lockQueue task))
  | .lockQueue task =>
    if s.queCsmMutex = none then
      some { s.produce p (.push task) with queCsmMutex := some (.producer p) }
    else none
  | .push task =>
    some { s.produce p .notify with
      taskQueues := Function.update s.taskQueues s.quePdtIdx (s.pdt ++ [task]) }
  | .notify => (s.notifyOne woken).map fun s => s.produce p .unlockQueue
  | .unlockQueue => some { s.produce p .idle with queCsmMutex := none }

/-- One step of the loop of a worker. -/
def workerStep (s : WakingPool π ω τ) (w : ω) : Option (WakingPool π ω τ) :=
  match s.workers w with
  | .lock =>
    if s.pdtCsmMutex = none then
      some { s.goto w .testStop with pdtCsmMutex := some (.worker w) }
    else none
  | .testStop => some (s.goto w (if s.shouldStop then .exitStop else .testPdt))
  | .testPdt => some (s.goto w (if s.pdt = [] then .testCsm else .exitStop))
  | .testCsm => some (s.goto w (if s.csm = [] then .wait else .exitStop))
  | .wait => some { s.goto w .waiting with pdtCsmMutex := none }
  | .waiting => none
  | .exitStop => some (s.goto w (if s.shouldStop then .exitPdt else .testQueue))
  | .exitPdt => some (s.goto w (if s.pdt = [] then .exitCsm else .testQueue))
  | .exitCsm => some (s.goto w (if s.csm = [] then .leave else .testQueue))
  | .leave => some { s.goto w .returned with pdtCsmMutex := none }
  | .testQueue => some (s.goto w (if s.csm = [] then .lockQueue else .pop))
  | .lockQueue =>
    if s.queCsmMutex = none then
      some { s.goto w .flip with queCsmMutex := some (.worker w) }
    else none
  | .flip => some { s.goto w .unlockQueue with quePdtIdx := !s.quePdtIdx }
  | .unlockQueue => some { s.goto w .pop with queCsmMutex := none }
  | .pop =>
    match s.csm with
    | [] => some { s with fault := true }
    | task :: rest =>
      some { s.goto w (.unlock task) with
        taskQueues := Function.update s.taskQueues (!s.quePdtIdx) rest }
  | .unlock task => some { s.goto w (.run task) with pdtCsmMutex := none }
  | .run _ => some (s.goto w .lock)
  | .returned => none

/-- One step of `~ThreadPool`. -/
def destructorStep [Fintype ω] (s : WakingPool π ω τ) : Option (WakingPool π ω τ) :=
  match s.destructor with
  | .idle => some { s with destructor := .lock }
  | .lock =>
    if s.pdtCsmMutex = none then
      some { s with destructor := .stop, pdtCsmMutex := some .destructor }
    else none
  | .stop => some { s with destructor := .notifyAll, shouldStop := true }
  | .notifyAll => some { s.wakeAll with destructor := .unlock }
  | .unlock => some { s with destructor := .join, pdtCsmMutex := none }
  | .join => if ∀ w, s.workers w = .returned then some { s with destructor := .joined } else none
  | .joined => none

inductive Label (π ω τ : Type) where
  | addTask (p : π) (task : τ)
  | producer (p : π) (woken : Option ω)
  | worker (w : ω)
  | spurious (w : ω)
  | destructor
deriving DecidableEq, Repr

def step [Fintype ω] (s : WakingPool π ω τ) : Label π ω τ → Option (WakingPool π ω τ)
  | .addTask p task =>
    if s.producers p = .idle then some (s.produce p (.testStop task)) else none
  | .producer p woken => s.producerStep p woken
  | .worker w => s.workerStep w
  | .spurious w => if s.workers w = .waiting then some (s.wake w) else none
  | .destructor => s.destructorStep

def start : WakingPool π ω τ :=
  { taskQueues := fun _ => [], quePdtIdx := false, shouldStop := false
    pdtCsmMutex := none, queCsmMutex := none
    producers := fun _ => .idle, workers := fun _ => .lock, destructor := .idle, fault := false }

def machine [Fintype ω] : Machine (WakingPool π ω τ) (Label π ω τ) := ⟨fun s => s = start, step⟩

end Model

/-- A notification is heard, because there are other workers or because the one that there
is does not miss it. -/
def Heard [Fintype ω] (s : WakingPool π ω τ) : Label π ω τ → Prop
  | .producer p _ => s.producers p = .notify →
      2 ≤ Fintype.card ω ∨ 1 ≤ Fintype.card ω ∧ ∀ w, ¬ (s.workers w).Misses s.csm
  | _ => True

instance [Fintype ω] [DecidableEq τ] (s : WakingPool π ω τ) : ∀ l, Decidable (s.Heard l)
  | .producer _ _ => inferInstanceAs (Decidable (_ → _))
  | .addTask _ _ | .worker _ | .spurious _ | .destructor => inferInstanceAs (Decidable True)

/-! ## Somebody looks -/

variable {s s' : WakingPool π ω τ} {p : π} {w : ω} {heard : Prop}

/-- Both queues are empty. -/
def Empty (s : WakingPool π ω τ) : Prop := s.pdt = [] ∧ s.csm = []

/-- While there is a task, an `AddTask` is about to notify or a worker looks. -/
def Attended (s : WakingPool π ω τ) : Prop :=
  s.Empty ∨ s.shouldStop = true ∨ (∃ p, s.producers p = .notify) ∨
    ∃ w, (s.workers w).Looks s.csm

/-- The mutexes are held by those who should; and if every notification was `heard`, the
tasks are attended. -/
structure Inv (s : WakingPool π ω τ) (heard : Prop) : Prop where
  locked : ∀ w, (s.workers w).Locked → s.pdtCsmMutex = some (.worker w)
  destructor : s.destructor.Locked → s.pdtCsmMutex = some .destructor
  stopped : ∀ w, (s.workers w).Stopped → s.shouldStop = true
  attended : heard → s.Attended

theorem inv_start : (start : WakingPool π ω τ).Inv heard :=
  ⟨nofun, nofun, nofun, fun _ => .inl ⟨rfl, rfl⟩⟩

/-- A mutex that nobody holds may be taken, and one that nobody relies on be given back. -/
theorem Inv.mutex (h : s.Inv heard) (hworkers : ∀ w, ¬ (s.workers w).Locked)
    (hdestructor : ¬ s.destructor.Locked) (m : Option (PoolThread π ω)) :
    Inv { s with pdtCsmMutex := m } heard :=
  ⟨fun w hw => absurd hw (hworkers w), fun hd => absurd hd hdestructor, h.stopped, h.attended⟩

theorem Inv.not_locked (h : s.Inv heard) (hfree : s.pdtCsmMutex = none) :
    (∀ w, ¬ (s.workers w).Locked) ∧ ¬ s.destructor.Locked := by
  constructor
  · intro w hw
    cases hfree.symm.trans (h.locked w hw)
  · intro hd
    cases hfree.symm.trans (h.destructor hd)

/-- The queues may change while a worker looks on. -/
theorem Inv.queues (h : s.Inv heard) (taskQueues : Bool → List τ) (quePdtIdx : Bool)
    (hlooks : ∃ w, ∀ csm, (s.workers w).Looks csm) :
    Inv { s with taskQueues := taskQueues, quePdtIdx := quePdtIdx } heard :=
  ⟨h.locked, h.destructor, h.stopped, fun _ => .inr (.inr (.inr (hlooks.imp fun _ hw => hw _)))⟩

/-- The invariant does not ask who holds `que_csm_mutex_`. -/
theorem Inv.queMutex (h : s.Inv heard) (m : Option (PoolThread π ω)) :
    Inv { s with queCsmMutex := m } heard :=
  ⟨h.locked, h.destructor, h.stopped, h.attended⟩

theorem Inv.wakeAll [DecidableEq τ] (h : s.Inv heard) : s.wakeAll.Inv heard := by
  have hsame : ∀ w, s.wakeAll.workers w = .lock ∨ s.wakeAll.workers w = s.workers w := by
    intro w
    by_cases hw : s.workers w = .waiting
    · exact .inl (if_pos hw)
    · exact .inr (if_neg hw)
  refine ⟨?_, h.destructor, ?_, ?_⟩
  · intro w hw
    rcases hsame w with heq | heq <;> rw [heq] at hw
    · exact hw.elim
    · exact h.locked w hw
  · intro w hw
    rcases hsame w with heq | heq <;> rw [heq] at hw
    · exact hw.elim
    · exact h.stopped w hw
  · intro hheard
    rcases h.attended hheard with hempty | hstop | hnotify | ⟨w, hw⟩
    · exact .inl hempty
    · exact .inr (.inl hstop)
    · exact .inr (.inr (.inl hnotify))
    · refine .inr (.inr (.inr ⟨w, ?_⟩))
      rcases hsame w with heq | heq <;> rw [heq]
      · trivial
      · exact hw

section Workers

variable [DecidableEq ω]

theorem goto_workers (s : WakingPool π ω τ) (w : ω) (pc : Working τ) :
    (s.goto w pc).workers w = pc :=
  Function.update_self ..

theorem goto_of_ne {w' : ω} (hne : w' ≠ w) (pc : Working τ) :
    (s.goto w pc).workers w' = s.workers w' :=
  Function.update_of_ne hne ..

/-- A worker moves on, and goes on looking while there is a task. -/
theorem Inv.goto (h : s.Inv heard) (pc : Working τ)
    (hlocked : pc.Locked → s.pdtCsmMutex = some (.worker w))
    (hstopped : pc.Stopped → s.shouldStop = true)
    (hlooks : (s.workers w).Looks s.csm → pc.Looks s.csm ∨ s.Empty ∨ s.shouldStop = true) :
    (s.goto w pc).Inv heard := by
  refine ⟨?_, h.destructor, ?_, ?_⟩
  · intro w' hw'
    by_cases hw : w' = w
    · subst hw
      rw [goto_workers] at hw'
      exact hlocked hw'
    · rw [goto_of_ne hw] at hw'
      exact h.locked w' hw'
  · intro w' hw'
    by_cases hw : w' = w
    · subst hw
      rw [goto_workers] at hw'
      exact hstopped hw'
    · rw [goto_of_ne hw] at hw'
      exact h.stopped w' hw'
  · intro hheard
    rcases h.attended hheard with hempty | hstop | hnotify | ⟨w', hw'⟩
    · exact .inl hempty
    · exact .inr (.inl hstop)
    · exact .inr (.inr (.inl hnotify))
    · by_cases hw : w' = w
      · subst hw
        rcases hlooks hw' with hlook | hempty | hstop
        · exact .inr (.inr (.inr ⟨w', by rw [goto_workers]; exact hlook⟩))
        · exact .inl hempty
        · exact .inr (.inl hstop)
      · exact .inr (.inr (.inr ⟨w', by rw [goto_of_ne hw]; exact hw'⟩))

/-- A worker that has the mutex gives it back. -/
theorem Inv.unlock (h : s.Inv heard) (hlocked : (s.workers w).Locked) (pc : Working τ)
    (hpc : ¬ pc.Locked) (hstopped : pc.Stopped → s.shouldStop = true)
    (hlooks : (s.workers w).Looks s.csm → pc.Looks s.csm ∨ s.Empty ∨ s.shouldStop = true) :
    Inv { s.goto w pc with pdtCsmMutex := none } heard := by
  have hmoved : (s.goto w pc).Inv heard := h.goto pc (fun hl => absurd hl hpc) hstopped hlooks
  have hheld := h.locked w hlocked
  refine hmoved.mutex ?_ ?_ none
  · intro w' hw'
    by_cases hw : w' = w
    · subst hw
      rw [goto_workers] at hw'
      exact hpc hw'
    · -- two workers would hold the mutex
      rw [goto_of_ne hw] at hw'
      cases hheld.symm.trans (h.locked w' hw')
      exact hw rfl
  · intro hd
    cases hheld.symm.trans (h.destructor hd)

/-- A worker that holds the mutex goes on with it, and looks. -/
theorem Inv.goes_on (h : s.Inv heard) (hlocked : (s.workers w).Locked) (pc : Working τ)
    (hlooks : ∀ csm, pc.Looks csm) (hstopped : pc.Stopped → s.shouldStop = true) :
    (s.goto w pc).Inv heard :=
  h.goto pc (fun _ => h.locked w hlocked) hstopped fun _ => .inl (hlooks _)

theorem Inv.workerStep [DecidableEq τ] (h : s.Inv heard) (hs : s.workerStep w = some s') :
    s'.Inv heard := by
  rw [WakingPool.workerStep] at hs
  split at hs
  · next hpc =>
    -- lock
    simp only [Option.ite_none_right_eq_some, Option.some.injEq] at hs
    rcases hs with ⟨hfree, rfl⟩
    have hfree := h.not_locked hfree
    exact (h.mutex hfree.1 hfree.2 (some (.worker w))).goto .testStop (fun _ => rfl) nofun
      fun _ => .inl trivial
  · next hpc =>
    cases hs
    split
    · exact h.goes_on (hpc ▸ trivial) _ (fun _ => trivial) nofun
    · exact h.goes_on (hpc ▸ trivial) _ (fun _ => trivial) nofun
  · next hpc =>
    -- the queue of the consumers is not looked at yet
    cases hs
    split
    · next hpdt =>
      refine h.goto _ (fun _ => h.locked w (hpc ▸ trivial)) nofun fun _ => ?_
      by_cases hcsm : s.csm = []
      · exact .inr (.inl ⟨hpdt, hcsm⟩)
      · exact .inl hcsm
    · exact h.goes_on (hpc ▸ trivial) _ (fun _ => trivial) nofun
  · next hpc =>
    cases hs
    split
    · next hcsm =>
      refine h.goto _ (fun _ => h.locked w (hpc ▸ trivial)) nofun fun hlooks => ?_
      rw [hpc] at hlooks
      exact absurd hcsm hlooks
    · exact h.goes_on (hpc ▸ trivial) _ (fun _ => trivial) nofun
  · next hpc =>
    cases hs
    refine h.unlock (hpc ▸ trivial) _ id nofun fun hlooks => ?_
    rw [hpc] at hlooks
    exact hlooks.elim
  · cases hs
  · next hpc =>
    cases hs
    split
    · next hstop => exact h.goes_on (hpc ▸ trivial) _ (fun _ => trivial) fun _ => hstop
    · exact h.goes_on (hpc ▸ trivial) _ (fun _ => trivial) nofun
  · next hpc =>
    cases hs
    split
    · exact h.goes_on (hpc ▸ trivial) _ (fun _ => trivial) fun _ => h.stopped w (hpc ▸ trivial)
    · exact h.goes_on (hpc ▸ trivial) _ (fun _ => trivial) nofun
  · next hpc =>
    cases hs
    split
    · exact h.goes_on (hpc ▸ trivial) _ (fun _ => trivial) fun _ => h.stopped w (hpc ▸ trivial)
    · exact h.goes_on (hpc ▸ trivial) _ (fun _ => trivial) nofun
  · next hpc =>
    cases hs
    exact h.unlock (hpc ▸ trivial) _ id (fun _ => h.stopped w (hpc ▸ trivial)) fun _ =>
      .inr (.inr (h.stopped w (hpc ▸ trivial)))
  · next hpc =>
    cases hs
    split
    · exact h.goes_on (hpc ▸ trivial) _ (fun _ => trivial) nofun
    · exact h.goes_on (hpc ▸ trivial) _ (fun _ => trivial) nofun
  · next hpc =>
    simp only [Option.ite_none_right_eq_some, Option.some.injEq] at hs
    rcases hs with ⟨-, rfl⟩
    have hmoved : (s.goto w .flip).Inv heard := h.goes_on (hpc ▸ trivial) _ (fun _ => trivial) nofun
    exact hmoved.queMutex _
  · next hpc =>
    cases hs
    have hmoved : (s.goto w .unlockQueue).Inv heard :=
      h.goes_on (hpc ▸ trivial) _ (fun _ => trivial) nofun
    refine hmoved.queues s.taskQueues (!s.quePdtIdx) ⟨w, ?_⟩
    rw [goto_workers]
    exact fun _ => trivial
  · next hpc =>
    cases hs
    have hmoved : (s.goto w .pop).Inv heard := h.goes_on (hpc ▸ trivial) _ (fun _ => trivial) nofun
    exact hmoved.queMutex none
  · next hpc =>
    split at hs
    · cases hs
      exact ⟨h.locked, h.destructor, h.stopped, h.attended⟩
    · next task rest _ =>
      cases hs
      have hmoved : (s.goto w (.unlock task)).Inv heard :=
        h.goes_on (hpc ▸ trivial) _ (fun _ => trivial) nofun
      refine hmoved.queues _ s.quePdtIdx ⟨w, ?_⟩
      rw [goto_workers]
      exact fun _ => trivial
  · next hpc =>
    cases hs
    exact h.unlock (hpc ▸ trivial) _ id nofun fun _ => .inl trivial
  · next hpc =>
    cases hs
    exact h.goto _ nofun nofun fun _ => .inl trivial
  · cases hs

/-- A worker that is woken looks. -/
theorem Inv.wake (h : s.Inv heard) (w : ω) : (s.wake w).Inv heard :=
  h.goto .lock nofun nofun fun _ => .inl trivial

end Workers

/-- When a notification wakes nobody, somebody looks all the same. -/
theorem Inv.somebody_looks [Fintype ω] (h : s.Inv heard) (hnone : ∀ w, s.workers w ≠ .waiting)
    (hheard : 2 ≤ Fintype.card ω ∨ 1 ≤ Fintype.card ω ∧ ∀ w, ¬ (s.workers w).Misses s.csm) :
    s.shouldStop = true ∨ ∃ w, (s.workers w).Looks s.csm := by
  have hcases : ∀ w, s.shouldStop = true ∨ (s.workers w).Looks s.csm ∨
      (s.workers w).Misses s.csm := by
    intro w
    rcases (s.workers w).looks_or_misses s.csm with hlooks | hmisses | hwaits | hreturned
    · exact .inr (.inl hlooks)
    · exact .inr (.inr hmisses)
    · exact absurd hwaits (hnone w)
    · exact .inl (h.stopped w (hreturned ▸ trivial))
  rcases hheard with htwo | ⟨hone, hno⟩
  · -- of two workers one at most holds the mutex
    rcases Fintype.one_lt_card_iff.mp htwo with ⟨w, w', hne⟩
    rcases hcases w with hstop | hlooks | hmisses
    · exact .inl hstop
    · exact .inr ⟨w, hlooks⟩
    · rcases hcases w' with hstop | hlooks | hmisses'
      · exact .inl hstop
      · exact .inr ⟨w', hlooks⟩
      · cases (h.locked w hmisses.locked).symm.trans (h.locked w' hmisses'.locked)
        exact absurd rfl hne
  · rcases Fintype.card_pos_iff.mp hone with ⟨w⟩
    rcases hcases w with hstop | hlooks | hmisses
    · exact .inl hstop
    · exact .inr ⟨w, hlooks⟩
    · exact absurd hmisses (hno w)

section Producers

variable [DecidableEq π]

/-- A producer moves on; it must have notified, or somebody looks. -/
theorem Inv.produce (h : s.Inv heard) (pc : Adding τ)
    (hnotify : heard → s.producers p = .notify →
      s.shouldStop = true ∨ ∃ w, (s.workers w).Looks s.csm) :
    (s.produce p pc).Inv heard := by
  refine ⟨h.locked, h.destructor, h.stopped, fun hheard => ?_⟩
  rcases h.attended hheard with hempty | hstop | ⟨p', hp'⟩ | hlooks
  · exact .inl hempty
  · exact .inr (.inl hstop)
  · by_cases hp : p' = p
    · subst hp
      rcases hnotify hheard hp' with hstop | hlooks
      · exact .inr (.inl hstop)
      · exact .inr (.inr (.inr hlooks))
    · exact .inr (.inr (.inl ⟨p', (Function.update_of_ne hp ..).trans hp'⟩))
  · exact .inr (.inr (.inr hlooks))

theorem Inv.producerStep [DecidableEq ω] [DecidableEq τ] [Fintype ω] {woken : Option ω}
    (h : s.Inv heard) (hok : heard → s.Heard (.producer p woken))
    (hs : s.producerStep p woken = some s') : s'.Inv heard := by
  rw [WakingPool.producerStep] at hs
  split at hs
  · cases hs
  · next hpc =>
    cases hs
    exact h.produce _ fun _ hnotify => by cases hpc.symm.trans hnotify
  · next task hpc =>
    simp only [Option.ite_none_right_eq_some, Option.some.injEq] at hs
    rcases hs with ⟨-, rfl⟩
    have hmoved : (s.produce p (.push task)).Inv heard :=
      h.produce _ fun _ hnotify => by cases hpc.symm.trans hnotify
    exact hmoved.queMutex _
  · -- the task is there, and so is the notification
    cases hs
    exact ⟨h.locked, h.destructor, h.stopped,
      fun _ => .inr (.inr (.inl ⟨p, Function.update_self ..⟩))⟩
  · next hpc =>
    rcases Option.map_eq_some_iff.mp hs with ⟨s₁, hnotified, rfl⟩
    cases woken with
    | some w =>
      simp only [notifyOne, Option.ite_none_right_eq_some, Option.some.injEq] at hnotified
      rcases hnotified with ⟨-, rfl⟩
      refine (h.wake w).produce _ fun _ _ => .inr ⟨w, ?_⟩
      show Working.Looks _ ((s.goto w .lock).workers w)
      rw [goto_workers]
      trivial
    | none =>
      simp only [notifyOne, Option.ite_none_right_eq_some, Option.some.injEq] at hnotified
      rcases hnotified with ⟨hnone, rfl⟩
      exact h.produce _ fun hheard _ => h.somebody_looks hnone (hok hheard hpc)
  · next hpc =>
    cases hs
    have hmoved : (s.produce p .idle).Inv heard :=
      h.produce _ fun _ hnotify => by cases hpc.symm.trans hnotify
    exact hmoved.queMutex none

end Producers

theorem Inv.destructorStep [Fintype ω] [DecidableEq π] [DecidableEq ω] [DecidableEq τ]
    (h : s.Inv heard) (hs : s.destructorStep = some s') : s'.Inv heard := by
  rw [WakingPool.destructorStep] at hs
  split at hs
  · cases hs
    exact ⟨h.locked, nofun, h.stopped, h.attended⟩
  · simp only [Option.ite_none_right_eq_some, Option.some.injEq] at hs
    rcases hs with ⟨hfree, rfl⟩
    exact ⟨fun w hw => absurd hw ((h.not_locked hfree).1 w), fun _ => rfl, h.stopped, h.attended⟩
  · next hpc =>
    -- a pool that stops need not be attended
    cases hs
    exact ⟨h.locked, fun _ => h.destructor (hpc ▸ trivial), fun _ _ => rfl,
      fun _ => .inr (.inl rfl)⟩
  · next hpc =>
    cases hs
    have hwoken := h.wakeAll
    exact ⟨hwoken.locked, fun _ => h.destructor (hpc ▸ trivial), hwoken.stopped, hwoken.attended⟩
  · next hpc =>
    cases hs
    have hheld := h.destructor (hpc ▸ trivial)
    refine ⟨?_, nofun, h.stopped, h.attended⟩
    intro w hw
    cases hheld.symm.trans (h.locked w hw)
  · simp only [Option.ite_none_right_eq_some, Option.some.injEq] at hs
    rcases hs with ⟨-, rfl⟩
    exact ⟨h.locked, nofun, h.stopped, h.attended⟩
  · cases hs

section Pool

variable [Fintype ω] [DecidableEq π] [DecidableEq ω] [DecidableEq τ]

theorem Inv.step {l : Label π ω τ} (h : s.Inv heard) (hok : heard → s.Heard l)
    (hs : s.step l = some s') : s'.Inv heard := by
  cases l with
  | addTask p task =>
    simp only [WakingPool.step, Option.ite_none_right_eq_some, Option.some.injEq] at hs
    rcases hs with ⟨hidle, rfl⟩
    exact h.produce _ fun _ hnotify => by cases hidle.symm.trans hnotify
  | producer p woken => exact h.producerStep hok hs
  | worker w => exact h.workerStep hs
  | spurious w =>
    simp only [WakingPool.step, Option.ite_none_right_eq_some, Option.some.injEq] at hs
    rcases hs with ⟨-, rfl⟩
    exact h.wake w
  | destructor => exact h.destructorStep hs

theorem inv {ok : WakingPool π ω τ → Label π ω τ → Prop} (hok : heard → ∀ s l, ok s l → s.Heard l)
    (h : machine.Reachable ok s) : s.Inv heard := by
  induction h with
  | init h0 =>
    cases h0
    exact inv_start
  | step l _ hl hs ih => exact ih.step (fun hheard => hok hheard _ l hl) hs

/-- Every worker waits, there is a task, the pool does not stop, and nobody is about to
notify. -/
def SleepsOnTask (s : WakingPool π ω τ) : Prop :=
  (∀ w, s.workers w = .waiting) ∧ (∃ i, s.taskQueues i ≠ []) ∧ s.shouldStop = false ∧
    ∀ p, s.producers p ≠ .notify

/-- **Idle workers do not sleep on tasks.** In every run whose notifications are heard. -/
theorem no_sleep_on_tasks (h : machine.Reachable Heard s) : ¬ s.SleepsOnTask := by
  have hinv : s.Inv True := inv (fun _ _ _ => id) h
  rintro ⟨hwaiting, ⟨i, htask⟩, hstop, hnotify⟩
  rcases hinv.attended trivial with ⟨hpdt, hcsm⟩ | hstop' | ⟨p, hp⟩ | ⟨w, hw⟩
  · -- one of the two queues
    by_cases hi : i = s.quePdtIdx
    · exact htask (hi ▸ hpdt)
    · have hi' : i = !s.quePdtIdx := Bool.eq_not.mpr hi
      exact htask (hi' ▸ hcsm)
  · cases hstop.symm.trans hstop'
  · exact hnotify p hp
  · rw [hwaiting w] at hw
    exact hw

end Pool

/-- The theorem at a run of a pool with two workers. A task is pushed and notified when one
has found the queues empty and the other waits, which is woken. -/
theorem second_worker_wakes :
    ∃ s : WakingPool Unit Bool String, machine.Reachable Heard s ∧ s.workers true = .waiting ∧
      s.workers false = .run "task" ∧ ¬ s.SleepsOnTask := by
  rcases machine.exists_of_run Heard (s := (start : WakingPool Unit Bool String)) rfl
    ([.worker false, .worker false, .worker false, .worker false, .worker false, .worker true,
      .worker true, .worker true, .worker true, .addTask () "task", .producer () none,
      .producer () none, .producer () none, .producer () (some false), .producer () none,
      .worker true] ++ List.replicate 10 (.worker false))
    (fun s => s.workers true = .waiting ∧ s.workers false = .run "task") (by decide +kernel)
    with ⟨s, hs, htrue, hfalse⟩
  exact ⟨s, hs, htrue, hfalse, no_sleep_on_tasks hs⟩

/-- The only worker has found the queues empty. A task is pushed and nobody is waiting yet,
so that the notification wakes nobody; then the worker waits. -/
theorem single_worker_sleeps_on_task :
    ∃ s : WakingPool Unit Unit String, machine.Reachable (fun _ _ => True) s ∧ s.SleepsOnTask := by
  rcases machine.exists_of_run (fun _ _ => True) (s := (start : WakingPool Unit Unit String)) rfl
    [.worker (), .worker (), .worker (), .worker (), .addTask () "task", .producer () none,
      .producer () none, .producer () none, .producer () none, .producer () none, .worker ()]
    (fun s => s.workers () = .waiting ∧ s.taskQueues false ≠ [] ∧ s.shouldStop = false ∧
      s.producers () ≠ .notify) (by decide +kernel) with ⟨s, hs, hw, htask, hstop, hp⟩
  exact ⟨s, hs, fun _ => hw, ⟨false, htask⟩, hstop, fun _ => hp⟩

end WakingPool

end Taotu
