import Taotu.Logger.Stopping

/-!
# Taotu.Logger.Waking — how the writer is woken (`logger.cc`)

The logger of `Taotu.Logger.Stopping` with `log_mutex_` and `log_cond_var_`. The writer
makes its last two tests and waits under the mutex. A producer that finds `pending_` at zero
notifies under the mutex, `EndLogger` notifies without it.

1. **Model layer.** The steps of the logger, with the locks, the notifications and the wait
   between them. Every run is a run of the logger (`logger_reachable`).
2. **Producers.** While the writer waits, `pending_` is zero or a producer that found it at
   zero has yet to notify (`Answered`). With what `pending_` counts (`Ring.Counts`), a record
   that is in the ring is one that a producer will wake the writer for
   (`no_sleep_on_records`).
3. **`EndLogger`.** Its notification is lost if the writer has tested `is_stopping_` and does
   not wait yet (`end_logger_unheard`). `EndHeard` excludes that, and then `EndLogger` does
   not join a writer that waits (`end_logger_heard`).
-/

namespace Taotu.Log

open Lib

/-! ## Model layer -/

/-- Who holds `log_mutex_`; a producer has `notified` or is about to. -/
inductive LogHolder (τ : Type) where
  | writer
  | producer (t : τ) (notified : Bool)
deriving DecidableEq, Repr

/-- The wait of the writer. -/
inductive Waiting where
  | awake
  | waiting
  /-- It was notified, or woken for no reason, and locks the mutex again. -/
  | woken
deriving DecidableEq, Repr

/-- What `EndLogger` does next. -/
inductive Ending where
  | store
  | notify
  | join
  | joined
deriving DecidableEq, Repr

/-- `EndLogger` is past its notification. -/
def Ending.Notified : Ending → Prop
  | .join | .joined => True
  | .store | .notify => False

structure WakingLogger (τ : Type) where
  logger : Logger τ
  mutex : Option (LogHolder τ)
  waiting : Waiting
  ender : Ending

namespace WakingLogger

variable {τ : Type}

inductive Label (τ : Type) where
  | enqueue (t : τ) (record : String)
  | producer (t : τ) (spurious : Bool)
  | writer (spurious : Bool)
  /-- The wait ends for no reason. -/
  | wake
  | endLogger
deriving DecidableEq, Repr

section Model

variable [DecidableEq τ]

/-- The logger takes a step. -/
def advance (s : WakingLogger τ) (l : Logger.Label τ) : Option (WakingLogger τ) :=
  (s.logger.step l).map fun logger => { s with logger := logger }

def lock (s : WakingLogger τ) (holder : LogHolder τ) : Option (WakingLogger τ) :=
  if s.mutex = none then some { s with mutex := some holder } else none

def unlock (s : WakingLogger τ) : WakingLogger τ := { s with mutex := none }

/-- `notify_one()`: nobody waits but the writer. -/
def notifyOne (s : WakingLogger τ) : WakingLogger τ :=
  { s with waiting := if s.waiting = .waiting then .woken else s.waiting }

/-- One step of `WriteDownLogs`. -/
def writerStep (s : WakingLogger τ) (spurious : Bool) : Option (WakingLogger τ) :=
  match s.logger.writer with
  | .lockedStopping =>
    if s.mutex = some .writer then s.advance (.writer spurious) else s.lock .writer
  | .lockedPending => s.advance (.writer spurious)
  | .wait =>
    match s.waiting with
    | .awake => some { s.unlock with waiting := .waiting }
    | .waiting => none
    | .woken =>
      if s.mutex = some .writer then
        (s.advance (.writer spurious)).map fun s => { s with waiting := .awake }
      else s.lock .writer
  -- the lock is given back at the end of its block
  | _ => if s.mutex = some .writer then some s.unlock else s.advance (.writer spurious)

/-- One step of `Enqueue`. -/
def producerStep (s : WakingLogger τ) (t : τ) (spurious : Bool) : Option (WakingLogger τ) :=
  match s.logger.ring.producers t with
  | .notify _ 0 =>
    if s.mutex = some (.producer t true) then s.unlock.advance (.producer t spurious)
    else if s.mutex = some (.producer t false) then
      some { s.notifyOne with mutex := some (.producer t true) }
    else s.lock (.producer t false)
  | _ => s.advance (.producer t spurious)

/-- One step of `EndLogger`. -/
def enderStep (s : WakingLogger τ) : Option (WakingLogger τ) :=
  match s.ender with
  | .store => (s.advance .endLogger).map fun s => { s with ender := .notify }
  | .notify => some { s.notifyOne with ender := .join }
  | .join => if s.logger.writer = .left then some { s with ender := .joined } else none
  | .joined => none

def step (s : WakingLogger τ) : Label τ → Option (WakingLogger τ)
  | .enqueue t record => s.advance (.enqueue t record)
  | .producer t spurious => s.producerStep t spurious
  | .writer spurious => s.writerStep spurious
  | .wake => if s.waiting = .waiting then some { s with waiting := .woken } else none
  | .endLogger => s.enderStep

def start : WakingLogger τ := ⟨Logger.start, none, .awake, .store⟩

def machine : Machine (WakingLogger τ) (Label τ) := ⟨fun s => s = start, step⟩

end Model

/-- The writer has found `is_stopping_` unset and does not wait yet. -/
def Tested (s : WakingLogger τ) : Prop :=
  s.logger.writer = .lockedPending ∨ s.logger.writer = .wait ∧ s.waiting = .awake

instance (s : WakingLogger τ) : Decidable s.Tested :=
  inferInstanceAs (Decidable (_ ∨ _))

/-- When `EndLogger` notifies, the writer is not between its test and its wait. -/
def EndHeard (s : WakingLogger τ) : Label τ → Prop
  | .endLogger => s.ender = .notify → ¬ s.Tested
  | _ => True

instance (s : WakingLogger τ) : ∀ l, Decidable (s.EndHeard l)
  | .endLogger => inferInstanceAs (Decidable (_ → _))
  | .enqueue _ _ | .producer _ _ | .writer _ | .wake => inferInstanceAs (Decidable True)

/-- The thread found `pending_` at zero and has not notified. -/
def Notifies (s : WakingLogger τ) (t : τ) : Prop :=
  (∃ pos, s.logger.ring.producers t = .notify pos 0) ∧ s.mutex ≠ some (.producer t true)

/-- The thread has stored `seq` and is going to notify: it found `pending_` at zero, or is
about to. -/
def WillNotify (s : WakingLogger τ) (t : τ) : Prop :=
  s.Notifies t ∨ s.logger.ring.pending = 0 ∧ ∃ pos, s.logger.ring.producers t = .fetchAdd pos

/-- While the writer waits, `pending_` is zero or somebody is going to notify. -/
def Answered (s : WakingLogger τ) : Prop := s.logger.ring.pending = 0 ∨ ∃ t, s.Notifies t

/-- `EndLogger` has notified, the writer waits, and nobody is going to notify it. -/
def Unheard (s : WakingLogger τ) : Prop :=
  s.ender.Notified ∧ s.waiting = .waiting ∧ ∀ t, ¬ s.WillNotify t

end WakingLogger

/-! ## What a step of the logger can do -/

theorem Ring.Consumed.producers {τ : Type} {s s' : Ring τ} (hs : s.Consumed s') :
    s'.producers = s.producers := by
  cases hs <;> rfl

section Frames

variable {τ : Type} [DecidableEq τ]

/-- A producer moves alone, and adds to `pending_` only on its way to the notification. -/
theorem Ring.Produced.producers {s s' : Ring τ} {t : τ} (hs : s.Produced t s') :
    (∀ t', t' ≠ t → s'.producers t' = s.producers t') ∧
      (s'.pending = s.pending ∨
        ∃ pos, s.producers t = .fetchAdd pos ∧ s'.producers t = .notify pos s.pending) := by
  refine ⟨?_, ?_⟩
  · intro t' hne
    cases hs <;> exact Function.update_of_ne hne ..
  · cases hs with
    | fetchAdd hpc => exact .inr ⟨_, hpc, goto_producers ..⟩
    | _ => exact .inl rfl

namespace Logger

variable {s s' : Logger τ} {spurious : Bool}

/-- What the writer leaves alone. -/
theorem Wrote.frame (hs : s.Wrote s') :
    s'.ring.producers = s.ring.producers ∧ s'.isStopping = s.isStopping := by
  cases hs with
  | callDequeue _ hring =>
    rcases Ring.dequeue_eq hring with ⟨-, rfl⟩
    exact ⟨rfl, rfl⟩
  | inDequeue _ _ hring => exact ⟨(Ring.consumed hring).producers, rfl⟩
  | _ => exact ⟨rfl, rfl⟩

/-- The writer goes to its wait through both tests. -/
theorem writerStep_tested (h : s.writerStep spurious = some s') :
    (s'.writer = .lockedPending → s.writer = .lockedStopping ∧ s.isStopping = false) ∧
      (s'.writer = .wait → s.writer = .lockedPending ∧ s'.ring.pending = 0) := by
  rw [writerStep] at h
  split at h
  case h_8 hpc =>
    cases h
    split
    · simp
    · next hstop => exact ⟨fun _ => ⟨hpc, Bool.eq_false_of_not_eq_true hstop⟩, by simp⟩
  case h_9 hpc =>
    cases h
    split
    · next hzero => exact ⟨by simp, fun _ => ⟨hpc, hzero⟩⟩
    · simp
  case h_3 =>
    rcases onRing_eq h with ⟨ring, -, rfl⟩
    simp
  case h_4 =>
    split at h
    case h_3 =>
      rcases onRing_eq h with ⟨ring, -, rfl⟩
      simp
    all_goals
      cases h
      simp
  case h_11 => cases h
  all_goals
    cases h
    try split
    all_goals simp

end Logger

end Frames

namespace WakingLogger

variable {τ : Type} {s s' : WakingLogger τ} {t : τ}

/-! ## What a step can do -/

theorem lock_eq {holder : LogHolder τ} (h : s.lock holder = some s') :
    s.mutex = none ∧ s' = { s with mutex := some holder } := by
  simp only [lock, Option.ite_none_right_eq_some, Option.some.injEq] at h
  exact ⟨h.1, h.2.symm⟩

theorem notifyOne_ne_waiting (s : WakingLogger τ) : s.notifyOne.waiting ≠ .waiting := by
  unfold notifyOne
  split
  · nofun
  · assumption

theorem notifyOne_awake : s.notifyOne.waiting = .awake ↔ s.waiting = .awake := by
  unfold notifyOne
  split
  · next hwait => simp [hwait]
  · exact Iff.rfl

theorem notifyOne_tested : s.notifyOne.Tested ↔ s.Tested :=
  or_congr Iff.rfl (and_congr Iff.rfl notifyOne_awake)

section Run

variable [DecidableEq τ] {l : Label τ}

/-- The steps of the threads; a step of the logger below is named where one is made. -/
inductive Moved (s : WakingLogger τ) (l : Label τ) : WakingLogger τ → Prop where
  /-- A producer moves that has nothing to notify. -/
  | produced {below : Logger.Label τ} {ring : Ring τ} (t : τ)
      (hs : s.logger.step below = some { s.logger with ring := ring })
      (hne : ∀ pos, s.logger.ring.producers t ≠ .notify pos 0)
      (hothers : ∀ t', t' ≠ t → ring.producers t' = s.logger.ring.producers t')
      (hpending : ring.pending = s.logger.ring.pending ∨
        ∃ pos, ring.producers t = .notify pos s.logger.ring.pending) :
      Moved s l { s with logger := { s.logger with ring := ring } }
  | producerLock {pos : ℕ} (t : τ) (hpc : s.logger.ring.producers t = .notify pos 0)
      (hfree : s.mutex = none) : Moved s l { s with mutex := some (.producer t false) }
  | producerNotify {pos : ℕ} (t : τ) (hpc : s.logger.ring.producers t = .notify pos 0)
      (hheld : s.mutex = some (.producer t false)) :
      Moved s l { s.notifyOne with mutex := some (.producer t true) }
  | producerUnlock {below : Logger.Label τ} {ring : Ring τ} (t : τ)
      (hs : s.logger.step below = some { s.logger with ring := ring })
      (hheld : s.mutex = some (.producer t true))
      (hothers : ∀ t', t' ≠ t → ring.producers t' = s.logger.ring.producers t')
      (hpending : ring.pending = s.logger.ring.pending) :
      Moved s l { s with logger := { s.logger with ring := ring }, mutex := none }
  | writerLock (hpc : ¬ s.Tested) (hfree : s.mutex = none) :
      Moved s l { s with mutex := some .writer }
  | writerUnlock (hpc : ¬ s.Tested) (hheld : s.mutex = some .writer) : Moved s l s.unlock
  | sleep (hpc : s.logger.writer = .wait) (hawake : s.waiting = .awake) :
      Moved s l { s.unlock with waiting := .waiting }
  | resume {below : Logger.Label τ} (hpc : s.logger.writer = .wait)
      (hs : s.logger.step below = some { s.logger with writer := .testStopping })
      (hheld : s.mutex = some .writer) :
      Moved s l { s with logger := { s.logger with writer := .testStopping }, waiting := .awake }
  | write {spurious : Bool} {logger : Logger τ} (hpc : s.logger.writer ≠ .wait)
      (hs : s.logger.writerStep spurious = some logger)
      (hheld : s.logger.writer = .lockedStopping → s.mutex = some .writer) :
      Moved s l { s with logger := logger }
  | wake (hwait : s.waiting = .waiting) : Moved s l { s with waiting := .woken }
  | store {below : Logger.Label τ} {due : Finset ℕ} (hender : s.ender = .store)
      (hs : s.logger.step below = some { s.logger with isStopping := true, due := due }) :
      Moved s l { s with
        logger := { s.logger with isStopping := true, due := due }
        ender := .notify }
  | notify (hl : l = .endLogger) (hender : s.ender = .notify) :
      Moved s l { s.notifyOne with ender := .join }
  | join (hender : s.ender = .join) : Moved s l { s with ender := .joined }

theorem advance_eq {l : Logger.Label τ} (h : s.advance l = some s') :
    ∃ logger, s.logger.step l = some logger ∧ s' = { s with logger := logger } := by
  rcases Option.map_eq_some_iff.mp h with ⟨logger, hlogger, rfl⟩
  exact ⟨logger, hlogger, rfl⟩

theorem moved_writer {spurious : Bool} (h : s.writerStep spurious = some s') :
    s.Moved (.writer spurious) s' := by
  rw [writerStep] at h
  split at h
  case h_1 hpc =>
    split at h
    · next hheld =>
      rcases advance_eq h with ⟨logger, hlogger, rfl⟩
      exact .write (by simp [hpc]) hlogger fun _ => hheld
    · rcases lock_eq h with ⟨hfree, rfl⟩
      exact .writerLock (by simp [Tested, hpc]) hfree
  case h_2 hpc =>
    rcases advance_eq h with ⟨logger, hlogger, rfl⟩
    exact .write (by simp [hpc]) hlogger (by simp [hpc])
  case h_3 hpc =>
    split at h
    · next hawake =>
      cases h
      exact .sleep hpc hawake
    · cases h
    · next hwoken =>
      split at h
      · next hheld =>
        rcases Option.map_eq_some_iff.mp h with ⟨s₁, hs₁, rfl⟩
        rcases advance_eq hs₁ with ⟨logger, hlogger, rfl⟩
        have heq : logger = { s.logger with writer := .testStopping } := by
          simp only [Logger.step, Logger.writerStep, hpc, Option.some.injEq] at hlogger
          exact hlogger.symm
        subst heq
        exact .resume hpc hlogger hheld
      · rcases lock_eq h with ⟨hfree, rfl⟩
        exact .writerLock (by simp [Tested, hpc, hwoken]) hfree
  case h_4 hstopping hpending hwait =>
    split at h
    · next hheld =>
      cases h
      exact .writerUnlock (fun htested => htested.elim hpending fun hpc => hwait hpc.1) hheld
    · rcases advance_eq h with ⟨logger, hlogger, rfl⟩
      exact .write hwait hlogger fun hpc => absurd hpc hstopping

theorem moved_producer {spurious : Bool} (h : s.producerStep t spurious = some s') :
    s.Moved (.producer t spurious) s' := by
  rw [producerStep] at h
  split at h
  case h_1 pos hpc =>
    split at h
    · next hheld =>
      rcases advance_eq h with ⟨logger, hlogger, rfl⟩
      rcases Logger.onRing_eq hlogger with ⟨ring, hring, rfl⟩
      have hframe := (Ring.produced hring).producers
      refine .producerUnlock t hlogger hheld hframe.1 (hframe.2.resolve_right ?_)
      rintro ⟨pos', hadd, -⟩
      cases hpc.symm.trans hadd
    · split at h
      · next hheld =>
        cases h
        exact .producerNotify t hpc hheld
      · rcases lock_eq h with ⟨hfree, rfl⟩
        exact .producerLock t hpc hfree
  case h_2 hne =>
    rcases advance_eq h with ⟨logger, hlogger, rfl⟩
    rcases Logger.onRing_eq hlogger with ⟨ring, hring, rfl⟩
    have hframe := (Ring.produced hring).producers
    exact .produced t hlogger hne hframe.1 (hframe.2.imp id fun ⟨pos, _, hpos⟩ => ⟨pos, hpos⟩)

theorem moved_ender (h : s.enderStep = some s') : s.Moved .endLogger s' := by
  rw [enderStep] at h
  split at h
  case h_1 hender =>
    rcases Option.map_eq_some_iff.mp h with ⟨s₁, hs₁, rfl⟩
    rcases advance_eq hs₁ with ⟨logger, hlogger, rfl⟩
    rcases Logger.endLogger_eq hlogger with ⟨-, rfl⟩
    exact .store hender hlogger
  case h_2 hender =>
    cases h
    exact .notify rfl hender
  case h_3 hender =>
    simp only [Option.ite_none_right_eq_some, Option.some.injEq] at h
    exact h.2 ▸ .join hender
  case h_4 => cases h

theorem moved (h : s.step l = some s') : s.Moved l s' := by
  cases l with
  | enqueue t record =>
    rcases advance_eq h with ⟨logger, hlogger, rfl⟩
    rcases Logger.onRing_eq hlogger with ⟨ring, hring, rfl⟩
    rcases Ring.enqueue_eq hring with ⟨hout, rfl⟩
    refine .produced t hlogger ?_ (fun t' hne => Function.update_of_ne hne ..) (.inl rfl)
    intro pos hpc
    rw [hpc] at hout
    exact hout
  | producer t spurious => exact moved_producer h
  | writer spurious => exact moved_writer h
  | wake =>
    simp only [step, Option.ite_none_right_eq_some, Option.some.injEq] at h
    exact h.2 ▸ .wake h.1
  | endLogger => exact moved_ender h

/-- The logger is driven by steps of its own. -/
theorem Moved.logger (h : s.Moved l s') :
    s'.logger = s.logger ∨ ∃ below, s.logger.step below = some s'.logger := by
  cases h with
  | produced _ hs => exact .inr ⟨_, hs⟩
  | producerUnlock _ hs => exact .inr ⟨_, hs⟩
  | resume _ hs => exact .inr ⟨_, hs⟩
  | @write spurious _ _ hs => exact .inr ⟨.writer spurious, hs⟩
  | store _ hs => exact .inr ⟨_, hs⟩
  | _ => exact .inl rfl

theorem logger_reachable {ok : WakingLogger τ → Label τ → Prop} (h : machine.Reachable ok s) :
    Logger.machine.Reachable (fun _ _ => True) s.logger := by
  refine h.project logger ?_ fun s l s' _ hs => ?_
  · rintro _ rfl
    rfl
  · exact (moved hs).logger.imp id fun ⟨below, hbelow⟩ => ⟨below, trivial, hbelow⟩

/-! ## Producers -/

structure Inv (s : WakingLogger τ) : Prop where
  tested : s.Tested → s.mutex = some .writer
  waiting : s.waiting ≠ .awake → s.logger.writer = .wait
  holder : ∀ t b, s.mutex = some (.producer t b) → ∃ pos, s.logger.ring.producers t = .notify pos 0
  answered : s.logger.writer = .wait → s.waiting ≠ .woken → s.Answered

/-- A thread that is going to notify does. -/
theorem Notifies.step (h : s.Notifies t) (hs : s.Moved l s') :
    s'.Notifies t ∨ s.mutex = some (.producer t false) ∧ s'.waiting = s.notifyOne.waiting := by
  rcases h with ⟨⟨pos, hpc⟩, hmutex⟩
  cases hs with
  | produced t' _ hne hothers =>
    have htt : t ≠ t' := by
      rintro rfl
      exact hne pos hpc
    exact .inl ⟨⟨pos, (hothers t htt).trans hpc⟩, hmutex⟩
  | producerLock t' => exact .inl ⟨⟨pos, hpc⟩, by simp⟩
  | producerNotify t' _ hheld =>
    by_cases htt : t' = t
    · exact .inr ⟨htt ▸ hheld, rfl⟩
    · exact .inl ⟨⟨pos, hpc⟩, by simp [htt]⟩
  | producerUnlock t' _ hheld hothers =>
    have htt : t ≠ t' := by
      rintro rfl
      exact hmutex hheld
    exact .inl ⟨⟨pos, (hothers t htt).trans hpc⟩, nofun⟩
  | write _ hs => exact .inl ⟨⟨pos, (Logger.wrote hs).frame.1 ▸ hpc⟩, hmutex⟩
  | writerLock => exact .inl ⟨⟨pos, hpc⟩, nofun⟩
  | writerUnlock => exact .inl ⟨⟨pos, hpc⟩, nofun⟩
  | sleep => exact .inl ⟨⟨pos, hpc⟩, nofun⟩
  | _ => exact .inl ⟨⟨pos, hpc⟩, hmutex⟩

omit [DecidableEq τ] in
theorem inv_start : (start : WakingLogger τ).Inv :=
  ⟨by simp [Tested, start, Logger.start], fun h => absurd rfl h, nofun, nofun⟩

/-- The writer is alone with the mutex between its test and its wait. -/
theorem Inv.tested_step (h : s.Inv) (hs : s.Moved l s') (htested : s'.Tested) :
    s'.mutex = some .writer := by
  cases hs with
  | producerLock _ _ hfree => cases hfree.symm.trans (h.tested htested)
  | producerNotify _ _ hheld => cases hheld.symm.trans (h.tested (notifyOne_tested.mp htested))
  | producerUnlock _ _ hheld => cases hheld.symm.trans (h.tested htested)
  | writerLock => rfl
  | writerUnlock hpc => exact absurd htested hpc
  | sleep hpc =>
    rcases htested with htested | htested
    · cases hpc.symm.trans htested
    · cases htested.2
  | resume => rcases htested with htested | ⟨htested, -⟩ <;> cases htested
  | write _ hs hheld =>
    have hpath := Logger.writerStep_tested hs
    rcases htested with htested | htested
    · exact hheld (hpath.1 htested).1
    · exact h.tested (.inl (hpath.2 htested.1).1)
  | wake =>
    rcases htested with htested | htested
    · exact h.tested (.inl htested)
    · cases htested.2
  | notify => exact h.tested (notifyOne_tested.mp htested)
  | _ => exact h.tested htested

theorem Inv.waiting_step (h : s.Inv) (hs : s.Moved l s') (hwait : s'.waiting ≠ .awake) :
    s'.logger.writer = .wait := by
  cases hs with
  | producerNotify => exact h.waiting fun hawake => hwait (notifyOne_awake.mpr hawake)
  | sleep hpc => exact hpc
  | resume => exact absurd rfl hwait
  | write hpc => exact absurd (h.waiting hwait) hpc
  | wake hw => exact h.waiting (by simp [hw])
  | notify => exact h.waiting fun hawake => hwait (notifyOne_awake.mpr hawake)
  | _ => exact h.waiting hwait

theorem Inv.holder_step (h : s.Inv) (hs : s.Moved l s') (t : τ) (b : Bool)
    (hmutex : s'.mutex = some (.producer t b)) :
    ∃ pos, s'.logger.ring.producers t = .notify pos 0 := by
  cases hs with
  | produced t' _ hne hothers =>
    rcases h.holder t b hmutex with ⟨pos, hpc⟩
    have htt : t ≠ t' := by
      rintro rfl
      exact hne pos hpc
    exact ⟨pos, (hothers t htt).trans hpc⟩
  | producerLock t' hpc =>
    cases hmutex
    exact ⟨_, hpc⟩
  | producerNotify t' hpc =>
    cases hmutex
    exact ⟨_, hpc⟩
  | write _ hs => exact (Logger.wrote hs).frame.1 ▸ h.holder t b hmutex
  | producerUnlock => cases hmutex
  | writerLock => cases hmutex
  | writerUnlock => cases hmutex
  | sleep => cases hmutex
  | _ => exact h.holder t b hmutex

/-- The producer that takes `pending_` from zero is going to notify. -/
theorem Inv.answered_of_zero (h : s.Inv) (hs : s.Moved l s') (hwait : s.logger.writer = .wait)
    (hzero : s.logger.ring.pending = 0) : s'.Answered := by
  cases hs with
  | produced t _ hne _ hpending =>
    rcases hpending with hsame | ⟨pos, hnotify⟩
    · exact .inl (hsame.trans hzero)
    · refine .inr ⟨t, ⟨pos, hzero ▸ hnotify⟩, ?_⟩
      intro hmutex
      rcases h.holder t true hmutex with ⟨pos', hpc⟩
      exact hne pos' hpc
  | producerUnlock _ _ _ _ hpending => exact .inl (hpending.trans hzero)
  | write hpc => exact absurd hwait hpc
  | _ => exact .inl hzero

/-- The writer comes to its wait by finding `pending_` at zero. -/
theorem Moved.wait (hs : s.Moved l s') (hwait : s'.logger.writer = .wait)
    (hne : s'.waiting ≠ .woken) :
    s'.logger.ring.pending = 0 ∨ s.logger.writer = .wait ∧ s.waiting ≠ .woken := by
  have hnotify : s.notifyOne.waiting ≠ .woken → s.waiting ≠ .woken := by
    intro hne hwoken
    exact hne ((if_neg (by simp [hwoken])).trans hwoken)
  cases hs with
  | write _ hs => exact .inl ((Logger.writerStep_tested hs).2 hwait).2
  | resume => cases hwait
  | wake => exact absurd rfl hne
  | sleep hpc hawake => exact .inr ⟨hpc, by simp [hawake]⟩
  | producerNotify => exact .inr ⟨hwait, hnotify hne⟩
  | notify => exact .inr ⟨hwait, hnotify hne⟩
  | _ => exact .inr ⟨hwait, hne⟩

theorem Inv.answered_step (h : s.Inv) (hs : s.Moved l s') (hwait' : s'.logger.writer = .wait)
    (hne' : s'.waiting ≠ .woken) : s'.Answered := by
  rcases hs.wait hwait' hne' with hzero | ⟨hwait, hne⟩
  · exact .inl hzero
  rcases h.answered hwait hne with hzero | ⟨t, ht⟩
  · exact h.answered_of_zero hs hwait hzero
  rcases ht.step hs with ht' | ⟨hheld, hwaiting⟩
  · exact .inr ⟨t, ht'⟩
  -- the notification finds the writer waiting, since its thread holds the mutex
  have hwaits : s.waiting = .waiting := by
    cases hw : s.waiting with
    | awake => cases hheld.symm.trans (h.tested (.inr ⟨hwait, hw⟩))
    | waiting => rfl
    | woken => exact absurd hw hne
  exact absurd (hwaiting.trans (if_pos hwaits)) hne'

theorem inv {ok : WakingLogger τ → Label τ → Prop} (h : machine.Reachable ok s) : s.Inv := by
  refine h.invariant ?_ fun s l s' _ hinv _ hs => ?_
  · rintro s rfl
    exact inv_start
  · have hm := moved hs
    exact ⟨hinv.tested_step hm, hinv.waiting_step hm, hinv.holder_step hm, hinv.answered_step hm⟩

/-- At zero, the producer of a record that is in the ring has yet to count one. -/
theorem will_notify_of_zero {p : ℕ} (h : Logger.machine.Reachable (fun _ _ => True) s.logger)
    (hwait : s.logger.writer = .wait) (hzero : s.logger.ring.pending = 0)
    (hp : p ∈ s.logger.ring.published) (hin : s.logger.ring.readIndex ≤ p) :
    ∃ t, s.WillNotify t := by
  have hout : s.logger.ring.consumer.Outside := by
    have hw := Logger.written h
    rw [hwait] at hw
    exact hw.1
  have hring := Logger.ring_reachable h
  rcases Ring.uncounted_of_zero (Ring.inv hring) (Ring.counts hring) hout hzero hp hin with
    ⟨t, pos, hpc⟩
  exact ⟨t, .inr ⟨hzero, pos, hpc⟩⟩

/-- **The writer does not sleep on a record.** In every run, while the writer waits and a
published record is in the ring, a producer that has stored `seq` is going to notify. -/
theorem no_sleep_on_records (h : machine.Reachable (fun _ _ => True) s)
    (hwait : s.waiting = .waiting) {p : ℕ} (hp : p ∈ s.logger.ring.published)
    (hin : s.logger.ring.readIndex ≤ p) : ∃ t, s.WillNotify t := by
  have hinv := inv h
  have hpc := hinv.waiting (by simp [hwait])
  rcases hinv.answered hpc (by simp [hwait]) with hzero | ⟨t, ht⟩
  · exact will_notify_of_zero (logger_reachable h) hpc hzero hp hin
  · exact ⟨t, .inl ht⟩

end Run

/-- The theorem at a run in which the writer waits and two records are published: the one
that is counted first has its producer notify. -/
theorem second_producer_will_notify :
    ∃ s : WakingLogger Bool, machine.Reachable (fun _ _ => True) s ∧ s.waiting = .waiting ∧
      s.logger.ring.published = {0, 1} ∧ s.logger.ring.readIndex = 0 ∧
      s.logger.ring.counted = {1} ∧ ∃ t, s.WillNotify t := by
  rcases machine.exists_of_run (fun _ _ => True) (s := (start : WakingLogger Bool)) rfl
    (List.replicate 11 (.writer false) ++
      .enqueue true "a" :: List.replicate 5 (.producer true false) ++
      .enqueue false "b" :: List.replicate 6 (.producer false false))
    (fun s => s.waiting = .waiting ∧ s.logger.ring.published = {0, 1} ∧
      s.logger.ring.readIndex = 0 ∧ s.logger.ring.counted = {1})
    (by decide +kernel) with ⟨s, hs, hwait, hpublished, hread, hcounted⟩
  have hin : 0 ∈ s.logger.ring.published := by simp [hpublished]
  exact ⟨s, hs, hwait, hpublished, hread, hcounted, no_sleep_on_records hs hwait hin hread.le⟩

/-! ## `EndLogger` -/

section Ending

variable [DecidableEq τ] {l : Label τ}

/-- What `EndLogger` has brought about. -/
structure Ended (s : WakingLogger τ) : Prop where
  stopping : s.ender ≠ .store → s.logger.isStopping = true
  heard : s.ender.Notified → ¬ s.Tested ∧ s.waiting ≠ .waiting

omit [DecidableEq τ] in
theorem ended_start : (start : WakingLogger τ).Ended :=
  ⟨fun h => absurd rfl h, nofun⟩

/-- A writer that has not passed its test finds `is_stopping_` set and does not wait. -/
theorem Ended.heard_step (h : s.Ended) (hok : s.EndHeard l) (hs : s.Moved l s')
    (hender : s'.ender.Notified) : ¬ s'.Tested ∧ s'.waiting ≠ .waiting := by
  cases hs with
  | producerNotify =>
    exact ⟨fun ht => (h.heard hender).1 (notifyOne_tested.mp ht), notifyOne_ne_waiting s⟩
  | sleep hpc hawake => exact absurd (.inr ⟨hpc, hawake⟩) (h.heard hender).1
  | resume => exact ⟨by simp [Tested], nofun⟩
  | write _ hs =>
    have hstop : s.logger.isStopping = true := by
      refine h.stopping fun heq => ?_
      rw [heq] at hender
      exact hender
    have hpath := Logger.writerStep_tested hs
    refine ⟨?_, (h.heard hender).2⟩
    rintro (htest | ⟨hwait, -⟩)
    · cases hstop.symm.trans (hpath.1 htest).2
    · exact (h.heard hender).1 (.inl (hpath.2 hwait).1)
  | wake hwait => exact absurd hwait (h.heard hender).2
  | store => exact hender.elim
  | notify hl heq =>
    subst hl
    exact ⟨fun ht => hok heq (notifyOne_tested.mp ht), notifyOne_ne_waiting s⟩
  | join heq => exact h.heard (heq ▸ trivial)
  | _ => exact h.heard hender

theorem Ended.stopping_step (h : s.Ended) (hs : s.Moved l s') (hender : s'.ender ≠ .store) :
    s'.logger.isStopping = true := by
  cases hs with
  | write _ hs => exact (Logger.wrote hs).frame.2.trans (h.stopping hender)
  | store => rfl
  | notify _ heq => exact h.stopping (by simp [heq])
  | join heq => exact h.stopping (by simp [heq])
  | _ => exact h.stopping hender

theorem ended (h : machine.Reachable EndHeard s) : s.Ended := by
  refine h.invariant ?_ fun s l s' _ hended hok hs => ?_
  · rintro s rfl
    exact ended_start
  · exact ⟨hended.stopping_step (moved hs), hended.heard_step hok (moved hs)⟩

/-- **`EndLogger` reaches the writer.** In every run in which the writer is not between its
test and its wait when `EndLogger` notifies, the writer never waits behind the notification
with none to come. -/
theorem end_logger_heard (h : machine.Reachable EndHeard s) : ¬ s.Unheard :=
  fun hunheard => ((ended h).heard hunheard.1).2 hunheard.2.1

end Ending

/-- The theorem at a run in which `EndLogger` finds the writer waiting, and joins it. -/
theorem waiting_writer_joined :
    ∃ s : WakingLogger Bool, machine.Reachable EndHeard s ∧ s.ender = .joined ∧
      s.logger.writer = .left ∧ ¬ s.Unheard := by
  rcases machine.exists_of_run EndHeard (s := (start : WakingLogger Bool)) rfl
    (List.replicate 11 (.writer false) ++ List.replicate 2 .endLogger ++
      List.replicate 5 (.writer false) ++ [.endLogger])
    (fun s => s.ender = .joined ∧ s.logger.writer = .left)
    (by decide +kernel) with ⟨s, hs, hender, hleft⟩
  exact ⟨s, hs, hender, hleft, end_logger_heard hs⟩

/-- The writer has found `is_stopping_` unset. `EndLogger` sets it and notifies, and the
writer waits: it cannot move, and neither can the join. -/
theorem end_logger_unheard :
    ∃ s : WakingLogger Bool, machine.Reachable (fun _ _ => True) s ∧ s.Unheard ∧
      (∀ spurious, s.step (.writer spurious) = none) ∧ s.step .endLogger = none := by
  rcases machine.exists_of_run (fun _ _ => True) (s := (start : WakingLogger Bool)) rfl
    (List.replicate 9 (.writer false) ++ List.replicate 2 .endLogger ++
      List.replicate 2 (.writer false))
    (fun s => s.ender = .join ∧ s.waiting = .waiting ∧ s.logger.writer = .wait ∧
      ∀ t, s.logger.ring.producers t = .idle)
    (by decide +kernel) with ⟨s, hs, hender, hwait, hpc, hidle⟩
  refine ⟨s, hs, ⟨hender ▸ trivial, hwait, ?_⟩, ?_, ?_⟩
  · intro t ht
    rcases ht with ⟨⟨pos, ht⟩, -⟩ | ⟨-, pos, ht⟩ <;> cases (hidle t).symm.trans ht
  · intro spurious
    simp [step, writerStep, hpc, hwait]
  · simp [step, enderStep, hender, hpc]

end WakingLogger

end Taotu.Log
