import Mathlib.Algebra.Order.BigOperators.Group.Finset
import Taotu.Threads.History

/-!
# Taotu.Threads.Resting — every task is run (`thread_pool.h`, `thread_pool.cc`)

Without new calls and wakeups for no reason every step brings the threads of a pool nearer to
rest (`left_step`), and as long as one of them is not at rest one can go on
(`exists_own_step`). So a pool of two workers or more runs every task, and the destructor of a
pool returns (`comes_to_rest`). With one worker only the first may fail, by
`single_worker_sleeps_on_task`.
-/

namespace Taotu

open Lib

/-! ## How far it is to rest -/

/-- How far a worker is from rest. A task that it takes is worth less than what it has to do
with it. -/
def Working.weight {τ : Type} : Working τ → ℕ
  | unlock _ => 22
  | run _ => 21
  | lock => 20
  | testStop => 19
  | testPdt => 18
  | testCsm => 17
  | exitStop => 16
  | exitPdt => 15
  | exitCsm => 14
  | testQueue => 13
  | lockQueue => 12
  | flip => 11
  | unlockQueue => 10
  | pop => 9
  | wait => 2
  | waiting | leave => 1
  | returned => 0

/-- A call may push a task and wake a worker. -/
def Adding.weight {τ : Type} : Adding τ → ℕ
  | testStop _ => 38
  | lockQueue _ => 37
  | push _ => 36
  | notify => 21
  | unlockQueue => 1
  | idle => 0

/-- The destructor wakes all of the `n` workers. -/
def Destructing.weight (n : ℕ) : Destructing → ℕ
  | idle => 6 + 19 * n
  | lock => 5 + 19 * n
  | stop => 4 + 19 * n
  | notifyAll => 3 + 19 * n
  | unlock => 2
  | join => 1
  | joined => 0

theorem Working.Next.weight_lt {τ : Type} {pdt csm : List τ} {stop : Bool} {pc pc' : Working τ}
    (h : Next pdt csm stop pc pc') : pc'.weight < pc.weight := by
  cases h <;> simp [Working.weight]

namespace WakingPool

variable {π ω τ : Type} [Fintype π] [Fintype ω] {s s' : WakingPool π ω τ} {p : π} {w : ω}

/-- How far the pool is from rest. -/
def left (s : WakingPool π ω τ) : ℕ :=
  14 * (s.pdt.length + s.csm.length) + ∑ w, (s.workers w).weight +
    ∑ p, (s.producers p).weight + s.destructor.weight (Fintype.card ω)

/-- A worker comes nearer to rest. -/
theorem left_lt_of_worker [DecidableEq ω] {pc : Working τ}
    (hworkers : s'.workers = Function.update s.workers w pc) (hproducers : s'.producers = s.producers)
    (hdestructor : s'.destructor = s.destructor)
    (hlt : 14 * (s'.pdt.length + s'.csm.length) + pc.weight <
      14 * (s.pdt.length + s.csm.length) + (s.workers w).weight) : s'.left < s.left := by
  have hsum := sum_update_add Working.weight s.workers w pc
  unfold left
  rw [hworkers, hproducers, hdestructor]
  omega

/-- A call of `AddTask` comes nearer to its end. -/
theorem left_lt_of_producer [DecidableEq π] {pc : Adding τ}
    (hproducers : s'.producers = Function.update s.producers p pc)
    (hdestructor : s'.destructor = s.destructor)
    (hlt : 14 * (s'.pdt.length + s'.csm.length) + ∑ w, (s'.workers w).weight + pc.weight <
      14 * (s.pdt.length + s.csm.length) + ∑ w, (s.workers w).weight + (s.producers p).weight) :
    s'.left < s.left := by
  have hsum := sum_update_add Adding.weight s.producers p pc
  unfold left
  rw [hproducers, hdestructor]
  omega

theorem Turned.left_lt [DecidableEq ω] (h : s.Turned w s') : s'.left < s.left := by
  cases h with
  | next hnext hm =>
    exact left_lt_of_worker rfl rfl rfl (Nat.add_lt_add_left hnext.weight_lt _)
  | lockQueue hpc hfree =>
    refine left_lt_of_worker rfl rfl rfl (Nat.add_lt_add_left ?_ _)
    simp [hpc, Working.weight]
  | flip hpc =>
    refine left_lt_of_worker rfl rfl rfl ?_
    show 14 * ((s.taskQueues (!s.quePdtIdx)).length + (s.taskQueues (!!s.quePdtIdx)).length) + 10 <
      14 * ((s.taskQueues s.quePdtIdx).length + (s.taskQueues (!s.quePdtIdx)).length) + _
    rw [hpc, Bool.not_not, Working.weight]
    omega
  | unlockQueue hpc =>
    refine left_lt_of_worker rfl rfl rfl (Nat.add_lt_add_left ?_ _)
    simp [hpc, Working.weight]
  | @pop task rest hpc hfront =>
    refine left_lt_of_worker rfl rfl rfl ?_
    show 14 * ((Function.update s.taskQueues (!s.quePdtIdx) rest s.quePdtIdx).length +
      (Function.update s.taskQueues (!s.quePdtIdx) rest (!s.quePdtIdx)).length) + 22 <
      14 * (s.pdt.length + s.csm.length) + _
    rw [Function.update_self, Function.update_of_ne (Bool.not_ne_self _).symm, hpc, hfront,
      Working.weight, List.length_cons, pdt]
    omega
  | ran hpc =>
    refine left_lt_of_worker rfl rfl rfl (Nat.add_lt_add_left ?_ _)
    simp [hpc, Working.weight]

theorem Produced.left_lt [DecidableEq π] [DecidableEq ω] (h : s.Produced p s') :
    s'.left < s.left := by
  cases h with
  | @test task pc hpc hpc' =>
    refine left_lt_of_producer rfl rfl (Nat.add_lt_add_left ?_ _)
    rw [hpc]
    rcases hpc' with rfl | rfl <;> simp [Adding.weight]
  | lock hpc hfree =>
    refine left_lt_of_producer rfl rfl (Nat.add_lt_add_left ?_ _)
    simp [hpc, Adding.weight]
  | @push task hpc =>
    refine left_lt_of_producer rfl rfl ?_
    show 14 * ((Function.update s.taskQueues s.quePdtIdx (s.pdt ++ [task]) s.quePdtIdx).length +
      (Function.update s.taskQueues s.quePdtIdx (s.pdt ++ [task]) (!s.quePdtIdx)).length) +
      ∑ w, (s.workers w).weight + 21 <
      14 * (s.pdt.length + s.csm.length) + ∑ w, (s.workers w).weight + _
    rw [Function.update_self, Function.update_of_ne (Bool.not_ne_self _), hpc, Adding.weight,
      List.length_append, List.length_singleton, csm]
    omega
  | @wake w hpc hw =>
    have hsum := sum_update_add Working.weight s.workers w .lock
    refine left_lt_of_producer rfl rfl ?_
    show 14 * (s.pdt.length + s.csm.length) +
      ∑ w', (Function.update s.workers w .lock w').weight + 1 < _
    rw [hpc, Adding.weight]
    rw [hw, Working.weight, Working.weight] at hsum
    omega
  | unheard hpc =>
    refine left_lt_of_producer rfl rfl (Nat.add_lt_add_left ?_ _)
    simp [hpc, Adding.weight]
  | unlock hpc =>
    refine left_lt_of_producer rfl rfl (Nat.add_lt_add_left ?_ _)
    simp [hpc, Adding.weight]

omit [Fintype π] in
/-- All workers are woken at most. -/
theorem weight_wakeAll [DecidableEq τ] (s : WakingPool π ω τ) :
    ∑ w, (s.wakeAll.workers w).weight ≤ ∑ w, (s.workers w).weight + 19 * Fintype.card ω := by
  have hone : ∀ w, (s.wakeAll.workers w).weight ≤ (s.workers w).weight + 19 := by
    intro w
    rcases wakeAll_workers s w with ⟨hw, hlock⟩ | ⟨-, hsame⟩
    · rw [hw, hlock]
      exact le_rfl
    · rw [hsame]
      exact Nat.le_add_right _ _
  calc ∑ w, (s.wakeAll.workers w).weight
      ≤ ∑ w, ((s.workers w).weight + 19) := Finset.sum_le_sum fun w _ => hone w
    _ = ∑ w, (s.workers w).weight + 19 * Fintype.card ω := by
      simp [Finset.sum_add_distrib, Nat.mul_comm]

theorem left_destructorStep [DecidableEq τ] (hs : s.destructorStep = some s') :
    s'.left < s.left := by
  rw [destructorStep] at hs
  split at hs
  · next hpc =>
    cases hs
    refine Nat.add_lt_add_left ?_ _
    simp [hpc, Destructing.weight]
  · next hpc =>
    simp only [Option.ite_none_right_eq_some, Option.some.injEq] at hs
    rcases hs with ⟨-, rfl⟩
    refine Nat.add_lt_add_left ?_ _
    simp [hpc, Destructing.weight]
  · next hpc =>
    cases hs
    refine Nat.add_lt_add_left ?_ _
    simp [hpc, Destructing.weight]
  · next hpc =>
    cases hs
    have hsum := weight_wakeAll s
    show 14 * (s.pdt.length + s.csm.length) + ∑ w, (s.wakeAll.workers w).weight +
      ∑ p, (s.producers p).weight + 2 < _
    rw [left, hpc, Destructing.weight]
    omega
  · next hpc =>
    cases hs
    refine Nat.add_lt_add_left ?_ _
    simp [hpc, Destructing.weight]
  · next hpc =>
    simp only [Option.ite_none_right_eq_some, Option.some.injEq] at hs
    rcases hs with ⟨-, rfl⟩
    refine Nat.add_lt_add_left ?_ _
    simp [hpc, Destructing.weight]
  · cases hs

omit [Fintype π] [Fintype ω] in
/-- The steps of the threads themselves: no new call, and no wakeup for no reason. -/
def Own (s : WakingPool π ω τ) : Label π ω τ → Prop
  | .addTask _ _ | .spurious _ => False
  | .producer _ _ | .worker _ => True
  | .destructor => s.destructor ≠ .idle

section Rest

variable [DecidableEq π] [DecidableEq ω] [DecidableEq τ] {l : Label π ω τ}

/-- Every step of the threads themselves brings the pool nearer to rest. -/
theorem left_step (h : machine.Reachable (fun _ _ => True) s) (hown : s.Own l)
    (hs : s.step l = some s') : s'.left < s.left := by
  cases l with
  | addTask p task => exact hown.elim
  | spurious w => exact hown.elim
  | producer p woken => exact (produced hs).left_lt
  | worker w => exact (turned_of_reachable h hs).left_lt
  | destructor => exact left_destructorStep hs

omit [Fintype π] in
theorem own_keeps_idle (h : machine.Reachable (fun _ _ => True) s) (hown : s.Own l)
    (hs : s.step l = some s') : s'.destructor = .idle ↔ s.destructor = .idle := by
  cases l with
  | addTask p task => exact hown.elim
  | spurious w => exact hown.elim
  | producer p woken => cases produced hs <;> exact Iff.rfl
  | worker w => cases turned_of_reachable h hs <;> exact Iff.rfl
  | destructor =>
    have hidle : s.destructor ≠ .idle := hown
    refine iff_of_false (fun hidle' => ?_) hidle
    simp only [step, destructorStep] at hs
    split at hs
    · next hpc => exact hidle hpc
    · simp only [Option.ite_none_right_eq_some, Option.some.injEq] at hs
      rcases hs with ⟨-, rfl⟩
      cases hidle'
    · cases hs
      cases hidle'
    · cases hs
      cases hidle'
    · cases hs
      cases hidle'
    · simp only [Option.ite_none_right_eq_some, Option.some.injEq] at hs
      rcases hs with ⟨-, rfl⟩
      cases hidle'
    · cases hs

/-- No call is going on, and every worker waits or has returned. -/
structure Resting (s : WakingPool π ω τ) : Prop where
  producers : ∀ p, s.producers p = .idle
  workers : ∀ w, s.workers w = .waiting ∨ s.workers w = .returned
  destructor : s.destructor = .idle ∨ s.destructor = .joined

omit [Fintype π] [Fintype ω] [DecidableEq π] [DecidableEq τ] in
/-- A worker can go on unless it rests or waits for a mutex. -/
theorem exists_workerStep (hwaiting : s.workers w ≠ .waiting) (hreturned : s.workers w ≠ .returned)
    (hlock : s.workers w = .lock → s.pdtCsmMutex = none)
    (hqueue : s.workers w = .lockQueue → s.queCsmMutex = none) :
    ∃ s', s.workerStep w = some s' := by
  rw [workerStep]
  cases hpc : s.workers w with
  | lock => exact ⟨_, if_pos (hlock hpc)⟩
  | lockQueue => exact ⟨_, if_pos (hqueue hpc)⟩
  | waiting => exact absurd hpc hwaiting
  | returned => exact absurd hpc hreturned
  | pop => cases s.csm <;> exact ⟨_, rfl⟩
  | _ => exact ⟨_, rfl⟩

omit [Fintype π] in
/-- A call can go on unless it waits for a mutex; if it notifies, somebody is woken that
waits. -/
theorem exists_producerStep (hidle : s.producers p ≠ .idle)
    (hlock : ∀ task, s.producers p = .lockQueue task → s.queCsmMutex = none) :
    ∃ woken s', s.producerStep p woken = some s' := by
  cases hpc : s.producers p with
  | idle => exact absurd hpc hidle
  | lockQueue task =>
    refine ⟨none, { s.produce p (.push task) with queCsmMutex := some (.producer p) }, ?_⟩
    rw [producerStep, hpc]
    exact if_pos (hlock task hpc)
  | notify =>
    by_cases hw : ∃ w, s.workers w = .waiting
    · obtain ⟨w, hw⟩ := hw
      refine ⟨some w, (s.wake w).produce p .unlockQueue, ?_⟩
      simp [producerStep, hpc, notifyOne, hw]
    · refine ⟨none, s.produce p .unlockQueue, ?_⟩
      simp [producerStep, hpc, notifyOne, not_exists.mp hw]
  | _ =>
    simp only [producerStep, hpc]
    exact ⟨none, _, rfl⟩

omit [Fintype π] in
/-- As long as the pool is not at rest, one of its threads can go on. -/
theorem exists_own_step (h : machine.Reachable (fun _ _ => True) s) (hrest : ¬ s.Resting) :
    ∃ l s', s.Own l ∧ s.step l = some s' := by
  by_contra hno
  have hsane := sane h
  have hworker : ∀ w, ¬ ∃ s', s.workerStep w = some s' :=
    fun w ⟨s', hs⟩ => hno ⟨.worker w, s', trivial, hs⟩
  have hproducer : ∀ p, ¬ ∃ woken s', s.producerStep p woken = some s' :=
    fun p ⟨woken, s', hs⟩ => hno ⟨.producer p woken, s', trivial, hs⟩
  have hdestructor : s.destructor ≠ .idle → ¬ ∃ s', s.destructorStep = some s' :=
    fun hidle ⟨s', hs⟩ => hno ⟨.destructor, s', hidle, hs⟩
  -- who holds a mutex could go on
  have hque : s.queCsmMutex = none := by
    cases hheld : s.queCsmMutex with
    | none => rfl
    | some x =>
      have hx := hsane.holdsQue x hheld
      cases x with
      | destructor => exact hx.elim
      | worker w =>
        refine absurd (exists_workerStep ?_ ?_ ?_ ?_) (hworker w) <;>
        · intro hpc
          rw [HoldsQue, hpc] at hx
          exact hx.elim
      | producer p =>
        refine absurd (exists_producerStep ?_ ?_) (hproducer p)
        · intro hpc
          rw [HoldsQue, hpc] at hx
          exact hx.elim
        · intro task hpc
          rw [HoldsQue, hpc] at hx
          exact hx.elim
  have hpdt : s.pdtCsmMutex = none := by
    cases hheld : s.pdtCsmMutex with
    | none => rfl
    | some x =>
      have hx := hsane.holdsPdt x hheld
      cases x with
      | producer p => exact hx.elim
      | worker w =>
        refine absurd (exists_workerStep ?_ ?_ ?_ (fun _ => hque)) (hworker w) <;>
        · intro hpc
          rw [HoldsPdt, hpc] at hx
          exact hx.elim
      | destructor =>
        change s.destructor.Locked at hx
        refine absurd ?_ (hdestructor ?_)
        · simp only [destructorStep]
          cases hpc : s.destructor with
          | idle | lock | join | joined =>
            rw [hpc] at hx
            exact hx.elim
          | _ => exact ⟨_, rfl⟩
        · intro hpc
          rw [hpc] at hx
          exact hx.elim
  -- nobody waits for a mutex
  have hworkers : ∀ w, s.workers w = .waiting ∨ s.workers w = .returned := by
    intro w
    by_contra hbusy
    rw [not_or] at hbusy
    exact hworker w (exists_workerStep hbusy.1 hbusy.2 (fun _ => hpdt) (fun _ => hque))
  refine hrest ⟨?_, hworkers, ?_⟩
  · intro p
    by_contra hbusy
    exact hproducer p (exists_producerStep hbusy fun _ _ => hque)
  · by_contra hbusy
    rw [not_or] at hbusy
    refine hdestructor hbusy.1 ?_
    simp only [destructorStep]
    cases hpc : s.destructor with
    | idle => exact absurd hpc hbusy.1
    | joined => exact absurd hpc hbusy.2
    | lock => exact ⟨_, if_pos hpdt⟩
    | join =>
      -- nobody waits any more, so all have returned
      refine ⟨_, if_pos fun w => (hworkers w).resolve_left ?_⟩
      exact hsane.woken_of hpc (by decide) (by decide)
    | _ => exact ⟨_, rfl⟩

omit [Fintype π] in
/-- A pool at rest that has not been stopped has nothing to do, if every notification is
heard. -/
theorem Resting.empty (hrest : s.Resting) (h : machine.Reachable (fun _ _ => True) s)
    (hidle : s.destructor = .idle) (hcard : 2 ≤ Fintype.card ω) :
    s.Empty ∧ ∀ w, s.workers w = .waiting := by
  have hheard : ∀ (s : WakingPool π ω τ) (l : Label π ω τ), s.Heard l := by
    intro s l
    cases l with
    | producer p woken => exact fun _ => .inl hcard
    | _ => trivial
  have hinv : s.Inv True := inv (fun _ s l _ => hheard s l) h
  have hstop : s.shouldStop ≠ true := by
    rw [Ne, (sane h).stop, hidle]
    exact not_not.mpr rfl
  have hwaiting : ∀ w, s.workers w = .waiting := by
    intro w
    refine (hrest.workers w).resolve_right fun hpc => hstop (hinv.stopped w ?_)
    rw [hpc]
    trivial
  refine ⟨?_, hwaiting⟩
  rcases hinv.attended trivial with hempty | hstopped | ⟨p, hp⟩ | ⟨w, hw⟩
  · exact hempty
  · exact absurd hstopped hstop
  · cases (hrest.producers p).symm.trans hp
  · rw [hwaiting w] at hw
    exact hw.elim

end Rest

end WakingPool

namespace RecordedPool

open WakingPool

variable {π ω τ : Type} [Fintype π] [Fintype ω] [DecidableEq π] [DecidableEq ω] [DecidableEq τ]
  {r : RecordedPool π ω τ}

/-- What the threads of the pool have done by themselves since the state `r`, in `n` steps. -/
theorem own_run {r' : RecordedPool π ω τ} {n : ℕ} (h : machine.Reachable (fun _ _ => True) r)
    (hrun : machine.Counted (fun r l => r.pool.Own l) (fun _ => True) r n r') :
    machine.Reachable (fun _ _ => True) r' ∧
      (r'.pool.destructor = .idle ↔ r.pool.destructor = .idle) ∧
      n + r'.pool.left ≤ r.pool.left := by
  induction hrun with
  | refl => exact ⟨h, Iff.rfl, by omega⟩
  | @count n r₁ r₂ l _ hown hs _ ih =>
    obtain ⟨hreach, hsame, hle⟩ := ih
    have hpool := pool_reachable hreach
    have hs₁ := (step_eq_some.mp hs).1
    have hlt := left_step hpool hown hs₁
    exact ⟨.step l hreach trivial hs, (own_keeps_idle hpool hown hs₁).trans hsame, by omega⟩
  | other l _ _ _ hl => exact absurd trivial hl

omit [Fintype π] in
theorem exists_recorded_own_step (h : machine.Reachable (fun _ _ => True) r)
    (hrest : ¬ r.pool.Resting) : ∃ l r', r.pool.Own l ∧ machine.step r l = some r' := by
  obtain ⟨l, s', hown, hs⟩ := exists_own_step (pool_reachable h) hrest
  exact ⟨l, ⟨s', r.history.record r.pool l⟩, hown, step_eq_some.mpr ⟨hs, rfl⟩⟩

omit [Fintype π] in
/-- A pool of two workers or more that is at rest and not destroyed has run all its tasks. -/
theorem ran_of_resting (h : machine.Reachable (fun _ _ => True) r) (hrest : r.pool.Resting)
    (hidle : r.pool.destructor = .idle) (hcard : 2 ≤ Fintype.card ω) :
    r.pool.Empty ∧ r.history.executed.Perm r.history.pushed := by
  obtain ⟨hempty, hwaiting⟩ := hrest.empty (pool_reachable h) hidle hcard
  have hk := kept h
  have hline := hk.line
  rw [hempty.1, hempty.2, List.append_nil, List.append_nil] at hline
  refine ⟨hempty, hline ▸ perm_of_free hk fun w => ?_⟩
  rw [hwaiting w]
  rfl

/-- **From every state the threads of the pool come to rest by themselves, whichever goes on.**
However they go on without new calls and wakeups for no reason: the number of their steps is
bounded, and as long as they are not at rest one of them can go on. A pool of two workers or
more that is not being destroyed has then run all its tasks; one that is being destroyed is
joined, and has run all that was pushed before it was stopped. -/
theorem comes_to_rest [Nonempty ω] (h : machine.Reachable (fun _ _ => True) r) :
    (∃ n r', machine.Counted (fun r l => r.pool.Own l) (fun _ => True) r n r' ∧
      r'.pool.Resting) ∧
    ∀ n r', machine.Counted (fun r l => r.pool.Own l) (fun _ => True) r n r' →
      n ≤ r.pool.left ∧
      (¬ r'.pool.Resting → ∃ l r'', r'.pool.Own l ∧ machine.step r' l = some r'') ∧
      (r'.pool.Resting →
        (r.pool.destructor = .idle → 2 ≤ Fintype.card ω →
          r'.pool.Empty ∧ r'.history.executed.Perm r'.history.pushed) ∧
        (r.pool.destructor ≠ .idle → r'.pool.destructor = .joined ∧
          r'.history.pushed.take r'.history.before <+: r'.history.taken ∧
          r'.history.executed.Perm r'.history.taken)) := by
  constructor
  · have hdown : ∀ r' : RecordedPool π ω τ, machine.Reachable (fun _ _ => True) r' →
        ¬ r'.pool.Resting →
        ∃ r'', machine.Counted (fun r l => r.pool.Own l) (fun _ => False) r' 0 r'' ∧
          machine.Reachable (fun _ _ => True) r'' ∧ r''.pool.left < r'.pool.left := by
      intro r' hreach hrest
      obtain ⟨l, r'', hown, hs⟩ := exists_recorded_own_step hreach hrest
      exact ⟨r'', .other l .refl hown hs id, .step l hreach trivial hs,
        left_step (pool_reachable hreach) hown (step_eq_some.mp hs).1⟩
    obtain ⟨r', hrun, -, hrest⟩ :=
      Machine.Counted.exists_of_measure (fun r : RecordedPool π ω τ => r.pool.left) hdown h
    obtain ⟨n, hrun⟩ := hrun.recount
    exact ⟨n, r', hrun, hrest⟩
  · intro n r' hrun
    obtain ⟨hreach, hsame, hle⟩ := own_run h hrun
    refine ⟨by omega, exists_recorded_own_step hreach, fun hrest => ⟨?_, ?_⟩⟩
    · intro hidle hcard
      exact ran_of_resting hreach hrest (hsame.mpr hidle) hcard
    · intro hidle
      have hjoined := hrest.destructor.resolve_left (fun hpc => hidle (hsame.mp hpc))
      exact ⟨hjoined, done_of_joined hreach hjoined⟩

/-- A task has been pushed when one of two workers had found the queues empty, and the
notification has woken the other one. -/
theorem comes_to_rest_two_workers :
    ∃ r : RecordedPool Unit Bool String, machine.Reachable (fun _ _ => True) r ∧
      r.pool.workers true = .wait ∧ r.history.pushed = ["task"] ∧ r.history.executed = [] ∧
      ∃ n r', machine.Counted (fun r l => r.pool.Own l) (fun _ => True) r n r' ∧
        r'.pool.Empty ∧ r'.history.executed.Perm r'.history.pushed := by
  rcases machine.exists_of_run (fun _ _ => True) (s := (start : RecordedPool Unit Bool String)) rfl
    (List.replicate 5 (.worker false) ++ List.replicate 4 (.worker true) ++
      [.addTask () "task", .producer () none, .producer () none, .producer () none,
        .producer () (some false)])
    (fun r => r.pool.workers true = .wait ∧ r.pool.destructor = .idle ∧
      r.history.pushed = ["task"] ∧ r.history.executed = []) (by decide +kernel)
    with ⟨r, hr, htrue, hidle, hpushed, hexecuted⟩
  obtain ⟨⟨n, r', hrun, hrest⟩, hevery⟩ := comes_to_rest hr
  obtain ⟨-, -, hdone⟩ := hevery n r' hrun
  exact ⟨r, hr, htrue, hpushed, hexecuted, n, r', hrun, (hdone hrest).1 hidle (by decide)⟩

end RecordedPool

end Taotu
