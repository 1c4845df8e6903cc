import Taotu.Threads.Turns

/-!
# Taotu.Threads.History — what happens to the tasks (`thread_pool.h`, `thread_pool.cc`)

The pool of `Taotu.Threads.Waking` in small steps, with the tasks that have been pushed, taken
out of the queues and run. What holds of the critical sections holds of the small steps
(`small_steps_run_once`): tasks leave in the order in which they came, each that has left is
run once, and the destructor returns when all that was pushed before it set `should_stop_` has
been run.

A worker that is going to return has found the queue of the producers empty, and then that of
the consumers. In between a task may have been pushed, but not one from before the pool was
stopped (`Working.Leaves`).
-/

namespace Taotu

open Lib

/-! ## What has happened to the tasks -/

/-- The tasks that have been pushed, taken out of the queues and run, in this order, and how
many had been pushed when `should_stop_` was set. -/
structure History (τ : Type) where
  pushed : List τ
  taken : List τ
  executed : List τ
  before : ℕ
deriving DecidableEq, Repr

/-- The pool with its history. -/
structure RecordedPool (π ω τ : Type) where
  pool : WakingPool π ω τ
  history : History τ

namespace History

variable {π ω τ : Type}

/-- What a step adds to the history. -/
def record (s : WakingPool π ω τ) (h : History τ) : WakingPool.Label π ω τ → History τ
  | .addTask _ _ | .spurious _ => h
  | .producer p _ =>
    match s.producers p with
    | .push task => { h with pushed := h.pushed ++ [task] }
    | _ => h
  | .worker w =>
    match s.workers w with
    | .pop => { h with taken := h.taken ++ s.csm.take 1 }
    | .run task => { h with executed := h.executed ++ [task] }
    | _ => h
  | .destructor =>
    match s.destructor with
    | .stop => { h with before := h.pushed.length }
    | _ => h

end History

namespace RecordedPool

open WakingPool History

variable {π ω τ : Type} [Fintype ω] [DecidableEq π] [DecidableEq ω] [DecidableEq τ]

def step (r : RecordedPool π ω τ) (l : WakingPool.Label π ω τ) : Option (RecordedPool π ω τ) :=
  (r.pool.step l).map fun s => ⟨s, r.history.record r.pool l⟩

def start : RecordedPool π ω τ := ⟨.start, ⟨[], [], [], 0⟩⟩

def machine : Machine (RecordedPool π ω τ) (WakingPool.Label π ω τ) := ⟨fun r => r = start, step⟩

variable {r r' : RecordedPool π ω τ} {l : WakingPool.Label π ω τ}

theorem step_eq_some : r.step l = some r' ↔
    r.pool.step l = some r'.pool ∧ r'.history = r.history.record r.pool l := by
  constructor
  · intro h
    obtain ⟨s, hs, rfl⟩ := Option.map_eq_some_iff.mp h
    exact ⟨hs, rfl⟩
  · rintro ⟨hs, hh⟩
    rw [step, hs, Option.map_some, ← hh]

/-- Without its history it is the pool. -/
theorem pool_reachable {ok : RecordedPool π ω τ → WakingPool.Label π ω τ → Prop}
    (h : machine.Reachable ok r) :
    WakingPool.machine.Reachable (fun _ _ => True) r.pool := by
  refine h.project pool ?_ ?_
  · rintro _ rfl
    rfl
  · intro r l r' _ hs
    exact .inr ⟨l, trivial, (step_eq_some.mp hs).1⟩

end RecordedPool

/-! ## Safety -/

/-- A sum over all threads, when one of them moves on. -/
theorem sum_update_add {ι κ : Type} [Fintype ι] [DecidableEq ι] (g : κ → ℕ) (f : ι → κ) (i : ι)
    (k : κ) : ∑ j, g (Function.update f i k j) + g (f i) = ∑ j, g (f j) + g k := by
  have hmem := Finset.mem_univ i
  rw [← Finset.add_sum_erase _ _ hmem, ← Finset.add_sum_erase _ (fun j => g (f j)) hmem,
    Function.update_self]
  have hrest : ∑ j ∈ Finset.univ.erase i, g (Function.update f i k j) =
      ∑ j ∈ Finset.univ.erase i, g (f j) := by
    refine Finset.sum_congr rfl fun j hj => ?_
    rw [Function.update_of_ne (Finset.ne_of_mem_erase hj)]
  omega

namespace Working

variable {τ : Type} {pc : Working τ} {pdt csm : List τ} {stop : Bool}

/-- A worker that has found the queue of the producers empty, and then that of the consumers,
leaves nothing behind that was pushed `before` the pool was stopped. -/
def Leaves (before taken queued : ℕ) : Working τ → Prop
  | exitCsm => before ≤ taken + queued
  | leave | returned => before ≤ taken
  | _ => True

theorem Leaves.mono {before taken queued taken' queued' : ℕ} (h : pc.Leaves before taken queued)
    (htaken : taken ≤ taken') (hqueued : taken + queued ≤ taken' + queued') :
    pc.Leaves before taken' queued' := by
  cases pc with
  | exitCsm => exact le_trans h hqueued
  | leave | returned => exact le_trans h htaken
  | _ => trivial

theorem Next.holds_eq {pc' : Working τ} (h : Next pdt csm stop pc pc') : pc'.holds = pc.holds := by
  cases h <;> rfl

theorem Next.leaves {pc' : Working τ} {before taken : ℕ} (h : Next pdt csm stop pc pc')
    (hpc : pc.Leaves before taken csm.length)
    (hline : before ≤ taken + csm.length + pdt.length) : pc'.Leaves before taken csm.length := by
  cases h with
  | exitPdtEmpty hpdt =>
    rw [hpdt] at hline
    exact hline
  | exitCsmEmpty hcsm =>
    rw [hcsm] at hpc
    exact hpc
  | leave => exact hpc
  | _ => trivial

end Working

namespace WakingPool

variable {π ω τ : Type} [Fintype ω] [DecidableEq τ] {s s' : WakingPool π ω τ} {h : History τ}
  {p : π} {w : ω}

/-- How many workers have `task` in their hands. -/
def busy (s : WakingPool π ω τ) (task : τ) : ℕ :=
  ∑ w, if (s.workers w).holds = some task then 1 else 0

theorem busy_goto [DecidableEq ω] (s : WakingPool π ω τ) (w : ω) (pc : Working τ) (task : τ) :
    (s.goto w pc).busy task + (if (s.workers w).holds = some task then 1 else 0) =
      s.busy task + if pc.holds = some task then 1 else 0 :=
  sum_update_add (fun pc : Working τ => if pc.holds = some task then 1 else 0) s.workers w pc

/-- Tasks are taken in the order in which they were pushed, and each that has been taken is in
the hands of a worker or has been run. -/
structure Kept (s : WakingPool π ω τ) (h : History τ) : Prop where
  line : h.taken ++ s.csm ++ s.pdt = h.pushed
  ran : ∀ task, h.executed.count task + s.busy task = h.taken.count task
  before : h.before ≤ h.pushed.length
  leaves : ∀ w, (s.workers w).Leaves h.before h.taken.length s.csm.length

theorem kept_start : Kept (start : WakingPool π ω τ) ⟨[], [], [], 0⟩ where
  line := rfl
  ran task := by simp [busy, start, Working.holds]
  before := le_rfl
  leaves w := trivial

/-- A step that leaves the queues alone, and what the workers have. -/
theorem Kept.same (hk : s.Kept h) (hpdt : s'.pdt = s.pdt) (hcsm : s'.csm = s.csm)
    (hholds : ∀ w, (s'.workers w).holds = (s.workers w).holds)
    (hleaves : ∀ w, (s'.workers w).Leaves h.before h.taken.length s.csm.length) : s'.Kept h where
  line := by rw [hpdt, hcsm, hk.line]
  ran task := by
    rw [← hk.ran task, busy, busy]
    simp only [hholds]
  before := hk.before
  leaves w := hcsm ▸ hleaves w

/-- A worker moves on and leaves the queues alone. -/
theorem Kept.goto [DecidableEq ω] (hk : s.Kept h) {pc : Working τ}
    (hworkers : s'.workers = (s.goto w pc).workers) (hpdt : s'.pdt = s.pdt)
    (hcsm : s'.csm = s.csm) (hholds : pc.holds = (s.workers w).holds)
    (hleaves : pc.Leaves h.before h.taken.length s.csm.length) : s'.Kept h := by
  refine hk.same hpdt hcsm ?_ ?_
  · intro w'
    rw [hworkers]
    by_cases hne : w' = w
    · rw [hne, goto_workers, hholds]
    · rw [goto_of_ne hne]
  · intro w'
    rw [hworkers]
    by_cases hne : w' = w
    · rw [hne, goto_workers]
      exact hleaves
    · rw [goto_of_ne hne]
      exact hk.leaves w'

/-- A task goes from the queue of the consumers into the hands of a worker. -/
theorem Kept.pop [DecidableEq ω] (hk : s.Kept h) (hpc : s.workers w = .pop) {task : τ}
    {rest : List τ} (hfront : s.csm = task :: rest) :
    Kept { s.goto w (.unlock task) with
      taskQueues := Function.update s.taskQueues (!s.quePdtIdx) rest }
      { h with taken := h.taken ++ [task] } := by
  have hcsm : Function.update s.taskQueues (!s.quePdtIdx) rest (!s.quePdtIdx) = rest :=
    Function.update_self ..
  have hpdt : Function.update s.taskQueues (!s.quePdtIdx) rest s.quePdtIdx = s.pdt :=
    Function.update_of_ne (Bool.not_ne_self _).symm ..
  refine ⟨?_, ?_, hk.before, ?_⟩
  · show h.taken ++ [task] ++ Function.update s.taskQueues (!s.quePdtIdx) rest (!s.quePdtIdx) ++
      Function.update s.taskQueues (!s.quePdtIdx) rest s.quePdtIdx = h.pushed
    rw [hcsm, hpdt, ← hk.line, hfront]
    simp
  · intro task'
    have hcount := busy_goto s w (.unlock task) task'
    have hran := hk.ran task'
    rw [hpc] at hcount
    show h.executed.count task' + (s.goto w (.unlock task)).busy task' = (h.taken ++ [task]).count task'
    simp only [Working.holds, List.count_append, List.count_singleton, beq_iff_eq,
      Option.some.injEq, reduceCtorEq, if_false] at hcount ⊢
    omega
  · intro w'
    show ((s.goto w (.unlock task)).workers w').Leaves h.before (h.taken ++ [task]).length
      (Function.update s.taskQueues (!s.quePdtIdx) rest (!s.quePdtIdx)).length
    rw [hcsm]
    by_cases hne : w' = w
    · rw [hne, goto_workers]
      trivial
    · rw [goto_of_ne hne]
      refine (hk.leaves w').mono ?_ ?_
      · simp
      · simp [hfront]
        omega

/-- A worker has run its task. -/
theorem Kept.ran_task [DecidableEq ω] (hk : s.Kept h) {task : τ} (hpc : s.workers w = .run task) :
    Kept (s.goto w .lock) { h with executed := h.executed ++ [task] } := by
  refine ⟨hk.line, ?_, hk.before, ?_⟩
  · intro task'
    have hcount := busy_goto s w .lock task'
    have hran := hk.ran task'
    rw [hpc] at hcount
    simp only [Working.holds, List.count_append, List.count_singleton, beq_iff_eq,
      Option.some.injEq, reduceCtorEq, if_false] at hcount ⊢
    omega
  · intro w'
    by_cases hne : w' = w
    · rw [hne, goto_workers]
      trivial
    · rw [goto_of_ne hne]
      exact hk.leaves w'

/-- The queues change their places, and that of the consumers was empty. -/
theorem Kept.flip [DecidableEq ω] (hk : s.Kept h) (hpc : s.workers w = .flip) (hcsm : s.csm = []) :
    Kept { s.goto w .unlockQueue with quePdtIdx := !s.quePdtIdx } h := by
  have hnew : s.taskQueues (!!s.quePdtIdx) = s.pdt := by
    rw [Bool.not_not]
    rfl
  refine ⟨?_, ?_, hk.before, ?_⟩
  · show h.taken ++ s.taskQueues (!!s.quePdtIdx) ++ s.csm = h.pushed
    rw [hnew, hcsm, ← hk.line, hcsm]
    simp
  · intro task
    have hcount := busy_goto s w .unlockQueue task
    rw [hpc] at hcount
    rw [← hk.ran task]
    exact congrArg (_ + ·) (Nat.add_right_cancel hcount)
  · intro w'
    show ((s.goto w .unlockQueue).workers w').Leaves h.before h.taken.length
      (s.taskQueues (!!s.quePdtIdx)).length
    by_cases hne : w' = w
    · rw [hne, goto_workers]
      trivial
    · rw [goto_of_ne hne]
      exact (hk.leaves w').mono le_rfl (by simp [hcsm])

theorem Kept.bound (hk : s.Kept h) : h.before ≤ h.taken.length + s.csm.length + s.pdt.length := by
  have hlength := congrArg List.length hk.line
  have hbefore := hk.before
  simp only [List.length_append] at hlength
  omega

theorem Kept.turned [DecidableEq ω] (hk : s.Kept h)
    (hknows : (s.workers w).Knows s.pdt s.csm s.shouldStop)
    (hturned : s.Turned w s') : s'.Kept (h.record s (.worker w : Label π ω τ)) := by
  cases hturned with
  | @next pc m hnext hm =>
    have hrecord : h.record s (.worker w : Label π ω τ) = h := by
      simp only [History.record]
      generalize s.workers w = pc₀ at hnext ⊢
      cases hnext <;> rfl
    rw [hrecord]
    exact hk.goto rfl rfl rfl hnext.holds_eq (hnext.leaves (hk.leaves w) hk.bound)
  | lockQueue hpc hfree =>
    simp only [History.record, hpc]
    exact hk.goto rfl rfl rfl (hpc ▸ rfl) trivial
  | flip hpc =>
    simp only [History.record, hpc]
    rw [hpc] at hknows
    exact hk.flip hpc hknows.1
  | unlockQueue hpc =>
    simp only [History.record, hpc]
    exact hk.goto rfl rfl rfl (hpc ▸ rfl) trivial
  | pop hpc hfront =>
    simp only [History.record, hpc, hfront, List.take_succ_cons, List.take_zero]
    exact hk.pop hpc hfront
  | ran hpc =>
    simp only [History.record, hpc]
    exact hk.ran_task hpc

/-- A task is pushed behind the others. -/
theorem Kept.push [DecidableEq π] (hk : s.Kept h) (task : τ) :
    Kept { s.produce p .notify with
      taskQueues := Function.update s.taskQueues s.quePdtIdx (s.pdt ++ [task]) }
      { h with pushed := h.pushed ++ [task] } := by
  have hpdt : Function.update s.taskQueues s.quePdtIdx (s.pdt ++ [task]) s.quePdtIdx =
      s.pdt ++ [task] := Function.update_self ..
  have hcsm : Function.update s.taskQueues s.quePdtIdx (s.pdt ++ [task]) (!s.quePdtIdx) = s.csm :=
    Function.update_of_ne (Bool.not_ne_self _) ..
  refine ⟨?_, hk.ran, ?_, ?_⟩
  · show h.taken ++ Function.update s.taskQueues s.quePdtIdx (s.pdt ++ [task]) (!s.quePdtIdx) ++
      Function.update s.taskQueues s.quePdtIdx (s.pdt ++ [task]) s.quePdtIdx = h.pushed ++ [task]
    rw [hpdt, hcsm, ← hk.line, List.append_assoc _ s.pdt]
  · have hbefore := hk.before
    simp only [List.length_append]
    omega
  · intro w
    show (s.workers w).Leaves h.before h.taken.length
      (Function.update s.taskQueues s.quePdtIdx (s.pdt ++ [task]) (!s.quePdtIdx)).length
    rw [hcsm]
    exact hk.leaves w

theorem Kept.wake [DecidableEq ω] (hk : s.Kept h) (hw : s.workers w = .waiting) :
    (s.wake w).Kept h :=
  hk.goto rfl rfl rfl (hw ▸ rfl) trivial

theorem Kept.produced [DecidableEq π] [DecidableEq ω] {woken : Option ω} (hk : s.Kept h)
    (hproduced : s.Produced p s') : s'.Kept (h.record s (.producer p woken)) := by
  cases hproduced with
  | test hpc _ =>
    simp only [History.record, hpc]
    exact hk.same rfl rfl (fun _ => rfl) hk.leaves
  | lock hpc _ =>
    simp only [History.record, hpc]
    exact hk.same rfl rfl (fun _ => rfl) hk.leaves
  | push hpc =>
    simp only [History.record, hpc]
    exact hk.push _
  | wake hpc hw =>
    simp only [History.record, hpc]
    have hwoken := hk.wake hw
    exact hwoken.same rfl rfl (fun _ => rfl) hwoken.leaves
  | unheard hpc =>
    simp only [History.record, hpc]
    exact hk.same rfl rfl (fun _ => rfl) hk.leaves
  | unlock hpc =>
    simp only [History.record, hpc]
    exact hk.same rfl rfl (fun _ => rfl) hk.leaves

/-- `should_stop_` is set, and no worker has seen that yet. -/
theorem Kept.stop (hk : s.Kept h) (hinv : s.Inv False) (hstop : s.shouldStop = false) :
    Kept { s with destructor := .notifyAll, shouldStop := true }
      { h with before := h.pushed.length } := by
  refine ⟨hk.line, hk.ran, le_rfl, ?_⟩
  intro w
  have hstopped : ¬ (s.workers w).Stopped := fun hw =>
    Bool.false_ne_true (hstop.symm.trans (hinv.stopped w hw))
  show (s.workers w).Leaves _ _ _
  generalize s.workers w = pc at hstopped
  cases pc with
  | exitCsm | leave | returned => exact absurd trivial hstopped
  | _ => trivial

theorem Kept.wakeAll (hk : s.Kept h) : Kept { s.wakeAll with destructor := .unlock } h := by
  refine hk.same rfl rfl ?_ ?_
  · intro w
    show (s.wakeAll.workers w).holds = _
    rcases wakeAll_workers s w with ⟨hw, hlock⟩ | ⟨-, hsame⟩
    · rw [hw, hlock]
      rfl
    · rw [hsame]
  · intro w
    show (s.wakeAll.workers w).Leaves _ _ _
    rcases wakeAll_workers s w with ⟨-, hlock⟩ | ⟨-, hsame⟩
    · rw [hlock]
      trivial
    · rw [hsame]
      exact hk.leaves w

theorem Kept.destructorStep (hk : s.Kept h) (hsane : s.Sane) (hinv : s.Inv False)
    (hs : s.destructorStep = some s') : s'.Kept (h.record s (.destructor : Label π ω τ)) := by
  rw [WakingPool.destructorStep] at hs
  split at hs
  · next hpc =>
    cases hs
    simp only [History.record, hpc]
    exact hk.same rfl rfl (fun _ => rfl) hk.leaves
  · next hpc =>
    simp only [Option.ite_none_right_eq_some, Option.some.injEq] at hs
    rcases hs with ⟨-, rfl⟩
    simp only [History.record, hpc]
    exact hk.same rfl rfl (fun _ => rfl) hk.leaves
  · next hpc =>
    cases hs
    simp only [History.record, hpc]
    have hstop : s.shouldStop = false := by
      rw [← Bool.not_eq_true, hsane.stop, hpc]
      exact not_not.mpr rfl
    exact hk.stop hinv hstop
  · next hpc =>
    cases hs
    simp only [History.record, hpc]
    exact hk.wakeAll
  · next hpc =>
    cases hs
    simp only [History.record, hpc]
    exact hk.same rfl rfl (fun _ => rfl) hk.leaves
  · next hpc =>
    simp only [Option.ite_none_right_eq_some, Option.some.injEq] at hs
    rcases hs with ⟨-, rfl⟩
    simp only [History.record, hpc]
    exact hk.same rfl rfl (fun _ => rfl) hk.leaves
  · cases hs

end WakingPool

namespace RecordedPool

open WakingPool

variable {π ω τ : Type} [Fintype ω] [DecidableEq π] [DecidableEq ω] [DecidableEq τ]
  {r : RecordedPool π ω τ}

theorem kept {ok : RecordedPool π ω τ → WakingPool.Label π ω τ → Prop}
    (h : machine.Reachable ok r) : r.pool.Kept r.history := by
  induction h with
  | init h0 =>
    cases h0
    exact kept_start
  | @step r r' l hreach _ hs hk =>
    obtain ⟨hs, hhistory⟩ := step_eq_some.mp hs
    have hpool := pool_reachable hreach
    rw [hhistory]
    cases l with
    | addTask p task =>
      simp only [WakingPool.step, Option.ite_none_right_eq_some, Option.some.injEq] at hs
      rw [← hs.2]
      exact hk.same rfl rfl (fun _ => rfl) hk.leaves
    | producer p woken => exact hk.produced (produced hs)
    | worker w =>
      obtain ⟨t, -, href⟩ := exists_refined hpool
      exact hk.turned (href.knows w) (turned_of_reachable hpool hs)
    | spurious w =>
      simp only [WakingPool.step, Option.ite_none_right_eq_some, Option.some.injEq] at hs
      rw [← hs.2]
      exact hk.wake hs.1
    | destructor => exact hk.destructorStep (sane hpool) (inv False.elim hpool) hs

omit [DecidableEq π] [DecidableEq ω] in
/-- Nothing is in the hands of workers that have none. -/
theorem perm_of_free (hk : r.pool.Kept r.history) (hfree : ∀ w, (r.pool.workers w).holds = none) :
    r.history.executed.Perm r.history.taken := by
  rw [List.perm_iff_count]
  intro task
  have hbusy : r.pool.busy task = 0 := by
    refine Finset.sum_eq_zero fun w _ => ?_
    rw [hfree w]
    exact if_neg nofun
  rw [← hk.ran task, hbusy, Nat.add_zero]

/-- All that was pushed before the pool was stopped has been taken and run. -/
theorem done_of_joined [Nonempty ω] (h : machine.Reachable (fun _ _ => True) r)
    (hjoined : r.pool.destructor = .joined) :
    r.history.pushed.take r.history.before <+: r.history.taken ∧
      r.history.executed.Perm r.history.taken := by
  have hk := kept h
  have hall := (sane (pool_reachable h)).joined hjoined
  have hprefix : r.history.taken <+: r.history.pushed :=
    ⟨_, (List.append_assoc ..).symm.trans hk.line⟩
  constructor
  · obtain ⟨w⟩ := ‹Nonempty ω›
    have hbefore := hk.leaves w
    rw [hall w] at hbefore
    refine List.prefix_of_prefix_length_le (List.take_prefix _ _) hprefix ?_
    rw [List.length_take]
    exact (min_le_left _ _).trans hbefore
  · exact perm_of_free hk fun w => by rw [hall w]; rfl

/-- In a pool with a worker `front()` finds a task, tasks leave in the order in which they came,
and each that has left is in the hands of a worker or has been run, once. When the destructor
has joined the workers, what was pushed before it set `should_stop_` has left, and all that has
left has been run. -/
theorem small_steps_run_once [Nonempty ω] (h : machine.Reachable (fun _ _ => True) r) :
    r.pool.fault = false ∧ r.history.taken <+: r.history.pushed ∧
      (∀ task, r.history.executed.count task + r.pool.busy task = r.history.taken.count task) ∧
      (r.pool.destructor = .joined →
        r.history.pushed.take r.history.before <+: r.history.taken ∧
          r.history.executed.Perm r.history.taken) := by
  have hk := kept h
  exact ⟨fault_eq_false (pool_reachable h), ⟨_, (List.append_assoc ..).symm.trans hk.line⟩, hk.ran,
    done_of_joined h⟩

/-- The only worker misses the notification, and the destructor wakes it. -/
theorem small_steps_run_once_missed :
    ∃ r : RecordedPool Unit Unit ℕ, machine.Reachable (fun _ _ => True) r ∧
      r.pool.destructor = .joined ∧ r.history.executed = [7] ∧ r.history.before = 1 ∧
      r.history.pushed.take r.history.before <+: r.history.taken ∧
      r.history.executed.Perm r.history.taken := by
  rcases machine.exists_of_run (fun _ _ => True) (s := (start : RecordedPool Unit Unit ℕ)) rfl
    (List.replicate 3 (.worker ()) ++ .addTask () 7 :: List.replicate 5 (.producer () none) ++
      List.replicate 2 (.worker ()) ++ List.replicate 5 .destructor ++
      List.replicate 17 (.worker ()) ++ [.destructor])
    (fun r => r.pool.destructor = .joined ∧ r.history.executed = [7] ∧ r.history.before = 1)
    (by decide +kernel) with ⟨r, hr, hjoined, hexecuted, hbefore⟩
  exact ⟨r, hr, hjoined, hexecuted, hbefore, (small_steps_run_once hr).2.2.2 hjoined⟩

end RecordedPool

end Taotu
