import Mathlib.Algebra.BigOperators.Group.Finset.Basic
import Mathlib.Data.Fintype.Basic
import Taotu.Lib.Machine

/-!
# Taotu.Threads.ThreadPool — the calculation thread pool (`thread_pool.h`, `thread_pool.cc`)

Producers push tasks into one of two queues, workers pop them from the other; a
worker that finds its queue empty flips the index, so that the queue of the
producers becomes the queue of the workers.

1. **Model layer.** A step is a critical section: the push of `AddTask`, or one
   turn of the loop of a worker up to the end of its lock (`take`). Outside their
   locks, `AddTask` tests `should_stop_` first, and a worker runs its task.
   The destructor sets `should_stop_` and then waits for the workers.
2. **Safety.** What has been pushed is what has been taken, then the queue of the
   workers, then the queue of the producers (`Inv.line`); a flip moves nothing in
   that line. Everything claimed of the pool follows (`tasks_run_once_in_order`).

`que_pdt_idx_` is only ever negated, so it is a `Bool`. Tasks are of any type,
and producers and workers are the elements of any types.

**Ghosts.** `pushed`, `taken` and `executed` are the tasks in the order in which
that happened to them, `before` is the number of tasks pushed before the
destructor started.
-/

namespace Taotu

open Lib

inductive Worker (τ : Type) where
  | waiting
  | running (task : τ)
  | returned
deriving DecidableEq, Repr

/-- How far `~ThreadPool` is. -/
inductive Destructor where
  | notStarted
  | joining
  | joined
deriving DecidableEq, Repr

/-- `producers` are the calls of `AddTask` that have found `should_stop_` unset. `fault`
is set if `front()` is called on an empty queue. -/
structure ThreadPool (π ω τ : Type) where
  taskQueues : Bool → List τ
  quePdtIdx : Bool
  shouldStop : Bool
  producers : π → Option τ
  workers : ω → Worker τ
  destructor : Destructor
  pushed : List τ
  taken : List τ
  executed : List τ
  before : ℕ
  fault : Bool

namespace ThreadPool

variable {π ω τ : Type}

/-! ## Model layer -/

/-- Both queues are empty. -/
def Idle (s : ThreadPool π ω τ) : Prop :=
  s.taskQueues s.quePdtIdx = [] ∧ s.taskQueues (!s.quePdtIdx) = []

/-- If there is nothing to consume, what is there to produce is consumed. -/
def flip (s : ThreadPool π ω τ) : ThreadPool π ω τ :=
  if (s.taskQueues (!s.quePdtIdx)).isEmpty then { s with quePdtIdx := !s.quePdtIdx } else s

section Model

variable [DecidableEq π] [DecidableEq ω]

/-- `front()` and `pop()` of the queue of the consumers. -/
def pop (w : ω) (s : ThreadPool π ω τ) : ThreadPool π ω τ :=
  match s.taskQueues (!s.quePdtIdx) with
  | [] => { s with fault := true }
  | task :: rest =>
    { s with
      taskQueues := Function.update s.taskQueues (!s.quePdtIdx) rest
      workers := Function.update s.workers w (.running task)
      taken := s.taken ++ [task] }

instance (s : ThreadPool π ω τ) : Decidable s.Idle :=
  decidable_of_iff ((s.taskQueues s.quePdtIdx).isEmpty ∧ (s.taskQueues (!s.quePdtIdx)).isEmpty)
    (by simp [Idle])

/-- A worker holds `pdt_csm_mutex_`, behind the wait. -/
def take (w : ω) (s : ThreadPool π ω τ) : ThreadPool π ω τ :=
  if s.shouldStop ∧ s.Idle then { s with workers := Function.update s.workers w .returned }
  else s.flip.pop w

/-- `AddTask` before it locks. -/
def addTask (p : π) (task : τ) (s : ThreadPool π ω τ) : ThreadPool π ω τ :=
  if s.shouldStop then s else { s with producers := Function.update s.producers p (some task) }

/-- `AddTask` holds `que_csm_mutex_`. -/
def push (p : π) (task : τ) (s : ThreadPool π ω τ) : ThreadPool π ω τ :=
  { s with
    taskQueues :=
      Function.update s.taskQueues s.quePdtIdx (s.taskQueues s.quePdtIdx ++ [task])
    producers := Function.update s.producers p none
    pushed := s.pushed ++ [task] }

inductive Label (π ω τ : Type) where
  | addTask (p : π) (task : τ)
  | push (p : π)
  | take (w : ω)
  | execute (w : ω)
  | stop
  | join
deriving DecidableEq, Repr

variable [Fintype ω] [DecidableEq τ]

def step (s : ThreadPool π ω τ) : Label π ω τ → Option (ThreadPool π ω τ)
  | .addTask p task => if s.producers p = none then some (s.addTask p task) else none
  | .push p => (s.producers p).map fun task => s.push p task
  | .take w =>
    -- the predicate of the wait
    if s.workers w = .waiting ∧ (s.shouldStop ∨ ¬ s.Idle) then some (s.take w) else none
  | .execute w =>
    match s.workers w with
    | .running task =>
      some { s with
        workers := Function.update s.workers w .waiting, executed := s.executed ++ [task] }
    | .waiting | .returned => none
  | .stop =>
    if s.destructor = .notStarted then
      some { s with shouldStop := true, destructor := .joining, before := s.pushed.length }
    else none
  | .join =>
    if s.destructor = .joining ∧ ∀ w, s.workers w = .returned then
      some { s with destructor := .joined }
    else none

def start : ThreadPool π ω τ :=
  { taskQueues := fun _ => [], quePdtIdx := false, shouldStop := false
    producers := fun _ => none, workers := fun _ => .waiting, destructor := .notStarted
    pushed := [], taken := [], executed := [], before := 0, fault := false }

def machine : Machine (ThreadPool π ω τ) (Label π ω τ) := ⟨fun s => s = start, step⟩

end Model

variable {s s' : ThreadPool π ω τ}

/-- The queue of the consumers, after the flip, is empty only if both are. -/
theorem flip_ne_nil (h : ¬ s.Idle) : s.flip.taskQueues (!s.flip.quePdtIdx) ≠ [] := by
  unfold flip
  split
  · next hempty =>
    rw [List.isEmpty_iff] at hempty
    intro hpdt
    rw [Bool.not_not] at hpdt
    exact h ⟨hpdt, hempty⟩
  · next hempty =>
    intro hcsm
    exact hempty (List.isEmpty_iff.mpr hcsm)

/-! ## Safety -/

/-- A worker that has returned now, while another one changed, had returned before. -/
theorem returned_before [DecidableEq ω] {w w' : ω} {v : Worker τ} (hv : v ≠ .returned)
    (h : Function.update s.workers w v w' = .returned) : s.workers w' = .returned := by
  have hne : w' ≠ w := by
    rintro rfl
    exact hv ((Function.update_self w' v s.workers).symm.trans h)
  exact (Function.update_of_ne hne ..).symm.trans h

section Safety

variable [Fintype ω] [DecidableEq τ]

/-- How many workers are running `task`. -/
def busy (s : ThreadPool π ω τ) (task : τ) : ℕ :=
  ∑ w, if s.workers w = .running task then 1 else 0

structure Inv (s : ThreadPool π ω τ) : Prop where
  line : s.taken ++ s.taskQueues (!s.quePdtIdx) ++ s.taskQueues s.quePdtIdx = s.pushed
  ran : ∀ task, s.executed.count task + s.busy task = s.taken.count task
  fault : s.fault = false
  /-- A worker returns when there is nothing left to do. -/
  returned : ∀ w, s.workers w = .returned → s.shouldStop = true ∧ s.before ≤ s.taken.length
  stopping : s.shouldStop = true → s.destructor ≠ .notStarted
  before : s.before ≤ s.pushed.length
  joined : s.destructor = .joined → ∀ w, s.workers w = .returned

theorem inv_start : (start : ThreadPool π ω τ).Inv where
  line := rfl
  ran task := by simp [start, busy]
  fault := rfl
  returned w hw := by cases hw
  stopping h := by cases h
  before := le_rfl
  joined h := by cases h

theorem Inv.push [DecidableEq π] (h : s.Inv) (p : π) (task : τ) : (s.push p task).Inv where
  line := by
    simp only [ThreadPool.push, Function.update_self, Function.update_of_ne (Bool.not_ne_self _)]
    rw [← List.append_assoc, h.line]
  ran := h.ran
  fault := h.fault
  returned := h.returned
  stopping := h.stopping
  before := by
    have := h.before
    simp only [ThreadPool.push, List.length_append]
    omega
  joined := h.joined

/-- A flip moves no task in the line. -/
theorem Inv.flip (h : s.Inv) : s.flip.Inv := by
  unfold ThreadPool.flip
  split
  · next hempty =>
    rw [List.isEmpty_iff] at hempty
    have hline := h.line
    rw [hempty, List.append_nil] at hline
    refine { h with line := ?_ }
    dsimp only
    rw [Bool.not_not, hempty, List.append_nil]
    exact hline
  · exact h

/-- Nobody runs a task any more when all workers have returned. -/
theorem busy_of_returned (h : ∀ w, s.workers w = .returned) (task : τ) : s.busy task = 0 := by
  unfold busy
  apply Finset.sum_eq_zero
  intro w _
  rw [h w]
  exact if_neg (by simp)

variable [DecidableEq ω]

/-- Only the worker that changes counts differently. -/
theorem busy_update (s : ThreadPool π ω τ) (w : ω) (v : Worker τ) (task : τ) :
    (∑ w', if Function.update s.workers w v w' = .running task then 1 else 0) +
        (if s.workers w = .running task then 1 else 0) =
      s.busy task + if v = .running task then 1 else 0 := by
  unfold busy
  rw [← Finset.add_sum_erase _ _ (Finset.mem_univ w),
    ← Finset.add_sum_erase _ (fun w' => if s.workers w' = .running task then 1 else 0)
      (Finset.mem_univ w)]
  have hrest : (∑ w' ∈ Finset.univ.erase w,
        if Function.update s.workers w v w' = .running task then 1 else 0) =
      ∑ w' ∈ Finset.univ.erase w, if s.workers w' = .running task then 1 else 0 := by
    apply Finset.sum_congr rfl
    intro w' hw'
    rw [Function.update_of_ne (Finset.ne_of_mem_erase hw')]
  rw [hrest, Function.update_self]
  omega

/-- A worker that returns leaves no task behind. -/
theorem Inv.return (h : s.Inv) {w : ω} (hwait : s.workers w = .waiting)
    (hstop : s.shouldStop = true) (hidle : s.Idle) :
    Inv { s with workers := Function.update s.workers w .returned } where
  line := h.line
  ran task := by
    have hcount := busy_update s w .returned task
    rw [hwait] at hcount
    simp only [reduceCtorEq, if_false, Nat.add_zero] at hcount
    rw [← h.ran task, ← hcount]
    rfl
  fault := h.fault
  returned w' hw' := by
    refine ⟨hstop, ?_⟩
    have hline := h.line
    rw [hidle.1, hidle.2, List.append_nil, List.append_nil] at hline
    rw [hline]
    exact h.before
  stopping := h.stopping
  before := h.before
  joined hjoined w' := by
    by_cases hw : w' = w
    · rw [hw]
      exact Function.update_self ..
    · exact (Function.update_of_ne hw ..).trans (h.joined hjoined w')

/-- The task that leaves the pool is the oldest one in it. -/
theorem Inv.take (h : s.Inv) {w : ω} (hw : s.workers w = .waiting) {task : τ} {rest : List τ}
    (hfront : s.taskQueues (!s.quePdtIdx) = task :: rest) :
    Inv { s with
      taskQueues := Function.update s.taskQueues (!s.quePdtIdx) rest
      workers := Function.update s.workers w (.running task)
      taken := s.taken ++ [task] } where
  line := by
    simp only [Function.update_self, Function.update_of_ne (Bool.not_ne_self s.quePdtIdx).symm]
    rw [← h.line, hfront]
    simp only [List.append_assoc, List.nil_append, List.cons_append]
  ran task' := by
    have hcount := busy_update s w (.running task) task'
    simp only [hw, reduceCtorEq, if_false, Nat.add_zero, Worker.running.injEq] at hcount
    have hran := h.ran task'
    simp only [busy, List.count_append, List.count_singleton, beq_iff_eq]
    rw [hcount]
    omega
  fault := h.fault
  returned w' hw' := by
    have hret := h.returned w' (returned_before (by simp) hw')
    refine ⟨hret.1, ?_⟩
    rw [List.length_append]
    exact Nat.le_add_right_of_le hret.2
  stopping := h.stopping
  before := h.before
  joined hjoined := by
    -- the destructor has seen this worker return
    cases hw.symm.trans (h.joined hjoined w)

theorem Inv.execute (h : s.Inv) {w : ω} {task : τ} (hrun : s.workers w = .running task) :
    Inv { s with
      workers := Function.update s.workers w .waiting, executed := s.executed ++ [task] } where
  line := h.line
  ran task' := by
    have hcount := busy_update s w .waiting task'
    simp only [hrun, reduceCtorEq, if_false, Nat.add_zero, Worker.running.injEq] at hcount
    have hran := h.ran task'
    simp only [busy, List.count_append, List.count_singleton, beq_iff_eq] at hran ⊢
    rw [← hran, ← busy, ← hcount]
    omega
  fault := h.fault
  returned w' hw' := by
    exact h.returned w' (returned_before (by simp) hw')
  stopping := h.stopping
  before := h.before
  joined hjoined := by cases hrun.symm.trans (h.joined hjoined w)

end Safety

/-! ## What a step can do -/

variable [DecidableEq π] [DecidableEq ω] [Fintype ω] [DecidableEq τ] {l : Label π ω τ}

/-- The steps, with the queues named by their users. -/
inductive Moved (s : ThreadPool π ω τ) : ThreadPool π ω τ → Prop where
  | frame (producers : π → Option τ) : Moved s { s with producers := producers }
  | push (p : π) (task : τ) : Moved s (s.push p task)
  | stopped (w : ω) (waiting : s.workers w = .waiting) (stop : s.shouldStop = true)
      (idle : s.Idle) : Moved s { s with workers := Function.update s.workers w .returned }
  | took (w : ω) (waiting : s.workers w = .waiting) (s₁ : ThreadPool π ω τ) (task : τ)
      (rest : List τ) (flipped : s₁ = s.flip)
      (front : s₁.taskQueues (!s₁.quePdtIdx) = task :: rest) :
      Moved s { s₁ with
        taskQueues := Function.update s₁.taskQueues (!s₁.quePdtIdx) rest
        workers := Function.update s₁.workers w (.running task)
        taken := s₁.taken ++ [task] }
  | executed (w : ω) (task : τ) (running : s.workers w = .running task) :
      Moved s { s with
        workers := Function.update s.workers w .waiting, executed := s.executed ++ [task] }
  | stop (notStarted : s.destructor = .notStarted) :
      Moved s { s with shouldStop := true, destructor := .joining, before := s.pushed.length }
  | join (returned : ∀ w, s.workers w = .returned) : Moved s { s with destructor := .joined }

theorem moved (hs : s.step l = some s') : s.Moved s' := by
  cases l with
  | addTask p task =>
    simp only [step, Option.ite_none_right_eq_some, Option.some.injEq] at hs
    rcases hs with ⟨-, rfl⟩
    unfold addTask
    split
    · exact .frame s.producers
    · exact .frame _
  | push p =>
    rcases Option.map_eq_some_iff.mp hs with ⟨task, -, rfl⟩
    exact .push p task
  | take w =>
    simp only [step, Option.ite_none_right_eq_some, Option.some.injEq] at hs
    rcases hs with ⟨⟨hwait, hwake⟩, rfl⟩
    unfold take
    split
    · next hstop => exact .stopped w hwait hstop.1 hstop.2
    · next hgo =>
      -- the worker was woken because there is a task
      have hbusy : ¬ s.Idle := fun hidle => hgo ⟨hwake.resolve_right (not_not.mpr hidle), hidle⟩
      unfold pop
      split
      · next hnil => exact absurd hnil (flip_ne_nil hbusy)
      · next task rest hfront => exact .took w hwait s.flip task rest rfl hfront
  | execute w =>
    unfold step at hs
    dsimp only at hs
    split at hs
    · next task hrun =>
      cases hs
      exact .executed w task hrun
    · cases hs
    · cases hs
  | stop =>
    simp only [step, Option.ite_none_right_eq_some, Option.some.injEq] at hs
    rcases hs with ⟨hnot, rfl⟩
    exact .stop hnot
  | join =>
    simp only [step, Option.ite_none_right_eq_some, Option.some.injEq] at hs
    rcases hs with ⟨⟨-, hall⟩, rfl⟩
    exact .join hall

/-- What a step preserves. -/
theorem Inv.moved (h : s.Inv) (hm : s.Moved s') : s'.Inv := by
  cases hm with
  | frame producers => exact { h with }
  | push p task => exact h.push p task
  | stopped w hw hstop hidle => exact h.return hw hstop hidle
  | took w hw s₁ task rest hflip hfront =>
    subst hflip
    apply h.flip.take _ hfront
    rw [← hw]
    unfold ThreadPool.flip
    split
    · rfl
    · rfl
  | executed w task hrun => exact h.execute hrun
  | stop hnot =>
    refine ⟨h.line, h.ran, h.fault, ?_, ?_, le_rfl, ?_⟩
    · -- nobody has returned before the destructor starts
      intro w hw
      exact absurd hnot (h.stopping (h.returned w hw).1)
    · rintro - ⟨⟩
    · rintro ⟨⟩
  | join hall =>
    refine ⟨h.line, h.ran, h.fault, h.returned, ?_, h.before, ?_⟩
    · rintro - ⟨⟩
    · intro _
      exact hall

theorem inv {ok : ThreadPool π ω τ → Label π ω τ → Prop} (h : machine.Reachable ok s) : s.Inv := by
  apply h.invariant
  · rintro _ rfl
    exact inv_start
  · intro s l s' _ hinv _ hs
    exact hinv.moved (moved hs)

/-- `front()` finds a task, tasks leave in the order in which they came, and each that
has left is being run or has been run, once. Once the destructor has joined the workers,
what was pushed before it started has left, and all that has left has been run. -/
theorem tasks_run_once_in_order [Nonempty ω] (h : machine.Reachable (fun _ _ => True) s) :
    s.fault = false ∧ s.taken <+: s.pushed ∧
      (∀ task, s.executed.count task + s.busy task = s.taken.count task) ∧
      (s.destructor = .joined →
        s.pushed.take s.before <+: s.taken ∧ s.executed.Perm s.taken) := by
  have hinv := inv h
  have horder : s.taken <+: s.pushed :=
    ⟨_, (List.append_assoc ..).symm.trans hinv.line⟩
  refine ⟨hinv.fault, horder, hinv.ran, ?_⟩
  intro hjoined
  have hall := hinv.joined hjoined
  constructor
  · have w : ω := Classical.arbitrary ω
    have hbefore := (hinv.returned w (hall w)).2
    apply List.prefix_of_prefix_length_le (List.take_prefix _ _) horder
    rw [List.length_take]
    omega
  · rw [List.perm_iff_count]
    intro task
    rw [← hinv.ran task, busy_of_returned hall, Nat.add_zero]

/-- Two workers, a flip between two tasks, and a task that is pushed after the destructor
has started. -/
theorem tasks_run_once_two_workers :
    ∃ s : ThreadPool Bool Bool String, machine.Reachable (fun _ _ => True) s ∧
      s.destructor = .joined ∧ s.before = 1 ∧ s.executed = ["b", "a"] ∧
      s.pushed.take s.before <+: s.taken ∧ s.executed.Perm s.taken := by
  rcases machine.exists_of_run (fun _ _ => True) (s := (start : ThreadPool Bool Bool String)) rfl
    [.addTask true "a", .addTask false "b", .push true, .take true, .stop, .push false,
      .take false, .execute false, .execute true, .take true, .take false, .join]
    (fun s => s.destructor = .joined ∧ s.before = 1 ∧ s.executed = ["b", "a"])
    (by decide +kernel) with ⟨s, hs, hjoined, hbefore, hexecuted⟩
  exact ⟨s, hs, hjoined, hbefore, hexecuted, (tasks_run_once_in_order hs).2.2.2 hjoined⟩

end ThreadPool

end Taotu
