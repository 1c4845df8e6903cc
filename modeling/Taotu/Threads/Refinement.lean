import Taotu.Threads.ThreadPool
import Taotu.Threads.Waking

/-!
# Taotu.Threads.Refinement — critical sections and their small steps

The small steps of `Taotu.Threads.Waking` refine the critical sections of
`Taotu.Threads.ThreadPool`, although the two mutexes let a push fall into the turn of a
worker: every state that is reached in small steps stands for one that is reached in
critical sections (`exists_refined`). In particular `front()` finds a task
(`fault_eq_false`).

**Where a turn takes effect.** A worker that runs a task has it when it finds the queue of
the consumers filled, or when it flips the index: from then on the first task in that queue
is its own. A worker that returns does so when it finds the queue of the producers empty
and that of the consumers is, which cannot change while it holds the mutex. A push in
between comes after the turn.
-/

namespace Taotu

open Lib

/-! ## What a small step stands for -/

/-- The task of a call that has found `should_stop_` unset. -/
def Adding.accepted {τ : Type} : Adding τ → Option τ
  | lockQueue task | push task => some task
  | idle | testStop _ | notify | unlockQueue => none

def Destructing.phase : Destructing → Destructor
  | idle | lock | stop => .notStarted
  | notifyAll | unlock | join => .joining
  | joined => .joined

namespace Working

variable {τ : Type} {pc : Working τ} {pdt csm csm' : List τ} {stop : Bool}

/-- What the turn has come to; `csm` is the queue of the consumers. -/
def turn (csm : List τ) : Working τ → Worker τ
  | unlock task | run task => .running task
  | unlockQueue | pop =>
    match csm with
    | task :: _ => .running task
    | [] => .waiting
  | exitCsm =>
    match csm with
    | [] => .returned
    | _ :: _ => .waiting
  | leave | returned => .returned
  | lock | testStop | testPdt | testCsm | wait | waiting | exitStop | exitPdt | testQueue
  | lockQueue | flip => .waiting

/-- The queue of the consumers without a task that is the worker's own already. -/
def rest (csm : List τ) : Working τ → List τ
  | unlockQueue | pop => csm.tail
  | _ => csm

/-- What a worker has seen of the queues and of `should_stop_`. -/
def Knows (pdt csm : List τ) (stop : Bool) : Working τ → Prop
  | exitStop => stop = true ∨ pdt ≠ [] ∨ csm ≠ []
  | testQueue => pdt ≠ [] ∨ csm ≠ []
  | lockQueue | flip => csm = [] ∧ pdt ≠ []
  | unlockQueue | pop => csm ≠ []
  | _ => True

/-- Without the mutex a worker has nothing to do with the queues. -/
theorem turn_of_not_locked (h : ¬ pc.Locked) : pc.turn csm = pc.turn csm' := by
  cases pc with
  | lock | waiting | run | returned => rfl
  | _ => exact absurd trivial h

theorem knows_of_not_locked (h : ¬ pc.Locked) : pc.Knows pdt csm stop := by
  cases pc with
  | lock | waiting | run | returned => trivial
  | _ => exact absurd trivial h

/-- A push does not take back what a worker has seen. -/
theorem Knows.push (h : pc.Knows pdt csm stop) (task : τ) :
    pc.Knows (pdt ++ [task]) csm stop := by
  have hne : pdt ++ [task] ≠ [] := by simp
  cases pc with
  | exitStop => exact .inr (.inl hne)
  | testQueue => exact .inl hne
  | lockQueue | flip => exact ⟨h.1, hne⟩
  | _ => exact h

theorem Knows.stopping (h : pc.Knows pdt csm stop) : pc.Knows pdt csm true := by
  cases pc with
  | exitStop => exact .inl rfl
  | _ => exact h

end Working

/-! ## Turns -/

namespace ThreadPool

variable {π ω τ : Type} [DecidableEq π] [DecidableEq ω] [Fintype ω] [DecidableEq τ]
  {t : ThreadPool π ω τ} {w : ω} {task : τ} {rest : List τ}

theorem step_take_returned (hw : t.workers w = .waiting) (hstop : t.shouldStop = true)
    (hidle : t.Idle) :
    t.step (.take w) = some { t with workers := Function.update t.workers w .returned } := by
  rw [step, if_pos ⟨hw, .inl hstop⟩, take, if_pos ⟨hstop, hidle⟩]

theorem step_take_filled (hw : t.workers w = .waiting)
    (hcsm : t.taskQueues (!t.quePdtIdx) = task :: rest) :
    t.step (.take w) = some { t with
      taskQueues := Function.update t.taskQueues (!t.quePdtIdx) rest
      workers := Function.update t.workers w (.running task)
      taken := t.taken ++ [task] } := by
  have hidle : ¬ t.Idle := by simp [Idle, hcsm]
  have hflip : t.flip = t := by simp [flip, hcsm]
  rw [step, if_pos ⟨hw, .inr hidle⟩, take, if_neg fun h => hidle h.2, hflip, pop, hcsm]

theorem step_take_flipped (hw : t.workers w = .waiting) (hcsm : t.taskQueues (!t.quePdtIdx) = [])
    (hpdt : t.taskQueues t.quePdtIdx = task :: rest) :
    t.step (.take w) = some { t with
      quePdtIdx := !t.quePdtIdx
      taskQueues := Function.update t.taskQueues (!!t.quePdtIdx) rest
      workers := Function.update t.workers w (.running task)
      taken := t.taken ++ [task] } := by
  have hidle : ¬ t.Idle := by simp [Idle, hpdt]
  have hflip : t.flip = { t with quePdtIdx := !t.quePdtIdx } := by simp [flip, hcsm]
  have hfront : t.taskQueues (!!t.quePdtIdx) = task :: rest := by rw [Bool.not_not, hpdt]
  rw [step, if_pos ⟨hw, .inr hidle⟩, take, if_neg fun h => hidle h.2, hflip, pop]
  dsimp only
  rw [hfront]

end ThreadPool

namespace WakingPool

variable {π ω τ : Type}

/-- The queue of the consumers without a task that is a worker's own already. -/
def rest (s : WakingPool π ω τ) : List τ :=
  match s.pdtCsmMutex with
  | some (.worker w) => (s.workers w).rest s.csm
  | some (.producer _) | some .destructor | none => s.csm

/-- The state in small steps stands for the state in critical sections. -/
structure Refines (s : WakingPool π ω τ) (t : ThreadPool π ω τ) : Prop where
  stop : t.shouldStop = s.shouldStop
  idx : t.quePdtIdx = s.quePdtIdx
  pdt : t.taskQueues s.quePdtIdx = s.pdt
  csm : t.taskQueues (!s.quePdtIdx) = s.rest
  producers : ∀ p, t.producers p = (s.producers p).accepted
  workers : ∀ w, t.workers w = (s.workers w).turn s.csm
  destructor : t.destructor = s.destructor.phase
  knows : ∀ w, (s.workers w).Knows s.pdt s.csm s.shouldStop
  fault : s.fault = false

variable {s s' : WakingPool π ω τ} {t : ThreadPool π ω τ} {p : π} {w : ω} {heard : Prop}

theorem rest_congr (hmutex : s'.pdtCsmMutex = s.pdtCsmMutex) (hcsm : s'.csm = s.csm)
    (hworkers : ∀ w, (s'.workers w).rest s.csm = (s.workers w).rest s.csm) :
    s'.rest = s.rest := by
  unfold rest
  rw [hmutex, hcsm]
  split
  · exact hworkers _
  · rfl
  · rfl
  · rfl

theorem rest_of_locked (h : s.Inv heard) (hw : (s.workers w).Locked) :
    s.rest = (s.workers w).rest s.csm := by
  rw [rest, h.locked w hw]

/-- The other workers do not have the mutex. -/
theorem Inv.alone (h : s.Inv heard) (hw : (s.workers w).Locked) {w' : ω} (hne : w' ≠ w) :
    ¬ (s.workers w').Locked := by
  intro hw'
  cases (h.locked w hw).symm.trans (h.locked w' hw')
  exact hne rfl

theorem refines_start : (start : WakingPool π ω τ).Refines .start :=
  ⟨rfl, rfl, rfl, rfl, fun _ => rfl, fun _ => rfl, rfl, fun _ => trivial, rfl⟩

/-! ## Steps that stand for nothing -/

theorem Refines.queMutex (h : s.Refines t) (m : Option (PoolThread π ω)) :
    Refines { s with queCsmMutex := m } t :=
  ⟨h.stop, h.idx, h.pdt, h.csm, h.producers, h.workers, h.destructor, h.knows, h.fault⟩

/-- The mutex changes hands while no task is on its way to a worker. -/
theorem Refines.mutex (h : s.Refines t) (m : Option (PoolThread π ω))
    (hrest : rest { s with pdtCsmMutex := m } = s.rest) :
    Refines { s with pdtCsmMutex := m } t :=
  ⟨h.stop, h.idx, h.pdt, h.csm.trans hrest.symm, h.producers, h.workers, h.destructor, h.knows,
    h.fault⟩

theorem Refines.destruct (h : s.Refines t) (d : Destructing)
    (hphase : d.phase = s.destructor.phase) : Refines { s with destructor := d } t :=
  ⟨h.stop, h.idx, h.pdt, h.csm, h.producers, h.workers, h.destructor.trans hphase.symm, h.knows,
    h.fault⟩

theorem Refines.wakeAll [DecidableEq τ] (h : s.Refines t) : s.wakeAll.Refines t := by
  have hsame : ∀ w, s.workers w = .waiting ∧ s.wakeAll.workers w = .lock ∨
      s.wakeAll.workers w = s.workers w := by
    intro w
    by_cases hw : s.workers w = .waiting
    · exact .inl ⟨hw, if_pos hw⟩
    · exact .inr (if_neg hw)
  have hrest : s.wakeAll.rest = s.rest := by
    refine rest_congr rfl rfl fun w => ?_
    rcases hsame w with ⟨hw, heq⟩ | heq
    · rw [heq, hw]
      rfl
    · rw [heq]
  refine ⟨h.stop, h.idx, h.pdt, h.csm.trans hrest.symm, h.producers, ?_, h.destructor, ?_,
    h.fault⟩
  · intro w
    refine (h.workers w).trans ?_
    show (s.workers w).turn s.csm = (s.wakeAll.workers w).turn s.csm
    rcases hsame w with ⟨hw, heq⟩ | heq
    · rw [heq, hw]
      rfl
    · rw [heq]
  · intro w
    show (s.wakeAll.workers w).Knows s.pdt s.csm s.shouldStop
    rcases hsame w with ⟨-, heq⟩ | heq
    · rw [heq]
      trivial
    · rw [heq]
      exact h.knows w

section Workers

variable [DecidableEq ω]

theorem rest_goto (s : WakingPool π ω τ) {pc : Working τ}
    (hrest : pc.rest s.csm = (s.workers w).rest s.csm) : (s.goto w pc).rest = s.rest := by
  refine rest_congr rfl rfl fun w' => ?_
  by_cases hw : w' = w
  · subst hw
    rw [goto_workers, hrest]
  · rw [goto_of_ne hw]

/-- A worker moves on and leaves the queues alone. -/
theorem Refines.goto_turn {t' : ThreadPool π ω τ} (h : s.Refines t) (pc : Working τ)
    (hrest : pc.rest s.csm = (s.workers w).rest s.csm)
    (hknows : pc.Knows s.pdt s.csm s.shouldStop)
    (ht' : t' = { t with
      workers := Function.update t.workers w (pc.turn s.csm), executed := t'.executed }) :
    (s.goto w pc).Refines t' := by
  rw [ht']
  refine ⟨h.stop, h.idx, h.pdt, h.csm.trans (rest_goto s hrest).symm, h.producers, ?_,
    h.destructor, ?_, h.fault⟩
  · intro w'
    by_cases hw : w' = w
    · subst hw
      exact (Function.update_self ..).trans (congrArg _ (goto_workers s w' pc).symm)
    · refine (Function.update_of_ne hw ..).trans ((h.workers w').trans ?_)
      exact congrArg _ (goto_of_ne hw pc).symm
  · intro w'
    by_cases hw : w' = w
    · subst hw
      rw [goto_workers]
      exact hknows
    · rw [goto_of_ne hw]
      exact h.knows w'

/-- A worker moves on, and its turn has come to the same. -/
theorem Refines.goto (h : s.Refines t) (pc : Working τ)
    (hturn : pc.turn s.csm = (s.workers w).turn s.csm)
    (hrest : pc.rest s.csm = (s.workers w).rest s.csm)
    (hknows : pc.Knows s.pdt s.csm s.shouldStop) : (s.goto w pc).Refines t := by
  refine h.goto_turn pc hrest hknows ?_
  rw [hturn, ← h.workers, Function.update_eq_self]

/-- A worker that is woken waits for its turn as before. -/
theorem Refines.wake (h : s.Refines t) (hw : s.workers w = .waiting) : (s.wake w).Refines t :=
  h.goto .lock (hw ▸ rfl) (hw ▸ rfl) trivial

/-- A worker that has no task on its way to it gives the mutex back. -/
theorem Refines.unlock (h : s.Refines t) (hinv : s.Inv heard) (hw : (s.workers w).Locked)
    (pc : Working τ) (hturn : pc.turn s.csm = (s.workers w).turn s.csm)
    (hrest : pc.rest s.csm = s.csm) (hrest' : (s.workers w).rest s.csm = s.csm)
    (hknows : pc.Knows s.pdt s.csm s.shouldStop) :
    Refines { s.goto w pc with pdtCsmMutex := none } t := by
  have hsame : pc.rest s.csm = (s.workers w).rest s.csm := hrest.trans hrest'.symm
  refine (h.goto pc hturn hsame hknows).mutex none ?_
  rw [rest_goto s hsame, rest_of_locked hinv hw, hrest']
  rfl

/-- A worker with the mutex moves on and changes the queues. -/
theorem Refines.turn {t' : ThreadPool π ω τ} (h : s.Refines t) (hinv : s.Inv heard)
    (hw : (s.workers w).Locked) (pc : Working τ) (queues : Bool → List τ) (idx : Bool)
    (hknows : pc.Knows (queues idx) (queues !idx) s.shouldStop)
    (hstop : t'.shouldStop = t.shouldStop) (hidx : t'.quePdtIdx = idx)
    (hpdt : t'.taskQueues idx = queues idx) (hcsm : t'.taskQueues (!idx) = pc.rest (queues !idx))
    (hproducers : t'.producers = t.producers)
    (hworkers : t'.workers = Function.update t.workers w (pc.turn (queues !idx)))
    (hdestructor : t'.destructor = t.destructor) :
    Refines { s.goto w pc with taskQueues := queues, quePdtIdx := idx } t' := by
  refine ⟨hstop.trans h.stop, hidx, hpdt, ?_, ?_, ?_, hdestructor.trans h.destructor, ?_, h.fault⟩
  · rw [hcsm, rest]
    show _ = match s.pdtCsmMutex with
      | some (.worker w') => ((s.goto w pc).workers w').rest (queues !idx)
      | some (.producer _) | some .destructor | none => queues !idx
    rw [hinv.locked w hw]
    dsimp only
    rw [goto_workers]
  · rw [hproducers]
    exact h.producers
  · intro w'
    rw [hworkers]
    by_cases hne : w' = w
    · subst hne
      rw [Function.update_self]
      exact congrArg (Working.turn _) (goto_workers s w' pc).symm
    · -- the others do not have the mutex
      rw [Function.update_of_ne hne, h.workers,
        Working.turn_of_not_locked (hinv.alone hw hne)]
      exact congrArg (Working.turn _) (goto_of_ne hne pc).symm
  · intro w'
    by_cases hne : w' = w
    · subst hne
      exact (goto_workers s w' pc).symm ▸ hknows
    · exact (goto_of_ne hne pc).symm ▸ Working.knows_of_not_locked (hinv.alone hw hne)

/-- A worker takes its own task out of the queue. -/
theorem Refines.pop (h : s.Refines t) (hinv : s.Inv heard) (hpc : s.workers w = .pop) {task : τ}
    {rest : List τ} (hfront : s.csm = task :: rest) :
    Refines { s.goto w (.unlock task) with
      taskQueues := Function.update s.taskQueues (!s.quePdtIdx) rest } t := by
  have hlocked : (s.workers w).Locked := hpc ▸ trivial
  have hpdt : Function.update s.taskQueues (!s.quePdtIdx) rest s.quePdtIdx = s.pdt :=
    Function.update_of_ne (Bool.not_ne_self _).symm ..
  refine h.turn hinv hlocked (.unlock task) _ s.quePdtIdx trivial rfl h.idx
    (h.pdt.trans hpdt.symm) ?_ rfl ?_ rfl
  · rw [h.csm, rest_of_locked hinv hlocked, hpc, hfront]
    exact (Function.update_self (!s.quePdtIdx) rest s.taskQueues).symm
  · rw [eq_comm, Function.update_eq_self_iff, h.workers, hpc, hfront]
    rfl

end Workers

section Producers

variable [DecidableEq π]

/-- A call of `AddTask` moves on. -/
theorem Refines.produce_accepted (h : s.Refines t) (pc : Adding τ) :
    (s.produce p pc).Refines { t with
      producers := Function.update t.producers p pc.accepted } := by
  refine ⟨h.stop, h.idx, h.pdt, h.csm, ?_, h.workers, h.destructor, h.knows, h.fault⟩
  intro p'
  show Function.update t.producers p pc.accepted p' =
    (Function.update s.producers p pc p').accepted
  by_cases hp : p' = p
  · rw [hp, Function.update_self, Function.update_self]
  · rw [Function.update_of_ne hp, Function.update_of_ne hp]
    exact h.producers p'

theorem Refines.produce (h : s.Refines t) (pc : Adding τ)
    (hsame : pc.accepted = (s.producers p).accepted) : (s.produce p pc).Refines t := by
  have hmoved := h.produce_accepted (p := p) pc
  rw [hsame, ← h.producers, Function.update_eq_self] at hmoved
  exact hmoved

/-- A push comes behind the turn of a worker that has the mutex. -/
theorem Refines.push (h : s.Refines t) {task : τ} :
    Refines { s.produce p .notify with
      taskQueues := Function.update s.taskQueues s.quePdtIdx (s.pdt ++ [task]) }
      (t.push p task) := by
  have hmoved := h.produce_accepted (p := p) .notify
  have hpdt : Function.update s.taskQueues s.quePdtIdx (s.pdt ++ [task]) s.quePdtIdx =
      s.pdt ++ [task] := Function.update_self ..
  have hcsm : Function.update s.taskQueues s.quePdtIdx (s.pdt ++ [task]) (!s.quePdtIdx) = s.csm :=
    Function.update_of_ne (Bool.not_ne_self _) ..
  have hrest : rest { s.produce p .notify with
      taskQueues := Function.update s.taskQueues s.quePdtIdx (s.pdt ++ [task]) } = s.rest :=
    rest_congr rfl hcsm fun _ => rfl
  refine ⟨h.stop, h.idx, Eq.trans ?_ hpdt.symm, Eq.trans ?_ hrest.symm, hmoved.producers, ?_,
    h.destructor, ?_, h.fault⟩
  · show Function.update t.taskQueues t.quePdtIdx (t.taskQueues t.quePdtIdx ++ [task])
      s.quePdtIdx = _
    rw [h.idx, Function.update_self, h.pdt]
  · show Function.update t.taskQueues t.quePdtIdx (t.taskQueues t.quePdtIdx ++ [task])
      (!s.quePdtIdx) = _
    rw [h.idx, Function.update_of_ne (Bool.not_ne_self _)]
    exact h.csm
  · intro w
    show t.workers w = (s.workers w).turn
      (Function.update s.taskQueues s.quePdtIdx (s.pdt ++ [task]) (!s.quePdtIdx))
    rw [hcsm]
    exact h.workers w
  · intro w
    show (s.workers w).Knows (Function.update s.taskQueues s.quePdtIdx (s.pdt ++ [task]) s.quePdtIdx)
      (Function.update s.taskQueues s.quePdtIdx (s.pdt ++ [task]) (!s.quePdtIdx)) s.shouldStop
    rw [hpdt, hcsm]
    exact (h.knows w).push task

end Producers

/-! ## Steps -/

section Steps

variable [DecidableEq π] [DecidableEq ω] [Fintype ω] [DecidableEq τ]

/-- A small step stands for a critical section, or for nothing. -/
def Matched (s' : WakingPool π ω τ) (t : ThreadPool π ω τ) : Prop :=
  s'.Refines t ∨ ∃ l t', t.step l = some t' ∧ s'.Refines t'

/-- A worker is going to return: it holds the mutex and has found both queues empty. -/
theorem Refines.leave (h : s.Refines t) (hinv : s.Inv heard) (hpc : s.workers w = .exitPdt)
    (hpdt : s.pdt = []) : (s.goto w .exitCsm).Matched t := by
  have hlocked : (s.workers w).Locked := hpc ▸ trivial
  have hturn := h.workers w
  rw [hpc] at hturn
  cases hcsm : s.csm with
  | cons task rest =>
    -- there is a task, and the turn goes on
    refine .inl (h.goto _ ?_ ?_ trivial)
    · rw [hpc, hcsm]
      rfl
    · rw [hpc]
      rfl
  | nil =>
    have hstop := h.stop.trans (hinv.stopped w (hpc ▸ trivial))
    have hidle : t.Idle := by
      refine ⟨?_, ?_⟩
      · rw [h.idx, h.pdt, hpdt]
      · rw [h.idx, h.csm, rest_of_locked hinv hlocked, hpc]
        exact hcsm
    refine .inr ⟨_, _, ThreadPool.step_take_returned hturn hstop hidle, ?_⟩
    refine h.turn hinv hlocked .exitCsm s.taskQueues s.quePdtIdx trivial rfl h.idx h.pdt ?_ rfl ?_
      rfl
    · exact h.csm.trans ((rest_of_locked hinv hlocked).trans (hpc ▸ rfl))
    · show _ = Function.update t.workers w (Working.exitCsm.turn s.csm)
      rw [hcsm]
      rfl

/-- A worker finds a task in the queue of the consumers. -/
theorem Refines.find (h : s.Refines t) (hinv : s.Inv heard) (hpc : s.workers w = .testQueue)
    (hcsm : s.csm ≠ []) : (s.goto w .pop).Matched t := by
  have hlocked : (s.workers w).Locked := hpc ▸ trivial
  have hturn := h.workers w
  rw [hpc] at hturn
  rcases List.exists_cons_of_ne_nil hcsm with ⟨task, rest, hfront⟩
  have hqueue : t.taskQueues (!t.quePdtIdx) = task :: rest := by
    rw [h.idx, h.csm, rest_of_locked hinv hlocked, hpc]
    exact hfront
  refine .inr ⟨_, _, ThreadPool.step_take_filled hturn hqueue, ?_⟩
  refine h.turn hinv hlocked .pop s.taskQueues s.quePdtIdx hcsm rfl h.idx ?_ ?_ rfl ?_ rfl
  · rw [h.idx]
    exact (Function.update_of_ne (Bool.not_ne_self _).symm ..).trans h.pdt
  · rw [h.idx]
    refine (Function.update_self ..).trans ?_
    show rest = (s.csm).tail
    rw [hfront]
    rfl
  · show _ = Function.update t.workers w (Working.pop.turn s.csm)
    rw [hfront]
    rfl

/-- A worker flips the index. -/
theorem Refines.flip (h : s.Refines t) (hinv : s.Inv heard) (hpc : s.workers w = .flip) :
    Matched { s.goto w .unlockQueue with quePdtIdx := !s.quePdtIdx } t := by
  have hlocked : (s.workers w).Locked := hpc ▸ trivial
  have hturn := h.workers w
  have hknows := h.knows w
  rw [hpc] at hturn hknows
  rcases hknows with ⟨hcsm, hpdt⟩
  rcases List.exists_cons_of_ne_nil hpdt with ⟨task, rest, hfront⟩
  have hempty : t.taskQueues (!t.quePdtIdx) = [] := by
    rw [h.idx, h.csm, rest_of_locked hinv hlocked, hpc]
    exact hcsm
  have hqueue : t.taskQueues t.quePdtIdx = task :: rest := by
    rw [h.idx, h.pdt, hfront]
  -- what was the queue of the producers is now that of the consumers
  have hnew : s.taskQueues (!!s.quePdtIdx) = task :: rest := by
    rw [Bool.not_not]
    exact hfront
  refine .inr ⟨_, _, ThreadPool.step_take_flipped hturn hempty hqueue, ?_⟩
  refine h.turn hinv hlocked .unlockQueue s.taskQueues (!s.quePdtIdx) ?_ rfl
    (congrArg (!·) h.idx) ?_ ?_ rfl ?_ rfl
  · show s.taskQueues (!!s.quePdtIdx) ≠ []
    rw [hnew]
    exact List.cons_ne_nil _ _
  · rw [h.idx] at hempty ⊢
    exact (Function.update_of_ne (Bool.not_ne_self _).symm ..).trans (hempty.trans hcsm.symm)
  · rw [h.idx]
    refine (Function.update_self ..).trans ?_
    show rest = (s.taskQueues (!!s.quePdtIdx)).tail
    rw [hnew]
    rfl
  · rw [hnew]
    rfl

theorem Refines.workerStep (h : s.Refines t) (hinv : s.Inv heard)
    (hs : s.workerStep w = some s') : s'.Matched t := by
  rw [WakingPool.workerStep] at hs
  split at hs
  · next hpc =>
    -- lock
    simp only [Option.ite_none_right_eq_some, Option.some.injEq] at hs
    rcases hs with ⟨hfree, rfl⟩
    have hrest : Working.testStop.rest s.csm = (s.workers w).rest s.csm := hpc ▸ rfl
    refine .inl ((h.goto .testStop (hpc ▸ rfl) hrest trivial).mutex (some (.worker w)) ?_)
    rw [rest_goto s hrest, rest, rest, hfree]
    show ((s.goto w .testStop).workers w).rest s.csm = s.csm
    rw [goto_workers]
    rfl
  · next hpc =>
    cases hs
    split
    · next hstop => exact .inl (h.goto _ (hpc ▸ rfl) (hpc ▸ rfl) (.inl hstop))
    · exact .inl (h.goto _ (hpc ▸ rfl) (hpc ▸ rfl) trivial)
  · next hpc =>
    cases hs
    split
    · exact .inl (h.goto _ (hpc ▸ rfl) (hpc ▸ rfl) trivial)
    · next hpdt => exact .inl (h.goto _ (hpc ▸ rfl) (hpc ▸ rfl) (.inr (.inl hpdt)))
  · next hpc =>
    cases hs
    split
    · exact .inl (h.goto _ (hpc ▸ rfl) (hpc ▸ rfl) trivial)
    · next hcsm => exact .inl (h.goto _ (hpc ▸ rfl) (hpc ▸ rfl) (.inr (.inr hcsm)))
  · next hpc =>
    cases hs
    exact .inl (h.unlock hinv (hpc ▸ trivial) _ (hpc ▸ rfl) rfl (hpc ▸ rfl) trivial)
  · cases hs
  · next hpc =>
    have hknows := h.knows w
    rw [hpc] at hknows
    cases hs
    split
    · exact .inl (h.goto _ (hpc ▸ rfl) (hpc ▸ rfl) trivial)
    · next hstop => exact .inl (h.goto _ (hpc ▸ rfl) (hpc ▸ rfl) (hknows.resolve_left hstop))
  · next hpc =>
    cases hs
    split
    · next hpdt => exact h.leave hinv hpc hpdt
    · next hpdt => exact .inl (h.goto _ (hpc ▸ rfl) (hpc ▸ rfl) (.inl hpdt))
  · next hpc =>
    cases hs
    split
    · next hcsm =>
      refine .inl (h.goto _ ?_ (hpc ▸ rfl) trivial)
      rw [hpc, hcsm]
      rfl
    · next hcsm =>
      refine .inl (h.goto _ ?_ (hpc ▸ rfl) (.inr hcsm))
      rcases List.exists_cons_of_ne_nil hcsm with ⟨task, rest, hfront⟩
      rw [hpc, hfront]
      rfl
  · next hpc =>
    cases hs
    exact .inl (h.unlock hinv (hpc ▸ trivial) _ (hpc ▸ rfl) rfl (hpc ▸ rfl) trivial)
  · next hpc =>
    have hknows := h.knows w
    rw [hpc] at hknows
    cases hs
    split
    · next hcsm =>
      have hpdt := hknows.resolve_right fun hne => hne hcsm
      exact .inl (h.goto _ (hpc ▸ rfl) (hpc ▸ rfl) ⟨hcsm, hpdt⟩)
    · next hcsm => exact h.find hinv hpc hcsm
  · next hpc =>
    have hknows := h.knows w
    rw [hpc] at hknows
    simp only [Option.ite_none_right_eq_some, Option.some.injEq] at hs
    rcases hs with ⟨-, rfl⟩
    exact .inl ((h.goto .flip (hpc ▸ rfl) (hpc ▸ rfl) hknows).queMutex _)
  · next hpc =>
    cases hs
    exact h.flip hinv hpc
  · next hpc =>
    have hknows := h.knows w
    rw [hpc] at hknows
    cases hs
    exact .inl ((h.goto .pop (hpc ▸ rfl) (hpc ▸ rfl) hknows).queMutex none)
  · next hpc =>
    have hknows := h.knows w
    rw [hpc] at hknows
    split at hs
    · next hcsm => exact absurd hcsm hknows
    · next task rest hfront =>
      cases hs
      exact .inl (h.pop hinv hpc hfront)
  · next hpc =>
    cases hs
    exact .inl (h.unlock hinv (hpc ▸ trivial) _ (hpc ▸ rfl) rfl (hpc ▸ rfl) trivial)
  · next task hpc =>
    -- the task has been run
    have hturn : t.workers w = .running task := (h.workers w).trans (hpc ▸ rfl)
    cases hs
    refine .inr ⟨.execute w, { t with
      workers := Function.update t.workers w .waiting, executed := t.executed ++ [task] }, ?_, ?_⟩
    · rw [ThreadPool.step, hturn]
    · exact h.goto_turn .lock (hpc ▸ rfl) trivial rfl
  · cases hs

theorem Refines.producerStep {woken : Option ω} (h : s.Refines t)
    (hs : s.producerStep p woken = some s') : s'.Matched t := by
  rw [WakingPool.producerStep] at hs
  split at hs
  · cases hs
  · next task hpc =>
    cases hs
    split
    · exact .inl (h.produce _ (hpc ▸ rfl))
    · next hstop =>
      have hidle : t.producers p = none := (h.producers p).trans (hpc ▸ rfl)
      have hgo : ¬ t.shouldStop = true := h.stop ▸ hstop
      refine .inr ⟨.addTask p task, _, ?_, h.produce_accepted (.lockQueue task)⟩
      rw [ThreadPool.step, if_pos hidle, ThreadPool.addTask, if_neg hgo]
      rfl
  · next task hpc =>
    simp only [Option.ite_none_right_eq_some, Option.some.injEq] at hs
    rcases hs with ⟨-, rfl⟩
    exact .inl ((h.produce (.push task) (hpc ▸ rfl)).queMutex _)
  · next task hpc =>
    cases hs
    have haccepted : t.producers p = some task := (h.producers p).trans (hpc ▸ rfl)
    exact .inr ⟨.push p, t.push p task, by rw [ThreadPool.step, haccepted]; rfl, h.push⟩
  · next hpc =>
    rcases Option.map_eq_some_iff.mp hs with ⟨s₁, hnotified, rfl⟩
    cases woken with
    | some w =>
      simp only [notifyOne, Option.ite_none_right_eq_some, Option.some.injEq] at hnotified
      rcases hnotified with ⟨hw, rfl⟩
      exact .inl ((h.wake hw).produce _ (show _ = (s.producers p).accepted from hpc ▸ rfl))
    | none =>
      simp only [notifyOne, Option.ite_none_right_eq_some, Option.some.injEq] at hnotified
      rcases hnotified with ⟨-, rfl⟩
      exact .inl (h.produce _ (hpc ▸ rfl))
  · next hpc =>
    cases hs
    exact .inl ((h.produce .idle (hpc ▸ rfl)).queMutex none)

theorem Refines.destructorStep (h : s.Refines t) (hinv : s.Inv heard)
    (hs : s.destructorStep = some s') : s'.Matched t := by
  rw [WakingPool.destructorStep] at hs
  split at hs
  · next hpc =>
    cases hs
    exact .inl (h.destruct .lock (hpc ▸ rfl))
  · next hpc =>
    simp only [Option.ite_none_right_eq_some, Option.some.injEq] at hs
    rcases hs with ⟨hfree, rfl⟩
    refine .inl ((h.mutex (some .destructor) ?_).destruct .stop (hpc ▸ rfl))
    rw [rest, rest, hfree]
    rfl
  · next hpc =>
    cases hs
    have hbefore : t.destructor = .notStarted := h.destructor.trans (hpc ▸ rfl)
    refine .inr ⟨.stop, _, if_pos hbefore, ?_⟩
    exact ⟨rfl, h.idx, h.pdt, h.csm, h.producers, h.workers, rfl, fun w => (h.knows w).stopping,
      h.fault⟩
  · next hpc =>
    cases hs
    exact .inl (h.wakeAll.destruct .unlock (hpc ▸ rfl))
  · next hpc =>
    cases hs
    refine .inl ((h.mutex none ?_).destruct .join (hpc ▸ rfl))
    rw [rest, rest, hinv.destructor (hpc ▸ trivial)]
    rfl
  · next hpc =>
    simp only [Option.ite_none_right_eq_some, Option.some.injEq] at hs
    rcases hs with ⟨hall, rfl⟩
    have hbefore : t.destructor = .joining := h.destructor.trans (hpc ▸ rfl)
    have hreturned : ∀ w, t.workers w = .returned := fun w => (h.workers w).trans (hall w ▸ rfl)
    refine .inr ⟨.join, _, if_pos ⟨hbefore, hreturned⟩, ?_⟩
    exact ⟨h.stop, h.idx, h.pdt, h.csm, h.producers, h.workers, rfl, h.knows, h.fault⟩
  · cases hs

theorem Refines.step {l : Label π ω τ} (h : s.Refines t) (hinv : s.Inv heard)
    (hs : s.step l = some s') : s'.Matched t := by
  cases l with
  | addTask p task =>
    simp only [WakingPool.step, Option.ite_none_right_eq_some, Option.some.injEq] at hs
    rcases hs with ⟨hidle, rfl⟩
    exact .inl (h.produce _ (hidle ▸ rfl))
  | producer p woken => exact h.producerStep hs
  | worker w => exact h.workerStep hinv hs
  | spurious w =>
    simp only [WakingPool.step, Option.ite_none_right_eq_some, Option.some.injEq] at hs
    rcases hs with ⟨hw, rfl⟩
    exact .inl (h.wake hw)
  | destructor => exact h.destructorStep hinv hs

/-- **Small steps refine critical sections.** Every state that is reached in small steps
stands for one that is reached in critical sections. -/
theorem exists_refined {ok : WakingPool π ω τ → Label π ω τ → Prop} (h : machine.Reachable ok s) :
    ∃ t, ThreadPool.machine.Reachable (fun _ _ => True) t ∧ s.Refines t := by
  refine h.simulate ?_ fun s l s' t hreach href _ hs => ?_
  · rintro _ rfl
    exact ⟨.start, rfl, refines_start⟩
  · have hinv : s.Inv False := inv False.elim hreach
    exact (href.step hinv hs).imp id fun ⟨l', t', hl', href'⟩ => ⟨l', t', trivial, hl', href'⟩

/-- `front()` finds a task. -/
theorem fault_eq_false {ok : WakingPool π ω τ → Label π ω τ → Prop} (h : machine.Reachable ok s) :
    s.fault = false := by
  rcases exists_refined h with ⟨t, -, href⟩
  exact href.fault

end Steps

end WakingPool

end Taotu
