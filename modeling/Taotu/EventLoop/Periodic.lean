import Taotu.EventLoop.TimeTasks

/-!
# Taotu.EventLoop.Periodic — tasks that come again (`event_manager.cc`, `time_point.cc`)

An expired task with an interval in its context is registered again by the loop, after its
callback has run and if its `IsContinue` says so. The copy that has expired provides the
interval, the callback and `IsContinue`.

1. **Model layer.** The calls that register tasks, and the loop: `Poll`, the active tasks,
   and the pass over the expired tasks, one callback a step. Tasks are registered between
   any two steps, by other threads or by callbacks.
2. **Recurrence.** `Periodic.Recurs` says what becomes of a periodic task: it expires, its
   callback runs, `IsContinue` is asked, and a new entry is made or the task ends. At every
   turn of the loop the timer has the one entry that is due then
   (`periodic_tasks_recur`).
3. **Default start.** The default of `start_time_point` hands the time of day to the
   constructor that expects a duration, and so begins at twice the time of day
   (`default_start_iff`).

What is polled, waking the loop and the closed connections are left out.

**Ghosts.** `id` numbers the registrations, and a task that is registered again keeps it.
`returns` are the return times of `Poll`, by iteration. `history` is what has become of a
registration.
-/

namespace Taotu

open Lib Timer

/-- A `TimeCallback`, which may be empty. -/
structure TimeTask (τ : Type) where
  callback : Option τ
  id : ℕ
deriving DecidableEq, Repr

/-- The time point that `RunEveryUntil` makes. -/
def TimePoint.runEveryUntil {κ : Type} (interval : ℤ) (start : TimePoint κ)
    (isContinue : Option κ) : TimePoint κ :=
  let timePoint := TimePoint.ofStart interval start true
  if isContinue.isSome then timePoint.setTaskContinueCallback isContinue else timePoint

/-- The calls that register a task, with the readings of the clock that they make. -/
inductive Registering (κ τ : Type) where
  | runAt (timePoint : TimePoint κ) (callback : Option τ)
  | runAfter (fNow delay : ℤ) (callback : Option τ)
  | runEveryUntil (interval : ℤ) (callback : Option τ) (start : TimePoint κ) (isContinue : Option κ)
  | runSoon (fNow : ℤ) (callback : Option τ)
deriving DecidableEq, Repr

namespace Registering

variable {κ τ : Type}

def timePoint : Registering κ τ → TimePoint κ
  | runAt timePoint _ => timePoint
  | runAfter fNow delay _ => .ofDuration fNow delay false
  | runEveryUntil interval _ start isContinue => .runEveryUntil interval start isContinue
  | runSoon fNow _ => .now fNow

def callback : Registering κ τ → Option τ
  | runAt _ callback | runAfter _ _ callback | runEveryUntil _ callback _ _
  | runSoon _ callback => callback

end Registering

/-- What becomes of a registration. -/
inductive TaskEvent (κ : Type) where
  | entered (timePoint : TimePoint κ)
  | expired (iteration : ℕ)
  | ran
  | judged (answer : Bool)
deriving DecidableEq, Repr

/-- What `DoExpiredTimeTasks` does next with the first task that is left. -/
inductive TaskStage where
  | callback
  | context
  | again
deriving DecidableEq, Repr

/-- Where the loop is in `Start`. -/
inductive TaskPhase (κ τ : Type) where
  | poll
  | doWithActiveTasks (returnTime : ℤ)
  | doExpiredTimeTasks (returnTime : ℤ) (tasks : TimePoints κ (TimeTask τ)) (stage : TaskStage)
deriving DecidableEq

/-- The expired tasks that are left. -/
def TaskPhase.tasks {κ τ : Type} : TaskPhase κ τ → TimePoints κ (TimeTask τ)
  | poll | doWithActiveTasks _ => []
  | doExpiredTimeTasks _ tasks _ => tasks

structure TaskLoop (κ τ : Type) where
  timePoints : TimePoints κ (TimeTask τ)
  phase : TaskPhase κ τ
  registered : List (Registering κ τ)
  returns : List ℤ
  history : ℕ → List (TaskEvent κ)

namespace TaskLoop

/-! ## Model layer -/

variable {κ τ : Type}

def note (s : TaskLoop κ τ) (id : ℕ) (events : List (TaskEvent κ)) : TaskLoop κ τ :=
  { s with history := Function.update s.history id (s.history id ++ events) }

/-- `AddTimeTask`. -/
def enter (s : TaskLoop κ τ) (timePoint : TimePoint κ) (task : TimeTask τ) : TaskLoop κ τ :=
  { s.note task.id [.entered timePoint] with
    timePoints := s.timePoints.addTimeTask timePoint task }

def register (s : TaskLoop κ τ) (c : Registering κ τ) : TaskLoop κ τ :=
  { s.enter c.timePoint ⟨c.callback, s.registered.length⟩ with
    registered := s.registered ++ [c] }

/-- The entries of a registration. -/
def ofId (id : ℕ) (l : TimePoints κ (TimeTask τ)) : TimePoints κ (TimeTask τ) :=
  l.filter fun e => e.2.id = id

/-- The call of `GetExpiredTimeTasks`. -/
def expire (s : TaskLoop κ τ) (returnTime fNow : ℤ) : TaskLoop κ τ :=
  let (expired, kept) := s.timePoints.getExpiredTimeTasks fNow
  { s with
    timePoints := kept
    phase := .doExpiredTimeTasks returnTime expired .callback
    history := fun id =>
      s.history id ++ (ofId id expired).map fun _ => .expired (s.returns.length - 1) }

/-- The next step of `DoExpiredTimeTasks`. If `IsContinue` is called, `answer` is what it
answers. -/
def turn (s : TaskLoop κ τ) (returnTime : ℤ) (tasks : TimePoints κ (TimeTask τ))
    (stage : TaskStage) (answer : Bool) : TaskLoop κ τ :=
  match tasks with
  | [] => { s with phase := .poll }
  | e :: rest =>
    match stage with
    | .callback =>
      { s.note e.2.id (if e.2.callback.isSome then [.ran] else []) with
        phase := .doExpiredTimeTasks returnTime (e :: rest) .context }
    | .context =>
      if e.1.context = 0 then { s with phase := .doExpiredTimeTasks returnTime rest .callback }
      else
        match e.1.getTaskContinueCallback with
        | some _ =>
          { s.note e.2.id [.judged answer] with
            phase :=
              if answer then .doExpiredTimeTasks returnTime (e :: rest) .again
              else .doExpiredTimeTasks returnTime rest .callback }
        | none => { s with phase := .doExpiredTimeTasks returnTime (e :: rest) .again }
    | .again =>
      { s.enter (.runEveryUntil e.1.context (.now returnTime) e.1.getTaskContinueCallback) e.2 with
        phase := .doExpiredTimeTasks returnTime rest .callback }

inductive Label (κ τ : Type) where
  | register (c : Registering κ τ)
  | poll (returnTime : ℤ)
  | expire (fNow : ℤ)
  | turn (answer : Bool)
deriving DecidableEq, Repr

def step (s : TaskLoop κ τ) : Label κ τ → Option (TaskLoop κ τ)
  | .register c => some (s.register c)
  | .poll returnTime =>
    match s.phase with
    | .poll =>
      some { s with phase := .doWithActiveTasks returnTime, returns := s.returns ++ [returnTime] }
    | _ => none
  | .expire fNow =>
    match s.phase with
    | .doWithActiveTasks returnTime => some (s.expire returnTime fNow)
    | _ => none
  | .turn answer =>
    match s.phase with
    | .doExpiredTimeTasks returnTime tasks stage => some (s.turn returnTime tasks stage answer)
    | _ => none

def start : TaskLoop κ τ := ⟨[], .poll, [], [], fun _ => []⟩

def machine : Machine (TaskLoop κ τ) (Label κ τ) := ⟨fun s => s = start, step⟩

end TaskLoop

/-! ## Recurrence -/

/-- A call of `RunEveryUntil` with a start. -/
structure Periodic (κ τ : Type) where
  interval : ℤ
  callback : Option τ
  start : TimePoint κ
  isContinue : Option κ
  interval_ne : interval ≠ 0

namespace Periodic

variable {κ τ : Type} (p : Periodic κ τ)

def registering : Registering κ τ := .runEveryUntil p.interval p.callback p.start p.isContinue

/-- The entry that is due one interval later. -/
def dueAfter (microseconds : ℤ) : TimePoint κ :=
  ⟨addInt64 microseconds p.interval, p.interval, p.isContinue⟩

/-- The callback runs, if there is one. -/
def ran : List (TaskEvent κ) := if p.callback.isSome then [.ran] else []

/-- `IsContinue` is asked, if there is one. -/
def judged (answer : Bool) : List (TaskEvent κ) :=
  if p.isContinue.isSome then [.judged answer] else []

/-- What becomes of a periodic task, and the entry that the timer has of it afterwards. -/
inductive Recurs (returns : List ℤ) : List (TaskEvent κ) → Option (TimePoint κ) → Prop where
  | entered : Recurs returns [.entered (p.dueAfter p.start.microseconds)]
      (some (p.dueAfter p.start.microseconds))
  /-- It expires and is entered again, due one interval after the return of `Poll`. -/
  | again {events : List (TaskEvent κ)} {timePoint : TimePoint κ} {n : ℕ} {returnTime : ℤ}
      (h : Recurs returns events (some timePoint)) (hn : returns[n]? = some returnTime) :
      Recurs returns
        (events ++ [.expired n] ++ (p.ran ++ p.judged true) ++ [.entered (p.dueAfter returnTime)])
        (some (p.dueAfter returnTime))
  /-- It expires and `IsContinue` answers no. -/
  | ends {events : List (TaskEvent κ)} {timePoint : TimePoint κ} {n : ℕ} {returnTime : ℤ}
      (h : Recurs returns events (some timePoint)) (hn : returns[n]? = some returnTime)
      (hsome : p.isContinue.isSome = true) :
      Recurs returns (events ++ [.expired n] ++ p.ran ++ [.judged false]) none

variable {p} {returns : List ℤ} {events : List (TaskEvent κ)} {next : Option (TimePoint κ)}

/-- The past is not changed by more iterations. -/
theorem Recurs.mono (h : p.Recurs returns events next) (later : List ℤ) :
    p.Recurs (returns ++ later) events next := by
  have hkept : ∀ {n : ℕ} {returnTime : ℤ}, returns[n]? = some returnTime →
      (returns ++ later)[n]? = some returnTime := by
    intro n returnTime hn
    rw [List.getElem?_append_left (List.getElem?_eq_some_iff.mp hn).1, hn]
  induction h with
  | entered => exact .entered
  | again _ hn ih => exact .again ih (hkept hn)
  | ends _ hn hsome ih => exact .ends ih (hkept hn) hsome

/-- Every entry has the interval and the `IsContinue` of the task. -/
theorem Recurs.entry (h : p.Recurs returns events next) :
    ∀ timePoint ∈ next, timePoint.context = p.interval ∧ timePoint.isContinue = p.isContinue := by
  cases h with
  | entered => exact fun timePoint ht => by cases ht; exact ⟨rfl, rfl⟩
  | again => exact fun timePoint ht => by cases ht; exact ⟨rfl, rfl⟩
  | ends => nofun

theorem judged_notMem_ran {answer : Bool} : TaskEvent.judged answer ∉ p.ran := by
  unfold ran
  split <;> simp

/-- The task has ended when `IsContinue` has answered no. -/
theorem Recurs.ended_iff (h : p.Recurs returns events next) :
    next = none ↔ .judged false ∈ events := by
  induction h with
  | entered => simp
  | @again events timePoint n returnTime _ _ ih =>
    have hno : TaskEvent.judged false ∉ events := fun hmem => by cases ih.mpr hmem
    have htrue : TaskEvent.judged false ∉ p.judged true := by
      unfold judged
      split <;> simp
    simp [hno, judged_notMem_ran, htrue]
  | ends => simp

/-- Without an `IsContinue` it goes on for ever. -/
theorem Recurs.goes_on (h : p.Recurs returns events next) (hnone : p.isContinue = none) :
    next ≠ none := by
  cases h with
  | entered => nofun
  | again => nofun
  | ends _ _ hsome =>
    rw [hnone] at hsome
    cases hsome

/-- The time point of a registration and of those that follow it. -/
theorem runEveryUntil_eq (microseconds : TimePoint κ) :
    TimePoint.runEveryUntil p.interval microseconds p.isContinue =
      p.dueAfter microseconds.microseconds := by
  have hne := p.interval_ne
  unfold TimePoint.runEveryUntil TimePoint.ofStart TimePoint.setTaskContinueCallback dueAfter
  cases hc : p.isContinue with
  | none => rfl
  | some k => simp [hne]

/-- What has been done with the first of the expired tasks. -/
def done (p : Periodic κ τ) : TaskStage → List (TaskEvent κ)
  | .callback => []
  | .context => p.ran
  | .again => p.ran ++ p.judged true

end Periodic

namespace TaskLoop

variable {κ τ : Type} {s s' : TaskLoop κ τ} {id : ℕ} {p : Periodic κ τ}

/-! ### The entries of a registration -/

theorem ofId_append (l l' : TimePoints κ (TimeTask τ)) :
    ofId id (l ++ l') = ofId id l ++ ofId id l' :=
  List.filter_append l l'

theorem ofId_cons_of_ne {e : TimePoint κ × TimeTask τ} {l : TimePoints κ (TimeTask τ)}
    (hne : e.2.id ≠ id) : ofId id (e :: l) = ofId id l :=
  List.filter_cons_of_neg (by simpa using hne)

theorem ofId_cons_self {e : TimePoint κ × TimeTask τ} {l : TimePoints κ (TimeTask τ)} :
    ofId e.2.id (e :: l) = e :: ofId e.2.id l :=
  List.filter_cons_of_pos (by simp)

theorem ofId_addTimeTask_of_ne {l : TimePoints κ (TimeTask τ)} {timePoint : TimePoint κ}
    {task : TimeTask τ} (hne : task.id ≠ id) :
    ofId id (l.addTimeTask timePoint task) = ofId id l := by
  rw [TimePoints.addTimeTask, List.orderedInsert_eq_take_drop, ofId_append,
    ofId_cons_of_ne (e := (timePoint, task)) hne, ← ofId_append, List.takeWhile_append_dropWhile]

theorem ofId_addTimeTask {l : TimePoints κ (TimeTask τ)} {timePoint : TimePoint κ}
    {task : TimeTask τ} (hid : task.id = id) (hnone : ofId id l = []) :
    ofId id (l.addTimeTask timePoint task) = [(timePoint, task)] := by
  subst hid
  have hperm : (ofId task.id (l.addTimeTask timePoint task)).Perm
      (ofId task.id ((timePoint, task) :: l)) :=
    (List.perm_orderedInsert _ _ l).filter _
  rw [ofId_cons_self (e := (timePoint, task)), hnone] at hperm
  exact List.perm_singleton.mp hperm

/-- The entries of a registration are divided between what is returned and what stays. -/
theorem ofId_expired (l : TimePoints κ (TimeTask τ)) (fNow : ℤ) :
    ofId id (l.getExpiredTimeTasks fNow).1 ++ ofId id (l.getExpiredTimeTasks fNow).2 =
      ofId id l := by
  rw [← ofId_append, TimePoints.getExpiredTimeTasks, List.takeWhile_append_dropWhile]

theorem note_history_of_ne {n : ℕ} {events : List (TaskEvent κ)} (hne : n ≠ id) :
    (s.note n events).history id = s.history id :=
  Function.update_of_ne hne.symm ..

theorem note_history_self {events : List (TaskEvent κ)} :
    (s.note id events).history id = s.history id ++ events :=
  Function.update_self ..

/-! ### What a turn can do -/

/-- The steps of `DoExpiredTimeTasks`. -/
inductive Turned (s : TaskLoop κ τ) (returnTime : ℤ) :
    TimePoints κ (TimeTask τ) → TaskStage → TaskLoop κ τ → Prop where
  | finished {stage : TaskStage} : Turned s returnTime [] stage { s with phase := .poll }
  | callback {e : TimePoint κ × TimeTask τ} {rest : TimePoints κ (TimeTask τ)} :
      Turned s returnTime (e :: rest) .callback
        { s.note e.2.id (if e.2.callback.isSome then [.ran] else []) with
          phase := .doExpiredTimeTasks returnTime (e :: rest) .context }
  | oneShot {e : TimePoint κ × TimeTask τ} {rest : TimePoints κ (TimeTask τ)}
      (hcontext : e.1.context = 0) :
      Turned s returnTime (e :: rest) .context
        { s with phase := .doExpiredTimeTasks returnTime rest .callback }
  | unasked {e : TimePoint κ × TimeTask τ} {rest : TimePoints κ (TimeTask τ)}
      (hcont : e.1.getTaskContinueCallback = none) :
      Turned s returnTime (e :: rest) .context
        { s with phase := .doExpiredTimeTasks returnTime (e :: rest) .again }
  | goesOn {e : TimePoint κ × TimeTask τ} {rest : TimePoints κ (TimeTask τ)}
      (hcont : e.1.getTaskContinueCallback.isSome = true) :
      Turned s returnTime (e :: rest) .context
        { s.note e.2.id [.judged true] with
          phase := .doExpiredTimeTasks returnTime (e :: rest) .again }
  | stops {e : TimePoint κ × TimeTask τ} {rest : TimePoints κ (TimeTask τ)}
      (hcont : e.1.getTaskContinueCallback.isSome = true) :
      Turned s returnTime (e :: rest) .context
        { s.note e.2.id [.judged false] with
          phase := .doExpiredTimeTasks returnTime rest .callback }
  | again {e : TimePoint κ × TimeTask τ} {rest : TimePoints κ (TimeTask τ)} :
      Turned s returnTime (e :: rest) .again
        { s.enter (.runEveryUntil e.1.context (.now returnTime) e.1.getTaskContinueCallback)
            e.2 with
          phase := .doExpiredTimeTasks returnTime rest .callback }

theorem turn_turned (returnTime : ℤ) (tasks : TimePoints κ (TimeTask τ)) (stage : TaskStage)
    (answer : Bool) : s.Turned returnTime tasks stage (s.turn returnTime tasks stage answer) := by
  cases tasks with
  | nil => exact .finished
  | cons e rest =>
    cases stage with
    | callback => exact .callback
    | context =>
      rw [turn]
      split
      · next hcontext => exact .oneShot hcontext
      · split
        · next hcont =>
          cases answer with
          | true => exact .goesOn (by rw [hcont]; rfl)
          | false => exact .stops (by rw [hcont]; rfl)
        · next hcont => exact .unasked hcont
    | again => exact .again

/-! ### Where a periodic task is -/

/-- A periodic task rests in the timer or has ended; or it has expired, and waits for its
turn or has it. -/
inductive Standing (s : TaskLoop κ τ) (id : ℕ) (p : Periodic κ τ) : Prop where
  | resting (next : Option (TimePoint κ)) (hrec : p.Recurs s.returns (s.history id) next)
      (htimer : ofId id s.timePoints = next.toList.map fun t => (t, ⟨p.callback, id⟩))
      (htasks : ofId id s.phase.tasks = [])
  | listed {events : List (TaskEvent κ)} {timePoint : TimePoint κ} {n : ℕ} {returnTime : ℤ}
      {tasks : TimePoints κ (TimeTask τ)} {stage : TaskStage}
      (hphase : s.phase = .doExpiredTimeTasks returnTime tasks stage)
      (hn : s.returns[n]? = some returnTime)
      (hrec : p.Recurs s.returns events (some timePoint)) (htimer : ofId id s.timePoints = [])
      (htasks : ofId id tasks = [(timePoint, ⟨p.callback, id⟩)])
      (hhead : ∀ e ∈ tasks.head?, e.2.id = id → stage = .callback)
      (hhistory : s.history id = events ++ [.expired n])
  | running {events : List (TaskEvent κ)} {timePoint : TimePoint κ} {n : ℕ} {returnTime : ℤ}
      {rest : TimePoints κ (TimeTask τ)} {stage : TaskStage}
      (hphase : s.phase =
        .doExpiredTimeTasks returnTime ((timePoint, ⟨p.callback, id⟩) :: rest) stage)
      (hn : s.returns[n]? = some returnTime)
      (hrec : p.Recurs s.returns events (some timePoint)) (htimer : ofId id s.timePoints = [])
      (hrest : ofId id rest = []) (hstage : stage ≠ .callback)
      (hhistory : s.history id = events ++ [.expired n] ++ p.done stage)

/-- Something happens to other tasks. -/
theorem Standing.frame (h : s.Standing id p) (hphase : s'.phase = s.phase)
    (hreturns : s'.returns = s.returns) (htimer : ofId id s'.timePoints = ofId id s.timePoints)
    (hhistory : s'.history id = s.history id) : s'.Standing id p := by
  cases h with
  | resting next hrec ht htasks =>
    refine .resting next (hhistory ▸ hreturns ▸ hrec) (htimer.trans ht) ?_
    rw [hphase]
    exact htasks
  | listed hp hn hrec ht htasks hhead hh =>
    exact .listed (hphase.trans hp) (hreturns ▸ hn) (hreturns ▸ hrec) (htimer.trans ht) htasks hhead
      (hhistory.trans hh)
  | running hp hn hrec ht hrest hstage hh =>
    exact .running (hphase.trans hp) (hreturns ▸ hn) (hreturns ▸ hrec) (htimer.trans ht) hrest
      hstage (hhistory.trans hh)

/-- The loop is busy with another task. -/
theorem Standing.other {returnTime : ℤ} {e : TimePoint κ × TimeTask τ}
    {rest : TimePoints κ (TimeTask τ)} {stage : TaskStage} (h : s.Standing id p)
    (hphase : s.phase = .doExpiredTimeTasks returnTime (e :: rest) stage) (hne : e.2.id ≠ id)
    (hs : s.Turned returnTime (e :: rest) stage s') : s'.Standing id p := by
  -- the phase afterwards, and that nothing else of the task has changed
  have hmoved : ∃ tasks stage', s'.phase = .doExpiredTimeTasks returnTime tasks stage' ∧
      ofId id tasks = ofId id (e :: rest) ∧
      (∀ e' ∈ tasks.head?, e'.2.id = id → stage' = .callback) ∧ s'.returns = s.returns ∧
      ofId id s'.timePoints = ofId id s.timePoints ∧ s'.history id = s.history id := by
    have hsame : ∀ e' ∈ (e :: rest).head?, e'.2.id = id → False := by
      intro e' he' hid
      cases he'
      exact hne hid
    have hrest : ofId id rest = ofId id (e :: rest) := (ofId_cons_of_ne hne).symm
    cases hs with
    | callback =>
      exact ⟨_, _, rfl, rfl, fun e' he' hid => (hsame e' he' hid).elim, rfl, rfl,
        note_history_of_ne hne⟩
    | oneShot => exact ⟨_, _, rfl, hrest, fun _ _ _ => rfl, rfl, rfl, rfl⟩
    | unasked =>
      exact ⟨_, _, rfl, rfl, fun e' he' hid => (hsame e' he' hid).elim, rfl, rfl, rfl⟩
    | goesOn =>
      exact ⟨_, _, rfl, rfl, fun e' he' hid => (hsame e' he' hid).elim, rfl, rfl,
        note_history_of_ne hne⟩
    | stops => exact ⟨_, _, rfl, hrest, fun _ _ _ => rfl, rfl, rfl, note_history_of_ne hne⟩
    | again =>
      exact ⟨_, _, rfl, hrest, fun _ _ _ => rfl, rfl, ofId_addTimeTask_of_ne hne,
        note_history_of_ne hne⟩
  rcases hmoved with ⟨tasks, stage', hphase', htasks', hhead', hreturns, htimer, hhistory⟩
  cases h with
  | resting next hrec ht htasks =>
    refine .resting next (hhistory ▸ hreturns ▸ hrec) (htimer.trans ht) ?_
    rw [hphase] at htasks
    rw [hphase']
    exact htasks'.trans htasks
  | listed hp hn hrec ht htasks _ hh =>
    cases hphase.symm.trans hp
    exact .listed hphase' (hreturns ▸ hn) (hreturns ▸ hrec) (htimer.trans ht)
      (htasks'.trans htasks) hhead' (hhistory.trans hh)
  | running hp =>
    cases hphase.symm.trans hp
    exact absurd rfl hne

/-- The loop is busy with the task. -/
theorem Standing.own {returnTime : ℤ} {timePoint : TimePoint κ} {callback : Option τ}
    {rest : TimePoints κ (TimeTask τ)} {stage : TaskStage} (h : s.Standing id p)
    (hphase : s.phase = .doExpiredTimeTasks returnTime ((timePoint, ⟨callback, id⟩) :: rest) stage)
    (hs : s.Turned returnTime ((timePoint, ⟨callback, id⟩) :: rest) stage s') :
    s'.Standing id p := by
  have hcons : ofId id ((timePoint, ⟨callback, id⟩) :: rest) =
      (timePoint, ⟨callback, id⟩) :: ofId id rest :=
    ofId_cons_self (e := (timePoint, ⟨callback, id⟩))
  cases h with
  | resting next hrec ht htasks =>
    rw [hphase] at htasks
    cases hcons.symm.trans htasks
  | listed hp hn hrec ht htasks hhead hh =>
    cases hphase.symm.trans hp
    -- its callback runs now
    cases hhead _ rfl rfl
    rcases List.cons.inj (hcons.symm.trans htasks) with ⟨hentry, hrest⟩
    cases hentry
    cases hs with
    | callback =>
      exact .running rfl hn hrec ht hrest nofun (note_history_self.trans (hh ▸ rfl))
  | running hp hn hrec ht hrest hstage hh =>
    cases hphase.symm.trans hp
    rcases hrec.entry _ rfl with ⟨hinterval, hcontinue⟩
    have hcallback : timePoint.getTaskContinueCallback = p.isContinue := by
      rw [TimePoint.getTaskContinueCallback, if_pos (hinterval ▸ p.interval_ne), hcontinue]
    cases hs with
    | callback => exact absurd rfl hstage
    | oneShot hcontext => exact absurd (hinterval.symm.trans hcontext) p.interval_ne
    | unasked hcont =>
      refine .running rfl hn hrec ht hrest nofun ?_
      rw [hcallback] at hcont
      show s.history id = _
      rw [hh, Periodic.done, Periodic.done, Periodic.judged, hcont]
      simp
    | goesOn hcont =>
      refine .running rfl hn hrec ht hrest nofun ?_
      rw [hcallback] at hcont
      show (s.note id _).history id = _
      rw [note_history_self, hh, Periodic.done, Periodic.done, Periodic.judged, hcont]
      simp
    | stops hcont =>
      rw [hcallback] at hcont
      refine .resting none ?_ ht hrest
      show p.Recurs s.returns ((s.note id _).history id) none
      rw [note_history_self, hh]
      exact .ends hrec hn hcont
    | again =>
      -- the new entry is made of the copy that has expired
      refine .resting (some (p.dueAfter returnTime)) ?_ ?_ hrest
      · show p.Recurs s.returns ((s.note id _).history id) _
        rw [note_history_self, hh, hinterval, hcallback, Periodic.runEveryUntil_eq]
        exact .again hrec hn
      · show ofId id (s.timePoints.addTimeTask _ ⟨p.callback, id⟩) = _
        rw [hinterval, hcallback, Periodic.runEveryUntil_eq]
        exact ofId_addTimeTask rfl ht

theorem Standing.turned {returnTime : ℤ} {tasks : TimePoints κ (TimeTask τ)} {stage : TaskStage}
    (h : s.Standing id p) (hphase : s.phase = .doExpiredTimeTasks returnTime tasks stage)
    (hs : s.Turned returnTime tasks stage s') : s'.Standing id p := by
  cases tasks with
  | nil =>
    cases hs
    cases h with
    | resting next hrec ht _ => exact .resting next hrec ht rfl
    | listed hp _ _ _ htasks =>
      cases hphase.symm.trans hp
      cases htasks
    | running hp => cases hphase.symm.trans hp
  | cons e rest =>
    rcases e with ⟨timePoint, callback, n⟩
    by_cases hid : n = id
    · subst hid
      exact h.own hphase hs
    · exact h.other hphase hid hs

/-- Expired or not, the entry is in one place. -/
theorem Standing.expire {returnTime : ℤ} (h : s.Standing id p)
    (hphase : s.phase = .doWithActiveTasks returnTime)
    (hlast : s.returns.getLast? = some returnTime) (fNow : ℤ) :
    (s.expire returnTime fNow).Standing id p := by
  cases h with
  | listed hp => cases hphase.symm.trans hp
  | running hp => cases hphase.symm.trans hp
  | resting next hrec ht _ =>
    have hsplit : ofId id (s.timePoints.getExpiredTimeTasks fNow).1 ++
        ofId id (s.timePoints.getExpiredTimeTasks fNow).2 = _ :=
      (ofId_expired s.timePoints fNow).trans ht
    have hhistory : (s.expire returnTime fNow).history id = s.history id ++
        (ofId id (s.timePoints.getExpiredTimeTasks fNow).1).map
          fun _ => .expired (s.returns.length - 1) := rfl
    -- it stays in the timer if none of its entries is among the expired ones
    have hstays : ofId id (s.timePoints.getExpiredTimeTasks fNow).1 = [] →
        (s.expire returnTime fNow).Standing id p := by
      intro hnone
      rw [hnone] at hsplit hhistory
      refine .resting next ?_ hsplit hnone
      rw [hhistory, List.map_nil, List.append_nil]
      exact hrec
    cases next with
    | none => exact hstays (List.append_eq_nil_iff.mp hsplit).1
    | some timePoint =>
      rcases List.append_eq_singleton_iff.mp hsplit with ⟨hnone, -⟩ | ⟨hone, hkept⟩
      · exact hstays hnone
      · rw [hone] at hhistory
        rw [List.getLast?_eq_getElem?] at hlast
        exact .listed rfl hlast hrec hkept hone (fun _ _ _ => rfl) hhistory

/-! ### Every run -/

/-- The invariant. Ids are given out one by one, and the last return time is that of the
iteration. -/
structure Inv (s : TaskLoop κ τ) : Prop where
  timer_lt : ∀ e ∈ s.timePoints, e.2.id < s.registered.length
  tasks_lt : ∀ e ∈ s.phase.tasks, e.2.id < s.registered.length
  history : ∀ id, s.registered.length ≤ id → s.history id = []
  last : ∀ returnTime, s.phase = .doWithActiveTasks returnTime →
    s.returns.getLast? = some returnTime
  standing : ∀ id (p : Periodic κ τ), s.registered[id]? = some p.registering → s.Standing id p

theorem inv_init (h : machine.Init s) : s.Inv := by
  cases h
  exact ⟨nofun, nofun, fun _ _ => rfl, nofun, nofun⟩

theorem ofId_eq_nil {l : TimePoints κ (TimeTask τ)} {n : ℕ} (h : ∀ e ∈ l, e.2.id < n) :
    ofId n l = [] := by
  rw [ofId, List.filter_eq_nil_iff]
  intro e he heq
  exact Nat.ne_of_lt (h e he) (of_decide_eq_true heq)

theorem Inv.register (h : s.Inv) (c : Registering κ τ) : (s.register c).Inv := by
  have hlen : (s.register c).registered.length = s.registered.length + 1 := List.length_append
  refine ⟨?_, ?_, ?_, h.last, ?_⟩
  · intro e he
    rw [hlen]
    rcases TimePoints.mem_addTimeTask.mp he with rfl | he
    · exact Nat.lt_succ_self _
    · exact Nat.lt_succ_of_lt (h.timer_lt e he)
  · intro e he
    rw [hlen]
    exact Nat.lt_succ_of_lt (h.tasks_lt e he)
  · intro id hid
    rw [hlen] at hid
    exact (note_history_of_ne (Nat.ne_of_lt hid)).trans (h.history id (Nat.le_of_succ_le hid))
  · intro id p hp
    rcases Nat.lt_trichotomy id s.registered.length with hlt | rfl | hgt
    · -- an older task
      have hp' : s.registered[id]? = some p.registering := by
        rw [← hp]
        exact (List.getElem?_append_left hlt).symm
      have hne : s.registered.length ≠ id := Nat.ne_of_gt hlt
      exact (h.standing id p hp').frame rfl rfl (ofId_addTimeTask_of_ne hne)
        (note_history_of_ne hne)
    · -- the new one
      have hc : c = p.registering := by
        have hlast : (s.register c).registered[s.registered.length]? = some c :=
          List.getElem?_concat_length
        exact Option.some.inj (hlast.symm.trans hp)
      subst hc
      have htimePoint : p.registering.timePoint = p.dueAfter p.start.microseconds :=
        Periodic.runEveryUntil_eq p.start
      refine .resting (some (p.dueAfter p.start.microseconds)) ?_ ?_ (ofId_eq_nil h.tasks_lt)
      · show p.Recurs s.returns ((s.note _ _).history _) _
        rw [note_history_self, h.history _ (Nat.le_refl _), htimePoint]
        exact .entered
      · show ofId _ (s.timePoints.addTimeTask _ _) = _
        rw [htimePoint]
        exact ofId_addTimeTask rfl (ofId_eq_nil h.timer_lt)
    · rw [List.getElem?_eq_none (by rw [hlen]; exact hgt)] at hp
      cases hp

/-- A turn is about the first of the expired tasks. -/
theorem Turned.scope {returnTime : ℤ} {tasks : TimePoints κ (TimeTask τ)} {stage : TaskStage}
    (hs : s.Turned returnTime tasks stage s') :
    s'.registered = s.registered ∧
      (∀ e ∈ s'.timePoints, e ∈ s.timePoints ∨ ∃ e' ∈ tasks, e.2.id = e'.2.id) ∧
      (∀ e ∈ s'.phase.tasks, e ∈ tasks) ∧
      (∀ id, (∀ e ∈ tasks, e.2.id ≠ id) → s'.history id = s.history id) ∧
      ∀ r, s'.phase ≠ .doWithActiveTasks r := by
  cases hs with
  | finished => exact ⟨rfl, fun _ he => .inl he, nofun, fun _ _ => rfl, nofun⟩
  | callback =>
    exact ⟨rfl, fun _ he => .inl he, fun _ he => he,
      fun _ hne => note_history_of_ne (hne _ List.mem_cons_self), nofun⟩
  | oneShot =>
    exact ⟨rfl, fun _ he => .inl he, fun _ he => List.mem_cons_of_mem _ he, fun _ _ => rfl, nofun⟩
  | unasked => exact ⟨rfl, fun _ he => .inl he, fun _ he => he, fun _ _ => rfl, nofun⟩
  | goesOn =>
    exact ⟨rfl, fun _ he => .inl he, fun _ he => he,
      fun _ hne => note_history_of_ne (hne _ List.mem_cons_self), nofun⟩
  | stops =>
    exact ⟨rfl, fun _ he => .inl he, fun _ he => List.mem_cons_of_mem _ he,
      fun _ hne => note_history_of_ne (hne _ List.mem_cons_self), nofun⟩
  | @again e rest =>
    refine ⟨rfl, ?_, fun _ he => List.mem_cons_of_mem _ he,
      fun _ hne => note_history_of_ne (hne _ List.mem_cons_self), nofun⟩
    intro e' he'
    rcases TimePoints.mem_addTimeTask.mp he' with rfl | he'
    · exact .inr ⟨e, List.mem_cons_self, rfl⟩
    · exact .inl he'

theorem Inv.turned {returnTime : ℤ} {tasks : TimePoints κ (TimeTask τ)} {stage : TaskStage}
    (h : s.Inv) (hphase : s.phase = .doExpiredTimeTasks returnTime tasks stage)
    (hs : s.Turned returnTime tasks stage s') : s'.Inv := by
  have htasks : ∀ e ∈ tasks, e.2.id < s.registered.length := by
    have hlt := h.tasks_lt
    rw [hphase] at hlt
    exact hlt
  rcases hs.scope with ⟨hreg, htimer, hleft, hhistory, hactive⟩
  refine ⟨?_, ?_, ?_, fun r hr => absurd hr (hactive r), ?_⟩
  · intro e he
    rw [hreg]
    rcases htimer e he with he | ⟨e', he', hid⟩
    · exact h.timer_lt e he
    · exact hid ▸ htasks e' he'
  · intro e he
    rw [hreg]
    exact htasks e (hleft e he)
  · intro id hid
    rw [hreg] at hid
    rw [hhistory id fun e he => Nat.ne_of_lt (Nat.lt_of_lt_of_le (htasks e he) hid),
      h.history id hid]
  · intro id p hp
    rw [hreg] at hp
    exact (h.standing id p hp).turned hphase hs

theorem Inv.expire {returnTime : ℤ} (h : s.Inv) (hphase : s.phase = .doWithActiveTasks returnTime)
    (fNow : ℤ) : (s.expire returnTime fNow).Inv := by
  have hexpired : ∀ e ∈ (s.timePoints.getExpiredTimeTasks fNow).1, e.2.id < s.registered.length :=
    fun e he => h.timer_lt e ((List.takeWhile_sublist _).subset he)
  refine ⟨?_, hexpired, ?_, nofun, ?_⟩
  · exact fun e he => h.timer_lt e ((List.dropWhile_sublist _).subset he)
  · intro id hid
    have hnone : ofId id (s.timePoints.getExpiredTimeTasks fNow).1 = [] :=
      ofId_eq_nil fun e he => Nat.lt_of_lt_of_le (hexpired e he) hid
    show s.history id ++ List.map _ (ofId id (s.timePoints.getExpiredTimeTasks fNow).1) = []
    rw [h.history id hid, hnone]
    rfl
  · exact fun id p hp => (h.standing id p hp).expire hphase (h.last returnTime hphase) fNow

theorem Inv.step {l : Label κ τ} (h : s.Inv) (hs : s.step l = some s') : s'.Inv := by
  cases l with
  | register c =>
    cases hs
    exact h.register c
  | poll returnTime =>
    rw [TaskLoop.step] at hs
    split at hs
    · next hphase =>
      cases hs
      refine ⟨h.timer_lt, nofun, h.history, ?_, ?_⟩
      · intro returnTime' heq
        cases heq
        exact List.getLast?_concat
      · intro id p hp
        cases h.standing id p hp with
        | resting next hrec ht _ => exact .resting next (hrec.mono _) ht rfl
        | listed hp' => cases hphase.symm.trans hp'
        | running hp' => cases hphase.symm.trans hp'
    · cases hs
  | expire fNow =>
    rw [TaskLoop.step] at hs
    split at hs
    · next returnTime hphase =>
      cases hs
      exact h.expire hphase fNow
    · cases hs
  | turn answer =>
    rw [TaskLoop.step] at hs
    split at hs
    · next returnTime tasks stage hphase =>
      cases hs
      exact h.turned hphase (turn_turned returnTime tasks stage answer)
    · cases hs

theorem inv {ok : TaskLoop κ τ → Label κ τ → Prop} (h : machine.Reachable ok s) : s.Inv :=
  h.invariant (fun _ => inv_init) fun _ _ _ _ hinv _ hs => hinv.step hs

/-- At a turn of the loop: the task has recurred as it should, the timer has the entry that
is due next and no other, and it has none if and only if `IsContinue` has answered no, which
takes an `IsContinue`. -/
def Recurring (s : TaskLoop κ τ) (id : ℕ) (p : Periodic κ τ) : Prop :=
  ∃ next, p.Recurs s.returns (s.history id) next ∧
    ofId id s.timePoints = next.toList.map (fun t => (t, ⟨p.callback, id⟩)) ∧
    (next = none ↔ .judged false ∈ s.history id) ∧ (p.isContinue = none → next ≠ none)

/-- **Periodic tasks recur as asked.** In every run of the loop, with any other tasks and
any registrations on the way. -/
theorem periodic_tasks_recur (h : machine.Reachable (fun _ _ => True) s) (hphase : s.phase = .poll)
    (hreg : s.registered[id]? = some p.registering) : s.Recurring id p := by
  cases (inv h).standing id p hreg with
  | resting next hrec ht _ => exact ⟨next, hrec, ht, hrec.ended_iff, hrec.goes_on⟩
  | listed hp => cases hphase.symm.trans hp
  | running hp => cases hphase.symm.trans hp

/-- The theorem at a task that runs twice, next to one that is registered by its callback
and runs once. `IsContinue` answers yes and then no. -/
theorem twice_and_no_more :
    ∃ s : TaskLoop Unit String, machine.Reachable (fun _ _ => True) s ∧ s.phase = .poll ∧
      s.history 0 = [.entered ⟨15, 5, some ()⟩, .expired 0, .ran, .judged true,
        .entered ⟨21, 5, some ()⟩, .expired 1, .ran, .judged false] ∧
      s.timePoints = [] ∧ s.Recurring 0 ⟨5, some "tick", .now 10, some (), by decide⟩ := by
  rcases machine.exists_of_run (fun _ _ => True) (s := (start : TaskLoop Unit String)) rfl
    [.register (.runEveryUntil 5 (some "tick") (.now 10) (some ())), .poll 16, .expire 17,
      .turn false, .register (.runSoon 18 (some "once")), .turn true, .turn false, .turn false,
      .poll 22, .expire 23, .turn false, .turn false, .turn false, .turn false, .turn false]
    (fun s => s.phase = .poll ∧
      s.registered[0]? = some (.runEveryUntil 5 (some "tick") (.now 10) (some ())) ∧
      s.history 0 = [.entered ⟨15, 5, some ()⟩, .expired 0, .ran, .judged true,
        .entered ⟨21, 5, some ()⟩, .expired 1, .ran, .judged false] ∧ s.timePoints = [])
    (by decide +kernel) with ⟨s, hs, hphase, hreg, hhistory, htimer⟩
  exact ⟨s, hs, hphase, hhistory, htimer, periodic_tasks_recur hs hphase hreg⟩

end TaskLoop

/-! ## Default start -/

/-- A value of `int64_t`. -/
def InInt64 (n : ℤ) : Prop := -9223372036854775808 ≤ n ∧ n < 9223372036854775808

/-- The readings of the clock in a call of `RunEveryUntil` without a start: when it is made,
for the argument of the `TimePoint`, in its constructor, and when the task is entered. -/
structure Readings where
  call : ℤ
  argument : ℤ
  construction : ℤ
  insertion : ℤ
  call_range : InInt64 call
  argument_range : InInt64 argument
  construction_range : InInt64 construction
  insertion_range : InInt64 insertion

namespace Readings

variable {κ τ : Type} (r : Readings)

/-- `TimePoint(TimePoint::FNow())`. -/
def defaultStart : TimePoint κ := .ofDuration r.construction r.argument false

/-- The call without a start. -/
def registering (interval : ℤ) (callback : Option τ) (isContinue : Option κ) : Registering κ τ :=
  .runEveryUntil interval callback r.defaultStart isContinue

/-- The task is due one interval after a time between the call and the insertion, and the
first call of `GetExpiredTimeTasks` from then on returns it. -/
structure StartsAfter (interval : ℤ) (c : Registering κ τ) : Prop where
  ge : r.call + interval ≤ c.timePoint.microseconds
  le : c.timePoint.microseconds ≤ r.insertion + interval
  returned : ∀ (l : TimePoints κ (Option τ)) (fNow : ℤ), l.Ordered →
    c.timePoint.microseconds ≤ fNow →
      (c.timePoint, c.callback) ∈
        ((l.addTimeTask c.timePoint c.callback).getExpiredTimeTasks fNow).1

theorem registering_microseconds (interval : ℤ) (callback : Option τ) (isContinue : Option κ) :
    (r.registering interval callback isContinue).timePoint.microseconds =
      addInt64 (addInt64 r.construction r.argument) interval := by
  unfold registering Registering.timePoint TimePoint.runEveryUntil TimePoint.setTaskContinueCallback
  dsimp only
  split
  · split <;> rfl
  · rfl

/-- **The default start is right** if and only if the sum of the two readings that make it is
between the call and the insertion, and the interval can be added to it. -/
theorem default_start_iff {interval : ℤ} (hpos : 0 < interval) (hrange : InInt64 interval)
    (callback : Option τ) (isContinue : Option κ) :
    r.StartsAfter interval (r.registering interval callback isContinue) ↔
      r.call ≤ addInt64 r.construction r.argument ∧
        addInt64 r.construction r.argument ≤ r.insertion ∧
        addInt64 r.construction r.argument + interval < 9223372036854775808 := by
  have hmicro := r.registering_microseconds interval callback isContinue
  have hcall := r.call_range.1
  have hinner := addInt64_eq r.construction r.argument
  have houter := addInt64_eq (addInt64 r.construction r.argument) interval
  have hinterval := hrange.2
  constructor
  · rintro ⟨hge, hle, -⟩
    -- a sum that wraps is before the call
    rw [hmicro] at hge hle
    omega
  · rintro ⟨hge, hle, hlt⟩
    refine ⟨?_, ?_, ?_⟩
    · rw [hmicro]
      omega
    · rw [hmicro]
      omega
    · intro l fNow hl hdue
      rw [(hl.addTimeTask _ _).expired]
      exact List.mem_filter.mpr ⟨TimePoints.mem_addTimeTask.mpr (.inl rfl), decide_eq_true hdue⟩

/-- The first microseconds of the epoch. -/
def epoch : Readings :=
  ⟨0, 0, 1, 2, ⟨by decide, by decide⟩, ⟨by decide, by decide⟩, ⟨by decide, by decide⟩,
    ⟨by decide, by decide⟩⟩

/-- The theorem at the first microseconds of the epoch. -/
theorem default_start_at_epoch :
    epoch.StartsAfter 1000000 (epoch.registering 1000000 (some "tick") (none : Option Unit)) :=
  (default_start_iff epoch (by decide) ⟨by decide, by decide⟩ _ _).mpr (by decide)

/-- A task with an interval of a second that is registered in the year 2024 is due in 2078. -/
theorem default_start_doubles_clock :
    ∃ r : Readings, r.call = 1717200000000000 ∧ r.insertion = 1717200000000003 ∧
      (r.registering 1000000 (some "tick") (none : Option Unit)).timePoint.microseconds =
        3434400001000003 ∧
      ¬ r.StartsAfter 1000000 (r.registering 1000000 (some "tick") (none : Option Unit)) := by
  refine ⟨⟨1717200000000000, 1717200000000001, 1717200000000002, 1717200000000003,
    ⟨by decide, by decide⟩, ⟨by decide, by decide⟩, ⟨by decide, by decide⟩,
    ⟨by decide, by decide⟩⟩, rfl, rfl, by decide +kernel, ?_⟩
  intro h
  exact absurd h.le (by decide +kernel)

end Readings

end Taotu
