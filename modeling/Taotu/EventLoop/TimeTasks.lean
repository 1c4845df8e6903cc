import Taotu.Lib.Schedule
import Taotu.EventLoop.Timer

/-!
# Taotu.EventLoop.TimeTasks — the timer and its tasks (`timer.cc`, `time_point.cc`)

The timer is a multimap from time points to tasks. A task is inserted behind those with
the same time point; those that are due are a front part, which is copied and erased.

1. **Model layer.** Time points with their context, and the timer as a list in order. The
   deadlines of `Taotu.EventLoop.Timer` are its time points, without the tasks.
2. **Durations.** The difference of milliseconds is cast to `int` before it is compared
   with zero. `Narrow` are the differences for which that does no harm
   (`timeout_faithful_iff`).
3. **Machine.** Calls in any order, at any readings of the clock. Every task is returned
   once, by the first call that finds it due, in order (`tasks_delivered_once_in_order`).

**Ghosts.** In the machine a task carries the number of the call that has added it. `calls`
are the calls so far, and `returned` is what they have returned.
-/

namespace Taotu

open Lib Timer

/-- `κ` are the functions that decide whether a periodic task goes on. -/
structure TimePoint (κ : Type) where
  microseconds : ℤ
  /-- The interval of a periodic task, or zero. -/
  context : ℤ
  isContinue : Option κ
deriving DecidableEq, Repr

namespace TimePoint

/-! ## Model layer -/

variable {κ : Type}

/-- `TimePoint()`, at a reading of the clock. -/
def now (fNow : ℤ) : TimePoint κ := ⟨fNow, 0, none⟩

/-- `TimePoint(duration_microseconds, repeated)`, at a reading of the clock. -/
def ofDuration (fNow duration : ℤ) (repeated : Bool) : TimePoint κ :=
  ⟨addInt64 fNow duration, if repeated then duration else 0, none⟩

/-- `TimePoint(duration_microseconds, start_time_point, repeated)`. -/
def ofStart (duration : ℤ) (start : TimePoint κ) (repeated : Bool) : TimePoint κ :=
  ⟨addInt64 start.microseconds duration, if repeated then duration else 0, none⟩

def setTaskContinueCallback (t : TimePoint κ) (isContinue : Option κ) : TimePoint κ :=
  if t.context ≠ 0 then { t with isContinue := isContinue } else t

def getTaskContinueCallback (t : TimePoint κ) : Option κ :=
  if t.context ≠ 0 then t.isContinue else none

/-- `operator<`. -/
def Lt (s t : TimePoint κ) : Prop := s.microseconds < t.microseconds

instance : DecidableRel (Lt : TimePoint κ → TimePoint κ → Prop) :=
  fun s t => inferInstanceAs (Decidable (s.microseconds < t.microseconds))

end TimePoint

/-- `time_points_`, in its order. -/
abbrev TimePoints (κ τ : Type) := List (TimePoint κ × τ)

namespace TimePoints

variable {κ τ : Type}

/-- A multimap inserts at the upper bound of the key. -/
def addTimeTask (timePoint : TimePoint κ) (task : τ) (l : TimePoints κ τ) : TimePoints κ τ :=
  List.orderedInsert (fun a b => a.1.Lt b.1) (timePoint, task) l

def getMinTimeDuration (l : TimePoints κ τ) (fNow : ℤ) : ℤ :=
  match l with
  | [] => 10000
  | first :: _ =>
    let duration := toInt (getMillisecond first.1.microseconds - getMillisecond fNow)
    if 0 < duration then duration else 0

/-- `itr->first <= now`. -/
def due (fNow : ℤ) (e : TimePoint κ × τ) : Bool := decide (e.1.microseconds ≤ fNow)

/-- The tasks that are returned, and those that stay. -/
def getExpiredTimeTasks (l : TimePoints κ τ) (fNow : ℤ) : TimePoints κ τ × TimePoints κ τ :=
  (l.takeWhile (due fNow), l.dropWhile (due fNow))

/-- The time points do not go down. -/
def Ordered (l : TimePoints κ τ) : Prop :=
  l.Pairwise fun a b => a.1.microseconds ≤ b.1.microseconds

variable {l : TimePoints κ τ} {fNow : ℤ}

/-- What is due is a front part. -/
theorem Ordered.due (h : l.Ordered) :
    l.Pairwise fun a b => due fNow b = true → due fNow a = true := by
  refine h.imp ?_
  intro a b hle hb
  exact decide_eq_true (Int.le_trans hle (of_decide_eq_true hb))

theorem Ordered.addTimeTask (h : l.Ordered) (timePoint : TimePoint κ) (task : τ) :
    (l.addTimeTask timePoint task).Ordered := by
  refine pairwise_orderedInsert h ?_ ?_ ?_
  · exact fun b _ hge => Int.not_lt.mp hge
  · exact fun b _ hlt => Int.le_of_lt hlt
  · exact fun b c hlt hle => Int.lt_of_lt_of_le hlt hle

theorem Ordered.expired (h : l.Ordered) :
    l.getExpiredTimeTasks fNow =
      (l.filter (TimePoints.due fNow), l.filter fun e => !TimePoints.due fNow e) := by
  rw [getExpiredTimeTasks, takeWhile_eq_filter h.due, dropWhile_eq_filter h.due]

theorem mem_addTimeTask {timePoint : TimePoint κ} {task : τ} {e : TimePoint κ × τ} :
    e ∈ l.addTimeTask timePoint task ↔ e = (timePoint, task) ∨ e ∈ l :=
  List.mem_orderedInsert _

/-! ### The deadlines -/

/-- The time points without their tasks. -/
def deadlines (l : TimePoints κ τ) : List ℤ := l.map fun e => e.1.microseconds

/-- The first time point is the earliest. -/
theorem Ordered.min? {first : TimePoint κ × τ} (h : Ordered (first :: l)) :
    (deadlines (first :: l)).min? = some first.1.microseconds := by
  refine List.min?_eq_some_iff.mpr ⟨List.mem_cons_self, ?_⟩
  intro d hd
  rcases List.mem_cons.mp hd with rfl | hd
  · exact Int.le_refl _
  · rcases List.mem_map.mp hd with ⟨e, he, rfl⟩
    exact List.rel_of_pairwise_cons h he

theorem Ordered.getMinTimeDuration (h : l.Ordered) :
    l.getMinTimeDuration fNow = Timer.getMinTimeDuration l.deadlines fNow := by
  cases l with
  | nil => rfl
  | cons first l =>
    rw [Timer.getMinTimeDuration, h.min?]
    rfl

/-! ## Durations -/

/-- The timeout for an earliest time point: a non-negative `int`, zero only if the time
point is not in a later millisecond, and else what is left, as far as `int` goes. -/
structure FaithfulTimeout (earliest fNow timeout : ℤ) : Prop where
  nonneg : 0 ≤ timeout
  le_max : timeout ≤ 2147483647
  zero : timeout = 0 → getMillisecond earliest ≤ getMillisecond fNow
  eq_min : timeout ≠ 0 → timeout = min (getMillisecond earliest - getMillisecond fNow) 2147483647

/-- The cast keeps the sign of a difference that is not positive, and keeps a positive one
or makes it the greatest `int`. -/
def Narrow (diff : ℤ) : Prop :=
  if 0 < diff then diff < 2147483648 ∨ diff % 4294967296 = 2147483647
  else diff % 4294967296 = 0 ∨ 2147483648 ≤ diff % 4294967296

instance (diff : ℤ) : Decidable (Narrow diff) := inferInstanceAs (Decidable (ite _ _ _))

theorem duration_faithful_iff (earliest fNow : ℤ) :
    FaithfulTimeout earliest fNow (duration earliest fNow) ↔
      Narrow (getMillisecond earliest - getMillisecond fNow) := by
  have hcast := toInt_eq (getMillisecond earliest - getMillisecond fNow)
  unfold duration left Narrow
  constructor
  · rintro ⟨hnonneg, hmax, hzero, hmin⟩
    split at hzero
    · next hpos =>
      rw [if_pos hpos] at hmin
      have hmin := hmin (by omega)
      split <;> omega
    · have hle := hzero rfl
      split <;> omega
  · intro hnarrow
    split
    · next hpos =>
      constructor <;> intros <;> split at hnarrow <;> omega
    · next hneg =>
      constructor <;> intros <;> split at hnarrow <;> omega

/-- **The timeout is faithful** for an earliest time point if and only if the difference is
narrow. -/
theorem timeout_faithful_iff (h : l.Ordered) {earliest : TimePoint κ}
    (hmem : earliest ∈ l.map Prod.fst)
    (hmin : ∀ e ∈ l, earliest.microseconds ≤ e.1.microseconds) (fNow : ℤ) :
    FaithfulTimeout earliest.microseconds fNow (l.getMinTimeDuration fNow) ↔
      Narrow (getMillisecond earliest.microseconds - getMillisecond fNow) := by
  have hfirst : l.deadlines.min? = some earliest.microseconds := by
    refine List.min?_eq_some_iff.mpr ⟨?_, ?_⟩
    · rcases List.mem_map.mp hmem with ⟨e, he, rfl⟩
      exact List.mem_map_of_mem he
    · intro d hd
      rcases List.mem_map.mp hd with ⟨e, he, rfl⟩
      exact hmin e he
  rw [h.getMinTimeDuration, Timer.getMinTimeDuration, hfirst]
  exact duration_faithful_iff _ fNow

/-- The theorem at a task that is due in a minute. -/
theorem timeout_of_minute :
    FaithfulTimeout 60000000 0
      (getMinTimeDuration [((⟨60000000, 0, none⟩ : TimePoint Unit), ())] 0) :=
  (timeout_faithful_iff (l := [((⟨60000000, 0, none⟩ : TimePoint Unit), ())])
    (List.pairwise_singleton _ _) List.mem_cons_self
    (fun e he => by rw [List.mem_singleton.mp he]) 0).mpr (by decide)

/-- A task that is due in `2 ^ 31` milliseconds makes the loop spin. One that is due a
millisecond after `2 ^ 32` of them wakes it after one, and so does one that has been due for
all but one of them. -/
theorem far_timeout_wraps :
    (getMinTimeDuration [((⟨2147483648000, 0, none⟩ : TimePoint Unit), ())] 0 = 0 ∧
      ¬ FaithfulTimeout 2147483648000 0 0) ∧
    (getMinTimeDuration [((⟨4294967297000, 0, none⟩ : TimePoint Unit), ())] 0 = 1 ∧
      ¬ FaithfulTimeout 4294967297000 0 1) ∧
    (getMinTimeDuration [((⟨0, 0, none⟩ : TimePoint Unit), ())] 4294967295000 = 1 ∧
      ¬ FaithfulTimeout 0 4294967295000 1) := by
  refine ⟨⟨by decide +kernel, ?_⟩, ⟨by decide +kernel, ?_⟩, by decide +kernel, ?_⟩
  · exact fun h => absurd (h.zero rfl) (by decide)
  · exact fun h => absurd (h.eq_min (by decide)) (by decide)
  · exact fun h => absurd (h.eq_min (by decide)) (by decide)

end TimePoints

inductive TimerCall (κ τ : Type) where
  | addTimeTask (timePoint : TimePoint κ) (task : τ)
  | getExpiredTimeTasks (fNow : ℤ)
deriving DecidableEq, Repr

structure TimerRun (κ τ : Type) where
  timePoints : TimePoints κ (ℕ × τ)
  calls : List (TimerCall κ τ)
  /-- What a call has returned, by its number. -/
  returned : ℕ → TimePoints κ (ℕ × τ)

namespace TimerRun

/-! ## Machine -/

variable {κ τ : Type}

def step (s : TimerRun κ τ) : TimerCall κ τ → Option (TimerRun κ τ)
  | .addTimeTask timePoint task =>
    some { s with
      timePoints := s.timePoints.addTimeTask timePoint (s.calls.length, task)
      calls := s.calls ++ [.addTimeTask timePoint task] }
  | .getExpiredTimeTasks fNow =>
    let (expired, kept) := s.timePoints.getExpiredTimeTasks fNow
    some
      { timePoints := kept
        calls := s.calls ++ [.getExpiredTimeTasks fNow]
        returned := Function.update s.returned s.calls.length expired }

def start : TimerRun κ τ := ⟨[], [], fun _ => []⟩

def machine : Machine (TimerRun κ τ) (TimerCall κ τ) := ⟨fun s => s = start, step⟩

/-! ## Every task once -/

/-- The task was added by the call whose number it carries. -/
def Added (s : TimerRun κ τ) (e : TimePoint κ × ℕ × τ) : Prop :=
  s.calls[e.2.1]? = some (.addTimeTask e.1 e.2.2)

/-- From the insertion of the task up to the call `j` every reading was before it. -/
def Early (s : TimerRun κ τ) (e : TimePoint κ × ℕ × τ) (j : ℕ) : Prop :=
  ∀ k fNow, e.2.1 < k → k < j → s.calls[k]? = some (.getExpiredTimeTasks fNow) →
    fNow < e.1.microseconds

/-- The call `j` is the first one after the insertion of the task that finds it due. -/
def FirstDue (s : TimerRun κ τ) (e : TimePoint κ × ℕ × τ) (j : ℕ) : Prop :=
  s.Added e ∧ e.2.1 < j ∧
    (∃ fNow, s.calls[j]? = some (.getExpiredTimeTasks fNow) ∧ e.1.microseconds ≤ fNow) ∧
      s.Early e j

/-- By time point, and by insertion where these are equal. -/
def Before (a b : TimePoint κ × ℕ × τ) : Prop :=
  a.1.microseconds < b.1.microseconds ∨ a.1.microseconds = b.1.microseconds ∧ a.2.1 < b.2.1

structure Delivered (s : TimerRun κ τ) : Prop where
  /-- A call returns the tasks that it is the first to find due, and no others, -/
  returned : ∀ j e, e ∈ s.returned j ↔ s.FirstDue e j
  /-- each once and in order. -/
  order : ∀ j, (s.returned j).Pairwise Before
  /-- The others are kept: those added, not returned, and later than the readings since. -/
  kept : ∀ e, e ∈ s.timePoints ↔
    s.Added e ∧ (∀ j, e ∉ s.returned j) ∧ s.Early e s.calls.length

structure Inv (s : TimerRun κ τ) : Prop where
  order : s.timePoints.Pairwise Before
  kept : ∀ e, e ∈ s.timePoints ↔ s.Added e ∧ s.Early e s.calls.length
  returned : ∀ j e, e ∈ s.returned j ↔ s.FirstDue e j
  returned_order : ∀ j, (s.returned j).Pairwise Before

variable {s s' : TimerRun κ τ} {e : TimePoint κ × ℕ × τ} {c : TimerCall κ τ} {j : ℕ} {fNow : ℤ}

theorem Added.lt (h : s.Added e) : e.2.1 < s.calls.length :=
  (List.getElem?_eq_some_iff.mp h).1

theorem getElem?_concat_eq {α : Type} {l : List α} {a b : α} {i : ℕ} :
    (l ++ [a])[i]? = some b ↔ l[i]? = some b ∨ i = l.length ∧ a = b := by
  rcases Nat.lt_trichotomy i l.length with hlt | rfl | hgt
  · rw [List.getElem?_append_left hlt]
    constructor
    · exact .inl
    · exact fun h => h.resolve_right fun hlast => Nat.ne_of_lt hlt hlast.1
  · simp
  · rw [List.getElem?_eq_none (by rw [List.length_append, List.length_singleton]; omega),
      List.getElem?_eq_none (Nat.le_of_lt hgt)]
    constructor
    · nofun
    · rintro (h | ⟨rfl, -⟩)
      · cases h
      · exact absurd hgt (Nat.lt_irrefl _)

section Calling

variable (hcalls : s'.calls = s.calls ++ [c])
include hcalls

/-- Up to the last call nothing has changed. -/
theorem early_concat (hj : j ≤ s.calls.length) : s'.Early e j ↔ s.Early e j := by
  unfold Early
  rw [hcalls]
  constructor
  · intro h k fNow hlo hhi hk
    exact h k fNow hlo hhi (getElem?_concat_eq.mpr (.inl hk))
  · intro h k fNow hlo hhi hk
    rcases getElem?_concat_eq.mp hk with hk | ⟨rfl, -⟩
    · exact h k fNow hlo hhi hk
    · omega

/-- The last call may be another reading. -/
theorem early_length : s'.Early e s'.calls.length ↔ s.Early e s.calls.length ∧
    ∀ fNow, e.2.1 < s.calls.length → c = .getExpiredTimeTasks fNow → fNow < e.1.microseconds := by
  unfold Early
  rw [hcalls, List.length_append, List.length_singleton]
  constructor
  · intro h
    constructor
    · intro k fNow hlo hhi hk
      exact h k fNow hlo (Nat.lt_succ_of_lt hhi) (getElem?_concat_eq.mpr (.inl hk))
    · intro fNow hlo hlast
      exact h _ fNow hlo (Nat.lt_succ_self _) (getElem?_concat_eq.mpr (.inr ⟨rfl, hlast⟩))
  · rintro ⟨h, hnew⟩ k fNow hlo hhi hk
    rcases getElem?_concat_eq.mp hk with hk | ⟨rfl, hlast⟩
    · exact h k fNow hlo (List.getElem?_eq_some_iff.mp hk).1 hk
    · exact hnew fNow hlo hlast

theorem added_concat : s'.Added e ↔
    s.Added e ∨ e.2.1 = s.calls.length ∧ c = .addTimeTask e.1 e.2.2 := by
  unfold Added
  rw [hcalls]
  exact getElem?_concat_eq

theorem firstDue_concat (hj : j ≠ s.calls.length) : s'.FirstDue e j ↔ s.FirstDue e j := by
  unfold FirstDue
  rw [added_concat hcalls]
  constructor
  · rintro ⟨hadded, hlt, ⟨fNow, hread, hdue⟩, hearly⟩
    rw [hcalls] at hread
    rcases getElem?_concat_eq.mp hread with hread | ⟨hlast, -⟩
    · have hlen := (List.getElem?_eq_some_iff.mp hread).1
      refine ⟨hadded.resolve_right ?_, hlt, ⟨fNow, hread, hdue⟩,
        (early_concat hcalls (Nat.le_of_lt hlen)).mp hearly⟩
      rintro ⟨hid, -⟩
      omega
    · exact absurd hlast hj
  · rintro ⟨hadded, hlt, ⟨fNow, hread, hdue⟩, hearly⟩
    have hlen := (List.getElem?_eq_some_iff.mp hread).1
    refine ⟨.inl hadded, hlt, ⟨fNow, ?_, hdue⟩, (early_concat hcalls (Nat.le_of_lt hlen)).mpr hearly⟩
    rw [hcalls]
    exact getElem?_concat_eq.mpr (.inl hread)

end Calling

/-- No call has been made with the next number. -/
theorem not_firstDue_length : ¬ s.FirstDue e s.calls.length := by
  rintro ⟨-, -, ⟨fNow, hread, -⟩, -⟩
  exact absurd (List.getElem?_eq_some_iff.mp hread).1 (Nat.lt_irrefl _)

theorem inv_init (h : machine.Init s) : s.Inv := by
  cases h
  refine ⟨.nil, ?_, ?_, fun _ => .nil⟩
  · intro e
    constructor
    · nofun
    · exact fun h => absurd h.1.lt (Nat.not_lt_zero _)
  · intro j e
    constructor
    · nofun
    · exact fun h => absurd h.1.lt (Nat.not_lt_zero _)

theorem Inv.ordered (h : s.Inv) : s.timePoints.Ordered := by
  refine h.order.imp ?_
  intro a b hab
  rcases hab with hlt | ⟨heq, -⟩
  · exact Int.le_of_lt hlt
  · exact Int.le_of_eq heq

/-- The new task is the last one of its time point. -/
theorem Inv.addTimeTask (h : s.Inv) {timePoint : TimePoint κ} {task : τ}
    (hs : s.step (.addTimeTask timePoint task) = some s') : s'.Inv := by
  have hcalls : s'.calls = s.calls ++ [.addTimeTask timePoint task] := by
    cases hs
    rfl
  have hreturned : s'.returned = s.returned := by
    cases hs
    rfl
  refine ⟨?_, ?_, ?_, hreturned ▸ h.returned_order⟩
  · cases hs
    refine pairwise_orderedInsert h.order ?_ ?_ ?_
    · intro b hb hge
      have hid := ((h.kept b).mp hb).1.lt
      rcases Int.lt_or_eq_of_le (Int.not_lt.mp hge) with hlt | heq
      · exact .inl hlt
      · exact .inr ⟨heq, hid⟩
    · exact fun b _ hlt => .inl hlt
    · intro b d hlt hbd
      rcases hbd with hbd | ⟨hbd, -⟩
      · exact Int.lt_trans hlt hbd
      · exact Int.lt_of_lt_of_le hlt (Int.le_of_eq hbd)
  · intro e
    have hmem : e ∈ s'.timePoints ↔ e = (timePoint, s.calls.length, task) ∨ e ∈ s.timePoints := by
      cases hs
      exact TimePoints.mem_addTimeTask
    rw [hmem, h.kept, added_concat hcalls, early_length hcalls]
    constructor
    · rintro (rfl | ⟨hadded, hearly⟩)
      · -- no reading since
        exact ⟨.inr ⟨rfl, rfl⟩, fun k fNow hlo hhi => absurd hhi (Nat.lt_asymm hlo), nofun⟩
      · exact ⟨.inl hadded, hearly, nofun⟩
    · rintro ⟨hadded | ⟨hid, hcall⟩, hearly, -⟩
      · exact .inr ⟨hadded, hearly⟩
      · rcases e with ⟨tp, id, task'⟩
        cases hcall
        cases hid
        exact .inl rfl
  · intro j e
    rw [hreturned, h.returned]
    by_cases hj : j = s.calls.length
    · -- this call returns nothing
      subst hj
      refine iff_of_false not_firstDue_length ?_
      rintro ⟨-, -, ⟨fNow, hread, -⟩, -⟩
      rw [hcalls] at hread
      rcases getElem?_concat_eq.mp hread with hread | ⟨-, hread⟩
      · exact absurd (List.getElem?_eq_some_iff.mp hread).1 (Nat.lt_irrefl _)
      · cases hread
    · exact (firstDue_concat hcalls hj).symm

/-- What is due has not been found due before. -/
theorem Inv.getExpiredTimeTasks (h : s.Inv) (hs : s.step (.getExpiredTimeTasks fNow) = some s') :
    s'.Inv := by
  have hcalls : s'.calls = s.calls ++ [.getExpiredTimeTasks fNow] := by
    cases hs
    rfl
  have hexp : s.timePoints.getExpiredTimeTasks fNow =
      (s.timePoints.filter (TimePoints.due fNow), s.timePoints.filter fun e => !TimePoints.due fNow e) :=
    h.ordered.expired
  have hkept : s'.timePoints = s.timePoints.filter fun e => !TimePoints.due fNow e := by
    cases hs
    exact congrArg Prod.snd hexp
  have hreturned : s'.returned = Function.update s.returned s.calls.length
      (s.timePoints.filter (TimePoints.due fNow)) := by
    cases hs
    exact congrArg (fun r => Function.update s.returned s.calls.length r.1) hexp
  refine ⟨?_, ?_, ?_, ?_⟩
  · rw [hkept]
    exact h.order.filter _
  · intro e
    rw [hkept, List.mem_filter, h.kept, added_concat hcalls, early_length hcalls]
    constructor
    · rintro ⟨⟨hadded, hearly⟩, hdue⟩
      refine ⟨.inl hadded, hearly, ?_⟩
      rintro fNow' - hcall
      cases hcall
      simpa [TimePoints.due] using hdue
    · rintro ⟨hadded | ⟨-, hcall⟩, hearly, hlater⟩
      · refine ⟨⟨hadded, hearly⟩, ?_⟩
        have := hlater fNow hadded.lt rfl
        simpa [TimePoints.due] using this
      · cases hcall
  · intro j e
    rw [hreturned]
    by_cases hj : j = s.calls.length
    · subst hj
      rw [Function.update_self, List.mem_filter, h.kept]
      unfold FirstDue
      rw [added_concat hcalls, early_concat hcalls (Nat.le_refl _), hcalls]
      constructor
      · rintro ⟨⟨hadded, hearly⟩, hdue⟩
        exact ⟨.inl hadded, hadded.lt,
          ⟨fNow, getElem?_concat_eq.mpr (.inr ⟨rfl, rfl⟩), of_decide_eq_true hdue⟩, hearly⟩
      · rintro ⟨hadded | ⟨-, hcall⟩, -, ⟨fNow', hread, hdue⟩, hearly⟩
        · rcases getElem?_concat_eq.mp hread with hread | ⟨-, hread⟩
          · exact absurd (List.getElem?_eq_some_iff.mp hread).1 (Nat.lt_irrefl _)
          · cases hread
            exact ⟨⟨hadded, hearly⟩, decide_eq_true hdue⟩
        · cases hcall
    · rw [Function.update_of_ne hj, h.returned]
      exact (firstDue_concat hcalls hj).symm
  · intro j
    rw [hreturned]
    by_cases hj : j = s.calls.length
    · subst hj
      rw [Function.update_self]
      exact h.order.filter _
    · rw [Function.update_of_ne hj]
      exact h.returned_order j

theorem inv {ok : TimerRun κ τ → TimerCall κ τ → Prop} (h : machine.Reachable ok s) : s.Inv := by
  refine h.invariant (fun _ => inv_init) ?_
  intro s l s' _ hinv _ hs
  cases l with
  | addTimeTask timePoint task => exact hinv.addTimeTask hs
  | getExpiredTimeTasks fNow => exact hinv.getExpiredTimeTasks hs

/-- **The timer delivers every task once, in order and not early**, whatever the calls and
the readings of the clock. -/
theorem tasks_delivered_once_in_order (h : machine.Reachable (fun _ _ => True) s) : s.Delivered := by
  have hinv := inv h
  refine ⟨hinv.returned, hinv.returned_order, ?_⟩
  intro e
  rw [hinv.kept]
  constructor
  · rintro ⟨hadded, hearly⟩
    refine ⟨hadded, ?_, hearly⟩
    intro j hmem
    -- the call that returned it would have been too early
    rcases (hinv.returned j e).mp hmem with ⟨-, hlt, ⟨fNow, hread, hdue⟩, -⟩
    have := hearly j fNow hlt (List.getElem?_eq_some_iff.mp hread).1 hread
    omega
  · exact fun h => ⟨h.1, h.2.2⟩

/-- The theorem at a run with two tasks of one time point and a clock that goes back. -/
theorem equal_time_points_in_insertion_order :
    ∃ s : TimerRun Unit String, machine.Reachable (fun _ _ => True) s ∧
      (s.returned 4).map (·.2.2) = ["a", "b"] ∧ s.returned 5 = [] ∧
      s.timePoints.map (·.2.2) = ["late"] ∧ s.Delivered := by
  rcases machine.exists_of_run (fun _ _ => True) (s := (start : TimerRun Unit String)) rfl
    [.addTimeTask ⟨9, 0, none⟩ "late", .addTimeTask ⟨5, 0, none⟩ "a", .getExpiredTimeTasks 4,
      .addTimeTask ⟨5, 0, none⟩ "b", .getExpiredTimeTasks 5, .getExpiredTimeTasks 3]
    (fun s => (s.returned 4).map (·.2.2) = ["a", "b"] ∧ s.returned 5 = [] ∧
      s.timePoints.map (·.2.2) = ["late"]) (by decide +kernel) with ⟨s, hs, hfour, hfive, hkept⟩
  exact ⟨s, hs, hfour, hfive, hkept, tasks_delivered_once_in_order hs⟩

end TimerRun

end Taotu
