import Taotu.Lib.Machine
import Mathlib.Logic.Function.Basic
import Mathlib.Data.Int.Notation

/-!
# Taotu.EventLoop.Timer — deadlines and the sleeping loop (`timer.cc`, `event_manager.cc`)

The loop asks the timer how long it may sleep and blocks in `Poll` for that long.
A thread that adds a task may find the loop asleep: it asks the timer again,
compares the answer with what is left until its own deadline, and writes to an
eventfd if its task may be the first one.

1. **Timer.** Time points are microseconds; durations are differences of
   milliseconds, cast to `int`. A deadline long past has a difference that the
   cast makes positive.
2. **Machine.** Any number of threads and the loop, over a clock that does not go
   back. Inserting a task, asking the timer, comparing and writing are separate
   steps. What the loop's own callbacks add comes from one of the threads.

A loop that is blocked is covered: what it knows ends before every deadline but
for those that some thread is still about to announce (`Covered`). The only way
out is a difference below `-2 ^ 31` milliseconds; `Timely` excludes it, and then
the loop never sleeps past a deadline (`never_sleeps_past_deadline`).

The tasks themselves and the other eventers are left out; when `Poll` returns, and
whether the wake-up eventer is then active, is up to the label.
-/

namespace Taotu

open Lib

namespace Timer

/-! ## Model layer -/

/-- `static_cast<int>` of an `int64_t`. -/
def toInt (n : ℤ) : ℤ := n.bmod 4294967296

/-- The wrapping sum of two `int64_t`. -/
def addInt64 (a b : ℤ) : ℤ := (a + b).bmod 18446744073709551616

/-- `GetMillisecond()` of a time point. -/
def getMillisecond (t : ℤ) : ℤ := t.tdiv 1000

/-- What is left until a deadline, as `int`. -/
def left (deadline now : ℤ) : ℤ := toInt (getMillisecond deadline - getMillisecond now)

/-- The value `GetMinTimeDuration` makes of the first deadline. -/
def duration (first now : ℤ) : ℤ := if 0 < left first now then left first now else 0

def getMinTimeDuration (timePoints : List ℤ) (now : ℤ) : ℤ :=
  match timePoints.min? with
  | none => 10000
  | some first => duration first now

/-- `GetExpiredTimeTasks` takes out what is due; these are the rest. -/
def getExpiredTimeTasks (timePoints : List ℤ) (now : ℤ) : List ℤ :=
  timePoints.filter fun t => ¬ t ≤ now

/-! ## Arithmetic of durations -/

variable {d now c : ℤ}

theorem toInt_eq (n : ℤ) :
    toInt n = if n % 4294967296 < 2147483648 then n % 4294967296
      else n % 4294967296 - 4294967296 :=
  Int.bmod_def n 4294967296

theorem addInt64_eq (a b : ℤ) :
    addInt64 a b = if (a + b) % 18446744073709551616 < 9223372036854775808
      then (a + b) % 18446744073709551616
      else (a + b) % 18446744073709551616 - 18446744073709551616 :=
  Int.bmod_def (a + b) 18446744073709551616

theorem toInt_lt (n : ℤ) : toInt n < 2147483648 := by
  rw [toInt_eq]
  omega

/-- The cast does not add to a difference, unless it is far below zero. -/
theorem toInt_le {n : ℤ} (h : -2147483648 ≤ n) : toInt n ≤ n := by
  rw [toInt_eq]
  omega

theorem toInt_of_lt {n : ℤ} (h : -2147483648 ≤ n) (h' : n < 2147483648) : toInt n = n := by
  rw [toInt_eq]
  omega

/-- Milliseconds are rounded towards zero. -/
theorem getMillisecond_bounds (t : ℤ) :
    (0 ≤ t ∧ 0 ≤ getMillisecond t ∧ 1000 * getMillisecond t ≤ t ∧ t < 1000 * getMillisecond t + 1000) ∨
      (t < 0 ∧ getMillisecond t ≤ 0 ∧ t ≤ 1000 * getMillisecond t ∧ 1000 * getMillisecond t < t + 1000) := by
  have hsign : Int.sign 1000 = 1 := rfl
  rw [getMillisecond, Int.tdiv_eq_ediv, hsign]
  omega

theorem getMillisecond_mono (h : c ≤ now) : getMillisecond c ≤ getMillisecond now := by
  have := getMillisecond_bounds c
  have := getMillisecond_bounds now
  omega

theorem duration_lt : duration d now < 2147483648 := by
  unfold duration
  split
  · exact toInt_lt _
  · decide

theorem getMinTimeDuration_lt (timePoints : List ℤ) (now : ℤ) :
    getMinTimeDuration timePoints now < 2147483648 := by
  unfold getMinTimeDuration
  split
  · decide
  · exact duration_lt

/-- A sleep until a deadline that is not far past ends at the deadline. -/
theorem duration_reaches (h : -2147483648 ≤ getMillisecond d - getMillisecond now)
    (hpos : 0 < duration d now) : now + 1000 * duration d now < d + 1000 := by
  have hle : left d now ≤ getMillisecond d - getMillisecond now := toInt_le h
  have hd := getMillisecond_bounds d
  have hnow := getMillisecond_bounds now
  unfold duration at *
  split at hpos <;> omega

/-- A thread that finds its deadline to be the first one and does not wake the loop
has seen it pass the range of `int`: it is beyond every sleep that began before. -/
theorem unannounced_is_far {reading timeout : ℤ} (hc : reading ≤ c) (hcnow : c ≤ now)
    (ht : timeout < 2147483648) (h : -2147483648 ≤ getMillisecond d - getMillisecond now)
    (hno : duration d c < left d now) : reading + 1000 * timeout < d + 1000 := by
  have hmono := getMillisecond_mono hcnow
  have hd := getMillisecond_bounds d
  have hcb := getMillisecond_bounds c
  by_cases hfar : 2147483648 ≤ getMillisecond d - getMillisecond c
  · omega
  · -- within the range both readings are exact, and time has not gone back
    have hc' : left d c = getMillisecond d - getMillisecond c := toInt_of_lt (by omega) (by omega)
    have hnow' : left d now = getMillisecond d - getMillisecond now :=
      toInt_of_lt h (by omega)
    unfold duration at hno
    split at hno <;> omega

end Timer

open Timer

/-- Where a thread is in `RunAt`, `RunAfter`, `RunEveryUntil` or `RunSoon`. -/
inductive Calling where
  | idle
  | addTimeTask (deadline : ℤ) (soon : Bool)
  | getMinTimeDuration (deadline : ℤ)
  | compare (deadline duration : ℤ)
  | wakeUp
deriving DecidableEq, Repr

namespace Calling

/-- The thread has inserted its task and is not done with waking the loop. -/
def Deciding : Calling → Prop
  | .getMinTimeDuration _ | .compare _ _ | .wakeUp => True
  | .idle | .addTimeTask _ _ => False

/-- The deadline that is about to be compared. -/
def compared : Calling → Option ℤ
  | .compare deadline _ => some deadline
  | _ => none

end Calling

/-- Where the loop is in `Start`. -/
inductive Phase where
  | getMinTimeDuration
  | polling (reading timeout : ℤ)
  | doWithActiveTasks
  | doExpiredTimeTasks
deriving DecidableEq, Repr

structure TimedLoop (τ : Type) where
  now : ℤ
  timePoints : List ℤ
  /-- The eventfd is readable. -/
  readable : Bool
  threads : τ → Calling
  phase : Phase

namespace TimedLoop

/-! ## Machine -/

variable {τ : Type}

inductive Label (τ : Type) where
  | tick (microseconds : ℕ)
  | runAt (t : τ) (timePoint : ℤ)
  | runAfter (t : τ) (delay : ℤ)
  | runEveryUntil (t : τ) (interval start : ℤ)
  | runSoon (t : τ)
  | thread (t : τ)
  | loop (drains : Bool)
deriving DecidableEq, Repr

def goto [DecidableEq τ] (s : TimedLoop τ) (t : τ) (pc : Calling) : TimedLoop τ :=
  { s with threads := Function.update s.threads t pc }

/-- A thread calls one of the functions: it makes the time point first. -/
def call [DecidableEq τ] (s : TimedLoop τ) (t : τ) (deadline : ℤ) (soon : Bool) :
    Option (TimedLoop τ) :=
  if s.threads t = .idle then some (s.goto t (.addTimeTask deadline soon)) else none

/-- The next step of a call. C++ leaves open which operand of `>=` is evaluated first; here it
is the left one, `GetMinTimeDuration()`. -/
def threadStep [DecidableEq τ] (s : TimedLoop τ) (t : τ) : Option (TimedLoop τ) :=
  match s.threads t with
  | .idle => none
  | .addTimeTask deadline soon =>
    some { s.goto t (if soon then .wakeUp else .getMinTimeDuration deadline) with
      timePoints := deadline :: s.timePoints }
  | .getMinTimeDuration deadline =>
    some (s.goto t (.compare deadline (Timer.getMinTimeDuration s.timePoints s.now)))
  | .compare deadline duration =>
    some (s.goto t (if left deadline s.now ≤ duration then .wakeUp else .idle))
  | .wakeUp => some { s.goto t .idle with readable := true }

def loopStep (s : TimedLoop τ) (drains : Bool) : TimedLoop τ :=
  match s.phase with
  | .getMinTimeDuration =>
    { s with phase := .polling s.now (Timer.getMinTimeDuration s.timePoints s.now) }
  | .polling _ _ => { s with phase := .doWithActiveTasks }
  | .doWithActiveTasks =>
    { s with phase := .doExpiredTimeTasks, readable := if drains then false else s.readable }
  | .doExpiredTimeTasks =>
    { s with
      phase := .getMinTimeDuration
      timePoints := getExpiredTimeTasks s.timePoints s.now }

def step [DecidableEq τ] (s : TimedLoop τ) : Label τ → Option (TimedLoop τ)
  | .tick microseconds => some { s with now := s.now + microseconds }
  | .runAt t timePoint => s.call t timePoint false
  | .runAfter t delay => s.call t (addInt64 s.now delay) false
  | .runEveryUntil t interval start => s.call t (addInt64 start interval) false
  | .runSoon t => s.call t s.now true
  | .thread t => s.threadStep t
  | .loop drains => some (s.loopStep drains)

/-- A new loop, at any time. -/
def start (now : ℤ) : TimedLoop τ := ⟨now, [], false, fun _ => .idle, .getMinTimeDuration⟩

def machine [DecidableEq τ] : Machine (TimedLoop τ) (Label τ) := ⟨fun s => ∃ now, s = start now, step⟩

/-- No deadline is more than `2 ^ 31` milliseconds past when the loop asks the timer,
nor when a thread compares its own. -/
def Timely (s : TimedLoop τ) : Label τ → Prop
  | .loop _ => s.phase = .getMinTimeDuration →
      ∀ d ∈ s.timePoints, -2147483648 ≤ getMillisecond d - getMillisecond s.now
  | .thread t => ∀ d ∈ (s.threads t).compared,
      -2147483648 ≤ getMillisecond d - getMillisecond s.now
  | _ => True

instance (s : TimedLoop τ) : (l : Label τ) → Decidable (s.Timely l)
  | .loop _ => inferInstanceAs (Decidable (_ → _))
  | .thread t => inferInstanceAs (Decidable (∀ d ∈ (s.threads t).compared, _))
  | .tick _ | .runAt _ _ | .runAfter _ _ | .runEveryUntil _ _ _ | .runSoon _ =>
    inferInstanceAs (Decidable True)

/-! ## A sleeping loop is covered -/

variable {s s' : TimedLoop τ} {reading finish : ℤ}

/-- The deadline is after the end of the sleep, or is not the first one. -/
def Safe (s : TimedLoop τ) (finish d : ℤ) : Prop :=
  finish < d + 1000 ∨ ∃ d' ∈ s.timePoints, d' < d

/-- The thread is about to announce the deadline. If it has asked the timer, that was
during the sleep, and the deadline was the first one. -/
def Announces (s : TimedLoop τ) (reading : ℤ) (t : τ) (d : ℤ) : Prop :=
  s.threads t = .getMinTimeDuration d ∨
    ∃ c, reading ≤ c ∧ c ≤ s.now ∧ s.threads t = .compare d (duration d c)

/-- The loop is about to be woken, or every deadline is safe or will be announced. -/
def Covered (s : TimedLoop τ) (reading finish : ℤ) : Prop :=
  s.readable = true ∨ (∃ t, s.threads t = .wakeUp) ∨
    ∀ d ∈ s.timePoints, s.Safe finish d ∨ ∃ t, s.Announces reading t d

/-- A covered sleep with nobody about to wake the loop ends before every deadline. -/
theorem Covered.in_time (h : s.Covered reading finish) :
    (∀ d ∈ s.timePoints, finish < d + 1000) ∨ s.readable = true ∨
      ∃ t, (s.threads t).Deciding := by
  rcases h with hread | ⟨t, ht⟩ | hall
  · exact .inr (.inl hread)
  · exact .inr (.inr ⟨t, by rw [ht]; trivial⟩)
  by_cases hdec : ∃ t, (s.threads t).Deciding
  · exact .inr (.inr hdec)
  left
  intro d hd
  cases hfirst : s.timePoints.min? with
  | none =>
    rw [List.min?_eq_none_iff.mp hfirst] at hd
    cases hd
  | some first =>
    rcases List.min?_eq_some_iff.mp hfirst with ⟨hmem, hmin⟩
    have hle := hmin d hd
    -- nothing is before the first deadline, and nobody announces it
    rcases hall first hmem with (hsafe | ⟨d', hd', hlt⟩) | ⟨t, ht⟩
    · omega
    · have := hmin d' hd'
      omega
    · exact absurd ⟨t, by rcases ht with ht | ⟨c, -, -, ht⟩ <;> rw [ht] <;> trivial⟩ hdec

/-- A thread that has not inserted its task announces nothing. -/
theorem Announces.elim {P : Prop} {t : τ} {d : ℤ} (h : s.Announces reading t d)
    (hpc : s.threads t = .idle ∨ ∃ d soon, s.threads t = .addTimeTask d soon) : P := by
  rcases h with h | ⟨c, -, -, h⟩ <;> rcases hpc with hpc | ⟨d, soon, hpc⟩ <;> cases h.symm.trans hpc

/-- The loop goes to sleep. -/
theorem covered_of_reading
    (htimely : ∀ d ∈ s.timePoints, -2147483648 ≤ getMillisecond d - getMillisecond s.now)
    (hpos : 0 < Timer.getMinTimeDuration s.timePoints s.now) :
    s.Covered s.now (s.now + 1000 * Timer.getMinTimeDuration s.timePoints s.now) := by
  refine .inr (.inr fun d hd => .inl (.inl ?_))
  unfold Timer.getMinTimeDuration at *
  split at hpos
  · next hfirst =>
    rw [List.min?_eq_none_iff.mp hfirst] at hd
    cases hd
  · next first hfirst =>
    rcases List.min?_eq_some_iff.mp hfirst with ⟨hmem, hmin⟩
    have hreach := duration_reaches (htimely first hmem) hpos
    have hle := hmin d hd
    omega

section Steps

variable [DecidableEq τ] {t : τ} {d : ℤ}

/-- A thread moves on, and leaves no deadline without an announcement. -/
theorem Covered.goto (h : s.Covered reading finish) {pc : Calling} (hpc : s.threads t ≠ .wakeUp)
    (hmoves : ∀ d ∈ s.timePoints, s.Announces reading t d →
      s.Safe finish d ∨ (s.goto t pc).Announces reading t d) :
    (s.goto t pc).Covered reading finish := by
  have hother : ∀ t', t' ≠ t → (s.goto t pc).threads t' = s.threads t' :=
    fun t' ht' => Function.update_of_ne ht' ..
  rcases h with hread | ⟨t', ht'⟩ | hall
  · exact .inl hread
  · refine .inr (.inl ⟨t', ?_⟩)
    rw [hother, ht']
    rintro rfl
    exact hpc ht'
  · refine .inr (.inr fun d hd => ?_)
    rcases hall d hd with hsafe | ⟨t', ht'⟩
    · exact .inl hsafe
    by_cases heq : t' = t
    · subst heq
      rcases hmoves d hd ht' with hsafe | hann
      · exact .inl hsafe
      · exact .inr ⟨t', hann⟩
    · refine .inr ⟨t', ?_⟩
      rw [Announces, hother t' heq]
      exact ht'

theorem Covered.call (h : s.Covered reading finish) {soon : Bool} (hs : s.call t d soon = some s') :
    s'.Covered reading finish := by
  simp only [TimedLoop.call, Option.ite_none_right_eq_some, Option.some.injEq] at hs
  rcases hs with ⟨hidle, rfl⟩
  refine h.goto (by rw [hidle]; nofun) fun d _ ha => ha.elim (.inl hidle)

/-- A task is inserted by a thread that will ask the timer next. -/
theorem Covered.insert (h : s.Covered reading finish) (hpc : s.threads t = .addTimeTask d false) :
    Covered { s.goto t (.getMinTimeDuration d) with timePoints := d :: s.timePoints } reading
      finish := by
  have hmoved : (s.goto t (.getMinTimeDuration d)).Covered reading finish :=
    h.goto (by rw [hpc]; nofun) fun d' _ ha => ha.elim (.inr ⟨_, _, hpc⟩)
  rcases hmoved with hread | hwake | hall
  · exact .inl hread
  · exact .inr (.inl hwake)
  · refine .inr (.inr fun d' hd' => ?_)
    rcases List.mem_cons.mp hd' with rfl | hd'
    · exact .inr ⟨t, .inl (Function.update_self ..)⟩
    · rcases hall d' hd' with (hlt | ⟨d'', hd'', hlt⟩) | hann
      · exact .inl (.inl hlt)
      · exact .inl (.inr ⟨d'', List.mem_cons_of_mem _ hd'', hlt⟩)
      · exact .inr hann

/-- A thread asks the timer: its deadline is the first one, or it need not care. -/
theorem Covered.ask (h : s.Covered reading finish) (hnow : reading ≤ s.now)
    (hpc : s.threads t = .getMinTimeDuration d) :
    (s.goto t (.compare d (Timer.getMinTimeDuration s.timePoints s.now))).Covered reading
      finish := by
  refine h.goto (by rw [hpc]; nofun) fun d' hd' ha => ?_
  have heq : d' = d := by
    rcases ha with ha | ⟨c, -, -, ha⟩ <;> cases hpc.symm.trans ha
    rfl
  subst heq
  cases hfirst : s.timePoints.min? with
  | none =>
    rw [List.min?_eq_none_iff.mp hfirst] at hd'
    cases hd'
  | some first =>
    rcases List.min?_eq_some_iff.mp hfirst with ⟨hmem, hmin⟩
    rcases Int.lt_or_eq_of_le (hmin d' hd') with hlt | rfl
    · exact .inl (.inr ⟨first, hmem, hlt⟩)
    · refine .inr (.inr ⟨s.now, hnow, Int.le_refl _, ?_⟩)
      rw [Timer.getMinTimeDuration, hfirst]
      exact Function.update_self ..

/-- A thread does not wake the loop: its deadline is beyond the sleep. -/
theorem Covered.pass {timeout dur : ℤ} (h : s.Covered reading (reading + 1000 * timeout))
    (htimeout : timeout < 2147483648) (hpc : s.threads t = .compare d dur)
    (htimely : -2147483648 ≤ getMillisecond d - getMillisecond s.now)
    (hno : ¬ left d s.now ≤ dur) : (s.goto t .idle).Covered reading (reading + 1000 * timeout) := by
  refine h.goto (by rw [hpc]; nofun) fun d' _ ha => ?_
  rcases ha with ha | ⟨c, hc, hcnow, ha⟩
  · cases hpc.symm.trans ha
  · cases hpc.symm.trans ha
    exact .inl (.inl (unannounced_is_far hc hcnow htimeout htimely (by omega)))

theorem Covered.threadStep {timeout : ℤ} (h : s.Covered reading (reading + 1000 * timeout))
    (hnow : reading ≤ s.now) (htimeout : timeout < 2147483648)
    (htimely : ∀ d ∈ (s.threads t).compared,
      -2147483648 ≤ getMillisecond d - getMillisecond s.now)
    (hs : s.threadStep t = some s') : s'.Covered reading (reading + 1000 * timeout) := by
  rw [TimedLoop.threadStep] at hs
  split at hs
  · cases hs
  · next d soon hpc =>
    cases hs
    cases soon with
    | true => exact .inr (.inl ⟨t, Function.update_self ..⟩)
    | false => exact h.insert hpc
  · next d hpc =>
    cases hs
    exact h.ask hnow hpc
  · next d dur hpc =>
    cases hs
    split
    · exact .inr (.inl ⟨t, Function.update_self ..⟩)
    · next hno => exact h.pass htimeout hpc (htimely d (by rw [hpc]; rfl)) hno
  · cases hs
    exact .inl rfl

end Steps

/-! ## The loop is in time -/

/-- A blocked loop is covered. -/
def Inv (s : TimedLoop τ) : Prop :=
  ∀ reading timeout, s.phase = .polling reading timeout →
    reading ≤ s.now ∧ timeout < 2147483648 ∧
      (0 < timeout → s.Covered reading (reading + 1000 * timeout))

theorem inv_init [DecidableEq τ] (h : machine.Init s) : s.Inv := by
  rcases h with ⟨now, rfl⟩
  nofun

theorem inv_loopStep {drains : Bool} (hok : s.Timely (.loop drains)) : (s.loopStep drains).Inv := by
  rw [loopStep]
  split
  · next hphase =>
    intro reading timeout hpoll
    cases hpoll
    exact ⟨Int.le_refl _, getMinTimeDuration_lt _ _, covered_of_reading (hok hphase)⟩
  · nofun
  · nofun
  · nofun

/-- The loop sleeps on while something else happens. -/
theorem Inv.sleeping (h : s.Inv) (hphase : s'.phase = s.phase) (hnow : s.now ≤ s'.now)
    (hcovered : ∀ reading timeout, s.phase = .polling reading timeout → reading ≤ s.now →
      timeout < 2147483648 → s.Covered reading (reading + 1000 * timeout) →
        s'.Covered reading (reading + 1000 * timeout)) : s'.Inv := by
  intro reading timeout hpoll
  rw [hphase] at hpoll
  rcases h reading timeout hpoll with ⟨hle, hlt, hcov⟩
  exact ⟨Int.le_trans hle hnow, hlt, fun hpos => hcovered reading timeout hpoll hle hlt (hcov hpos)⟩

theorem Inv.call [DecidableEq τ] {t : τ} {d : ℤ} {soon : Bool} (h : s.Inv)
    (hs : s.call t d soon = some s') : s'.Inv := by
  have hframe : s'.phase = s.phase ∧ s'.now = s.now := by
    simp only [TimedLoop.call, Option.ite_none_right_eq_some, Option.some.injEq] at hs
    rcases hs with ⟨-, rfl⟩
    exact ⟨rfl, rfl⟩
  exact h.sleeping hframe.1 (Int.le_of_eq hframe.2.symm) fun _ _ _ _ _ hcov => hcov.call hs

theorem threadStep_frame [DecidableEq τ] {t : τ} (hs : s.threadStep t = some s') :
    s'.phase = s.phase ∧ s'.now = s.now := by
  rw [threadStep] at hs
  split at hs <;> cases hs <;> exact ⟨rfl, rfl⟩

theorem Inv.step [DecidableEq τ] {l : Label τ} (h : s.Inv) (hok : s.Timely l)
    (hs : s.step l = some s') : s'.Inv := by
  cases l with
  | tick microseconds =>
    cases hs
    have hnow : s.now ≤ s.now + microseconds := by omega
    refine h.sleeping rfl hnow fun reading timeout _ _ _ hcov => ?_
    rcases hcov with hread | hwake | hall
    · exact .inl hread
    · exact .inr (.inl hwake)
    · refine .inr (.inr fun d hd => (hall d hd).imp id ?_)
      rintro ⟨t, ht | ⟨c, hc, hcnow, ht⟩⟩
      · exact ⟨t, .inl ht⟩
      · exact ⟨t, .inr ⟨c, hc, Int.le_trans hcnow hnow, ht⟩⟩
  | runAt t timePoint => exact h.call hs
  | runAfter t delay => exact h.call hs
  | runEveryUntil t interval start => exact h.call hs
  | runSoon t => exact h.call hs
  | thread t =>
    rcases threadStep_frame hs with ⟨hphase, hnow⟩
    exact h.sleeping hphase (Int.le_of_eq hnow.symm) fun _ _ _ hle hlt hcov =>
      hcov.threadStep hle hlt hok hs
  | loop drains =>
    cases hs
    exact inv_loopStep hok

/-- While the loop is blocked, the end of its sleep is before every deadline, up to
the milliseconds it counts in, or it is about to be woken. -/
def InTime (s : TimedLoop τ) : Prop :=
  ∀ reading timeout, s.phase = .polling reading timeout → 0 < timeout →
    (∀ d ∈ s.timePoints, reading + 1000 * timeout < d + 1000) ∨ s.readable = true ∨
      ∃ t, (s.threads t).Deciding

/-- **The loop never sleeps past a deadline.** In every timely run of the loop with
any number of threads, whatever the delays. -/
theorem never_sleeps_past_deadline [DecidableEq τ] (h : machine.Reachable Timely s) : s.InTime := by
  have hinv : s.Inv := h.invariant (fun _ => inv_init) fun _ _ _ _ hinv hok hs => hinv.step hok hs
  intro reading timeout hpoll hpos
  exact ((hinv reading timeout hpoll).2.2 hpos).in_time

/-- The theorem at a run in which a thread wakes the loop for a task in five seconds,
after one in sixty days, whose duration does not fit in `int`. -/
theorem sleeps_until_first_deadline :
    ∃ s : TimedLoop Bool, machine.Reachable Timely s ∧ s.phase = .polling 0 5000 ∧
      s.timePoints = [5000000, 5184000000000] ∧ s.readable = false ∧ s.InTime := by
  rcases machine.exists_of_run Timely (s := (start 0 : TimedLoop Bool)) ⟨0, rfl⟩
    [.loop false, .runAfter true 5184000000000, .runAfter false 5000000, .thread true, .thread true,
      .thread false, .thread true, .thread false, .thread false, .thread false, .loop false,
      .loop true, .loop false, .loop false]
    (fun s => s.phase = .polling 0 5000 ∧ s.timePoints = [5000000, 5184000000000] ∧
      s.readable = false) (by decide +kernel) with ⟨s, hs, hphase, htasks, hread⟩
  exact ⟨s, hs, hphase, htasks, hread, never_sleeps_past_deadline hs⟩

/-- A deadline more than `2 ^ 31` milliseconds past counts as one to come. A task for a
time that long ago does not wake the loop, when a millisecond passes between the two
readings; and a loop that is held up for so long goes to sleep over a task that is due. -/
theorem sleeps_past_old_deadline :
    (∃ s : TimedLoop Unit, machine.Reachable (fun _ _ => True) s ∧ s.phase = .polling 0 10000 ∧
      s.timePoints = [-2147483648000] ∧ s.readable = false ∧ s.threads () = .idle) ∧
    ∃ s : TimedLoop Unit, machine.Reachable (fun _ _ => True) s ∧
      s.phase = .polling 2147484649000 2147483647 ∧ s.timePoints = [1000000] ∧
      s.readable = false ∧ s.threads () = .idle := by
  constructor
  · exact machine.exists_of_run (fun _ _ => True) (s := (start 0 : TimedLoop Unit)) ⟨0, rfl⟩
      [.loop false, .runAfter () (-2147483648000), .thread (), .thread (), .tick 1000, .thread ()]
      (fun s => s.phase = .polling 0 10000 ∧ s.timePoints = [-2147483648000] ∧
        s.readable = false ∧ s.threads () = .idle) (by decide +kernel)
  · exact machine.exists_of_run (fun _ _ => True) (s := (start 0 : TimedLoop Unit)) ⟨0, rfl⟩
      [.runAfter () 1000000, .thread (), .thread (), .thread (), .thread (), .loop false,
        .loop false, .loop true, .loop false, .tick 2147484649000, .loop false]
      (fun s => s.phase = .polling 2147484649000 2147483647 ∧ s.timePoints = [1000000] ∧
        s.readable = false ∧ s.threads () = .idle) (by decide +kernel)

end TimedLoop

end Taotu
