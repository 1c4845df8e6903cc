import Mathlib.Algebra.Ring.Nat
import Mathlib.Data.List.Nodup
import Mathlib.Order.Nat
import Taotu.Connection.Connector

/-!
# Taotu.Connection.Retrying — the retries of a connector (`connector.cc`, `eventer.cc`)

A connector learns that an attempt has failed from `connect()`, from the error callback or
from the write callback of its eventer, and `Eventer::Work` may run both callbacks one after
the other. The first one takes the eventer away, and the second one finds it gone.

1. **Dispatch.** `work` is `Eventer::Work`, for any callbacks.
2. **Log.** The machine `dialing` is a connector that is never restarted, dispatched with any
   event masks. `retries` records every `Start` that is queued with a delay, with the attempt
   that was in hand then; it is read off the queue of the timer, not off the handlers.
3. **Back-off.** Every attempt is retried at most once, and the delays are those of
   `backOff` (`one_retry_per_attempt`).
-/

namespace Taotu

open Lib

/-! ## Dispatch -/

namespace Dispatching

def pollIn : ℕ := 1
def pollPri : ℕ := 2
def pollOut : ℕ := 4
def pollErr : ℕ := 8
def pollHup : ℕ := 16
def pollNval : ℕ := 32
def pollRdHup : ℕ := 8192

/-- The callbacks that are registered, as what they do to the state `σ`. -/
structure Callbacks (σ : Type) where
  close : Option (σ → σ)
  error : Option (σ → σ)
  read : Option (σ → σ)
  write : Option (σ → σ)

variable {σ : Type}

/-- Run a callback if `bits` say so and it is registered. -/
def invoke (bits : Bool) (callback : Option (σ → σ)) (s : σ) : σ :=
  if bits then
    match callback with
    | some f => f s
    | none => s
  else s

def work (callbacks : Callbacks σ) (inEvents : ℕ) (s : σ) : σ :=
  let s := invoke (inEvents &&& pollHup ≠ 0 ∧ ¬ inEvents &&& pollIn ≠ 0) callbacks.close s
  let s := invoke (inEvents &&& (pollNval ||| pollErr) ≠ 0) callbacks.error s
  let s := invoke (inEvents &&& (pollIn ||| pollPri ||| pollRdHup) ≠ 0) callbacks.read s
  invoke (inEvents &&& pollOut ≠ 0) callbacks.write s

/-- What every registered callback keeps is kept by a dispatch, whatever the events. -/
theorem work_keeps {Inv : σ → Prop} {callbacks : Callbacks σ} {s : σ} (hs : Inv s)
    (hclose : ∀ f ∈ callbacks.close, ∀ s, Inv s → Inv (f s))
    (herror : ∀ f ∈ callbacks.error, ∀ s, Inv s → Inv (f s))
    (hread : ∀ f ∈ callbacks.read, ∀ s, Inv s → Inv (f s))
    (hwrite : ∀ f ∈ callbacks.write, ∀ s, Inv s → Inv (f s)) (inEvents : ℕ) :
    Inv (work callbacks inEvents s) := by
  have hinvoke : ∀ bits callback s, (∀ f ∈ callback, ∀ s, Inv s → Inv (f s)) → Inv s →
      Inv (invoke bits callback s) := by
    intro bits callback s hkeeps hs
    unfold invoke
    split
    · split
      · exact hkeeps _ rfl s hs
      · exact hs
    · exact hs
  exact hinvoke _ _ _ hwrite (hinvoke _ _ _ hread (hinvoke _ _ _ herror (hinvoke _ _ _ hclose hs)))

end Dispatching

/-! ## Log -/

/-- A retry that was scheduled: the attempt in hand, by its socket, and the delay. -/
structure Retry where
  attempt : Option ℕ
  delay : ℕ
deriving DecidableEq, Repr

/-- A connector and the retries scheduled so far. -/
structure Dialing where
  conn : Connector
  retries : List Retry
deriving DecidableEq, Repr

namespace Dialing

/-- The delays with which `Start` is queued. -/
def delays (tasks : List ConnectorTask) : List ℕ :=
  tasks.filterMap fun
    | .start delay => some delay
    | .connect | .release _ => none

/-- A handler runs with an attempt in hand, and what it queues is logged. -/
def run (attempt : Connector → Option ℕ) (f : Connector → Connector) (s : Dialing) : Dialing :=
  { conn := f s.conn
    retries := s.retries ++
      (delays ((f s.conn).tasks.drop s.conn.tasks.length)).map (⟨attempt s.conn, ·⟩) }

/-- The callbacks `DoConnecting` registers. -/
def callbacks (error : ℕ) (self : Bool) : Dispatching.Callbacks Dialing where
  close := none
  error := some (run Connector.eventer Connector.doWithError)
  read := none
  write := some (run Connector.eventer (Connector.doWriting error self))

/-- The attempt a task begins. -/
def attemptOf (c : Connector) : ConnectorTask → Option ℕ
  | .connect => some c.opened
  | .start _ | .release _ => none

inductive Label where
  | start
  | stop
  | expire (k : ℕ) (result : ConnectResult)
  | work (inEvents : ℕ) (error : ℕ) (self : Bool)
deriving DecidableEq, Repr

def step (s : Dialing) : Label → Option Dialing
  | .start => some (s.run (fun _ => none) fun c => { c.start with stopped := none })
  | .stop => some (s.run Connector.eventer fun c =>
      { c.stop with stopped := some (c.attempts, c.handed.length) })
  | .expire k result =>
    match s.conn.tasks[k]? with
    | none => none
    | some task => some ({ s with conn := { s.conn with tasks := s.conn.tasks.eraseIdx k } }.run
        (attemptOf · task) (Connector.runTask result · task))
  | .work inEvents error self => some (Dispatching.work (callbacks error self) inEvents s)

def dialing : Machine Dialing Label :=
  ⟨fun s => ∃ callback, s = ⟨Connector.new callback, []⟩, step⟩

/-! ## What a handler does -/

/-- The delay of the retry with number `k`, counted from zero. -/
def backOff (k : ℕ) : ℕ := min (kInitRetryDelayMicroseconds * 2 ^ k) kMaxRetryDelayMicroseconds

theorem backOff_succ (k : ℕ) :
    min (backOff k * 2) kMaxRetryDelayMicroseconds = backOff (k + 1) := by
  unfold backOff kInitRetryDelayMicroseconds kMaxRetryDelayMicroseconds
  rw [pow_succ]
  omega

variable {c c' : Connector} {s s' : Dialing} {attempt : Option ℕ} {n : ℕ}

/-- The socket is pending before the handler, or opened by it. -/
def InHand (c c' : Connector) (n : ℕ) : Prop :=
  c.eventer = some n ∨ (c.opened ≤ n ∧ n < c'.opened)

/-- A handler schedules no retry, or one for the attempt in hand, which is then given up. -/
structure Handled (attempt : Option ℕ) (c c' : Connector) : Prop where
  opened : c.opened ≤ c'.opened
  eventer : ∀ n, c'.eventer = some n → InHand c c' n
  retry : ∃ added, c'.tasks = c.tasks ++ added ∧
    ((delays added = [] ∧ c'.retryDelayMicroseconds = c.retryDelayMicroseconds) ∨
      ∃ n, attempt = some n ∧ InHand c c' n ∧ c'.eventer ≠ some n ∧
        delays added = [c.retryDelayMicroseconds] ∧
        c'.retryDelayMicroseconds =
          min (c.retryDelayMicroseconds * 2) kMaxRetryDelayMicroseconds)

/-- Nothing is queued at all. -/
theorem handled_unqueued (htasks : c'.tasks = c.tasks) (hopened : c.opened ≤ c'.opened)
    (heventer : ∀ n, c'.eventer = some n → InHand c c' n)
    (hdelay : c'.retryDelayMicroseconds = c.retryDelayMicroseconds) : Handled attempt c c' :=
  ⟨hopened, heventer, [], htasks.trans (List.append_nil _).symm, .inl ⟨rfl, hdelay⟩⟩

theorem handled_refl : Handled attempt c c :=
  handled_unqueued rfl le_rfl (fun _ h => .inl h) rfl

/-- Nothing is queued for later. -/
theorem handled_quiet {task : ConnectorTask} (htask : delays [task] = [])
    (htasks : c'.tasks = c.tasks ++ [task]) (hopened : c'.opened = c.opened)
    (heventer : ∀ n, c'.eventer = some n → c.eventer = some n)
    (hdelay : c'.retryDelayMicroseconds = c.retryDelayMicroseconds) : Handled attempt c c' :=
  ⟨hopened.ge, fun n hn => .inl (heventer n hn), [task], htasks, .inl ⟨htask, hdelay⟩⟩

/-- `DoRetrying` for a socket that is in hand, behind what `before` has queued. -/
theorem handled_retry {before : Connector} (hbefore : ∃ added, before.tasks = c.tasks ++ added ∧
      delays added = []) (hdelay : before.retryDelayMicroseconds = c.retryDelayMicroseconds)
    (hopened : c.opened ≤ before.opened) (heventer : before.eventer ≠ some n)
    (hold : ∀ n, before.eventer = some n → InHand c before n) (hhand : InHand c before n) :
    Handled (some n) c (before.doRetrying n) := by
  obtain ⟨added, htasks, hadded⟩ := hbefore
  unfold Connector.doRetrying
  dsimp only [Connector.close, Connector.setState, Connector.queue]
  split
  · refine ⟨hopened, hold, added ++ [.start before.retryDelayMicroseconds], ?_, .inr ⟨n, rfl, hhand,
      heventer, ?_, ?_⟩⟩
    · show before.tasks ++ _ = _
      rw [htasks, List.append_assoc]
    · rw [delays, List.filterMap_append, ← delays, hadded, hdelay]
      rfl
    · rw [hdelay]
  · exact ⟨hopened, hold, added, htasks, .inl ⟨hadded, hdelay⟩⟩

/-- The pending socket is given up and retried. -/
theorem handled_dropped (hpending : c.eventer = some n) {before : Connector}
    (htasks : before.tasks = c.tasks)
    (hdelay : before.retryDelayMicroseconds = c.retryDelayMicroseconds)
    (hopened : before.opened = c.opened) :
    Handled c.eventer c ((before.dropEventer n).doRetrying n) := by
  rw [hpending]
  refine handled_retry ⟨[.release n], ?_, rfl⟩ hdelay hopened.ge nofun nofun (.inl hpending)
  show before.tasks ++ _ = _
  rw [htasks]

theorem doWithError_handled : Handled c.eventer c c.doWithError := by
  unfold Connector.doWithError
  split
  · exact handled_refl
  · next socket hpending =>
    split
    · exact handled_dropped hpending rfl rfl rfl
    · exact handled_refl

theorem doWriting_handled (error : ℕ) (self : Bool) :
    Handled c.eventer c (c.doWriting error self) := by
  unfold Connector.doWriting
  split
  · exact handled_refl
  · next socket hpending =>
    dsimp only
    split_ifs
    · exact handled_dropped hpending rfl rfl rfl
    · exact handled_dropped hpending rfl rfl rfl
    · exact handled_quiet rfl rfl rfl nofun rfl
    · exact handled_quiet rfl rfl rfl nofun rfl
    · exact handled_refl

theorem stop_handled : Handled c.eventer c c.stop := by
  unfold Connector.stop
  dsimp only
  split
  · split
    · next socket hpending => exact handled_dropped hpending rfl rfl rfl
    · exact handled_unqueued rfl le_rfl (fun _ h => .inl h) rfl
  · exact handled_unqueued rfl le_rfl (fun _ h => .inl h) rfl

theorem start_handled : Handled attempt c c.start :=
  handled_quiet rfl rfl rfl (fun _ h => h) rfl

/-- An attempt has a socket of its own, so it is no attempt that came before. -/
theorem connect_handled (hpending : ∀ n, c.eventer = some n → n < c.opened)
    (result : ConnectResult) : Handled (some c.opened) c (c.connect result) := by
  have hhold : Handled (some c.opened) c
      (Connector.doConnecting c.opened
        { c with attempts := c.attempts + 1, opened := c.opened + 1 }) := by
    refine handled_unqueued rfl (Nat.le_succ _) ?_ rfl
    intro n hn
    cases hn
    exact .inr ⟨le_rfl, Nat.lt_succ_self _⟩
  have hclose : Handled (some c.opened) c
      (Connector.close c.opened { c with attempts := c.attempts + 1, opened := c.opened + 1 }) :=
    handled_unqueued rfl (Nat.le_succ _) (fun _ h => .inl h) rfl
  have hretry : Handled (some c.opened) c
      (Connector.doRetrying c.opened
        { c with attempts := c.attempts + 1, opened := c.opened + 1 }) := by
    refine handled_retry ⟨[], (List.append_nil _).symm, rfl⟩ rfl (Nat.le_succ _) ?_
      (fun _ h => .inl h) (.inr ⟨le_rfl, Nat.lt_succ_self _⟩)
    intro hold
    exact absurd (hpending _ hold) (lt_irrefl _)
  cases result with
  | noSocket => exact handled_unqueued rfl le_rfl (fun _ h => .inl h) rfl
  | connected => exact hhold
  | failed errno =>
    cases errno with
    | EINPROGRESS | EINTR | EISCONN => exact hhold
    | EAGAIN | EADDRINUSE | EADDRNOTAVAIL | ECONNREFUSED | ENETUNREACH => exact hretry
    | EACCES | EPERM | EAFNOSUPPORT | EALREADY | EBADF | EFAULT | ENOTSOCK | unknown => exact hclose

theorem runTask_handled (hpending : ∀ n, c.eventer = some n → n < c.opened)
    (result : ConnectResult) (task : ConnectorTask) :
    Handled (attemptOf c task) c (Connector.runTask result c task) := by
  cases task with
  | connect => exact connect_handled hpending result
  | start delay => exact start_handled
  | release socket => exact handled_refl

/-! ## Back-off -/

structure Inv (s : Dialing) : Prop where
  pending : ∀ n, s.conn.eventer = some n → n < s.conn.opened
  /-- Only attempts that were given up have been retried. -/
  given : ∀ r ∈ s.retries, ∃ n, r.attempt = some n ∧ n < s.conn.opened ∧ s.conn.eventer ≠ some n
  once : (s.retries.map Retry.attempt).Nodup
  delays : s.retries.map Retry.delay = (List.range s.retries.length).map backOff
  delay : s.conn.retryDelayMicroseconds = backOff s.retries.length

theorem drop_tasks {added : List ConnectorTask} (h : c'.tasks = c.tasks ++ added) :
    c'.tasks.drop c.tasks.length = added := by
  rw [h, List.drop_left]

theorem Inv.pending_after (hs : s.Inv) {attempt : Option ℕ} (h : Handled attempt s.conn c') {n : ℕ}
    (hhand : InHand s.conn c' n) : n < c'.opened := by
  rcases hhand with hold | ⟨-, hlt⟩
  · exact lt_of_lt_of_le (hs.pending n hold) h.opened
  · exact hlt

/-- A retried attempt was given up, and no handler takes it in hand again. -/
theorem Inv.given_after (hs : s.Inv) {attempt : Option ℕ} (h : Handled attempt s.conn c') {r : Retry}
    (hr : r ∈ s.retries) : ∃ n, r.attempt = some n ∧ n < c'.opened ∧ c'.eventer ≠ some n ∧
      ¬ InHand s.conn c' n := by
  obtain ⟨n, hn, hlt, hne⟩ := hs.given r hr
  have hout : ¬ InHand s.conn c' n := by
    rintro (hold | ⟨hle, -⟩)
    · exact hne hold
    · exact absurd hlt (Nat.not_lt.mpr hle)
  exact ⟨n, hn, lt_of_lt_of_le hlt h.opened, fun hev => hout (h.eventer n hev), hout⟩

/-- A handler that schedules no retry. -/
theorem Inv.unretried (hs : s.Inv) {attempt : Option ℕ} (h : Handled attempt s.conn c')
    (hdelay : c'.retryDelayMicroseconds = s.conn.retryDelayMicroseconds) :
    Inv ⟨c', s.retries⟩ where
  pending n hn := hs.pending_after h (h.eventer n hn)
  given r hr := by
    obtain ⟨n, hn, hlt, hne, -⟩ := hs.given_after h hr
    exact ⟨n, hn, hlt, hne⟩
  once := hs.once
  delays := hs.delays
  delay := hdelay.trans hs.delay

/-- A handler that schedules a retry for the attempt `n` in hand. -/
theorem Inv.retried (hs : s.Inv) {attempt : Option ℕ} (h : Handled attempt s.conn c')
    (hhand : InHand s.conn c' n) (hne : c'.eventer ≠ some n)
    (hdelay : c'.retryDelayMicroseconds =
      min (s.conn.retryDelayMicroseconds * 2) kMaxRetryDelayMicroseconds) :
    Inv ⟨c', s.retries ++ [⟨some n, s.conn.retryDelayMicroseconds⟩]⟩ where
  pending m hm := hs.pending_after h (h.eventer m hm)
  given r hr := by
    rcases List.mem_append.mp hr with hr | hr
    · obtain ⟨m, hm, hlt, hne, -⟩ := hs.given_after h hr
      exact ⟨m, hm, hlt, hne⟩
    · rw [List.mem_singleton.mp hr]
      exact ⟨n, rfl, hs.pending_after h hhand, hne⟩
  once := by
    -- the attempt in hand has not been retried before
    rw [List.map_append, List.nodup_append]
    refine ⟨hs.once, List.nodup_singleton _, ?_⟩
    intro a ha b hb hab
    obtain ⟨r, hr, rfl⟩ := List.mem_map.mp ha
    obtain ⟨m, hm, -, -, hout⟩ := hs.given_after h hr
    rw [hab, List.mem_singleton.mp hb] at hm
    cases hm
    exact hout hhand
  delays := by
    rw [List.map_append, hs.delays, List.length_append, List.length_singleton,
      List.range_succ, List.map_append, hs.delay]
    rfl
  delay := by
    rw [List.length_append, List.length_singleton]
    refine hdelay.trans ?_
    rw [hs.delay, backOff_succ]

theorem Inv.handled (hs : s.Inv) {attempt : Connector → Option ℕ} {f : Connector → Connector}
    (h : Handled (attempt s.conn) s.conn (f s.conn)) : (s.run attempt f).Inv := by
  obtain ⟨added, htasks, hretry⟩ := h.retry
  rcases hretry with ⟨hnone, hdelay⟩ | ⟨n, hattempt, hhand, hne, hone, hdelay⟩
  · have hrun : s.run attempt f = ⟨f s.conn, s.retries⟩ := by
      rw [run, drop_tasks htasks, hnone]
      simp only [List.map_nil, List.append_nil]
    rw [hrun]
    exact hs.unretried h hdelay
  · have hrun : s.run attempt f =
        ⟨f s.conn, s.retries ++ [⟨some n, s.conn.retryDelayMicroseconds⟩]⟩ := by
      rw [run, drop_tasks htasks, hone, hattempt]
      rfl
    rw [hrun]
    exact hs.retried h hhand hne hdelay

theorem Inv.step (hs : s.Inv) {l : Label} (h : s.step l = some s') : s'.Inv := by
  cases l with
  | start =>
    cases h
    have hstart := @start_handled s.conn none
    exact hs.handled ⟨hstart.opened, hstart.eventer, hstart.retry⟩
  | stop =>
    cases h
    have hstop := @stop_handled s.conn
    exact hs.handled ⟨hstop.opened, hstop.eventer, hstop.retry⟩
  | expire k result =>
    simp only [Dialing.step] at h
    split at h
    · cases h
    · next task htask =>
      cases h
      have herased : Inv { s with conn := { s.conn with tasks := s.conn.tasks.eraseIdx k } } :=
        ⟨hs.pending, hs.given, hs.once, hs.delays, hs.delay⟩
      exact herased.handled (runTask_handled herased.pending result task)
  | work inEvents error self =>
    cases h
    -- one dispatch may call the error callback and then the write callback
    refine Dispatching.work_keeps hs (fun _ hf => by cases hf) ?_ (fun _ hf => by cases hf) ?_
      inEvents
    · rintro f ⟨⟩ t ht
      exact ht.handled doWithError_handled
    · rintro f ⟨⟩ t ht
      exact ht.handled (doWriting_handled error self)

theorem Inv.reachable {ok : Dialing → Label → Prop} (h : dialing.Reachable ok s) : s.Inv := by
  refine h.invariant ?_ fun _ _ _ _ hs _ hstep => hs.step hstep
  rintro s ⟨callback, rfl⟩
  exact ⟨nofun, nofun, List.nodup_nil, rfl, rfl⟩

/-- **One failure, one retry, bounded back-off.** In every run of a connector without
`Restart`, whatever events its eventers are dispatched with, every retry belongs to an
attempt that was made, no attempt has two, the retry with number `k` waits
`min (500000 * 2 ^ k) 30000000` microseconds, and doubling the delay fits an `int`. -/
theorem one_retry_per_attempt (h : dialing.Reachable (fun _ _ => True) s) :
    (∀ r ∈ s.retries, ∃ n < s.conn.opened, r.attempt = some n) ∧
    (s.retries.map Retry.attempt).Nodup ∧
    (∀ k r, s.retries[k]? = some r → r.delay = min (500000 * 2 ^ k) 30000000) ∧
    s.conn.retryDelayMicroseconds * 2 < 2147483648 := by
  have hs := Inv.reachable h
  refine ⟨?_, hs.once, ?_, ?_⟩
  · intro r hr
    obtain ⟨n, hn, hlt, -⟩ := hs.given r hr
    exact ⟨n, hlt, hn⟩
  · intro k r hr
    have hdelay : (s.retries.map Retry.delay)[k]? = some r.delay := by
      rw [List.getElem?_map, hr]
      rfl
    have hk : k < s.retries.length := (List.getElem?_eq_some_iff.mp hr).1
    rw [hs.delays, List.getElem?_map, List.getElem?_range hk] at hdelay
    exact (Option.some.inj hdelay).symm
  · rw [hs.delay, backOff]
    unfold kMaxRetryDelayMicroseconds
    omega

/-- The theorem at a run in which `POLLERR`, `POLLHUP` and `POLLOUT` come together, and a
second attempt is refused at once. -/
theorem one_retry_error_and_write :
    ∃ s, dialing.Reachable (fun _ _ => True) s ∧
      s.retries = [⟨some 0, 500000⟩, ⟨some 1, 1000000⟩] ∧
      (s.retries.map Retry.attempt).Nodup := by
  obtain ⟨s, hs, hlog⟩ := dialing.exists_of_run (fun _ _ => True)
    (s := ⟨Connector.new true, []⟩) ⟨true, rfl⟩
    [.start, .expire 0 (.failed .EINPROGRESS), .work 28 111 false, .expire 1 .noSocket,
      .expire 1 (.failed .ECONNREFUSED)]
    (fun s => s.retries = [⟨some 0, 500000⟩, ⟨some 1, 1000000⟩]) (by decide +kernel)
  exact ⟨s, hs, hlog, (one_retry_per_attempt hs).2.1⟩

end Dialing

end Taotu
