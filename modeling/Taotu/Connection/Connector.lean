import Taotu.Lib.Machine
import Mathlib.Tactic.Common

/-!
# Taotu.Connection.Connector — outgoing connections (`connector.h`, `connector.cc`)

A connector opens a socket, starts to connect it and waits in `eventer_` for it to
become writable. Then it hands the socket to `NewConnectionCallback_`, or closes it
and tries again later.

Connecting is begun by tasks in the timer of the loop: `Start` queues a `Connect`,
and a retry queues a `Start`. The machine runs the queued tasks in any order, lets
the user call `Start`, `Restart` and `Stop` at any time, and lets `connect()` and the
socket answer whatever they like. The callback is the last thing a handler does, so
what it calls comes as later steps. Events are taken to arrive at any time, also
those of an eventer that `Stop` has put aside.

1. **Stop.** `Stop` does not take back what is queued. A queued `Connect` does not
   look at `can_connect_`, and a queued retry sets it again. If nothing of this kind
   is queued when `Stop` is called, it is final (`stop_is_final`).
2. **Sockets.** There is one `eventer_`. A second attempt while it holds a socket
   drops the first socket, and `Restart` or a failed second attempt leaves it in a
   state in which its events are ignored. If neither happens while a socket is
   pending, every socket is in one place (`sockets_accounted_for`).

**Ghosts.** Sockets are numbered in the order in which `Connect` opens them;
`opened` is their number, `closed` and `handed` what became of them. `attempts`
counts the calls of `Connect`. `stopped` holds `attempts` and the length of `handed`
at the last `Stop`, until the user starts again.
-/

namespace Taotu

open Lib

/-! ## Model layer -/

def kMaxRetryDelayMicroseconds : ℕ := 30 * 1000 * 1000

def kInitRetryDelayMicroseconds : ℕ := 500 * 1000

/-- The errors `Connect` knows. -/
inductive ConnectErrno where
  | EINPROGRESS | EINTR | EISCONN
  | EAGAIN | EADDRINUSE | EADDRNOTAVAIL | ECONNREFUSED | ENETUNREACH
  | EACCES | EPERM | EAFNOSUPPORT | EALREADY | EBADF | EFAULT | ENOTSOCK
  | unknown (errno : ℕ)
deriving DecidableEq, Repr

/-- What `socket()` and `connect()` answer. -/
inductive ConnectResult where
  | noSocket
  | connected
  | failed (errno : ConnectErrno)
deriving DecidableEq, Repr

/-- The attempt sets `state_`: it goes on, or is to be retried. -/
def ConnectResult.Touches : ConnectResult → Bool
  | .noSocket => false
  | .connected => true
  | .failed errno =>
    match errno with
    | .EINPROGRESS | .EINTR | .EISCONN => true
    | .EAGAIN | .EADDRINUSE | .EADDRNOTAVAIL | .ECONNREFUSED | .ENETUNREACH => true
    | _ => false

inductive ConnectState where
  | kDisconnected
  | kConnecting
  | kConnected
deriving DecidableEq, Repr

/-- What the connector has queued in the timer. -/
inductive ConnectorTask where
  | connect
  | start (delay : ℕ)
  /-- An old eventer is removed or destroyed. -/
  | release (socket : ℕ)
deriving DecidableEq, Repr

/-- The task leads to a new attempt. -/
def ConnectorTask.Connects : ConnectorTask → Bool
  | .connect | .start _ => true
  | .release _ => false

structure Connector where
  state : ConnectState
  canConnect : Bool
  retryDelayMicroseconds : ℕ
  /-- A `NewConnectionCallback_` is registered. -/
  newConnectionCallback : Bool
  /-- The socket of `eventer_`. -/
  eventer : Option ℕ
  tasks : List ConnectorTask
  opened : ℕ
  closed : List ℕ
  handed : List ℕ
  attempts : ℕ
  stopped : Option (ℕ × ℕ)
deriving DecidableEq, Repr

namespace Connector

def setState (state : ConnectState) (c : Connector) : Connector := { c with state := state }

/-- `RunSoon` and `RunAfter`. -/
def queue (task : ConnectorTask) (c : Connector) : Connector := { c with tasks := c.tasks ++ [task] }

/-- `::close`. -/
def close (socket : ℕ) (c : Connector) : Connector := { c with closed := c.closed ++ [socket] }

def start (c : Connector) : Connector := { c with canConnect := true }.queue .connect

def restart (c : Connector) : Connector :=
  start { c with state := .kDisconnected, retryDelayMicroseconds := kInitRetryDelayMicroseconds }

def doConnecting (socket : ℕ) (c : Connector) : Connector :=
  { c with state := .kConnecting, eventer := some socket }

def doRetrying (socket : ℕ) (c : Connector) : Connector :=
  let c := (c.close socket).setState .kDisconnected
  if c.canConnect then
    { c.queue (.start c.retryDelayMicroseconds) with
      retryDelayMicroseconds := min (c.retryDelayMicroseconds * 2) kMaxRetryDelayMicroseconds }
  else c

/-- The eventer is moved into a task. -/
def dropEventer (socket : ℕ) (c : Connector) : Connector :=
  { c.queue (.release socket) with eventer := none }

def stop (c : Connector) : Connector :=
  let c := { c with canConnect := false }
  if c.state = .kConnecting then
    match c.eventer with
    | some socket => ((c.setState .kDisconnected).dropEventer socket).doRetrying socket
    | none => c.setState .kDisconnected
  else c

/-- The switch over the answer of `connect()`. -/
def connected (result : ConnectResult) (socket : ℕ) (c : Connector) : Connector :=
  match result with
  | .noSocket => c
  | .connected => c.doConnecting socket
  | .failed errno =>
    match errno with
    | .EINPROGRESS | .EINTR | .EISCONN => c.doConnecting socket
    | .EAGAIN | .EADDRINUSE | .EADDRNOTAVAIL | .ECONNREFUSED | .ENETUNREACH => c.doRetrying socket
    | .EACCES | .EPERM | .EAFNOSUPPORT | .EALREADY | .EBADF | .EFAULT | .ENOTSOCK => c.close socket
    | .unknown _ => c.close socket

def connect (result : ConnectResult) (c : Connector) : Connector :=
  let c := { c with attempts := c.attempts + 1 }
  if result = .noSocket then c
  else connected result c.opened { c with opened := c.opened + 1 }

/-- `error` is what `GetSocketError` answers, `self` whether the socket is connected
to itself. -/
def doWriting (error : ℕ) (self : Bool) (c : Connector) : Connector :=
  match c.eventer with
  | none => c
  | some socket =>
    if c.state = .kConnecting then
      let c := c.dropEventer socket
      if error ≠ 0 then c.doRetrying socket
      else if self then c.doRetrying socket
      else
        let c := c.setState .kConnected
        if c.canConnect ∧ c.newConnectionCallback then { c with handed := c.handed ++ [socket] }
        else c.close socket
    else c

def doWithError (c : Connector) : Connector :=
  match c.eventer with
  | none => c
  | some socket =>
    if c.state = .kConnecting then (c.dropEventer socket).doRetrying socket else c

def runTask (result : ConnectResult) (c : Connector) : ConnectorTask → Connector
  | .connect => c.connect result
  | .start _ => c.start
  | .release _ => c

inductive Label where
  | start
  | restart
  | stop
  | expire (k : ℕ) (result : ConnectResult)
  | doWriting (error : ℕ) (self : Bool)
  | doWithError
deriving DecidableEq, Repr

def step (c : Connector) : Label → Option Connector
  | .start => some { c.start with stopped := none }
  | .restart => some { c.restart with stopped := none }
  | .stop => some { c.stop with stopped := some (c.attempts, c.handed.length) }
  | .expire k result =>
    match c.tasks[k]? with
    | none => none
    | some task => some (runTask result { c with tasks := c.tasks.eraseIdx k } task)
  | .doWriting error self => some (c.doWriting error self)
  | .doWithError => some c.doWithError

def new (newConnectionCallback : Bool) : Connector :=
  { state := .kDisconnected, canConnect := false
    retryDelayMicroseconds := kInitRetryDelayMicroseconds
    newConnectionCallback := newConnectionCallback
    eventer := none, tasks := [], opened := 0, closed := [], handed := [], attempts := 0
    stopped := none }

def machine : Machine Connector Label := ⟨fun c => ∃ callback, c = new callback, step⟩

variable {c c' : Connector} {socket n : ℕ}

/-- A retry closes the socket. After `Stop` nothing is queued. -/
theorem doRetrying_eq (socket : ℕ) (c : Connector) :
    ∃ tasks delay, c.doRetrying socket =
        { c with
          closed := c.closed ++ [socket]
          state := .kDisconnected
          tasks := tasks
          retryDelayMicroseconds := delay } ∧
      (c.canConnect = false → tasks = c.tasks) := by
  unfold doRetrying
  dsimp only [setState, close]
  split
  · next hcan => exact ⟨_, _, rfl, fun hfalse => absurd hcan (by rw [hfalse]; nofun)⟩
  · exact ⟨_, _, rfl, fun _ => rfl⟩

/-! ## Stop -/

/-- Nothing is queued that connects when the user calls `Stop`. -/
def NothingQueued (c : Connector) : Label → Prop
  | .stop => ∀ task ∈ c.tasks, task.Connects = false
  | _ => True

instance (c : Connector) : (l : Label) → Decidable (c.NothingQueued l)
  | .stop => inferInstanceAs (Decidable (∀ task ∈ c.tasks, task.Connects = false))
  | .start | .restart | .expire _ _ | .doWriting _ _ | .doWithError =>
    inferInstanceAs (Decidable True)

/-- Since `Stop` nothing has happened and nothing will. -/
structure Silent (c : Connector) (attempts handed : ℕ) : Prop where
  canConnect : c.canConnect = false
  attempts : c.attempts = attempts
  handed : c.handed.length = handed
  state : c.state ≠ .kConnecting
  tasks : ∀ task ∈ c.tasks, task.Connects = false

theorem stop_silent (h : ∀ task ∈ c.tasks, task.Connects = false) :
    c.stop.Silent c.attempts c.handed.length := by
  unfold stop
  dsimp only
  split
  · split
    · next socket _ =>
      rcases doRetrying_eq socket
          (({ c with canConnect := false }.setState .kDisconnected).dropEventer socket) with
        ⟨tasks, delay, heq, htasks⟩
      rw [heq]
      refine ⟨rfl, rfl, rfl, nofun, ?_⟩
      rw [htasks rfl]
      intro task htask
      rcases List.mem_append.mp htask with htask | htask
      · exact h task htask
      · rw [List.mem_singleton.mp htask]
        rfl
    · exact ⟨rfl, rfl, rfl, nofun, h⟩
  · next hstate => exact ⟨rfl, rfl, rfl, hstate, h⟩

namespace Silent

variable {attempts handed : ℕ} (h : c.Silent attempts handed)
include h

/-- Without a pending attempt events do nothing. -/
theorem doWriting (error : ℕ) (self : Bool) : c.doWriting error self = c := by
  unfold Connector.doWriting
  split
  · rfl
  · exact if_neg h.state

theorem doWithError : c.doWithError = c := by
  unfold Connector.doWithError
  split
  · rfl
  · exact if_neg h.state

theorem expire {k : ℕ} {task : ConnectorTask} (htask : c.tasks[k]? = some task)
    (result : ConnectResult) :
    (runTask result { c with tasks := c.tasks.eraseIdx k } task).Silent attempts handed := by
  have hidle := h.tasks task (List.mem_of_getElem? htask)
  have hrest : ∀ task ∈ c.tasks.eraseIdx k, task.Connects = false :=
    fun task' htask' => h.tasks task' (List.mem_of_mem_eraseIdx htask')
  cases task with
  | connect => cases hidle
  | start delay => cases hidle
  | release socket => exact { h with tasks := hrest }

end Silent

/-- Since the last `Stop`, if the user has not started again. -/
def Quiet (c : Connector) : Prop :=
  ∀ attempts handed, c.stopped = some (attempts, handed) → c.Silent attempts handed

theorem doRetrying_stopped (socket : ℕ) (c : Connector) :
    (c.doRetrying socket).stopped = c.stopped := by
  rcases doRetrying_eq socket c with ⟨tasks, delay, heq, -⟩
  rw [heq]

theorem runTask_stopped (result : ConnectResult) (c : Connector) (task : ConnectorTask) :
    (runTask result c task).stopped = c.stopped := by
  cases task with
  | start delay => rfl
  | release socket => rfl
  | connect =>
    cases result with
    | noSocket => rfl
    | connected => rfl
    | failed errno => cases errno <;> first | rfl | exact doRetrying_stopped ..

theorem doWriting_stopped (error : ℕ) (self : Bool) (c : Connector) :
    (c.doWriting error self).stopped = c.stopped := by
  unfold doWriting
  split
  · rfl
  · dsimp only
    split_ifs <;> first | rfl | exact doRetrying_stopped ..

theorem doWithError_stopped (c : Connector) : c.doWithError.stopped = c.stopped := by
  unfold doWithError
  split
  · rfl
  · split
    · exact doRetrying_stopped ..
    · rfl

theorem Quiet.step {l : Label} (h : c.Quiet) (hok : c.NothingQueued l) (hs : c.step l = some c') :
    c'.Quiet := by
  intro attempts handed hstopped
  cases l with
  | start =>
    cases hs
    cases hstopped
  | restart =>
    cases hs
    cases hstopped
  | stop =>
    cases hs
    cases hstopped
    have hsilent := stop_silent hok
    exact ⟨hsilent.canConnect, hsilent.attempts, hsilent.handed, hsilent.state, hsilent.tasks⟩
  | expire k result =>
    simp only [Connector.step] at hs
    split at hs
    · cases hs
    · next task htask =>
      cases hs
      rw [runTask_stopped] at hstopped
      exact (h attempts handed hstopped).expire htask result
  | doWriting error self =>
    cases hs
    rw [doWriting_stopped] at hstopped
    have hsilent := h attempts handed hstopped
    rwa [hsilent.doWriting]
  | doWithError =>
    cases hs
    rw [doWithError_stopped] at hstopped
    have hsilent := h attempts handed hstopped
    rwa [hsilent.doWithError]

/-- **Stop is final.** If nothing that connects is queued whenever `Stop` is called,
then after a `Stop` and until the user starts again `can_connect_` stays false, no
attempt is begun and the callback is not invoked. -/
theorem stop_is_final (h : machine.Reachable NothingQueued c) {attempts handed : ℕ}
    (hstopped : c.stopped = some (attempts, handed)) :
    c.canConnect = false ∧ c.attempts = attempts ∧ c.handed.length = handed := by
  have hquiet : c.Quiet := by
    refine h.invariant ?_ fun _ _ _ _ hq hok hs => hq.step hok hs
    rintro c ⟨callback, rfl⟩
    nofun
  have hsilent := hquiet attempts handed hstopped
  exact ⟨hsilent.canConnect, hsilent.attempts, hsilent.handed⟩

/-- The theorem at a run in which `Stop` interrupts an attempt and late events of its
socket follow. -/
theorem stop_is_final_while_connecting :
    ∃ c, machine.Reachable NothingQueued c ∧ c.stopped = some (1, 0) ∧ c.closed = [0] ∧
      c.canConnect = false ∧ c.attempts = 1 ∧ c.handed.length = 0 := by
  rcases machine.exists_of_run NothingQueued (s := new true) ⟨true, rfl⟩
    [.start, .expire 0 (.failed .EINPROGRESS), .stop, .doWriting 0 false, .expire 0 .connected,
      .doWithError]
    (fun c => c.stopped = some (1, 0) ∧ c.closed = [0]) (by decide +kernel)
    with ⟨c, hc, hstopped, hclosed⟩
  exact ⟨c, hc, hstopped, hclosed, stop_is_final hc hstopped⟩

/-- An attempt is refused, and a retry is queued, when the user calls `Stop`. The
retry connects, and the socket is handed over. -/
theorem retry_overtakes_stop :
    ∃ c, machine.Reachable (fun _ _ => True) c ∧ c.stopped = some (1, 0) ∧ c.canConnect = true ∧
      c.attempts = 2 ∧ c.handed = [1] :=
  machine.exists_of_run (fun _ _ => True) (s := new true) ⟨true, rfl⟩
    [.start, .expire 0 (.failed .ECONNREFUSED), .stop, .expire 0 .connected, .expire 0 .connected,
      .doWriting 0 false]
    (fun c => c.stopped = some (1, 0) ∧ c.canConnect = true ∧ c.attempts = 2 ∧ c.handed = [1])
    (by decide +kernel)

/-! ## Sockets -/

/-- One socket is pending at a time: no attempt gets as far as `connect()` or fails
for a while, and no `Restart` is called, when `eventer_` holds a socket. -/
def OneAttempt (c : Connector) : Label → Prop
  | .restart => c.eventer = none
  | .expire k result => c.tasks[k]? = some .connect → result.Touches = true → c.eventer = none
  | _ => True

instance (c : Connector) : (l : Label) → Decidable (c.OneAttempt l)
  | .restart => inferInstanceAs (Decidable (c.eventer = none))
  | .expire k result =>
    inferInstanceAs (Decidable (c.tasks[k]? = some .connect → result.Touches = true → c.eventer = none))
  | .start | .stop | .doWriting _ _ | .doWithError => inferInstanceAs (Decidable True)

/-- How often a socket was closed or handed over. -/
def settled (c : Connector) (n : ℕ) : ℕ := c.closed.count n + c.handed.count n

/-- The pending socket is neither closed nor handed over, and every other one is
closed or handed over once. -/
structure Owned (c : Connector) : Prop where
  pending : ∀ n, c.eventer = some n → c.state = .kConnecting ∧ n < c.opened
  settled : ∀ n, c.settled n = if n < c.opened ∧ c.eventer ≠ some n then 1 else 0

/-- One socket more is closed or handed over than in `c`. -/
def SettledMore (c' : Connector) (n : ℕ) (c : Connector) : Prop :=
  ∀ m, c'.settled m = c.settled m + if m = n then 1 else 0

theorem count_concat (l : List ℕ) (m : ℕ) :
    (l ++ [n]).count m = l.count m + if m = n then 1 else 0 := by
  rw [List.count_append, List.count_singleton]
  simp only [beq_iff_eq, @eq_comm _ n m]

theorem settledMore_close (hclosed : c'.closed = c.closed ++ [n]) (hhanded : c'.handed = c.handed) :
    c'.SettledMore n c := by
  intro m
  rw [settled, settled, hclosed, hhanded, count_concat]
  omega

theorem settledMore_hand (hclosed : c'.closed = c.closed) (hhanded : c'.handed = c.handed ++ [n]) :
    c'.SettledMore n c := by
  intro m
  rw [settled, settled, hclosed, hhanded, count_concat]
  omega

namespace Owned

variable (h : c.Owned)
include h

/-- No socket moves, and the state stays unless nothing is pending. -/
theorem frame (heventer : c'.eventer = c.eventer) (hstate : c.eventer = none ∨ c'.state = c.state)
    (hopened : c'.opened = c.opened) (hclosed : c'.closed = c.closed)
    (hhanded : c'.handed = c.handed) : c'.Owned := by
  constructor
  · intro n hn
    rw [heventer] at hn
    rcases hstate with hnone | hstate
    · rw [hnone] at hn
      cases hn
    · rw [hstate, hopened]
      exact h.pending n hn
  · intro n
    rw [Connector.settled, hclosed, hhanded, heventer, hopened]
    exact h.settled n

/-- A new socket becomes the pending one. -/
theorem hold (hnone : c.eventer = none) (heventer : c'.eventer = some c.opened)
    (hstate : c'.state = .kConnecting) (hopened : c'.opened = c.opened + 1)
    (hclosed : c'.closed = c.closed) (hhanded : c'.handed = c.handed) : c'.Owned := by
  constructor
  · intro n hn
    rw [heventer] at hn
    cases hn
    exact ⟨hstate, by omega⟩
  · intro n
    have hn := h.settled n
    rw [Connector.settled] at hn ⊢
    rw [hclosed, hhanded, hn, hnone, heventer, hopened]
    by_cases heq : n = c.opened
    · simp [heq]
    · have hne : c.opened ≠ n := Ne.symm heq
      have hlt : n < c.opened + 1 ↔ n < c.opened := by omega
      simp only [hlt]
      simp [hne]

/-- A new socket is closed at once. -/
theorem shut (heventer : c'.eventer = c.eventer) (hstate : c.eventer = none ∨ c'.state = c.state)
    (hopened : c'.opened = c.opened + 1) (hsettled : c'.SettledMore c.opened c) : c'.Owned := by
  constructor
  · intro n hn
    rw [heventer] at hn
    rcases hstate with hnone | hstate
    · rw [hnone] at hn
      cases hn
    · rw [hstate, hopened]
      exact ⟨(h.pending n hn).1, Nat.lt_succ_of_lt (h.pending n hn).2⟩
  · intro n
    rw [hsettled n, h.settled n, heventer, hopened]
    by_cases heq : n = c.opened
    · have hne : c.eventer ≠ some n := fun hn => by
        have := (h.pending n hn).2
        omega
      simp [heq ▸ hne, heq]
    · have hlt : n < c.opened + 1 ↔ n < c.opened := by omega
      simp only [hlt]
      simp [heq]

/-- The pending socket is closed or handed over. -/
theorem settle (hpending : c.eventer = some n) (heventer : c'.eventer = none)
    (hopened : c'.opened = c.opened) (hsettled : c'.SettledMore n c) : c'.Owned := by
  constructor
  · intro m hm
    rw [heventer] at hm
    cases hm
  · intro m
    have hlt := (h.pending n hpending).2
    rw [hsettled m, h.settled m, heventer, hopened, hpending]
    by_cases heq : m = n
    · simp [heq, hlt]
    · have hne : n ≠ m := Ne.symm heq
      simp [heq, hne]

/-- The pending socket is closed for a retry. -/
theorem retry (hpending : c.eventer = some n) (heventer : c'.eventer = none)
    (hopened : c'.opened = c.opened) (hclosed : c'.closed = c.closed) (hhanded : c'.handed = c.handed) :
    (c'.doRetrying n).Owned := by
  rcases doRetrying_eq n c' with ⟨tasks, delay, heq, -⟩
  rw [heq]
  refine h.settle hpending heventer hopened (settledMore_close ?_ hhanded)
  show c'.closed ++ [n] = _
  rw [hclosed]

theorem stop : c.stop.Owned := by
  unfold Connector.stop
  dsimp only
  split
  · split
    · next socket hpending => exact h.retry hpending rfl rfl rfl rfl
    · next hnone => exact h.frame rfl (.inl hnone) rfl rfl rfl
  · exact h.frame rfl (.inr rfl) rfl rfl rfl

theorem connect {result : ConnectResult} (hone : result.Touches = true → c.eventer = none) :
    (c.connect result).Owned := by
  have hretry : c.eventer = none →
      ({ c with attempts := c.attempts + 1, opened := c.opened + 1 }.doRetrying c.opened).Owned := by
    intro hnone
    rcases doRetrying_eq c.opened { c with attempts := c.attempts + 1, opened := c.opened + 1 } with
      ⟨tasks, delay, heq, -⟩
    rw [heq]
    exact h.shut rfl (.inl hnone) rfl (settledMore_close rfl rfl)
  cases result with
  | noSocket => exact h.frame rfl (.inr rfl) rfl rfl rfl
  | connected => exact h.hold (hone rfl) rfl rfl rfl rfl rfl
  | failed errno =>
    cases errno with
    | EINPROGRESS | EINTR | EISCONN => exact h.hold (hone rfl) rfl rfl rfl rfl rfl
    | EAGAIN | EADDRINUSE | EADDRNOTAVAIL | ECONNREFUSED | ENETUNREACH => exact hretry (hone rfl)
    | EACCES | EPERM | EAFNOSUPPORT | EALREADY | EBADF | EFAULT | ENOTSOCK | unknown =>
      exact h.shut rfl (.inr rfl) rfl (settledMore_close rfl rfl)

theorem doWriting (error : ℕ) (self : Bool) : (c.doWriting error self).Owned := by
  unfold Connector.doWriting
  split
  · exact h
  · next socket hpending =>
    dsimp only
    split_ifs
    · exact h.retry hpending rfl rfl rfl rfl
    · exact h.retry hpending rfl rfl rfl rfl
    · exact h.settle hpending rfl rfl (settledMore_hand rfl rfl)
    · exact h.settle hpending rfl rfl (settledMore_close rfl rfl)
    · exact h

theorem doWithError : c.doWithError.Owned := by
  unfold Connector.doWithError
  split
  · exact h
  · next socket hpending =>
    split
    · exact h.retry hpending rfl rfl rfl rfl
    · exact h

theorem step {l : Label} (hok : c.OneAttempt l) (hs : c.step l = some c') : c'.Owned := by
  cases l with
  | start =>
    cases hs
    exact h.frame rfl (.inr rfl) rfl rfl rfl
  | restart =>
    cases hs
    exact h.frame rfl (.inl hok) rfl rfl rfl
  | stop =>
    cases hs
    exact h.stop.frame rfl (.inr rfl) rfl rfl rfl
  | expire k result =>
    simp only [Connector.step] at hs
    split at hs
    · cases hs
    · next task htask =>
      cases hs
      have hrest : Owned { c with tasks := c.tasks.eraseIdx k } :=
        h.frame rfl (.inr rfl) rfl rfl rfl
      cases task with
      | connect => exact hrest.connect (hok htask)
      | start delay => exact hrest.frame rfl (.inr rfl) rfl rfl rfl
      | release socket => exact hrest
  | doWriting error self =>
    cases hs
    exact h.doWriting error self
  | doWithError =>
    cases hs
    exact h.doWithError

end Owned

/-- A socket that was opened is in one of three places: pending, closed once, or handed
over once. -/
def Accounted (c : Connector) (n : ℕ) : Prop :=
  (c.state = .kConnecting ∧ c.eventer = some n ∧ c.closed.count n = 0 ∧ c.handed.count n = 0) ∨
    (c.eventer ≠ some n ∧ c.closed.count n = 1 ∧ c.handed.count n = 0) ∨
    (c.eventer ≠ some n ∧ c.closed.count n = 0 ∧ c.handed.count n = 1)

/-- **No socket is leaked or closed twice.** In every run with one attempt at a time,
each socket that was opened is pending, closed once or handed over once, and nothing
else. -/
theorem sockets_accounted_for (h : machine.Reachable OneAttempt c) (n : ℕ) (hn : n < c.opened) :
    c.Accounted n := by
  have howned : c.Owned := by
    refine h.invariant ?_ fun _ _ _ _ ho hok hs => ho.step hok hs
    rintro c ⟨callback, rfl⟩
    exact ⟨nofun, fun n => rfl⟩
  have hsettled := howned.settled n
  rw [settled] at hsettled
  by_cases hpending : c.eventer = some n
  · rw [if_neg (fun hboth => hboth.2 hpending)] at hsettled
    exact .inl ⟨(howned.pending n hpending).1, hpending, by omega, by omega⟩
  · rw [if_pos ⟨hn, hpending⟩] at hsettled
    rcases Nat.eq_zero_or_pos (c.closed.count n) with hzero | hpos
    · exact .inr (.inr ⟨hpending, hzero, by omega⟩)
    · exact .inr (.inl ⟨hpending, by omega, by omega⟩)

/-- The theorem at a run with a socket that is refused, one that is handed over and one
that is pending. -/
theorem sockets_in_three_places :
    ∃ c, machine.Reachable OneAttempt c ∧ c.opened = 3 ∧ c.closed = [0] ∧ c.handed = [1] ∧
      c.eventer = some 2 ∧ ∀ n < c.opened, c.Accounted n := by
  rcases machine.exists_of_run OneAttempt (s := new true) ⟨true, rfl⟩
    [.start, .expire 0 (.failed .ECONNREFUSED), .expire 0 .noSocket,
      .expire 0 (.failed .EINPROGRESS), .doWriting 0 false, .expire 0 .noSocket, .start,
      .expire 0 .connected]
    (fun c => c.opened = 3 ∧ c.closed = [0] ∧ c.handed = [1] ∧ c.eventer = some 2)
    (by decide +kernel) with ⟨c, hc, hopened, hclosed, hhanded, hpending⟩
  exact ⟨c, hc, hopened, hclosed, hhanded, hpending, sockets_accounted_for hc⟩

/-- The user starts twice, and both attempts go on: the first socket is dropped without
being closed. -/
theorem second_attempt_leaks_socket :
    ∃ c, machine.Reachable (fun _ _ => True) c ∧ c.opened = 2 ∧ c.eventer = some 1 ∧
      c.closed = [] ∧ c.handed = [] :=
  machine.exists_of_run (fun _ _ => True) (s := new true) ⟨true, rfl⟩
    [.start, .start, .expire 0 (.failed .EINPROGRESS), .expire 0 (.failed .EINPROGRESS)]
    (fun c => c.opened = 2 ∧ c.eventer = some 1 ∧ c.closed = [] ∧ c.handed = [])
    (by decide +kernel)

end Connector

end Taotu
