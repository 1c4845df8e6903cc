import Mathlib.Data.Int.ConditionallyCompleteOrder
import Taotu.Lib.LockOrder

/-!
# Taotu.Threads.Locks — the locks of the library

The spin locks and mutexes of all classes, and for each function in which order it takes
them: of the code only the guarded sections are kept, and what is called inside them.

The sections are nested in two places only. `DestroyClosedConnections()` holds
`closed_fds_lock_` throughout; it looks a connection up under `connection_map_mutex_lock_`,
and destroys it under `object_pool_lock_`. `InsertNewConnection()` builds a connection, and
destroys the one it replaces, under `connection_map_mutex_lock_`. What they call takes
`ops_mutex_` and the locks of the logger.

The callbacks of the user are never called under a lock of the library. So they may take
locks of their own, in an order of their own, and call the library under them (`Program`).
What the user has no say in is the destructor of the context of a connection, which runs
under the three locks above, and the copying of a time task, which happens under the lock of
the timer: these may take later locks only. Then the process never gets into a deadlock
(`no_deadlock`). A context that closes another connection of its loop stops the loop for
good (`context_stops_loop`).

Waiting for something else than a lock is left out: `wait()` gives the lock up and takes it
again, and a thread that is joined, or that waits in the kernel, is one that can go on.
-/

namespace Taotu.Locks

open Lib LockCode

/-- The locks: those of the user, of each loop, of each server and client, of each channel,
of each thread pool, and of the logger. -/
inductive Lock where
  | user (k : ℕ)
  | closedFds (i : ℕ)
  | connectionMap (i : ℕ)
  | objectPool (r : ℕ)
  | ops (i : ℕ)
  | timer (i : ℕ)
  | connection (c : ℕ)
  | outstandingCalls (c : ℕ)
  | pdtCsm (p : ℕ)
  | queCsm (p : ℕ)
  | time
  | log
deriving DecidableEq, Repr

/-- The order. The locks of the user come first, the one with the highest number before the
others. -/
def Lock.rank : Lock → ℤ
  | .user k => -(k + 1)
  | .closedFds _ | .pdtCsm _ => 0
  | .connectionMap _ | .queCsm _ => 1
  | .objectPool _ => 2
  | .ops _ | .timer _ | .connection _ | .outstandingCalls _ => 3
  | .time | .log => 4

abbrev Code := LockCode Lock

/-- Every lock that is taken ranks above `b`, and above the locks it is taken under. -/
abbrev Over (b : ℤ) (c : Code) : Prop := c.Above Lock.rank b

/-- What the destructor of a context may do: it takes no lock up to that of the pool. -/
abbrev Quiet (context : Code) : Prop := Over 2 context

/-- What the copying of a time task may do: it takes no lock up to that of the timer. -/
abbrev Plain (task : Code) : Prop := Over 3 task

variable {b : ℤ}

/-! ## The logger (`logger.cc`) -/

namespace Logger

def updateLoggerTime : Code := leaf .time

def startLogger : Code := block [opt (leaf .log), updateLoggerTime]

def enqueue : Code := opt (leaf .log)

def recordLogs : Code := block [updateLoggerTime, enqueue]

/-- The macro `LOG`, which gets the logger started first. -/
def log : Code := block [startLogger, recordLogs]

/-- The macro `LOG_DEBUG`, which is empty outside a debug build. -/
def logDebug : Code := opt log

/-- The thread of the logger. -/
def writeDownLogs : Code :=
  -- the section is cut in two by the wait
  many (opt (block [leaf .log, opt (leaf .log)]))

@[simp] theorem over_log : Over b log ↔ b < 4 := by
  simp [log, startLogger, recordLogs, updateLoggerTime, enqueue, Lock.rank]

@[simp] theorem over_logDebug : Over b logDebug ↔ b < 4 := by
  simp [logDebug]

@[simp] theorem over_writeDownLogs : Over b writeDownLogs ↔ b < 4 := by
  simp [writeDownLogs, Lock.rank]

end Logger

open Logger

/-! ## The poller (`poller.cc`) -/

namespace Poller

def submitPending : Code := opt log

def lookupOp (i : ℕ) : Code := opt (leaf (.ops i))

/-- `SubmitRead()`, `SubmitWrite()` and `SubmitAccept()`. -/
def submit (i : ℕ) : Code := either log (block [leaf (.ops i), submitPending])

def cancelOp (i : ℕ) : Code := opt (block [leaf (.ops i), either log submitPending])

def submitPoll (i : ℕ) : Code := opt (either log (leaf (.ops i)))

def cancelPoll : Code := opt log

def addEventer (i : ℕ) : Code := block [submitPoll i, submitPending]

def modifyEventer (i : ℕ) : Code :=
  either (addEventer i) (block [either cancelPoll (submitPoll i), submitPending])

def removeEventer : Code := cancelPoll

def releaseBufferFromCqe : Code := opt log

/-- `HandleCqe()`, where `callback` is what the completion function or the callbacks of the
eventer do. -/
def handleCqe (i : ℕ) (callback : Code) : Code :=
  either releaseBufferFromCqe <| block [lookupOp i, either releaseBufferFromCqe <| block [logDebug,
    either
      -- the completion function is called, and the request may be kept for the next CQE
      (either releaseBufferFromCqe
        (block [logDebug, callback, releaseBufferFromCqe, opt (leaf (.ops i))]))
      -- there is none: the poll is armed again, or a callback of the eventer is called
      (either (opt (block [opt log, submitPoll i])) (block [releaseBufferFromCqe, opt callback]))]]

def poll (i : ℕ) (callback : Code) : Code :=
  either submitPending <| either (block [log, submitPending]) <|
    block [handleCqe i callback, many (handleCqe i callback), opt log, submitPending]

def destruct (i : ℕ) : Code := block [logDebug, leaf (.ops i)]

section Over

variable {i : ℕ} {callback : Code}

@[simp] theorem over_submitPending : Over b submitPending ↔ b < 4 := by
  simp [submitPending]

@[simp] theorem over_lookupOp : Over b (lookupOp i) ↔ b < 3 := by
  simp [lookupOp, Lock.rank]

@[simp] theorem over_submit : Over b (submit i) ↔ b < 3 := by
  simp [submit, Lock.rank]
  omega

@[simp] theorem over_cancelOp : Over b (cancelOp i) ↔ b < 3 := by
  simp [cancelOp, Lock.rank]
  omega

@[simp] theorem over_submitPoll : Over b (submitPoll i) ↔ b < 3 := by
  simp [submitPoll, Lock.rank]
  omega

@[simp] theorem over_addEventer : Over b (addEventer i) ↔ b < 3 := by
  simp [addEventer]
  omega

@[simp] theorem over_modifyEventer : Over b (modifyEventer i) ↔ b < 3 := by
  simp [modifyEventer, cancelPoll]
  omega

@[simp] theorem over_removeEventer : Over b removeEventer ↔ b < 4 := by
  simp [removeEventer, cancelPoll]

@[simp] theorem over_handleCqe : Over b (handleCqe i callback) ↔ b < 3 ∧ Over b callback := by
  simp [handleCqe, releaseBufferFromCqe, Lock.rank]
  grind

@[simp] theorem over_poll : Over b (poll i callback) ↔ b < 3 ∧ Over b callback := by
  simp [poll]
  grind

@[simp] theorem over_destruct : Over b (destruct i) ↔ b < 3 := by
  simp [destruct, Lock.rank]
  omega

end Over

end Poller

/-! ## The timer (`timer.cc`)

What a time task captures is copied, and the copies are destroyed, under the lock. -/

namespace Timer

def addTimeTask (i : ℕ) (task : Code) : Code := .guard (.timer i) task

def getMinTimeDuration (i : ℕ) : Code := leaf (.timer i)

def getExpiredTimeTasks (i : ℕ) (task : Code) : Code := .guard (.timer i) (many task)

section Over

variable {i : ℕ} {task : Code}

@[simp] theorem over_addTimeTask : Over b (addTimeTask i task) ↔ b < 3 ∧ Plain task := Iff.rfl

@[simp] theorem over_getMinTimeDuration : Over b (getMinTimeDuration i) ↔ b < 3 := by
  simp [getMinTimeDuration, Lock.rank]

@[simp] theorem over_getExpiredTimeTasks :
    Over b (getExpiredTimeTasks i task) ↔ b < 3 ∧ Plain task := Iff.rfl

end Over

end Timer

/-! ## Connections (`connecting.cc`)

The callbacks of the user are called between the sections. -/

def EventManager.deleteConnection (i : ℕ) : Code := leaf (.closedFds i)

@[simp] theorem EventManager.over_deleteConnection {i : ℕ} :
    Over b (EventManager.deleteConnection i) ↔ b < 0 := by
  simp [EventManager.deleteConnection, Lock.rank]

namespace Connecting

open Locks.Poller

def cancelPendingIo (i : ℕ) : Code := block [opt (cancelOp i), opt (cancelOp i)]

/-- The constructor: the eventer, the keep-alive option, which may fail, and the rest. -/
def construct (i : ℕ) : Code := block [addEventer i, opt log, logDebug]

/-- The destructor, and those of the members: the context and the callbacks, the eventer and
the socket. -/
def destruct (i : ℕ) (context : Code) : Code :=
  block [cancelPendingIo i, logDebug, context, removeEventer, logDebug]

/-- `SubmitReadOnce()` and `SubmitWriteOnce()`. -/
def submitOnce (i : ℕ) : Code := opt (submit i)

/-- `DoClosing()`: the callbacks, then the descriptor is put down for the end of the turn. -/
def doClosing (i : ℕ) (callback : Code) : Code :=
  opt <| block [logDebug, cancelPendingIo i, cancelPendingIo i, opt callback, opt callback,
    EventManager.deleteConnection i]

/-- `Send()`, with the callback for the high-water mark. -/
def send (i : ℕ) (callback : Code) : Code :=
  either log (opt (block [opt callback, submitOnce i]))

def onEstablishing (i : ℕ) (callback : Code) : Code := opt (block [callback, submitOnce i])

def onReadComplete (i : ℕ) (callback : Code) : Code :=
  block [logDebug, opt <|
    -- bytes, the end of the stream or a reset, an attempt to be made again, an error
    either (block [opt log, opt callback, submitOnce i]) <|
    either (block [opt log, doClosing i callback]) <| either (submitOnce i) (block [log, log])]

def onWriteComplete (i : ℕ) (callback : Code) : Code :=
  block [logDebug,
    -- more to write, all is written, an error
    either (submitOnce i) <| either (block [opt callback, opt log]) (block [log, log])]

section Over

variable {i : ℕ} {context callback : Code}

@[simp] theorem over_cancelPendingIo : Over b (cancelPendingIo i) ↔ b < 3 := by
  simp [cancelPendingIo]

@[simp] theorem over_construct : Over b (construct i) ↔ b < 3 := by
  simp [construct]
  omega

@[simp] theorem over_destruct : Over b (destruct i context) ↔ b < 3 ∧ Over b context := by
  simp [destruct]
  grind

@[simp] theorem over_submitOnce : Over b (submitOnce i) ↔ b < 3 := by
  simp [submitOnce]

@[simp] theorem over_doClosing : Over b (doClosing i callback) ↔ b < 0 ∧ Over b callback := by
  simp [doClosing]
  grind

@[simp] theorem over_send : Over b (send i callback) ↔ b < 3 ∧ Over b callback := by
  simp [send]
  grind

@[simp] theorem over_onEstablishing :
    Over b (onEstablishing i callback) ↔ b < 3 ∧ Over b callback := by
  simp [onEstablishing]
  grind

@[simp] theorem over_onReadComplete :
    Over b (onReadComplete i callback) ↔ b < 0 ∧ Over b callback := by
  simp [onReadComplete]
  grind

@[simp] theorem over_onWriteComplete :
    Over b (onWriteComplete i callback) ↔ b < 3 ∧ Over b callback := by
  simp [onWriteComplete]
  grind

end Over

end Connecting

/-! ## Event loops (`event_manager.cc`)

A loop of a server has its connections in the pool of the server, that of a client has none. -/

namespace EventManager

open Locks.Poller Locks.Timer

def getEventerAmount (i : ℕ) : Code := leaf (.connectionMap i)

def wakeUp : Code := opt log

/-- `RunAt()`, `RunAfter()` and `RunEveryUntil()`. -/
def runAt (i : ℕ) (task : Code) : Code :=
  block [addTimeTask i task, getMinTimeDuration i, opt wakeUp]

def runSoon (i : ℕ) (task : Code) : Code := block [addTimeTask i task, wakeUp]

/-- `CreateConnectionCallback_` of a server, or `make_unique`. -/
def createConnection (i r : ℕ) : Code :=
  either (.guard (.objectPool r) (Connecting.construct i)) (Connecting.construct i)

/-- `DestroyConnectionCallback_` of a server, or the end of the `unique_ptr`. -/
def destroyConnection (i r : ℕ) (context : Code) : Code :=
  either (.guard (.objectPool r) (Connecting.destruct i context)) (Connecting.destruct i context)

def insertNewConnection (i r : ℕ) (context : Code) : Code :=
  block [.guard (.connectionMap i)
      (block [createConnection i r, opt (Connecting.destruct i context)]),
    logDebug]

def destroyClosedConnections (i r : ℕ) (context : Code) : Code :=
  .guard (.closedFds i) <| many <|
    block [.guard (.connectionMap i) (opt log), opt (destroyConnection i r context)]

/-- `Eventer::Work()` for each of the active eventers. -/
def doWithActiveTasks (callback : Code) : Code :=
  many <| block [opt (block [logDebug, callback]), opt log, opt (block [log, callback]),
    opt (block [logDebug, callback]), opt (block [logDebug, callback])]

def doExpiredTimeTasks (i : ℕ) (task callback : Code) : Code :=
  block [getExpiredTimeTasks i task,
    many (block [opt callback, opt (block [opt callback, runAt i task])])]

/-- `Start()`: the loop, then the end of the connections that are left. -/
def start (i r : ℕ) (task context callback : Code) : Code :=
  block [logDebug,
    many (block [getMinTimeDuration i, poll i callback, doWithActiveTasks callback,
      doExpiredTimeTasks i task callback, destroyClosedConnections i r context]),
    logDebug, leaf (.connectionMap i), many (Connecting.doClosing i callback),
    many (block [leaf (.connectionMap i), leaf (.closedFds i), poll i callback,
      doWithActiveTasks callback, destroyClosedConnections i r context]),
    leaf (.connectionMap i), leaf (.closedFds i),
    .guard (.connectionMap i) (many (Connecting.destruct i context))]

section Over

variable {i r : ℕ} {task context callback : Code}

@[simp] theorem over_getEventerAmount : Over b (getEventerAmount i) ↔ b < 1 := by
  simp [getEventerAmount, Lock.rank]

@[simp] theorem over_wakeUp : Over b wakeUp ↔ b < 4 := by
  simp [wakeUp]

@[simp] theorem over_runAt : Over b (runAt i task) ↔ b < 3 ∧ Plain task := by
  simp [runAt]
  grind

@[simp] theorem over_runSoon : Over b (runSoon i task) ↔ b < 3 ∧ Plain task := by
  simp [runSoon]
  grind

/-- A connection is built under the lock of the map. -/
theorem over_insertNewConnection (hb : b < 1) (hcontext : Quiet context) :
    Over b (insertNewConnection i r context) := by
  have hmap : Over 1 context := hcontext.mono (by decide)
  simp [insertNewConnection, createConnection, Lock.rank, hb, hmap]
  omega

/-- A connection is destroyed under the lock of the closed descriptors, and of the pool if
there is one. -/
theorem over_destroyClosedConnections (hb : b < 0) (hcontext : Quiet context) :
    Over b (destroyClosedConnections i r context) := by
  have hfds : Over 0 context := hcontext.mono (by decide)
  simp [destroyClosedConnections, destroyConnection, Lock.rank, hb, hcontext, hfds]

@[simp] theorem over_doWithActiveTasks :
    Over b (doWithActiveTasks callback) ↔ b < 4 ∧ Over b callback := by
  simp [doWithActiveTasks]

@[simp] theorem over_doExpiredTimeTasks : Over b (doExpiredTimeTasks i task callback) ↔
    b < 3 ∧ Plain task ∧ Over b callback := by
  simp [doExpiredTimeTasks]
  grind

theorem over_start (hb : b < 0) (htask : Plain task) (hcontext : Quiet context)
    (hcallback : Over b callback) : Over b (start i r task context callback) := by
  have hdestroy := over_destroyClosedConnections (i := i) (r := r) hb hcontext
  have hmap : Over 1 context := hcontext.mono (by decide)
  simp [start, Lock.rank, htask, hcallback, hdestroy, hmap]
  omega

end Over

end EventManager

/-! ## Servers, clients, channels and thread pools -/

namespace ServerReactorManager

/-- `Balancer::PickOneEventManager()`, which may ask the loops for their connections. -/
def pickOneEventManager (loops : List ℕ) : Code :=
  opt <| block <| loops.map fun i =>
    block [EventManager.getEventerAmount i, opt (EventManager.getEventerAmount i)]

def acceptNewConnectionCallback (loops : List ℕ) (i : ℕ) (task : Code) : Code :=
  block [pickOneEventManager loops, opt log, EventManager.runSoon i task]

theorem over_acceptNewConnectionCallback (hb : b < 1) {loops : List ℕ} {i : ℕ} {task : Code}
    (htask : Plain task) : Over b (acceptNewConnectionCallback loops i task) := by
  simp [acceptNewConnectionCallback, pickOneEventManager, htask, hb]
  omega

end ServerReactorManager

namespace ClientReactorManager

open Locks.EventManager

/-- `Connector::Stop()`, with `DoRetrying()`. -/
def stopConnector (i : ℕ) (task : Code) : Code :=
  opt <| block [opt (runSoon i task), opt (block [log, logDebug, opt (runAt i task)])]

/-- `DisconnectInLoop()` and `StopInLoop()`. -/
def disconnectInLoop (c i : ℕ) (task callback : Code) : Code :=
  block [stopConnector i task, leaf (.connection c), opt (Connecting.doClosing i callback),
    wakeUp, wakeUp]

def launchNewConnectionCallback (c i r : ℕ) (context callback : Code) : Code :=
  block [opt log, opt log, insertNewConnection i r context, leaf (.connection c),
    Connecting.onEstablishing i callback]

section Over

variable {c i r : ℕ} {task context callback : Code}

theorem over_disconnectInLoop (hb : b < 0) (htask : Plain task) (hcallback : Over b callback) :
    Over b (disconnectInLoop c i task callback) := by
  simp [disconnectInLoop, stopConnector, Lock.rank, htask, hcallback]
  omega

theorem over_launchNewConnectionCallback (hb : b < 1) (hcontext : Quiet context)
    (hcallback : Over b callback) :
    Over b (launchNewConnectionCallback c i r context callback) := by
  have hinsert := over_insertNewConnection (i := i) (r := r) hb hcontext
  simp [launchNewConnectionCallback, Lock.rank, hinsert, hcallback]
  omega

end Over

end ClientReactorManager

namespace RpcAsyncChannel

/-- `CallMethod()`, on a connection of the loop `i`. -/
def callMethod (c i : ℕ) (callback : Code) : Code :=
  block [leaf (.outstandingCalls c), Connecting.send i callback]

/-- `OnRpcMessage()`, where `done` is the callback of a call or the method of a service. -/
def onRpcMessage (c i : ℕ) (done callback : Code) : Code :=
  either (block [leaf (.outstandingCalls c), opt done])
    (either done (opt (Connecting.send i callback)))

/-- The destructor. A server has its channels as the contexts of its connections. -/
def destruct : Code := log

section Over

variable {c i : ℕ} {done callback : Code}

@[simp] theorem over_callMethod :
    Over b (callMethod c i callback) ↔ b < 3 ∧ Over b callback := by
  simp [callMethod, Lock.rank]

@[simp] theorem over_onRpcMessage :
    Over b (onRpcMessage c i done callback) ↔ b < 3 ∧ Over b done ∧ Over b callback := by
  simp [onRpcMessage, Lock.rank]
  grind

end Over

end RpcAsyncChannel

namespace ThreadPool

/-- A thread of the pool. Each wait cuts the section. -/
def work (p : ℕ) (task : Code) : Code :=
  many <| block [many (leaf (.pdtCsm p)), .guard (.pdtCsm p) (opt (leaf (.queCsm p))), opt task]

def addTask (p : ℕ) : Code := either log (leaf (.queCsm p))

def destruct (p : ℕ) : Code := leaf (.pdtCsm p)

section Over

variable {p : ℕ} {task : Code}

@[simp] theorem over_work : Over b (work p task) ↔ b < 0 ∧ Over b task := by
  simp [work, Lock.rank]

@[simp] theorem over_addTask : Over b (addTask p) ↔ b < 1 := by
  simp [addTask, Lock.rank]
  omega

@[simp] theorem over_destruct : Over b (destruct p) ↔ b < 0 := by
  simp [destruct, Lock.rank]

end Over

end ThreadPool

/-! ## Programs -/

/-- What a thread of the process may do, with its own locks below `n`: it calls the functions
of the library in any order, under conditions and in loops, with callbacks that are programs
again, and it takes its own locks in their order. -/
inductive Program : ℕ → Code → Prop where
  | skip {n : ℕ} : Program n .skip
  | seq {n : ℕ} {c d : Code} : Program n c → Program n d → Program n (.seq c d)
  | either {n : ℕ} {c d : Code} : Program n c → Program n d → Program n (.either c d)
  | many {n : ℕ} {c : Code} : Program n c → Program n (.many c)
  | own {n k : ℕ} {c : Code} : k < n → Program k c → Program n (.guard (.user k) c)
  | log {n : ℕ} : Program n log
  | writeDownLogs {n : ℕ} : Program n writeDownLogs
  | addEventer {n : ℕ} (i : ℕ) : Program n (Poller.addEventer i)
  | modifyEventer {n : ℕ} (i : ℕ) : Program n (Poller.modifyEventer i)
  | removeEventer {n : ℕ} : Program n Poller.removeEventer
  | submit {n : ℕ} (i : ℕ) : Program n (Poller.submit i)
  | cancelOp {n : ℕ} (i : ℕ) : Program n (Poller.cancelOp i)
  | destructPoller {n : ℕ} (i : ℕ) : Program n (Poller.destruct i)
  | runAt {n : ℕ} (i : ℕ) {task : Code} : Plain task → Program n (EventManager.runAt i task)
  | runSoon {n : ℕ} (i : ℕ) {task : Code} : Plain task → Program n (EventManager.runSoon i task)
  | deleteConnection {n : ℕ} (i : ℕ) : Program n (EventManager.deleteConnection i)
  | poll {n : ℕ} (i : ℕ) {callback : Code} : Program n callback →
      Program n (Poller.poll i callback)
  | doClosing {n : ℕ} (i : ℕ) {callback : Code} : Program n callback →
      Program n (Connecting.doClosing i callback)
  | send {n : ℕ} (i : ℕ) {callback : Code} : Program n callback →
      Program n (Connecting.send i callback)
  | onEstablishing {n : ℕ} (i : ℕ) {callback : Code} : Program n callback →
      Program n (Connecting.onEstablishing i callback)
  | onReadComplete {n : ℕ} (i : ℕ) {callback : Code} : Program n callback →
      Program n (Connecting.onReadComplete i callback)
  | onWriteComplete {n : ℕ} (i : ℕ) {callback : Code} : Program n callback →
      Program n (Connecting.onWriteComplete i callback)
  | insertNewConnection {n : ℕ} (i r : ℕ) {context : Code} : Quiet context →
      Program n (EventManager.insertNewConnection i r context)
  | start {n : ℕ} (i r : ℕ) {task context callback : Code} : Plain task → Quiet context →
      Program n callback → Program n (EventManager.start i r task context callback)
  | acceptNewConnectionCallback {n : ℕ} (loops : List ℕ) (i : ℕ) {task : Code} : Plain task →
      Program n (ServerReactorManager.acceptNewConnectionCallback loops i task)
  | disconnectInLoop {n : ℕ} (c i : ℕ) {task callback : Code} : Plain task →
      Program n callback → Program n (ClientReactorManager.disconnectInLoop c i task callback)
  | launchNewConnectionCallback {n : ℕ} (c i r : ℕ) {context callback : Code} : Quiet context →
      Program n callback →
      Program n (ClientReactorManager.launchNewConnectionCallback c i r context callback)
  | callMethod {n : ℕ} (c i : ℕ) {callback : Code} : Program n callback →
      Program n (RpcAsyncChannel.callMethod c i callback)
  | onRpcMessage {n : ℕ} (c i : ℕ) {done callback : Code} : Program n done →
      Program n callback → Program n (RpcAsyncChannel.onRpcMessage c i done callback)
  | work {n : ℕ} (p : ℕ) {task : Code} : Program n task → Program n (ThreadPool.work p task)
  | addTask {n : ℕ} (p : ℕ) : Program n (ThreadPool.addTask p)
  | destructPool {n : ℕ} (p : ℕ) : Program n (ThreadPool.destruct p)

/-- The library takes its locks in order, and after those of the user. -/
theorem Program.over {n : ℕ} {c : Code} (h : Program n c) (hb : b ≤ -(n + 1)) : Over b c := by
  induction h generalizing b with
  | skip => trivial
  | seq _ _ ihc ihd => exact ⟨ihc hb, ihd hb⟩
  | either _ _ ihc ihd => exact ⟨ihc hb, ihd hb⟩
  | many _ ih => exact ih hb
  | own hk _ ih =>
    refine ⟨?_, ih le_rfl⟩
    simp only [Lock.rank]
    omega
  | log => exact over_log.mpr (by omega)
  | writeDownLogs => exact over_writeDownLogs.mpr (by omega)
  | addEventer => exact Poller.over_addEventer.mpr (by omega)
  | modifyEventer => exact Poller.over_modifyEventer.mpr (by omega)
  | removeEventer => exact Poller.over_removeEventer.mpr (by omega)
  | submit => exact Poller.over_submit.mpr (by omega)
  | cancelOp => exact Poller.over_cancelOp.mpr (by omega)
  | destructPoller => exact Poller.over_destruct.mpr (by omega)
  | runAt _ htask => exact EventManager.over_runAt.mpr ⟨by omega, htask⟩
  | runSoon _ htask => exact EventManager.over_runSoon.mpr ⟨by omega, htask⟩
  | deleteConnection => exact EventManager.over_deleteConnection.mpr (by omega)
  | poll _ _ ih => exact Poller.over_poll.mpr ⟨by omega, ih hb⟩
  | doClosing _ _ ih => exact Connecting.over_doClosing.mpr ⟨by omega, ih hb⟩
  | send _ _ ih => exact Connecting.over_send.mpr ⟨by omega, ih hb⟩
  | onEstablishing _ _ ih => exact Connecting.over_onEstablishing.mpr ⟨by omega, ih hb⟩
  | onReadComplete _ _ ih => exact Connecting.over_onReadComplete.mpr ⟨by omega, ih hb⟩
  | onWriteComplete _ _ ih => exact Connecting.over_onWriteComplete.mpr ⟨by omega, ih hb⟩
  | insertNewConnection _ _ hcontext =>
    exact EventManager.over_insertNewConnection (by omega) hcontext
  | start _ _ htask hcontext _ ih =>
    exact EventManager.over_start (by omega) htask hcontext (ih hb)
  | acceptNewConnectionCallback _ _ htask =>
    exact ServerReactorManager.over_acceptNewConnectionCallback (by omega) htask
  | disconnectInLoop _ _ htask _ ih =>
    exact ClientReactorManager.over_disconnectInLoop (by omega) htask (ih hb)
  | launchNewConnectionCallback _ _ _ hcontext _ ih =>
    exact ClientReactorManager.over_launchNewConnectionCallback (by omega) hcontext (ih hb)
  | callMethod _ _ _ ih => exact RpcAsyncChannel.over_callMethod.mpr ⟨by omega, ih hb⟩
  | onRpcMessage _ _ _ _ ihdone ih =>
    exact RpcAsyncChannel.over_onRpcMessage.mpr ⟨by omega, ihdone hb, ih hb⟩
  | work _ _ ih => exact ThreadPool.over_work.mpr ⟨by omega, ih hb⟩
  | addTask => exact ThreadPool.over_addTask.mpr (by omega)
  | destructPool => exact ThreadPool.over_destruct.mpr (by omega)

/-! ## No deadlock -/

open LockState

/-- Whatever the threads do, as long as something is left to do some thread can go on, and
every call can return: every state of the process can be run to the end, where all locks are
free. -/
theorem no_deadlock {τ : Type} [Fintype τ] [DecidableEq τ] {n : ℕ} {prog : τ → Code}
    (hprog : ∀ t, Program n (prog t)) {s : LockState τ Lock}
    (hs : (machine prog).Reachable (fun _ _ => True) s) :
    ((∃ t, s.todo t ≠ []) → ∃ t, ∀ branch, ∃ s', s.step (t, branch) = some s') ∧
    ∃ s', (machine prog).Counted (fun _ _ => True) (fun a => a.2 = true) s 0 s' ∧ s'.Finished := by
  have hinv := inv (fun t => (hprog t).over le_rfl) hs
  exact ⟨hinv.exists_enabled, hinv.exists_finished⟩

/-- A server with two loops, whose contexts are RPC channels, a thread of a pool that hands
tasks to the second loop, and the thread of the logger. The messages and the tasks of the
pool are worked on under a lock of the user. -/
def server : Fin 4 → Code
  | 0 => EventManager.start 0 0 .skip RpcAsyncChannel.destruct
      (ServerReactorManager.acceptNewConnectionCallback [1] 1 .skip)
  | 1 => EventManager.start 1 0 .skip RpcAsyncChannel.destruct
      (.either (EventManager.insertNewConnection 1 0 RpcAsyncChannel.destruct)
        (Connecting.onReadComplete 1 (.guard (.user 0)
          (RpcAsyncChannel.onRpcMessage 0 1 (Connecting.doClosing 1 .skip) .skip))))
  | 2 => ThreadPool.work 0 (.guard (.user 0) (EventManager.runSoon 1 .skip))
  | 3 => writeDownLogs

theorem server_program (t : Fin 4) : Program 1 (server t) := by
  have hquiet : Quiet RpcAsyncChannel.destruct := over_log.mpr (by decide)
  match t with
  | 0 => exact .start 0 0 trivial hquiet (.acceptNewConnectionCallback [1] 1 trivial)
  | 1 =>
    exact .start 1 0 trivial hquiet (.either (.insertNewConnection 1 0 hquiet)
      (.onReadComplete 1 (.own Nat.one_pos (.onRpcMessage 0 1 (.doClosing 1 .skip) .skip))))
  | 2 => exact .work 0 (.own Nat.one_pos (.runSoon 1 trivial))
  | 3 => exact .writeDownLogs

/-- The second loop waits for the lock of its timer, which the pool's thread is inside. -/
theorem no_deadlock_server : ∃ s, (machine server).Reachable (fun _ _ => True) s ∧
    (s.owner (.timer 1) = some 2 ∧ s.todo 1 ≠ [] ∧ s.step (1, true) = none) ∧
    (∃ t, ∀ branch, ∃ s', s.step (t, branch) = some s') ∧
    ∃ s', (machine server).Counted (fun _ _ => True) (fun a => a.2 = true) s 0 s' ∧
      s'.Finished := by
  obtain ⟨s, hs, hwaits⟩ := (machine server).exists_of_run (fun _ _ => True) rfl
    (((List.range 13).map fun k => (2, decide (k = 0 ∨ k = 9))) ++
      (List.range 6).map fun k => (1, decide (k = 4)))
    (fun s => s.owner (.timer 1) = some 2 ∧ s.todo 1 ≠ [] ∧ s.step (1, true) = none)
    (by decide +kernel)
  obtain ⟨hgo, hend⟩ := no_deadlock server_program hs
  exact ⟨s, hs, hwaits, hgo ⟨1, hwaits.2.1⟩, hend⟩

/-- A context that closes another connection of its loop when it is destroyed. -/
def closingContext : Unit → Code := fun _ =>
  EventManager.destroyClosedConnections 0 0 (Connecting.doClosing 0 .skip)

/-- The loop waits for the lock that it holds itself. -/
theorem context_stops_loop :
    ∃ s, (machine closingContext).Reachable (fun _ _ => True) s ∧
      s.todo () ≠ [] ∧ ∀ branch, s.step ((), branch) = none :=
  (machine closingContext).exists_of_run (fun _ _ => True) rfl
    ((List.range 50).map fun k => ((), decide (k ∈ [1, 8, 9, 23])))
    (fun s => s.todo () ≠ [] ∧ ∀ branch, s.step ((), branch) = none) (by decide +kernel)

end Taotu.Locks
