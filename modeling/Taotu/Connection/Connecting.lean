import Taotu.Buffer.IoBuffer

/-!
# Taotu.Connection.Connecting — one TCP connection (`connecting.h`, `connecting.cc`)

A `Connecting` reacts to calls of the user and to completions of the reads and
writes it has submitted. Each reaction is a function on the connection that
returns a `Turn`: the connection afterwards, the calls it made to its
collaborators (the poller, the socket, the event manager, the user's
callbacks), and where it stopped.

**Callbacks.** A handler that runs a user callback in its middle stops there:
the turn ends with a `Frame` that names the rest of the handler, and `resume`
goes on from it when the callback returns. What the callback does in between
(any calls, nested to any depth) are further turns of the same connection.

**Answers.** `Poller::SubmitRead` and `Poller::SubmitWrite` answer the key of
the operation, or 0 when no submission queue entry is available. The answer is
an argument of every turn that may submit; a turn submits at most once.

The multishot read path is compiled only if `IORING_OP_RECV_MULTISHOT` is a
macro; the model is the other configuration, in which `ctx->multishot` is
false. Logging is left out, and with it `DoWithError`, which only logs.
`DoReading` and `DoWriting` are left out: they are the callbacks of the
connection's eventer, whose events nothing ever enables (`outEvents` stays 0).
-/

namespace Taotu

open Lib

/-- `Connecting::ConnectionState`. -/
inductive ConnectionState where
  | kDisconnected
  | kConnecting
  | kConnected
  | kDisconnecting
deriving DecidableEq, Repr

/-- Where the memory of an `iovec` of a read lies: in the input buffer from an
offset on, or in the context's own `extra_buffer`. -/
inductive IovBase where
  | inputBuffer (off : ℕ)
  | extraBuffer
deriving DecidableEq, Repr

structure Iovec where
  base : IovBase
  len : ℕ
deriving DecidableEq, Repr

/-- `Connecting::ReadContext`; `iov` are the `iovcnt` vectors that are submitted. -/
structure ReadContext where
  self : ℕ
  iov : List Iovec
  writable : ℕ
  extraBuffer : List UInt8
deriving DecidableEq, Repr

/-- `Connecting::WriteContext`; the vector starts at an offset of the output buffer. -/
structure WriteContext where
  self : ℕ
  iovBase : ℕ
  toSend : ℕ
deriving DecidableEq, Repr

/-- The part of a completion queue entry the handlers look at. -/
structure Cqe where
  res : ℤ
  more : Bool
deriving DecidableEq, Repr

def eINTR : ℤ := 4
def eAGAIN : ℤ := 11
def ePIPE : ℤ := 32
def eCONNABORTED : ℤ := 103
def eCONNRESET : ℤ := 104

/-- `POLLOUT`, the write events of an eventer. -/
def kWriteEvents : ℕ := 4

/-- The user's callbacks, with what they are told. -/
inductive Callback where
  | onConnection
  | onMessage
  | writeComplete
  | highWaterMark (len : ℕ)
  | close
deriving DecidableEq, Repr

/-- A call a connection makes to a collaborator. -/
inductive Output where
  | submitRead (ctx : ReadContext)
  | submitWrite (ctx : WriteContext)
  | cancelOp (key : ℕ)
  | shutdownWrite
  | deleteConnection (fd : ℕ)
  | callback (cb : Callback)
deriving DecidableEq, Repr

/-- The calls to the poller. -/
def Output.isIo : Output → Bool
  | .submitRead _ | .submitWrite _ | .cancelOp _ => true
  | _ => false

/-- The rest of a handler that is suspended in a user callback. -/
inductive Frame where
  /-- `Send`, in the high-water-mark callback. -/
  | sendRest (message : List UInt8)
  /-- `OnReadComplete`, in the message callback. -/
  | readRest (more : Bool)
  /-- `OnWriteComplete`, in the write-complete callback. -/
  | writeRest
  /-- `DoClosing`, in the connection callback. -/
  | closeRest
  /-- `DoClosing`, in the close callback. -/
  | closeEnd
  /-- `OnEstablishing`, in the connection callback. -/
  | establishRest
deriving DecidableEq, Repr

/-- The members of a `Connecting`. The callbacks count as registered or not;
the high-water mark is the threshold its callback was registered with. -/
structure Connecting where
  addr : ℕ
  fd : ℕ
  outEvents : ℕ
  onConnectionCallback : Bool
  onMessageCallback : Bool
  writeCompleteCallback : Bool
  highWaterMark : Option ℕ
  closeCallback : Bool
  inputBuffer : IoBuffer
  outputBuffer : IoBuffer
  pendingOutputBuffer : IoBuffer
  state : ConnectionState
  readInFlight : Bool
  writeInFlight : Bool
  readCancelKey : ℕ
  writeCancelKey : ℕ
  pendingIoWaitMs : ℕ
  pendingIoRetries : ℕ
deriving DecidableEq, Repr

/-- What an uninterrupted piece of a handler leaves behind: the connection, the
calls it made (each with the connection as it stood at the call), and the
frame it is suspended in, if a callback is running. -/
structure Turn where
  conn : Connecting
  out : List (Connecting × Output)
  frame : Option Frame
deriving DecidableEq, Repr

/-- Put the calls made so far in front of those of the rest. -/
def Turn.after (out : List (Connecting × Output)) (t : Turn) : Turn :=
  { t with out := out ++ t.out }

/-- The calls to the poller of a turn. -/
def Turn.io (t : Turn) : List Output := (t.out.map Prod.snd).filter Output.isIo

theorem Turn.io_single {t : Turn} {c : Connecting} {o : Output} (h : t.out = [(c, o)])
    (ho : o.isIo = true) : t.io = [o] := by
  simp [Turn.io, h, ho]

/-- The calls to a connection, of the user or of the library. -/
inductive Act where
  | onEstablishing
  | send (message : List UInt8)
  | shutDownWrite
  | forceClose
  | doClosing
  | startReading
  | stopReading
  | startWriting
  | stopWriting
  | stopReadingWriting
  /-- `GetInputBuffer()->Refresh(len)`. -/
  | consume (len : ℕ)
deriving DecidableEq, Repr

namespace Connecting

/-- `sizeof(ReadContext::extra_buffer)`. -/
def extraBufferSize : ℕ := 65536

/-- The constructor, after the callbacks of the user have been registered. -/
def new (addr fd : ℕ) (onConnection onMessage writeComplete : Bool) (highWaterMark : Option ℕ)
    (close : Bool) : Except Fault Connecting := do
  let input ← IoBuffer.new IoBuffer.kInitialCapacity
  let output ← IoBuffer.new IoBuffer.kInitialCapacity
  let pending ← IoBuffer.new IoBuffer.kInitialCapacity
  return {
    addr := addr
    fd := fd
    outEvents := 0
    onConnectionCallback := onConnection
    onMessageCallback := onMessage
    writeCompleteCallback := writeComplete
    highWaterMark := highWaterMark
    closeCallback := close
    inputBuffer := input
    outputBuffer := output
    pendingOutputBuffer := pending
    state := .kConnecting
    readInFlight := false
    writeInFlight := false
    readCancelKey := 0
    writeCancelKey := 0
    pendingIoWaitMs := 0
    pendingIoRetries := 0 }

/-- A connection is constructed with three fresh buffers of the same size. -/
theorem new_ok {addr fd : ℕ} {onConnection onMessage writeComplete close : Bool}
    {highWaterMark : Option ℕ} {c : Connecting}
    (h : new addr fd onConnection onMessage writeComplete highWaterMark close = .ok c) :
    ∃ b, IoBuffer.new IoBuffer.kInitialCapacity = .ok b ∧ c.inputBuffer = b ∧
      c.outputBuffer = b ∧ c.pendingOutputBuffer = b ∧ c.state = .kConnecting ∧
      c.readInFlight = false ∧ c.writeInFlight = false := by
  rw [new] at h
  obtain ⟨b, hb, h⟩ := bind_eq_ok h
  rw [hb, ok_bind, ok_bind] at h
  cases h
  exact ⟨b, hb, rfl, rfl, rfl, rfl, rfl, rfl⟩

def hasPendingIo (c : Connecting) : Bool := c.readInFlight || c.writeInFlight

def isDisconnected (c : Connecting) : Bool := c.state = .kDisconnected

/-- `eventer_.HasWriteEvents()`. -/
def hasWriteEvents (c : Connecting) : Bool := c.outEvents &&& kWriteEvents ≠ 0

def bumpPendingIoWait (c : Connecting) : Connecting :=
  { c with pendingIoWaitMs := c.pendingIoWaitMs + 1, pendingIoRetries := c.pendingIoRetries + 1 }

/-! ## Submitting and cancelling -/

/-- The context `SubmitReadOnce` builds: the free tail of the input buffer, if
there is any, and the extra buffer unless the tail is large enough. -/
def readContext (self : ℕ) (input : IoBuffer) : ReadContext :=
  let writable := input.getWritableBytes
  let tail : Iovec := ⟨.inputBuffer input.writingIndex, writable⟩
  let extra : Iovec := ⟨.extraBuffer, extraBufferSize⟩
  { self := self
    iov := if writable = 0 then [extra]
      else if writable < extraBufferSize then [tail, extra] else [tail]
    writable := writable
    extraBuffer := [] }

def submitReadOnce (ans : ℕ) (c : Connecting) : Turn :=
  if c.readInFlight then ⟨c, [], none⟩
  else
    let ctx := readContext c.addr c.inputBuffer
    let c := { c with readInFlight := true }
    let out := [(c, .submitRead ctx)]
    if ans = 0 then ⟨{ c with readInFlight := false, readCancelKey := 0 }, out, none⟩
    else ⟨{ c with readCancelKey := ans }, out, none⟩

/-- The context `SubmitWriteOnce` builds: all readable bytes of the output buffer. -/
def writeContext (self : ℕ) (output : IoBuffer) : WriteContext :=
  { self := self
    iovBase := output.readingIndex
    toSend := output.getReadableBytes }

def submitWriteOnce (ans : ℕ) (c : Connecting) : Turn :=
  if c.writeInFlight || c.outputBuffer.getReadableBytes = 0 then ⟨c, [], none⟩
  else
    let ctx := writeContext c.addr c.outputBuffer
    let c := { c with writeInFlight := true }
    let out := [(c, .submitWrite ctx)]
    if ans = 0 then ⟨{ c with writeInFlight := false, writeCancelKey := 0 }, out, none⟩
    else ⟨{ c with writeCancelKey := ans }, out, none⟩

/-- The read half of `CancelPendingIo`. -/
def cancelRead (c : Connecting) : Connecting × List (Connecting × Output) :=
  if c.readInFlight then
    if c.readCancelKey ≠ 0 then
      ({ c with readCancelKey := 0, readInFlight := false }, [(c, .cancelOp c.readCancelKey)])
    else ({ c with readInFlight := false }, [])
  else (c, [])

/-- The write half of `CancelPendingIo`. -/
def cancelWrite (c : Connecting) : Connecting × List (Connecting × Output) :=
  if c.writeInFlight then
    if c.writeCancelKey ≠ 0 then
      ({ c with writeCancelKey := 0, writeInFlight := false }, [(c, .cancelOp c.writeCancelKey)])
    else ({ c with writeInFlight := false }, [])
  else (c, [])

def cancelPendingIo (c : Connecting) : Connecting × List (Connecting × Output) :=
  let r := c.cancelRead
  let w := r.1.cancelWrite
  (w.1, r.2 ++ w.2)

/-! ## Closing -/

/-- Run a callback if it is registered: suspend in `frame`, or go on with `rest`. -/
def callback (registered : Bool) (cb : Callback) (frame : Frame) (c : Connecting)
    (rest : Connecting → Turn) : Turn :=
  if registered then ⟨c, [(c, .callback cb)], some frame⟩ else rest c

def closeEnd (c : Connecting) : Turn := ⟨c, [(c, .deleteConnection c.fd)], none⟩

def closeRest (c : Connecting) : Turn := callback c.closeCallback .close .closeEnd c closeEnd

def doClosing (c : Connecting) : Turn :=
  if c.state = .kDisconnected then ⟨c, [], none⟩
  else
    let r := ({ c with state := .kDisconnected } : Connecting).cancelPendingIo
    let r' := r.1.cancelPendingIo
    Turn.after (r.2 ++ r'.2) (callback c.onConnectionCallback .onConnection .closeRest r'.1 closeRest)

def forceClose (c : Connecting) : Turn :=
  if c.state = .kDisconnected then ⟨c, [], none⟩
  else doClosing { c with state := .kDisconnecting }

/-! ## Completions -/

/-- `OnReadComplete` behind the message callback. -/
def readRest (more : Bool) (ans : ℕ) (c : Connecting) : Turn :=
  if more then ⟨c, [], none⟩ else c.submitReadOnce ans

/-- `read_in_flight_ = false`. -/
def readDone (c : Connecting) : Connecting := { c with readInFlight := false }

/-- `write_in_flight_ = false`. -/
def writeDone (c : Connecting) : Connecting := { c with writeInFlight := false }

/-- The input buffer after `res` bytes were read into the vectors of `ctx`. -/
def received (ctx : ReadContext) (res : ℕ) (b : IoBuffer) : Except Fault IoBuffer :=
  if res ≤ ctx.writable then .ok (b.refreshW res)
  else (b.refreshW ctx.writable).append (ctx.extraBuffer.take (res - ctx.writable))

def onReadComplete (cqe : Cqe) (ctx : ReadContext) (ans : ℕ) (c : Connecting) :
    Except Fault Turn := do
  let c := if cqe.more then c else c.readDone
  if 0 < cqe.res then
    let input ← received ctx cqe.res.toNat c.inputBuffer
    let c := { c with inputBuffer := input }
    return callback c.onMessageCallback .onMessage (.readRest cqe.more) c (readRest cqe.more ans)
  else if cqe.res = 0 then
    return c.doClosing
  else
    let err := -cqe.res
    if err = eAGAIN || err = eINTR then
      return readRest cqe.more ans c
    else if err = eCONNRESET || err = eCONNABORTED || err = ePIPE then
      return c.doClosing
    else
      return ⟨c, [], none⟩

/-- `OnWriteComplete` behind the write-complete callback. -/
def writeRest (c : Connecting) : Turn :=
  if c.state = .kDisconnecting ∧ c.outputBuffer.getReadableBytes = 0 ∧
      c.pendingOutputBuffer.getReadableBytes = 0 then
    ⟨c, [(c, .shutdownWrite)], none⟩
  else ⟨c, [], none⟩

/-- `OnWriteComplete` behind the `Refresh` of the output buffer. -/
def writtenRest (ans : ℕ) (c : Connecting) : Turn :=
  if 0 < c.outputBuffer.getReadableBytes then c.submitWriteOnce ans
  else if 0 < c.pendingOutputBuffer.getReadableBytes then
    let r := c.outputBuffer.swap c.pendingOutputBuffer
    submitWriteOnce ans { c with outputBuffer := r.1, pendingOutputBuffer := r.2 }
  else callback c.writeCompleteCallback .writeComplete .writeRest c writeRest

def onWriteComplete (cqe : Cqe) (ans : ℕ) (c : Connecting) : Turn :=
  let c := c.writeDone
  if 0 < cqe.res then
    writtenRest ans { c with outputBuffer := c.outputBuffer.refresh cqe.res.toNat }
  else
    let err := -cqe.res
    if err = eAGAIN || err = eINTR then c.submitWriteOnce ans
    else ⟨c, [], none⟩

/-! ## Calls of the user -/

/-- `Send` behind the high-water-mark callback. -/
def sendRest (message : List UInt8) (ans : ℕ) (c : Connecting) : Except Fault Turn := do
  if c.writeInFlight then
    let pending ← c.pendingOutputBuffer.append message
    return ⟨{ c with pendingOutputBuffer := pending }, [], none⟩
  else
    let output ← c.outputBuffer.append message
    return submitWriteOnce ans { c with outputBuffer := output }

/-- `queued_len` of `Send`. -/
def queuedLen (c : Connecting) : ℕ :=
  addSize c.outputBuffer.getReadableBytes c.pendingOutputBuffer.getReadableBytes

/-- `Send` crosses the high-water mark and runs its callback. -/
def crossesHighWaterMark (c : Connecting) (len : ℕ) : Bool :=
  match c.highWaterMark with
  | some mark => mark ≤ addSize c.queuedLen len && c.queuedLen < mark
  | none => false

def send (message : List UInt8) (ans : ℕ) (c : Connecting) : Except Fault Turn :=
  if c.state = .kConnected then
    if c.crossesHighWaterMark message.length then
      .ok ⟨c, [(c, .callback (.highWaterMark (addSize c.queuedLen message.length)))],
        some (.sendRest message)⟩
    else c.sendRest message ans
  else .ok ⟨c, [], none⟩

def shutDownWrite (c : Connecting) : Turn :=
  if c.state = .kConnected then
    let c := { c with state := .kDisconnecting }
    if c.hasWriteEvents then ⟨c, [], none⟩ else ⟨c, [(c, .shutdownWrite)], none⟩
  else ⟨c, [], none⟩

/-- `OnEstablishing`; an empty connection callback throws. -/
def onEstablishing (c : Connecting) : Except Fault Turn :=
  if c.state = .kConnecting then
    let c := { c with state := .kConnected }
    if c.onConnectionCallback then
      .ok ⟨c, [(c, .callback .onConnection)], some .establishRest⟩
    else .error .badFunctionCall
  else .ok ⟨c, [], none⟩

def stop (c : Connecting) : Turn := ⟨c.cancelPendingIo.1, c.cancelPendingIo.2, none⟩

/-- One call on the connection. -/
def exec (ans : ℕ) (c : Connecting) : Act → Except Fault Turn
  | .onEstablishing => c.onEstablishing
  | .send message => c.send message ans
  | .shutDownWrite => .ok c.shutDownWrite
  | .forceClose => .ok c.forceClose
  | .doClosing => .ok c.doClosing
  | .startReading => .ok (c.submitReadOnce ans)
  | .stopReading => .ok c.stop
  | .startWriting => .ok (c.submitWriteOnce ans)
  | .stopWriting => .ok c.stop
  | .stopReadingWriting => .ok c.stop
  | .consume len => .ok ⟨{ c with inputBuffer := c.inputBuffer.refresh len }, [], none⟩

/-- A callback returns: go on with the suspended handler. -/
def resume (ans : ℕ) (c : Connecting) : Frame → Except Fault Turn
  | .sendRest message => c.sendRest message ans
  | .readRest more => .ok (c.readRest more ans)
  | .writeRest => .ok c.writeRest
  | .closeRest => .ok c.closeRest
  | .closeEnd => .ok c.closeEnd
  | .establishRest => .ok (c.submitReadOnce ans)

/-! ## What a turn can do to the operations in flight

Whatever a handler does, towards the poller it makes one of four moves. All
invariants about operations in flight are derived from this classification,
without looking at the handlers again. -/

/-- What the event loop sees of a connection, its state apart. -/
structure IoView where
  addr : ℕ
  fd : ℕ
  readInFlight : Bool
  readCancelKey : ℕ
  writeInFlight : Bool
  writeCancelKey : ℕ
  waitMs : ℕ
  retries : ℕ

def io (c : Connecting) : IoView :=
  ⟨c.addr, c.fd, c.readInFlight, c.readCancelKey, c.writeInFlight, c.writeCancelKey,
    c.pendingIoWaitMs, c.pendingIoRetries⟩

namespace IoView

/-- The cancellations `CancelPendingIo` asks for. -/
def cancels (v : IoView) : List Output :=
  (if v.readInFlight ∧ v.readCancelKey ≠ 0 then [.cancelOp v.readCancelKey] else []) ++
    (if v.writeInFlight ∧ v.writeCancelKey ≠ 0 then [.cancelOp v.writeCancelKey] else [])

/-- The view behind `CancelPendingIo`. -/
def idle (v : IoView) : IoView :=
  { v with
    readInFlight := false
    readCancelKey := if v.readInFlight then 0 else v.readCancelKey
    writeInFlight := false
    writeCancelKey := if v.writeInFlight then 0 else v.writeCancelKey }

theorem cancels_idle (v : IoView) : v.idle.cancels = [] := by simp [cancels, idle]

end IoView

/-- The moves of a turn towards the poller, from a connection with the view
`v` and the state `st`, and with the answer `ans` of the poller to a
submission. -/
inductive IoMove (ans : ℕ) (v : IoView) (st : ConnectionState) (t : Turn) : Prop where
  | quiet (out : t.io = []) (io : t.conn.io = v)
      (state : t.conn.state = .kDisconnected → st = .kDisconnected)
  | submitRead (c₁ : Connecting) (free : v.readInFlight = false)
      (out : t.out = [(c₁, .submitRead (readContext v.addr t.conn.inputBuffer))])
      (frame : t.frame = none) (state₁ : c₁.state = st)
      (io : t.conn.io = { v with readInFlight := decide (ans ≠ 0), readCancelKey := ans })
      (state : t.conn.state = st)
  | submitWrite (c₁ : Connecting) (free : v.writeInFlight = false)
      (nonempty : t.conn.outputBuffer.getReadableBytes ≠ 0)
      (out : t.out = [(c₁, .submitWrite (writeContext v.addr t.conn.outputBuffer))])
      (frame : t.frame = none) (state₁ : c₁.state = st)
      (io : t.conn.io = { v with writeInFlight := decide (ans ≠ 0), writeCancelKey := ans })
      (state : t.conn.state = st)
  | cancel (out : t.io = v.cancels) (io : t.conn.io = v.idle)

variable {ans : ℕ} {c : Connecting} {t : Turn}

/-- What a handler does before its move is invisible if view and state are kept. -/
theorem IoMove.of_eq {v : IoView} {st : ConnectionState} (h : IoMove ans c.io c.state t)
    (hio : c.io = v) (hst : c.state = st) : IoMove ans v st t :=
  hio ▸ hst ▸ h

theorem IoMove.addr {v : IoView} {st : ConnectionState} (h : IoMove ans v st t) :
    t.conn.addr = v.addr := by
  have haddr : t.conn.addr = t.conn.io.addr := rfl
  cases h with
  | quiet _ io => rw [haddr, io]
  | submitRead _ _ _ _ _ io => rw [haddr, io]
  | submitWrite _ _ _ _ _ _ io => rw [haddr, io]
  | cancel _ io => rw [haddr, io, IoView.idle]

theorem IoMove.of_quiet (h : t.io = [] ∧ t.conn = c) : IoMove ans c.io c.state t :=
  .quiet h.1 (by rw [h.2]) (fun hs => h.2 ▸ hs)

theorem IoMove.nothing : IoMove ans c.io c.state ⟨c, [], none⟩ := .of_quiet ⟨rfl, rfl⟩

theorem submitReadOnce_free (h : c.readInFlight = false) :
    c.submitReadOnce ans =
      ⟨{ c with readInFlight := decide (ans ≠ 0), readCancelKey := ans },
        [({ c with readInFlight := true }, .submitRead (readContext c.addr c.inputBuffer))], none⟩ := by
  by_cases hans : ans = 0 <;> simp [submitReadOnce, h, hans]

theorem submitReadOnce_busy (h : c.readInFlight = true) :
    c.submitReadOnce ans = ⟨c, [], none⟩ := by
  simp [submitReadOnce, h]

theorem submitWriteOnce_free (h : c.writeInFlight = false)
    (hout : c.outputBuffer.getReadableBytes ≠ 0) :
    c.submitWriteOnce ans =
      ⟨{ c with writeInFlight := decide (ans ≠ 0), writeCancelKey := ans },
        [({ c with writeInFlight := true }, .submitWrite (writeContext c.addr c.outputBuffer))], none⟩ := by
  by_cases hans : ans = 0 <;> simp [submitWriteOnce, h, hout, hans]

theorem submitWriteOnce_skip
    (h : c.writeInFlight = true ∨ c.outputBuffer.getReadableBytes = 0) :
    c.submitWriteOnce ans = ⟨c, [], none⟩ := by
  simp [submitWriteOnce, h]

theorem submitReadOnce_ioMove : IoMove ans c.io c.state (c.submitReadOnce ans) := by
  by_cases h : c.readInFlight = true
  · rw [submitReadOnce_busy h]
    exact .nothing
  · rw [Bool.not_eq_true] at h
    rw [submitReadOnce_free h]
    exact .submitRead _ h rfl rfl rfl rfl rfl

theorem submitWriteOnce_ioMove : IoMove ans c.io c.state (c.submitWriteOnce ans) := by
  by_cases h : c.writeInFlight = true ∨ c.outputBuffer.getReadableBytes = 0
  · rw [submitWriteOnce_skip h]
    exact .nothing
  · rw [not_or, Bool.not_eq_true] at h
    rw [submitWriteOnce_free h.1 h.2]
    exact .submitWrite _ h.1 h.2 rfl rfl rfl rfl rfl

/-- `CancelPendingIo` touches nothing but the flags and keys. -/
theorem cancelPendingIo_conn (c : Connecting) :
    c.cancelPendingIo.1 = { c with
      readInFlight := false
      readCancelKey := if c.readInFlight then 0 else c.readCancelKey
      writeInFlight := false
      writeCancelKey := if c.writeInFlight then 0 else c.writeCancelKey } := by
  rcases c with ⟨⟩
  simp only [cancelPendingIo, cancelRead, cancelWrite]
  split_ifs <;> simp_all

theorem cancelPendingIo_io (c : Connecting) : c.cancelPendingIo.1.io = c.io.idle := by
  rw [cancelPendingIo_conn]
  rfl

theorem cancelPendingIo_out (c : Connecting) :
    (c.cancelPendingIo.2.map Prod.snd).filter Output.isIo = c.io.cancels := by
  simp only [cancelPendingIo, cancelRead, cancelWrite, IoView.cancels, io]
  split_ifs <;> simp_all [Output.isIo]

theorem callback_quiet (registered : Bool) (cb : Callback) (frame : Frame)
    {rest : Connecting → Turn} (hrest : (rest c).io = [] ∧ (rest c).conn = c) :
    (callback registered cb frame c rest).io = [] ∧
      (callback registered cb frame c rest).conn = c := by
  rw [callback]
  split
  · exact ⟨rfl, rfl⟩
  · exact hrest

theorem closeRest_quiet (c : Connecting) : c.closeRest.io = [] ∧ c.closeRest.conn = c :=
  callback_quiet _ _ _ ⟨rfl, rfl⟩

theorem writeRest_quiet (c : Connecting) : c.writeRest.io = [] ∧ c.writeRest.conn = c := by
  rw [writeRest]
  split <;> exact ⟨rfl, rfl⟩

theorem io_after (out : List (Connecting × Output)) (t : Turn) :
    (t.after out).io = (out.map Prod.snd).filter Output.isIo ++ t.io := by
  simp [Turn.io, Turn.after]

theorem doClosing_closed (h : c.state = .kDisconnected) : c.doClosing = ⟨c, [], none⟩ := by
  rw [doClosing, if_pos h]

/-- Closing an open connection, up to its first callback. -/
theorem doClosing_open (h : c.state ≠ .kDisconnected) :
    c.doClosing.io = c.io.cancels ∧
      c.doClosing.conn = { c.cancelPendingIo.1 with state := .kDisconnected } := by
  rw [doClosing, if_neg h]
  dsimp only
  generalize hd : ({ c with state := .kDisconnected } : Connecting) = d
  have hquiet := callback_quiet c.onConnectionCallback .onConnection .closeRest
    (closeRest_quiet d.cancelPendingIo.1.cancelPendingIo.1)
  constructor
  · -- the second cancellation finds nothing in flight
    rw [io_after, hquiet.1, List.map_append, List.filter_append, cancelPendingIo_out,
      cancelPendingIo_out, cancelPendingIo_io, IoView.cancels_idle, ← hd]
    simp [io]
  · show (callback _ _ _ _ _).conn = _
    rw [hquiet.2, cancelPendingIo_conn, cancelPendingIo_conn, cancelPendingIo_conn, ← hd]
    simp

/-- A connection is closed behind `ForceClose`. -/
theorem forceClose_closed (c : Connecting) : c.forceClose.conn.state = .kDisconnected := by
  rw [forceClose]
  split
  · next hclosed => exact hclosed
  · rw [(doClosing_open (c := { c with state := .kDisconnecting }) (by simp)).2]

theorem doClosing_ioMove : IoMove ans c.io c.state c.doClosing := by
  by_cases h : c.state = .kDisconnected
  · rw [doClosing_closed h]
    exact .nothing
  · obtain ⟨hio, hconn⟩ := doClosing_open h
    exact .cancel hio (by rw [hconn, ← cancelPendingIo_io]; rfl)

theorem forceClose_ioMove : IoMove ans c.io c.state c.forceClose := by
  rw [forceClose]
  split
  · exact .nothing
  · obtain ⟨hio, hconn⟩ := doClosing_open (c := { c with state := .kDisconnecting }) (by simp)
    exact .cancel hio (by rw [hconn]; exact cancelPendingIo_io _)

theorem stop_ioMove : IoMove ans c.io c.state c.stop :=
  .cancel (cancelPendingIo_out c) (cancelPendingIo_io c)

theorem readRest_ioMove {more : Bool} : IoMove ans c.io c.state (c.readRest more ans) := by
  rw [readRest]
  split
  · exact .nothing
  · exact submitReadOnce_ioMove

theorem callback_ioMove (registered : Bool) (cb : Callback) (frame : Frame)
    {rest : Connecting → Turn} (hrest : IoMove ans c.io c.state (rest c)) :
    IoMove ans c.io c.state (callback registered cb frame c rest) := by
  rw [callback]
  split
  · exact .of_quiet ⟨rfl, rfl⟩
  · exact hrest

/-- The results of a read on which the connection is closed. -/
def ClosesOn (res : ℤ) : Prop :=
  res = 0 ∨ -res = eCONNRESET ∨ -res = eCONNABORTED ∨ -res = ePIPE

instance (res : ℤ) : Decidable (ClosesOn res) := inferInstanceAs (Decidable (_ ∨ _))

theorem ClosesOn.nonpos {res : ℤ} (h : ClosesOn res) : res ≤ 0 := by
  rw [ClosesOn, eCONNRESET, eCONNABORTED, ePIPE] at h
  omega

/-- The errors of a read after which it is submitted again. -/
def RetriesOn (res : ℤ) : Prop := -res = eAGAIN ∨ -res = eINTR

instance (res : ℤ) : Decidable (RetriesOn res) := inferInstanceAs (Decidable (_ ∨ _))

theorem RetriesOn.neg {res : ℤ} (h : RetriesOn res) : res < 0 := by
  rw [RetriesOn, eAGAIN, eINTR] at h
  omega

/-- What `OnReadComplete` does with a one-shot completion. -/
theorem onReadComplete_cases {res : ℤ} {ctx : ReadContext}
    (h : c.onReadComplete ⟨res, false⟩ ctx ans = .ok t) :
    (0 < res ∧ ∃ input, received ctx res.toNat c.inputBuffer = .ok input ∧
      t = callback c.onMessageCallback .onMessage (.readRest false)
        { c.readDone with inputBuffer := input } (submitReadOnce ans)) ∨
    (ClosesOn res ∧ t = c.readDone.doClosing) ∨
    (RetriesOn res ∧ t = c.readDone.submitReadOnce ans) ∨
    ((res < 0 ∧ ¬ ClosesOn res ∧ ¬ RetriesOn res) ∧ t = ⟨c.readDone, [], none⟩) := by
  rw [onReadComplete] at h
  simp only [Bool.false_eq_true, if_false] at h
  split at h
  · next hres =>
    obtain ⟨input, hin, ht⟩ := bind_eq_ok h
    exact .inl ⟨hres, input, hin, (Except.ok.inj ht).symm⟩
  · next hpos =>
    split at h
    · next hres => exact .inr (.inl ⟨.inl hres, (Except.ok.inj h).symm⟩)
    · next hzero =>
      have hneg : res < 0 := by omega
      simp only [Bool.or_eq_true, decide_eq_true_eq, or_assoc] at h
      split at h
      · next hretry => exact .inr (.inr (.inl ⟨hretry, (Except.ok.inj h).symm⟩))
      · next hretry =>
        split at h
        · next herr => exact .inr (.inl ⟨.inr herr, (Except.ok.inj h).symm⟩)
        · next herr =>
          have hclose : ¬ ClosesOn res := not_or.mpr ⟨hzero, herr⟩
          exact .inr (.inr (.inr ⟨⟨hneg, hclose, hretry⟩, (Except.ok.inj h).symm⟩))

/-- `OnReadComplete` fails exactly where the input buffer does. -/
theorem onReadComplete_error_iff {res : ℤ} {ctx : ReadContext} {e : Fault} :
    c.onReadComplete ⟨res, false⟩ ctx ans = .error e ↔
      0 < res ∧ received ctx res.toNat c.inputBuffer = .error e := by
  rw [onReadComplete]
  simp only [Bool.false_eq_true, if_false]
  by_cases hres : 0 < res
  · rw [if_pos hres]
    exact bind_ok_eq_error.trans ⟨fun h => ⟨hres, h⟩, fun h => h.2⟩
  · rw [if_neg hres]
    refine ⟨fun h => ?_, fun h => absurd h.1 hres⟩
    split_ifs at h <;> cases h

/-- A read completion clears its flag and then makes a move. -/
theorem onReadComplete_ioMove {res : ℤ} {ctx : ReadContext}
    (h : c.onReadComplete ⟨res, false⟩ ctx ans = .ok t) : IoMove ans c.readDone.io c.state t := by
  rcases onReadComplete_cases h with ⟨-, input, -, rfl⟩ | ⟨-, rfl⟩ | ⟨-, rfl⟩ | ⟨-, rfl⟩
  · generalize hd : ({ c.readDone with inputBuffer := input } : Connecting) = d
    have hmove : IoMove ans d.io d.state
        (callback c.onMessageCallback .onMessage (.readRest false) d (submitReadOnce ans)) :=
      callback_ioMove _ _ _ submitReadOnce_ioMove
    exact hmove.of_eq (by rw [← hd]; rfl) (by rw [← hd]; rfl)
  · exact doClosing_ioMove.of_eq rfl rfl
  · exact submitReadOnce_ioMove.of_eq rfl rfl
  · exact IoMove.nothing.of_eq rfl rfl

theorem writtenRest_ioMove : IoMove ans c.io c.state (c.writtenRest ans) := by
  rw [writtenRest]
  split
  · exact submitWriteOnce_ioMove
  · split
    · exact submitWriteOnce_ioMove.of_eq rfl rfl
    · exact callback_ioMove _ _ _ (.of_quiet (writeRest_quiet c))

/-- A write completion clears its flag and then makes a move. -/
theorem onWriteComplete_ioMove {cqe : Cqe} :
    IoMove ans c.writeDone.io c.state (c.onWriteComplete cqe ans) := by
  rw [onWriteComplete]
  dsimp only
  split
  · exact writtenRest_ioMove.of_eq rfl rfl
  · split
    · exact submitWriteOnce_ioMove.of_eq rfl rfl
    · exact IoMove.nothing.of_eq rfl rfl

/-- Where `Send` puts the message. -/
theorem sendRest_cases {message : List UInt8} (h : c.sendRest message ans = .ok t) :
    (c.writeInFlight = true ∧ ∃ pending, c.pendingOutputBuffer.append message = .ok pending ∧
      t = ⟨{ c with pendingOutputBuffer := pending }, [], none⟩) ∨
    (c.writeInFlight = false ∧ ∃ output, c.outputBuffer.append message = .ok output ∧
      t = submitWriteOnce ans { c with outputBuffer := output }) := by
  rw [sendRest] at h
  split at h
  · next hfl =>
    obtain ⟨pending, hp, ht⟩ := bind_eq_ok h
    exact .inl ⟨hfl, pending, hp, (Except.ok.inj ht).symm⟩
  · next hfl =>
    obtain ⟨output, ho, ht⟩ := bind_eq_ok h
    exact .inr ⟨by simpa using hfl, output, ho, (Except.ok.inj ht).symm⟩

/-- `Send` is ignored, suspended in the high-water-mark callback, or queues. -/
theorem send_cases {message : List UInt8} (h : c.send message ans = .ok t) :
    (c.state ≠ .kConnected ∧ t = ⟨c, [], none⟩) ∨
    (c.state = .kConnected ∧ ∃ cb, t = ⟨c, [(c, .callback cb)], some (.sendRest message)⟩) ∨
    (c.state = .kConnected ∧ c.crossesHighWaterMark message.length = false ∧
      c.sendRest message ans = .ok t) := by
  rw [send] at h
  split_ifs at h with hst hcross
  · exact .inr (.inl ⟨hst, _, (Except.ok.inj h).symm⟩)
  · exact .inr (.inr ⟨hst, by simpa using hcross, h⟩)
  · exact .inl ⟨hst, (Except.ok.inj h).symm⟩

theorem sendRest_ioMove {message : List UInt8} (h : c.sendRest message ans = .ok t) :
    IoMove ans c.io c.state t := by
  rcases sendRest_cases h with ⟨-, pending, -, rfl⟩ | ⟨-, output, -, rfl⟩
  · exact .quiet rfl rfl id
  · exact submitWriteOnce_ioMove.of_eq rfl rfl

theorem send_ioMove {message : List UInt8} (h : c.send message ans = .ok t) :
    IoMove ans c.io c.state t := by
  rcases send_cases h with ⟨-, rfl⟩ | ⟨-, cb, rfl⟩ | ⟨-, -, h⟩
  · exact .nothing
  · exact .of_quiet ⟨rfl, rfl⟩
  · exact sendRest_ioMove h

theorem onEstablishing_ioMove (h : c.onEstablishing = .ok t) : IoMove ans c.io c.state t := by
  rw [onEstablishing] at h
  dsimp only at h
  split at h
  · split at h
    · rw [← Except.ok.inj h]
      exact .quiet rfl rfl (by simp)
    · cases h
  · rw [← Except.ok.inj h]
    exact .nothing

theorem shutDownWrite_ioMove : IoMove ans c.io c.state c.shutDownWrite := by
  rw [shutDownWrite]
  dsimp only
  split
  · split <;> exact .quiet rfl rfl (by simp)
  · exact .nothing

theorem exec_ioMove {a : Act} (h : c.exec ans a = .ok t) : IoMove ans c.io c.state t := by
  cases a <;> simp only [exec, Except.ok.injEq] at h
  case onEstablishing => exact onEstablishing_ioMove h
  case send message => exact send_ioMove h
  case shutDownWrite => exact h ▸ shutDownWrite_ioMove
  case forceClose => exact h ▸ forceClose_ioMove
  case doClosing => exact h ▸ doClosing_ioMove
  case startReading => exact h ▸ submitReadOnce_ioMove
  case startWriting => exact h ▸ submitWriteOnce_ioMove
  case consume len => exact h ▸ .quiet rfl rfl id
  all_goals exact h ▸ stop_ioMove

theorem resume_ioMove {f : Frame} (h : c.resume ans f = .ok t) : IoMove ans c.io c.state t := by
  cases f <;> simp only [resume, Except.ok.injEq] at h
  case sendRest message => exact sendRest_ioMove h
  case readRest more => exact h ▸ readRest_ioMove
  case writeRest => exact h ▸ .of_quiet (writeRest_quiet c)
  case closeRest => exact h ▸ .of_quiet (closeRest_quiet c)
  case closeEnd => exact h ▸ .of_quiet ⟨rfl, rfl⟩
  case establishRest => exact h ▸ submitReadOnce_ioMove

/-! ## What a turn leaves alone -/

/-- The three buffers. -/
def buffers (c : Connecting) : IoBuffer × IoBuffer × IoBuffer :=
  (c.inputBuffer, c.outputBuffer, c.pendingOutputBuffer)

theorem submitReadOnce_buffers : (c.submitReadOnce ans).conn.buffers = c.buffers := by
  simp only [submitReadOnce]
  split_ifs <;> rfl

theorem submitWriteOnce_buffers : (c.submitWriteOnce ans).conn.buffers = c.buffers := by
  simp only [submitWriteOnce]
  split_ifs <;> rfl

theorem stop_buffers : c.stop.conn.buffers = c.buffers := by
  rw [stop, cancelPendingIo_conn]
  rfl

theorem doClosing_buffers : c.doClosing.conn.buffers = c.buffers := by
  by_cases h : c.state = .kDisconnected
  · rw [doClosing_closed h]
  · rw [(doClosing_open h).2, cancelPendingIo_conn]
    rfl

/-- Only `Send` and the consumption of input touch a buffer, -/
theorem exec_buffers {a : Act} (hsend : ∀ message, a ≠ .send message)
    (hconsume : ∀ len, a ≠ .consume len) (h : c.exec ans a = .ok t) :
    t.conn.buffers = c.buffers := by
  cases a <;> simp only [exec, Except.ok.injEq] at h
  case send message => exact absurd rfl (hsend message)
  case consume len => exact absurd rfl (hconsume len)
  case onEstablishing =>
    simp only [onEstablishing] at h
    split_ifs at h <;> cases h <;> rfl
  case shutDownWrite =>
    subst h
    simp only [shutDownWrite]
    split_ifs <;> rfl
  case forceClose =>
    subst h
    rw [forceClose]
    split
    · rfl
    · exact doClosing_buffers
  case doClosing => exact h ▸ doClosing_buffers
  case startReading => exact h ▸ submitReadOnce_buffers
  case startWriting => exact h ▸ submitWriteOnce_buffers
  all_goals exact h ▸ stop_buffers

/-- and of the suspended handlers only that of `Send`. -/
theorem resume_buffers {f : Frame} (hf : ∀ message, f ≠ .sendRest message)
    (h : c.resume ans f = .ok t) : t.conn.buffers = c.buffers := by
  cases f <;> simp only [resume, Except.ok.injEq] at h
  case sendRest message => exact absurd rfl (hf message)
  case readRest more =>
    subst h
    rw [readRest]
    split
    · rfl
    · exact submitReadOnce_buffers
  case writeRest => rw [← h, (writeRest_quiet c).2]
  case closeRest => rw [← h, (closeRest_quiet c).2]
  case closeEnd => exact h ▸ rfl
  case establishRest => exact h ▸ submitReadOnce_buffers

/-- The output side leaves the input buffer alone. -/
theorem sendRest_input {message : List UInt8} (h : c.sendRest message ans = .ok t) :
    t.conn.inputBuffer = c.inputBuffer := by
  rcases sendRest_cases h with ⟨-, pending, -, rfl⟩ | ⟨-, output, -, rfl⟩
  · rfl
  · exact congrArg Prod.fst submitWriteOnce_buffers

theorem send_input {message : List UInt8} (h : c.send message ans = .ok t) :
    t.conn.inputBuffer = c.inputBuffer := by
  rcases send_cases h with ⟨-, rfl⟩ | ⟨-, cb, rfl⟩ | ⟨-, -, h⟩
  · rfl
  · rfl
  · exact sendRest_input h

theorem exec_input {a : Act} (ha : ∀ len, a ≠ .consume len) (h : c.exec ans a = .ok t) :
    t.conn.inputBuffer = c.inputBuffer := by
  by_cases hsend : ∃ message, a = .send message
  · obtain ⟨message, rfl⟩ := hsend
    exact send_input h
  · exact congrArg Prod.fst (exec_buffers (not_exists.mp hsend) ha h)

theorem resume_input {f : Frame} (h : c.resume ans f = .ok t) :
    t.conn.inputBuffer = c.inputBuffer := by
  by_cases hf : ∃ message, f = .sendRest message
  · obtain ⟨message, rfl⟩ := hf
    exact sendRest_input h
  · exact congrArg Prod.fst (resume_buffers (not_exists.mp hf) h)

theorem writtenRest_input : (c.writtenRest ans).conn.inputBuffer = c.inputBuffer := by
  rw [writtenRest]
  split
  · exact congrArg Prod.fst submitWriteOnce_buffers
  · split
    · exact congrArg Prod.fst submitWriteOnce_buffers
    · exact congrArg inputBuffer (callback_quiet _ _ _ (writeRest_quiet c)).2

theorem onWriteComplete_input {cqe : Cqe} :
    (c.onWriteComplete cqe ans).conn.inputBuffer = c.inputBuffer := by
  rw [onWriteComplete]
  dsimp only
  split
  · exact writtenRest_input
  · split
    · exact congrArg Prod.fst submitWriteOnce_buffers
    · rfl

/-- A turn that submits a read. -/
def SubmitsRead (t : Turn) : Prop := ∃ ctx, .submitRead ctx ∈ t.io

theorem submitWriteOnce_noRead : ¬ SubmitsRead (c.submitWriteOnce ans) := by
  simp only [SubmitsRead, submitWriteOnce, Turn.io]
  split_ifs <;> simp [Output.isIo]

theorem noRead_of_cancels {v : IoView} (h : t.io = v.cancels) : ¬ SubmitsRead t := by
  simp only [SubmitsRead, h, IoView.cancels]
  split_ifs <;> simp

theorem noRead_of_io (h : t.io = []) : ¬ SubmitsRead t := by
  simp [SubmitsRead, h]

theorem sendRest_noRead {message : List UInt8} (h : c.sendRest message ans = .ok t) :
    ¬ SubmitsRead t := by
  rcases sendRest_cases h with ⟨-, pending, -, rfl⟩ | ⟨-, output, -, rfl⟩
  · exact noRead_of_io rfl
  · exact submitWriteOnce_noRead

/-- Of the calls only `StartReading` submits a read. -/
theorem exec_noRead {a : Act} (ha : a ≠ .startReading) (h : c.exec ans a = .ok t) :
    ¬ SubmitsRead t := by
  cases a <;> simp only [exec, Except.ok.injEq] at h
  case startReading => exact absurd rfl ha
  case send message =>
    rcases send_cases h with ⟨-, rfl⟩ | ⟨-, cb, rfl⟩ | ⟨-, -, h⟩
    · exact noRead_of_io rfl
    · exact noRead_of_io rfl
    · exact sendRest_noRead h
  case onEstablishing =>
    simp only [onEstablishing] at h
    split_ifs at h <;> cases h <;> exact noRead_of_io rfl
  case shutDownWrite =>
    subst h
    simp only [shutDownWrite]
    split_ifs <;> exact noRead_of_io rfl
  case forceClose =>
    subst h
    rw [forceClose]
    split
    · exact noRead_of_io rfl
    · exact noRead_of_cancels (doClosing_open (by simp)).1
  case doClosing =>
    subst h
    by_cases hst : c.state = .kDisconnected
    · rw [doClosing_closed hst]
      exact noRead_of_io rfl
    · exact noRead_of_cancels (doClosing_open hst).1
  case startWriting => exact h ▸ submitWriteOnce_noRead
  case consume len => exact h ▸ noRead_of_io rfl
  all_goals exact h ▸ noRead_of_cancels (cancelPendingIo_out c)

end Connecting

end Taotu
