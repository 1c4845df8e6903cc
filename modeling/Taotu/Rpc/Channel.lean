import Taotu.Lib.Machine
import Mathlib.Logic.Function.Basic

/-!
# Taotu.Rpc.Channel — calls over a channel (`rpc_channel.h`, `rpc_channel.cc`, `rpc.proto`)

`RpcAsyncChannel` numbers its calls, remembers them in `outstanding_calls_` and
sends them as REQUEST messages; a message it receives completes one of its
calls or is a call for one of its services.

1. **Channel.** `callMethod`, `onRpcMessage` and `doneCallback` are the methods
   of one channel. What a method does apart from changing the channel is an
   `Effect`.
2. **Pair.** `machine` joins a client and a server channel by two FIFO links.
   A step is a call of the client, the delivery of the first message of a link,
   or a service that runs the closure of one of its calls, whichever and with
   whatever response.

Both `Run()` of a callback and the call of a service are the last thing a
handler does, so whatever they do in turn comes as later steps.

`id_` is not initialised, so it starts with any value. It wraps at `2 ^ 64`, and
the addition behind `fetch_add` is taken to wrap with it; `int64_t` and `fixed64`
are the same `2 ^ 64` values.

**Ghosts.** `calls` are the calls made, `requests` the messages delivered to the
server, `responses` those it has sent, `delivered` those delivered to the client.
`produced` are the bytes services have produced, `completions` the calls the
client has completed. `strays` collects effects on the wrong side: calls of
services at the client and completions at the server.
-/

namespace Taotu.Rpc

open Lib

/-- The number of `fixed64` values, `2 ^ 64`. -/
def idRange : ℕ := 18446744073709551616

inductive MessageType where
  | OTHER
  | REQUEST
  | RESPONSE
  | ERROR
deriving DecidableEq, Repr

inductive ErrorCode where
  | NO_ERROR
  | WRONG_PROTO
  | NO_SERVICE
  | NO_METHOD
  | INVALID_REQUEST
  | INVALID_RESPONSE
  | TIMEOUT
deriving DecidableEq, Repr

structure RpcMessage where
  type : MessageType
  id : ℕ
  service : Option String
  method : Option String
  request : Option (List UInt8)
  response : Option (List UInt8)
  error : Option ErrorCode
deriving DecidableEq, Repr

/-- A method of a service: whether a request parses. -/
structure Method where
  parseFromString : List UInt8 → Bool

/-- A service: the methods of its descriptor. -/
structure Service where
  findMethodByName : String → Option Method

/-- What a service is called with; its closure is bound to `id`. -/
structure Invocation where
  service : String
  method : String
  request : List UInt8
  id : ℕ
deriving DecidableEq, Repr

/-- `OutstandingCall`: each of the two pointers is null or not. -/
structure OutstandingCall where
  responseMessage : Bool
  doneCallback : Bool
deriving DecidableEq, Repr

structure RpcAsyncChannel where
  id : ℕ
  outstandingCalls : ℕ → Option OutstandingCall
  services : Option (String → Option Service)

/-- What a message makes a channel do. -/
inductive Effect where
  | nothing
  /-- The response object is parsed from the bytes, if there are any, and the
  callback runs, if there is one. -/
  | complete (call : OutstandingCall) (parsed : Option (List UInt8))
  | callService (v : Invocation)
  | send (m : RpcMessage)
deriving DecidableEq, Repr

namespace RpcAsyncChannel

/-! ## Channel -/

/-- `CallMethod`: the channel afterwards and the message it sends. -/
def callMethod (service method : String) (request : List UInt8) (response done : Bool)
    (ch : RpcAsyncChannel) : RpcAsyncChannel × RpcMessage :=
  let id := (ch.id + 1) % idRange
  ({ ch with
      id := id
      outstandingCalls := Function.update ch.outstandingCalls id (some ⟨response, done⟩) },
    ⟨.REQUEST, id, some service, some method, some request, none, none⟩)

/-- The `error_code` of a REQUEST. -/
def errorCode (ch : RpcAsyncChannel) (m : RpcMessage) : ErrorCode :=
  match ch.services with
  | none => .NO_SERVICE
  | some services =>
    match services (m.service.getD "") with
    | none => .NO_SERVICE
    | some service =>
      match service.findMethodByName (m.method.getD "") with
      | none => .NO_METHOD
      | some method =>
        if method.parseFromString (m.request.getD []) then .NO_ERROR else .INVALID_REQUEST

/-- The RESPONSE to a REQUEST that reaches no service. -/
def errorResponse (id : ℕ) (code : ErrorCode) : RpcMessage :=
  ⟨.RESPONSE, id, none, none, none, none, some code⟩

def onRpcMessage (m : RpcMessage) (ch : RpcAsyncChannel) : RpcAsyncChannel × Effect :=
  match m.type with
  | .RESPONSE =>
    -- an id that is not found leaves two null pointers
    let call := (ch.outstandingCalls m.id).getD ⟨false, false⟩
    ({ ch with outstandingCalls := Function.update ch.outstandingCalls m.id none },
      if call.responseMessage then .complete call m.response else .nothing)
  | .REQUEST =>
    let code := ch.errorCode m
    (ch,
      if code = .NO_ERROR then
        .callService ⟨m.service.getD "", m.method.getD "", m.request.getD [], m.id⟩
      else .send (errorResponse m.id code))
  | .ERROR => (ch, .nothing)
  | .OTHER => (ch, .nothing)

/-- `DoneCallback`, with the serialized response. -/
def doneCallback (response : List UInt8) (id : ℕ) : RpcMessage :=
  ⟨.RESPONSE, id, none, none, none, some response, none⟩

end RpcAsyncChannel

/-! ## Pair -/

/-- A call the client has made. -/
structure Call where
  id : ℕ
  service : String
  method : String
  request : List UInt8
  response : Bool
  done : Bool
deriving DecidableEq, Repr

/-- A call is completed: its response object was parsed from `parsed`, or left
alone, and its callback was run or absent. -/
structure Completion where
  id : ℕ
  parsed : Option (List UInt8)
  ran : Bool
deriving DecidableEq, Repr

structure Pair where
  client : RpcAsyncChannel
  server : RpcAsyncChannel
  toServer : List RpcMessage
  toClient : List RpcMessage
  /-- The closures that have not been run. -/
  invocations : List Invocation
  calls : List Call
  requests : List RpcMessage
  responses : List RpcMessage
  delivered : List RpcMessage
  produced : List (Invocation × List UInt8)
  completions : List Completion
  strays : List Effect

namespace Pair

inductive Label where
  | callMethod (service method : String) (request : List UInt8) (response done : Bool)
  | serverReceives
  | clientReceives
  | runClosure (k : ℕ) (response : List UInt8)
deriving DecidableEq, Repr

/-- The server sends a RESPONSE. -/
def respond (s : Pair) (m : RpcMessage) : Pair :=
  { s with toClient := s.toClient ++ [m], responses := s.responses ++ [m] }

def serverEffect (s : Pair) : Effect → Pair
  | .nothing => s
  | .complete call parsed => { s with strays := s.strays ++ [.complete call parsed] }
  | .callService v => { s with invocations := s.invocations ++ [v] }
  | .send m => s.respond m

def clientEffect (s : Pair) (id : ℕ) : Effect → Pair
  | .nothing => s
  | .complete call parsed =>
    { s with completions := s.completions ++ [⟨id, parsed, call.doneCallback⟩] }
  | .callService v => { s with strays := s.strays ++ [.callService v] }
  | .send m => { s with strays := s.strays ++ [.send m] }

def step (s : Pair) : Label → Option Pair
  | .callMethod service method request response done =>
    let r := s.client.callMethod service method request response done
    some { s with
      client := r.1
      toServer := s.toServer ++ [r.2]
      calls := s.calls ++ [⟨r.2.id, service, method, request, response, done⟩] }
  | .serverReceives =>
    match s.toServer with
    | [] => none
    | m :: rest =>
      let r := s.server.onRpcMessage m
      some (serverEffect
        { s with server := r.1, toServer := rest, requests := s.requests ++ [m] } r.2)
  | .clientReceives =>
    match s.toClient with
    | [] => none
    | m :: rest =>
      let r := s.client.onRpcMessage m
      some (clientEffect
        { s with client := r.1, toClient := rest, delivered := s.delivered ++ [m] } m.id r.2)
  | .runClosure k response =>
    match s.invocations[k]? with
    | none => none
    | some v =>
      some (respond
        { s with
          invocations := s.invocations.eraseIdx k
          produced := s.produced ++ [(v, response)] } (RpcAsyncChannel.doneCallback response v.id))

/-- Two new channels; `id_` is whatever it happens to be. -/
def new (clientId serverId : ℕ) (clientServices serverServices : Option (String → Option Service)) :
    Pair :=
  { client := ⟨clientId, fun _ => none, clientServices⟩
    server := ⟨serverId, fun _ => none, serverServices⟩
    toServer := [], toClient := [], invocations := [], calls := [], requests := [], responses := []
    delivered := [], produced := [], completions := [], strays := [] }

def machine : Machine Pair Label :=
  ⟨fun s => ∃ clientId serverId clientServices serverServices,
    s = new clientId serverId clientServices serverServices, step⟩

end Pair

end Taotu.Rpc
