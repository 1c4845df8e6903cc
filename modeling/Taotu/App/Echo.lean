import Taotu.Connection.Duplex
import Mathlib.Data.List.Rotate

/-!
# Taotu.App.Echo — the echo and the ping-pong example (`simple_echo/`, `pingpong/`)

`EchoServer` and `PingpongServer` send back what they receive, and so does a
`Session` of the ping-pong client, which opens the game with a block of bytes.

1. **Handlers.** The callbacks of the three are short programs of calls on the
   connection (`Role`). A `Worker` is a callback at work: the statements it has
   still to run, and the value of its variable `message`. `Send` may suspend in
   the high-water-mark callback, and then the next statement waits.
2. **One worker.** `Serves`: what a worker has sent and what it has in hand is
   what it has been given, in order (`serves_step`).
3. **Echo.** `echo_end_to_end`: whatever the other end sends, what it gets back is
   what it has sent.
4. **Ping-pong.** `block_goes_round`: the bytes between a session and the server
   are at all times the block, up to a rotation.

Both are about the runs of `BothOk`: at both ends sends find their turn and reads their
place, and neither end stops or closes.

`SetTcpNoDelay`, the log and the counting of connections are left out.
-/

namespace Taotu.Echo

open Lib Solo Duplex

/-! ## Handlers -/

inductive Statement where
  /-- `connection.Send(io_buffer)`, up to the `RefreshRW` in it. -/
  | sendBuffer
  /-- `io_buffer->RefreshRW()`. -/
  | refreshRW
  /-- `message = io_buffer->RetrieveAllAsString()`. -/
  | retrieveAllAsString
  /-- `connection.Send(message)`. -/
  | sendMessage
deriving DecidableEq, Repr

/-- Whose callbacks an end runs. -/
inductive Role where
  | echoServer
  | pingpongServer
  | session (block : List UInt8)
deriving DecidableEq, Repr

namespace Role

/-- `OnConnectionCallback` of a connection that is connected. -/
def onConnectionCallback : Role → List Statement
  | echoServer | pingpongServer => []
  | session _ => [.sendMessage]

/-- `GetMessage()`, what a session opens with. -/
def getMessage : Role → List UInt8
  | echoServer | pingpongServer => []
  | session block => block

def onMessageCallback : Role → List Statement
  | echoServer => [.retrieveAllAsString, .sendMessage]
  | pingpongServer | session _ => [.sendBuffer, .refreshRW]

end Role

structure Worker where
  todo : List Statement
  message : List UInt8
deriving DecidableEq, Repr

namespace Statement

/-- The call a statement makes. -/
def act (s : Solo) (message : List UInt8) : Statement → Act
  | sendBuffer => .send s.conn.inputBuffer.readable
  | refreshRW | retrieveAllAsString => .consume s.conn.inputBuffer.getReadableBytes
  | sendMessage => .send message

/-- The variable `message` behind a statement. -/
def messageAfter (s : Solo) (message : List UInt8) : Statement → List UInt8
  | retrieveAllAsString => s.conn.inputBuffer.readable
  | sendBuffer | refreshRW | sendMessage => message

end Statement

namespace Worker

/-- What an end does next: the event loop goes on, or the callback does. -/
inductive Label where
  | loop (l : Solo.Label)
  | statement (ans : ℕ)
deriving DecidableEq, Repr

/-- There are statements left to run. -/
def busy (w : Worker) : Bool := !w.todo.isEmpty

/-- The step of the connection that a step of the worker makes. -/
def soloLabel (s : Solo) (w : Worker) : Label → Option Solo.Label
  | .loop l => if s.LoopStep w.busy l then some l else none
  | .statement ans =>
    match w.todo with
    | [] => none
    | st :: _ => if InSend s.stack then none else some (.call (st.act s w.message) ans)

/-- The worker after a step of the event loop: a callback that was entered starts to run. -/
def enter (r : Role) (s' : Solo) (w : Worker) : Solo.Label → Worker
  | .call _ _ =>
    if s'.stack = [.establishRest] then ⟨r.onConnectionCallback, r.getMessage⟩ else w
  | .readComplete _ _ _ =>
    if s'.stack = [.readRest false] then { w with todo := r.onMessageCallback } else w
  | .ret _ | .writeComplete _ _ => w

/-- The worker after a step that took the connection from `s` to `s'`. -/
def next (r : Role) (s s' : Solo) (w : Worker) (l : Label) : Worker :=
  if s'.fault ≠ none then w
  else
    match l with
    | .loop l => enter r s' w l
    | .statement _ =>
      match w.todo with
      | [] => w
      | st :: rest => ⟨rest, st.messageAfter s w.message⟩

/-- No callback is running. -/
def idle : Worker := ⟨[], []⟩

/-! ## One worker -/

/-- What the worker was given and has not sent. -/
def inHand (s : Solo) (w : Worker) : List UInt8 :=
  match w.todo with
  | .refreshRW :: _ => []
  | .sendMessage :: _ => w.message ++ s.conn.inputBuffer.readable
  | _ => s.conn.inputBuffer.readable

/-- What can be left of a callback. -/
inductive Rest : List Statement → Prop where
  | done : Rest []
  | sending : Rest [.sendMessage]
  | echo : Rest [.retrieveAllAsString, .sendMessage]
  | pingpong : Rest [.sendBuffer, .refreshRW]
  | refreshing : Rest [.refreshRW]

/-- A connection that is not established yet, with no callback at work. -/
structure Fresh (s : Solo) (w : Worker) : Prop where
  stack : s.stack = []
  readOp : s.readOp = none
  writeOp : s.writeOp = none
  sent : s.sent = []
  delivered : s.delivered = []
  todo : w.todo = []

/-- What the worker was given: the block it opens with, and what was delivered. -/
def given (r : Role) (s : Solo) : List UInt8 :=
  (if s.conn.state = .kConnecting then [] else r.getMessage) ++ s.delivered

structure Serves (r : Role) (s : Solo) (w : Worker) : Prop where
  hand : s.sent ++ w.inHand s = given r s
  rest : Rest w.todo
  /-- A callback at work is on the stack. -/
  frame : w.todo ≠ [] → ∃ f ∈ s.stack, ¬ InSend [f]
  fresh : s.conn.state = .kConnecting → Fresh s w

theorem rest_onConnectionCallback (r : Role) : Rest r.onConnectionCallback := by
  cases r <;> constructor

theorem rest_onMessageCallback (r : Role) : Rest r.onMessageCallback := by
  cases r <;> constructor

theorem serves_init {r : Role} {s : Solo} (h : Solo.Init s) : Serves r s idle := by
  obtain ⟨addr, fd, b₁, b₂, b₃, hwm, b₄, c, hc, rfl⟩ := h
  obtain ⟨b, hb, hin, -, -, hst, -, -⟩ := Connecting.new_ok hc
  have hread : c.inputBuffer.readable = [] := hin ▸ (IoBuffer.new_spec (by decide) hb).2.1
  refine ⟨?_, .done, fun h => absurd rfl h, fun _ => ⟨rfl, rfl, rfl, rfl, rfl, rfl⟩⟩
  have hstart : (Solo.start c).conn.state = .kConnecting := hst
  rw [given, if_pos hstart]
  exact hread

variable {r : Role} {s s' : Solo} {w : Worker}

theorem Serves.idle_of_stack (h : Serves r s w) (hstack : s.stack = []) : w.todo = [] := by
  by_contra hne
  obtain ⟨f, hf, -⟩ := h.frame hne
  rw [hstack] at hf
  cases hf

/-- What is in hand at the beginning of a message callback, or between callbacks. -/
theorem inHand_resting (h : w.todo = [] ∨ w.todo = r.onMessageCallback) :
    w.inHand s = s.conn.inputBuffer.readable := by
  rcases h with h | h
  · rw [inHand, h]
  · cases r <;> rw [inHand, h] <;> rfl

/-- A step that leaves the streams, the input buffer and the callback alone. -/
theorem Serves.of_same (h : Serves r s w) (hsent : s'.sent = s.sent)
    (hdel : s'.delivered = s.delivered) (hbuf : s'.conn.inputBuffer = s.conn.inputBuffer)
    (hst : s.conn.state ≠ .kConnecting) (hst' : s'.conn.state ≠ .kConnecting)
    (hframe : w.todo ≠ [] → ∃ f ∈ s'.stack, ¬ InSend [f]) : Serves r s' w := by
  refine ⟨?_, h.rest, hframe, fun hc => absurd hc hst'⟩
  have hhand := h.hand
  rw [given, if_neg hst] at hhand
  rw [given, if_neg hst', hsent, hdel, ← hhand, inHand, inHand, hbuf]

/-- Establishing runs the connection callback, the first time. -/
theorem Serves.establish (h : Serves r s w) (hin : s.InboundInv) {ans : ℕ} {t : Turn}
    (hallowed : s.stack = []) (ht : s.conn.onEstablishing = .ok t) :
    Serves r ((s.note .onEstablishing).take ans t)
      (enter r ((s.note .onEstablishing).take ans t) w (.call .onEstablishing ans)) := by
  rw [Connecting.onEstablishing] at ht
  dsimp only at ht
  split at ht
  · next hst =>
    have hfresh := h.fresh hst
    split at ht
    · cases ht
      have hempty : s.conn.inputBuffer.readable = [] := by
        have hstream := hin.stream
        rw [hfresh.delivered] at hstream
        exact (List.append_eq_nil_iff.mp hstream).2
      have henter : enter r ((s.note .onEstablishing).take ans
          ⟨{ s.conn with state := .kConnected },
            [({ s.conn with state := .kConnected }, .callback .onConnection)],
            some .establishRest⟩) w (.call .onEstablishing ans) =
          ⟨r.onConnectionCallback, r.getMessage⟩ := by
        rw [enter, if_pos]
        show .establishRest :: s.stack = _
        rw [hallowed]
      rw [henter]
      refine ⟨?_, rest_onConnectionCallback r, fun _ => ⟨.establishRest, ?_, not_false⟩, ?_⟩
      · show s.sent ++ _ = r.getMessage ++ s.delivered
        rw [hfresh.sent, hfresh.delivered, List.nil_append, List.append_nil]
        cases r with
        | echoServer => exact hempty
        | pingpongServer => exact hempty
        | session block =>
          show block ++ s.conn.inputBuffer.readable = block
          rw [hempty, List.append_nil]
      · exact List.mem_append_left _ List.mem_cons_self
      · intro hc
        cases hc
    · cases ht
  · next hst =>
    cases ht
    have henter : enter r ((s.note .onEstablishing).take ans ⟨s.conn, [], none⟩) w
        (.call .onEstablishing ans) = w := by
      rw [enter, if_neg]
      show s.stack ≠ _
      rw [hallowed]
      intro hnil
      cases hnil
    rw [henter]
    exact h.of_same rfl rfl rfl hst hst h.frame

/-- A handler that goes on behind a callback has sent and consumed nothing. -/
theorem Serves.ret (h : Serves r s w) {ans : ℕ} (hloops : s.LoopStep w.busy (.ret ans))
    (hs : s.step (.ret ans) = some s') (hp : s.Performed (.ret ans) s') : Serves r s' w := by
  cases hp with
  | ret _ f rest t hstack ht =>
    have hst : s.conn.state ≠ .kConnecting := by
      intro hc
      have hnil := (h.fresh hc).stack
      rw [hstack] at hnil
      cases hnil
    refine h.of_same rfl rfl (Connecting.resume_input ht) hst (not_connecting hs hst) ?_
    intro hne
    -- the callback at work is below the `Send` that returns
    obtain ⟨g, hg, hgs⟩ := h.frame hne
    have hsend : InSend s.stack := hloops.resolve_left (by simpa [busy] using hne)
    rw [hstack] at hsend hg
    refine ⟨g, List.mem_append_right _ ?_, hgs⟩
    rcases List.mem_cons.mp hg with rfl | hrest
    · cases g with
      | sendRest m => exact absurd trivial hgs
      | _ => exact absurd hsend not_false
    · exact hrest

/-- A read gives the worker what is delivered, and starts the message callback. -/
theorem Serves.read (h : Serves r s w) (hin : s.InboundInv) (hin' : s'.InboundInv) {res : ℤ}
    {data : List UInt8} {ans : ℕ} (hs : s.step (.readComplete res data ans) = some s')
    (hp : s.Performed (.readComplete res data ans) s') :
    Serves r s' (enter r s' w (.readComplete res data ans)) := by
  cases hp with
  | readComplete _ _ _ key ctx b extra t hstack hop hlen hle hfill ht =>
    generalize hs' : ({ s with readOp := none, delivered := s.delivered ++ data } : Solo).take ans t =
      s₁ at hs hin' ⊢
    have hidle := h.idle_of_stack hstack
    have hst : s.conn.state ≠ .kConnecting := by
      intro hc
      have hnone := (h.fresh hc).readOp
      rw [hop] at hnone
      cases hnone
    have hst' := not_connecting hs hst
    have hdel : s₁.delivered = s.delivered ++ data := by rw [← hs']; rfl
    have hsent : s₁.sent = s.sent := by rw [← hs']; rfl
    -- the input buffer has grown by what was delivered
    have hread : s₁.conn.inputBuffer.readable = s.conn.inputBuffer.readable ++ data := by
      have hbefore := hin.stream
      have hafter := hin'.stream
      have hcons : s₁.consumed = s.consumed := by rw [← hs']; rfl
      rw [hdel, ← hbefore, hcons, List.append_assoc] at hafter
      exact List.append_cancel_left hafter
    have hhand := h.hand
    rw [given, if_neg hst, inHand_resting (r := r) (.inl hidle)] at hhand
    have hgiven : s₁.sent ++ s₁.conn.inputBuffer.readable = given r s₁ := by
      rw [given, if_neg hst', hsent, hread, hdel, ← List.append_assoc, hhand, List.append_assoc]
    rw [enter]
    split
    · next hentered =>
      refine ⟨?_, rest_onMessageCallback r, fun _ => ⟨.readRest false, ?_, not_false⟩,
        fun hc => absurd hc hst'⟩
      · rw [inHand_resting (r := r) (.inr rfl), hgiven]
      · rw [hentered]
        exact List.mem_cons_self
    · refine ⟨?_, h.rest, fun hne => absurd hidle hne, fun hc => absurd hc hst'⟩
      rw [inHand_resting (r := r) (.inl hidle), hgiven]

theorem Serves.write (h : Serves r s w) {res : ℤ} {ans : ℕ}
    (hs : s.step (.writeComplete res ans) = some s')
    (hp : s.Performed (.writeComplete res ans) s') : Serves r s' w := by
  cases hp with
  | writeComplete _ _ key ctx data hstack hop =>
    have hst : s.conn.state ≠ .kConnecting := by
      intro hc
      have hnone := (h.fresh hc).writeOp
      rw [hop] at hnone
      cases hnone
    exact h.of_same rfl rfl Connecting.onWriteComplete_input hst (not_connecting hs hst)
      fun hne => absurd (h.idle_of_stack hstack) hne

/-- One statement of a callback. -/
theorem Serves.statement (h : Serves r s w) (hin : s.InboundInv)
    (hst : s.conn.state = .kConnected) {st : Statement} {rest : List Statement} {ans : ℕ}
    (htodo : w.todo = st :: rest) (hs : s.step (.call (st.act s w.message) ans) = some s')
    (hp : s.Performed (.call (st.act s w.message) ans) s') :
    Serves r s' ⟨rest, st.messageAfter s w.message⟩ := by
  have hc : s.conn.state ≠ .kConnecting := by simp [hst]
  have hc' := not_connecting hs hc
  have hframe : ∃ f ∈ s'.stack, ¬ InSend [f] := by
    obtain ⟨f, hf, hfs⟩ := h.frame (by simp [htodo])
    exact ⟨f, call_stack hp f hf, hfs⟩
  have hgiven : given r s' = r.getMessage ++ s'.delivered := by rw [given, if_neg hc']
  have hhand := h.hand
  rw [given, if_neg hc, inHand, htodo] at hhand
  have hall : s.conn.inputBuffer.readable.drop s.conn.inputBuffer.getReadableBytes = [] := by
    rw [hin.wf.getReadableBytes_length, List.drop_length]
  have hrest := h.rest
  rw [htodo] at hrest
  refine ⟨?_, ?_, fun _ => hframe, fun hfresh => absurd hfresh hc'⟩
  · rw [hgiven]
    cases hrest with
    | sending =>
      obtain ⟨hsent, hdel, hbuf⟩ := call_send hst hp
      rw [hsent, hdel, inHand, hbuf, ← hhand, List.append_assoc]
    | echo =>
      obtain ⟨hsent, hdel, -, hread⟩ := call_consume hin hp
      rw [hsent, hdel, inHand, hread, hall, ← hhand, List.append_nil]
      rfl
    | pingpong =>
      obtain ⟨hsent, hdel, -⟩ := call_send hst hp
      rw [hsent, hdel, inHand, ← hhand, List.append_nil]
    | refreshing =>
      obtain ⟨hsent, hdel, -, hread⟩ := call_consume hin hp
      rw [hsent, hdel, inHand, hread, hall, ← hhand]
  · cases hrest <;> constructor

/-- **One step of a worker** on a connection that is not being closed. -/
theorem serves_step (h : Serves r s w) (hin : s.InboundInv) (hin' : s'.InboundInv)
    (hopen : s'.conn.state.rank ≤ 1) {l : Label} {l₁ : Solo.Label}
    (hl : w.soloLabel s l = some l₁) (hs : s.step l₁ = some s') :
    Serves r s' (w.next r s s' l) := by
  rcases Solo.step_cases hs with hp | ⟨e, rfl⟩
  · have hfault : s'.fault = none := by
      rw [performed_fault hp]
      rw [Solo.step] at hs
      split at hs
      · next hen => exact hen.1
      · cases hs
    rw [next.eq_def, if_neg (by simp [hfault])]
    cases l with
    | loop l =>
      rw [soloLabel] at hl
      split at hl
      · next hloops =>
        cases hl
        cases l₁ with
        | call a ans =>
          cases a with
          | onEstablishing =>
            cases hp with
            | call _ _ t hallowed ht => exact h.establish hin hallowed ht
          | _ => exact absurd hloops not_false
        | ret ans => exact h.ret hloops hs hp
        | readComplete res data ans => exact h.read hin hin' hs hp
        | writeComplete res ans => exact h.write hs hp
      · cases hl
    | statement ans =>
      rw [soloLabel] at hl
      cases htodo : w.todo with
      | nil =>
        rw [htodo] at hl
        cases hl
      | cons st rest =>
        rw [htodo] at hl
        dsimp only at hl ⊢
        split at hl
        · cases hl
        · cases hl
          have hst : s.conn.state = .kConnected := by
            have hrank := Nat.le_trans (Solo.step_forward hs) hopen
            cases hstate : s.conn.state with
            | kConnected => rfl
            | kConnecting =>
              have hnil := (h.fresh hstate).todo
              rw [htodo] at hnil
              cases hnil
            | kDisconnecting | kDisconnected =>
              rw [hstate] at hrank
              exact absurd hrank (by decide)
          exact h.statement hin hst htodo hs hp
  · rw [next.eq_def, if_pos (by simp)]
    exact ⟨h.hand, h.rest, h.frame, fun hc => ⟨(h.fresh hc).stack, (h.fresh hc).readOp,
      (h.fresh hc).writeOp, (h.fresh hc).sent, (h.fresh hc).delivered, (h.fresh hc).todo⟩⟩

end Worker

/-! ## Echo -/

/-- A server with the role `r` at the right end; the left end is anyone. -/
structure Hosted where
  net : Duplex
  server : Worker
deriving DecidableEq, Repr

namespace Hosted

inductive Label where
  | client (l : Solo.Label)
  | server (l : Worker.Label)
deriving DecidableEq, Repr

def duplexLabel (e : Hosted) : Label → Option Duplex.Label
  | .client l => some (.left (.turn l))
  | .server l => (e.server.soloLabel e.net.right l).map fun l => .right (.turn l)

/-- The server after a step to `net`. -/
def serverAfter (r : Role) (e : Hosted) (net : Duplex) : Label → Worker
  | .client _ => e.server
  | .server l => e.server.next r e.net.right net.right l

def step (r : Role) (e : Hosted) (l : Label) : Option Hosted :=
  (e.duplexLabel l).bind fun dl => (e.net.step dl).map fun net => ⟨net, e.serverAfter r net l⟩

def machine (r : Role) : Machine Hosted Label :=
  ⟨fun e => Duplex.Init e.net ∧ e.server = Worker.idle, step r⟩

def Ok (e : Hosted) (l : Label) : Prop := ∀ dl ∈ e.duplexLabel l, BothOk e.net dl

instance (e : Hosted) (l : Label) : Decidable (e.Ok l) :=
  inferInstanceAs (Decidable (∀ dl ∈ e.duplexLabel l, BothOk e.net dl))

variable {r : Role} {e e' : Hosted} {l : Label}

theorem step_cases (h : step r e l = some e') :
    ∃ dl, e.duplexLabel l = some dl ∧ e.net.step dl = some e'.net ∧
      e'.server = e.serverAfter r e'.net l := by
  obtain ⟨dl, hdl, h⟩ := Option.bind_eq_some_iff.mp h
  obtain ⟨net, hnet, rfl⟩ := Option.map_eq_some_iff.mp h
  exact ⟨dl, hdl, hnet, rfl⟩

theorem net_reachable (h : (machine r).Reachable Ok e) : Duplex.machine.Reachable BothOk e.net := by
  have hinit : ∀ e, (machine r).Init e → Duplex.machine.Init e.net := fun _ h0 => h0.1
  refine h.project Hosted.net hinit ?_
  intro e l e' hok hs
  obtain ⟨dl, hdl, hnet, -⟩ := step_cases hs
  exact .inr ⟨dl, hok dl hdl, hnet⟩

theorem serves (h : (machine r).Reachable Ok e) (hopen : e.net.right.conn.state.rank ≤ 1) :
    Worker.Serves r e.net.right e.server := by
  have hinit : ∀ e, (machine r).Init e → e.net.right.conn.state.rank ≤ 1 →
      Worker.Serves r e.net.right e.server := by
    rintro e ⟨hnet, hidle⟩ -
    rw [hidle]
    exact Worker.serves_init hnet.right
  have hstep : ∀ e l e', (machine r).Reachable Ok e →
      (e.net.right.conn.state.rank ≤ 1 → Worker.Serves r e.net.right e.server) → e.Ok l →
      (machine r).step e l = some e' → e'.net.right.conn.state.rank ≤ 1 →
      Worker.Serves r e'.net.right e'.server := by
    intro e l e' hreach hserves hok hs hopen
    have hreach' := Machine.Reachable.step l hreach hok hs
    obtain ⟨dl, hdl, hnet, hserver⟩ := step_cases hs
    cases l with
    | client l =>
      cases hdl
      have hright : e'.net.right = e.net.right := congrArg Pausing.solo (Duplex.left_turn hnet).2
      rw [hright] at hopen ⊢
      rw [hserver]
      exact hserves hopen
    | server l =>
      obtain ⟨l₁, hl₁, rfl⟩ := Option.map_eq_some_iff.mp hdl
      have hs₁ := (Duplex.right_turn hnet).1
      rw [hserver]
      exact Worker.serves_step (hserves (Nat.le_trans (Solo.step_forward hs₁) hopen))
        (right_inbound (net_reachable hreach)) (right_inbound (net_reachable hreach')) hopen hl₁ hs₁
  exact h.invariant hinit hstep hopen

/-- **What the echo server gives back is what it was sent.** In every run in which at both ends
sends find their turn and reads their place, and neither end stops or closes (`Ok`), as long
as the connection of the server is not shut down: what the client has got back, what is on
its way back, what the server has in hand and what is on its way there is, in this order, what
the client has sent. -/
theorem echo_end_to_end (hr : r.getMessage = []) (h : (machine r).Reachable Ok e)
    (hopen : e.net.right.conn.state.rank ≤ 1) :
    e.net.left.consumed ++ e.net.left.conn.inputBuffer.readable ++
      (e.net.toLeft.bytes ++ e.net.right.conn.queued ++ Solo.suspended e.net.right.stack) ++
      e.server.inHand e.net.right ++
      (e.net.toRight.bytes ++ e.net.left.conn.queued ++ Solo.suspended e.net.left.stack) =
      e.net.left.sent := by
  have hnet := net_reachable h
  have hhand : e.net.right.sent ++ e.server.inHand e.net.right = e.net.right.delivered := by
    rw [(serves h hopen).hand, Worker.given, hr]
    split <;> rfl
  rw [(left_inbound hnet).stream, ← rightward hnet, ← hhand, ← leftward hnet]

/-- A server that has three bytes in hand: one came back, one is on its way back. -/
def threeBytes (statements : List Label) : List Label :=
  [.client (.call .onEstablishing 0), .client (.ret 1), .server (.loop (.call .onEstablishing 0)),
    .server (.loop (.ret 1)), .client (.call (.send [1, 2]) 2), .client (.writeComplete 2 0),
    .server (.loop (.readComplete 2 [1, 2] 0))] ++ statements ++
  [.server (.loop (.ret 3)), .server (.loop (.writeComplete 2 0)), .client (.readComplete 1 [1] 0),
    .client (.call (.consume 1) 0), .client (.ret 4), .client (.call (.send [3]) 5),
    .client (.writeComplete 1 0), .server (.loop (.readComplete 1 [3] 0))]

/-- The theorem at both servers, with a byte that came back, one on its way back and one in
the hand of the server. -/
theorem echo_of_three_bytes :
    (∃ e, (machine .echoServer).Reachable Ok e ∧ e.net.left.consumed = [1] ∧
      e.net.left.consumed ++ e.net.left.conn.inputBuffer.readable ++
        (e.net.toLeft.bytes ++ e.net.right.conn.queued ++ Solo.suspended e.net.right.stack) ++
        e.server.inHand e.net.right ++
        (e.net.toRight.bytes ++ e.net.left.conn.queued ++ Solo.suspended e.net.left.stack) =
        [1, 2, 3]) ∧
    ∃ e, (machine .pingpongServer).Reachable Ok e ∧ e.net.left.consumed = [1] ∧
      e.net.left.consumed ++ e.net.left.conn.inputBuffer.readable ++
        (e.net.toLeft.bytes ++ e.net.right.conn.queued ++ Solo.suspended e.net.right.stack) ++
        e.server.inHand e.net.right ++
        (e.net.toRight.bytes ++ e.net.left.conn.queued ++ Solo.suspended e.net.left.stack) =
        [1, 2, 3] := by
  have hinit : ∀ r, (machine r).Init ⟨Duplex.plain, Worker.idle⟩ :=
    fun _ => ⟨Duplex.plain_init, rfl⟩
  constructor
  · obtain ⟨e, he, hc, hopen, hsent⟩ := (machine .echoServer).exists_of_run Ok (hinit _)
      (threeBytes [.server (.statement 0), .server (.statement 2)])
      (fun e => e.net.left.consumed = [1] ∧ e.net.right.conn.state.rank ≤ 1 ∧
        e.net.left.sent = [1, 2, 3]) (by decide +kernel)
    exact ⟨e, he, hc, hsent ▸ echo_end_to_end rfl he hopen⟩
  · obtain ⟨e, he, hc, hopen, hsent⟩ := (machine .pingpongServer).exists_of_run Ok (hinit _)
      (threeBytes [.server (.statement 2), .server (.statement 0)])
      (fun e => e.net.left.consumed = [1] ∧ e.net.right.conn.state.rank ≤ 1 ∧
        e.net.left.sent = [1, 2, 3]) (by decide +kernel)
    exact ⟨e, he, hc, hsent ▸ echo_end_to_end rfl he hopen⟩

end Hosted

/-! ## Ping-pong -/

/-- What goes round between two that give everything back is what came in at first, up to a
rotation. -/
theorem isRotated_of_append {α : Type} {block back round : List α}
    (h : back ++ round = block ++ back) : List.IsRotated block round := by
  induction hk : back.length using Nat.strong_induction_on generalizing back with
  | _ k ih =>
    rcases List.append_eq_append_iff.mp h with ⟨rest, rfl, rfl⟩ | ⟨rest, hback, hrest⟩
    · -- the block has not gone round once
      exact List.isRotated_append
    · cases block with
      | nil =>
        rw [List.nil_append] at hback
        rw [hback] at hrest
        have hnil : round = [] := List.append_right_eq_self.mp hrest.symm
        rw [hnil]
      | cons a as =>
        -- take one round off
        refine ih rest.length ?_ (hrest.symm.trans hback) rfl
        rw [← hk, hback, List.length_append, List.length_cons]
        omega

/-- A session of the ping-pong client and the server. -/
structure Rally where
  net : Duplex
  client : Worker
  server : Worker
deriving DecidableEq, Repr

namespace Rally

inductive Label where
  | client (l : Worker.Label)
  | server (l : Worker.Label)
deriving DecidableEq, Repr

def duplexLabel (p : Rally) : Label → Option Duplex.Label
  | .client l => (p.client.soloLabel p.net.left l).map fun l => .left (.turn l)
  | .server l => (p.server.soloLabel p.net.right l).map fun l => .right (.turn l)

def after (block : List UInt8) (p : Rally) (net : Duplex) : Label → Rally
  | .client l => ⟨net, p.client.next (.session block) p.net.left net.left l, p.server⟩
  | .server l => ⟨net, p.client, p.server.next .pingpongServer p.net.right net.right l⟩

def step (block : List UInt8) (p : Rally) (l : Label) : Option Rally :=
  (p.duplexLabel l).bind fun dl => (p.net.step dl).map fun net => p.after block net l

def machine (block : List UInt8) : Machine Rally Label :=
  ⟨fun p => Duplex.Init p.net ∧ p.client = Worker.idle ∧ p.server = Worker.idle, step block⟩

def Ok (p : Rally) (l : Label) : Prop := ∀ dl ∈ p.duplexLabel l, BothOk p.net dl

instance (p : Rally) (l : Label) : Decidable (p.Ok l) :=
  inferInstanceAs (Decidable (∀ dl ∈ p.duplexLabel l, BothOk p.net dl))

variable {block : List UInt8} {p p' : Rally} {l : Label}

theorem step_cases (h : step block p l = some p') :
    ∃ dl net, p.duplexLabel l = some dl ∧ p.net.step dl = some net ∧ p' = p.after block net l := by
  obtain ⟨dl, hdl, h⟩ := Option.bind_eq_some_iff.mp h
  obtain ⟨net, hnet, rfl⟩ := Option.map_eq_some_iff.mp h
  exact ⟨dl, net, hdl, hnet, rfl⟩

theorem after_net (net : Duplex) (l : Label) : (p.after block net l).net = net := by
  cases l <;> rfl

theorem net_reachable (h : (machine block).Reachable Ok p) :
    Duplex.machine.Reachable BothOk p.net := by
  have hinit : ∀ p, (machine block).Init p → Duplex.machine.Init p.net := fun _ h0 => h0.1
  refine h.project Rally.net hinit ?_
  intro p l p' hok hs
  obtain ⟨dl, net, hdl, hnet, rfl⟩ := step_cases hs
  rw [after_net]
  exact .inr ⟨dl, hok dl hdl, hnet⟩

/-- Both connections are up. -/
def Up (p : Rally) : Prop :=
  p.net.left.conn.state.rank ≤ 1 ∧ p.net.right.conn.state.rank ≤ 1

instance (p : Rally) : Decidable p.Up := inferInstanceAs (Decidable (_ ∧ _))

/-- Both ends serve. -/
def Serve (block : List UInt8) (p : Rally) : Prop :=
  Worker.Serves (.session block) p.net.left p.client ∧
    Worker.Serves .pingpongServer p.net.right p.server

theorem serve (h : (machine block).Reachable Ok p) (hup : p.Up) : p.Serve block := by
  have hinit : ∀ p, (machine block).Init p → p.Up → p.Serve block := by
    rintro p ⟨hnet, hclient, hserver⟩ -
    rw [Serve, hclient, hserver]
    exact ⟨Worker.serves_init hnet.left, Worker.serves_init hnet.right⟩
  have hstep : ∀ p l p', (machine block).Reachable Ok p → (p.Up → p.Serve block) → p.Ok l →
      (machine block).step p l = some p' → p'.Up → p'.Serve block := by
    intro p l p' hreach hserve hok hs hup
    have hnow := net_reachable hreach
    have hthen := net_reachable (Machine.Reachable.step l hreach hok hs)
    obtain ⟨dl, net, hdl, hnet, rfl⟩ := step_cases hs
    rw [after_net] at hthen
    cases l with
    | client l =>
      obtain ⟨l₁, hl₁, rfl⟩ := Option.map_eq_some_iff.mp hdl
      obtain ⟨hs₁, hother⟩ := Duplex.left_turn hnet
      have hright : net.right = p.net.right := congrArg Pausing.solo hother
      obtain ⟨hclient, hserver⟩ :=
        hserve ⟨Nat.le_trans (Solo.step_forward hs₁) hup.1, hright ▸ hup.2⟩
      exact ⟨Worker.serves_step hclient (left_inbound hnow) (left_inbound hthen) hup.1 hl₁ hs₁,
        hright.symm ▸ hserver⟩
    | server l =>
      obtain ⟨l₁, hl₁, rfl⟩ := Option.map_eq_some_iff.mp hdl
      obtain ⟨hs₁, hother⟩ := Duplex.right_turn hnet
      have hleft : net.left = p.net.left := congrArg Pausing.solo hother
      obtain ⟨hclient, hserver⟩ :=
        hserve ⟨hleft ▸ hup.1, Nat.le_trans (Solo.step_forward hs₁) hup.2⟩
      exact ⟨hleft.symm ▸ hclient,
        Worker.serves_step hserver (right_inbound hnow) (right_inbound hthen) hup.2 hl₁ hs₁⟩
  exact h.invariant hinit hstep hup

/-- What is between the two users: in the hand of the session, on its way to it, in the hand
of the server, and on its way there. -/
def round (p : Rally) : List UInt8 :=
  p.client.inHand p.net.left ++
    (p.net.toLeft.bytes ++ p.net.right.conn.queued ++ Solo.suspended p.net.right.stack) ++
    p.server.inHand p.net.right ++
    (p.net.toRight.bytes ++ p.net.left.conn.queued ++ Solo.suspended p.net.left.stack)

/-- **The block goes round.** In every run of a session and the server in which at both ends
sends find their turn and reads their place, and neither end stops or closes (`Ok`), from the
moment the session is connected and as long as neither connection is shut down, the bytes
between the two users are the block of the session, up to a rotation: none is lost, doubled or
overtaken. -/
theorem block_goes_round (h : (machine block).Reachable Ok p) (hup : p.Up)
    (hconnected : p.net.left.conn.state ≠ .kConnecting) : List.IsRotated block p.round := by
  have hnet := net_reachable h
  obtain ⟨hclient, hserver⟩ := serve h hup
  have hgiven : p.net.right.sent ++ p.server.inHand p.net.right = p.net.right.delivered := by
    rw [hserver.hand, Worker.given]
    split <;> rfl
  have hopened : p.net.left.sent ++ p.client.inHand p.net.left = block ++ p.net.left.delivered := by
    rw [hclient.hand, Worker.given, if_neg hconnected]
    rfl
  have hback := leftward hnet
  have hthere := rightward hnet
  generalize hx : p.net.toLeft.bytes ++ p.net.right.conn.queued ++
    Solo.suspended p.net.right.stack = x
  generalize hy : p.net.toRight.bytes ++ p.net.left.conn.queued ++
    Solo.suspended p.net.left.stack = y
  rw [hx] at hback
  rw [hy] at hthere
  -- one round, from what the session was given to what it gives
  have hround : p.net.left.delivered ++
      (x ++ p.server.inHand p.net.right ++ y ++ p.client.inHand p.net.left) =
      block ++ p.net.left.delivered := by
    rw [← hopened, ← hthere, ← hgiven, ← hback]
    simp only [List.append_assoc]
  have hshift : p.round = p.client.inHand p.net.left ++ (x ++ p.server.inHand p.net.right ++ y) := by
    rw [round, hx, hy]
    simp only [List.append_assoc]
  rw [hshift]
  exact (isRotated_of_append hround).trans List.isRotated_append

/-- The theorem at a run in which the block of three bytes has partly come back. -/
theorem block_of_three_goes_round :
    ∃ p, (machine [1, 2, 3]).Reachable Ok p ∧ p.round = [2, 3, 1] ∧
      List.IsRotated [1, 2, 3] p.round := by
  have hinit : (machine [1, 2, 3]).Init ⟨Duplex.plain, Worker.idle, Worker.idle⟩ :=
    ⟨Duplex.plain_init, rfl, rfl⟩
  obtain ⟨p, hp, hround, hup, hc⟩ := (machine [1, 2, 3]).exists_of_run Ok hinit
    [.client (.loop (.call .onEstablishing 0)), .client (.statement 1), .client (.loop (.ret 2)),
      .server (.loop (.call .onEstablishing 0)), .server (.loop (.ret 1)),
      .client (.loop (.writeComplete 2 3)), .server (.loop (.readComplete 2 [1, 2] 0)),
      .server (.statement 2), .server (.statement 0), .server (.loop (.ret 3)),
      .server (.loop (.writeComplete 1 4)), .client (.loop (.readComplete 1 [1] 0)),
      .client (.statement 0)]
    (fun p => p.round = [2, 3, 1] ∧ p.Up ∧ p.net.left.conn.state ≠ .kConnecting)
    (by decide +kernel)
  exact ⟨p, hp, hround, block_goes_round hp hup hc⟩

end Rally

end Taotu.Echo
