import Taotu.Lib.Framing
import Taotu.Connection.Duplex

/-!
# Taotu.Connection.Messages — messages over a connection

A codec turns messages into frames and finds the frames in the input buffer
again. Here both ends of a TCP connection have one. A message that is sent is
encoded and handed to `Connecting::Send`; the message callback of the connection
is the loop of the codec's `OnMessage`, which looks at the front of the input
buffer, hands a message over and drops its frame, until no frame is there. The
frames are cut anywhere by the network, a read may end inside of one or hold
many, and the user may send at any time, also from inside of the loop.

1. **Machine.** `Conversation` adds to `Duplex` the loop at each end and the
   messages sent and got. A front that is no frame ends the loop and shuts down
   the write side.
2. **Codecs.** `Codec.Sound` is what a codec has to satisfy. It is met by the RPC
   codec and by that of the chat room.
3. **Link.** `messages_arrive`: in every run what an end has got is the front of
   what the other has sent, no front is rejected, and when no byte is left on
   the way it is all of it.

`header` is the number of bytes that `OnMessage` drops before it hands a message
over; the rest of the frame is dropped behind the callback.
-/

namespace Taotu

open Lib

/-- An end of a connection. -/
inductive Side where
  | left
  | right
deriving DecidableEq, Repr

namespace Side

def other : Side → Side
  | left => right
  | right => left

@[simp] theorem other_other (side : Side) : side.other.other = side := by cases side <;> rfl

theorem other_ne (side : Side) : side.other ≠ side := by cases side <;> decide

/-- A turn of the end at this side. -/
def label : Side → Solo.Label → Duplex.Label
  | left, l => .left (.turn l)
  | right, l => .right (.turn l)

end Side

namespace Duplex

def solo (d : Duplex) : Side → Solo
  | .left => d.left
  | .right => d.right

/-- The direction from a side to the other. -/
def pipe (d : Duplex) : Side → Pipe
  | .left => d.toRight
  | .right => d.toLeft

/-- What is between a sender and the input buffer of the other end. -/
def underWay (d : Duplex) (side : Side) : List UInt8 :=
  (d.pipe side).bytes ++ (d.solo side).conn.queued ++ Solo.suspended (d.solo side).stack

variable {d d' : Duplex}

/-- A step of one end leaves the other alone. -/
theorem step_side {side : Side} {l : Solo.Label} (h : d.step (side.label l) = some d') :
    (d.solo side).step l = some (d'.solo side) ∧ d'.solo side.other = d.solo side.other := by
  cases side with
  | left => exact ⟨(left_turn h).1, congrArg Pausing.solo (left_turn h).2⟩
  | right => exact ⟨(right_turn h).1, congrArg Pausing.solo (right_turn h).2⟩

theorem ends_label {okLeft okRight : Solo → Solo.Label → Prop} {l : Solo.Label}
    (side : Side) (hl : okLeft (d.solo side) l) (hr : okRight (d.solo side) l) :
    Ends okLeft okRight d (side.label l) := by
  cases side
  · exact hl
  · exact hr

section Streams

variable (h : machine.Reachable BothOk d)
include h

theorem inbound (side : Side) : (d.solo side).InboundInv := by
  cases side
  · exact left_inbound h
  · exact right_inbound h

/-- What an end has sent is what the other was given and what is under way. -/
theorem outward (side : Side) :
    (d.solo side.other).delivered ++ d.underWay side = (d.solo side).sent := by
  cases side
  · exact rightward h
  · exact leftward h

end Streams

end Duplex

/-! ## Machine -/

/-- A codec: what its `OnMessage` finds at the front of a buffer, and what its `Send` hands
to the connection. -/
structure Codec (μ ε : Type) where
  look : IoBuffer → Verdict μ ε
  encode : μ → Except Fault (List UInt8)
  header : ℕ

namespace Messages

/-- Where the loop of `OnMessage` is: not running, in front of a look, or behind a callback
with `n` bytes of its frame to drop. -/
inductive Loop where
  | out
  | looking
  | refreshing (n : ℕ)
deriving DecidableEq, Repr

/-- The bytes of a message that was handed over that are still in the buffer. -/
def Loop.rest : Loop → ℕ
  | refreshing n => n
  | out | looking => 0

structure End (μ ε : Type) where
  loop : Loop
  sent : List μ
  got : List μ
  errors : List ε
deriving DecidableEq, Repr

def End.new (μ ε : Type) : End μ ε := ⟨.out, [], [], []⟩

structure Conversation (μ ε : Type) where
  net : Duplex
  ends : Side → End μ ε

namespace Conversation

variable {μ ε : Type}

inductive Label (μ : Type) where
  | loop (side : Side) (l : Solo.Label)
  | send (side : Side) (m : μ) (ans : ℕ)
  | look (side : Side)
  | refresh (side : Side)
deriving DecidableEq, Repr

/-- Replace the network and one end. -/
def set (s : Conversation μ ε) (net : Duplex) (side : Side) (e : End μ ε) : Conversation μ ε :=
  ⟨net, Function.update s.ends side e⟩

/-- A call on the connection of an end. -/
def call (s : Conversation μ ε) (side : Side) (a : Act) (ans : ℕ) : Option Duplex :=
  s.net.step (side.label (.call a ans))

/-- The loop starts when the message callback is entered. -/
def entered (s' : Solo) (e : End μ ε) : Solo.Label → End μ ε
  | .readComplete _ _ _ => if s'.stack = [.readRest false] then { e with loop := .looking } else e
  | .call _ _ | .ret _ | .writeComplete _ _ => e

/-- A message counts as sent if the connection takes it. -/
def noteSent (s s' : Solo) (e : End μ ε) (m : μ) : End μ ε :=
  if s.conn.state = .kConnected ∧ s'.fault = none then { e with sent := e.sent ++ [m] } else e

/-- The loop at this end is at `loop`, and no `Send` of it is suspended. -/
def At (s : Conversation μ ε) (side : Side) (loop : Loop) : Prop :=
  (s.ends side).loop = loop ∧ ¬ Solo.InSend (s.net.solo side).stack

instance (s : Conversation μ ε) (side : Side) (loop : Loop) : Decidable (s.At side loop) :=
  inferInstanceAs (Decidable (_ ∧ _))

def step (k : Codec μ ε) (s : Conversation μ ε) : Label μ → Option (Conversation μ ε)
  | .loop side l =>
    if (s.net.solo side).LoopStep ((s.ends side).loop ≠ .out) l then
      (s.net.step (side.label l)).map fun net =>
        s.set net side (entered (net.solo side) (s.ends side) l)
    else none
  | .send side m ans =>
    match k.encode m with
    | .error _ => none
    | .ok bytes =>
      (s.call side (.send bytes) ans).map fun net =>
        s.set net side (noteSent (s.net.solo side) (net.solo side) (s.ends side) m)
  | .look side =>
    if s.At side .looking then
      match k.look (s.net.solo side).conn.inputBuffer with
      | .wait => some (s.set s.net side { s.ends side with loop := .out })
      | .reject e =>
        (s.call side .shutDownWrite 0).map fun net =>
          s.set net side { s.ends side with loop := .out, errors := (s.ends side).errors ++ [e] }
      | .accept m n =>
        (if k.header = 0 then some s.net else s.call side (.consume k.header) 0).map fun net =>
          s.set net side
            { s.ends side with loop := .refreshing (n - k.header), got := (s.ends side).got ++ [m] }
    else none
  | .refresh side =>
    if s.At side (.refreshing (s.ends side).loop.rest) then
      (s.call side (.consume (s.ends side).loop.rest) 0).map fun net =>
        s.set net side { s.ends side with loop := .looking }
    else none

def machine (k : Codec μ ε) : Machine (Conversation μ ε) (Label μ) :=
  ⟨fun s => Duplex.Init s.net ∧ ∀ side, s.ends side = .new μ ε, step k⟩

/-! ## What a step does to the two ends -/

section Steps

variable {s s' : Solo} {l : Solo.Label} {busy : Bool}

/-- The event loop sends and consumes nothing, and the input buffer only grows. -/
theorem loop_keeps (hin : s.InboundInv) (hin' : s'.InboundInv) (hl : s.LoopStep busy l)
    (hs : s.step l = some s') :
    s'.sent = s.sent ∧ s'.consumed = s.consumed ∧
      s.conn.inputBuffer.readable <+: s'.conn.inputBuffer.readable := by
  rcases Solo.step_cases hs with hp | ⟨e, rfl⟩
  · cases hp with
    | call a ans t hallowed ht =>
      cases a with
      | onEstablishing =>
        have hbuf := Connecting.exec_input (fun _ h => by cases h) ht
        refine ⟨rfl, rfl, ?_⟩
        show _ <+: t.conn.inputBuffer.readable
        rw [hbuf]
      | _ => exact absurd hl not_false
    | ret ans f rest t hstack ht =>
      refine ⟨rfl, rfl, ?_⟩
      show _ <+: t.conn.inputBuffer.readable
      rw [Connecting.resume_input ht]
    | readComplete res data ans key ctx b extra t hstack hop hlen hle hfill ht =>
      refine ⟨rfl, rfl, data, ?_⟩
      have hafter := hin'.stream
      change s.consumed ++ _ = s.delivered ++ data at hafter
      rw [← hin.stream, List.append_assoc] at hafter
      exact (List.append_cancel_left hafter).symm
    | writeComplete res ans key ctx data =>
      refine ⟨rfl, rfl, ?_⟩
      show _ <+: (s.conn.onWriteComplete ⟨res, false⟩ ans).conn.inputBuffer.readable
      rw [Connecting.onWriteComplete_input]
  · exact ⟨rfl, rfl, List.prefix_refl _⟩

/-- `Send` hands its bytes to a connected connection, or does nothing. -/
theorem send_keeps {bytes : List UInt8} {ans : ℕ} (hs : s.step (.call (.send bytes) ans) = some s') :
    (s'.sent = s.sent ++
      if s.conn.state = .kConnected ∧ s'.fault = none then bytes else []) ∧
      s'.consumed = s.consumed ∧ s'.conn.inputBuffer = s.conn.inputBuffer ∧
      ∀ f ∈ s.stack, f ∈ s'.stack := by
  rcases Solo.step_cases hs with hp | ⟨e, rfl⟩
  · have hstack := Solo.call_stack hp
    have hfault : s'.fault = none := by
      rw [Solo.performed_fault hp]
      rw [Solo.step] at hs
      split at hs
      · next hen => exact hen.1
      · cases hs
    cases hp with
    | call _ _ t hallowed ht =>
      refine ⟨?_, ?_, Connecting.send_input ht, hstack⟩
      · simp only [hfault, and_true]
        show (s.note _).sent = _
        rw [Solo.note]
        split <;> simp
      · show (s.note _).consumed = _
        rw [Solo.note]
        split <;> rfl
  · refine ⟨?_, rfl, rfl, fun _ hf => hf⟩
    rw [if_neg (by simp), List.append_nil]

theorem consume_keeps {n ans : ℕ} (hin : s.InboundInv) (hs : s.step (.call (.consume n) ans) = some s') :
    s'.sent = s.sent ∧ s'.consumed = s.consumed ++ s.conn.inputBuffer.readable.take n ∧
      s'.conn.inputBuffer.readable = s.conn.inputBuffer.readable.drop n ∧
      ∀ f ∈ s.stack, f ∈ s'.stack := by
  have hp : s.Performed (.call (.consume n) ans) s' := by
    rw [Solo.step] at hs
    split at hs
    · next hen =>
      cases hs
      exact Solo.perform_ok hen.2 rfl
    · cases hs
  obtain ⟨hsent, -, hcons, hread⟩ := Solo.call_consume hin hp
  exact ⟨hsent, hcons, hread, Solo.call_stack hp⟩

end Steps

end Conversation

end Messages

/-! ## Codecs -/

/-- What a codec has to satisfy: its looks are lawful decisions on the readable bytes, as long
as there are fewer than `limit`, and what it encodes is one frame. -/
structure Codec.Sound {μ ε : Type} (k : Codec μ ε) where
  front : List UInt8 → Verdict μ ε
  lawful : Lawful front
  limit : ℕ
  look_eq : ∀ {io : IoBuffer}, io.Wf → io.readable.length < limit → k.look io = front io.readable
  Fits : μ → Prop
  frame : μ → List UInt8
  encode_eq : ∀ {m}, Fits m → k.encode m = .ok (frame m)
  isFrame : ∀ {m}, Fits m → IsFrame front (frame m) m
  header_le : ∀ {m}, Fits m → k.header ≤ (frame m).length

namespace Messages

open Conversation

variable {μ ε : Type} {k : Codec μ ε} {P : k.Sound}

/-! ## One direction -/

/-- How the bytes and the messages of one direction belong together. -/
structure Link (P : k.Sound) (src dst : Solo) (sender receiver : End μ ε) : Prop where
  bytes : src.sent = (sender.sent.map P.frame).flatten
  fits : ∀ m ∈ sender.sent, P.Fits m
  ahead : receiver.got <+: sender.sent
  got : dst.consumed ++ dst.conn.inputBuffer.readable.take receiver.loop.rest =
    (receiver.got.map P.frame).flatten
  rest_le : receiver.loop.rest ≤ dst.conn.inputBuffer.readable.length
  errors : receiver.errors = []
  /-- A running loop is on the stack. -/
  running : receiver.loop ≠ .out → ∃ f ∈ dst.stack, ¬ Solo.InSend [f]

namespace Link

variable {src src' dst dst' : Solo} {a a' b b' : End μ ε}

/-- A step of the sender that sends nothing, -/
theorem of_src (h : Link P src dst a b) (hsent : src'.sent = src.sent) (ha : a'.sent = a.sent) :
    Link P src' dst a' b :=
  ⟨by rw [hsent, ha, h.bytes], ha ▸ h.fits, ha ▸ h.ahead, h.got, h.rest_le, h.errors, h.running⟩

/-- and one that sends a message. -/
theorem of_send (h : Link P src dst a b) {m : μ} (hm : P.Fits m)
    (hsent : src'.sent = src.sent ++ P.frame m) (ha : a'.sent = a.sent ++ [m]) :
    Link P src' dst a' b := by
  refine ⟨?_, ?_, ?_, h.got, h.rest_le, h.errors, h.running⟩
  · rw [hsent, ha, h.bytes]
    simp
  · intro m' hm'
    rw [ha, List.mem_append, List.mem_singleton] at hm'
    rcases hm' with hm' | rfl
    · exact h.fits m' hm'
    · exact hm
  · rw [ha]
    exact h.ahead.trans (List.prefix_append _ _)

/-- A step of the receiver that takes nothing out of the buffer. -/
theorem of_dst (h : Link P src dst a b) (hcons : dst'.consumed = dst.consumed)
    (hread : dst.conn.inputBuffer.readable <+: dst'.conn.inputBuffer.readable)
    (hgot : b'.got = b.got) (hrest : b'.loop.rest = b.loop.rest) (herr : b'.errors = [])
    (hrun : b'.loop ≠ .out → ∃ f ∈ dst'.stack, ¬ Solo.InSend [f]) : Link P src dst' a b' := by
  refine ⟨h.bytes, h.fits, hgot ▸ h.ahead, ?_, ?_, herr, hrun⟩
  · obtain ⟨more, hmore⟩ := hread
    rw [hcons, hgot, hrest, ← hmore, List.take_append_of_le_length h.rest_le, h.got]
  · rw [hrest]
    exact Nat.le_trans h.rest_le hread.length_le

section Look

variable {rest : List UInt8} (h : Link P src dst a b) (hin : dst.InboundInv)
  (hout : dst.delivered ++ rest = src.sent)
include h hin hout

/-- What was sent and not got is, frame by frame, in the buffer and under way. -/
theorem unread (hloop : b.loop.rest = 0) :
    ∃ ms, a.sent = b.got ++ ms ∧
      dst.conn.inputBuffer.readable ++ rest = (ms.map P.frame).flatten := by
  obtain ⟨ms, hms⟩ := h.ahead
  refine ⟨ms, hms.symm, ?_⟩
  have hgot := h.got
  rw [hloop, List.take_zero, List.append_nil] at hgot
  rw [h.bytes, ← hms, ← hin.stream, List.map_append, List.flatten_append, ← hgot,
    List.append_assoc] at hout
  exact List.append_cancel_left hout

/-- **The front of the buffer is the next message**: what a look accepts is the frame of the
next message that was sent, -/
theorem look_accept (hloop : b.loop.rest = 0) {m : μ} {n : ℕ}
    (hacc : P.front dst.conn.inputBuffer.readable = .accept m n) :
    P.Fits m ∧ b.got ++ [m] <+: a.sent ∧ n ≤ dst.conn.inputBuffer.readable.length ∧
      dst.conn.inputBuffer.readable.take n = P.frame m := by
  obtain ⟨ms, hsent, hbytes⟩ := h.unread hin hout hloop
  have hle := (P.lawful.accept_pos hacc).2
  have hmore := P.lawful.accept_append rest hacc
  rw [hbytes] at hmore
  cases ms with
  | nil =>
    rw [List.map_nil, List.flatten_nil, P.lawful.nil_wait] at hmore
    cases hmore
  | cons m' ms =>
    have hfits : P.Fits m' := h.fits m' (by simp [hsent])
    -- the frame that was sent next is accepted whatever follows it
    have hframe := P.lawful.accept_append (ms.map P.frame).flatten (P.isFrame hfits)
    rw [List.map_cons, List.flatten_cons, hframe] at hmore
    cases hmore
    refine ⟨hfits, ⟨ms, by simp [hsent]⟩, hle, ?_⟩
    rw [← List.take_append_of_le_length hle, hbytes, List.map_cons, List.flatten_cons,
      List.take_left]

/-- and no look rejects. -/
theorem look_reject (hloop : b.loop.rest = 0) (e : ε) :
    P.front dst.conn.inputBuffer.readable ≠ .reject e := by
  intro hrej
  obtain ⟨ms, hsent, hbytes⟩ := h.unread hin hout hloop
  obtain ⟨e', hmore⟩ := P.lawful.reject_append rest hrej
  rw [hbytes] at hmore
  cases ms with
  | nil =>
    rw [List.map_nil, List.flatten_nil, P.lawful.nil_wait] at hmore
    cases hmore
  | cons m' ms =>
    have hfits : P.Fits m' := h.fits m' (by simp [hsent])
    have hframe := P.lawful.accept_append (ms.map P.frame).flatten (P.isFrame hfits)
    rw [List.map_cons, List.flatten_cons, hframe] at hmore
    cases hmore

end Look

/-- A message is handed over when `n` bytes of its frame are left to drop. -/
theorem of_accept (h : Link P src dst a b) {m : μ} {n : ℕ} (hloop : b.loop.rest = 0)
    (hahead : b.got ++ [m] <+: a.sent) (hn : n ≤ dst.conn.inputBuffer.readable.length)
    (htake : dst.conn.inputBuffer.readable.take n = P.frame m) {i : ℕ} (hi : i ≤ n)
    (hcons : dst'.consumed = dst.consumed ++ dst.conn.inputBuffer.readable.take i)
    (hread : dst'.conn.inputBuffer.readable = dst.conn.inputBuffer.readable.drop i)
    (hrun : ∃ f ∈ dst'.stack, ¬ Solo.InSend [f]) :
    Link P src dst' a { b with loop := .refreshing (n - i), got := b.got ++ [m] } := by
  have hgot := h.got
  rw [hloop, List.take_zero, List.append_nil] at hgot
  refine ⟨h.bytes, h.fits, hahead, ?_, ?_, h.errors, fun _ => hrun⟩
  · show dst'.consumed ++ dst'.conn.inputBuffer.readable.take (n - i) = _
    have hsplit : dst.conn.inputBuffer.readable.take i ++
        (dst.conn.inputBuffer.readable.drop i).take (n - i) =
        dst.conn.inputBuffer.readable.take n := by
      rw [← List.take_add, Nat.add_sub_cancel' hi]
    rw [hcons, hread, List.append_assoc, hsplit, htake, hgot]
    simp
  · show n - i ≤ dst'.conn.inputBuffer.readable.length
    rw [hread, List.length_drop]
    omega

/-- The rest of its frame is dropped. -/
theorem of_refresh (h : Link P src dst a b)
    (hcons : dst'.consumed = dst.consumed ++ dst.conn.inputBuffer.readable.take b.loop.rest)
    (hrun : ∃ f ∈ dst'.stack, ¬ Solo.InSend [f]) :
    Link P src dst' a { b with loop := .looking } := by
  refine ⟨h.bytes, h.fits, h.ahead, ?_, Nat.zero_le _, h.errors, fun _ => hrun⟩
  show dst'.consumed ++ dst'.conn.inputBuffer.readable.take 0 = _
  rw [List.take_zero, List.append_nil, hcons, h.got]

end Link

/-! ## Every run -/

namespace Conversation

/-- The condition on a step: the connections find their sends in turn and their reads in
place, a message fits a frame, and a look has a buffer below the limit of the codec. -/
def Ok (P : k.Sound) (s : Conversation μ ε) : Label μ → Prop
  | .loop side l => Duplex.EndOk (s.net.solo side) l
  | .send side m ans => P.Fits m ∧ Duplex.EndOk (s.net.solo side) (.call (.send (P.frame m)) ans)
  | .look side => (s.net.solo side).conn.inputBuffer.readable.length < P.limit
  | .refresh _ => True

instance [DecidablePred P.Fits] (s : Conversation μ ε) : ∀ l, Decidable (Ok P s l)
  | .loop _ _ => inferInstanceAs (Decidable (_ ∧ _))
  | .send _ _ _ => inferInstanceAs (Decidable (_ ∧ _))
  | .look _ => inferInstanceAs (Decidable (_ < _))
  | .refresh _ => inferInstanceAs (Decidable True)

/-- The connection takes the message that is sent. -/
def Taken (k : Codec μ ε) (s : Conversation μ ε) : Label μ → Prop
  | .send side m ans =>
    ∀ s' ∈ step k s (.send side m ans), (s'.ends side).sent = (s.ends side).sent ++ [m]
  | .loop _ _ | .look _ | .refresh _ => True

instance [DecidableEq μ] (s : Conversation μ ε) : ∀ l, Decidable (Taken k s l)
  | .loop _ _ => inferInstanceAs (Decidable True)
  | .send side m ans => Option.decidableForallMem (step k s (.send side m ans))
  | .look _ => inferInstanceAs (Decidable True)
  | .refresh _ => inferInstanceAs (Decidable True)

/-- Both directions. -/
def Links (P : k.Sound) (s : Conversation μ ε) : Prop :=
  ∀ side : Side, Link P (s.net.solo side) (s.net.solo side.other) (s.ends side) (s.ends side.other)

variable {s s' : Conversation μ ε} {net : Duplex} {e : End μ ε}

theorem set_same (side : Side) : (s.set net side e).ends side = e := Function.update_self ..

theorem set_ne {side sd : Side} (h : sd ≠ side) : (s.set net side e).ends sd = s.ends sd :=
  Function.update_of_ne h ..

theorem set_other (side : Side) : (s.set net side e).ends side.other = s.ends side.other :=
  set_ne side.other_ne

/-- A step of one end is judged as one of the sender and as one of the receiver. -/
theorem links_set {side : Side} (hother : net.solo side.other = s.net.solo side.other)
    (hsrc : Link P (net.solo side) (s.net.solo side.other) e (s.ends side.other))
    (hdst : Link P (s.net.solo side.other) (net.solo side) (s.ends side.other) e) :
    Links P (s.set net side e) := by
  intro sd
  by_cases hsd : sd = side
  · subst hsd
    rw [set_same, set_other]
    show Link P (net.solo sd) (net.solo sd.other) _ _
    rw [hother]
    exact hsrc
  · obtain rfl : sd = side.other := by
      cases sd <;> cases side <;> first | rfl | exact absurd rfl hsd
    rw [Side.other_other, set_same, set_other]
    show Link P (net.solo side.other) (net.solo side) _ _
    rw [hother]
    exact hdst

theorem endOk_consume (s : Solo) (n ans : ℕ) : Duplex.EndOk s (.call (.consume n) ans) :=
  ⟨not_false, fun h => by cases h⟩

theorem endOk_shutDownWrite (s : Solo) (ans : ℕ) : Duplex.EndOk s (.call .shutDownWrite ans) :=
  ⟨not_false, fun h => by cases h⟩

/-- The step of the network in a step of the conversation. -/
theorem step_net {l : Label μ} (hok : s.Ok P l) (hs : step k s l = some s') :
    s'.net = s.net ∨ ∃ (side : Side) (l₁ : Solo.Label), Duplex.EndOk (s.net.solo side) l₁ ∧
      s.net.step (side.label l₁) = some s'.net := by
  cases l with
  | loop side l₁ =>
    rw [step] at hs
    split at hs
    · obtain ⟨net, hnet, rfl⟩ := Option.map_eq_some_iff.mp hs
      exact .inr ⟨side, l₁, hok, hnet⟩
    · cases hs
  | send side m ans =>
    rw [step, P.encode_eq hok.1] at hs
    obtain ⟨net, hnet, rfl⟩ := Option.map_eq_some_iff.mp hs
    exact .inr ⟨side, _, hok.2, hnet⟩
  | look side =>
    rw [step] at hs
    split at hs
    · split at hs
      · cases hs
        exact .inl rfl
      · obtain ⟨net, hnet, rfl⟩ := Option.map_eq_some_iff.mp hs
        exact .inr ⟨side, _, endOk_shutDownWrite _ _, hnet⟩
      · obtain ⟨net, hnet, rfl⟩ := Option.map_eq_some_iff.mp hs
        split at hnet
        · cases hnet
          exact .inl rfl
        · exact .inr ⟨side, _, endOk_consume _ _ _, hnet⟩
    · cases hs
  | refresh side =>
    rw [step] at hs
    split at hs
    · obtain ⟨net, hnet, rfl⟩ := Option.map_eq_some_iff.mp hs
      exact .inr ⟨side, _, endOk_consume _ _ _, hnet⟩
    · cases hs

theorem net_reachable (h : (machine k).Reachable (Ok P) s) :
    Duplex.machine.Reachable Duplex.BothOk s.net := by
  have hinit : ∀ s, (machine k).Init s → Duplex.machine.Init s.net := fun _ h0 => h0.1
  refine h.project Conversation.net hinit ?_
  intro s l s' hok hs
  rcases step_net hok hs with hsame | ⟨side, l₁, hend, hnet⟩
  · exact .inl hsame
  · exact .inr ⟨side.label l₁, Duplex.ends_label side hend hend, hnet⟩

theorem links_init (h : (machine k).Init s) : Links P s := by
  obtain ⟨hinit, hends⟩ := h
  intro side
  have hsolo : ∀ sd : Side, (s.net.solo sd).sent = [] ∧ (s.net.solo sd).consumed = [] := by
    intro sd
    cases sd with
    | left =>
      obtain ⟨-, -, -, -, -, -, -, c, -, hc⟩ := hinit.left
      show s.net.left.sent = [] ∧ s.net.left.consumed = []
      rw [hc]
      exact ⟨rfl, rfl⟩
    | right =>
      obtain ⟨-, -, -, -, -, -, -, c, -, hc⟩ := hinit.right
      show s.net.right.sent = [] ∧ s.net.right.consumed = []
      rw [hc]
      exact ⟨rfl, rfl⟩
  rw [hends, hends]
  refine ⟨(hsolo side).1, List.forall_mem_nil _, List.prefix_refl _, ?_, Nat.zero_le _, rfl,
    fun hne => absurd rfl hne⟩
  show (s.net.solo side.other).consumed ++ List.take 0 _ = []
  rw [(hsolo side.other).2, List.take_zero, List.append_nil]

/-- The event loop enters the loop of `OnMessage` when it is not running, and does not end
the callback it runs in. -/
theorem loop_running {t t' : Solo} {l : Solo.Label} (hl : t.LoopStep (e.loop ≠ .out) l)
    (hrun : e.loop ≠ .out → ∃ f ∈ t.stack, ¬ Solo.InSend [f]) (hs : t.step l = some t') :
    (entered t' e l).loop.rest = e.loop.rest ∧
      ((entered t' e l).loop ≠ .out → ∃ f ∈ t'.stack, ¬ Solo.InSend [f]) := by
  have hempty : t.stack = [] → e.loop = .out := by
    intro hnil
    by_contra hne
    obtain ⟨f, hf, -⟩ := hrun hne
    rw [hnil] at hf
    cases hf
  rcases Solo.step_cases hs with hp | ⟨f, rfl⟩
  · cases l with
    | call a ans =>
      refine ⟨rfl, fun hne => ?_⟩
      obtain ⟨f, hf, hfs⟩ := hrun hne
      exact ⟨f, Solo.call_stack hp f hf, hfs⟩
    | ret ans =>
      refine ⟨rfl, fun hne => ?_⟩
      obtain ⟨f, hf, hfs⟩ := hrun hne
      have hbusy : e.loop ≠ .out := hne
      have hsend : Solo.InSend t.stack := hl.resolve_left (by simpa using hbusy)
      cases hp with
      | ret _ g rest t₁ hstack ht =>
        -- the loop is below the `Send` that returns
        rw [hstack] at hsend hf
        refine ⟨f, List.mem_append_right _ ?_, hfs⟩
        rcases List.mem_cons.mp hf with rfl | hrest
        · cases f with
          | sendRest m => exact absurd trivial hfs
          | _ => exact absurd hsend not_false
        · exact hrest
    | readComplete res data ans =>
      have hout : e.loop = .out := by
        cases hp with
        | readComplete _ _ _ key ctx b extra t₁ hstack => exact hempty hstack
      rw [entered]
      split
      · next hentered =>
        refine ⟨by rw [hout]; rfl, fun _ => ⟨.readRest false, ?_, not_false⟩⟩
        rw [hentered]
        exact List.mem_cons_self
      · exact ⟨rfl, fun hne => absurd hout hne⟩
    | writeComplete res ans =>
      refine ⟨rfl, fun hne => absurd ?_ hne⟩
      cases hp with
      | writeComplete _ _ key ctx data hstack => exact hempty hstack
  · -- a fault leaves the stack as it is
    cases l with
    | readComplete res data ans =>
      rw [Solo.step] at hs
      split at hs
      · next hen =>
        have hnil : t.stack = [] := hen.2.1
        have hsame : entered { t with fault := some f } e (.readComplete res data ans) = e := by
          rw [entered, if_neg]
          show t.stack ≠ _
          rw [hnil]
          intro h
          cases h
        rw [hsame]
        exact ⟨rfl, hrun⟩
      · cases hs
    | _ => exact ⟨rfl, hrun⟩

theorem entered_same (t : Solo) (l : Solo.Label) :
    (entered t e l).sent = e.sent ∧ (entered t e l).got = e.got ∧
      (entered t e l).errors = e.errors := by
  cases l with
  | readComplete res data ans =>
    rw [entered]
    split <;> exact ⟨rfl, rfl, rfl⟩
  | _ => exact ⟨rfl, rfl, rfl⟩

theorem links_dst (h : Links P s) (side : Side) :
    Link P (s.net.solo side.other) (s.net.solo side) (s.ends side.other) (s.ends side) := by
  have hdst := h side.other
  rwa [Side.other_other] at hdst

/-- A step of the event loop of an end, -/
theorem links_loop (h : Links P s) {side : Side} {l : Solo.Label}
    (hin : (s.net.solo side).InboundInv) (hin' : (net.solo side).InboundInv)
    (hl : (s.net.solo side).LoopStep ((s.ends side).loop ≠ .out) l)
    (hnet : s.net.step (side.label l) = some net) :
    Links P (s.set net side (entered (net.solo side) (s.ends side) l)) := by
  obtain ⟨hs, hother⟩ := Duplex.step_side hnet
  obtain ⟨hsent, hcons, hread⟩ := loop_keeps hin hin' hl hs
  have hdst := links_dst h side
  obtain ⟨hsame, hgot, herr⟩ := entered_same (e := s.ends side) (net.solo side) l
  obtain ⟨hrest, hrun⟩ := loop_running hl hdst.running hs
  exact links_set hother ((h side).of_src hsent hsame)
    (hdst.of_dst hcons hread hgot hrest (herr.trans hdst.errors) hrun)

/-- of its user who sends, -/
theorem links_send (h : Links P s) {side : Side} {m : μ} {ans : ℕ} (hm : P.Fits m)
    (hnet : s.call side (.send (P.frame m)) ans = some net) :
    Links P (s.set net side (noteSent (s.net.solo side) (net.solo side) (s.ends side) m)) := by
  obtain ⟨hs, hother⟩ := Duplex.step_side hnet
  obtain ⟨hsent, hcons, hbuf, hstack⟩ := send_keeps hs
  have hdst := links_dst h side
  have hrun : (s.ends side).loop ≠ .out → ∃ f ∈ (net.solo side).stack, ¬ Solo.InSend [f] := by
    intro hne
    obtain ⟨f, hf, hfs⟩ := hdst.running hne
    exact ⟨f, hstack f hf, hfs⟩
  have hread : (s.net.solo side).conn.inputBuffer.readable <+:
      (net.solo side).conn.inputBuffer.readable := by rw [hbuf]
  rw [noteSent]
  split
  · next hsends =>
    rw [if_pos hsends] at hsent
    exact links_set hother ((h side).of_send hm hsent rfl)
      (hdst.of_dst hcons hread rfl rfl hdst.errors hrun)
  · next hsends =>
    rw [if_neg hsends, List.append_nil] at hsent
    exact links_set hother ((h side).of_src hsent rfl)
      (hdst.of_dst hcons hread rfl rfl hdst.errors hrun)

/-- of its loop that hands a message over, -/
theorem links_accept (h : Links P s) {side : Side} {m : μ} {n : ℕ}
    (hreach : Duplex.machine.Reachable Duplex.BothOk s.net)
    (hloop : (s.ends side).loop = .looking)
    (hacc : P.front (s.net.solo side).conn.inputBuffer.readable = .accept m n)
    (hnet : (if k.header = 0 then some s.net else s.call side (.consume k.header) 0) = some net) :
    Links P (s.set net side { s.ends side with
      loop := .refreshing (n - k.header), got := (s.ends side).got ++ [m] }) := by
  have hdst := links_dst h side
  have hin := Duplex.inbound hreach side
  have hout := Duplex.outward hreach side.other
  rw [Side.other_other] at hout
  have hrest : (s.ends side).loop.rest = 0 := by rw [hloop]; rfl
  obtain ⟨hfits, hahead, hle, htake⟩ := hdst.look_accept hin hout hrest hacc
  have hheader : k.header ≤ n := by
    have hlen := congrArg List.length htake
    rw [List.length_take, Nat.min_eq_left hle] at hlen
    rw [hlen]
    exact P.header_le hfits
  have hrun := hdst.running (by rw [hloop]; intro h; cases h)
  split at hnet
  · next hzero =>
    cases hnet
    refine links_set rfl ((h side).of_src rfl rfl) ?_
    exact hdst.of_accept hrest hahead hle htake hheader
      (by rw [hzero, List.take_zero, List.append_nil]) (by rw [hzero, List.drop_zero]) hrun
  · obtain ⟨hs, hother⟩ := Duplex.step_side hnet
    obtain ⟨hsent, hcons, hread, hstack⟩ := consume_keeps hin hs
    refine links_set hother ((h side).of_src hsent rfl) ?_
    refine hdst.of_accept hrest hahead hle htake hheader hcons hread ?_
    obtain ⟨f, hf, hfs⟩ := hrun
    exact ⟨f, hstack f hf, hfs⟩

/-- and of its loop that drops a frame. -/
theorem links_refresh (h : Links P s) {side : Side}
    (hin : (s.net.solo side).InboundInv) (hloop : (s.ends side).loop ≠ .out)
    (hnet : s.call side (.consume (s.ends side).loop.rest) 0 = some net) :
    Links P (s.set net side { s.ends side with loop := .looking }) := by
  have hdst := links_dst h side
  obtain ⟨hs, hother⟩ := Duplex.step_side hnet
  obtain ⟨hsent, hcons, -, hstack⟩ := consume_keeps hin hs
  refine links_set hother ((h side).of_src hsent rfl) (hdst.of_refresh hcons ?_)
  obtain ⟨f, hf, hfs⟩ := hdst.running hloop
  exact ⟨f, hstack f hf, hfs⟩

/-- **Both directions stay in order.** -/
theorem links (h : (machine k).Reachable (Ok P) s) : Links P s := by
  have hinit : ∀ s, (machine k).Init s → Links P s := fun _ h0 => links_init h0
  refine h.invariant hinit ?_
  intro s l s' hreach hlinks hok hs
  have hnow := net_reachable hreach
  have hthen := net_reachable (hreach.step l hok hs)
  cases l with
  | loop side l₁ =>
    change step k s (.loop side l₁) = some s' at hs
    rw [step] at hs
    split at hs
    · next hl =>
      obtain ⟨net, hnet, rfl⟩ := Option.map_eq_some_iff.mp hs
      exact links_loop hlinks (Duplex.inbound hnow side) (Duplex.inbound hthen side)
        (by simpa using hl) hnet
    · cases hs
  | send side m ans =>
    change step k s (.send side m ans) = some s' at hs
    rw [step, P.encode_eq hok.1] at hs
    obtain ⟨net, hnet, rfl⟩ := Option.map_eq_some_iff.mp hs
    exact links_send hlinks hok.1 hnet
  | look side =>
    change step k s (.look side) = some s' at hs
    rw [step] at hs
    split at hs
    · next hat =>
      have hin := Duplex.inbound hnow side
      rw [P.look_eq hin.wf hok] at hs
      split at hs
      · -- the loop ends in front of an incomplete frame
        cases hs
        have hdst := links_dst hlinks side
        have hrest : (s.ends side).loop.rest = 0 := by rw [hat.1]; rfl
        exact links_set rfl ((hlinks side).of_src rfl rfl)
          (hdst.of_dst rfl (List.prefix_refl _) rfl hrest.symm hdst.errors fun hne => absurd rfl hne)
      · next e hrej =>
        have hout := Duplex.outward hnow side.other
        rw [Side.other_other] at hout
        exact absurd hrej ((links_dst hlinks side).look_reject hin hout (by rw [hat.1]; rfl) e)
      · next m n hacc =>
        obtain ⟨net, hnet, rfl⟩ := Option.map_eq_some_iff.mp hs
        exact links_accept hlinks hnow hat.1 hacc hnet
    · cases hs
  | refresh side =>
    change step k s (.refresh side) = some s' at hs
    rw [step] at hs
    split at hs
    · next hat =>
      obtain ⟨net, hnet, rfl⟩ := Option.map_eq_some_iff.mp hs
      refine links_refresh hlinks (Duplex.inbound hnow side) ?_ hnet
      rw [hat.1]
      intro h
      cases h
    · cases hs

theorem loop_ends {side : Side} {l : Solo.Label} (hs : step k s (.loop side l) = some s')
    (sd : Side) :
    (s'.ends sd).sent = (s.ends sd).sent ∧ (s'.ends sd).got = (s.ends sd).got := by
  rw [step] at hs
  split at hs
  · obtain ⟨net, -, rfl⟩ := Option.map_eq_some_iff.mp hs
    by_cases hsd : sd = side
    · subst hsd
      rw [set_same]
      exact ⟨(entered_same _ _).1, (entered_same _ _).2.1⟩
    · rw [set_ne hsd]
      exact ⟨rfl, rfl⟩
  · cases hs

theorem refresh_ends {side : Side} (hs : step k s (.refresh side) = some s') (sd : Side) :
    (s'.ends sd).sent = (s.ends sd).sent ∧ (s'.ends sd).got = (s.ends sd).got := by
  rw [step] at hs
  split at hs
  · obtain ⟨net, -, rfl⟩ := Option.map_eq_some_iff.mp hs
    by_cases hsd : sd = side
    · subst hsd
      rw [set_same]
      exact ⟨rfl, rfl⟩
    · rw [set_ne hsd]
      exact ⟨rfl, rfl⟩
  · cases hs

theorem send_ends {side : Side} {m : μ} {ans : ℕ} (hs : step k s (.send side m ans) = some s') :
    (s'.ends side).got = (s.ends side).got ∧ s'.ends side.other = s.ends side.other := by
  rw [step] at hs
  split at hs
  · cases hs
  · obtain ⟨net, -, rfl⟩ := Option.map_eq_some_iff.mp hs
    rw [set_same, set_other]
    refine ⟨?_, rfl⟩
    rw [noteSent]
    split <;> rfl

/-- The message that a look hands over. -/
def incoming (k : Codec μ ε) (s : Conversation μ ε) (side : Side) : Option μ :=
  match k.look (s.net.solo side).conn.inputBuffer with
  | .accept m _ => some m
  | .wait | .reject _ => none

theorem look_ends {side : Side} (hs : step k s (.look side) = some s') :
    (s'.ends side).sent = (s.ends side).sent ∧
      (s'.ends side).got = (s.ends side).got ++ (incoming k s side).toList ∧
      s'.ends side.other = s.ends side.other := by
  rw [step] at hs
  split at hs
  · rw [incoming]
    split at hs
    · next hlook =>
      cases hs
      rw [set_same, set_other, hlook]
      exact ⟨rfl, (List.append_nil _).symm, rfl⟩
    · next e hlook =>
      obtain ⟨net, -, rfl⟩ := Option.map_eq_some_iff.mp hs
      rw [set_same, set_other, hlook]
      exact ⟨rfl, (List.append_nil _).symm, rfl⟩
    · next m n hlook =>
      obtain ⟨net, -, rfl⟩ := Option.map_eq_some_iff.mp hs
      rw [set_same, set_other, hlook]
      exact ⟨rfl, rfl, rfl⟩
  · cases hs

end Conversation

end Messages

end Taotu
