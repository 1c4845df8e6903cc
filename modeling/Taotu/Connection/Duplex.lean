import Taotu.Connection.Inbound
import Taotu.Connection.HalfClose
import Taotu.Connection.LifeCycle
import Taotu.Connection.Pausing

/-!
# Taotu.Connection.Duplex — the two ends of one TCP connection

Two `Connecting`s, each on a loop of its own and with a user of its own, are the
ends of one TCP connection. The machine interleaves the steps of the two ends in
any way; between them are the two directions of the connection.

**The network.** What the kernel of one end accepts is under way (`Pipe.bytes`)
until the kernel of the other end delivers it, in order and in pieces of any
size. The end of the stream (`res = 0`) is delivered when nothing is under way
and the other end has shut down its write side or has given up its descriptor;
after it no write of the other end succeeds. Errors come at any time.

**Cancelled operations.** An end may stop and close. The reads and writes that it has
cancelled are those of `Taotu.Connection.Pausing`: until its kernel has ended them, they
may still take bytes from the network, which then reach nobody, or put bytes on it.

1. **The network part.** What one kernel has accepted is what the other has
   delivered and what is under way (`carries`), in every run.
2. **End to end.** The sending end queues in turn, and neither stops nor closes. The
   reads of the receiving end fit its buffer; it may stop and close, but what it cancels
   moves nothing. Then every byte that was sent is in one place on its way, and the
   places in order are what was sent (`stream_end_to_end`).
3. **The end of the stream.** If the sender has waited for its output before it shuts
   down, a receiver that has read the end of the stream has got everything
   (`half_close_end_to_end`).

A read that is cancelled after it has taken bytes loses them, by
`pausing_loses_and_repeats`.
-/

namespace Taotu

open Lib

namespace Connecting

variable {c c' : Connecting} {ans : ℕ} {t : Turn}

/-! ## The state in which the write side is shut down -/

theorem exec_shutdown_state {a : Act} (h : c.exec ans a = .ok t)
    (hmem : (c', .shutdownWrite) ∈ t.out) : c'.state = .kDisconnecting := by
  obtain ⟨rfl, hst, rfl, -⟩ := exec_shutdown h hmem
  simp only [exec, shutDownWrite, hst, if_true, Except.ok.injEq] at h
  subst h
  split <;> rfl

theorem writeRest_shutdown_state (hmem : (c', .shutdownWrite) ∈ c.writeRest.out) :
    c'.state = .kDisconnecting := by
  obtain ⟨rfl, -⟩ := writeRest_shutdown hmem
  rw [writeRest] at hmem
  split at hmem
  · next h => exact h.1
  · cases hmem

theorem onWriteComplete_shutdown_state {cqe : Cqe}
    (hmem : (c', .shutdownWrite) ∈ (c.onWriteComplete cqe ans).out) :
    c'.state = .kDisconnecting := by
  rw [onWriteComplete] at hmem
  dsimp only at hmem
  split at hmem
  · rw [writtenRest] at hmem
    split at hmem
    · exact absurd hmem (submitWriteOnce_noShutdown c')
    · split at hmem
      · exact absurd hmem (submitWriteOnce_noShutdown c')
      · rw [callback] at hmem
        split at hmem
        · simp at hmem
        · exact writeRest_shutdown_state hmem
  · split at hmem
    · exact absurd hmem (submitWriteOnce_noShutdown c')
    · cases hmem

end Connecting

namespace Solo

variable {s s' : Solo} {l : Label}

/-- The write side was shut down, or the descriptor given up. -/
def Shut (s : Solo) : Prop := ∃ e ∈ s.trace, e.out = .shutdownWrite ∨ e.out.isDelete = true

instance (s : Solo) : Decidable s.Shut := inferInstanceAs (Decidable (∃ e ∈ s.trace, _))

/-! ## What a step does to the two streams -/

theorem note_accepted (s : Solo) (a : Act) : (s.note a).accepted = s.accepted := by
  cases a <;> simp only [note]
  split <;> rfl

theorem note_delivered (s : Solo) (a : Act) : (s.note a).delivered = s.delivered := by
  cases a <;> simp only [note]
  split <;> rfl

theorem load_zero {b : IoBuffer} {i : ℕ} {data : List UInt8} (h : b.load i 0 = .ok data) :
    data = [] := by
  rw [IoBuffer.load] at h
  split at h
  · cases h
    exact List.take_zero
  · cases h

/-- Only a write completion with a positive result makes the kernel accept bytes. -/
theorem Performed.accepted (hp : s.Performed l s') :
    ∃ w, s'.accepted = s.accepted ++ w ∧
      (w ≠ [] → ∃ res ans, l = .writeComplete res ans ∧ 0 < res) := by
  have hnothing : ∀ {a : List UInt8}, a = s.accepted → ∃ w, a = s.accepted ++ w ∧
      (w ≠ [] → ∃ res ans, l = .writeComplete res ans ∧ 0 < res) :=
    fun ha => ⟨[], by rw [ha, List.append_nil], fun h => absurd rfl h⟩
  cases hp with
  | call a ans t hallowed ht => exact hnothing (note_accepted s a)
  | ret ans f rest t hstack ht => exact hnothing rfl
  | readComplete res data ans key ctx b extra t => exact hnothing rfl
  | writeComplete res ans key ctx data hstack hop hle hdata =>
    refine ⟨data, rfl, fun hne => ⟨res, ans, rfl, ?_⟩⟩
    by_contra hres
    rw [Int.toNat_of_nonpos (by omega)] at hdata
    exact hne (load_zero hdata)

theorem step_accepted (hs : s.step l = some s') :
    ∃ w, s'.accepted = s.accepted ++ w ∧
      (w ≠ [] → ∃ res ans, l = .writeComplete res ans ∧ 0 < res) := by
  rcases step_cases hs with hp | ⟨e, rfl⟩
  · exact hp.accepted
  · exact ⟨[], (List.append_nil _).symm, fun h => absurd rfl h⟩

/-- Only a read completion delivers bytes. -/
theorem step_delivered (hs : s.step l = some s') :
    s'.delivered = s.delivered ∨ ∃ res data ans, l = .readComplete res data ans ∧
      data.length = res.toNat ∧ s'.delivered = s.delivered ++ data := by
  rcases step_cases hs with hp | ⟨e, rfl⟩
  · cases hp with
    | call a ans t hallowed ht => exact .inl (note_delivered s a)
    | ret ans f rest t hstack ht => exact .inl rfl
    | readComplete res data ans key ctx b extra t hstack hop hlen =>
      exact .inr ⟨res, data, ans, rfl, hlen, rfl⟩
    | writeComplete res ans key ctx data => exact .inl rfl
  · exact .inl rfl

/-- A call made in a step is recorded with the bytes sent and accepted up to then. -/
theorem Performed.new_event (hp : s.Performed l s') {e : Event} (he : e ∈ s'.trace)
    (hnew : e ∉ s.trace) : e.sent = s'.sent ∧ e.accepted = s'.accepted := by
  obtain ⟨s₀, c, ans, t, rfl, htrace, -⟩ := hp.turn
  rcases mem_trace_take he with h | ⟨-, hsent, hacc⟩
  · exact absurd (htrace ▸ h) hnew
  · exact ⟨hsent, hacc⟩

/-- What was called stays called. -/
theorem step_shut (hs : s.step l = some s') (h : s.Shut) : s'.Shut := by
  obtain ⟨e, he, hout⟩ := h
  refine ⟨e, ?_, hout⟩
  rcases step_cases hs with hp | ⟨f, rfl⟩
  · obtain ⟨s₀, c, ans, t, rfl, htrace, -⟩ := hp.turn
    exact List.mem_append_left _ (htrace ▸ he)
  · exact he

/-! ## A connection that is shut down but not closed -/

/-- Without a cancelling call a connection is not closed by its user, -/
theorem exec_open {c : Connecting} {ans : ℕ} {a : Act} {t : Turn} (ha : ¬ Cancels a)
    (h : c.exec ans a = .ok t) (hc : c.state ≠ .kDisconnected) : t.conn.state ≠ .kDisconnected := by
  cases Connecting.exec_lifeMove h with
  | plain hplain => exact fun hclosed => hc (hplain.closed hclosed)
  | establish steady before after => simp [after]
  | close before hcloses =>
    -- only the cancelling calls reach `DoClosing`
    have hafter := hcloses.after
    cases a <;> simp only [Cancels, not_true] at ha <;> simp only [Connecting.exec, Except.ok.injEq] at h
    case onEstablishing =>
      simp only [Connecting.onEstablishing] at h
      split_ifs at h <;> cases h
      · simp at hafter
      · exact hc
    case send message => exact fun hclosed => hc ((Connecting.send_plain h).closed hclosed)
    case shutDownWrite =>
      exact fun hclosed => hc (Connecting.shutDownWrite_plain.closed (h ▸ hclosed))
    case startReading => exact fun hclosed => hc (Connecting.submitReadOnce_plain.closed (h ▸ hclosed))
    case startWriting =>
      exact fun hclosed => hc (Connecting.submitWriteOnce_plain.closed (h ▸ hclosed))
    case consume len => exact h ▸ hc

/-- nor by a read that reports neither the end nor a reset. -/
theorem onReadComplete_open {c : Connecting} {ans : ℕ} {res : ℤ} {ctx : ReadContext} {t : Turn}
    (hres : ¬ Connecting.ClosesOn res) (h : c.onReadComplete ⟨res, false⟩ ctx ans = .ok t)
    (hc : c.state ≠ .kDisconnected) : t.conn.state ≠ .kDisconnected := by
  rcases Connecting.onReadComplete_cases h with ⟨-, input, -, rfl⟩ | ⟨hclose, -⟩ | ⟨-, rfl⟩ | ⟨-, rfl⟩
  · rw [Connecting.callback]
    split
    · exact hc
    · intro hclosed
      have hbefore := Connecting.submitReadOnce_plain.closed hclosed
      exact hc hbefore
  · exact absurd hclose hres
  · intro hclosed
    have hbefore := Connecting.submitReadOnce_plain.closed hclosed
    exact hc hbefore
  · exact hc

/-- The calls of an open connection are those of `OnEstablishing`. -/
theorem Stage.of_open {cb : Bool} {st : ConnectionState} {frames : List Frame}
    {calls : List (ConnectionState × Output)} (h : Stage cb st frames calls)
    (hst : st ≠ .kDisconnected) : frames = [] ∧ Begun st calls := by
  cases h with
  | opened begun => exact ⟨rfl, begun⟩
  | notifying | closing | closed => exact absurd rfl hst

/-- The runs of `OutboundOk` do not close the connection. -/
theorem outbound_open (h : machine.Reachable OutboundOk s) : s.conn.state ≠ .kDisconnected := by
  refine invariant (fun s => s.conn.state ≠ .kDisconnected) ?_ (fun s e hs => hs) ?_ h
  · rintro s ⟨addr, fd, b₁, b₂, b₃, hwm, b₄, c, hc, rfl⟩
    obtain ⟨b, -, -, -, -, hst, -, -⟩ := Connecting.new_ok hc
    rw [show (start c).conn.state = .kConnecting from hst]
    decide
  · intro s l s' hreach _ hs hok hp
    cases hp with
    | call a ans t hallowed ht =>
      refine exec_open ?_ ht hs
      cases a with
      | send m => exact not_false
      | _ => exact hok
    | ret ans f rest t hstack ht =>
      -- a frame of a close is only on the stack of a closed connection
      have hf : ¬ Closing f := by
        intro hf
        have hnone : s.closings = [] := (staged hreach).of_open hs |>.1
        rw [closings, hstack, List.filter_cons_of_pos (by simpa using hf)] at hnone
        cases hnone
      exact fun hclosed => hs ((Connecting.resume_plain hf ht).closed hclosed)
    | readComplete res data ans key ctx b extra t hstack hop hlen hle hfill ht =>
      exact onReadComplete_open hok ht hs
    | writeComplete res ans key ctx data =>
      exact fun hclosed => hs (Connecting.onWriteComplete_plain.closed hclosed)

/-- So a descriptor that is not given up was shut down. -/
theorem Shut.shutdown (h : s.Shut) (hreach : machine.Reachable OutboundOk s) :
    ∃ e ∈ s.trace, e.out = .shutdownWrite := by
  obtain ⟨e, he, hout | hdel⟩ := h
  · exact ⟨e, he, hout⟩
  · exfalso
    have hlife : (e.conn.state, e.out) ∈ s.life := by
      refine List.mem_map_of_mem (List.mem_filter.mpr ⟨he, ?_⟩)
      cases hout : e.out <;> simp [hout, Output.isDelete] at hdel
      rfl
    rcases ((staged hreach).of_open (outbound_open hreach)).2 with hnone | ⟨hone, -⟩
    · rw [hnone] at hlife
      cases hlife
    · rw [hone, List.mem_singleton, Prod.mk.injEq] at hlife
      rw [hlife.2] at hdel
      cases hdel

/-- The write side is shut down in state `kDisconnecting`. -/
theorem shutdown_state {ok : Solo → Label → Prop} (h : machine.Reachable ok s) :
    ∀ e ∈ s.trace, e.out = .shutdownWrite → e.conn.state = .kDisconnecting := by
  refine invariant (fun s => ∀ e ∈ s.trace, e.out = .shutdownWrite →
    e.conn.state = .kDisconnecting) ?_ (fun s e hs => hs) ?_ h
  · rintro s ⟨addr, fd, b₁, b₂, b₃, hwm, b₄, c, hc, rfl⟩ e he
    cases he
  · rintro s l s' - - hs - hp ⟨c', o, sent, accepted⟩ he rfl
    cases hp with
    | call a ans t hallowed ht =>
      rcases mem_trace_take he with h | ⟨hmem, -, -⟩
      · exact hs _ (note_trace s a ▸ h) rfl
      · exact Connecting.exec_shutdown_state ht hmem
    | ret ans f rest t hstack ht =>
      rcases mem_trace_take he with h | ⟨hmem, -, -⟩
      · exact hs _ h rfl
      · obtain ⟨rfl, rfl⟩ := Connecting.resume_shutdown ht hmem
        exact Connecting.writeRest_shutdown_state hmem
    | readComplete res data ans key ctx b extra t hstack hop hlen hle hfill ht =>
      rcases mem_trace_take he with h | ⟨hmem, -, -⟩
      · exact hs _ h rfl
      · exact absurd hmem (Connecting.onReadComplete_noShutdown ht c')
    | writeComplete res ans key ctx data =>
      rcases mem_trace_take he with h | ⟨hmem, -, -⟩
      · exact hs _ h rfl
      · exact Connecting.onWriteComplete_shutdown_state hmem

/-- The condition on a sender: it queues in turn, and it waits before it shuts down. -/
def SenderOk (s : Solo) (l : Label) : Prop := s.OutboundOk l ∧ s.HalfCloseOk l

instance (s : Solo) (l : Label) : Decidable (s.SenderOk l) :=
  inferInstanceAs (Decidable (_ ∧ _))

/-- Behind a half-close everything that was sent is with the kernel. -/
theorem accepted_of_shutdown (h : machine.Reachable SenderOk s)
    (hshut : ∃ e ∈ s.trace, e.out = .shutdownWrite) : s.accepted = s.sent := by
  refine invariant (fun s => (∃ e ∈ s.trace, e.out = .shutdownWrite) → s.accepted = s.sent) ?_
    (fun s e hs => hs) ?_ h hshut
  · rintro s ⟨addr, fd, b₁, b₂, b₃, hwm, b₄, c, hc, rfl⟩ ⟨e, he, -⟩
    cases he
  · rintro s l s' hreach hreach' hs hok hp ⟨e, he, hout⟩
    have hline' : s'.line = s'.sent := line_eq (hreach'.mono fun _ _ h => h.1)
    have hpre : s'.accepted <+: s'.sent := by
      rw [← hline', line, List.append_assoc]
      exact List.prefix_append _ _
    by_cases hold : e ∈ s.trace
    · -- a connection that was shut down sends nothing more
      have hacc := hs ⟨e, hold, hout⟩
      have hrank := (ordered hreach).last e hold
      rw [shutdown_state hreach e hold hout] at hrank
      have hst : s.conn.state ≠ .kConnected := by
        intro hst
        rw [hst] at hrank
        exact absurd hrank (by decide)
      have hsent : s'.sent = s.sent := by
        cases lineStep (outboundInv hreach) hp with
        | kept line sent => exact sent
        | suspend m ans label state line sent => exact absurd state hst
        | send m ans label state below line sent => exact absurd state hst
        | resume m ans rest label stack line sent => exact sent
      have hgrow : s.accepted.length ≤ s'.accepted.length := by
        obtain ⟨w, hw, -⟩ := hp.accepted
        simp [hw]
      exact hpre.eq_of_length_le (by rw [hsent, ← hacc]; exact hgrow)
    · -- the half-close itself finds everything with the kernel
      have hdrained : Drained e := by
        rcases shutdown_step hreach hreach' hok.2 hp he hout with h | h
        · exact absurd h hold
        · exact h
      obtain ⟨hsent, hacc⟩ := hp.new_event he hold
      have hlen := hdrained.accepted.length_eq
      rw [hsent, hacc] at hlen
      exact hpre.eq_of_length hlen

/-! ## The steps of an event loop and the calls of its callbacks -/

/-- The innermost handler is a `Send` in the high-water-mark callback. -/
def InSend : List Frame → Prop
  | .sendRest _ :: _ => True
  | _ => False

instance : (stack : List Frame) → Decidable (InSend stack)
  | .sendRest _ :: _ => isTrue trivial
  | [] | .readRest _ :: _ | .writeRest :: _ | .closeRest :: _ | .closeEnd :: _
  | .establishRest :: _ => isFalse not_false

/-- The steps of the event loop: it establishes the connection and handles completions, and
a callback returns unless it is `busy`. -/
def LoopStep (s : Solo) (busy : Bool) : Label → Prop
  | .call .onEstablishing _ => True
  | .call _ _ => False
  | .ret _ => busy = false ∨ InSend s.stack
  | .readComplete _ _ _ | .writeComplete _ _ => True

instance (s : Solo) (busy : Bool) : (l : Label) → Decidable (s.LoopStep busy l)
  | .call .onEstablishing _ | .readComplete _ _ _ | .writeComplete _ _ => isTrue trivial
  | .call (.send _) _ | .call .shutDownWrite _ | .call .forceClose _ | .call .doClosing _
  | .call .startReading _ | .call .stopReading _ | .call .startWriting _ | .call .stopWriting _
  | .call .stopReadingWriting _ | .call (.consume _) _ => isFalse not_false
  | .ret _ => inferInstanceAs (Decidable (_ ∨ _))

/-- The state does not go back. -/
theorem not_connecting (hs : s.step l = some s') (h : s.conn.state ≠ .kConnecting) :
    s'.conn.state ≠ .kConnecting := by
  intro hc
  have hrank := step_forward hs
  rw [hc] at hrank
  cases hst : s.conn.state with
  | kConnecting => exact h hst
  | kConnected | kDisconnecting | kDisconnected =>
    rw [hst] at hrank
    exact absurd hrank (by decide)

theorem performed_fault (hp : s.Performed l s') : s'.fault = s.fault := by
  cases hp with
  | call a ans t hallowed ht =>
    cases a <;> simp only [take, note]
    split <;> rfl
  | ret ans f rest t hstack ht => rfl
  | readComplete res data ans key ctx b extra t => rfl
  | writeComplete res ans key ctx data => rfl

/-- `Send` on a connected connection. -/
theorem call_send {m : List UInt8} {ans : ℕ} (hst : s.conn.state = .kConnected)
    (hp : s.Performed (.call (.send m) ans) s') :
    s'.sent = s.sent ++ m ∧ s'.delivered = s.delivered ∧
      s'.conn.inputBuffer = s.conn.inputBuffer := by
  cases hp with
  | call _ _ t hallowed ht =>
    refine ⟨?_, ?_, Connecting.send_input ht⟩
    · show (s.note _).sent = _
      rw [note, if_pos hst]
    · show (s.note _).delivered = _
      rw [note, if_pos hst]

/-- `Refresh` on the input buffer. -/
theorem call_consume {n ans : ℕ} (hin : s.InboundInv)
    (hp : s.Performed (.call (.consume n) ans) s') :
    s'.sent = s.sent ∧ s'.delivered = s.delivered ∧
      s'.consumed = s.consumed ++ s.conn.inputBuffer.readable.take n ∧
      s'.conn.inputBuffer.readable = s.conn.inputBuffer.readable.drop n := by
  cases hp with
  | call _ _ t hallowed ht =>
    refine ⟨rfl, rfl, rfl, ?_⟩
    cases ht
    exact (IoBuffer.refresh_spec hin.wf hallowed.2).2

/-- A call leaves the handlers that are running on the stack. -/
theorem call_stack {a : Act} {ans : ℕ} (hp : s.Performed (.call a ans) s') :
    ∀ f ∈ s.stack, f ∈ s'.stack := by
  cases hp with
  | call _ _ t hallowed ht =>
    intro f hf
    refine List.mem_append_right _ ?_
    rw [note_stack]
    exact hf

end Solo

/-! ## The machine -/

/-- One direction of a TCP connection: the bytes under way, and whether the receiver
was told that there are no more. -/
structure Pipe where
  bytes : List UInt8
  ended : Bool
deriving DecidableEq, Repr

structure Duplex where
  leftEnd : Pausing
  rightEnd : Pausing
  toRight : Pipe
  toLeft : Pipe
deriving DecidableEq, Repr

namespace Pipe

/-- What the kernel of the sender has accepted in a step is under way. -/
def push (p : Pipe) (s s' : Solo) : Pipe :=
  { p with bytes := p.bytes ++ s'.accepted.drop s.accepted.length }

/-- The end of the stream is read. That a cancelled read has come to it nobody learns. -/
def isEnd : Pausing.Label → Bool
  | .turn (.readComplete res _ _) => res = 0
  | _ => false

/-- What the kernel of the receiver has delivered in a step is no longer under way. -/
def pull (p : Pipe) (l : Pausing.Label) (s s' : Solo) : Pipe :=
  ⟨p.bytes.drop (s'.delivered.length - s.delivered.length), p.ended || isEnd l⟩

/-- What the network lets the kernel of an end report, and a cancelled operation move: `out`
and `inn` are its two directions and `peer` is the other end. -/
def Lets (out inn : Pipe) (peer : Solo) : Pausing.Label → Prop
  | .turn (.readComplete res data _) =>
    (0 < res → data <+: inn.bytes) ∧ (res = 0 → inn.bytes = [] ∧ peer.Shut)
  | .turn (.writeComplete res _) => 0 < res → out.ended = false
  | .turn (.call _ _) | .turn (.ret _) => True
  | .endRead _ res data => 0 < res → data <+: inn.bytes
  | .endWrite _ res => 0 < res → out.ended = false

instance (out inn : Pipe) (peer : Solo) : (l : Pausing.Label) → Decidable (Lets out inn peer l)
  | .turn (.readComplete _ _ _) => inferInstanceAs (Decidable ((_ → _ <+: _) ∧ (_ → _ ∧ _)))
  | .turn (.writeComplete _ _) => inferInstanceAs (Decidable (_ → _))
  | .turn (.call _ _) | .turn (.ret _) => inferInstanceAs (Decidable True)
  | .endRead _ _ _ => inferInstanceAs (Decidable (_ → _ <+: _))
  | .endWrite _ _ => inferInstanceAs (Decidable (_ → _))

end Pipe

namespace Duplex

/-- The connection at the left end. -/
abbrev left (d : Duplex) : Solo := d.leftEnd.solo

/-- The connection at the right end. -/
abbrev right (d : Duplex) : Solo := d.rightEnd.solo

inductive Label where
  | left (l : Pausing.Label)
  | right (l : Pausing.Label)
deriving DecidableEq, Repr

/-- A step of either end. -/
def step (d : Duplex) : Label → Option Duplex
  | .left l =>
    if Pipe.Lets d.toRight d.toLeft d.right l then
      (d.leftEnd.step l).map fun s =>
        { d with
          leftEnd := s
          toRight := d.toRight.push d.left s.solo
          toLeft := d.toLeft.pull l d.left s.solo }
    else none
  | .right l =>
    if Pipe.Lets d.toLeft d.toRight d.left l then
      (d.rightEnd.step l).map fun s =>
        { d with
          rightEnd := s
          toLeft := d.toLeft.push d.right s.solo
          toRight := d.toRight.pull l d.right s.solo }
    else none

/-- Two new connections. -/
def Init (d : Duplex) : Prop :=
  Pausing.machine.Init d.leftEnd ∧ Pausing.machine.Init d.rightEnd ∧
    d.toRight = ⟨[], false⟩ ∧ d.toLeft = ⟨[], false⟩

def machine : Machine Duplex Label := ⟨Init, step⟩

variable {d d' : Duplex} {l : Label}

theorem Init.left (h : Init d) : Solo.Init d.left := by
  obtain ⟨⟨solo, hsolo, heq⟩, -⟩ := h
  rw [Duplex.left, heq]
  exact hsolo

theorem Init.right (h : Init d) : Solo.Init d.right := by
  obtain ⟨-, ⟨solo, hsolo, heq⟩, -⟩ := h
  rw [Duplex.right, heq]
  exact hsolo

theorem step_cases (h : step d l = some d') :
    (∃ l₁ s, l = .left l₁ ∧ Pipe.Lets d.toRight d.toLeft d.right l₁ ∧
      d.leftEnd.step l₁ = some s ∧
      d' = ⟨s, d.rightEnd, d.toRight.push d.left s.solo, d.toLeft.pull l₁ d.left s.solo⟩) ∨
    ∃ l₁ s, l = .right l₁ ∧ Pipe.Lets d.toLeft d.toRight d.left l₁ ∧
      d.rightEnd.step l₁ = some s ∧
      d' = ⟨d.leftEnd, s, d.toRight.pull l₁ d.right s.solo, d.toLeft.push d.right s.solo⟩ := by
  cases l with
  | left l₁ =>
    rw [step] at h
    split at h
    · next hlets =>
      obtain ⟨s, hs, rfl⟩ := Option.map_eq_some_iff.mp h
      exact .inl ⟨l₁, s, rfl, hlets, hs, rfl⟩
    · cases h
  | right l₁ =>
    rw [step] at h
    split at h
    · next hlets =>
      obtain ⟨s, hs, rfl⟩ := Option.map_eq_some_iff.mp h
      exact .inr ⟨l₁, s, rfl, hlets, hs, rfl⟩
    · cases h

section Turns

variable {l₁ : Solo.Label}

/-- A turn of the left end leaves the right one alone, -/
theorem left_turn (h : step d (.left (.turn l₁)) = some d') :
    d.left.step l₁ = some d'.left ∧ d'.rightEnd = d.rightEnd := by
  rcases step_cases h with ⟨l₂, s, hl, -, hs, rfl⟩ | ⟨l₂, s, hl, -⟩
  · cases hl
    exact ⟨Pausing.step_turn hs, rfl⟩
  · cases hl

/-- and the other way round. -/
theorem right_turn (h : step d (.right (.turn l₁)) = some d') :
    d.right.step l₁ = some d'.right ∧ d'.leftEnd = d.leftEnd := by
  rcases step_cases h with ⟨l₂, s, hl, -⟩ | ⟨l₂, s, hl, -, hs, rfl⟩
  · cases hl
  · cases hl
    exact ⟨Pausing.step_turn hs, rfl⟩

end Turns

/-- The condition on a run: one on the turns of each end, and what an end has cancelled moves
nothing. -/
def Ends (okLeft okRight : Solo → Solo.Label → Prop) (d : Duplex) : Label → Prop
  | .left l => d.leftEnd.Still okLeft l
  | .right l => d.rightEnd.Still okRight l

instance (okLeft okRight : Solo → Solo.Label → Prop) [∀ s l, Decidable (okLeft s l)]
    [∀ s l, Decidable (okRight s l)] (d : Duplex) : (l : Label) → Decidable (Ends okLeft okRight d l)
  | .left l => inferInstanceAs (Decidable (d.leftEnd.Still okLeft l))
  | .right l => inferInstanceAs (Decidable (d.rightEnd.Still okRight l))

section Project

variable {okLeft okRight : Solo → Solo.Label → Prop}

/-- Each end makes a run of its own, -/
theorem left_reachable (h : machine.Reachable (Ends okLeft okRight) d) :
    Solo.machine.Reachable okLeft d.left := by
  have hinit : ∀ d, machine.Init d → Pausing.machine.Init d.leftEnd := fun _ h0 => h0.1
  refine Pausing.solo_reachable (h.project Duplex.leftEnd hinit ?_)
  intro d l d' hok hs
  rcases step_cases hs with ⟨l₁, s, rfl, -, hs₁, rfl⟩ | ⟨l₁, s, rfl, -, -, rfl⟩
  · exact .inr ⟨l₁, hok, hs₁⟩
  · exact .inl rfl

theorem right_reachable (h : machine.Reachable (Ends okLeft okRight) d) :
    Solo.machine.Reachable okRight d.right := by
  have hinit : ∀ d, machine.Init d → Pausing.machine.Init d.rightEnd := fun _ h0 => h0.2.1
  refine Pausing.solo_reachable (h.project Duplex.rightEnd hinit ?_)
  intro d l d' hok hs
  rcases step_cases hs with ⟨l₁, s, rfl, -, -, rfl⟩ | ⟨l₁, s, rfl, -, hs₁, rfl⟩
  · exact .inl rfl
  · exact .inr ⟨l₁, hok, hs₁⟩

end Project

/-! ## The network part -/

/-- What one direction carries from `src` to `dst`. -/
structure Carries (src dst : Solo) (p : Pipe) : Prop where
  stream : src.accepted = dst.delivered ++ p.bytes
  ended : p.ended = true → p.bytes = [] ∧ src.Shut

theorem carries_init {src dst : Solo} (hsrc : Solo.Init src) (hdst : Solo.Init dst) :
    Carries src dst ⟨[], false⟩ := by
  obtain ⟨-, -, -, -, -, -, -, c, -, rfl⟩ := hsrc
  obtain ⟨-, -, -, -, -, -, -, c', -, rfl⟩ := hdst
  exact ⟨rfl, fun h => by cases h⟩

section Carries

variable {src dst s : Solo} {t t' : Pausing} {p q : Pipe} {l₁ : Pausing.Label}

/-- A sender gives bytes to its kernel, but none behind the end of the stream, -/
theorem Carries.push (h : Carries src dst p) {w : List UInt8}
    (hw : s.accepted = src.accepted ++ w) (hopen : w ≠ [] → p.ended = false)
    (hshut : src.Shut → s.Shut) : Carries s dst (p.push src s) := by
  have hpush : (p.push src s).bytes = p.bytes ++ w := by
    rw [Pipe.push, hw, List.drop_left]
  constructor
  · rw [hw, h.stream, hpush, List.append_assoc]
  · intro hended
    obtain ⟨hnil, hbefore⟩ := h.ended hended
    have hwnil : w = [] := by
      by_contra hne
      exact Bool.false_ne_true ((hopen hne).symm.trans hended)
    exact ⟨by rw [hpush, hnil, hwnil, List.append_nil], hshut hbefore⟩

/-- and a receiver takes from the front of what is under way. -/
theorem Carries.pull (h : Carries src dst p) {data : List UInt8}
    (hdata : s.delivered = dst.delivered ++ data) (hpre : data <+: p.bytes)
    (hended : Pipe.isEnd l₁ = true → p.bytes = [] ∧ src.Shut) :
    Carries src s (p.pull l₁ dst s) := by
  obtain ⟨rest, hrest⟩ := hpre
  have hdrop : (p.pull l₁ dst s).bytes = rest := by
    rw [Pipe.pull, hdata, List.length_append, Nat.add_sub_cancel_left, ← hrest, List.drop_left]
  constructor
  · rw [hdrop, h.stream, hdata, List.append_assoc, hrest]
  · intro hend
    obtain ⟨hnil, hshut⟩ := (Bool.or_eq_true_iff.mp hend).elim h.ended hended
    rw [hnil] at hrest
    exact ⟨hdrop.trans (List.append_eq_nil_iff.mp hrest).2, hshut⟩

/-- A receiver that takes nothing. -/
theorem Carries.idle (h : Carries src dst p) (hsame : s.delivered = dst.delivered)
    (hended : Pipe.isEnd l₁ = true → p.bytes = [] ∧ src.Shut) :
    Carries src s (p.pull l₁ dst s) :=
  h.pull (hsame.trans (List.append_nil _).symm) List.nil_prefix hended

/-- What a read delivers comes from the front of what is under way. -/
theorem prefix_of_read {res : ℤ} {data : List UInt8} (hlen : data.length = res.toNat)
    (hpre : 0 < res → data <+: p.bytes) : data <+: p.bytes := by
  by_cases hres : 0 < res
  · exact hpre hres
  · rw [Int.toNat_of_nonpos (by omega)] at hlen
    rw [List.eq_nil_of_length_eq_zero hlen]
    exact List.nil_prefix

/-- A step of the sender, -/
theorem Carries.send (h : Carries t.solo dst p) (hlets : Pipe.Lets p q dst l₁)
    (hs : t.step l₁ = some t') : Carries t'.solo dst (p.push t.solo t'.solo) := by
  cases l₁ with
  | turn l =>
    have hs := Pausing.step_turn hs
    obtain ⟨w, hw, hpos⟩ := Solo.step_accepted hs
    refine h.push hw (fun hne => ?_) (Solo.step_shut hs)
    obtain ⟨res, ans, rfl, hres⟩ := hpos hne
    exact hlets hres
  | endRead i res data =>
    obtain ⟨ctx, -, heq⟩ := Pausing.step_endRead hs
    obtain ⟨htrace, haccepted⟩ := Pausing.endRead_frame ctx data t.solo
    refine h.push (w := []) ?_ (fun hne => absurd rfl hne) ?_
    · rw [heq, haccepted, List.append_nil]
    · rw [heq, Solo.Shut, Solo.Shut, htrace]
      exact id
  | endWrite i res =>
    obtain ⟨bytes, heq⟩ := Pausing.step_endWrite hs
    refine h.push (w := bytes.take res.toNat) (by rw [heq]; rfl) ?_ (by rw [heq]; exact id)
    intro hne
    apply hlets
    by_contra hres
    rw [Int.toNat_of_nonpos (by omega)] at hne
    exact hne List.take_zero

/-- and of the receiver. -/
theorem Carries.receive (h : Carries src t.solo p) (hlets : Pipe.Lets q p src l₁)
    (hs : t.step l₁ = some t') : Carries src t'.solo (p.pull l₁ t.solo t'.solo) := by
  cases l₁ with
  | turn l =>
    have hended : Pipe.isEnd (.turn l) = true → p.bytes = [] ∧ src.Shut := by
      intro hend
      cases l with
      | readComplete res data ans => exact hlets.2 (of_decide_eq_true hend)
      | _ => cases hend
    rcases Solo.step_delivered (Pausing.step_turn hs) with hsame | ⟨res, data, ans, rfl, hlen, hdel⟩
    · exact h.idle hsame hended
    · exact h.pull hdel (prefix_of_read hlen hlets.1) hended
  | endRead i res data =>
    obtain ⟨ctx, hlen, heq⟩ := Pausing.step_endRead hs
    refine h.pull ?_ (prefix_of_read hlen hlets) ?_
    · rw [heq, Pausing.endRead_delivered]
    · intro hend
      cases hend
  | endWrite i res =>
    obtain ⟨bytes, heq⟩ := Pausing.step_endWrite hs
    refine h.idle (by rw [heq]; rfl) ?_
    intro hend
    cases hend

end Carries

/-- In every run each direction carries what one kernel has accepted to the other. -/
theorem carries {ok : Duplex → Label → Prop} (h : machine.Reachable ok d) :
    Carries d.left d.right d.toRight ∧ Carries d.right d.left d.toLeft := by
  have hinit : ∀ d, machine.Init d →
      Carries d.left d.right d.toRight ∧ Carries d.right d.left d.toLeft := by
    intro d h0
    have hl := Init.left h0
    have hr := Init.right h0
    obtain ⟨-, -, hright, hleft⟩ := h0
    rw [hright, hleft]
    exact ⟨carries_init hl hr, carries_init hr hl⟩
  refine h.invariant hinit ?_
  intro d l d' _ hd _ hs
  rcases step_cases hs with ⟨l₁, s, -, hlets, hs₁, rfl⟩ | ⟨l₁, s, -, hlets, hs₁, rfl⟩
  · exact ⟨hd.1.send hlets hs₁, hd.2.receive hlets hs₁⟩
  · exact ⟨hd.1.receive hlets hs₁, hd.2.send hlets hs₁⟩

/-! ## End to end -/

/-- The places of the bytes on their way, nearest to the receiver's user first: consumed,
in the input buffer, under way, in the output buffers, and in the `Send` calls that are
suspended in the high-water-mark callback. -/
def journey (src dst : Solo) (p : Pipe) : List UInt8 :=
  dst.consumed ++ dst.conn.inputBuffer.readable ++ p.bytes ++ src.conn.queued ++
    Solo.suspended src.stack

theorem Carries.journey_eq {src dst : Solo} {p : Pipe} (h : Carries src dst p)
    (hsrc : Solo.machine.Reachable Solo.OutboundOk src)
    (hdst : Solo.machine.Reachable Solo.InboundOk dst) : journey src dst p = src.sent := by
  have hin := (Solo.inboundInv hdst).stream
  have hout := Solo.line_eq hsrc
  rw [journey, hin, ← h.stream, ← hout, Solo.line]

/-- **A byte sent is in one place, and in its turn.** In every run in which the left end
queues in turn and neither stops nor closes, and in which the reads of the right end fit its
buffer and nothing moves that it has cancelled: what the right user has consumed, what is in
its input buffer, what is under way, what the left end has queued and what its suspended
`Send` calls hold is, in this order, what the left user has sent. The same holds from right
to left. -/
theorem stream_end_to_end (d : Duplex) :
    (machine.Reachable (Ends Solo.OutboundOk Solo.InboundOk) d →
      journey d.left d.right d.toRight = d.left.sent) ∧
    (machine.Reachable (Ends Solo.InboundOk Solo.OutboundOk) d →
      journey d.right d.left d.toLeft = d.right.sent) := by
  constructor
  · intro h
    exact (carries h).1.journey_eq (left_reachable h) (right_reachable h)
  · intro h
    exact (carries h).2.journey_eq (right_reachable h) (left_reachable h)

/-- Two connections to run. -/
def plain : Duplex :=
  ⟨.start (.start Solo.plain), .start (.start Solo.plain), ⟨[], false⟩, ⟨[], false⟩⟩

theorem plain_init : machine.Init plain := ⟨Pausing.plain_init, Pausing.plain_init, rfl, rfl⟩

/-- Both ends are established; the left user sends five bytes, three are accepted in two
writes, of which two are delivered, and one is consumed. In between the right user stops
reading and starts again, and the read that was cancelled ends with `ECANCELED`. -/
def fiveBytes : List Label :=
  [.left (.turn (.call .onEstablishing 0)), .left (.turn (.ret 1)),
    .right (.turn (.call .onEstablishing 0)), .right (.turn (.ret 1)),
    .left (.turn (.call (.send [1, 2]) 2)), .left (.turn (.call (.send [3, 4, 5]) 0)),
    .left (.turn (.writeComplete 2 3)), .right (.turn (.readComplete 1 [1] 0)),
    .right (.turn (.call (.consume 1) 0)), .right (.turn (.ret 2)),
    .right (.turn (.call .stopReading 0)), .right (.turn (.call .startReading 3)),
    .left (.turn (.writeComplete 1 4)), .right (.turn (.readComplete 1 [2] 0)),
    .right (.endRead 0 (-125) [])]

/-- The theorem at a run in which every place holds a byte. -/
theorem stream_of_five_bytes :
    ∃ d : Duplex, machine.Reachable (Ends Solo.OutboundOk Solo.InboundOk) d ∧
      d.right.consumed = [1] ∧ d.right.conn.inputBuffer.readable = [2] ∧ d.toRight.bytes = [3] ∧
      d.left.conn.queued = [4, 5] ∧ journey d.left d.right d.toRight = [1, 2, 3, 4, 5] := by
  obtain ⟨d, hd, hc, hi, hp, hq, hsent⟩ := machine.exists_of_run
    (Ends Solo.OutboundOk Solo.InboundOk) plain_init fiveBytes
    (fun d => d.right.consumed = [1] ∧ d.right.conn.inputBuffer.readable = [2] ∧
      d.toRight.bytes = [3] ∧ d.left.conn.queued = [4, 5] ∧ d.left.sent = [1, 2, 3, 4, 5])
    (by decide +kernel)
  exact ⟨d, hd, hc, hi, hp, hq, hsent ▸ (stream_end_to_end d).1 hd⟩

/-! ## The end of the stream -/

/-- **The end of the stream comes behind everything that was sent.** In every run in which the
left end queues in turn, neither stops nor closes, and has waited for its output when it shuts
down, and in which the reads of the right end fit its buffer and nothing moves that it has
cancelled: once the right end has read the end of the stream, what its user has consumed and
what is in its input buffer is all the left user has sent, and it remains so. -/
theorem half_close_end_to_end (h : machine.Reachable (Ends Solo.SenderOk Solo.InboundOk) d)
    (hend : d.toRight.ended = true) :
    d.right.consumed ++ d.right.conn.inputBuffer.readable = d.left.sent := by
  have hcarries := (carries h).1
  have hleft := left_reachable h
  obtain ⟨hnil, hshut⟩ := hcarries.ended hend
  have hdown := hshut.shutdown (hleft.mono fun _ _ hok => hok.1)
  rw [(Solo.inboundInv (right_reachable h)).stream, ← Solo.accepted_of_shutdown hleft hdown,
    hcarries.stream, hnil, List.append_nil]

/-- The theorem at a run in which the left user sends two bytes, waits, and shuts down. The
right end has a write in flight when it reads the end; it closes, and the write that it has
cancelled ends with `ECANCELED`. -/
theorem half_close_of_two_bytes :
    ∃ d : Duplex, machine.Reachable (Ends Solo.SenderOk Solo.InboundOk) d ∧
      d.toRight.ended = true ∧ d.right.conn.state = .kDisconnected ∧ d.right.sent = [9] ∧
      d.rightEnd.cancelledWrites = [] ∧ d.toLeft.bytes = [] ∧
      d.right.consumed ++ d.right.conn.inputBuffer.readable = [1, 2] := by
  obtain ⟨d, hd, hend, hst, hown, hcancelled, hback, hsent⟩ := machine.exists_of_run
    (Ends Solo.SenderOk Solo.InboundOk) plain_init
    [.left (.turn (.call .onEstablishing 0)), .left (.turn (.ret 1)),
      .right (.turn (.call .onEstablishing 0)), .right (.turn (.ret 1)),
      .left (.turn (.call (.send [1, 2]) 2)), .left (.turn (.writeComplete 2 0)),
      .left (.turn (.call .shutDownWrite 0)), .right (.turn (.call (.send [9]) 2)),
      .right (.turn (.readComplete 2 [1, 2] 0)), .right (.turn (.call (.consume 1) 0)),
      .right (.turn (.ret 3)), .right (.turn (.readComplete 0 [] 0)),
      .right (.endWrite 0 (-125))]
    (fun d => d.toRight.ended = true ∧ d.right.conn.state = .kDisconnected ∧
      d.right.sent = [9] ∧ d.rightEnd.cancelledWrites = [] ∧ d.toLeft.bytes = [] ∧
      d.left.sent = [1, 2])
    (by decide +kernel)
  exact ⟨d, hd, hend, hst, hown, hcancelled, hback, hsent ▸ half_close_end_to_end hd hend⟩

/-! ## Runs that both directions come through -/

/-- The condition on the steps of an end: its sends find their turn, and its reads their
place. -/
def EndOk (s : Solo) (l : Solo.Label) : Prop := s.OutboundOk l ∧ s.InboundOk l

instance (s : Solo) (l : Solo.Label) : Decidable (EndOk s l) :=
  inferInstanceAs (Decidable (_ ∧ _))

abbrev BothOk : Duplex → Label → Prop := Ends EndOk EndOk

section Streams

variable (h : machine.Reachable BothOk d)
include h

theorem left_inbound : d.left.InboundInv :=
  Solo.inboundInv ((left_reachable h).mono fun _ _ hok => hok.2)

theorem right_inbound : d.right.InboundInv :=
  Solo.inboundInv ((right_reachable h).mono fun _ _ hok => hok.2)

/-- What the right end was given, what is under way and what the left end has queued is what
the left end has sent. -/
theorem rightward :
    d.right.delivered ++ (d.toRight.bytes ++ d.left.conn.queued ++ Solo.suspended d.left.stack) =
      d.left.sent := by
  have hline := Solo.line_eq ((left_reachable h).mono fun _ _ hok => hok.1)
  rw [← hline, Solo.line, (carries h).1.stream]
  simp only [List.append_assoc]

theorem leftward :
    d.left.delivered ++ (d.toLeft.bytes ++ d.right.conn.queued ++ Solo.suspended d.right.stack) =
      d.right.sent := by
  have hline := Solo.line_eq ((right_reachable h).mono fun _ _ hok => hok.1)
  rw [← hline, Solo.line, (carries h).2.stream]
  simp only [List.append_assoc]

end Streams

end Duplex

end Taotu
