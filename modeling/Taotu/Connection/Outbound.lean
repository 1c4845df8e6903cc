import Taotu.Buffer.ByteQueue
import Taotu.Connection.Solo

/-!
# Taotu.Connection.Outbound — the outbound byte stream

What is sent stands in a line: the bytes the kernel has accepted, the output
buffer, the pending buffer, and the messages of the `Send` calls that are
suspended in the high-water-mark callback.

1. **The line.** No step loses or invents a byte of it, and only `Send`
   changes the order (`lineStep`). In every run it is a permutation of what
   was sent (`line_perm`).
2. **FIFO.** Where each `Send` finds its turn (`OutboundOk`), the line is
   exactly what was sent, so the kernel has accepted a prefix of it
   (`outbound_fifo`). Turns are missed when a message is queued in front of
   the pending buffer, which happens after a write has failed, and when the
   high-water-mark callback sends.
-/

namespace Taotu

open Lib
open IoBuffer (kReservedCapacity)

namespace Connecting

/-! ## The output side of the handlers -/

variable {c c' : Connecting} {ans : ℕ} {t : Turn}

/-- Both output buffers are well-formed, and nothing was ever read from the
pending one, so it never moves its content. -/
structure OutputOk (c : Connecting) : Prop where
  output : c.outputBuffer.Wf
  pending : c.pendingOutputBuffer.Wf
  reading : c.pendingOutputBuffer.readingIndex = kReservedCapacity

/-- The bytes waiting in the two buffers, first the ones to be written first. -/
def queued (c : Connecting) : List UInt8 :=
  c.outputBuffer.readable ++ c.pendingOutputBuffer.readable

/-- The output side is untouched. -/
def SameOutput (c c' : Connecting) : Prop :=
  c'.outputBuffer = c.outputBuffer ∧ c'.pendingOutputBuffer = c.pendingOutputBuffer

theorem sameOutput_of_buffers (h : c'.buffers = c.buffers) : c.SameOutput c' :=
  ⟨congrArg (fun b => b.2.1) h, congrArg (fun b => b.2.2) h⟩

theorem OutputOk.of_same (hc : c.OutputOk) (h : c.SameOutput c') : c'.OutputOk :=
  ⟨h.1 ▸ hc.output, h.2 ▸ hc.pending, h.2 ▸ hc.reading⟩

theorem queued_of_same (h : c.SameOutput c') : c'.queued = c.queued := by
  rw [queued, h.1, h.2, queued]

theorem exec_output {a : Act} (ha : ∀ message, a ≠ .send message) (h : c.exec ans a = .ok t) :
    c.SameOutput t.conn := by
  by_cases hc : ∃ len, a = .consume len
  · obtain ⟨len, rfl⟩ := hc
    exact Except.ok.inj h ▸ ⟨rfl, rfl⟩
  · exact sameOutput_of_buffers (exec_buffers ha (not_exists.mp hc) h)

theorem onReadComplete_output {res : ℤ} {ctx : ReadContext}
    (h : c.onReadComplete ⟨res, false⟩ ctx ans = .ok t) : c.SameOutput t.conn := by
  rcases onReadComplete_cases h with ⟨-, input, -, rfl⟩ | ⟨-, rfl⟩ | ⟨-, rfl⟩ | ⟨-, rfl⟩
  · rw [callback]
    split
    · exact ⟨rfl, rfl⟩
    · exact sameOutput_of_buffers (c := { c with inputBuffer := input }) submitReadOnce_buffers
  · exact sameOutput_of_buffers doClosing_buffers
  · exact sameOutput_of_buffers submitReadOnce_buffers
  · exact ⟨rfl, rfl⟩

/-- `Send` queues at the end of the pending buffer while a write is in flight,
and at the end of the output buffer otherwise. -/
theorem sendRest_output (hc : c.OutputOk) {message : List UInt8} (hlen : message.length ≤ maxSize)
    (h : c.sendRest message ans = .ok t) :
    t.conn.OutputOk ∧
      ((c.writeInFlight = true ∧ t.conn.outputBuffer = c.outputBuffer ∧
          t.conn.pendingOutputBuffer.readable = c.pendingOutputBuffer.readable ++ message) ∨
        (c.writeInFlight = false ∧ t.conn.pendingOutputBuffer = c.pendingOutputBuffer ∧
          t.conn.outputBuffer.readable = c.outputBuffer.readable ++ message)) := by
  rcases sendRest_cases h with ⟨hfl, pending, hp, rfl⟩ | ⟨hfl, output, ho, rfl⟩
  · obtain ⟨hwf, hread, hr⟩ := IoBuffer.append_ok hc.pending hlen hp
    exact ⟨⟨hc.output, hwf, hr.trans hc.reading⟩, .inl ⟨hfl, rfl, hread⟩⟩
  · obtain ⟨hwf, hread, -⟩ := IoBuffer.append_ok hc.output hlen ho
    have hsame := sameOutput_of_buffers
      (@submitWriteOnce_buffers ans { c with outputBuffer := output })
    exact ⟨OutputOk.of_same (c := { c with outputBuffer := output }) ⟨hwf, hc.pending, hc.reading⟩ hsame,
      .inr ⟨hfl, hsame.2, by rw [hsame.1]; exact hread⟩⟩

/-- Behind a write completion the pending buffer may have become the output. -/
theorem writtenRest_output (hc : c.OutputOk)
    (hr : c.outputBuffer.readable = [] → c.outputBuffer.readingIndex = kReservedCapacity) :
    (c.writtenRest ans).conn.OutputOk ∧ (c.writtenRest ans).conn.queued = c.queued := by
  rw [writtenRest]
  split
  · have hsame := sameOutput_of_buffers (@submitWriteOnce_buffers ans c)
    exact ⟨hc.of_same hsame, queued_of_same hsame⟩
  · next hout =>
    have hnil : c.outputBuffer.readable = [] := by
      rw [hc.output.getReadableBytes_length] at hout
      exact List.eq_nil_of_length_eq_zero (by omega)
    split
    · -- the two buffers trade places, and the old output is empty
      have hsame := sameOutput_of_buffers (@submitWriteOnce_buffers ans { c with
        outputBuffer := c.pendingOutputBuffer
        pendingOutputBuffer := c.outputBuffer })
      refine ⟨OutputOk.of_same ⟨hc.pending, hc.output, hr hnil⟩ hsame, ?_⟩
      refine (queued_of_same hsame).trans ?_
      simp [queued, hnil]
    · rw [(callback_quiet _ _ _ (writeRest_quiet c)).2]
      exact ⟨hc, rfl⟩

/-- A write completion takes what was written off the front of the queue. -/
theorem onWriteComplete_output (hc : c.OutputOk) {res : ℤ}
    (hn : res.toNat ≤ c.outputBuffer.getReadableBytes) :
    (c.onWriteComplete ⟨res, false⟩ ans).conn.OutputOk ∧
      (c.onWriteComplete ⟨res, false⟩ ans).conn.queued = c.queued.drop res.toNat := by
  have hdrop : c.queued.drop res.toNat =
      c.outputBuffer.readable.drop res.toNat ++ c.pendingOutputBuffer.readable := by
    rw [hc.output.getReadableBytes_length] at hn
    rw [queued, List.drop_append_of_le_length hn]
  rw [onWriteComplete]
  dsimp only
  split
  · obtain ⟨hwf, hread⟩ := IoBuffer.refresh_spec hc.output hn
    have h := @writtenRest_output { c.writeDone with
      outputBuffer := c.outputBuffer.refresh res.toNat } ans ⟨hwf, hc.pending, hc.reading⟩
      (IoBuffer.refresh_empty hc.output)
    refine ⟨h.1, h.2.trans ?_⟩
    rw [hdrop, ← hread]
    rfl
  · next hres =>
    have hzero : res.toNat = 0 := by simpa using hres
    rw [hzero, List.drop_zero]
    split
    · have hsame := sameOutput_of_buffers (@submitWriteOnce_buffers ans c.writeDone)
      exact ⟨OutputOk.of_same ⟨hc.output, hc.pending, hc.reading⟩ hsame, queued_of_same hsame⟩
    · exact ⟨⟨hc.output, hc.pending, hc.reading⟩, rfl⟩

end Connecting

namespace Solo

/-! ## The line -/

variable {s s' : Solo} {l : Label} {ans : ℕ} {t : Turn} {v : Connecting.IoView}
  {st : ConnectionState}

/-- The message a suspended `Send` is going to queue. -/
def message : Frame → List UInt8
  | .sendRest m => m
  | _ => []

/-- The messages of the suspended `Send` calls. -/
def suspended (stack : List Frame) : List UInt8 := stack.flatMap message

/-- Everything that was sent, from the kernel back to the suspended calls. -/
def line (s : Solo) : List UInt8 := s.accepted ++ s.conn.queued ++ suspended s.stack

structure OutboundInv (s : Solo) : Prop where
  ok : s.conn.OutputOk
  /-- The vector of the write in flight is the output buffer, and not empty. -/
  flight : ∀ key ctx, s.writeOp = some (key, ctx) →
    ctx = Connecting.writeContext s.conn.addr s.conn.outputBuffer ∧
      s.conn.outputBuffer.getReadableBytes ≠ 0
  memory : ∀ m, .sendRest m ∈ s.stack → m.length ≤ maxSize

/-- A move keeps the write in flight, cancels it, or submits a new one. -/
theorem writeOp_after (hmove : Connecting.IoMove ans v st t)
    (hw : Match s.writeOp v.writeInFlight v.writeCancelKey) :
    t.io.foldl (writeOpAfter ans) s.writeOp = s.writeOp ∨
      t.io.foldl (writeOpAfter ans) s.writeOp = none ∨
      (t.io.foldl (writeOpAfter ans) s.writeOp =
          some (ans, Connecting.writeContext v.addr t.conn.outputBuffer) ∧
        t.conn.outputBuffer.getReadableBytes ≠ 0) := by
  cases hmove with
  | quiet out => exact .inl (by rw [out]; rfl)
  | submitRead c₁ free out => exact .inl (by rw [Turn.io_single out rfl]; rfl)
  | submitWrite c₁ free nonempty out =>
    rw [free] at hw
    rw [Turn.io_single out rfl, List.foldl_cons, List.foldl_nil, writeOpAfter, hw.none_of]
    split
    · exact .inl rfl
    · exact .inr (.inr ⟨rfl, nonempty⟩)
  | cancel out => exact .inr (.inl (by rw [out]; exact write_cancelled hw))

theorem outboundInv_take (hmove : Connecting.IoMove ans v st t)
    (hw : Match s.writeOp v.writeInFlight v.writeCancelKey) (hok : t.conn.OutputOk)
    (hflight : ∀ key ctx, s.writeOp = some (key, ctx) →
      ctx = Connecting.writeContext v.addr t.conn.outputBuffer ∧
        t.conn.outputBuffer.getReadableBytes ≠ 0)
    (hmem : ∀ m, .sendRest m ∈ t.frame.toList ++ s.stack → m.length ≤ maxSize) :
    (s.take ans t).OutboundInv := by
  refine ⟨hok, fun key ctx hop => ?_, hmem⟩
  have haddr : (s.take ans t).conn.addr = v.addr := hmove.addr
  rw [haddr]
  change t.io.foldl (writeOpAfter ans) s.writeOp = _ at hop
  rcases writeOp_after hmove hw with h | h | ⟨h, hne⟩ <;> rw [h] at hop
  · exact hflight key ctx hop
  · cases hop
  · cases hop
    exact ⟨rfl, hne⟩

theorem note_output (s : Solo) (a : Act) :
    (s.note a).conn = s.conn ∧ (s.note a).writeOp = s.writeOp ∧ (s.note a).accepted = s.accepted := by
  cases a <;> simp only [note, and_self]
  split <;> exact ⟨rfl, rfl, rfl⟩

/-- Frames of handlers other than `Send` hold no message. -/
theorem not_sendRest_of_closing {f : Frame} (h : Closing f) (m : List UInt8) : f ≠ .sendRest m := by
  rcases h with rfl | rfl <;> simp

/-! Only `Send` leaves a message in a frame. -/

theorem exec_keeps {c : Connecting} {a : Act} (ha : ∀ m, a ≠ .send m)
    (ht : c.exec ans a = .ok t) : ∀ f ∈ t.frame, ∀ m, f ≠ .sendRest m := by
  intro f hf m
  rcases exec_frame ht f hf with hcl | ⟨m', ham, -⟩ | ⟨-, rfl⟩
  · exact not_sendRest_of_closing hcl m
  · exact absurd ham (ha m')
  · nofun

theorem resume_keeps {c : Connecting} {g : Frame} (ht : c.resume ans g = .ok t) :
    ∀ f ∈ t.frame, ∀ m, f ≠ .sendRest m :=
  fun f hf => not_sendRest_of_closing (resume_frame ht f hf)

theorem onReadComplete_keeps {c : Connecting} {res : ℤ} {ctx : ReadContext}
    (ht : c.onReadComplete ⟨res, false⟩ ctx ans = .ok t) : ∀ f ∈ t.frame, ∀ m, f ≠ .sendRest m := by
  intro f hf m
  rcases onReadComplete_frame ht f hf with hcl | rfl
  · exact not_sendRest_of_closing hcl m
  · nofun

theorem onWriteComplete_keeps {c : Connecting} {cqe : Cqe} :
    ∀ f ∈ (c.onWriteComplete cqe ans).frame, ∀ m, f ≠ .sendRest m := by
  intro f hf m
  rw [onWriteComplete_frame f hf]
  nofun

theorem memory_take {stack : List Frame} (hkeeps : ∀ f ∈ t.frame, ∀ m, f ≠ .sendRest m)
    (hmem : ∀ m, .sendRest m ∈ stack → m.length ≤ maxSize) :
    ∀ m, .sendRest m ∈ t.frame.toList ++ stack → m.length ≤ maxSize := by
  intro m hm
  rcases List.mem_append.mp hm with h | h
  · exact absurd rfl (hkeeps _ (Option.mem_toList.mp h) m)
  · exact hmem m h

/-- A turn that leaves the output alone. -/
theorem OutboundInv.take_same (hs : s.OutboundInv) (s₁ : Solo)
    (hmove : Connecting.IoMove ans v st t) (haddr : v.addr = s.conn.addr)
    (hop : s₁.writeOp = s.writeOp) (hw : Match s.writeOp v.writeInFlight v.writeCancelKey)
    (hsame : s.conn.SameOutput t.conn)
    (hmem : ∀ m, .sendRest m ∈ t.frame.toList ++ s₁.stack → m.length ≤ maxSize) :
    (s₁.take ans t).OutboundInv := by
  refine outboundInv_take hmove (by rw [hop]; exact hw) (hs.ok.of_same hsame) ?_ hmem
  intro key ctx h
  rw [hsame.1, haddr]
  exact hs.flight key ctx (hop ▸ h)

/-- The queueing half of `Send`, called directly or resumed. -/
theorem outboundInv_sendRest (hs : s.OutboundInv) (hops : s.OpsOk) {m : List UInt8}
    (hlen : m.length ≤ maxSize) (ht : s.conn.sendRest m ans = .ok t) (s₁ : Solo)
    (hop : s₁.writeOp = s.writeOp)
    (hmem : ∀ m, .sendRest m ∈ s₁.stack → m.length ≤ maxSize) : (s₁.take ans t).OutboundInv := by
  obtain ⟨hok, hput⟩ := Connecting.sendRest_output hs.ok hlen ht
  refine outboundInv_take (Connecting.sendRest_ioMove ht) (by rw [hop]; exact hops.write) hok ?_ ?_
  · intro key ctx h
    rw [hop] at h
    rcases hput with ⟨-, hsame, -⟩ | ⟨hfl, -, -⟩
    · rw [hsame]
      exact hs.flight key ctx h
    · -- not in flight, so there is no write
      have hw := hops.write
      rw [hfl] at hw
      rw [hw.none_of] at h
      cases h
  · rw [sendRest_frame ht]
    exact hmem

theorem outboundInv_step (hs : s.OutboundInv) (hops : s.OpsOk) (hp : s.Performed l s') :
    s'.OutboundInv := by
  cases hp with
  | call a ans t hallowed ht =>
    obtain ⟨-, hop, -⟩ := note_output s a
    have hmem : ∀ m, .sendRest m ∈ (s.note a).stack → m.length ≤ maxSize := by
      rw [note_stack]
      exact hs.memory
    have hmove := Connecting.exec_ioMove ht
    by_cases ha : ∃ m, a = .send m
    · obtain ⟨m, rfl⟩ := ha
      rcases Connecting.send_cases ht with ⟨-, rfl⟩ | ⟨-, cb, rfl⟩ | ⟨-, -, ht⟩
      · exact hs.take_same (s.note _) hmove rfl hop hops.write ⟨rfl, rfl⟩ (memory_take nofun hmem)
      · refine hs.take_same (s.note _) hmove rfl hop hops.write ⟨rfl, rfl⟩ fun m' hm' => ?_
        rcases List.mem_append.mp hm' with h | h
        · simp only [Option.toList_some, List.mem_singleton, Frame.sendRest.injEq] at h
          exact h ▸ hallowed
        · exact hmem m' h
      · exact outboundInv_sendRest hs hops hallowed ht _ hop hmem
    · have ha := not_exists.mp ha
      exact hs.take_same (s.note _) hmove rfl hop hops.write (Connecting.exec_output ha ht)
        (memory_take (exec_keeps ha ht) hmem)
  | ret ans f rest t hstack ht =>
    have hmem : ∀ m, .sendRest m ∈ rest → m.length ≤ maxSize :=
      fun m h => hs.memory m (hstack ▸ List.mem_cons_of_mem f h)
    by_cases hf : ∃ m, f = .sendRest m
    · obtain ⟨m, rfl⟩ := hf
      exact outboundInv_sendRest hs hops (hs.memory m (hstack ▸ List.mem_cons_self)) ht
        { s with stack := rest } rfl hmem
    · have hbuffers := Connecting.resume_buffers (not_exists.mp hf) ht
      exact hs.take_same { s with stack := rest } (Connecting.resume_ioMove ht) rfl rfl
        hops.write (Connecting.sameOutput_of_buffers hbuffers) (memory_take (resume_keeps ht) hmem)
  | readComplete res data ans key ctx b extra t hstack hop hlen hle hfill ht =>
    have hout := Connecting.onReadComplete_output ht
    have hsame : s.conn.SameOutput t.conn := hout
    exact hs.take_same { s with readOp := none, delivered := s.delivered ++ data }
      (Connecting.onReadComplete_ioMove ht) rfl rfl hops.write hsame
      (memory_take (onReadComplete_keeps ht) hs.memory)
  | writeComplete res ans key ctx data hstack hop hle hdata =>
    obtain ⟨rfl, -⟩ := hs.flight key ctx hop
    exact outboundInv_take Connecting.onWriteComplete_ioMove (.idle _)
      (Connecting.onWriteComplete_output hs.ok hle).1 (fun _ _ h => by cases h)
      (memory_take onWriteComplete_keeps hs.memory)

theorem outboundInv_init (h : Init s) : s.OutboundInv := by
  obtain ⟨addr, fd, b₁, b₂, b₃, hwm, b₄, c, hc, rfl⟩ := h
  obtain ⟨b, hb, -, hout, hpend, -⟩ := Connecting.new_ok hc
  obtain ⟨hwf, -, hr⟩ := IoBuffer.new_spec (by decide) hb
  refine ⟨⟨?_, ?_, ?_⟩, fun _ _ h => (by cases h), fun _ h => (by cases h)⟩
  · exact hout ▸ hwf
  · exact hpend ▸ hwf
  · exact hpend ▸ hr

theorem outboundInv {ok : Solo → Label → Prop} (h : machine.Reachable ok s) : s.OutboundInv :=
  invariant OutboundInv (fun _ h0 => outboundInv_init h0)
    (fun _ _ hs => ⟨hs.ok, hs.flight, hs.memory⟩)
    (fun _ _ _ hreach _ hs _ hp => outboundInv_step hs (opsOk hreach) hp) h

/-- The two buffers with a message put where `Send` puts it. -/
def put (s : Solo) (m : List UInt8) : List UInt8 :=
  if s.conn.writeInFlight then s.conn.queued ++ m
  else s.conn.outputBuffer.readable ++ m ++ s.conn.pendingOutputBuffer.readable

/-- What a step does to the line. -/
inductive LineStep (s : Solo) (l : Label) (s' : Solo) : Prop where
  | kept (line : s'.line = s.line) (sent : s'.sent = s.sent)
  | suspend (m : List UInt8) (ans : ℕ) (label : l = .call (.send m) ans)
      (state : s.conn.state = .kConnected)
      (line : s'.line = s.accepted ++ s.conn.queued ++ (m ++ suspended s.stack))
      (sent : s'.sent = s.sent ++ m)
  | send (m : List UInt8) (ans : ℕ) (label : l = .call (.send m) ans)
      (state : s.conn.state = .kConnected)
      (below : s.conn.crossesHighWaterMark m.length = false)
      (line : s'.line = s.accepted ++ s.put m ++ suspended s.stack) (sent : s'.sent = s.sent ++ m)
  | resume (m : List UInt8) (ans : ℕ) (rest : List Frame) (label : l = .ret ans)
      (stack : s.stack = .sendRest m :: rest)
      (line : s'.line = s.accepted ++ s.put m ++ suspended rest) (sent : s'.sent = s.sent)

theorem message_nil {f : Frame} (hf : ∀ m, f ≠ .sendRest m) : message f = [] := by
  cases f <;> first | rfl | exact absurd rfl (hf _)

theorem suspended_frame {f : Option Frame} {stack : List Frame}
    (hf : ∀ g ∈ f, ∀ m, g ≠ .sendRest m) : suspended (f.toList ++ stack) = suspended stack := by
  cases f with
  | none => rfl
  | some g => simp [suspended, message_nil (hf g rfl)]

theorem put_eq (hs : s.OutboundInv) {m : List UInt8} (hlen : m.length ≤ maxSize)
    (ht : s.conn.sendRest m ans = .ok t) : t.conn.queued = s.put m := by
  rcases (Connecting.sendRest_output hs.ok hlen ht).2 with ⟨hfl, hsame, hread⟩ | ⟨hfl, hsame, hread⟩
  · rw [put, if_pos hfl, Connecting.queued, hsame, hread, Connecting.queued, List.append_assoc]
  · rw [put, if_neg (by simp [hfl]), Connecting.queued, hsame, hread]

theorem lineStep (hs : s.OutboundInv) (hp : s.Performed l s') : s.LineStep l s' := by
  cases hp with
  | call a ans t hallowed ht =>
    obtain ⟨hconn, hop, hacc⟩ := note_output s a
    have hstack := note_stack s a
    by_cases ha : ∃ m, a = .send m
    · obtain ⟨m, rfl⟩ := ha
      rcases Connecting.send_cases ht with ⟨hst, rfl⟩ | ⟨hst, cb, rfl⟩ | ⟨hst, hbelow, ht⟩
      · -- ignored: not connected
        refine .kept ?_ ?_
        · simp [line, take, hacc, hstack]
        · simp [take, note, hst]
      · refine .suspend m ans rfl hst ?_ ?_
        · simp [line, take, hacc, hstack, suspended, message]
        · simp [take, note, hst]
      · refine .send m ans rfl hst hbelow ?_ ?_
        · simp [line, take, hacc, hstack, sendRest_frame ht, put_eq hs hallowed ht]
        · simp [take, note, hst]
    · have hq := Connecting.queued_of_same (Connecting.exec_output (not_exists.mp ha) ht)
      refine .kept ?_ ?_
      · simp only [line, take, hacc, hstack, hq]
        rw [suspended_frame (exec_keeps (not_exists.mp ha) ht)]
      · cases a <;> first | rfl | exact absurd ⟨_, rfl⟩ ha
  | ret ans f rest t hstack ht =>
    by_cases hf : ∃ m, f = .sendRest m
    · obtain ⟨m, rfl⟩ := hf
      refine .resume m ans rest rfl hstack ?_ rfl
      have hlen := hs.memory m (hstack ▸ List.mem_cons_self)
      have hfr := sendRest_frame (show s.conn.sendRest m ans = .ok t from ht)
      simp [line, take, hfr, put_eq hs hlen ht]
    · have hq := Connecting.queued_of_same
        (Connecting.sameOutput_of_buffers (Connecting.resume_buffers (not_exists.mp hf) ht))
      refine .kept ?_ rfl
      simp only [line, take, hstack, hq]
      rw [suspended_frame (resume_keeps ht)]
      simp [suspended, message_nil (not_exists.mp hf)]
  | readComplete res data ans key ctx b extra t hstack hop hlen hle hfill ht =>
    have hout := Connecting.onReadComplete_output ht
    have hq : t.conn.queued = s.conn.queued := Connecting.queued_of_same hout
    refine .kept ?_ rfl
    simp only [line, take, hq]
    rw [suspended_frame (onReadComplete_keeps ht)]
  | writeComplete res ans key ctx data hstack hop hle hdata =>
    obtain ⟨rfl, -⟩ := hs.flight key ctx hop
    have hq := (@Connecting.onWriteComplete_output _ ans hs.ok _ hle).2
    refine .kept ?_ rfl
    -- what the kernel took is the front of the queue
    have htaken : data = s.conn.queued.take res.toNat := by
      cases (IoBuffer.load_take hs.ok.output hle).symm.trans hdata
      have hlen : res.toNat ≤ s.conn.outputBuffer.readable.length :=
        hs.ok.output.getReadableBytes_length ▸ hle
      rw [Connecting.queued, List.take_append_of_le_length hlen]
    simp only [line, take, hq]
    rw [suspended_frame onWriteComplete_keeps, htaken, List.append_assoc s.accepted,
      List.take_append_drop]

theorem line_init (h : Init s) : s.line = s.sent := by
  obtain ⟨addr, fd, b₁, b₂, b₃, hwm, b₄, c, hc, rfl⟩ := h
  obtain ⟨b, hb, -, hout, hpend, -⟩ := Connecting.new_ok hc
  have hread := (IoBuffer.new_spec (by decide) hb).2.1
  simp [line, start, Connecting.queued, hout, hpend, hread, suspended]

/-- In every run the line is what was sent, up to the order. -/
theorem line_perm {ok : Solo → Label → Prop} (h : machine.Reachable ok s) : s.line.Perm s.sent := by
  refine invariant (fun s => s.line.Perm s.sent) ?_ (fun s e hs => hs) ?_ h
  · exact fun s h0 => .of_eq (line_init h0)
  · intro s l s' hreach _ hs _ hp
    rw [List.perm_iff_count] at hs ⊢
    intro a
    have ha := hs a
    rw [line] at ha
    cases lineStep (outboundInv hreach) hp with
    | kept line sent =>
      rw [line, sent]
      exact hs a
    | suspend m ans label state line sent =>
      rw [line, sent]
      simp only [List.count_append] at ha ⊢
      omega
    | send m ans label state below line sent =>
      rw [line, sent, put]
      split <;> simp only [List.count_append, Connecting.queued] at ha ⊢ <;> omega
    | resume m ans rest label stack line sent =>
      rw [line, sent, put]
      simp only [stack, suspended, List.flatMap_cons, message] at ha
      split <;> simp only [List.count_append, Connecting.queued, suspended] at ha ⊢ <;> omega

/-! ## First in, first out -/

/-- Calls that cancel what is in flight. -/
def Cancels : Act → Prop
  | .forceClose | .doClosing | .stopReading | .stopWriting | .stopReadingWriting => True
  | _ => False

/-- A message that is queued now comes behind everything queued before: it goes
to the pending buffer, or nothing is pending and the output buffer need not
move its content. -/
def AppendOk (s : Solo) (m : List UInt8) : Prop :=
  s.conn.writeInFlight = true ∨
    ((m = [] ∨ s.conn.pendingOutputBuffer.readable = []) ∧ ¬ s.conn.outputBuffer.Compacts m.length)

/-- The condition on a `Send` in state `kConnected`: no other `Send` is waiting
in the high-water-mark callback, and the message is queued in its turn. -/
def SendOk (s : Solo) (m : List UInt8) : Prop :=
  s.conn.state = .kConnected → (m = [] ∨ suspended s.stack = []) ∧
    (s.conn.crossesHighWaterMark m.length = true ∨ s.AppendOk m)

/-- The condition on a callback that returns into `Send`. -/
def ResumeOk (s : Solo) : List Frame → Prop
  | .sendRest m :: _ => s.AppendOk m
  | _ => True

def OutboundOk (s : Solo) : Label → Prop
  | .call (.send m) _ => s.SendOk m
  | .call a _ => ¬ Cancels a
  | .ret _ => s.ResumeOk s.stack
  | .readComplete res _ _ => ¬ Connecting.ClosesOn res
  | .writeComplete _ _ => True

theorem put_in_turn {m : List UInt8} (h : s.AppendOk m) : s.put m = s.conn.queued ++ m := by
  rw [put]
  split
  · rfl
  · next hfl =>
    rcases (h.resolve_left hfl).1 with rfl | hp
    · simp [Connecting.queued]
    · simp [Connecting.queued, hp]

/-- Where every `Send` finds its turn, the line is what was sent. -/
theorem line_eq (h : machine.Reachable OutboundOk s) : s.line = s.sent := by
  refine invariant (fun s => s.line = s.sent) ?_ (fun s e hs => hs) ?_ h
  · exact fun s h0 => line_init h0
  · intro s l s' hreach _ hs hok hp
    cases lineStep (outboundInv hreach) hp with
    | kept line sent => rw [line, sent, hs]
    | suspend m ans label state line sent =>
      subst label
      obtain ⟨hturn, -⟩ := hok state
      rw [line, sent, ← hs, Solo.line]
      rcases hturn with rfl | h
      · simp
      · simp [h]
    | send m ans label state below line sent =>
      subst label
      obtain ⟨hturn, hput⟩ := hok state
      have hput := hput.resolve_left (by simp [below])
      rw [line, sent, put_in_turn hput, ← hs, Solo.line]
      rcases hturn with rfl | h
      · simp
      · simp [h]
    | resume m ans rest label stack line sent =>
      subst label
      have hput : s.AppendOk m := by
        rw [OutboundOk, stack] at hok
        exact hok
      rw [line, sent, put_in_turn hput, ← hs, Solo.line, stack]
      simp [suspended, message]

instance (s : Solo) (m : List UInt8) : Decidable (s.AppendOk m) :=
  inferInstanceAs (Decidable (_ = _ ∨ ((_ = _ ∨ _ = _) ∧ ¬ _)))

instance (s : Solo) (m : List UInt8) : Decidable (s.SendOk m) :=
  inferInstanceAs (Decidable (_ = _ → (_ = _ ∨ _ = _) ∧ (_ = _ ∨ s.AppendOk m)))

instance : (a : Act) → Decidable (Cancels a)
  | .forceClose | .doClosing | .stopReading | .stopWriting | .stopReadingWriting =>
    inferInstanceAs (Decidable True)
  | .onEstablishing | .send _ | .shutDownWrite | .startReading | .startWriting | .consume _ =>
    inferInstanceAs (Decidable False)

instance (s : Solo) : (stack : List Frame) → Decidable (s.ResumeOk stack)
  | .sendRest m :: _ => inferInstanceAs (Decidable (s.AppendOk m))
  | [] | .readRest _ :: _ | .writeRest :: _ | .closeRest :: _ | .closeEnd :: _
  | .establishRest :: _ => inferInstanceAs (Decidable True)

instance (s : Solo) : (l : Label) → Decidable (s.OutboundOk l)
  | .call (.send m) _ => inferInstanceAs (Decidable (s.SendOk m))
  | .call .onEstablishing _ | .call .shutDownWrite _ | .call .forceClose _ | .call .doClosing _
  | .call .startReading _ | .call .stopReading _ | .call .startWriting _ | .call .stopWriting _
  | .call .stopReadingWriting _ | .call (.consume _) _ => inferInstanceAs (Decidable (¬ Cancels _))
  | .ret _ => inferInstanceAs (Decidable (s.ResumeOk s.stack))
  | .readComplete res _ _ => inferInstanceAs (Decidable (¬ Connecting.ClosesOn res))
  | .writeComplete _ _ => inferInstanceAs (Decidable True)

/-- Queueing in turn stays inside the buffers. -/
theorem sendRest_inBounds (hs : s.OutboundInv) {m : List UInt8} (hlen : m.length ≤ maxSize)
    (h : s.AppendOk m) : s.conn.sendRest m ans ≠ .error .outOfBounds := by
  rw [Connecting.sendRest]
  have hmax := IoBuffer.maxSize_lt
  split
  · have hnc := IoBuffer.not_compacts_of_reading hs.ok.pending hs.ok.reading
      (show m.length < sizeRange by omega)
    rcases IoBuffer.append_cases hs.ok.pending hlen hnc with he | ⟨b', hb', -⟩
    · rw [he]
      simp
    · rw [hb']
      simp [pure, Except.pure]
  · next hfl =>
    rcases IoBuffer.append_cases hs.ok.output hlen (h.resolve_left hfl).2 with he | ⟨b', hb', -⟩
    · rw [he]
      simp
    · rw [hb']
      simp [pure, Except.pure]

theorem exec_inBounds (hs : s.OutboundInv) {a : Act} (hallowed : s.Allowed a)
    (hok : s.OutboundOk (.call a ans)) : s.conn.exec ans a ≠ .error .outOfBounds := by
  cases a <;> simp only [Connecting.exec, ne_eq, reduceCtorEq, not_false_eq_true]
  case onEstablishing =>
    simp only [Connecting.onEstablishing]
    split_ifs <;> simp
  case send m =>
    rw [Connecting.send]
    split_ifs with hst hcross
    · simp
    · exact sendRest_inBounds hs hallowed (((hok hst).2).resolve_left hcross)
    · simp

/-- Steps on the output side that meet the condition stay inside the buffers. -/
theorem perform_inBounds (hs : s.OutboundInv) (hen : s.Enabled l) (hok : s.OutboundOk l)
    (hl : ∀ res data ans, l ≠ .readComplete res data ans) : s.perform l ≠ .error .outOfBounds := by
  cases l with
  | call a ans =>
    rw [perform]
    exact fun h => exec_inBounds hs hen hok (bind_ok_eq_error.mp h)
  | ret ans =>
    rw [perform]
    rw [OutboundOk] at hok
    cases hstack : s.stack with
    | nil => exact absurd hstack hen
    | cons f rest =>
      rw [hstack] at hok
      intro h
      have h := bind_ok_eq_error.mp h
      cases f with
      | sendRest m =>
        exact sendRest_inBounds hs (hs.memory m (hstack ▸ List.mem_cons_self)) hok h
      | _ => cases h
  | readComplete res data ans => exact absurd rfl (hl res data ans)
  | writeComplete res ans =>
    rw [perform]
    obtain ⟨-, hall⟩ := hen
    rw [WriteAllowed] at hall
    cases hop : s.writeOp with
    | none => simp [hop] at hall
    | some op =>
      obtain ⟨key, ctx⟩ := op
      simp only [hop] at hall
      obtain ⟨rfl, -⟩ := hs.flight key ctx hop
      intro h
      cases (IoBuffer.load_take hs.ok.output hall).symm.trans (bind_ok_eq_error.mp h)

/-- **The outbound stream is first in, first out, if every `Send` finds its
turn.** In every run whose steps meet `OutboundOk` the kernel has accepted a
prefix of the messages of the `Send` calls made in state `kConnected`, in call
order; and no step on the output side copies outside a buffer. -/
theorem outbound_fifo (h : machine.Reachable OutboundOk s) :
    s.accepted <+: s.sent ∧
      ∀ l, s.Enabled l → s.OutboundOk l → (∀ res data ans, l ≠ .readComplete res data ans) →
        s.perform l ≠ .error .outOfBounds := by
  refine ⟨?_, fun l hen hok hl => perform_inBounds (outboundInv h) hen hok hl⟩
  rw [← line_eq h, line, List.append_assoc]
  exact List.prefix_append _ _

/-- The theorem at a run with a pending message, a partial write and a retry. -/
theorem outbound_fifo_partial_write :
    ∃ s : Solo, machine.Reachable OutboundOk s ∧ s.accepted = [1, 2, 3] ∧
      s.sent = [1, 2, 3, 4] ∧ s.accepted <+: s.sent := by
  obtain ⟨s, hs, hacc, hsent⟩ := machine.exists_of_run OutboundOk plain_init
    [.call .onEstablishing 0, .ret 1, .call (.send [1, 2]) 2, .call (.send [3, 4]) 0,
      .writeComplete 1 3, .writeComplete (-11) 4, .writeComplete 1 5, .writeComplete 1 6]
    (fun s => s.accepted = [1, 2, 3] ∧ s.sent = [1, 2, 3, 4]) (by decide +kernel)
  exact ⟨s, hs, hacc, hsent, (outbound_fifo hs).1⟩

/-- While the first message is in flight the second one is pending. The write
fails with `EIO`, which is only logged, and the third message is queued in
front of the second: the kernel gets 1, 3. -/
theorem failed_write_reorders :
    ∃ s : Solo, machine.Reachable (fun _ _ => True) s ∧ s.fault = none ∧
      s.sent = [1, 2, 3] ∧ s.accepted = [1, 3] ∧ ¬ s.accepted <+: s.sent :=
  machine.exists_of_run (fun _ _ => True) plain_init
    [.call .onEstablishing 0, .ret 1, .call (.send [1]) 2, .call (.send [2]) 0,
      .writeComplete (-5) 0, .call (.send [3]) 3, .writeComplete 2 4]
    (fun s => s.fault = none ∧ s.sent = [1, 2, 3] ∧ s.accepted = [1, 3] ∧ ¬ s.accepted <+: s.sent)
    (by decide +kernel)

end Solo

end Taotu
