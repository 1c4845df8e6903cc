import Taotu.Connection.Duplex
import Taotu.Connection.Noticing

/-!
# Taotu.Connection.Draining — what was sent can always still arrive

The only thing that moves queued bytes is the write in flight. It is submitted by `Send`,
and again by `OnWriteComplete` as long as there is output or pending output, or at once
after `EAGAIN` and `EINTR`. After any other error `OnWriteComplete` only logs, and after
the result 0 it does the same: what is queued is then left alone until the next `Send`.
`KnownWrites` excludes these results; then queued bytes are in flight, at any time and
whatever handlers are running (`flowing`).

With the read of the other end (`Noticing`) nothing gets stuck. From every state in which no
handler is running the kernels can bring all that was sent to the other end, without a call of
either user but the one that takes out what has arrived (`everything_arrives`).
-/

namespace Taotu

open Lib

namespace Connecting

open IoBuffer (kReservedCapacity)

variable {c : Connecting} {ans : ℕ} {t : Turn}

/-! ## What a turn does to the write -/

/-- Nothing will be written any more, or a write is in flight, or nothing is queued. -/
def Flows (c : Connecting) : Prop :=
  c.state = .kDisconnected ∨ c.writeInFlight = true ∨ c.queued = []

/-- The results of a write after which the write goes on. -/
def WritesOn (res : ℤ) : Prop := 0 < res ∨ RetriesOn res

instance (res : ℤ) : Decidable (WritesOn res) := inferInstanceAs (Decidable (_ ∨ _))

/-- A turn that touches neither the output nor its write. -/
theorem Flows.of_same {c' : Connecting} (h : c.Flows)
    (hst : c.state = .kDisconnected → c'.state = .kDisconnected)
    (hflag : c'.writeInFlight = c.writeInFlight) (hsame : c.SameOutput c') : c'.Flows := by
  rcases h with hclosed | hflight | hnil
  · exact .inl (hst hclosed)
  · exact .inr (.inl (hflag.trans hflight))
  · exact .inr (.inr ((queued_of_same hsame).trans hnil))

theorem submitWriteOnce_state : (c.submitWriteOnce ans).conn.state = c.state := by
  simp only [submitWriteOnce]
  split_ifs <;> rfl

/-- A write is submitted for what is in the output buffer. -/
theorem submitWriteOnce_flows (hout : c.outputBuffer.Wf) (hans : ans ≠ 0)
    (hpending : c.outputBuffer.readable = [] → c.pendingOutputBuffer.readable = []) :
    (c.submitWriteOnce ans).conn.Flows := by
  right
  by_cases hflight : c.writeInFlight = true
  · rw [submitWriteOnce_skip (.inl hflight)]
    exact .inl hflight
  · by_cases hzero : c.outputBuffer.getReadableBytes = 0
    · have hnil : c.outputBuffer.readable = [] := by
        rw [hout.getReadableBytes_length] at hzero
        exact List.eq_nil_of_length_eq_zero hzero
      rw [submitWriteOnce_skip (.inr hzero), queued, hnil, hpending hnil]
      exact .inr rfl
    · rw [Bool.not_eq_true] at hflight
      rw [submitWriteOnce_free hflight hzero]
      exact .inl (decide_eq_true hans)

theorem Flows.submitReadOnce (h : c.Flows) : (c.submitReadOnce ans).conn.Flows := by
  refine h.of_same ?_ ?_ (sameOutput_of_buffers submitReadOnce_buffers)
  · simp only [Connecting.submitReadOnce]
    split_ifs <;> exact id
  · simp only [Connecting.submitReadOnce]
    split_ifs <;> rfl

theorem doClosing_flows : c.doClosing.conn.Flows := by
  left
  by_cases h : c.state = .kDisconnected
  · rw [doClosing_closed h]
    exact h
  · exact (doClosing_closes h).after

theorem Flows.sendRest {message : List UInt8} (h : c.Flows) (hc : c.OutputOk)
    (hlen : message.length ≤ maxSize) (hans : ans ≠ 0) (ht : c.sendRest message ans = .ok t) :
    t.conn.Flows := by
  rcases sendRest_cases ht with ⟨hflight, pending, -, rfl⟩ | ⟨hfree, output, happend, rfl⟩
  · exact .inr (.inl hflight)
  · rcases h with hclosed | hflight | hnil
    · exact .inl (submitWriteOnce_state.trans hclosed)
    · cases hfree.symm.trans hflight
    · -- nothing was pending, so what is queued is the output
      refine submitWriteOnce_flows (IoBuffer.append_ok hc.output hlen happend).1 hans fun _ => ?_
      exact (List.append_eq_nil_iff.mp hnil).2

theorem Flows.send {message : List UInt8} (h : c.Flows) (hc : c.OutputOk)
    (hlen : message.length ≤ maxSize) (hans : ans ≠ 0) (ht : c.send message ans = .ok t) :
    t.conn.Flows := by
  rcases send_cases ht with ⟨-, rfl⟩ | ⟨-, cb, rfl⟩ | ⟨-, -, ht⟩
  · exact h
  · exact h
  · exact h.sendRest hc hlen hans ht

theorem Flows.onEstablishing (h : c.Flows) (ht : c.onEstablishing = .ok t) : t.conn.Flows := by
  rw [Connecting.onEstablishing] at ht
  dsimp only at ht
  split_ifs at ht with hst
  · cases ht
    refine h.of_same (fun hclosed => ?_) rfl ⟨rfl, rfl⟩
    cases hst.symm.trans hclosed
  · cases ht
    exact h

theorem Flows.shutDownWrite (h : c.Flows) : c.shutDownWrite.conn.Flows := by
  rw [Connecting.shutDownWrite]
  dsimp only
  split
  · next hst =>
    have hnot : c.state ≠ .kDisconnected := by
      rw [hst]
      decide
    split <;> exact h.of_same (fun hclosed => absurd hclosed hnot) rfl ⟨rfl, rfl⟩
  · exact h

theorem Flows.forceClose (h : c.Flows) : c.forceClose.conn.Flows := by
  rw [Connecting.forceClose]
  split
  · exact h
  · exact doClosing_flows

/-- `StartWriting` submits the write that is missing. -/
theorem Flows.startWriting (h : c.Flows) (hc : c.OutputOk) (hans : ans ≠ 0) :
    (c.submitWriteOnce ans).conn.Flows := by
  rcases h with hclosed | hflight | hnil
  · exact .inl (submitWriteOnce_state.trans hclosed)
  · rw [submitWriteOnce_skip (.inl hflight)]
    exact .inr (.inl hflight)
  · exact submitWriteOnce_flows hc.output hans fun _ => (List.append_eq_nil_iff.mp hnil).2

theorem Flows.exec {a : Act} (h : c.Flows) (hc : c.OutputOk) (hstop : a.isStop = false)
    (hlen : ∀ message, a = .send message → message.length ≤ maxSize) (hans : ans ≠ 0)
    (ht : c.exec ans a = .ok t) : t.conn.Flows := by
  cases a <;> simp only [Connecting.exec, Except.ok.injEq] at ht
  case onEstablishing => exact h.onEstablishing ht
  case send message => exact h.send hc (hlen message rfl) hans ht
  case shutDownWrite => exact ht ▸ h.shutDownWrite
  case forceClose => exact ht ▸ h.forceClose
  case doClosing => exact ht ▸ doClosing_flows
  case startReading => exact ht ▸ h.submitReadOnce
  case startWriting => exact ht ▸ h.startWriting hc hans
  case consume len => exact ht ▸ h.of_same id rfl ⟨rfl, rfl⟩
  all_goals cases hstop

theorem Flows.resume {f : Frame} (h : c.Flows) (hc : c.OutputOk)
    (hlen : ∀ message, f = .sendRest message → message.length ≤ maxSize) (hans : ans ≠ 0)
    (ht : c.resume ans f = .ok t) : t.conn.Flows := by
  cases f <;> simp only [Connecting.resume, Except.ok.injEq] at ht
  case sendRest message => exact h.sendRest hc (hlen message rfl) hans ht
  case readRest more =>
    rw [← ht, readRest]
    split
    · exact h
    · exact h.submitReadOnce
  case writeRest =>
    rw [← ht, (writeRest_quiet c).2]
    exact h
  case closeRest =>
    rw [← ht, (closeRest_quiet c).2]
    exact h
  case closeEnd => exact ht ▸ h
  case establishRest => exact ht ▸ h.submitReadOnce

theorem Flows.onReadComplete {res : ℤ} {ctx : ReadContext} (h : c.Flows)
    (ht : c.onReadComplete ⟨res, false⟩ ctx ans = .ok t) : t.conn.Flows := by
  have hdone : ∀ input, Flows { c.readDone with inputBuffer := input } :=
    fun _ => h.of_same id rfl ⟨rfl, rfl⟩
  rcases onReadComplete_cases ht with ⟨-, input, -, rfl⟩ | ⟨-, rfl⟩ | ⟨-, rfl⟩ | ⟨-, rfl⟩
  · rw [callback]
    split
    · exact hdone input
    · exact (hdone input).submitReadOnce
  · exact doClosing_flows
  · exact (hdone c.inputBuffer).submitReadOnce
  · exact hdone c.inputBuffer

/-- As long as there is something to write, a write is followed by another. -/
theorem writtenRest_flows (hc : c.OutputOk) (hans : ans ≠ 0) :
    (c.writtenRest ans).conn.Flows := by
  rw [writtenRest]
  split
  · next hout =>
    refine submitWriteOnce_flows hc.output hans fun hnil => ?_
    rw [hc.output.getReadableBytes_length, hnil] at hout
    exact absurd hout (Nat.lt_irrefl 0)
  · next hout =>
    split
    · next hpending =>
      -- the buffers trade places, and the new output is not empty
      refine submitWriteOnce_flows hc.pending hans fun hnil => ?_
      rw [hc.pending.getReadableBytes_length] at hpending
      rw [show c.pendingOutputBuffer.readable = [] from hnil] at hpending
      exact absurd hpending (Nat.lt_irrefl 0)
    · next hpending =>
      rw [(callback_quiet _ _ _ (writeRest_quiet c)).2]
      rw [hc.output.getReadableBytes_length] at hout
      rw [hc.pending.getReadableBytes_length] at hpending
      right; right
      rw [queued, List.eq_nil_of_length_eq_zero (Nat.eq_zero_of_not_pos hout),
        List.eq_nil_of_length_eq_zero (Nat.eq_zero_of_not_pos hpending), List.append_nil]

theorem onWriteComplete_flows {res : ℤ} (hc : c.OutputOk)
    (hout : c.outputBuffer.getReadableBytes ≠ 0) (hres : WritesOn res) (hans : ans ≠ 0) :
    (c.onWriteComplete ⟨res, false⟩ ans).conn.Flows := by
  rw [onWriteComplete]
  dsimp only
  split
  · refine writtenRest_flows (c := { c.writeDone with
      outputBuffer := c.outputBuffer.refresh res.toNat }) ?_ hans
    exact ⟨IoBuffer.refresh_wf hc.output _, hc.pending, hc.reading⟩
  · next hneg =>
    have hretry := hres.resolve_left hneg
    rw [if_pos (by simpa [RetriesOn] using hretry)]
    refine submitWriteOnce_flows hc.output hans fun hnil => ?_
    rw [hc.output.getReadableBytes_length] at hout
    exact absurd (congrArg List.length hnil) hout

/-! ## A message callback that takes out everything -/

/-- A read that brings something calls it, -/
theorem onReadComplete_message {n : ℕ} {ctx : ReadContext} {input : IoBuffer} (hpos : 0 < n)
    (hcallback : c.onMessageCallback = true) (h : received ctx n c.inputBuffer = .ok input) :
    c.onReadComplete ⟨(n : ℤ), false⟩ ctx ans =
      .ok ⟨{ c.readDone with inputBuffer := input },
        [({ c.readDone with inputBuffer := input }, .callback .onMessage)],
        some (.readRest false)⟩ := by
  have hreceived : received ctx ((n : ℤ).toNat) c.readDone.inputBuffer = .ok input := h
  have hregistered : c.readDone.onMessageCallback = true := hcallback
  rw [onReadComplete]
  simp only [Bool.false_eq_true, if_false, Int.natCast_pos.mpr hpos, if_true, hreceived, ok_bind,
    callback, hregistered]
  rfl

/-- and behind it there is room for the next read. -/
theorem refresh_all_writable {b : IoBuffer} (hb : b.Wf) (hr : kReservedCapacity ≤ b.readingIndex)
    (hne : b.readable ≠ []) : 0 < (b.refresh b.getReadableBytes).getWritableBytes := by
  have hpos := List.length_pos_iff.mpr hne
  rw [hb.length_readable] at hpos
  have hwriting := hb.writing_le
  rw [(IoBuffer.refresh_wf hb _).getWritableBytes_eq, IoBuffer.refresh, if_neg (Nat.lt_irrefl _)]
  show 0 < b.buffer.length - kReservedCapacity
  omega

end Connecting

namespace Solo

open Connecting

variable {s s' : Solo} {l : Label}

/-! ## Queued bytes are in flight -/

/-- The condition on a step: a write does not end with a result that is only logged. -/
def KnownWrites (_ : Solo) : Label → Prop
  | .writeComplete res _ => WritesOn res
  | _ => True

instance (s : Solo) : (l : Label) → Decidable (s.KnownWrites l)
  | .writeComplete res _ => inferInstanceAs (Decidable (WritesOn res))
  | .call _ _ | .ret _ | .readComplete _ _ _ => inferInstanceAs (Decidable True)

/-- In every run with submission queue entries, without a stop and without a write that is
only logged, what is queued on an open connection is being written. -/
theorem flowing (h : machine.Reachable (fun s l => s.Supplied l ∧ s.KnownWrites l) s) :
    s.conn.Flows := by
  refine invariant (fun s => s.conn.Flows) ?_ (fun s e hs => hs) ?_ h
  · rintro s ⟨addr, fd, b₁, b₂, b₃, hwm, b₄, c, hc, rfl⟩
    rcases Connecting.new_ok hc with ⟨b, hb, -, hout, hpend, -⟩
    have hread := (IoBuffer.new_spec (by decide) hb).2.1
    right; right
    simp [start, queued, hout, hpend, hread]
  · intro s l s' hreach _ hs hok hp
    have hout := outboundInv hreach
    cases hp with
    | call a ans t hallowed ht =>
      refine hs.exec hout.ok hok.1.2 ?_ hok.1.1 ht
      rintro message rfl
      exact hallowed
    | ret ans f rest t hstack ht =>
      refine hs.resume hout.ok ?_ hok.1 ht
      rintro message rfl
      exact hout.memory message (hstack ▸ List.mem_cons_self)
    | readComplete res data ans key ctx b extra t hstack hop hlen hle hfill ht =>
      have hfilled : Flows { s.conn with inputBuffer := b } := hs.of_same id rfl ⟨rfl, rfl⟩
      exact hfilled.onReadComplete ht
    | writeComplete res ans key ctx data hstack hop =>
      exact onWriteComplete_flows hout.ok (hout.flight key ctx hop).2 hok.2 hok.1

/-! ## Steps of the kernel -/

/-- A step that returns is a step. -/
theorem Performed.step (hp : s.Performed l s') (hf : s.fault = none) : s.step l = some s' := by
  have hperform : s.Enabled l ∧ s.perform l = .ok s' := by
    cases hp with
    | call a ans t hallowed ht => exact ⟨hallowed, by simp only [perform, ht, ok_bind]; rfl⟩
    | ret ans f rest t hstack ht =>
      refine ⟨?_, ?_⟩
      · rw [Enabled, hstack]
        exact List.cons_ne_nil f rest
      · simp only [perform, hstack, ht, ok_bind]
        rfl
    | readComplete res data ans key ctx b extra t hstack hop hlen hle hfill ht =>
      refine ⟨⟨hstack, ?_⟩, ?_⟩
      · rw [ReadAllowed, hop]
        exact ⟨hlen, hle⟩
      · simp only [perform, hop, hfill, ok_bind, ht]
        rfl
    | writeComplete res ans key ctx data hstack hop hle hdata =>
      refine ⟨⟨hstack, ?_⟩, ?_⟩
      · rw [WriteAllowed, hop]
        exact hle
      · simp only [perform, hop, hdata, ok_bind]
        rfl
  rw [Solo.step, if_pos ⟨hf, hperform.1⟩, hperform.2]

/-- The kernel takes the whole output buffer. -/
theorem exists_written (hs : s.OutboundInv) (hops : s.OpsOk) (hstack : s.stack = [])
    (hflight : s.conn.writeInFlight = true) :
    ∃ (n : ℕ) (s₁ : Solo), 0 < n ∧ s.Performed (.writeComplete (n : ℤ) 1) s₁ ∧ s₁.sent = s.sent ∧
      s₁.accepted.length = s.accepted.length + n ∧ (s₁.stack = [] ∨ s₁.stack = [.writeRest]) := by
  have hmatch := hops.write
  rw [hflight] at hmatch
  rcases Option.isSome_iff_exists.mp hmatch.isSome with ⟨⟨key, ctx⟩, hop⟩
  rcases hs.flight key ctx hop with ⟨rfl, hne⟩
  have hload := IoBuffer.load_take hs.ok.output (Nat.le_refl s.conn.outputBuffer.getReadableBytes)
  refine ⟨s.conn.outputBuffer.getReadableBytes, _, Nat.pos_of_ne_zero hne,
    .writeComplete (s.conn.outputBuffer.getReadableBytes : ℤ) 1 key _ _ hstack hop (Nat.le_refl _)
      hload, rfl, ?_, ?_⟩
  · simp [take, hs.ok.output.getReadableBytes_length]
  · simp only [take, hstack, List.append_nil]
    rcases hframe : (s.conn.onWriteComplete _ 1).frame with - | f
    · exact .inl rfl
    · rw [onWriteComplete_frame f hframe]
      exact .inr rfl

/-- The write-complete callback returns. -/
theorem exists_written_ret (hstack : s.stack = [.writeRest]) :
    ∃ s₁, s.Performed (.ret 1) s₁ ∧ s₁.sent = s.sent ∧ s₁.accepted = s.accepted ∧
      s₁.stack = [] := by
  refine ⟨_, .ret 1 .writeRest [] _ hstack rfl, rfl, rfl, ?_⟩
  simp only [take, writeRest]
  split <;> rfl

/-- The connection can be read into: it is open, has a message callback, and there is room in
its input buffer. -/
structure Ready (s : Solo) : Prop where
  stack : s.stack = []
  fault : s.fault = none
  established : s.conn.state ≠ .kConnecting
  opened : s.conn.state ≠ .kDisconnected
  callback : s.conn.onMessageCallback = true
  room : 0 < s.conn.inputBuffer.getWritableBytes

/-- The connection as the message callback finds it. -/
def arrived (s : Solo) (input : IoBuffer) (data : List UInt8) : Solo :=
  { s with readOp := none, delivered := s.delivered ++ data }.take 1
    ⟨{ s.conn.readDone with inputBuffer := input },
      [({ s.conn.readDone with inputBuffer := input }, .callback .onMessage)],
      some (.readRest false)⟩

/-- The kernel delivers what there is room for, -/
theorem exists_arrived (hs : s.InboundInv) (hready : s.Ready) (hop : s.readOp.isSome)
    {data : List UInt8} (hpos : 0 < data.length)
    (hroom : data.length ≤ s.conn.inputBuffer.getWritableBytes) :
    ∃ input, s.Performed (.readComplete data.length data 1) (s.arrived input data) ∧ input.Wf ∧
      IoBuffer.kReservedCapacity ≤ input.readingIndex ∧ input.readable ≠ [] := by
  rcases Option.isSome_iff_exists.mp hop with ⟨⟨key, ctx⟩, hop⟩
  cases hs.ctx key ctx hop
  have hle : data.length ≤
      ((readContext s.conn.addr s.conn.inputBuffer).iov.map Iovec.len).sum := by
    simp only [readContext]
    split_ifs <;> simp only [List.map_cons, List.map_nil, List.sum_cons, List.sum_nil] <;> omega
  have hfill := fill_readContext hs.wf s.conn.addr hle
  rcases received_fits hs.wf s.conn.addr hroom with ⟨input, hreceived, hwf, hread, hreading⟩
  refine ⟨input, ?_, hwf, hreading ▸ hs.reserved, ?_⟩
  · refine .readComplete _ data 1 key _ _ _ _ hready.stack hop rfl hle hfill ?_
    exact onReadComplete_message
      (c := { s.conn with inputBuffer := filled s.conn.inputBuffer data })
      hpos hready.callback hreceived
  · rw [hread]
    intro hnil
    rw [(List.append_eq_nil_iff.mp hnil).2] at hpos
    exact absurd hpos (Nat.lt_irrefl 0)

/-- the message callback takes out everything, and the next read is submitted. -/
theorem exists_read (hs : s.InboundInv) (hready : s.Ready) (hop : s.readOp.isSome)
    {data : List UInt8} (hpos : 0 < data.length)
    (hroom : data.length ≤ s.conn.inputBuffer.getWritableBytes) :
    ∃ s₁ s₂ s₃ n, s.Performed (.readComplete data.length data 1) s₁ ∧
      s₁.Performed (.call (.consume n) 1) s₂ ∧ s₂.Performed (.ret 1) s₃ ∧ s₃.Ready ∧
      s₃.delivered = s.delivered ++ data := by
  rcases exists_arrived hs hready hop hpos hroom with ⟨input, hread, hwf, hreserved, hne⟩
  have hstack : (s.arrived input data).stack = [.readRest false] := by
    simp [arrived, take, hready.stack]
  refine ⟨_, _, _, input.getReadableBytes, hread,
    .call (.consume input.getReadableBytes) 1 _ ⟨?_, Nat.le_refl _⟩ rfl,
    .ret 1 (.readRest false) [] _ ?_ rfl, ?_, ?_⟩
  · rw [hstack]
    exact List.mem_singleton_self _
  · exact hstack
  · -- no read is in flight while the callback runs, so the new one is submitted
    refine ⟨rfl, hready.fault, hready.established, hready.opened, hready.callback, ?_⟩
    exact refresh_all_writable hwf hreserved hne
  · rfl

/-! ## The conditions on the two ends -/

/-- A sender that queues in turn, and whose writes go on. -/
def SendingOk (s : Solo) (l : Label) : Prop := s.OutboundOk l ∧ s.Supplied l ∧ s.KnownWrites l

/-- A receiver whose reads find their place, and which is not deaf. -/
def ReceivingOk (s : Solo) (l : Label) : Prop := s.InboundOk l ∧ s.Supplied l ∧ s.KnownErrors l

instance (s : Solo) (l : Label) : Decidable (s.SendingOk l) :=
  inferInstanceAs (Decidable (_ ∧ _ ∧ _))

instance (s : Solo) (l : Label) : Decidable (s.ReceivingOk l) :=
  inferInstanceAs (Decidable (_ ∧ _ ∧ _))

/-- What a sender has not yet given to the kernel is being written. -/
theorem writing_of_lt (h : machine.Reachable SendingOk s) (hstack : s.stack = [])
    (hlt : s.accepted.length < s.sent.length) : s.conn.writeInFlight = true := by
  have hline := line_eq (h.mono fun _ _ hok => hok.1)
  rcases flowing (h.mono fun _ _ hok => hok.2) with hclosed | hflight | hnil
  · exact absurd hclosed (outbound_open (h.mono fun _ _ hok => hok.1))
  · exact hflight
  · rw [line, hnil, hstack, List.append_nil] at hline
    have hall : s.accepted = s.sent := (List.append_nil _).symm.trans hline
    rw [hall] at hlt
    exact absurd hlt (Nat.lt_irrefl _)

/-- A receiver that is not running a handler has a read in flight. -/
theorem reading_of_ready (h : machine.Reachable ReceivingOk s) (hready : s.Ready) :
    s.readOp.isSome := by
  have hread : s.conn.readInFlight = true := by
    rcases noticing (h.mono fun _ _ hok => hok.2) with (hst | hst | hread) | ⟨f, hf, -⟩
    · exact absurd hst hready.established
    · exact absurd hst hready.opened
    · exact hread
    · rw [hready.stack] at hf
      exact absurd hf List.not_mem_nil
  have hmatch := (opsOk h).read
  rw [hread] at hmatch
  exact hmatch.isSome

end Solo

namespace Duplex

open Connecting

variable {d : Duplex}

/-! ## Everything arrives -/

/-- The condition on a run in which the left end sends and the right end receives. -/
abbrev Flowing : Duplex → Label → Prop := Ends Solo.SendingOk Solo.ReceivingOk

/-- The calls of the users, apart from the one that takes out what has arrived. -/
def Asks : Label → Prop
  | .right (.turn (.call (.consume _) _)) => False
  | .left (.turn (.call _ _)) | .right (.turn (.call _ _)) => True
  | _ => False

/-- The connection after a turn of the left end to `s`, -/
def turnLeft (d : Duplex) (l : Solo.Label) (s : Solo) : Duplex :=
  ⟨d.leftEnd.turned s, d.rightEnd, d.toRight.push d.left s, d.toLeft.pull (.turn l) d.left s⟩

/-- and of the right end. -/
def turnRight (d : Duplex) (l : Solo.Label) (s : Solo) : Duplex :=
  ⟨d.leftEnd, d.rightEnd.turned s, d.toRight.pull (.turn l) d.right s, d.toLeft.push d.right s⟩

section Run

variable {d₀ : Duplex} {l : Solo.Label} {s : Solo} (hrun : machine.Counted Flowing Asks d₀ 0 d)
include hrun

/-- A run is continued by a step of an end that returns and that the network lets through. -/
theorem left_run (hp : d.left.Performed l s) (hf : d.left.fault = none)
    (hlets : Pipe.Lets d.toRight d.toLeft d.right (.turn l)) (hok : d.left.SendingOk l)
    (hl : ¬ Asks (.left (.turn l))) : machine.Counted Flowing Asks d₀ 0 (d.turnLeft l s) := by
  refine hrun.other (.left (.turn l)) hok ?_ hl
  show step d (.left (.turn l)) = _
  rw [step, if_pos hlets, Pausing.step_of_turn (hp.step hf)]
  rfl

theorem right_run (hp : d.right.Performed l s) (hf : d.right.fault = none)
    (hlets : Pipe.Lets d.toLeft d.toRight d.left (.turn l)) (hok : d.right.ReceivingOk l)
    (hl : ¬ Asks (.right (.turn l))) : machine.Counted Flowing Asks d₀ 0 (d.turnRight l s) := by
  refine hrun.other (.right (.turn l)) hok ?_ hl
  show step d (.right (.turn l)) = _
  rw [step, if_pos hlets, Pausing.step_of_turn (hp.step hf)]
  rfl

end Run

/-- No handler is running, the right end can be read into, and it was not told that there
are no more bytes. -/
structure Resting (d : Duplex) : Prop where
  stack : d.left.stack = []
  fault : d.left.fault = none
  receiver : d.right.Ready
  ended : d.toRight.ended = false

/-- The write that is in flight completes, and the write-complete callback returns. -/
theorem exists_flushed (h : machine.Reachable Flowing d) (hd : d.Resting)
    (hlt : d.left.accepted.length < d.left.sent.length) :
    ∃ d', machine.Counted Flowing Asks d 0 d' ∧ d'.Resting ∧ d'.left.sent = d.left.sent ∧
      d.left.accepted.length < d'.left.accepted.length ∧ d'.right = d.right := by
  have hleft := left_reachable h
  rcases Solo.exists_written (Solo.outboundInv hleft) (Solo.opsOk hleft) hd.stack
    (Solo.writing_of_lt hleft hd.stack hlt) with ⟨n, s₁, hn, hp₁, hsent, hacc, hstack⟩
  have hfault := (Solo.performed_fault hp₁).trans hd.fault
  have hmore : d.left.accepted.length < s₁.accepted.length := by omega
  have hrun := left_run .refl hp₁ hd.fault (fun _ => hd.ended)
    ⟨trivial, Nat.one_ne_zero, .inl (Int.natCast_pos.mpr hn)⟩ not_false
  rcases hstack with hnil | hrest
  · exact ⟨_, hrun, ⟨hnil, hfault, hd.receiver, hd.ended⟩, hsent, hmore, rfl⟩
  · rcases Solo.exists_written_ret hrest with ⟨s₂, hp₂, hsent₂, hacc₂, hstack₂⟩
    have hresume : s₁.ResumeOk s₁.stack := by
      rw [hrest]
      trivial
    refine ⟨_, left_run hrun hp₂ hfault trivial ⟨hresume, Nat.one_ne_zero, trivial⟩ not_false,
      ⟨hstack₂, (Solo.performed_fault hp₂).trans hfault, hd.receiver, hd.ended⟩,
      hsent₂.trans hsent, ?_, rfl⟩
    show d.left.accepted.length < s₂.accepted.length
    rw [hacc₂]
    exact hmore

/-- What is under way is read as far as there is room, and taken out. -/
theorem exists_received (h : machine.Reachable Flowing d) (hd : d.Resting)
    (hbytes : d.toRight.bytes ≠ []) :
    ∃ d', machine.Counted Flowing Asks d 0 d' ∧ d'.Resting ∧ d'.left = d.left ∧
      d.right.delivered.length < d'.right.delivered.length := by
  have hright := right_reachable h
  have hin := Solo.inboundInv (hright.mono fun _ _ hok => hok.1)
  set data := d.toRight.bytes.take d.right.conn.inputBuffer.getWritableBytes with hdata
  have hpos : 0 < data.length := by
    have hsome := List.length_pos_iff.mpr hbytes
    have hroom := hd.receiver.room
    rw [hdata, List.length_take]
    omega
  have hroom : data.length ≤ d.right.conn.inputBuffer.getWritableBytes := List.length_take_le _ _
  rcases Solo.exists_read hin hd.receiver (Solo.reading_of_ready hright hd.receiver) hpos hroom with
    ⟨s₁, s₂, s₃, n, hp₁, hp₂, hp₃, hready, hdelivered⟩
  have hfault₁ := (Solo.performed_fault hp₁).trans hd.receiver.fault
  have hfault₂ := (Solo.performed_fault hp₂).trans hfault₁
  have hcast : (0 : ℤ) < data.length := Int.natCast_pos.mpr hpos
  have hrun₁ := right_run .refl hp₁ hd.receiver.fault
    ⟨fun _ => List.take_prefix _ _, fun hzero => absurd hzero (by omega)⟩
    ⟨fun _ => .inl hroom, Nat.one_ne_zero, fun hlogged => absurd hlogged.1 (by omega)⟩ not_false
  have hrun₂ := right_run hrun₁ hp₂ hfault₁ trivial
    ⟨nofun, ⟨Nat.one_ne_zero, rfl⟩, trivial⟩ not_false
  have hrun₃ := right_run hrun₂ hp₃ hfault₂ trivial ⟨trivial, Nat.one_ne_zero, trivial⟩ not_false
  refine ⟨_, hrun₃, ⟨hd.stack, hd.fault, hready, ?_⟩, rfl, ?_⟩
  · have hnotEnd : Pipe.isEnd (.turn (.readComplete data.length data 1)) = false :=
      decide_eq_false (by omega)
    show (((d.toRight.ended || _) || _) || _) = false
    rw [hd.ended, hnotEnd]
    rfl
  · show d.right.delivered.length < s₃.delivered.length
    rw [hdelivered, List.length_append]
    omega

/-- The bytes that still have to be written, and those that still have to be read. -/
def remaining (d : Duplex) : ℕ :=
  (d.left.sent.length - d.left.accepted.length) + (d.left.sent.length - d.right.delivered.length)

/-- As long as something remains, the kernels can get on with it. -/
theorem exists_closer (h : machine.Reachable Flowing d) (hd : d.Resting) (hne : d.remaining ≠ 0) :
    ∃ d', machine.Counted Flowing Asks d 0 d' ∧ d'.Resting ∧ d'.left.sent = d.left.sent ∧
      d'.remaining < d.remaining := by
  by_cases hlt : d.left.accepted.length < d.left.sent.length
  · rcases exists_flushed h hd hlt with ⟨d', hrun, hd', hsent, hacc, hright⟩
    refine ⟨d', hrun, hd', hsent, ?_⟩
    rw [remaining, remaining, hsent, hright]
    omega
  · -- everything is written, so what remains is under way
    have hread : d.right.delivered.length < d.left.sent.length := by
      rw [remaining] at hne
      omega
    have hbytes : d.toRight.bytes ≠ [] := by
      intro hnil
      have hstream := congrArg List.length (carries h).1.stream
      rw [hnil, List.append_nil] at hstream
      omega
    rcases exists_received h hd hbytes with ⟨d', hrun, hd', hleft, hdelivered⟩
    refine ⟨d', hrun, hd', by rw [hleft], ?_⟩
    rw [remaining, remaining, hleft]
    omega

/-- When nothing remains, the right end has everything. -/
theorem received_of_remaining (h : machine.Reachable Flowing d) (hzero : d.remaining = 0) :
    d.right.consumed ++ d.right.conn.inputBuffer.readable = d.left.sent := by
  have hstream := (Solo.inboundInv ((right_reachable h).mono fun _ _ hok => hok.1)).stream
  have hjourney := (carries h).1.journey_eq ((left_reachable h).mono fun _ _ hok => hok.1)
    ((right_reachable h).mono fun _ _ hok => hok.1)
  have hfront : d.right.delivered <+: d.left.sent := by
    rw [← hjourney, journey, hstream]
    simp only [List.append_assoc]
    exact List.prefix_append _ _
  rw [hstream]
  refine hfront.eq_of_length_le ?_
  rw [remaining] at hzero
  omega

/-- **What was sent can always still arrive.** In every run in which the sends of the left end
find their turn and its writes are not given up, and the reads of the right end find their place
and are not given up: from every state in which no handler is running and the right end is open
and has room, the kernels can deliver everything the left user has sent, by completing what is
in flight and without a call of a user but those that take out what has arrived. -/
theorem everything_arrives (h : machine.Reachable Flowing d) (hd : d.Resting) :
    ∃ d', machine.Counted Flowing Asks d 0 d' ∧ d'.Resting ∧ d'.left.sent = d.left.sent ∧
      d'.right.consumed ++ d'.right.conn.inputBuffer.readable = d.left.sent := by
  have hdown : ∀ e : Duplex,
      (machine.Reachable Flowing e ∧ e.Resting ∧ e.left.sent = d.left.sent) → e.remaining ≠ 0 →
      ∃ e', machine.Counted Flowing Asks e 0 e' ∧
        (machine.Reachable Flowing e' ∧ e'.Resting ∧ e'.left.sent = d.left.sent) ∧
        e'.remaining < e.remaining := by
    rintro e ⟨hreach, hrest, hsent⟩ hne
    rcases exists_closer hreach hrest hne with ⟨e', hrun, hrest', hsent', hcloser⟩
    exact ⟨e', hrun, ⟨hrun.reachable hreach, hrest', hsent'.trans hsent⟩, hcloser⟩
  rcases Machine.Counted.exists_of_measure remaining hdown ⟨h, hd, rfl⟩ with
    ⟨d', hrun, ⟨hreach', hd', hsent'⟩, hzero⟩
  exact ⟨d', hrun, hd', hsent', hsent' ▸ received_of_remaining hreach' hzero⟩

/-- The theorem at a state in which a byte was consumed, one is under way, three are queued in
the two buffers of the left end, and the write of it was interrupted. -/
theorem everything_arrives_of_five :
    ∃ d d' : Duplex, machine.Reachable Flowing d ∧ d.right.consumed = [1] ∧
      d.toRight.bytes = [2] ∧ d.left.conn.queued = [3, 4, 5] ∧
      machine.Counted Flowing Asks d 0 d' ∧
      d'.right.consumed ++ d'.right.conn.inputBuffer.readable = [1, 2, 3, 4, 5] := by
  obtain ⟨d, hd, hc, hp, hq, hsent, hrest⟩ := machine.exists_of_run Flowing plain_init
    [.left (.turn (.call .onEstablishing 1)), .left (.turn (.ret 1)),
      .right (.turn (.call .onEstablishing 1)), .right (.turn (.ret 1)),
      .left (.turn (.call (.send [1, 2, 3]) 2)), .left (.turn (.call (.send [4, 5]) 1)),
      .left (.turn (.writeComplete 2 3)), .right (.turn (.readComplete 1 [1] 1)),
      .right (.turn (.call (.consume 1) 1)), .right (.turn (.ret 2)),
      .left (.turn (.writeComplete (-4) 4))]
    (fun d => d.right.consumed = [1] ∧ d.toRight.bytes = [2] ∧ d.left.conn.queued = [3, 4, 5] ∧
      d.left.sent = [1, 2, 3, 4, 5] ∧ d.left.stack = [] ∧ d.left.fault = none ∧
      d.right.stack = [] ∧ d.right.fault = none ∧ d.right.conn.state = .kConnected ∧
      d.right.conn.onMessageCallback = true ∧ 0 < d.right.conn.inputBuffer.getWritableBytes ∧
      d.toRight.ended = false)
    (by decide +kernel)
  obtain ⟨hstack, hfault, hstack', hfault', hst, hcb, hroom, hended⟩ := hrest
  have hready : d.right.Ready := ⟨hstack', hfault', by simp [hst], by simp [hst], hcb, hroom⟩
  obtain ⟨d', hrun, -, -, hall⟩ := everything_arrives hd ⟨hstack, hfault, hready, hended⟩
  exact ⟨d, d', hd, hc, hp, hq, hrun, hsent ▸ hall⟩

end Duplex

end Taotu
