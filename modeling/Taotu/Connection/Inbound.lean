import Taotu.Buffer.ByteQueue
import Taotu.Connection.Solo

/-!
# Taotu.Connection.Inbound — the inbound byte stream

What is read from the socket reaches the message callback unchanged: the bytes
consumed so far and the readable bytes of the input buffer are together the
bytes the kernel delivered.

1. **The read path.** The vectors of `SubmitReadOnce` are the free tail of the
   input buffer and the extra buffer; `fill_readContext` says what the kernel
   leaves there and `received_cases` what `OnReadComplete` makes of it.
2. **Where it holds.** Along every run whose read completions meet `ReadOk`
   the stream is exact (`inbound`).
3. **Where it fails.** The part of a read that did not fit into the tail is
   appended. If it fits into the space that the callback has freed in front of
   the content, `Append` moves the content, and then the copy leaves the
   buffer (`perform_of_not_readOk`).
-/

namespace Taotu

open Lib
open IoBuffer (addSize_eq maxSize_lt kReservedCapacity)

namespace Connecting

/-! ## The read path -/

variable {b : IoBuffer} {data : List UInt8}

theorem blit_nil (xs : List UInt8) (i : ℕ) : blit xs i [] = xs := by
  simp [blit]

/-- The input buffer after the kernel has filled its tail. -/
def filled (b : IoBuffer) (data : List UInt8) : IoBuffer :=
  { b with buffer := blit b.buffer b.writingIndex (data.take b.getWritableBytes) }

/-- The read context after the kernel has put the rest into the extra buffer. -/
def filledContext (self : ℕ) (b : IoBuffer) (data : List UInt8) : ReadContext :=
  { readContext self b with extraBuffer := data.drop b.getWritableBytes }

theorem filledContext_writable (self : ℕ) (b : IoBuffer) (data : List UInt8) :
    (filledContext self b data).writable = b.getWritableBytes := rfl

/-- The kernel has put the first bytes into the tail and the rest into the
extra buffer, whichever vectors were submitted. -/
theorem fill_readContext (hb : b.Wf) (self : ℕ)
    (hle : data.length ≤ ((readContext self b).iov.map Iovec.len).sum) :
    Solo.fill (readContext self b).iov data b [] =
      .ok (filled b data, (filledContext self b data).extraBuffer) := by
  have h2 := hb.writing_le
  have hstore : b.store b.writingIndex (data.take b.getWritableBytes) =
      .ok (filled b data) := by
    refine IoBuffer.store_ok ?_
    rw [hb.getWritableBytes_eq, List.length_take]
    omega
  revert hle
  simp only [readContext, filledContext]
  split_ifs with h0 hsmall
  · -- no tail: everything is in the extra buffer
    intro hle
    simp only [List.map_cons, List.map_nil, List.sum_cons, List.sum_nil, Nat.add_zero] at hle
    simp only [Solo.fill, filled, h0, List.take_zero, blit_nil, List.drop_zero,
      List.take_of_length_le hle]
  · -- a short tail and the extra buffer
    intro hle
    simp only [List.map_cons, List.map_nil, List.sum_cons, List.sum_nil, Nat.add_zero] at hle
    have hextra : (data.drop b.getWritableBytes).length ≤ extraBufferSize := by
      rw [List.length_drop]
      omega
    simp only [Solo.fill, hstore, ok_bind, List.take_of_length_le hextra]
  · -- a tail that is large enough on its own
    intro hle
    simp only [List.map_cons, List.map_nil, List.sum_cons, List.sum_nil, Nat.add_zero] at hle
    simp only [Solo.fill, hstore, ok_bind]
    rw [List.drop_of_length_le hle]

/-- What does not fit into the tail fits into the extra buffer. -/
theorem overflow_le (self : ℕ) (hle : data.length ≤ ((readContext self b).iov.map Iovec.len).sum) :
    (data.drop b.getWritableBytes).length ≤ maxSize := by
  have hextra : extraBufferSize ≤ maxSize := by decide
  revert hle
  simp only [readContext, List.length_drop]
  split_ifs <;>
    simp only [List.map_cons, List.map_nil, List.sum_cons, List.sum_nil, Nat.add_zero] <;>
    intro hle <;> omega

theorem refreshW_tail (hb : b.Wf) (hle : data.length ≤ b.getWritableBytes) :
    ({ b with buffer := blit b.buffer b.writingIndex data } : IoBuffer).refreshW data.length =
      ⟨blit b.buffer b.writingIndex data, b.readingIndex, b.writingIndex + data.length⟩ := by
  have h2 := hb.writing_le
  have h3 := hb.size_le
  have h4 := maxSize_lt
  rw [hb.getWritableBytes_eq] at hle
  rw [IoBuffer.refreshW, addSize_eq (show b.writingIndex + data.length < sizeRange by omega)]

/-- A read of `n` bytes either fits into the tail or overflows by more than the
space in front of the content. -/
def FitsOrGrows (b : IoBuffer) (n : ℕ) : Prop :=
  n ≤ b.getWritableBytes ∨ b.readingIndex < kReservedCapacity + (n - b.getWritableBytes)

instance (b : IoBuffer) (n : ℕ) : Decidable (FitsOrGrows b n) :=
  inferInstanceAs (Decidable ((_ : ℕ) ≤ _ ∨ (_ : ℕ) < _))

/-- With the tail full, appending moves the content exactly if the string fits
into the space in front of it. -/
theorem full_compacts_iff (hb : b.Wf) (hr : kReservedCapacity ≤ b.readingIndex)
    (hfull : b.writingIndex = b.buffer.length) {len : ℕ} (hlen : len ≤ maxSize) :
    b.Compacts len ↔ 0 < len ∧ kReservedCapacity + len ≤ b.readingIndex := by
  have h4 := maxSize_lt
  rw [hb.compacts_iff (by omega), hfull, if_pos (by omega)]
  omega

/-- A read that fits into the tail. -/
theorem received_fits (hb : b.Wf) (self : ℕ) (hn : data.length ≤ b.getWritableBytes) :
    ∃ b', received (filledContext self b data) data.length (filled b data) = .ok b' ∧ b'.Wf ∧
      b'.readable = b.readable ++ data ∧ b'.readingIndex = b.readingIndex := by
  have h2 := hb.writing_le
  have hfit : b.writingIndex + data.length ≤ b.buffer.length := by
    rw [hb.getWritableBytes_eq] at hn
    omega
  obtain ⟨hwf, hread⟩ := hb.extend hfit
  refine ⟨_, ?_, hwf, hread, rfl⟩
  rw [received, filledContext_writable, if_pos hn, filled, List.take_of_length_le hn, refreshW_tail hb hn]

/-- A read that overflows the tail is an append to a full buffer. -/
theorem received_overflow (hb : b.Wf) (self : ℕ) (data : List UInt8)
    (hn : b.getWritableBytes < data.length) :
    ∃ b₁ : IoBuffer, received (filledContext self b data) data.length (filled b data) =
        b₁.append (data.drop b.getWritableBytes) ∧
      b₁.Wf ∧ b₁.readable = b.readable ++ data.take b.getWritableBytes ∧
      b₁.readingIndex = b.readingIndex ∧ b₁.writingIndex = b₁.buffer.length := by
  have h2 := hb.writing_le
  have hlen : (data.take b.getWritableBytes).length = b.getWritableBytes := by simpa using hn.le
  have hfit : b.writingIndex + (data.take b.getWritableBytes).length = b.buffer.length := by
    rw [hlen, hb.getWritableBytes_eq]
    omega
  obtain ⟨hwf, hread⟩ := hb.extend hfit.le
  refine ⟨_, ?_, hwf, hread, rfl, by rw [length_blit hfit.le, hfit]⟩
  have hrest : (data.drop b.getWritableBytes).take (data.length - b.getWritableBytes) =
      data.drop b.getWritableBytes := List.take_of_length_le (by rw [List.length_drop])
  have href := refreshW_tail hb hlen.le
  rw [received, filledContext_writable, if_neg (by omega), filledContext, hrest, ← href, hlen,
    filled]

/-- `OnReadComplete` on the memory the kernel has filled: the bytes get behind
the readable ones, unless the vector throws. -/
theorem received_cases (hb : b.Wf) (hr : kReservedCapacity ≤ b.readingIndex) (self : ℕ)
    (hle : data.length ≤ ((readContext self b).iov.map Iovec.len).sum)
    (hok : FitsOrGrows b data.length) :
    received (filledContext self b data) data.length (filled b data) = .error .lengthError ∨
      ∃ b', received (filledContext self b data) data.length (filled b data) = .ok b' ∧ b'.Wf ∧
        b'.readable = b.readable ++ data ∧ b'.readingIndex = b.readingIndex := by
  by_cases hn : data.length ≤ b.getWritableBytes
  · exact .inr (received_fits hb self hn)
  · obtain ⟨b₁, heq, hwf, hread, hri, hfull⟩ := received_overflow hb self data (by omega)
    have hmax := overflow_le self hle
    have hnc : ¬ b₁.Compacts (data.drop b.getWritableBytes).length := by
      rw [full_compacts_iff hwf (hri ▸ hr) hfull hmax, hri, List.length_drop]
      rcases hok with h | h <;> omega
    rw [heq]
    rcases IoBuffer.append_cases hwf hmax hnc with h | ⟨b', h, hwf', hread', hri', -⟩
    · exact .inl h
    · refine .inr ⟨b', h, hwf', ?_, hri'.trans hri⟩
      rw [hread', hread, List.append_assoc, List.take_append_drop]

/-- Otherwise the copy leaves the buffer. -/
theorem received_outOfBounds (hb : b.Wf) (hr : kReservedCapacity ≤ b.readingIndex) (self : ℕ)
    (hle : data.length ≤ ((readContext self b).iov.map Iovec.len).sum)
    (hok : ¬ FitsOrGrows b data.length) :
    received (filledContext self b data) data.length (filled b data) = .error .outOfBounds := by
  obtain ⟨hn, hin⟩ := not_or.mp hok
  obtain ⟨b₁, heq, hwf, hread, hri, hfull⟩ := received_overflow hb self data (by omega)
  have hmax := overflow_le self hle
  rw [heq]
  refine IoBuffer.append_of_compacts hwf hmax ?_
  rw [full_compacts_iff hwf (hri ▸ hr) hfull hmax, hri, List.length_drop]
  omega

/-- The input buffer behind `OnReadComplete`, up to its callback. -/
theorem onReadComplete_input {c : Connecting} {ans self : ℕ} {res : ℤ} {t : Turn} (hb : b.Wf)
    (hr : kReservedCapacity ≤ b.readingIndex) (hlen : data.length = res.toNat)
    (hle : data.length ≤ ((readContext self b).iov.map Iovec.len).sum)
    (hok : 0 < res → FitsOrGrows b res.toNat)
    (ht : onReadComplete ⟨res, false⟩ (filledContext self b data) ans
      { c with inputBuffer := filled b data } = .ok t) :
    t.conn.inputBuffer.Wf ∧ kReservedCapacity ≤ t.conn.inputBuffer.readingIndex ∧
      t.conn.inputBuffer.readable = b.readable ++ data := by
  have hnone : res ≤ 0 → t.conn.inputBuffer = filled b data →
      t.conn.inputBuffer.Wf ∧ kReservedCapacity ≤ t.conn.inputBuffer.readingIndex ∧
        t.conn.inputBuffer.readable = b.readable ++ data := by
    intro hres hin
    have hnil : data = [] := List.eq_nil_of_length_eq_zero (by omega)
    have hsame : filled b data = b := by rw [filled, hnil, List.take_nil, blit_nil]
    rw [hin, hsame, hnil, List.append_nil]
    exact ⟨hb, hr, rfl⟩
  rcases onReadComplete_cases ht with ⟨hres, input, hin, rfl⟩ | ⟨hres, rfl⟩ | ⟨hres, rfl⟩ | ⟨hres, rfl⟩
  · rw [← hlen] at hin hok
    have hconn : (callback c.onMessageCallback .onMessage (.readRest false)
        { readDone { c with inputBuffer := filled b data } with inputBuffer := input }
        (submitReadOnce ans)).conn.inputBuffer = input := by
      rw [callback]
      split
      · rfl
      · exact congrArg Prod.fst submitReadOnce_buffers
    rcases received_cases hb hr self hle (hok hres) with h | ⟨b', h, hwf, hread, hri⟩
    · rw [h] at hin
      cases hin
    · rw [h] at hin
      cases hin
      rw [hconn]
      exact ⟨hwf, hri ▸ hr, hread⟩
  · exact hnone hres.nonpos (congrArg Prod.fst doClosing_buffers)
  · exact hnone hres.neg.le (congrArg Prod.fst submitReadOnce_buffers)
  · exact hnone hres.1.le rfl

end Connecting

/-! ## The stream -/

namespace Solo

variable {s s' : Solo} {ans : ℕ} {t : Turn} {v : Connecting.IoView} {st : ConnectionState}

/-- The condition on a step: a read completion fits or grows the buffer, and no
read is started by hand while the message callback is running. -/
def InboundOk (s : Solo) : Label → Prop
  | .call a _ => a = .startReading → .readRest false ∉ s.stack
  | .readComplete res _ _ => 0 < res → Connecting.FitsOrGrows s.conn.inputBuffer res.toNat
  | _ => True

instance (s : Solo) : (l : Label) → Decidable (s.InboundOk l)
  | .call _ _ => inferInstanceAs (Decidable (_ = _ → _ ∉ _))
  | .readComplete _ _ _ => inferInstanceAs (Decidable ((0 : ℤ) < _ → _))
  | .ret _ | .writeComplete _ _ => inferInstanceAs (Decidable True)

structure InboundInv (s : Solo) : Prop where
  wf : s.conn.inputBuffer.Wf
  reserved : kReservedCapacity ≤ s.conn.inputBuffer.readingIndex
  stream : s.consumed ++ s.conn.inputBuffer.readable = s.delivered
  /-- The vectors of the read in flight describe the buffer as it is. -/
  ctx : ∀ key ctx, s.readOp = some (key, ctx) →
    ctx = Connecting.readContext s.conn.addr s.conn.inputBuffer
  /-- While a read is in flight nobody consumes. -/
  idle : s.readOp.isSome → .readRest false ∉ s.stack

/-- A move keeps the read in flight, cancels it, or submits a new one. -/
theorem readOp_after (hmove : Connecting.IoMove ans v st t)
    (hr : Match s.readOp v.readInFlight v.readCancelKey) :
    t.io.foldl (readOpAfter ans) s.readOp = s.readOp ∨
      t.io.foldl (readOpAfter ans) s.readOp = none ∨
      (t.io.foldl (readOpAfter ans) s.readOp =
          some (ans, Connecting.readContext v.addr t.conn.inputBuffer) ∧
        Connecting.SubmitsRead t ∧ t.frame = none) := by
  cases hmove with
  | quiet out => exact .inl (by rw [out]; rfl)
  | submitRead c₁ free out frame =>
    have hio := Turn.io_single out rfl
    rw [free] at hr
    rw [hio, List.foldl_cons, List.foldl_nil, readOpAfter, hr.none_of]
    split
    · exact .inl rfl
    · exact .inr (.inr ⟨rfl, ⟨_, by rw [hio]; exact List.mem_singleton_self _⟩, frame⟩)
  | submitWrite c₁ free _ out => exact .inl (by rw [Turn.io_single out rfl]; rfl)
  | cancel out => exact .inr (.inl (by rw [out]; exact read_cancelled hr))

theorem inboundInv_take (hmove : Connecting.IoMove ans v st t)
    (hr : Match s.readOp v.readInFlight v.readCancelKey)
    (hwf : t.conn.inputBuffer.Wf) (hres : kReservedCapacity ≤ t.conn.inputBuffer.readingIndex)
    (hstream : s.consumed ++ t.conn.inputBuffer.readable = s.delivered)
    (hctx : ∀ key ctx, s.readOp = some (key, ctx) →
      ctx = Connecting.readContext v.addr t.conn.inputBuffer)
    (hidle : s.readOp.isSome → .readRest false ∉ t.frame.toList ++ s.stack)
    (hsub : Connecting.SubmitsRead t → .readRest false ∉ s.stack) :
    (s.take ans t).InboundInv := by
  have haddr : (s.take ans t).conn.addr = v.addr := hmove.addr
  refine ⟨hwf, hres, hstream, ?_, ?_⟩
  · intro key ctx hop
    rw [haddr]
    change t.io.foldl (readOpAfter ans) s.readOp = _ at hop
    rcases readOp_after hmove hr with h | h | ⟨h, -, -⟩ <;> rw [h] at hop
    · exact hctx key ctx hop
    · cases hop
    · cases hop
      rfl
  · intro hop
    change (t.io.foldl (readOpAfter ans) s.readOp).isSome at hop
    rcases readOp_after hmove hr with h | h | ⟨-, hread, hframe⟩
    · exact hidle (h ▸ hop)
    · rw [h] at hop
      cases hop
    · change _ ∉ t.frame.toList ++ s.stack
      rw [hframe]
      exact hsub hread

/-- The message callback consumes. -/
theorem inboundInv_consume (hs : s.InboundInv) (hops : s.OpsOk) {len : ℕ}
    (hallowed : s.Allowed (.consume len)) (ht : s.conn.exec ans (.consume len) = .ok t) :
    ((s.note (.consume len)).take ans t).InboundInv := by
  obtain ⟨hmem, hlen⟩ := hallowed
  obtain ⟨hwf, hread⟩ := IoBuffer.refresh_spec hs.wf hlen
  have hnone : ¬ s.readOp.isSome := fun h => hs.idle h hmem
  have hmove := Connecting.exec_ioMove ht
  rw [← Except.ok.inj ht] at hmove ⊢
  refine inboundInv_take hmove hops.read hwf (IoBuffer.refresh_reserved hs.wf hs.reserved) ?_ ?_
    (fun h => absurd h hnone) (fun h => absurd h (Connecting.noRead_of_io rfl))
  · show s.consumed ++ s.conn.inputBuffer.readable.take len ++
      (s.conn.inputBuffer.refresh len).readable = s.delivered
    rw [hread, List.append_assoc, List.take_append_drop, hs.stream]
  · intro key ctx hop
    exact absurd (show s.readOp.isSome by rw [show s.readOp = _ from hop]; rfl) hnone

theorem note_input {a : Act} (ha : ∀ len, a ≠ .consume len) :
    (s.note a).consumed = s.consumed ∧ (s.note a).delivered = s.delivered ∧
      (s.note a).readOp = s.readOp := by
  cases a <;> simp only [note, and_self]
  case send => split <;> exact ⟨rfl, rfl, rfl⟩
  case consume len => exact absurd rfl (ha len)

/-- Any other call leaves the input side alone. -/
theorem inboundInv_call (hs : s.InboundInv) (hops : s.OpsOk) {a : Act}
    (ha : ∀ len, a ≠ .consume len)
    (hok : a = .startReading → .readRest false ∉ s.stack) (ht : s.conn.exec ans a = .ok t) :
    ((s.note a).take ans t).InboundInv := by
  have hin := Connecting.exec_input ha ht
  obtain ⟨hcons, hdel, hop⟩ := note_input ha
  have hstack := note_stack s a
  refine inboundInv_take (Connecting.exec_ioMove ht) (by rw [hop]; exact hops.read)
    (by rw [hin]; exact hs.wf) (by rw [hin]; exact hs.reserved)
    (by rw [hin, hcons, hdel]; exact hs.stream) ?_ ?_ ?_
  · intro key ctx h
    rw [hin]
    exact hs.ctx key ctx (hop ▸ h)
  · intro h
    rw [hstack, List.mem_append, not_or]
    rw [hop] at h
    refine ⟨fun hmem => ?_, hs.idle h⟩
    rcases exec_frame ht _ (Option.mem_toList.mp hmem) with hcl | ⟨_, -, heq⟩ | ⟨-, heq⟩
    · exact hcl.nested
    · cases heq
    · cases heq
  · intro hread
    rw [hstack]
    by_contra hmem
    exact Connecting.exec_noRead (fun h => hok h hmem) ht hread

theorem resume_noRead {c : Connecting} {f : Frame} (hf : Nested f) (h : c.resume ans f = .ok t) :
    ¬ Connecting.SubmitsRead t := by
  cases f <;> simp only [Connecting.resume, Except.ok.injEq] at h <;> try exact absurd hf id
  case sendRest message => exact Connecting.sendRest_noRead h
  case closeRest => exact h ▸ Connecting.noRead_of_io (Connecting.closeRest_quiet c).1
  case closeEnd => exact h ▸ Connecting.noRead_of_io rfl

/-- A callback returns. -/
theorem inboundInv_ret (hs : s.InboundInv) (hops : s.OpsOk) (hstack : s.StackOk) {f : Frame}
    {rest : List Frame} (hf : s.stack = f :: rest) (ht : s.conn.resume ans f = .ok t) :
    ({ s with stack := rest }.take ans t).InboundInv := by
  have hin := Connecting.resume_input ht
  refine inboundInv_take (Connecting.resume_ioMove ht) hops.read (by rw [hin]; exact hs.wf)
    (by rw [hin]; exact hs.reserved) (by rw [hin]; exact hs.stream)
    (fun key ctx h => by rw [hin]; exact hs.ctx key ctx h) ?_ ?_
  · intro h
    rw [List.mem_append, not_or]
    refine ⟨fun hmem => (resume_frame ht _ (Option.mem_toList.mp hmem)).nested, fun hmem => ?_⟩
    exact hs.idle h (hf ▸ List.mem_cons_of_mem f hmem)
  · intro hread
    have hrest : rest = [] := hstack.alone hf fun hn => resume_noRead hn ht hread
    simp [hrest]

/-- The kernel delivers: the bytes end up behind the readable ones. -/
theorem inboundInv_readComplete (hs : s.InboundInv) {res : ℤ}
    {data extra : List UInt8} {key : ℕ} {ctx : ReadContext} {b : IoBuffer}
    (hok : 0 < res → Connecting.FitsOrGrows s.conn.inputBuffer res.toNat)
    (hstack : s.stack = []) (hop : s.readOp = some (key, ctx)) (hlen : data.length = res.toNat)
    (hle : data.length ≤ (ctx.iov.map Iovec.len).sum)
    (hfill : fill ctx.iov data s.conn.inputBuffer [] = .ok (b, extra))
    (ht : Connecting.onReadComplete ⟨res, false⟩ { ctx with extraBuffer := extra } ans
      { s.conn with inputBuffer := b } = .ok t) :
    ({ s with readOp := none, delivered := s.delivered ++ data }.take ans t).InboundInv := by
  obtain rfl := hs.ctx key ctx hop
  rw [Connecting.fill_readContext hs.wf _ hle] at hfill
  cases hfill
  obtain ⟨hwf, hres, hread⟩ :=
    Connecting.onReadComplete_input hs.wf hs.reserved hlen hle hok ht
  refine inboundInv_take (Connecting.onReadComplete_ioMove ht) (.idle _) hwf hres ?_
    (fun _ _ h => by cases h) (fun h => by cases h) (fun _ => by simp [hstack])
  show s.consumed ++ t.conn.inputBuffer.readable = s.delivered ++ data
  rw [hread, ← List.append_assoc, hs.stream]

/-- The kernel takes output: the input side does not notice. -/
theorem inboundInv_writeComplete (hs : s.InboundInv) (hops : s.OpsOk) (hstack : s.stack = [])
    {res : ℤ} {data : List UInt8} :
    ({ s with writeOp := none, accepted := s.accepted ++ data }.take ans
      (s.conn.onWriteComplete ⟨res, false⟩ ans)).InboundInv := by
  have hin : (s.conn.onWriteComplete ⟨res, false⟩ ans).conn.inputBuffer = s.conn.inputBuffer :=
    Connecting.onWriteComplete_input
  refine inboundInv_take Connecting.onWriteComplete_ioMove hops.read (by rw [hin]; exact hs.wf)
    (by rw [hin]; exact hs.reserved) (by rw [hin]; exact hs.stream)
    (fun key ctx h => by rw [hin]; exact hs.ctx key ctx h) ?_ (fun _ => by simp [hstack])
  intro _
  rw [hstack, List.append_nil]
  intro hmem
  cases onWriteComplete_frame _ (Option.mem_toList.mp hmem)

theorem inboundInv (h : machine.Reachable InboundOk s) : s.InboundInv := by
  refine invariant InboundInv ?_ (fun s e hs => ⟨hs.wf, hs.reserved, hs.stream, hs.ctx, hs.idle⟩) ?_ h
  · rintro s ⟨addr, fd, b₁, b₂, b₃, hwm, b₄, c, hc, rfl⟩
    obtain ⟨b, hb, hin, -⟩ := Connecting.new_ok hc
    obtain ⟨hwf, hread, hr⟩ := IoBuffer.new_spec (by decide) hb
    refine ⟨?_, ?_, ?_, fun _ _ h => (by cases h), fun h => (by cases h)⟩
    · exact hin ▸ hwf
    · show _ ≤ c.inputBuffer.readingIndex
      rw [hin, hr]
    · show [] ++ c.inputBuffer.readable = []
      rw [hin, hread, List.append_nil]
  · intro s l s' hreach _ hs hok hp
    have hops := opsOk hreach
    cases hp with
    | call a ans t hallowed ht =>
      by_cases ha : ∃ len, a = .consume len
      · obtain ⟨len, rfl⟩ := ha
        exact inboundInv_consume hs hops hallowed ht
      · exact inboundInv_call hs hops (not_exists.mp ha) hok ht
    | ret ans f rest t hf ht => exact inboundInv_ret hs hops (stackOk hreach) hf ht
    | readComplete res data ans key ctx b extra t hstack hop hlen hle hfill ht =>
      exact inboundInv_readComplete hs hok hstack hop hlen hle hfill ht
    | writeComplete res ans key ctx data hstack => exact inboundInv_writeComplete hs hops hstack

/-- A read completion leaves the buffer exactly if it does not meet the condition. -/
theorem perform_readComplete_iff (hs : s.InboundInv) {res : ℤ} {data : List UInt8}
    (hen : s.Enabled (.readComplete res data ans)) :
    s.perform (.readComplete res data ans) = .error .outOfBounds ↔
      ¬ s.InboundOk (.readComplete res data ans) := by
  obtain ⟨-, hall⟩ := hen
  rw [ReadAllowed] at hall
  rw [perform, InboundOk]
  cases hop : s.readOp with
  | none => simp [hop] at hall
  | some op =>
    obtain ⟨key, ctx⟩ := op
    obtain rfl := hs.ctx key ctx hop
    simp only [hop] at hall
    obtain ⟨hlen, hle⟩ := hall
    simp only [Connecting.fill_readContext hs.wf _ hle, ok_bind]
    refine bind_ok_eq_error.trans (Connecting.onReadComplete_error_iff.trans ?_)
    rw [Classical.not_imp, ← hlen]
    refine and_congr_right fun _ => ⟨fun h hok => ?_, Connecting.received_outOfBounds hs.wf hs.reserved _ hle⟩
    rcases Connecting.received_cases hs.wf hs.reserved s.conn.addr hle hok with h' | ⟨b', h', -⟩
    · cases h'.symm.trans h
    · cases h'.symm.trans h

/-- **The inbound stream is exact as long as no read overflows into freed
space.** In every run whose steps meet `InboundOk`, the bytes the message
callback has consumed and the readable bytes of the input buffer are the bytes
the kernel has delivered, and the writing index is inside the buffer; and from
every state so reached a read completion copies outside the buffer if and only
if it does not meet the condition. -/
theorem inbound_stream_exact (h : machine.Reachable InboundOk s) :
    s.consumed ++ s.conn.inputBuffer.readable = s.delivered ∧
      s.conn.inputBuffer.writingIndex ≤ s.conn.inputBuffer.buffer.length ∧
      ∀ res data ans, s.Enabled (.readComplete res data ans) →
        (s.perform (.readComplete res data ans) = .error .outOfBounds ↔
          ¬ s.InboundOk (.readComplete res data ans)) :=
  have hs := inboundInv h
  ⟨hs.stream, hs.wf.writing_le, fun _ _ _ hen => perform_readComplete_iff hs hen⟩

/-- The theorem at a run with a partial consumption and a second read. -/
theorem inbound_stream_two_reads :
    ∃ s : Solo, machine.Reachable InboundOk s ∧ s.delivered = [1, 2, 3, 4, 5] ∧
      s.consumed = [1, 2] ∧ s.consumed ++ s.conn.inputBuffer.readable = [1, 2, 3, 4, 5] := by
  obtain ⟨s, hs, hd, hc⟩ := machine.exists_of_run InboundOk plain_init
    [.call .onEstablishing 0, .ret 1, .readComplete 3 [1, 2, 3] 0, .call (.consume 2) 0, .ret 2,
      .readComplete 2 [4, 5] 0]
    (fun s => s.delivered = [1, 2, 3, 4, 5] ∧ s.consumed = [1, 2]) (by decide +kernel)
  exact ⟨s, hs, hd, hc, hd ▸ (inbound_stream_exact hs).1⟩

/-- The peer sends 1000 bytes, of which the callback consumes 999, and then 25
more: 24 fit into the tail, and the last one is copied outside the buffer. -/
theorem overflow_into_freed_space :
    ∃ s : Solo, machine.Reachable (fun _ _ => True) s ∧
      s.Enabled (.readComplete 25 (List.replicate 25 7) 3) ∧
      s.perform (.readComplete 25 (List.replicate 25 7) 3) = .error .outOfBounds :=
  machine.exists_of_run (fun _ _ => True) plain_init
    [.call .onEstablishing 0, .ret 1, .readComplete 1000 (List.replicate 1000 7) 0,
      .call (.consume 999) 0, .ret 2]
    (fun s => s.Enabled (.readComplete 25 (List.replicate 25 7) 3) ∧
      s.perform (.readComplete 25 (List.replicate 25 7) 3) = .error .outOfBounds)
    (by decide +kernel)

end Solo

end Taotu
