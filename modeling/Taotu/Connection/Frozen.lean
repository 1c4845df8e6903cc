import Taotu.Connection.Outbound

/-!
# Taotu.Connection.Frozen — the memory of a write in flight (`connecting.cc`)

`SubmitWriteOnce` hands the kernel a vector that points into `output_buffer_`. Until the
write completes or `CancelPendingIo` gives it up, nobody else may touch that buffer.

1. **Vectors.** Every handler that submits a write does so with the output buffer it leaves
   behind (`Vectors`). The trace records the buffer at each submission, and `region` reads
   the last one off it.
2. **Runs.** The machine `writing` is that of `Solo`, except that a write may complete with
   any result at all, also with more than it was asked to write.
3. **The region.** While a write is in flight the output buffer is the region, every `Send`
   goes to the pending buffer, and the completion takes off what was written
   (`region_frozen`).
-/

namespace Taotu

open Lib

/-! ## Vectors -/

/-- The vectors a turn submits for writing point into the output buffer it leaves. -/
def Turn.Vectors (t : Turn) : Prop :=
  ∀ c ctx, (c, Output.submitWrite ctx) ∈ t.out → c.outputBuffer = t.conn.outputBuffer

namespace Connecting

variable {c : Connecting} {ans : ℕ} {t : Turn}

theorem vectors_of_io (h : ∀ ctx, Output.submitWrite ctx ∉ t.io) : t.Vectors := by
  intro c₁ ctx hmem
  refine absurd ?_ (h ctx)
  exact List.mem_filter.mpr ⟨List.mem_map.mpr ⟨_, hmem, rfl⟩, rfl⟩

theorem vectors_of_quiet (h : t.io = []) : t.Vectors :=
  vectors_of_io fun _ => by rw [h]; exact List.not_mem_nil

theorem vectors_of_cancels {v : IoView} (h : t.io = v.cancels) : t.Vectors := by
  refine vectors_of_io fun ctx => ?_
  rw [h, IoView.cancels]
  split_ifs <;> simp

theorem submitReadOnce_vectors : (c.submitReadOnce ans).Vectors := by
  refine vectors_of_io fun ctx => ?_
  simp only [submitReadOnce, Turn.io]
  split_ifs <;> simp [Output.isIo]

theorem submitWriteOnce_vectors : (c.submitWriteOnce ans).Vectors := by
  intro c₁ ctx hmem
  simp only [submitWriteOnce] at hmem ⊢
  split_ifs at hmem ⊢ with hskip hans
  · cases hmem
  · cases List.mem_singleton.mp hmem
    rfl
  · cases List.mem_singleton.mp hmem
    rfl

theorem doClosing_vectors : c.doClosing.Vectors := by
  by_cases h : c.state = .kDisconnected
  · rw [doClosing_closed h]
    exact vectors_of_quiet rfl
  · exact vectors_of_cancels (doClosing_open h).1

theorem sendRest_vectors {message : List UInt8} (h : c.sendRest message ans = .ok t) :
    t.Vectors := by
  rcases sendRest_cases h with ⟨-, pending, -, rfl⟩ | ⟨-, output, -, rfl⟩
  · exact vectors_of_quiet rfl
  · exact submitWriteOnce_vectors

theorem exec_vectors {a : Act} (h : c.exec ans a = .ok t) : t.Vectors := by
  cases a <;> simp only [exec, Except.ok.injEq] at h
  case onEstablishing =>
    simp only [onEstablishing] at h
    split_ifs at h <;> cases h <;> exact vectors_of_quiet rfl
  case send message =>
    rcases send_cases h with ⟨-, rfl⟩ | ⟨-, cb, rfl⟩ | ⟨-, -, h⟩
    · exact vectors_of_quiet rfl
    · exact vectors_of_quiet rfl
    · exact sendRest_vectors h
  case shutDownWrite =>
    subst h
    simp only [shutDownWrite]
    split_ifs <;> exact vectors_of_quiet rfl
  case forceClose =>
    subst h
    rw [forceClose]
    split
    · exact vectors_of_quiet rfl
    · exact doClosing_vectors
  case doClosing => exact h ▸ doClosing_vectors
  case startReading => exact h ▸ submitReadOnce_vectors
  case startWriting => exact h ▸ submitWriteOnce_vectors
  case consume len => exact h ▸ vectors_of_quiet rfl
  all_goals exact h ▸ vectors_of_cancels (cancelPendingIo_out c)

theorem resume_vectors {f : Frame} (h : c.resume ans f = .ok t) : t.Vectors := by
  cases f <;> simp only [resume, Except.ok.injEq] at h
  case sendRest message => exact sendRest_vectors h
  case readRest more =>
    subst h
    rw [readRest]
    split
    · exact vectors_of_quiet rfl
    · exact submitReadOnce_vectors
  case writeRest => exact h ▸ vectors_of_quiet (writeRest_quiet c).1
  case closeRest => exact h ▸ vectors_of_quiet (closeRest_quiet c).1
  case closeEnd => exact h ▸ vectors_of_quiet rfl
  case establishRest => exact h ▸ submitReadOnce_vectors

theorem onReadComplete_vectors {res : ℤ} {ctx : ReadContext}
    (h : c.onReadComplete ⟨res, false⟩ ctx ans = .ok t) : t.Vectors := by
  rcases onReadComplete_cases h with ⟨-, input, -, rfl⟩ | ⟨-, rfl⟩ | ⟨-, rfl⟩ | ⟨-, rfl⟩
  · rw [callback]
    split
    · exact vectors_of_quiet rfl
    · exact submitReadOnce_vectors
  · exact doClosing_vectors
  · exact submitReadOnce_vectors
  · exact vectors_of_quiet rfl

theorem onWriteComplete_vectors {cqe : Cqe} : (c.onWriteComplete cqe ans).Vectors := by
  simp only [onWriteComplete, writtenRest]
  split_ifs
  · exact submitWriteOnce_vectors
  · exact submitWriteOnce_vectors
  · exact vectors_of_quiet (callback_quiet _ _ _ (writeRest_quiet _)).1
  · exact submitWriteOnce_vectors
  · exact vectors_of_quiet rfl

/-- The output buffer behind a completion: what is left of it, or else what was pending. -/
theorem writtenRest_front (hc : c.OutputOk) :
    (c.writtenRest ans).conn.outputBuffer.readable =
      if c.outputBuffer.readable = [] then c.pendingOutputBuffer.readable
      else c.outputBuffer.readable := by
  have hempty : ∀ b : IoBuffer, b.Wf → (0 < b.getReadableBytes ↔ b.readable ≠ []) := by
    intro b hb
    rw [hb.getReadableBytes_length, List.length_pos_iff]
  rw [writtenRest]
  by_cases hout : c.outputBuffer.readable = []
  · rw [if_pos hout, if_neg (by rw [hempty _ hc.output]; exact not_not.mpr hout)]
    by_cases hpend : c.pendingOutputBuffer.readable = []
    · rw [if_neg (by rw [hempty _ hc.pending]; exact not_not.mpr hpend),
        (callback_quiet _ _ _ (writeRest_quiet c)).2, hout, hpend]
    · -- the two buffers trade places
      rw [if_pos ((hempty _ hc.pending).mpr hpend)]
      exact congrArg (fun b => b.2.1.readable) submitWriteOnce_buffers
  · rw [if_neg hout, if_pos ((hempty _ hc.output).mpr hout)]
    exact congrArg (fun b => b.2.1.readable) submitWriteOnce_buffers

/-- A completion keeps both buffers well-formed, whatever its result. -/
theorem onWriteComplete_ok (hc : c.OutputOk) (res : ℤ) :
    (c.onWriteComplete ⟨res, false⟩ ans).conn.OutputOk := by
  by_cases hres : 0 < res
  · have hok : OutputOk { c.writeDone with outputBuffer := c.outputBuffer.refresh res.toNat } :=
      ⟨IoBuffer.refresh_wf hc.output _, hc.pending, hc.reading⟩
    rw [onWriteComplete]
    dsimp only
    rw [if_pos hres]
    exact (writtenRest_output hok (IoBuffer.refresh_empty hc.output)).1
  · exact (onWriteComplete_output hc (by omega)).1

end Connecting

namespace Solo

variable {s s' : Solo} {l : Label} {ans key : ℕ} {ctx : WriteContext} {t : Turn}

/-! ## Runs -/

/-- The step of `Solo`, with any result for a write in flight. -/
def stepWriting (s : Solo) : Label → Option Solo
  | .writeComplete res ans =>
    if s.fault = none ∧ s.stack = [] then
      s.writeOp.map fun _ =>
        { s with writeOp := none }.take ans (s.conn.onWriteComplete ⟨res, false⟩ ans)
    else none
  | l => s.step l

def writing : Machine Solo Label := ⟨Init, stepWriting⟩

/-- The output buffer at the submission of a write. -/
def vectorOf (e : Event) : Option IoBuffer :=
  match e.out with
  | .submitWrite _ => some e.conn.outputBuffer
  | _ => none

/-- The output buffer at the last submission of a write. -/
def region (s : Solo) : Option IoBuffer := (s.trace.filterMap vectorOf).getLast?

structure FrozenInv (s : Solo) : Prop where
  ops : s.OpsOk
  outbound : s.OutboundInv
  region : ∀ key ctx, s.writeOp = some (key, ctx) → s.region = some s.conn.outputBuffer

/-- What a step that returns does to the write in flight, other than its completion: a turn
that does not touch the output buffer, and submits no write unless none is in flight. -/
structure Stroke (s : Solo) (s₁ : Solo) (ans : ℕ) (t : Turn) : Prop where
  op : s₁.writeOp = s.writeOp
  trace : s₁.trace = s.trace
  move : ∃ v st, Connecting.IoMove ans v st t ∧ Match s.writeOp v.writeInFlight v.writeCancelKey
  vectors : t.Vectors
  frozen : s.writeOp ≠ none → t.conn.outputBuffer = s.conn.outputBuffer

theorem region_take_quiet (h : ∀ ctx, Output.submitWrite ctx ∉ t.io) :
    (s.take ans t).region = s.region := by
  have hnone : (t.out.map fun o => (⟨o.1, o.2, s.sent, s.accepted⟩ : Event)).filterMap vectorOf =
      [] := by
    rw [List.filterMap_eq_nil_iff]
    intro e he
    obtain ⟨⟨c₁, o⟩, ho, rfl⟩ := List.mem_map.mp he
    cases o with
    | submitWrite ctx =>
      refine absurd ?_ (h ctx)
      exact List.mem_filter.mpr ⟨List.mem_map.mpr ⟨_, ho, rfl⟩, rfl⟩
    | _ => rfl
  rw [region, region, take]
  dsimp only
  rw [List.filterMap_append, hnone, List.append_nil]

theorem region_take_write {c₁ : Connecting} (h : t.out = [(c₁, .submitWrite ctx)]) :
    (s.take ans t).region = some c₁.outputBuffer := by
  rw [region, take, h]
  dsimp only
  rw [List.filterMap_append, List.map_singleton]
  exact List.getLast?_concat

/-- A turn from a frozen buffer leaves a frozen buffer. -/
theorem region_take {v : Connecting.IoView} {st : ConnectionState}
    (hmove : Connecting.IoMove ans v st t) (hw : Match s.writeOp v.writeInFlight v.writeCancelKey)
    (hvec : t.Vectors)
    (hregion : ∀ key ctx, s.writeOp = some (key, ctx) → s.region = some t.conn.outputBuffer)
    (hop : (s.take ans t).writeOp = some (key, ctx)) :
    (s.take ans t).region = some t.conn.outputBuffer := by
  change t.io.foldl (writeOpAfter ans) s.writeOp = _ at hop
  cases hmove with
  | quiet out =>
    rw [region_take_quiet fun _ => by rw [out]; exact List.not_mem_nil]
    rw [out] at hop
    exact hregion key ctx hop
  | submitRead c₁ free out =>
    have hio := Turn.io_single out rfl
    rw [region_take_quiet fun _ => by rw [hio]; simp]
    rw [hio] at hop
    exact hregion key ctx hop
  | submitWrite c₁ free nonempty out =>
    rw [region_take_write out, hvec c₁ _ (by rw [out]; exact List.mem_singleton_self _)]
  | cancel out =>
    rw [out, write_cancelled hw] at hop
    cases hop

/-- While a write is in flight, `Send` leaves the output buffer alone. -/
theorem sendRest_frozen (hs : s.FrozenInv) {m : List UInt8} (hlen : m.length ≤ maxSize)
    (ht : s.conn.sendRest m ans = .ok t) (hop : s.writeOp ≠ none) :
    t.conn.outputBuffer = s.conn.outputBuffer ∧
      t.conn.pendingOutputBuffer.readable = s.conn.pendingOutputBuffer.readable ++ m := by
  rcases (Connecting.sendRest_output hs.outbound.ok hlen ht).2 with ⟨-, hsame, hput⟩ | ⟨hfl, -, -⟩
  · exact ⟨hsame, hput⟩
  · have hw := hs.ops.write
    rw [hfl] at hw
    exact absurd hw.none_of hop

theorem performed_stroke (hs : s.FrozenInv) (hp : s.Performed l s')
    (hl : ∀ res ans, l ≠ .writeComplete res ans) :
    ∃ s₁ ans t, s.Stroke s₁ ans t ∧ s' = s₁.take ans t := by
  cases hp with
  | call a ans t hallowed ht =>
    refine ⟨s.note a, ans, t, ⟨(note_output s a).2.1, note_trace s a,
      ⟨_, _, Connecting.exec_ioMove ht, hs.ops.write⟩, Connecting.exec_vectors ht, ?_⟩, rfl⟩
    intro hop
    -- only `Send` writes to an output buffer, and only to the pending one while a write flies
    by_cases ha : ∃ m, a = .send m
    · obtain ⟨m, rfl⟩ := ha
      rcases Connecting.send_cases ht with ⟨-, rfl⟩ | ⟨-, cb, rfl⟩ | ⟨-, -, ht⟩
      · rfl
      · rfl
      · exact (sendRest_frozen hs hallowed ht hop).1
    · exact (Connecting.exec_output (not_exists.mp ha) ht).1
  | ret ans f rest t hstack ht =>
    refine ⟨{ s with stack := rest }, ans, t, ⟨rfl, rfl,
      ⟨_, _, Connecting.resume_ioMove ht, hs.ops.write⟩, Connecting.resume_vectors ht, ?_⟩, rfl⟩
    intro hop
    by_cases hf : ∃ m, f = .sendRest m
    · obtain ⟨m, rfl⟩ := hf
      exact (sendRest_frozen hs (hs.outbound.memory m (hstack ▸ List.mem_cons_self)) ht hop).1
    · have hbuffers := Connecting.resume_buffers (not_exists.mp hf) ht
      exact (Connecting.sameOutput_of_buffers hbuffers).1
  | readComplete res data ans key ctx b extra t hstack hop hlen hle hfill ht =>
    refine ⟨{ s with readOp := none, delivered := s.delivered ++ data }, ans, t, ⟨rfl, rfl,
      ⟨_, _, Connecting.onReadComplete_ioMove ht, hs.ops.write⟩,
      Connecting.onReadComplete_vectors ht, ?_⟩, rfl⟩
    intro _
    exact (Connecting.onReadComplete_output ht).1
  | writeComplete res ans key ctx data => exact absurd rfl (hl res ans)

theorem Stroke.region {s₁ : Solo} (h : s.Stroke s₁ ans t) (hs : s.FrozenInv)
    (hop : (s₁.take ans t).writeOp = some (key, ctx)) :
    (s₁.take ans t).region = some (s₁.take ans t).conn.outputBuffer := by
  obtain ⟨v, st, hmove, hw⟩ := h.move
  refine region_take hmove (by rw [h.op]; exact hw) h.vectors ?_ hop
  intro key ctx hold
  have hsame : s₁.region = s.region := by rw [Solo.region, Solo.region, h.trace]
  rw [h.op] at hold
  rw [hsame, h.frozen (by rw [hold]; exact Option.some_ne_none _)]
  exact hs.region key ctx hold

/-- What a step of the machine is: a step of `Solo` that is no write completion, a fault, or
the completion of the write in flight. -/
inductive WritingStep (s : Solo) : Label → Solo → Prop where
  | other (l : Label) (s' : Solo) (h : s.Performed l s')
      (hl : ∀ res ans, l ≠ .writeComplete res ans) : WritingStep s l s'
  | fault (l : Label) (e : Fault) (hl : ∀ res ans, l ≠ .writeComplete res ans) :
      WritingStep s l { s with fault := some e }
  | complete (res : ℤ) (ans key : ℕ) (ctx : WriteContext) (hop : s.writeOp = some (key, ctx)) :
      WritingStep s (.writeComplete res ans)
        ({ s with writeOp := none }.take ans (s.conn.onWriteComplete ⟨res, false⟩ ans))

theorem writingStep_of_step (hl : ∀ res ans, l ≠ .writeComplete res ans) (h : s.step l = some s') :
    s.WritingStep l s' := by
  rcases step_cases h with hp | ⟨e, rfl⟩
  · exact .other l s' hp hl
  · exact .fault l e hl

theorem writingStep (h : s.stepWriting l = some s') : s.WritingStep l s' := by
  cases l with
  | writeComplete res ans =>
    rw [stepWriting] at h
    split at h
    · obtain ⟨⟨key, ctx⟩, hop, rfl⟩ := Option.map_eq_some_iff.mp h
      exact .complete res ans key ctx hop
    · cases h
  | call a ans => exact writingStep_of_step nofun h
  | ret ans => exact writingStep_of_step nofun h
  | readComplete res data ans => exact writingStep_of_step nofun h

theorem frozenInv_step (hs : s.FrozenInv) (h : s.WritingStep l s') : s'.FrozenInv := by
  cases h with
  | other _ _ hp hl =>
    obtain ⟨s₁, ans, t, hstroke, heq⟩ := performed_stroke hs hp hl
    refine ⟨opsOk_step hs.ops hp, outboundInv_step hs.outbound hs.ops hp, ?_⟩
    subst heq
    intro key ctx hop
    exact hstroke.region hs hop
  | fault _ e =>
    exact ⟨⟨hs.ops.read, hs.ops.write⟩,
      ⟨hs.outbound.ok, hs.outbound.flight, hs.outbound.memory⟩, hs.region⟩
  | complete res ans key ctx hop =>
    refine ⟨opsOk_take Connecting.onWriteComplete_ioMove hs.ops.read (.idle _), ?_, ?_⟩
    · exact outboundInv_take Connecting.onWriteComplete_ioMove (.idle _)
        (Connecting.onWriteComplete_ok hs.outbound.ok res) (fun _ _ h => by cases h)
        (memory_take onWriteComplete_keeps hs.outbound.memory)
    · intro key' ctx' hop'
      exact region_take Connecting.onWriteComplete_ioMove (.idle _)
        Connecting.onWriteComplete_vectors (fun _ _ h => by cases h) hop'

theorem frozenInv_init (h : Init s) : s.FrozenInv := by
  refine ⟨opsOk_init h, outboundInv_init h, ?_⟩
  obtain ⟨addr, fd, b₁, b₂, b₃, hwm, b₄, c, hc, rfl⟩ := h
  intro key ctx hop
  cases hop

theorem frozenInv {ok : Solo → Label → Prop} (h : writing.Reachable ok s) : s.FrozenInv := by
  have hstep : ∀ s l s', writing.Reachable ok s → s.FrozenInv → ok s l →
      writing.step s l = some s' → s'.FrozenInv :=
    fun _ _ _ _ hs _ hs' => frozenInv_step hs (writingStep hs')
  exact h.invariant (fun _ h0 => frozenInv_init h0) hstep

/-! ## The region -/

/-- A `Send` that queues in this step: it is called below the high-water mark, or the callback
it waited for returns. -/
inductive Queues (s : Solo) (m : List UInt8) : Label → Prop where
  | call (ans : ℕ) (state : s.conn.state = .kConnected)
      (below : s.conn.crossesHighWaterMark m.length = false) : Queues s m (.call (.send m) ans)
  | resume (ans : ℕ) (rest : List Frame) (stack : s.stack = .sendRest m :: rest) :
      Queues s m (.ret ans)

/-- A step that leaves a write in flight leaves its buffer. -/
theorem kept_step (hs : s.FrozenInv) (h : s.WritingStep l s')
    (hl : ∀ res ans, l ≠ .writeComplete res ans) (hop : s.writeOp ≠ none) :
    s'.conn.outputBuffer = s.conn.outputBuffer := by
  cases h with
  | other _ _ hp _ =>
    obtain ⟨s₁, ans, t, hstroke, rfl⟩ := performed_stroke hs hp hl
    exact hstroke.frozen hop
  | fault _ e => rfl
  | complete res ans => exact absurd rfl (hl res ans)

theorem queues_step (hs : s.FrozenInv) {m : List UInt8} (hq : s.Queues m l)
    (h : s.WritingStep l s') (hfault : s'.fault = none) (hop : s.writeOp ≠ none) :
    s'.conn.pendingOutputBuffer.readable = s.conn.pendingOutputBuffer.readable ++ m := by
  cases h with
  | fault _ e => cases hfault
  | complete res ans => cases hq
  | other _ _ hp _ =>
    cases hq with
    | call ans state below =>
      cases hp with
      | call _ _ t hallowed ht =>
        rcases Connecting.send_cases ht with ⟨hne, -⟩ | ⟨-, cb, rfl⟩ | ⟨-, -, ht⟩
        · exact absurd state hne
        · -- the high-water mark is not crossed, so no callback runs
          rw [Connecting.exec, Connecting.send, if_pos state, below] at ht
          have hframe := sendRest_frame ht
          cases hframe
        · exact (sendRest_frozen hs hallowed ht hop).2
    | resume ans rest stack =>
      cases hp with
      | ret _ f rest' t hstack ht =>
        cases stack.symm.trans hstack
        exact (sendRest_frozen hs (hs.outbound.memory m (hstack ▸ List.mem_cons_self)) ht hop).2

theorem complete_step (hs : s.FrozenInv) (hop : s.writeOp = some (key, ctx)) {res : ℤ}
    (hpos : 0 < res) (hle : res.toNat ≤ ctx.toSend)
    (h : s.WritingStep (.writeComplete res ans) s') :
    s'.conn.outputBuffer.readable =
      if res.toNat = ctx.toSend then s.conn.pendingOutputBuffer.readable
      else s.conn.outputBuffer.readable.drop res.toNat := by
  have hok := hs.outbound.ok
  obtain ⟨rfl, -⟩ := hs.outbound.flight key ctx hop
  have hle : res.toNat ≤ s.conn.outputBuffer.getReadableBytes := hle
  cases h with
  | other _ _ hp hl => exact absurd rfl (hl res ans)
  | fault _ e hl => exact absurd rfl (hl res ans)
  | complete =>
    -- what was written leaves the buffer, then `writtenRest` swaps the buffers if it is empty
    obtain ⟨hwf, hread⟩ := IoBuffer.refresh_spec hok.output hle
    have hrest : (s.conn.onWriteComplete ⟨res, false⟩ ans) = Connecting.writtenRest ans
        { s.conn.writeDone with outputBuffer := s.conn.outputBuffer.refresh res.toNat } := by
      rw [Connecting.onWriteComplete]
      exact if_pos hpos
    have hfront := @Connecting.writtenRest_front
      { s.conn.writeDone with outputBuffer := s.conn.outputBuffer.refresh res.toNat } ans
      ⟨hwf, hok.pending, hok.reading⟩
    rw [← hrest] at hfront
    refine hfront.trans ?_
    dsimp only
    have hempty : (s.conn.outputBuffer.refresh res.toNat).readable = [] ↔
        res.toNat = (Connecting.writeContext s.conn.addr s.conn.outputBuffer).toSend := by
      rw [hread, List.drop_eq_nil_iff, ← hok.output.getReadableBytes_length]
      exact ⟨fun h => le_antisymm hle h, fun h => h.ge⟩
    by_cases hall : res.toNat = (Connecting.writeContext s.conn.addr s.conn.outputBuffer).toSend
    · rw [if_pos (hempty.mpr hall), if_pos hall]
      rfl
    · rw [if_neg (mt hempty.mp hall), if_neg hall, hread]

/-- **The region being written is frozen.** In every run, whatever the results of the writes,
while a write is in flight the output buffer is the one its vector was built from, and the
vector is its readable bytes. No step but the completion changes it; a `Send` that queues
meanwhile appends to the pending buffer. A completion of `0 < res ≤ to_send` bytes leaves
exactly the rest of the region in the output buffer, and when nothing is left, what was
pending. -/
theorem region_frozen (h : writing.Reachable (fun _ _ => True) s)
    (hop : s.writeOp = some (key, ctx)) :
    ∃ region, s.region = some region ∧ s.conn.outputBuffer = region ∧
      ctx.iovBase = region.readingIndex ∧ ctx.toSend = region.readable.length ∧
      (∀ l s', (∀ res ans, l ≠ .writeComplete res ans) → writing.step s l = some s' →
        s'.conn.outputBuffer = region) ∧
      (∀ m l s', s.Queues m l → writing.step s l = some s' → s'.fault = none →
        s'.conn.pendingOutputBuffer.readable = s.conn.pendingOutputBuffer.readable ++ m) ∧
      ∀ res ans s', 0 < res → res.toNat ≤ ctx.toSend →
        writing.step s (.writeComplete res ans) = some s' →
        s'.conn.outputBuffer.readable =
          if res.toNat = ctx.toSend then s.conn.pendingOutputBuffer.readable
          else region.readable.drop res.toNat := by
  have hs := frozenInv h
  have hflight : s.writeOp ≠ none := by rw [hop]; exact Option.some_ne_none _
  have hctx := (hs.outbound.flight key ctx hop).1
  refine ⟨s.conn.outputBuffer, hs.region key ctx hop, rfl, ?_, ?_, ?_, ?_, ?_⟩
  · rw [hctx]
    rfl
  · rw [hctx, ← hs.outbound.ok.output.getReadableBytes_length]
    rfl
  · exact fun l s' hl hstep => kept_step hs (writingStep hstep) hl hflight
  · exact fun m l s' hq hstep hfault => queues_step hs hq (writingStep hstep) hfault hflight
  · exact fun res ans s' hpos hle hstep => complete_step hs hop hpos hle (writingStep hstep)

/-- The theorem at a run in which one message is in flight, another one is pending, and one
byte of the first has been written. -/
theorem region_frozen_partial_write :
    ∃ s, writing.Reachable (fun _ _ => True) s ∧ ∃ region, s.region = some region ∧
      s.conn.outputBuffer = region ∧ region.readable = [2] ∧
      s.conn.pendingOutputBuffer.readable = [3, 4] := by
  obtain ⟨s, hs, hop, hread, hpend⟩ := writing.exists_of_run (fun _ _ => True)
    (show writing.Init (start plain) from plain_init)
    [.call .onEstablishing 0, .ret 1, .call (.send [1, 2]) 2, .call (.send [3, 4]) 0,
      .writeComplete 1 3]
    (fun s => s.writeOp = some (3, ⟨1, 9, 1⟩) ∧ s.conn.outputBuffer.readable = [2] ∧
      s.conn.pendingOutputBuffer.readable = [3, 4]) (by decide +kernel)
  obtain ⟨region, hregion, hsame, -⟩ := region_frozen hs hop
  exact ⟨s, hs, region, hregion, hsame, by rw [← hsame]; exact hread, hpend⟩

end Solo

end Taotu
