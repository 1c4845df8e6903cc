import Taotu.Connection.Outbound

/-!
# Taotu.Connection.HalfClose — shutting down the write side

The write side is shut down in two places: by `ShutDownWrite` itself, and
behind the last write completion of a connection in state `kDisconnecting`.
The second place looks at the buffers and waits until they have drained. The
first one asks whether the eventer has write events, and as a `Connecting`
never enables any, it never waits.

So nothing is lost exactly if the user waits: `HalfCloseOk` asks that
`ShutDownWrite` finds everything handed to the kernel already.
-/

namespace Taotu

open Lib

namespace Connecting

variable {c c' : Connecting} {ans : ℕ} {t : Turn}

/-! ## Who shuts down -/

/-- The turn does not shut the write side down. -/
def NoShutdown (t : Turn) : Prop := ∀ c', (c', .shutdownWrite) ∉ t.out

theorem submitReadOnce_noShutdown : NoShutdown (c.submitReadOnce ans) := by
  simp only [NoShutdown, submitReadOnce]
  split_ifs <;> simp

theorem submitWriteOnce_noShutdown : NoShutdown (c.submitWriteOnce ans) := by
  simp only [NoShutdown, submitWriteOnce]
  split_ifs <;> simp

theorem cancelPendingIo_noShutdown : (c', .shutdownWrite) ∉ c.cancelPendingIo.2 := by
  simp only [cancelPendingIo, cancelRead, cancelWrite]
  split_ifs <;> simp

theorem closeRest_noShutdown : NoShutdown c.closeRest := by
  simp only [NoShutdown, closeRest, closeEnd, callback]
  split_ifs <;> simp

theorem doClosing_noShutdown : NoShutdown c.doClosing := by
  intro c'
  rw [doClosing]
  dsimp only
  split
  · simp
  · simp only [Turn.after, List.mem_append, not_or]
    refine ⟨⟨cancelPendingIo_noShutdown, cancelPendingIo_noShutdown⟩, ?_⟩
    rw [callback]
    split
    · simp
    · exact closeRest_noShutdown c'

theorem sendRest_noShutdown {message : List UInt8} (h : c.sendRest message ans = .ok t) :
    NoShutdown t := by
  rcases sendRest_cases h with ⟨-, pending, -, rfl⟩ | ⟨-, output, -, rfl⟩
  · exact fun _ h => by cases h
  · exact submitWriteOnce_noShutdown

/-- Of the calls, only `ShutDownWrite` in state `kConnected` shuts down. -/
theorem exec_shutdown {a : Act} (h : c.exec ans a = .ok t) (hmem : (c', .shutdownWrite) ∈ t.out) :
    a = .shutDownWrite ∧ c.state = .kConnected ∧ c' = t.conn ∧ t.frame = none := by
  cases a <;> simp only [exec, Except.ok.injEq] at h
  case onEstablishing =>
    simp only [onEstablishing] at h
    split_ifs at h <;> cases h <;> simp at hmem
  case send message =>
    rcases send_cases h with ⟨-, rfl⟩ | ⟨-, cb, rfl⟩ | ⟨-, -, h⟩
    · cases hmem
    · simp at hmem
    · exact absurd hmem (sendRest_noShutdown h c')
  case shutDownWrite =>
    subst h
    simp only [shutDownWrite] at hmem ⊢
    split_ifs at hmem ⊢ <;> simp_all
  case forceClose =>
    subst h
    rw [forceClose] at hmem
    split at hmem
    · cases hmem
    · exact absurd hmem (doClosing_noShutdown c')
  case doClosing => exact absurd (h ▸ hmem) (doClosing_noShutdown c')
  case startReading => exact absurd (h ▸ hmem) (submitReadOnce_noShutdown c')
  case startWriting => exact absurd (h ▸ hmem) (submitWriteOnce_noShutdown c')
  case consume len =>
    rw [← h] at hmem
    cases hmem
  all_goals
    rw [← h] at hmem
    exact absurd hmem cancelPendingIo_noShutdown

/-- The completion handler shuts down a drained connection. -/
theorem writeRest_shutdown (hmem : (c', .shutdownWrite) ∈ c.writeRest.out) :
    c' = c ∧ c.writeRest.frame = none ∧ c.outputBuffer.getReadableBytes = 0 ∧
      c.pendingOutputBuffer.getReadableBytes = 0 := by
  rw [writeRest] at hmem ⊢
  split at hmem
  · next h =>
    rw [if_pos h]
    exact ⟨by simpa using hmem, rfl, h.2⟩
  · cases hmem

theorem resume_shutdown {f : Frame} (h : c.resume ans f = .ok t)
    (hmem : (c', .shutdownWrite) ∈ t.out) : f = .writeRest ∧ t = c.writeRest := by
  cases f <;> simp only [resume, Except.ok.injEq] at h
  case sendRest message => exact absurd hmem (sendRest_noShutdown h c')
  case readRest more =>
    rw [← h, readRest] at hmem
    split at hmem
    · cases hmem
    · exact absurd hmem (submitReadOnce_noShutdown c')
  case writeRest => exact ⟨rfl, h.symm⟩
  case closeRest => exact absurd (h ▸ hmem) (closeRest_noShutdown c')
  case closeEnd =>
    rw [← h] at hmem
    simp [closeEnd] at hmem
  case establishRest => exact absurd (h ▸ hmem) (submitReadOnce_noShutdown c')

theorem onReadComplete_noShutdown {res : ℤ} {ctx : ReadContext}
    (h : c.onReadComplete ⟨res, false⟩ ctx ans = .ok t) : NoShutdown t := by
  rcases onReadComplete_cases h with ⟨-, input, -, rfl⟩ | ⟨-, rfl⟩ | ⟨-, rfl⟩ | ⟨-, rfl⟩
  · rw [callback]
    split
    · exact fun _ h => by simp at h
    · exact submitReadOnce_noShutdown
  · exact doClosing_noShutdown
  · exact submitReadOnce_noShutdown
  · exact fun _ h => by cases h

/-- A write completion shuts down only what it has found drained. -/
theorem onWriteComplete_shutdown {cqe : Cqe}
    (hmem : (c', .shutdownWrite) ∈ (c.onWriteComplete cqe ans).out) :
    c' = (c.onWriteComplete cqe ans).conn ∧ (c.onWriteComplete cqe ans).frame = none ∧
      c'.outputBuffer.getReadableBytes = 0 ∧ c'.pendingOutputBuffer.getReadableBytes = 0 := by
  rw [onWriteComplete] at hmem ⊢
  dsimp only at hmem ⊢
  split at hmem
  · next hres =>
    rw [if_pos hres]
    generalize ({ c.writeDone with
      outputBuffer := c.writeDone.outputBuffer.refresh cqe.res.toNat } : Connecting) = d at hmem ⊢
    rw [writtenRest] at hmem ⊢
    split at hmem
    · exact absurd hmem (submitWriteOnce_noShutdown c')
    · next h1 =>
      split at hmem
      · exact absurd hmem (submitWriteOnce_noShutdown c')
      · next h2 =>
        rw [if_neg h1, if_neg h2]
        rw [callback] at hmem ⊢
        split at hmem
        · simp at hmem
        · next h3 =>
          rw [if_neg h3]
          obtain ⟨rfl, hfr, ho, hp⟩ := writeRest_shutdown hmem
          exact ⟨(writeRest_quiet c').2.symm, hfr, ho, hp⟩
  · split at hmem
    · exact absurd hmem (submitWriteOnce_noShutdown c')
    · cases hmem

end Connecting

namespace Solo

variable {s s' : Solo} {l : Label} {ans : ℕ} {t : Turn}

/-! ## Nothing is lost -/

/-- The condition on a step: `ShutDownWrite` on a connected connection finds
the buffers empty and no `Send` suspended; nothing is cancelled. -/
def HalfCloseOk (s : Solo) : Label → Prop
  | .call a _ => ¬ Cancels a ∧ (a = .shutDownWrite → s.conn.state = .kConnected →
      s.conn.queued = [] ∧ suspended s.stack = [])
  | .readComplete res _ _ => ¬ Connecting.ClosesOn res
  | _ => True

instance (s : Solo) : (l : Label) → Decidable (s.HalfCloseOk l)
  | .call _ _ => inferInstanceAs (Decidable (¬ _ ∧ (_ = _ → _ = _ → _ = _ ∧ _ = _)))
  | .readComplete _ _ _ => inferInstanceAs (Decidable (¬ _))
  | .ret _ | .writeComplete _ _ => inferInstanceAs (Decidable True)

/-- Everything sent so far is with the kernel. -/
structure Drained (e : Event) : Prop where
  output : e.conn.outputBuffer.readable = []
  pending : e.conn.pendingOutputBuffer.readable = []
  idle : e.conn.writeInFlight = false
  accepted : e.accepted.Perm e.sent

theorem drained_of {ok : Solo → Label → Prop} (h : machine.Reachable ok s)
    (hq : s.conn.queued = []) (hsusp : suspended s.stack = []) :
    Drained ⟨s.conn, .shutdownWrite, s.sent, s.accepted⟩ := by
  have hinv := outboundInv h
  obtain ⟨hout, hpend⟩ := List.append_eq_nil_iff.mp hq
  refine ⟨hout, hpend, ?_, ?_⟩
  · -- a write in flight would have a nonempty vector
    cases hop : s.writeOp with
    | none =>
      have hw := (opsOk h).write.1
      simpa [hop] using hw
    | some op =>
      have hne := (hinv.flight op.1 op.2 hop).2
      rw [hinv.ok.output.getReadableBytes_length, hout] at hne
      exact absurd rfl hne
  · have hline := line_perm h
    rw [line, hq, hsusp, List.append_nil, List.append_nil] at hline
    exact hline

theorem queued_nil (hs : s.OutboundInv) (ho : s.conn.outputBuffer.getReadableBytes = 0)
    (hp : s.conn.pendingOutputBuffer.getReadableBytes = 0) : s.conn.queued = [] := by
  rw [hs.ok.output.getReadableBytes_length] at ho
  rw [hs.ok.pending.getReadableBytes_length] at hp
  rw [Connecting.queued, List.eq_nil_of_length_eq_zero ho, List.eq_nil_of_length_eq_zero hp,
    List.nil_append]

/-- A step that shuts down leaves everything with the kernel. -/
theorem shutdown_step {ok : Solo → Label → Prop} (hreach : machine.Reachable ok s)
    (hreach' : machine.Reachable ok s') (hok : s.HalfCloseOk l) (hp : s.Performed l s') {e : Event}
    (he : e ∈ s'.trace) (hout : e.out = .shutdownWrite) : e ∈ s.trace ∨ Drained e := by
  have hinv' := outboundInv hreach'
  obtain ⟨c', o, sent, accepted⟩ := e
  subst hout
  cases hp with
  | call a ans t hallowed ht =>
    rcases mem_trace_take he with h | ⟨hmem, rfl, rfl⟩
    · exact .inl (note_trace s a ▸ h)
    · obtain ⟨rfl, hst, rfl, hfr⟩ := Connecting.exec_shutdown ht hmem
      obtain ⟨hq, hsusp⟩ := hok.2 rfl hst
      have hq' := Connecting.queued_of_same (Connecting.exec_output (by simp) ht)
      refine .inr (drained_of hreach' (hq'.trans hq) ?_)
      simpa [take, hfr, note_stack] using hsusp
  | ret ans f rest t hstack ht =>
    rcases mem_trace_take he with h | ⟨hmem, rfl, rfl⟩
    · exact .inl h
    · obtain ⟨rfl, rfl⟩ := Connecting.resume_shutdown ht hmem
      obtain ⟨rfl, hfr, ho, hpd⟩ := Connecting.writeRest_shutdown hmem
      have hconn := (Connecting.writeRest_quiet s.conn).2
      have hrest := (stackOk hreach).alone hstack (by simp [Nested])
      have hdrained := drained_of hreach'
        (queued_nil hinv' (by simpa [take, hconn] using ho) (by simpa [take, hconn] using hpd))
        (by simp [take, hfr, hrest, suspended])
      simpa [take, hconn] using Or.inr hdrained
  | readComplete res data ans key ctx b extra t hstack hop hlen hle hfill ht =>
    rcases mem_trace_take he with h | ⟨hmem, rfl, rfl⟩
    · exact .inl h
    · exact absurd hmem (Connecting.onReadComplete_noShutdown ht c')
  | writeComplete res ans key ctx data hstack =>
    rcases mem_trace_take he with h | ⟨hmem, rfl, rfl⟩
    · exact .inl h
    · obtain ⟨rfl, hfr, ho, hpd⟩ := Connecting.onWriteComplete_shutdown hmem
      exact .inr (drained_of hreach' (queued_nil hinv' ho hpd) (by simp [take, hfr, hstack, suspended]))

/-- **A half-close loses nothing if the user waits for the output to drain.** In
every run whose steps meet `HalfCloseOk`, each time the write side is shut down
both output buffers are empty, no write is in flight, and every byte that
`Send` had accepted is with the kernel. -/
theorem half_close_loses_nothing (h : machine.Reachable HalfCloseOk s) :
    ∀ e ∈ s.trace, e.out = .shutdownWrite →
      e.conn.outputBuffer.readable = [] ∧ e.conn.pendingOutputBuffer.readable = [] ∧
        e.conn.writeInFlight = false ∧ e.accepted.Perm e.sent := by
  have hdrained : ∀ e ∈ s.trace, e.out = .shutdownWrite → Drained e := by
    refine invariant (fun s => ∀ e ∈ s.trace, e.out = .shutdownWrite → Drained e) ?_
      (fun s e hs => hs) ?_ h
    · rintro s ⟨addr, fd, b₁, b₂, b₃, hwm, b₄, c, hc, rfl⟩ e he
      cases he
    · intro s l s' hreach hreach' hs hok hp e he hout
      rcases shutdown_step hreach hreach' hok hp he hout with h | h
      · exact hs e h hout
      · exact h
  intro e he hout
  have hd := hdrained e he hout
  exact ⟨hd.output, hd.pending, hd.idle, hd.accepted⟩

/-- The theorem at a run that sends, drains and then shuts down. -/
theorem half_close_after_drain :
    ∃ s : Solo, machine.Reachable HalfCloseOk s ∧
      ∃ e ∈ s.trace, e.out = .shutdownWrite ∧ e.sent = [1, 2] ∧
        e.conn.outputBuffer.readable = [] ∧ e.conn.writeInFlight = false ∧
        e.accepted.Perm [1, 2] := by
  obtain ⟨s, hs, e, he, hout, hsent⟩ := machine.exists_of_run HalfCloseOk plain_init
    [.call .onEstablishing 0, .ret 1, .call (.send [1, 2]) 2, .writeComplete 1 3,
      .writeComplete 1 0, .call .shutDownWrite 0]
    (fun s => ∃ e ∈ s.trace, e.out = .shutdownWrite ∧ e.sent = [1, 2]) (by decide +kernel)
  obtain ⟨ho, -, hi, hp⟩ := half_close_loses_nothing hs e he hout
  exact ⟨s, hs, e, he, hout, hsent, ho, hi, hsent ▸ hp⟩

/-- `Send` and then `ShutDownWrite`: the write is in flight, nothing has been
accepted, and the write side is shut down at once. -/
theorem shutdown_before_drain :
    ∃ s : Solo, machine.Reachable (fun _ _ => True) s ∧
      ∃ e ∈ s.trace, e.out = .shutdownWrite ∧ e.conn.outputBuffer.readable = [1, 2] ∧
        e.conn.writeInFlight = true ∧ e.sent = [1, 2] ∧ e.accepted = [] :=
  machine.exists_of_run (fun _ _ => True) plain_init
    [.call .onEstablishing 0, .ret 1, .call (.send [1, 2]) 2, .call .shutDownWrite 0]
    (fun s => ∃ e ∈ s.trace, e.out = .shutdownWrite ∧ e.conn.outputBuffer.readable = [1, 2] ∧
      e.conn.writeInFlight = true ∧ e.sent = [1, 2] ∧ e.accepted = [])
    (by decide +kernel)

end Solo

end Taotu
