import Taotu.Connection.Solo

/-!
# Taotu.Connection.Closing — after the close

`DoClosing` cancels what is in flight, so a closed connection has nothing
pending, and no completion reaches it any more. What can still run is the rest
of a handler that was suspended in a callback when the callback closed the
connection. Three of these rests submit without looking at the state again:
`OnReadComplete` behind the message callback, `OnEstablishing` behind the
connection callback, and `Send` behind the high-water-mark callback.

`ClosedOk` asks that those three are not resumed on a closed connection, and
that the user does not start a read or a write on it. Then a closed connection
submits nothing (`closed_submits_nothing`).
-/

namespace Taotu

open Lib

namespace Connecting

variable {c : Connecting} {ans : ℕ} {t : Turn} {v : IoView} {st : ConnectionState}

/-- A submission of a read or a write. -/
def IsSubmit : Output → Prop
  | .submitRead _ | .submitWrite _ => True
  | _ => False

instance : DecidablePred IsSubmit
  | .submitRead _ | .submitWrite _ => inferInstanceAs (Decidable True)
  | .cancelOp _ | .shutdownWrite | .deleteConnection _ | .callback _ =>
    inferInstanceAs (Decidable False)

/-- The turn submits nothing. -/
def NoSubmit (t : Turn) : Prop := ∀ o ∈ t.io, ¬ IsSubmit o

theorem noSubmit_of_io (h : t.io = []) : NoSubmit t := by
  simp [NoSubmit, h]

theorem noSubmit_of_cancels (h : t.io = v.cancels) : NoSubmit t := by
  simp only [NoSubmit, h, IoView.cancels]
  split_ifs <;> simp [IsSubmit]

/-- On a closed connection only the explicit starts submit. -/
theorem exec_closed {a : Act} (hst : c.state = .kDisconnected) (hr : a ≠ .startReading)
    (hw : a ≠ .startWriting) (h : c.exec ans a = .ok t) : NoSubmit t := by
  cases a <;> simp only [exec, Except.ok.injEq] at h
  case onEstablishing =>
    simp only [onEstablishing, hst, reduceCtorEq, if_false, Except.ok.injEq] at h
    exact h ▸ noSubmit_of_io rfl
  case send message =>
    simp only [send, hst, reduceCtorEq, if_false, Except.ok.injEq] at h
    exact h ▸ noSubmit_of_io rfl
  case shutDownWrite =>
    simp only [shutDownWrite, hst, reduceCtorEq, if_false] at h
    exact h ▸ noSubmit_of_io rfl
  case forceClose =>
    rw [forceClose, if_pos hst] at h
    exact h ▸ noSubmit_of_io rfl
  case doClosing =>
    rw [doClosing_closed hst] at h
    exact h ▸ noSubmit_of_io rfl
  case startReading => exact absurd rfl hr
  case startWriting => exact absurd rfl hw
  case consume len => exact h ▸ noSubmit_of_io rfl
  all_goals exact h ▸ noSubmit_of_cancels (cancelPendingIo_out c)

/-- The suspended handlers that go on to submit. -/
def Resubmits : Frame → Prop
  | .sendRest _ | .readRest _ | .establishRest => True
  | .writeRest | .closeRest | .closeEnd => False

instance : DecidablePred Resubmits
  | .sendRest _ | .readRest _ | .establishRest => inferInstanceAs (Decidable True)
  | .writeRest | .closeRest | .closeEnd => inferInstanceAs (Decidable False)

theorem resume_noSubmit {f : Frame} (hf : ¬ Resubmits f) (h : c.resume ans f = .ok t) :
    NoSubmit t := by
  cases f <;> simp only [resume, Except.ok.injEq] at h
  case writeRest => exact h ▸ noSubmit_of_io (writeRest_quiet c).1
  case closeRest => exact h ▸ noSubmit_of_io (closeRest_quiet c).1
  case closeEnd => exact h ▸ noSubmit_of_io rfl
  all_goals exact absurd trivial hf

theorem mem_io {c₁ : Connecting} {o : Output} (h : (c₁, o) ∈ t.out) (ho : IsSubmit o) :
    o ∈ t.io := by
  refine List.mem_filter.mpr ⟨List.mem_map.mpr ⟨_, h, rfl⟩, ?_⟩
  cases o <;> first | rfl | exact absurd ho id

/-- A turn that submits only while open leaves a closed connection idle. -/
theorem IoMove.closed (hmove : IoMove ans v st t)
    (hidle : st = .kDisconnected → v.readInFlight = false ∧ v.writeInFlight = false)
    (hno : st = .kDisconnected → NoSubmit t) :
    (t.conn.state = .kDisconnected → t.conn.hasPendingIo = false) ∧
      ∀ c₁ o, (c₁, o) ∈ t.out → IsSubmit o → c₁.state ≠ .kDisconnected := by
  have hio : t.conn.hasPendingIo = (t.conn.io.readInFlight || t.conn.io.writeInFlight) := rfl
  cases hmove with
  | quiet out io state =>
    refine ⟨fun h => ?_, fun c₁ o hmem ho => ?_⟩
    · obtain ⟨h₁, h₂⟩ := hidle (state h)
      rw [hio, io, h₁, h₂]
      rfl
    · exact absurd (mem_io hmem ho) (by simp [out])
  | submitRead c₂ free out frame state₁ io state =>
    have hopen : st ≠ .kDisconnected := fun h =>
      hno h (.submitRead _) (by rw [Turn.io_single out rfl]; exact List.mem_singleton_self _) trivial
    refine ⟨fun h => absurd (state ▸ h) hopen, fun c₁ o hmem ho => ?_⟩
    rw [out, List.mem_singleton, Prod.mk.injEq] at hmem
    rw [hmem.1, state₁]
    exact hopen
  | submitWrite c₂ free nonempty out frame state₁ io state =>
    have hopen : st ≠ .kDisconnected := fun h =>
      hno h (.submitWrite _) (by rw [Turn.io_single out rfl]; exact List.mem_singleton_self _) trivial
    refine ⟨fun h => absurd (state ▸ h) hopen, fun c₁ o hmem ho => ?_⟩
    rw [out, List.mem_singleton, Prod.mk.injEq] at hmem
    rw [hmem.1, state₁]
    exact hopen
  | cancel out io =>
    refine ⟨fun _ => ?_, fun c₁ o hmem ho => ?_⟩
    · rw [hio, io]
      rfl
    · exact absurd ho (noSubmit_of_cancels out o (mem_io hmem ho))

end Connecting

namespace Solo

variable {s s' : Solo} {l : Label} {ans : ℕ} {t : Turn}

/-- The condition on a step: nobody starts a read or a write on a closed
connection, and no handler that would submit is resumed on one. -/
def ClosedOk (s : Solo) : Label → Prop
  | .call a _ => a = .startReading ∨ a = .startWriting → s.conn.state ≠ .kDisconnected
  | .ret _ => ∀ f ∈ s.stack.head?, Connecting.Resubmits f → s.conn.state ≠ .kDisconnected
  | _ => True

instance (s : Solo) : (l : Label) → Decidable (s.ClosedOk l)
  | .call _ _ => inferInstanceAs (Decidable (_ = _ ∨ _ = _ → _ ≠ _))
  | .ret _ => inferInstanceAs (Decidable (∀ f ∈ s.stack.head?, _ → _ ≠ _))
  | .readComplete _ _ _ | .writeComplete _ _ => inferInstanceAs (Decidable True)

structure ClosedInv (s : Solo) : Prop where
  idle : s.conn.state = .kDisconnected → s.conn.hasPendingIo = false
  trace : ∀ e ∈ s.trace, Connecting.IsSubmit e.out → e.conn.state ≠ .kDisconnected

theorem closedInv_take (hs : ∀ e ∈ s.trace, Connecting.IsSubmit e.out → e.conn.state ≠ .kDisconnected)
    {v : Connecting.IoView} {st : ConnectionState} (hmove : Connecting.IoMove ans v st t)
    (hidle : st = .kDisconnected → v.readInFlight = false ∧ v.writeInFlight = false)
    (hno : st = .kDisconnected → Connecting.NoSubmit t) : (s.take ans t).ClosedInv := by
  obtain ⟨hpend, hout⟩ := hmove.closed hidle hno
  refine ⟨hpend, fun e he => ?_⟩
  rcases mem_trace_take he with h | ⟨hmem, -, -⟩
  · exact hs e h
  · exact hout e.conn e.out hmem

theorem ClosedInv.flags (hs : s.ClosedInv) (h : s.conn.state = .kDisconnected) :
    s.conn.readInFlight = false ∧ s.conn.writeInFlight = false := by
  simpa [Connecting.hasPendingIo] using hs.idle h

theorem closedInv (h : machine.Reachable ClosedOk s) : s.ClosedInv := by
  refine invariant ClosedInv ?_ (fun s e hs => ⟨hs.idle, hs.trace⟩) ?_ h
  · rintro s ⟨addr, fd, b₁, b₂, b₃, hwm, b₄, c, hc, rfl⟩
    obtain ⟨b, -, -, -, -, hst, -, -⟩ := Connecting.new_ok hc
    refine ⟨fun h => ?_, fun e he => by cases he⟩
    rw [show (start c).conn.state = .kConnecting from hst] at h
    cases h
  · intro s l s' hreach _ hs hok hp
    have hops := opsOk hreach
    cases hp with
    | call a ans t hallowed ht =>
      refine closedInv_take ?_ (Connecting.exec_ioMove ht) hs.flags fun hst => ?_
      · rw [note_trace]
        exact hs.trace
      · exact Connecting.exec_closed hst (fun h => hok (.inl h) hst) (fun h => hok (.inr h) hst) ht
    | ret ans f rest t hstack ht =>
      refine closedInv_take hs.trace (Connecting.resume_ioMove ht) hs.flags fun hst => ?_
      exact Connecting.resume_noSubmit (fun hf => hok f (by simp [hstack]) hf hst) ht
    | readComplete res data ans key ctx b extra t hstack hop hlen hle hfill ht =>
      -- a read is in flight, so the connection is open
      have hopen : s.conn.state ≠ .kDisconnected := fun hst => by
        have hr := hops.read
        rw [(hs.flags hst).1] at hr
        cases hr.none_of.symm.trans hop
      exact closedInv_take hs.trace (Connecting.onReadComplete_ioMove ht)
        (fun hst => absurd hst hopen) (fun hst => absurd hst hopen)
    | writeComplete res ans key ctx data hstack hop =>
      have hopen : s.conn.state ≠ .kDisconnected := fun hst => by
        have hw := hops.write
        rw [(hs.flags hst).2] at hw
        cases hw.none_of.symm.trans hop
      exact closedInv_take hs.trace Connecting.onWriteComplete_ioMove
        (fun hst => absurd hst hopen) (fun hst => absurd hst hopen)

/-- **A closed connection does no more I/O, unless a callback closed it under
the feet of a handler that submits.** In every run whose steps meet `ClosedOk`,
no read or write is submitted in state `kDisconnected`, and nothing is pending
in that state. -/
theorem closed_submits_nothing (h : machine.Reachable ClosedOk s) :
    (∀ e ∈ s.trace, Connecting.IsSubmit e.out → e.conn.state ≠ .kDisconnected) ∧
      (s.conn.state = .kDisconnected → s.conn.hasPendingIo = false) :=
  ⟨(closedInv h).trace, (closedInv h).idle⟩

/-- The theorem at a run that closes while a read and a write are in flight. -/
theorem closed_with_io_in_flight :
    ∃ s : Solo, machine.Reachable ClosedOk s ∧ s.conn.state = .kDisconnected ∧
      s.sent = [1] ∧ s.conn.hasPendingIo = false := by
  obtain ⟨s, hs, hst, hsent⟩ := machine.exists_of_run ClosedOk plain_init
    [.call .onEstablishing 0, .ret 1, .call (.send [1]) 2, .call .forceClose 0, .ret 0]
    (fun s => s.conn.state = .kDisconnected ∧ s.sent = [1]) (by decide +kernel)
  exact ⟨s, hs, hst, hsent, (closed_submits_nothing hs).2 hst⟩

/-- The message callback closes the connection, and `OnReadComplete` submits
the next read when it returns. -/
theorem close_in_message_callback_rearms :
    ∃ s : Solo, machine.Reachable (fun _ _ => True) s ∧ s.stack = [] ∧
      s.conn.state = .kDisconnected ∧ s.conn.hasPendingIo = true ∧
      ∃ e ∈ s.trace, Connecting.IsSubmit e.out ∧ e.conn.state = .kDisconnected :=
  machine.exists_of_run (fun _ _ => True) plain_init
    [.call .onEstablishing 0, .ret 1, .readComplete 1 [7] 0, .call .forceClose 0, .ret 0, .ret 2]
    (fun s => s.stack = [] ∧ s.conn.state = .kDisconnected ∧ s.conn.hasPendingIo = true ∧
      ∃ e ∈ s.trace, Connecting.IsSubmit e.out ∧ e.conn.state = .kDisconnected)
    (by decide +kernel)

end Solo

end Taotu
