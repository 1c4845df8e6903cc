import Taotu.Connection.LifeCycle

/-!
# Taotu.Connection.Noticing — an open connection listens

The only way for a connection to hear of its peer is the read in flight. It is
submitted by `OnEstablishing` behind the connection callback, and again by
`OnReadComplete` behind the message callback, or at once after `EAGAIN` and `EINTR`;
after the end of the stream and the errors of a reset the connection is closed.

After any other error `OnReadComplete` only logs. The connection is then open, and
nothing will ever close it but its user: no read is in flight, and the events of its
eventer are not enabled. `KnownErrors` excludes these errors; then an established
connection listens or is closed, whenever no handler is running
(`open_connection_listens`).

`Supplied` is what is taken for granted: the poller has submission queue entries, and
the user calls none of the functions that stop a connection.
-/

namespace Taotu

open Lib

/-- The functions that stop a connection. -/
def Act.isStop : Act → Bool
  | .stopReading | .stopWriting | .stopReadingWriting => true
  | _ => false

namespace Connecting

variable {c : Connecting} {ans : ℕ} {t : Turn}

/-! ## What a turn does to the read -/

/-- There is nothing to listen to yet, or any more, or a read is in flight. -/
def Listens (c : Connecting) : Prop :=
  c.state = .kConnecting ∨ c.state = .kDisconnected ∨ c.readInFlight = true

/-- The handlers that submit a read when they are resumed. -/
def Relistens (f : Frame) : Prop := f = .readRest false ∨ f = .establishRest

/-- The results of a read that `OnReadComplete` only logs. -/
def Unhandled (res : ℤ) : Prop := res < 0 ∧ ¬ ClosesOn res ∧ ¬ RetriesOn res

instance (res : ℤ) : Decidable (Unhandled res) := inferInstanceAs (Decidable (_ ∧ _))

theorem submitReadOnce_listens (hans : ans ≠ 0) : (c.submitReadOnce ans).conn.Listens := by
  right; right
  by_cases h : c.readInFlight = true
  · rw [submitReadOnce_busy h]
    exact h
  · rw [Bool.not_eq_true] at h
    rw [submitReadOnce_free h]
    exact decide_eq_true hans

theorem doClosing_listens : c.doClosing.conn.Listens := by
  right; left
  by_cases h : c.state = .kDisconnected
  · rw [doClosing_closed h]
    exact h
  · exact (doClosing_closes h).after

theorem Listens.submitWriteOnce (h : c.Listens) : (c.submitWriteOnce ans).conn.Listens := by
  by_cases hskip : c.writeInFlight = true ∨ c.outputBuffer.getReadableBytes = 0
  · rw [submitWriteOnce_skip hskip]
    exact h
  · rw [not_or, Bool.not_eq_true] at hskip
    rw [submitWriteOnce_free hskip.1 hskip.2]
    exact h

theorem Listens.sendRest {message : List UInt8} (h : c.Listens)
    (ht : c.sendRest message ans = .ok t) : t.conn.Listens := by
  rcases sendRest_cases ht with ⟨-, pending, -, rfl⟩ | ⟨-, output, -, rfl⟩
  · exact h
  · have hout : Listens { c with outputBuffer := output } := h
    exact hout.submitWriteOnce

theorem Listens.send {message : List UInt8} (h : c.Listens)
    (ht : c.send message ans = .ok t) : t.conn.Listens := by
  rw [Connecting.send] at ht
  split_ifs at ht
  · cases ht
    exact h
  · exact h.sendRest ht
  · cases ht
    exact h

theorem Listens.shutDownWrite (h : c.Listens) : c.shutDownWrite.conn.Listens := by
  rw [Connecting.shutDownWrite]
  dsimp only
  split
  · next hst =>
    -- an established connection listens by its read
    have hread : c.readInFlight = true := by
      rcases h with h | h | h
      · cases hst.symm.trans h
      · cases hst.symm.trans h
      · exact h
    split <;> exact .inr (.inr hread)
  · exact h

theorem Listens.forceClose (h : c.Listens) : c.forceClose.conn.Listens := by
  rw [Connecting.forceClose]
  split
  · exact h
  · exact doClosing_listens

/-- The handler that establishes a connection submits its read when it is resumed. -/
theorem Listens.onEstablishing (h : c.Listens) (ht : c.onEstablishing = .ok t) :
    t.conn.Listens ∨ t.frame = some .establishRest := by
  rw [Connecting.onEstablishing] at ht
  dsimp only at ht
  split_ifs at ht
  · cases ht
    exact .inr rfl
  · cases ht
    exact .inl h

/-- A call keeps a connection listening, or begins to establish it. -/
theorem Listens.exec {a : Act} (h : c.Listens) (hstop : a.isStop = false) (hans : ans ≠ 0)
    (ht : c.exec ans a = .ok t) : t.conn.Listens ∨ t.frame = some .establishRest := by
  cases a <;> simp only [Connecting.exec, Except.ok.injEq] at ht
  case onEstablishing => exact h.onEstablishing ht
  case send message => exact .inl (h.send ht)
  case shutDownWrite => exact .inl (ht ▸ h.shutDownWrite)
  case forceClose => exact .inl (ht ▸ h.forceClose)
  case doClosing => exact .inl (ht ▸ doClosing_listens)
  case startReading => exact .inl (ht ▸ submitReadOnce_listens hans)
  case startWriting => exact .inl (ht ▸ h.submitWriteOnce)
  case consume len => exact .inl (ht ▸ h)
  all_goals cases hstop

theorem resume_relistens {f : Frame} (hf : Relistens f) (hans : ans ≠ 0)
    (ht : c.resume ans f = .ok t) : t.conn.Listens := by
  rcases hf with rfl | rfl <;> cases ht <;> exact submitReadOnce_listens hans

/-- The other handlers leave the read alone. -/
theorem Listens.resume {f : Frame} (h : c.Listens) (hans : ans ≠ 0)
    (ht : c.resume ans f = .ok t) : t.conn.Listens := by
  cases f <;> simp only [Connecting.resume, Except.ok.injEq] at ht
  case sendRest message => exact h.sendRest ht
  case readRest more =>
    rw [← ht, readRest]
    split
    · exact h
    · exact submitReadOnce_listens hans
  case writeRest =>
    rw [← ht, (writeRest_quiet c).2]
    exact h
  case closeRest =>
    rw [← ht, (closeRest_quiet c).2]
    exact h
  case closeEnd => exact ht ▸ h
  case establishRest => exact ht ▸ submitReadOnce_listens hans

/-- Unless its result is only logged, a read is followed by another or by the close, or
the message callback runs first. -/
theorem onReadComplete_listens {res : ℤ} {ctx : ReadContext}
    (hres : Unhandled res → c.state = .kConnecting ∨ c.state = .kDisconnected) (hans : ans ≠ 0)
    (ht : c.onReadComplete ⟨res, false⟩ ctx ans = .ok t) :
    t.conn.Listens ∨ t.frame = some (.readRest false) := by
  rcases onReadComplete_cases ht with ⟨-, input, -, rfl⟩ | ⟨-, rfl⟩ | ⟨-, rfl⟩ | ⟨hlogged, rfl⟩
  · rw [callback]
    split
    · exact .inr rfl
    · exact .inl (submitReadOnce_listens hans)
  · exact .inl doClosing_listens
  · exact .inl (submitReadOnce_listens hans)
  · -- nothing is submitted, so there must be nothing to listen to
    rcases hres hlogged with hst | hst
    · exact .inl (.inl hst)
    · exact .inl (.inr (.inl hst))

theorem Listens.onWriteComplete {cqe : Cqe} (h : c.Listens) :
    (c.onWriteComplete cqe ans).conn.Listens := by
  have hdone : ∀ output pending, Listens
      { c.writeDone with outputBuffer := output, pendingOutputBuffer := pending } :=
    fun _ _ => h
  rw [Connecting.onWriteComplete]
  dsimp only
  split
  · rw [writtenRest]
    split
    · exact (hdone _ _).submitWriteOnce
    · split
      · exact (hdone _ _).submitWriteOnce
      · rw [(callback_quiet _ _ _ (writeRest_quiet _)).2]
        exact h
  · split
    · exact (hdone _ _).submitWriteOnce
    · exact h

end Connecting

namespace Solo

open Connecting

variable {s : Solo} {ans : ℕ} {t : Turn}

/-! ## Runs -/

/-- The poller has submission queue entries, and the user does not stop the connection. -/
def Supplied (_ : Solo) : Label → Prop
  | .call a ans => ans ≠ 0 ∧ a.isStop = false
  | .ret ans | .readComplete _ _ ans | .writeComplete _ ans => ans ≠ 0

instance (s : Solo) : (l : Label) → Decidable (s.Supplied l)
  | .call _ _ => inferInstanceAs (Decidable (_ ∧ _))
  | .ret _ | .readComplete _ _ _ | .writeComplete _ _ => inferInstanceAs (Decidable (_ ≠ _))

/-- The condition on a step: a read of an open connection does not end with an error that
is only logged. -/
def KnownErrors (s : Solo) : Label → Prop
  | .readComplete res _ _ =>
    Unhandled res → s.conn.state = .kConnecting ∨ s.conn.state = .kDisconnected
  | _ => True

instance (s : Solo) : (l : Label) → Decidable (s.KnownErrors l)
  | .readComplete _ _ _ => inferInstanceAs (Decidable (_ → _))
  | .call _ _ | .ret _ | .writeComplete _ _ => inferInstanceAs (Decidable True)

/-- The connection listens, or a handler that is running will see to it. -/
def Noticing (s : Solo) : Prop := s.conn.Listens ∨ ∃ f ∈ s.stack, Relistens f

/-- The turn of a handler that leaves the connection listening, or will. -/
theorem noticing_take (h : t.conn.Listens ∨ ∃ f ∈ t.frame, Relistens f) :
    (s.take ans t).Noticing := by
  refine h.imp_right ?_
  rintro ⟨f, hf, hre⟩
  exact ⟨f, List.mem_append_left _ (Option.mem_toList.mpr hf), hre⟩

/-- Frames below a turn are kept. -/
theorem noticing_of_stack (h : ∃ f ∈ s.stack, Relistens f) : (s.take ans t).Noticing := by
  rcases h with ⟨f, hf, hre⟩
  exact .inr ⟨f, List.mem_append_right _ hf, hre⟩

theorem noticing (h : machine.Reachable (fun s l => s.Supplied l ∧ s.KnownErrors l) s) :
    s.Noticing := by
  refine invariant Noticing ?_ (fun s e hs => hs) ?_ h
  · rintro s ⟨addr, fd, b₁, b₂, b₃, hwm, b₄, c, hc, rfl⟩
    rcases Connecting.new_ok hc with ⟨b, -, -, -, -, hst, -, -⟩
    exact .inl (.inl hst)
  · intro s l s' _ _ hs hok hp
    cases hp with
    | call a ans t hallowed ht =>
      rcases hs with hs | hs
      · refine noticing_take ((hs.exec hok.1.2 hok.1.1 ht).imp_right fun hf => ?_)
        exact ⟨_, hf, .inr rfl⟩
      · refine noticing_of_stack ?_
        rw [note_stack]
        exact hs
    | ret ans f rest t hstack ht =>
      rcases hs with hs | ⟨g, hg, hre⟩
      · exact noticing_take (.inl (hs.resume hok.1 ht))
      · rw [hstack] at hg
        rcases List.mem_cons.mp hg with rfl | hg
        · exact noticing_take (.inl (resume_relistens hre hok.1 ht))
        · exact noticing_of_stack ⟨g, hg, hre⟩
    | readComplete res data ans key ctx b extra t hstack hop hlen hle hfill ht =>
      have hread : t.conn.Listens ∨ t.frame = some (.readRest false) :=
        onReadComplete_listens (c := { s.conn with inputBuffer := b }) hok.2 hok.1 ht
      refine noticing_take (hread.imp_right fun hf => ?_)
      exact ⟨_, hf, .inl rfl⟩
    | writeComplete res ans key ctx data hstack =>
      -- no handler is running, so the connection listens by itself
      rcases hs with hs | ⟨f, hf, -⟩
      · exact noticing_take (.inl hs.onWriteComplete)
      · rw [hstack] at hf
        exact absurd hf List.not_mem_nil

/-- **An open connection listens.** In every run with submission queue entries in which
the user does not stop the connection, and no read of the open connection ends with an
error that is only logged: whenever no handler is running, an established connection is
closed or has a read in flight. -/
theorem open_connection_listens
    (h : machine.Reachable (fun s l => s.Supplied l ∧ s.KnownErrors l) s) (hstack : s.stack = [])
    (hest : s.conn.state ≠ .kConnecting) :
    s.conn.state = .kDisconnected ∨ (s.conn.readInFlight = true ∧ s.readOp.isSome) := by
  rcases noticing h with hlistens | ⟨f, hf, -⟩
  · rcases hlistens with hst | hst | hread
    · exact absurd hst hest
    · exact .inl hst
    · have hmatch := (opsOk h).read
      rw [hread] at hmatch
      exact .inr ⟨hread, hmatch.isSome⟩
  · rw [hstack] at hf
    exact absurd hf List.not_mem_nil

/-- The theorem after a message and an interrupted read. -/
theorem listens_after_interrupt :
    ∃ s : Solo, machine.Reachable (fun s l => s.Supplied l ∧ s.KnownErrors l) s ∧ s.stack = [] ∧
      s.conn.state = .kConnected ∧ s.conn.inputBuffer.getReadableBytes = 1 ∧
      (s.conn.state = .kDisconnected ∨ (s.conn.readInFlight = true ∧ s.readOp.isSome)) := by
  rcases machine.exists_of_run (fun s l => s.Supplied l ∧ s.KnownErrors l) plain_init
    [.call .onEstablishing 1, .ret 1, .readComplete 1 [7] 1, .ret 2, .readComplete (-4) [] 3]
    (fun s => s.stack = [] ∧ s.conn.state = .kConnected ∧
      s.conn.inputBuffer.getReadableBytes = 1) (by decide +kernel)
    with ⟨s, hs, hstack, hst, hin⟩
  refine ⟨s, hs, hstack, hst, hin, open_connection_listens hs hstack ?_⟩
  rw [hst]
  nofun

/-- A read that times out (`ETIMEDOUT`, 110) is only logged: the connection stays
established, nothing is in flight, and no handler is running. -/
theorem deaf_after_timeout :
    ∃ s : Solo, machine.Reachable Supplied s ∧ s.fault = none ∧ s.stack = [] ∧
      s.conn.state = .kConnected ∧ s.conn.readInFlight = false ∧ s.readOp = none ∧
      s.writeOp = none :=
  machine.exists_of_run Supplied plain_init
    [.call .onEstablishing 1, .ret 1, .readComplete (-110) [] 1] _ (by decide +kernel)

end Solo

end Taotu
