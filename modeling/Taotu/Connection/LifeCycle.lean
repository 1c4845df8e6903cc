import Taotu.Connection.Solo

/-!
# Taotu.Connection.LifeCycle — how a connection begins and ends

A connection goes through its states in one direction, and tells its
collaborators about it: `OnConnectionCallback_` when it is established,
`OnConnectionCallback_` again, `CloseCallback_` and `DeleteConnection` when it is
closed. The close can begin in any handler and inside any callback, and between
its three calls the callbacks run whatever they like.

A turn makes no such call, establishes, or begins the close (`LifeMove`); the rest
of the close is in the frames of the stack. So the calls made so far and the frames
of the close on the stack are always those of one of four stages (`Stage`), and
whatever is nested, every call is made once (`life_cycle`).
-/

namespace Taotu

open Lib

/-- The order of the states in a life. -/
def ConnectionState.rank : ConnectionState → ℕ
  | .kConnecting => 0
  | .kConnected => 1
  | .kDisconnecting => 2
  | .kDisconnected => 3

/-- The calls that tell of the beginning and the end. -/
def Output.isLife : Output → Bool
  | .callback .onConnection | .callback .close | .deleteConnection _ => true
  | _ => false

def Output.isDelete : Output → Bool
  | .deleteConnection _ => true
  | _ => false

/-- The calls of this kind that a turn makes, with the states they are made in. -/
def Turn.life (t : Turn) : List (ConnectionState × Output) :=
  (t.out.filter fun o => o.2.isLife).map fun o => (o.1.state, o.2)

namespace Connecting

open Solo (Closing)

variable {c c₁ : Connecting} {ans : ℕ} {t : Turn}

/-! ## What a turn can do -/

/-- The state moves forward before the first call of the turn. -/
structure Steady (c : Connecting) (t : Turn) : Prop where
  out : ∀ o ∈ t.out, o.1.state = t.conn.state
  forward : c.state.rank ≤ t.conn.state.rank
  closeCallback : t.conn.closeCallback = c.closeCallback

/-- A turn that neither establishes nor closes. -/
structure Plain (c : Connecting) (t : Turn) : Prop extends Steady c t where
  life : t.life = []
  frame : ∀ f ∈ t.frame, ¬ Closing f
  closed : t.conn.state = .kDisconnected → c.state = .kDisconnected

/-- What is left of a close behind the connection callback. -/
inductive Ends (c : Connecting) (t : Turn) : Prop where
  | callback (registered : c.closeCallback = true)
      (life : t.life = [(.kDisconnected, .callback .close)]) (frame : t.frame = some .closeEnd)
  | delete (fd : ℕ) (registered : c.closeCallback = false)
      (life : t.life = [(.kDisconnected, .deleteConnection fd)]) (frame : t.frame = none)

/-- The close of a connection up to its first callback, or to its end. -/
structure Closes (c : Connecting) (t : Turn) : Prop where
  out : ∀ o ∈ t.out, o.1.state = .kDisconnected
  after : t.conn.state = .kDisconnected
  closeCallback : t.conn.closeCallback = c.closeCallback
  calls : (t.life = [(.kDisconnected, .callback .onConnection)] ∧ t.frame = some .closeRest) ∨
    Ends c t

/-- The turns that do not resume a close. -/
inductive LifeMove (c : Connecting) (t : Turn) : Prop where
  | plain (h : Plain c t)
  | establish (steady : Steady c t) (before : c.state = .kConnecting)
      (after : t.conn.state = .kConnected)
      (life : t.life = [(.kConnected, .callback .onConnection)]) (frame : t.frame = some .establishRest)
  | close (before : c.state ≠ .kDisconnected) (h : Closes c t)

theorem Closes.steady (h : Closes c t) : Steady c t := by
  refine ⟨fun o ho => (h.out o ho).trans h.after.symm, ?_, h.closeCallback⟩
  rw [h.after]
  cases c.state <;> decide

theorem LifeMove.steady (h : LifeMove c t) : Steady c t := by
  cases h with
  | plain h => exact h.toSteady
  | establish steady => exact steady
  | close _ h => exact h.steady

theorem Ends.of_eq (h : Ends c₁ t) (hcb : c₁.closeCallback = c.closeCallback) : Ends c t := by
  cases h with
  | callback registered life frame => exact .callback (hcb ▸ registered) life frame
  | delete fd registered life frame => exact .delete fd (hcb ▸ registered) life frame

theorem Closes.of_eq (h : Closes c₁ t) (hcb : c₁.closeCallback = c.closeCallback) : Closes c t :=
  ⟨h.out, h.after, h.closeCallback.trans hcb, h.calls.imp_right fun ends => ends.of_eq hcb⟩

/-- What a handler does before its move is invisible if state and callback are kept. -/
theorem Plain.of_eq (h : Plain c₁ t) (hst : c₁.state = c.state)
    (hcb : c₁.closeCallback = c.closeCallback) : Plain c t :=
  ⟨⟨h.out, hst ▸ h.forward, h.closeCallback.trans hcb⟩, h.life, h.frame,
    fun hclosed => hst ▸ h.closed hclosed⟩

theorem no_frame : ∀ f ∈ (none : Option Frame), ¬ Closing f := by
  intro f hf
  cases hf

theorem plain_nothing : Plain c ⟨c, [], none⟩ :=
  ⟨⟨List.forall_mem_nil _, Nat.le_refl _, rfl⟩, rfl, no_frame, id⟩

/-- A single call, not of the life cycle, in the state the connection is in. -/
theorem plain_single {o : Output} (hout : t.out = [(c₁, o)]) (h₁ : c₁.state = t.conn.state)
    (ho : o.isLife = false) (hframe : ∀ f ∈ t.frame, ¬ Closing f)
    (hst : t.conn.state = c.state) (hcb : t.conn.closeCallback = c.closeCallback) : Plain c t := by
  refine ⟨⟨?_, ?_, hcb⟩, ?_, hframe, fun h => hst ▸ h⟩
  · intro o' ho'
    rw [hout, List.mem_singleton] at ho'
    rw [ho', h₁]
  · rw [hst]
  · simp [Turn.life, hout, ho]

theorem submitReadOnce_plain : Plain c (c.submitReadOnce ans) := by
  by_cases h : c.readInFlight = true
  · rw [submitReadOnce_busy h]
    exact plain_nothing
  · rw [Bool.not_eq_true] at h
    rw [submitReadOnce_free h]
    exact plain_single rfl rfl rfl no_frame rfl rfl

theorem submitWriteOnce_plain : Plain c (c.submitWriteOnce ans) := by
  by_cases h : c.writeInFlight = true ∨ c.outputBuffer.getReadableBytes = 0
  · rw [submitWriteOnce_skip h]
    exact plain_nothing
  · rw [not_or, Bool.not_eq_true] at h
    rw [submitWriteOnce_free h.1 h.2]
    exact plain_single rfl rfl rfl no_frame rfl rfl

/-- A callback that is not about the life cycle. -/
theorem callback_plain {registered : Bool} {cb : Callback} {frame : Frame}
    {rest : Connecting → Turn} (hcb : (Output.callback cb).isLife = false)
    (hframe : ¬ Closing frame) (hrest : Plain c (rest c)) : Plain c (callback registered cb frame c rest) := by
  rw [callback]
  split
  · refine plain_single rfl rfl hcb ?_ rfl rfl
    intro f hf
    cases hf
    exact hframe
  · exact hrest

/-- Cancelling is not part of the life cycle. -/
theorem cancelPendingIo_steady (c : Connecting) :
    (∀ o ∈ c.cancelPendingIo.2, o.1.state = c.state ∧ o.2.isLife = false) ∧
      c.cancelPendingIo.1.state = c.state ∧
      c.cancelPendingIo.1.closeCallback = c.closeCallback := by
  refine ⟨?_, by rw [cancelPendingIo_conn], by rw [cancelPendingIo_conn]⟩
  intro o ho
  simp only [cancelPendingIo, cancelRead, cancelWrite] at ho
  split_ifs at ho <;> simp at ho <;> rcases ho with rfl | rfl <;> exact ⟨rfl, rfl⟩

theorem stop_plain : Plain c c.stop := by
  rcases cancelPendingIo_steady c with ⟨hout, hst, hcb⟩
  refine ⟨⟨?_, ?_, hcb⟩, ?_, no_frame, fun h => hst ▸ h⟩
  · intro o ho
    exact (hout o ho).1.trans hst.symm
  · rw [stop, hst]
  · rw [Turn.life, List.map_eq_nil_iff, List.filter_eq_nil_iff]
    intro o ho
    rw [(hout o ho).2]
    exact Bool.false_ne_true

theorem readRest_plain {more : Bool} : Plain c (c.readRest more ans) := by
  rw [readRest]
  split
  · exact plain_nothing
  · exact submitReadOnce_plain

theorem writeRest_plain : Plain c c.writeRest := by
  rw [writeRest]
  split
  · exact plain_single rfl rfl rfl no_frame rfl rfl
  · exact plain_nothing

theorem sendRest_plain {message : List UInt8} (h : c.sendRest message ans = .ok t) : Plain c t := by
  rcases sendRest_cases h with ⟨-, pending, -, rfl⟩ | ⟨-, output, -, rfl⟩
  · exact plain_nothing.of_eq rfl rfl
  · exact submitWriteOnce_plain.of_eq rfl rfl

theorem send_plain {message : List UInt8} (h : c.send message ans = .ok t) : Plain c t := by
  rw [send] at h
  split_ifs at h
  · cases h
    refine plain_single rfl rfl rfl ?_ rfl rfl
    rintro f ⟨⟩
    rintro (h | h) <;> cases h
  · exact sendRest_plain h
  · cases h
    exact plain_nothing

theorem shutDownWrite_plain : Plain c c.shutDownWrite := by
  rw [shutDownWrite]
  dsimp only
  split
  · next hst =>
    have hforward : c.state.rank ≤ ConnectionState.kDisconnecting.rank := by
      rw [hst]
      decide
    have hopen : ConnectionState.kDisconnecting ≠ .kDisconnected := by decide
    split
    · exact ⟨⟨List.forall_mem_nil _, hforward, rfl⟩, rfl, no_frame, fun h => absurd h hopen⟩
    · refine ⟨⟨?_, hforward, rfl⟩, rfl, no_frame, fun h => absurd h hopen⟩
      intro o ho
      rw [List.mem_singleton.mp ho]
  · exact plain_nothing

theorem onWriteComplete_plain {cqe : Cqe} : Plain c (c.onWriteComplete cqe ans) := by
  rw [onWriteComplete]
  dsimp only
  split
  · rw [writtenRest]
    split
    · exact submitWriteOnce_plain.of_eq rfl rfl
    · split
      · exact submitWriteOnce_plain.of_eq rfl rfl
      · refine (callback_plain rfl ?_ writeRest_plain).of_eq rfl rfl
        rintro (h | h) <;> cases h
  · split
    · exact submitWriteOnce_plain.of_eq rfl rfl
    · exact plain_nothing.of_eq rfl rfl

/-! ## Establishing and closing -/

theorem life_after {out : List (Connecting × Output)} (h : ∀ o ∈ out, o.2.isLife = false) :
    (t.after out).life = t.life := by
  have hnone : out.filter (fun o => o.2.isLife) = [] := by
    rw [List.filter_eq_nil_iff]
    intro o ho
    rw [h o ho]
    exact Bool.false_ne_true
  rw [Turn.life, Turn.after, List.filter_append, hnone]
  rfl

/-- Calls that are not of the life cycle come first. -/
theorem Closes.after_out {out : List (Connecting × Output)} (h : Closes c t)
    (hout : ∀ o ∈ out, o.1.state = .kDisconnected ∧ o.2.isLife = false) :
    Closes c (t.after out) := by
  have hlife : (t.after out).life = t.life := life_after fun o ho => (hout o ho).2
  refine ⟨?_, h.after, h.closeCallback, ?_⟩
  · intro o ho
    rcases List.mem_append.mp ho with ho | ho
    · exact (hout o ho).1
    · exact h.out o ho
  · rcases h.calls with ⟨life, frame⟩ | ends
    · exact .inl ⟨hlife.trans life, frame⟩
    · right
      cases ends with
      | callback registered life frame => exact .callback registered (hlife.trans life) frame
      | delete fd registered life frame => exact .delete fd registered (hlife.trans life) frame

/-- The rest of a close runs in the final state. -/
theorem closeRest_ends (hst : c.state = .kDisconnected) :
    c.closeRest.conn = c ∧ (∀ o ∈ c.closeRest.out, o.1 = c) ∧ Ends c c.closeRest := by
  rw [closeRest, callback]
  split
  · next hreg =>
    refine ⟨rfl, ?_, .callback hreg ?_ rfl⟩
    · intro o ho
      rw [List.mem_singleton.mp ho]
    · simp [Turn.life, Output.isLife, hst]
  · next hreg =>
    refine ⟨rfl, ?_, .delete c.fd (Bool.eq_false_of_not_eq_true hreg) ?_ rfl⟩
    · intro o ho
      rw [List.mem_singleton.mp ho]
    · simp [Turn.life, closeEnd, Output.isLife, hst]

theorem doClosing_closes (hst : c.state ≠ .kDisconnected) : Closes c c.doClosing := by
  rw [doClosing, if_neg hst]
  dsimp only
  generalize hd : ({ c with state := .kDisconnected } : Connecting) = d
  have hstd : d.state = .kDisconnected := by rw [← hd]
  have hcbd : d.closeCallback = c.closeCallback := by rw [← hd]
  rcases cancelPendingIo_steady d with ⟨hout₁, hst₁, hcb₁⟩
  rcases cancelPendingIo_steady d.cancelPendingIo.1 with ⟨hout₂, hst₂, hcb₂⟩
  generalize d.cancelPendingIo.1.cancelPendingIo = r at hout₂ hst₂ hcb₂ ⊢
  have hr : r.1.state = .kDisconnected := hst₂.trans (hst₁.trans hstd)
  have hcb : r.1.closeCallback = c.closeCallback := hcb₂.trans (hcb₁.trans hcbd)
  -- the cancellations come first, in the final state
  have hcancels : ∀ o ∈ d.cancelPendingIo.2 ++ r.2,
      o.1.state = .kDisconnected ∧ o.2.isLife = false := by
    intro o ho
    rcases List.mem_append.mp ho with ho | ho
    · exact ⟨(hout₁ o ho).1.trans hstd, (hout₁ o ho).2⟩
    · exact ⟨(hout₂ o ho).1.trans (hst₁.trans hstd), (hout₂ o ho).2⟩
  refine Closes.after_out ?_ hcancels
  suffices hcloses : Closes r.1 (callback c.onConnectionCallback .onConnection .closeRest r.1
      closeRest) from hcloses.of_eq hcb
  rw [callback]
  split
  · refine ⟨?_, hr, rfl, .inl ⟨?_, rfl⟩⟩
    · intro o ho
      rw [List.mem_singleton.mp ho, hr]
    · simp [Turn.life, Output.isLife, hr]
  · rcases closeRest_ends hr with ⟨hconn, hout, hends⟩
    refine ⟨?_, by rw [hconn, hr], by rw [hconn], .inr hends⟩
    intro o ho
    rw [hout o ho, hr]

theorem doClosing_lifeMove (hst : c₁.state = c.state) (hcb : c₁.closeCallback = c.closeCallback) :
    LifeMove c c₁.doClosing := by
  by_cases hclosed : c₁.state = .kDisconnected
  · rw [doClosing_closed hclosed]
    exact .plain (plain_nothing.of_eq hst hcb)
  · exact .close (hst ▸ hclosed) ((doClosing_closes hclosed).of_eq hcb)

theorem forceClose_lifeMove : LifeMove c c.forceClose := by
  rw [forceClose]
  split
  · exact .plain plain_nothing
  · next hst =>
    have hopen : ConnectionState.kDisconnecting ≠ .kDisconnected := by decide
    exact .close hst (Closes.of_eq (doClosing_closes hopen) rfl)

theorem onEstablishing_lifeMove (h : c.onEstablishing = .ok t) : LifeMove c t := by
  rw [onEstablishing] at h
  dsimp only at h
  split at h
  · next hst =>
    split at h
    · cases h
      refine .establish ⟨?_, ?_, rfl⟩ hst rfl rfl rfl
      · intro o ho
        rw [List.mem_singleton.mp ho]
      · rw [hst]
        exact Nat.zero_le _
    · cases h
  · cases h
    exact .plain plain_nothing

theorem exec_lifeMove {a : Act} (h : c.exec ans a = .ok t) : LifeMove c t := by
  cases a <;> simp only [exec, Except.ok.injEq] at h
  case onEstablishing => exact onEstablishing_lifeMove h
  case send message => exact .plain (send_plain h)
  case shutDownWrite => exact h ▸ .plain shutDownWrite_plain
  case forceClose => exact h ▸ forceClose_lifeMove
  case doClosing => exact h ▸ doClosing_lifeMove rfl rfl
  case startReading => exact h ▸ .plain submitReadOnce_plain
  case startWriting => exact h ▸ .plain submitWriteOnce_plain
  case consume len => exact h ▸ .plain (plain_nothing.of_eq rfl rfl)
  all_goals exact h ▸ .plain stop_plain

theorem onReadComplete_lifeMove {res : ℤ} {ctx : ReadContext}
    (h : c.onReadComplete ⟨res, false⟩ ctx ans = .ok t) : LifeMove c t := by
  rcases onReadComplete_cases h with ⟨-, input, -, rfl⟩ | ⟨-, rfl⟩ | ⟨-, rfl⟩ | ⟨-, rfl⟩
  · refine .plain ((callback_plain rfl ?_ submitReadOnce_plain).of_eq rfl rfl)
    rintro (h | h) <;> cases h
  · exact doClosing_lifeMove rfl rfl
  · exact .plain (submitReadOnce_plain.of_eq rfl rfl)
  · exact .plain (plain_nothing.of_eq rfl rfl)

theorem closeRest_steady : Steady c c.closeRest := by
  rw [closeRest, callback]
  split
  · refine ⟨?_, Nat.le_refl _, rfl⟩
    intro o ho
    rw [List.mem_singleton.mp ho]
  · refine ⟨?_, Nat.le_refl _, rfl⟩
    intro o ho
    rw [List.mem_singleton.mp ho]
    rfl

/-- A resumed handler that is no close neither establishes nor closes. -/
theorem resume_plain {f : Frame} (hf : ¬ Closing f) (h : c.resume ans f = .ok t) : Plain c t := by
  cases f <;> simp only [resume, Except.ok.injEq] at h
  case sendRest message => exact sendRest_plain h
  case readRest more => exact h ▸ readRest_plain
  case writeRest => exact h ▸ writeRest_plain
  case establishRest => exact h ▸ submitReadOnce_plain
  case closeRest => exact absurd (.inl rfl) hf
  case closeEnd => exact absurd (.inr rfl) hf

end Connecting

namespace Solo

open Connecting

variable {s s' : Solo} {l : Label} {ans : ℕ} {t : Turn}

/-! ## The stages of a life -/

/-- The calls of the life cycle that have been made, with the states they were made in. -/
def life (s : Solo) : List (ConnectionState × Output) :=
  (s.trace.filter fun e => e.out.isLife).map fun e => (e.conn.state, e.out)

instance : DecidablePred Closing := fun _ => inferInstanceAs (Decidable (_ ∨ _))

/-- The frames of a close that are on the stack. -/
def closings (s : Solo) : List Frame := s.stack.filter fun f => Closing f

/-- The connection has been established, or it never was. -/
def Begun (st : ConnectionState) (calls : List (ConnectionState × Output)) : Prop :=
  calls = [] ∨ (calls = [(.kConnected, .callback .onConnection)] ∧ st ≠ .kConnecting)

/-- The connection callback has run in the close, or there is none. -/
def Notified (calls : List (ConnectionState × Output)) : Prop :=
  calls = [] ∨ calls = [(.kDisconnected, .callback .onConnection)]

/-- The frames of a close and the calls made so far, with `cb` a registered
`CloseCallback_`. -/
inductive Stage (cb : Bool) : ConnectionState → List Frame → List (ConnectionState × Output) → Prop
  where
  | opened {st : ConnectionState} {est : List (ConnectionState × Output)} (begun : Begun st est)
      (state : st ≠ .kDisconnected) : Stage cb st [] est
  | notifying {est : List (ConnectionState × Output)} (begun : Begun .kDisconnected est) :
      Stage cb .kDisconnected [.closeRest] (est ++ [(.kDisconnected, .callback .onConnection)])
  | closing {est told : List (ConnectionState × Output)} (begun : Begun .kDisconnected est)
      (notified : Notified told) (registered : cb = true) :
      Stage cb .kDisconnected [.closeEnd] (est ++ told ++ [(.kDisconnected, .callback .close)])
  | closed {est told : List (ConnectionState × Output)} (fd : ℕ) (begun : Begun .kDisconnected est)
      (notified : Notified told) :
      Stage cb .kDisconnected []
        (est ++ told ++ (if cb then [(.kDisconnected, .callback .close)] else []) ++
          [(.kDisconnected, .deleteConnection fd)])

variable {cb : Bool} {st st' : ConnectionState} {frames : List Frame}
  {calls est told : List (ConnectionState × Output)}

theorem Begun.forward (h : Begun st calls) (hrank : st.rank ≤ st'.rank) : Begun st' calls := by
  refine h.imp_right fun hcalls => ⟨hcalls.1, ?_⟩
  rintro rfl
  refine hcalls.2 ?_
  cases st <;> first | rfl | cases hrank

/-- A turn that is not about the life cycle. -/
theorem Stage.plain (h : Stage cb st frames calls) (hrank : st.rank ≤ st'.rank)
    (hclosed : st' = .kDisconnected → st = .kDisconnected) : Stage cb st' frames calls := by
  have hfinal : st = .kDisconnected → st' = .kDisconnected := by
    rintro rfl
    revert hrank
    cases st' <;> decide
  cases h with
  | opened begun state => exact .opened (begun.forward hrank) fun h => state (hclosed h)
  | notifying begun =>
    cases hfinal rfl
    exact .notifying begun
  | closing begun notified registered =>
    cases hfinal rfl
    exact .closing begun notified registered
  | closed fd begun notified =>
    cases hfinal rfl
    exact .closed fd begun notified

/-- The end of a close, behind the connection callback. -/
theorem stage_ends {c : Connecting} (h : Ends c t) (hcb : c.closeCallback = cb)
    (begun : Begun .kDisconnected est) (notified : Notified told) :
    Stage cb .kDisconnected (t.frame.toList.filter fun f => Closing f) (est ++ told ++ t.life) := by
  subst hcb
  cases h with
  | callback registered life frame =>
    rw [life, frame]
    exact .closing begun notified registered
  | delete fd registered life frame =>
    rw [life, frame]
    have hstage : Stage c.closeCallback .kDisconnected [] _ := .closed fd begun notified
    rw [registered] at hstage ⊢
    simpa using hstage

/-- One turn that does not resume a close. -/
theorem Stage.move {c : Connecting} (h : Stage c.closeCallback c.state frames calls)
    (hmove : LifeMove c t) :
    Stage t.conn.closeCallback t.conn.state ((t.frame.toList.filter fun f => Closing f) ++ frames)
      (calls ++ t.life) := by
  rw [hmove.steady.closeCallback]
  cases hmove with
  | plain hplain =>
    have hframe : (t.frame.toList.filter fun f => Closing f) = [] := by
      rw [List.filter_eq_nil_iff]
      intro f hf
      simpa using hplain.frame f (by simpa using hf)
    rw [hframe, hplain.life, List.nil_append, List.append_nil]
    exact h.plain hplain.forward hplain.closed
  | establish steady before after life frame =>
    rw [after, life, frame]
    rw [before] at h
    cases h with
    | opened begun =>
      rcases begun with rfl | ⟨-, hne⟩
      · exact .opened (.inr ⟨rfl, nofun⟩) nofun
      · exact absurd rfl hne
  | close before hcloses =>
    have hforward := hcloses.steady.forward
    rw [hcloses.after] at hforward ⊢
    generalize c.state = st at h before hforward
    cases h with
    | opened begun state =>
      have hbegun : Begun .kDisconnected calls := begun.forward hforward
      rw [List.append_nil]
      rcases hcloses.calls with ⟨life, frame⟩ | ends
      · rw [life, frame]
        exact .notifying hbegun
      · have hstage := stage_ends ends rfl hbegun (.inl rfl)
        rwa [List.append_nil] at hstage
    | notifying | closing | closed => exact absurd rfl before

/-- The close goes on behind the connection callback, -/
theorem Stage.closeRest {c : Connecting}
    (h : Stage c.closeCallback c.state (.closeRest :: frames) calls) :
    Stage c.closeRest.conn.closeCallback c.closeRest.conn.state
      ((c.closeRest.frame.toList.filter fun f => Closing f) ++ frames)
      (calls ++ c.closeRest.life) := by
  rw [(closeRest_quiet c).2]
  generalize hst : c.state = st at h ⊢
  cases h with
  | notifying begun =>
    rcases closeRest_ends hst with ⟨-, -, ends⟩
    rw [List.append_nil]
    exact stage_ends ends rfl begun (.inr rfl)

/-- and behind the close callback. -/
theorem Stage.closeEnd {c : Connecting}
    (h : Stage c.closeCallback c.state (.closeEnd :: frames) calls) :
    Stage c.closeCallback c.state frames (calls ++ c.closeEnd.life) := by
  generalize hst : c.state = st at h ⊢
  cases h with
  | closing begun notified registered =>
    have hstage : Stage c.closeCallback .kDisconnected [] _ := .closed c.fd begun notified
    rw [registered] at hstage ⊢
    simpa [Turn.life, Connecting.closeEnd, Output.isLife, hst] using hstage

theorem life_take (s : Solo) (t : Turn) : (s.take ans t).life = s.life ++ t.life := by
  simp [life, take, Turn.life, List.filter_map, Function.comp_def]

theorem closings_take (s : Solo) (t : Turn) :
    (s.take ans t).closings = (t.frame.toList.filter fun f => Closing f) ++ s.closings := by
  rw [closings, take, List.filter_append, closings]

/-- The stage of a connection. -/
def Staged (s : Solo) : Prop := Stage s.conn.closeCallback s.conn.state s.closings s.life

theorem Staged.take {c : Connecting} (h : s.Staged) (hst : c.state = s.conn.state)
    (hcb : c.closeCallback = s.conn.closeCallback) (hmove : LifeMove c t) :
    (s.take ans t).Staged := by
  rw [Staged, ← hst, ← hcb] at h
  rw [Staged, life_take, closings_take]
  exact h.move hmove

theorem staged {ok : Solo → Label → Prop} (h : machine.Reachable ok s) : s.Staged := by
  refine invariant Staged ?_ (fun s e hs => hs) ?_ h
  · rintro s ⟨addr, fd, b₁, b₂, b₃, hwm, b₄, c, hc, rfl⟩
    obtain ⟨b, -, -, -, -, hst, -, -⟩ := Connecting.new_ok hc
    refine Stage.opened (.inl rfl) ?_
    rw [show (start c).conn.state = .kConnecting from hst]
    nofun
  · intro s l s' _ _ hs _ hp
    cases hp with
    | call a ans t hallowed ht =>
      have hnote : (s.note a).Staged := by
        rw [Staged, closings, life, note_conn, note_stack, note_trace]
        exact hs
      exact hnote.take (by rw [note_conn]) (by rw [note_conn]) (exec_lifeMove ht)
    | ret ans f rest t hstack ht =>
      by_cases hf : Closing f
      · rw [Staged, closings, hstack, List.filter_cons_of_pos (by simpa using hf)] at hs
        rcases hf with rfl | rfl
        · cases ht
          rw [Staged, life_take, closings_take]
          exact hs.closeRest
        · cases ht
          rw [Staged, life_take, closings_take]
          exact hs.closeEnd
      · have hrest : Staged { s with stack := rest } := by
          rw [Staged, closings, hstack, List.filter_cons_of_neg (by simpa using hf)] at hs
          exact hs
        exact hrest.take rfl rfl (.plain (resume_plain hf ht))
    | readComplete res data ans key ctx b extra t hstack hop hlen hle hfill ht =>
      have hdone : Staged { s with readOp := none, delivered := s.delivered ++ data } := hs
      exact Staged.take (c := { s.conn with inputBuffer := b }) hdone rfl rfl
        (onReadComplete_lifeMove ht)
    | writeComplete res ans key ctx data =>
      have hdone : Staged { s with writeOp := none, accepted := s.accepted ++ data } := hs
      exact hdone.take rfl rfl (.plain onWriteComplete_plain)

/-! ## The order of the states -/

/-- The turn of a step, and what it started from. -/
theorem Performed.turn (hp : s.Performed l s') :
    ∃ (s₀ : Solo) (c : Connecting) (ans : ℕ) (t : Turn), s' = s₀.take ans t ∧
      s₀.trace = s.trace ∧ c.state = s.conn.state ∧ Steady c t := by
  cases hp with
  | call a ans t hallowed ht =>
    exact ⟨_, _, _, _, rfl, note_trace s a, rfl, (exec_lifeMove ht).steady⟩
  | ret ans f rest t hstack ht =>
    refine ⟨_, s.conn, _, _, rfl, rfl, rfl, ?_⟩
    by_cases hf : Closing f
    · rcases hf with rfl | rfl
      · cases ht
        exact closeRest_steady
      · cases ht
        refine ⟨?_, Nat.le_refl _, rfl⟩
        intro o ho
        rw [List.mem_singleton.mp ho]
        rfl
    · exact (resume_plain hf ht).toSteady
  | readComplete res data ans key ctx b extra t hstack hop hlen hle hfill ht =>
    exact ⟨_, { s.conn with inputBuffer := b }, _, _, rfl, rfl, rfl,
      (onReadComplete_lifeMove ht).steady⟩
  | writeComplete res ans key ctx data =>
    exact ⟨_, s.conn, _, _, rfl, rfl, rfl, onWriteComplete_plain.toSteady⟩

/-- The states of the calls made so far are in order, and the present one is the last. -/
structure Ordered (s : Solo) : Prop where
  trace : s.trace.Pairwise fun e e' => e.conn.state.rank ≤ e'.conn.state.rank
  last : ∀ e ∈ s.trace, e.conn.state.rank ≤ s.conn.state.rank

theorem ordered {ok : Solo → Label → Prop} (h : machine.Reachable ok s) : s.Ordered := by
  refine invariant Ordered ?_ (fun s e hs => ⟨hs.trace, hs.last⟩) ?_ h
  · rintro s ⟨addr, fd, b₁, b₂, b₃, hwm, b₄, c, hc, rfl⟩
    exact ⟨List.Pairwise.nil, List.forall_mem_nil _⟩
  · intro s l s' _ _ hs _ hp
    rcases hp.turn with ⟨s₀, c, ans, t, rfl, htrace, hst, hsteady⟩
    have hforward : s.conn.state.rank ≤ t.conn.state.rank := hst ▸ hsteady.forward
    -- the calls of the turn are made in its last state
    have hnew : ∀ e ∈ t.out.map fun o => (⟨o.1, o.2, s₀.sent, s₀.accepted⟩ : Event),
        e.conn.state = t.conn.state := by
      intro e he
      rcases List.mem_map.mp he with ⟨o, ho, rfl⟩
      exact hsteady.out o ho
    have hold : ∀ e ∈ s₀.trace, e.conn.state.rank ≤ t.conn.state.rank := by
      intro e he
      rw [htrace] at he
      exact Nat.le_trans (hs.last e he) hforward
    refine ⟨List.pairwise_append.mpr ⟨htrace ▸ hs.trace, ?_, ?_⟩, ?_⟩
    · refine List.pairwise_of_forall_mem_list fun e he e' he' => ?_
      rw [hnew e he, hnew e' he']
    · intro e he e' he'
      rw [hnew e' he']
      exact hold e he
    · intro e he
      rcases List.mem_append.mp he with he | he
      · exact hold e he
      · rw [hnew e he]
        exact Nat.le_refl _

theorem step_forward (hs : s.step l = some s') : s.conn.state.rank ≤ s'.conn.state.rank := by
  rcases step_cases hs with hp | ⟨e, rfl⟩
  · rcases hp.turn with ⟨s₀, c, ans, t, rfl, -, hst, hsteady⟩
    exact hst ▸ hsteady.forward
  · exact Nat.le_refl _

/-! ## The life cycle -/

/-- The calls of a life are made at most once each, in their order. -/
structure Once (calls : List (ConnectionState × Output)) : Prop where
  /-- The connection callback runs in `OnEstablishing` and in `DoClosing`, -/
  callback : ∀ a ∈ calls, a.2 = .callback .onConnection → a.1 = .kConnected ∨ a.1 = .kDisconnected
  /-- once in each, -/
  established : calls.countP (fun a => a = (.kConnected, .callback .onConnection)) ≤ 1
  notified : calls.countP (fun a => a = (.kDisconnected, .callback .onConnection)) ≤ 1
  /-- and in this order. -/
  before : calls.Pairwise fun a b =>
    ¬ (a = (.kDisconnected, .callback .onConnection) ∧ b = (.kConnected, .callback .onConnection))
  close : calls.countP (fun a => a.2 = .callback .close) ≤ 1
  delete : calls.countP (fun a => a.2.isDelete) ≤ 1

theorem once_append {cl de : List (ConnectionState × Output)}
    (hest : est = [] ∨ est = [(.kConnected, .callback .onConnection)]) (htold : Notified told)
    (hcl : cl = [] ∨ cl = [(.kDisconnected, .callback .close)])
    (hde : de = [] ∨ ∃ fd, de = [(.kDisconnected, .deleteConnection fd)]) :
    Once (est ++ told ++ cl ++ de) := by
  rcases hest with rfl | rfl <;> rcases htold with rfl | rfl <;> rcases hcl with rfl | rfl <;>
    rcases hde with rfl | ⟨fd, rfl⟩ <;> constructor <;> simp [Output.isDelete]

theorem Begun.cases (h : Begun st est) :
    est = [] ∨ est = [(.kConnected, .callback .onConnection)] :=
  h.imp_right And.left

theorem Stage.once (h : Stage cb st frames calls) : Once calls := by
  cases h with
  | opened begun =>
    have honce := once_append begun.cases (.inl rfl) (.inl rfl) (.inl rfl)
    simpa using honce
  | notifying begun =>
    have honce := once_append begun.cases (.inr rfl) (.inl rfl) (.inl rfl)
    simpa using honce
  | closing begun notified =>
    have honce := once_append begun.cases notified (.inr rfl) (.inl rfl)
    simpa using honce
  | closed fd begun notified =>
    refine once_append begun.cases notified ?_ (.inr ⟨fd, rfl⟩)
    cases cb
    · exact .inl rfl
    · exact .inr rfl

/-- A closed connection without a frame of its close has made all calls. -/
theorem Stage.finished (h : Stage cb .kDisconnected [] calls) :
    calls.countP (fun a => a.2.isDelete) = 1 ∧
      (cb = true → calls.countP (fun a => a.2 = .callback .close) = 1) := by
  cases h with
  | opened _ state => exact absurd rfl state
  | closed fd begun notified =>
    rcases begun.cases with rfl | rfl <;> rcases notified with rfl | rfl <;> cases cb <;>
      simp [Output.isDelete]

structure LifeCycle (s : Solo) : Prop where
  /-- The state moves forward, -/
  forward : ∀ l s', s.step l = some s' → s.conn.state.rank ≤ s'.conn.state.rank
  /-- also within a step. -/
  ordered : s.Ordered
  once : Once s.life
  /-- A connection that is closed while nothing runs has called `DeleteConnection`, and
  the close callback if there is one. -/
  finished : s.conn.state = .kDisconnected → s.stack = [] →
    s.life.countP (fun a => a.2.isDelete) = 1 ∧
      (s.conn.closeCallback = true → s.life.countP (fun a => a.2 = .callback .close) = 1)

/-- **The life cycle of a connection.** In every run, whatever the callbacks do, the
state moves forward, and every call that tells of it is made once. -/
theorem life_cycle (h : machine.Reachable (fun _ _ => True) s) : s.LifeCycle := by
  have hstaged := staged h
  refine ⟨fun _ _ => step_forward, Solo.ordered h, hstaged.once, ?_⟩
  intro hst hstack
  rw [Staged, hst, closings, hstack] at hstaged
  exact hstaged.finished

/-- The theorem at a run in which the message callback closes the connection, and the
connection callback of this close closes it again. -/
theorem life_cycle_of_nested_close :
    ∃ s : Solo, machine.Reachable (fun _ _ => True) s ∧ s.conn.state = .kDisconnected ∧
      s.stack = [] ∧
      s.life = [(.kConnected, .callback .onConnection), (.kDisconnected, .callback .onConnection),
        (.kDisconnected, .deleteConnection 7)] ∧ s.LifeCycle := by
  rcases machine.exists_of_run (fun _ _ => True) plain_init
    [.call .onEstablishing 0, .ret 1, .readComplete 1 [7] 0, .call .forceClose 0,
      .call .forceClose 0, .ret 0, .ret 2]
    (fun s => s.conn.state = .kDisconnected ∧ s.stack = [] ∧
      s.life = [(.kConnected, .callback .onConnection), (.kDisconnected, .callback .onConnection),
        (.kDisconnected, .deleteConnection 7)]) (by decide +kernel)
    with ⟨s, hs, hst, hstack, hlife⟩
  exact ⟨s, hs, hst, hstack, hlife, life_cycle hs⟩

end Solo

end Taotu
