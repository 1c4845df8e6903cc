import Taotu.Lib.Table
import Taotu.Connection.LifeCycle
import Taotu.EventLoop.Destroying

/-!
# Taotu.EventLoop.Reaping — closed connections are destroyed once and in time

`DoClosing` leaves the descriptor of its connection in `closed_fds_`, and
`DestroyClosedConnections` looks up what it finds there in `connection_map_`. The two
are updated at different times: a callback of the close runs before the descriptor is
entered, and a descriptor is used again once its connection is destroyed.

1. **Turns.** A turn that closes a connection enters its descriptor, or leaves a frame
   of the close on the stack that will (`Announces`).
2. **Passes.** Every closed connection that is listed is destroyed by a pass, or waits
   for one more and stays listed (`destroyAll_aged`).
3. **Runs.** The kernel hands out descriptors that no connection has (`FreshFd`). So the
   map is exact in every run, and no connection is missed, destroyed twice, replaced, or
   kept for more than a thousand passes (`closed_connections_destroyed_once`).
-/

namespace Taotu

open Lib

namespace Connecting

open Solo (Closing)

variable {c : Connecting} {ans : ℕ} {t : Turn}

/-! ## Turns -/

/-- The close goes on in a frame, or the descriptor has been entered in `closed_fds_`. -/
def Announces (c : Connecting) (t : Turn) : Prop :=
  (∃ f ∈ t.frame, Closing f) ∨ Output.deleteConnection c.fd ∈ t.out.map Prod.snd

/-- What a turn means for the event loop. -/
structure Goes (c : Connecting) (t : Turn) : Prop where
  fd : t.conn.fd = c.fd
  retries : t.conn.pendingIoRetries = c.pendingIoRetries
  stays : c.state = .kDisconnected → t.conn.state = .kDisconnected
  closes : t.conn.state = .kDisconnected → c.state = .kDisconnected ∨ Announces c t

theorem closeEnd_announces (c : Connecting) : Announces c c.closeEnd :=
  .inr (List.mem_singleton.mpr rfl)

theorem closeRest_announces (c : Connecting) : Announces c c.closeRest := by
  rw [closeRest, callback]
  split
  · exact .inl ⟨_, rfl, .inr rfl⟩
  · exact closeEnd_announces c

theorem doClosing_announces (hst : c.state ≠ .kDisconnected) : Announces c c.doClosing := by
  have hafter : ∀ {out : List (Connecting × Output)} {t : Turn}, Announces c t →
      Announces c (t.after out) := by
    intro out t h
    refine h.imp_right fun hmem => ?_
    rw [Turn.after, List.map_append]
    exact List.mem_append_right _ hmem
  rw [doClosing, if_neg hst]
  dsimp only
  apply hafter
  rw [callback]
  split
  · exact .inl ⟨_, rfl, .inl rfl⟩
  · have hfd : (({ c with state := .kDisconnected } : Connecting).cancelPendingIo.1
        ).cancelPendingIo.1.fd = c.fd := by
      rw [cancelPendingIo_conn, cancelPendingIo_conn]
    have hrest := closeRest_announces
      (({ c with state := .kDisconnected } : Connecting).cancelPendingIo.1).cancelPendingIo.1
    rw [Announces, hfd] at hrest
    exact hrest

theorem IoMove.kept {v : IoView} {st : ConnectionState} (h : IoMove ans v st t) :
    t.conn.fd = v.fd ∧ t.conn.pendingIoRetries = v.retries := by
  have hio : t.conn.io.fd = v.fd ∧ t.conn.io.retries = v.retries := by
    cases h with
    | quiet _ io => rw [io]; exact ⟨rfl, rfl⟩
    | submitRead _ _ _ _ _ io => rw [io]; exact ⟨rfl, rfl⟩
    | submitWrite _ _ _ _ _ _ io => rw [io]; exact ⟨rfl, rfl⟩
    | cancel _ io => rw [io]; exact ⟨rfl, rfl⟩
  exact hio

theorem Steady.stays (h : Steady c t) (hst : c.state = .kDisconnected) :
    t.conn.state = .kDisconnected := by
  have hrank := h.forward
  rw [hst] at hrank
  revert hrank
  cases t.conn.state <;> decide

/-- What is known of a turn from its moves, if a close that it begins is announced. -/
theorem goes_of {v : IoView} {st : ConnectionState} (hmove : IoMove ans v st t) (hfd : v.fd = c.fd)
    (hretries : v.retries = c.pendingIoRetries) (hsteady : Steady c t)
    (hclose : c.state ≠ .kDisconnected → t.conn.state = .kDisconnected → Announces c t) :
    Goes c t := by
  refine ⟨hmove.kept.1.trans hfd, hmove.kept.2.trans hretries, hsteady.stays, ?_⟩
  intro hc
  by_cases hst : c.state = .kDisconnected
  · exact .inl hst
  · exact .inr (hclose hst hc)

theorem Plain.not_closes (h : Plain c t) (hopen : c.state ≠ .kDisconnected)
    (hclosed : t.conn.state = .kDisconnected) : Announces c t :=
  absurd (h.closed hclosed) hopen

theorem exec_announces {a : Act} (h : c.exec ans a = .ok t) (hopen : c.state ≠ .kDisconnected)
    (hclosed : t.conn.state = .kDisconnected) : Announces c t := by
  cases a <;> simp only [exec, Except.ok.injEq] at h
  case onEstablishing =>
    rw [onEstablishing] at h
    dsimp only at h
    split_ifs at h
    · cases h
      cases hclosed
    · cases h
      exact absurd hclosed hopen
  case send message => exact (send_plain h).not_closes hopen hclosed
  case shutDownWrite => exact (h ▸ shutDownWrite_plain : Plain c t).not_closes hopen hclosed
  case forceClose =>
    rw [forceClose, if_neg hopen] at h
    have hdisconnecting : ConnectionState.kDisconnecting ≠ .kDisconnected := by decide
    exact h ▸ doClosing_announces (c := { c with state := .kDisconnecting }) hdisconnecting
  case doClosing => exact h ▸ doClosing_announces hopen
  case startReading => exact (h ▸ submitReadOnce_plain : Plain c t).not_closes hopen hclosed
  case startWriting => exact (h ▸ submitWriteOnce_plain : Plain c t).not_closes hopen hclosed
  case consume len =>
    exact (h ▸ plain_nothing.of_eq rfl rfl : Plain c t).not_closes hopen hclosed
  all_goals exact (h ▸ stop_plain : Plain c t).not_closes hopen hclosed

theorem exec_goes {a : Act} (h : c.exec ans a = .ok t) : Goes c t :=
  goes_of (exec_ioMove h) rfl rfl (exec_lifeMove h).steady (exec_announces h)

theorem onReadComplete_goes {res : ℤ} {ctx : ReadContext}
    (h : c.onReadComplete ⟨res, false⟩ ctx ans = .ok t) : Goes c t := by
  refine goes_of (onReadComplete_ioMove h) rfl rfl (onReadComplete_lifeMove h).steady ?_
  intro hopen hclosed
  rcases onReadComplete_cases h with ⟨-, input, -, rfl⟩ | ⟨-, rfl⟩ | ⟨-, rfl⟩ | ⟨-, rfl⟩
  · have hframe : ¬ Closing (.readRest false) := by
      rintro (h | h) <;> cases h
    exact ((callback_plain rfl hframe submitReadOnce_plain).of_eq rfl rfl).not_closes hopen hclosed
  · exact doClosing_announces (c := c.readDone) hopen
  · exact (submitReadOnce_plain.of_eq rfl rfl).not_closes hopen hclosed
  · exact (plain_nothing.of_eq rfl rfl).not_closes hopen hclosed

theorem onWriteComplete_goes {cqe : Cqe} : Goes c (c.onWriteComplete cqe ans) :=
  goes_of onWriteComplete_ioMove rfl rfl onWriteComplete_plain.toSteady
    onWriteComplete_plain.not_closes

/-- The rest of a close enters the descriptor or leaves a frame. -/
theorem resume_announces {f : Frame} (hf : Closing f) (h : c.resume ans f = .ok t) :
    Announces c t := by
  rcases hf with rfl | rfl
  · cases h
    exact closeRest_announces c
  · cases h
    exact closeEnd_announces c

theorem resume_goes {f : Frame} (h : c.resume ans f = .ok t) : Goes c t := by
  by_cases hf : Closing f
  · have hannounces := resume_announces hf h
    refine goes_of (resume_ioMove h) rfl rfl ?_ fun _ _ => hannounces
    rcases hf with rfl | rfl
    · cases h
      exact closeRest_steady
    · cases h
      refine ⟨?_, Nat.le_refl _, rfl⟩
      intro o ho
      rw [List.mem_singleton.mp ho]
      rfl
  · have hplain := resume_plain hf h
    exact goes_of (resume_ioMove h) rfl rfl hplain.toSteady hplain.not_closes

theorem new_fd {addr fd : ℕ} {onConnection onMessage writeComplete close : Bool}
    {highWaterMark : Option ℕ}
    (h : new addr fd onConnection onMessage writeComplete highWaterMark close = .ok c) :
    c.fd = fd ∧ c.pendingIoRetries = 0 ∧ c.isDisconnected = false := by
  rw [new] at h
  rcases bind_eq_ok h with ⟨_, -, h⟩
  rcases bind_eq_ok h with ⟨_, -, h⟩
  rcases bind_eq_ok h with ⟨_, -, h⟩
  cases h
  exact ⟨rfl, rfl, rfl⟩

end Connecting

namespace EventManager

open Connecting
open Solo (Closing)

variable {s s' : EventManager} {l : Label}

/-- The descriptor of a new connection is not open: no connection has it. -/
def FreshFd (s : EventManager) : Label → Prop
  | .insert _ fd _ _ _ _ _ => ∀ a obj, s.heap a = some obj → obj.conn.fd ≠ fd
  | _ => True

/-- The map is exact, and what has been destroyed is gone. -/
structure Mapped (s : EventManager) : Prop where
  mapped : ∀ a obj, s.heap a = some obj → s.connectionMap obj.conn.fd = some a
  entry : ∀ fd a, s.connectionMap fd = some a → ∃ obj, s.heap a = some obj ∧ obj.conn.fd = fd
  once : (s.removals.map Removal.owner).Nodup
  gone : ∀ r ∈ s.removals, r.owner < s.created ∧ ∀ a obj, s.heap a = some obj → obj.owner ≠ r.owner
  patient : ∀ a obj, s.heap a = some obj → obj.conn.pendingIoRetries ≤ kMaxPendingIoRetries

/-- Every closed connection is listed, or its close is still going on. -/
def Listed (s : EventManager) : Prop :=
  ∀ a obj, s.heap a = some obj → obj.conn.isDisconnected = true →
    obj.conn.fd ∈ s.closedFds ∨ ∃ f ∈ s.stack, f.1 = a ∧ Closing f.2

/-! ## Passes -/

/-- The same connection, after some passes. -/
structure Aged (obj obj' : Object) : Prop where
  owner : obj'.owner = obj.owner
  fd : obj'.conn.fd = obj.conn.fd
  state : obj'.conn.state = obj.conn.state
  retries : obj.conn.pendingIoRetries ≤ obj'.conn.pendingIoRetries

theorem Aged.refl (obj : Object) : Aged obj obj := ⟨rfl, rfl, rfl, le_rfl⟩

theorem Aged.trans {obj obj' obj'' : Object} (h : Aged obj obj') (h' : Aged obj' obj'') :
    Aged obj obj'' :=
  ⟨h'.owner.trans h.owner, h'.fd.trans h.fd, h'.state.trans h.state, h.retries.trans h'.retries⟩

theorem Aged.disconnected {obj obj' : Object} (h : Aged obj obj') :
    obj'.conn.isDisconnected = obj.conn.isDisconnected := by
  rw [isDisconnected, isDisconnected, h.state]

/-- A pass over `fds` from `s` to `s'`, with `rest` the descriptors that remain. A connection
stays, one pass older if its turn came, or it was closed and is destroyed. -/
structure Aging (s s' : EventManager) (fds rest : List ℕ) : Prop where
  stays : ∀ a obj', s'.heap a = some obj' → ∃ obj, s.heap a = some obj ∧ Aged obj obj' ∧
    (obj.conn.fd ∈ fds → obj.conn.isDisconnected = true →
      obj.conn.fd ∈ rest ∧ obj.conn.pendingIoRetries + 1 ≤ obj'.conn.pendingIoRetries)
  goes : ∀ a obj, s.heap a = some obj → (∃ obj', s'.heap a = some obj') ∨
    obj.conn.isDisconnected = true ∧ obj.owner ∈ s'.removals.map Removal.owner
  removals : s.removals <+: s'.removals

theorem waits_of_lt {c : Connecting} (h : waits c = true) :
    c.pendingIoRetries < kMaxPendingIoRetries := by
  simp only [waits, Bool.and_eq_true, decide_eq_true_eq] at h
  exact h.1.2

/-- What becomes of a descriptor, and whether it remains. -/
inductive Handled (s : EventManager) (fd : ℕ) : EventManager × Bool → Prop where
  | skipped (hopen : ∀ a obj, s.connectionMap fd = some a → s.heap a = some obj →
      obj.conn.isDisconnected = false) : Handled s fd (s, false)
  | waited (a : ℕ) (obj : Object) (hmap : s.connectionMap fd = some a) (hobj : s.heap a = some obj)
      (hwait : waits obj.conn = true) : Handled s fd
        ({ s with
          heap := Function.update s.heap a (some ⟨obj.owner, obj.conn.bumpPendingIoWait⟩) }, true)
  | removed (a : ℕ) (obj : Object) (hmap : s.connectionMap fd = some a) (hobj : s.heap a = some obj)
      (hdisc : obj.conn.isDisconnected = true) : Handled s fd (s.remove fd a obj, false)

theorem destroyClosed_handled (s : EventManager) (fd : ℕ) : s.Handled fd (s.destroyClosed fd) := by
  unfold destroyClosed
  split
  · next hnone =>
    apply Handled.skipped
    intro a obj hmap
    cases hnone.symm.trans hmap
  · next a hmap =>
    split
    · next hnone =>
      apply Handled.skipped
      intro a' obj hmap' hobj
      cases hmap.symm.trans hmap'
      cases hnone.symm.trans hobj
    · next obj hobj =>
      split
      · next hdisc =>
        split
        · next hwait => exact .waited a obj hmap hobj hwait
        · exact .removed a obj hmap hobj hdisc
      · next hopen =>
        apply Handled.skipped
        intro a' obj' hmap' hobj'
        cases hmap.symm.trans hmap'
        cases hobj.symm.trans hobj'
        exact Bool.eq_false_of_not_eq_true hopen

/-- A connection that is waited for is one pass older. -/
theorem Mapped.bump (h : s.Mapped) {a : ℕ} {obj : Object} (hobj : s.heap a = some obj)
    (hwait : waits obj.conn = true) :
    Mapped { s with
      heap := Function.update s.heap a (some ⟨obj.owner, obj.conn.bumpPendingIoWait⟩) } := by
  constructor
  · intro b obj' hb
    rcases enter_eq_some.mp hb with ⟨rfl, rfl⟩ | ⟨-, hold⟩
    · exact h.mapped b obj hobj
    · exact h.mapped b obj' hold
  · intro fd b hb
    rcases h.entry fd b hb with ⟨obj', hobj', hfd⟩
    by_cases hba : b = a
    · subst hba
      cases hobj.symm.trans hobj'
      exact ⟨_, Function.update_self .., hfd⟩
    · exact ⟨obj', (Function.update_of_ne hba ..).trans hobj', hfd⟩
  · exact h.once
  · intro r hr
    refine ⟨(h.gone r hr).1, ?_⟩
    intro b obj' hb
    rcases enter_eq_some.mp hb with ⟨rfl, rfl⟩ | ⟨-, hold⟩
    · exact (h.gone r hr).2 b obj hobj
    · exact (h.gone r hr).2 b obj' hold
  · intro b obj' hb
    rcases enter_eq_some.mp hb with ⟨rfl, rfl⟩ | ⟨-, hold⟩
    · exact waits_of_lt hwait
    · exact h.patient b obj' hold

theorem Mapped.remove (h : s.Mapped) (ho : s.Owned) {fd a : ℕ} {obj : Object}
    (hmap : s.connectionMap fd = some a) (hobj : s.heap a = some obj) :
    (s.remove fd a obj).Mapped := by
  have hheap := remove_heap s fd a obj
  have hmaps := remove_connectionMap s fd a obj
  have hremovals := remove_removals s fd a obj
  have hcreated : (s.remove fd a obj).created = s.created := destroy_created _ a
  have hfd : obj.conn.fd = fd := by
    rcases h.entry fd a hmap with ⟨obj', hobj', hfd⟩
    cases hobj.symm.trans hobj'
    exact hfd
  constructor
  · intro b obj' hb
    rw [hheap] at hb
    rcases erase_eq_some.mp hb with ⟨hne, hold⟩
    have hold' := h.mapped b obj' hold
    rw [hmaps, Function.update_of_ne, hold']
    intro heq
    rw [heq, hmap] at hold'
    exact hne (Option.some.inj hold').symm
  · intro fd' b hb
    rw [hmaps] at hb
    rcases erase_eq_some.mp hb with ⟨hne, hold⟩
    rcases h.entry fd' b hold with ⟨obj', hobj', hfd'⟩
    refine ⟨obj', ?_, hfd'⟩
    rw [hheap, Function.update_of_ne, hobj']
    intro heq
    subst heq
    cases hobj.symm.trans hobj'
    exact hne (hfd'.symm.trans hfd)
  · rw [hremovals, List.map_append, List.map_singleton, List.nodup_append]
    refine ⟨h.once, List.nodup_singleton _, ?_⟩
    intro o ho' o' hnew heq
    rcases List.mem_map.mp ho' with ⟨r, hr, rfl⟩
    rw [List.mem_singleton.mp hnew] at heq
    exact (h.gone r hr).2 a obj hobj heq.symm
  · intro r hr
    rw [hremovals] at hr
    rw [hcreated, hheap]
    rcases List.mem_append.mp hr with hold | hnew
    · refine ⟨(h.gone r hold).1, ?_⟩
      intro b obj' hb
      exact (h.gone r hold).2 b obj' (erase_eq_some.mp hb).2
    · rw [List.mem_singleton.mp hnew]
      refine ⟨ho.lt a obj hobj, ?_⟩
      intro b obj' hb heq
      rcases erase_eq_some.mp hb with ⟨hne, hold⟩
      exact hne (ho.inj b a obj' obj hold hobj heq)
  · intro b obj' hb
    rw [hheap] at hb
    exact h.patient b obj' (erase_eq_some.mp hb).2

/-- A descriptor has one connection. -/
theorem Mapped.eq_of_fd (h : s.Mapped) {fd a b : ℕ} {obj : Object}
    (hmap : s.connectionMap fd = some a) (hobj : s.heap b = some obj) (hfd : obj.conn.fd = fd) :
    b = a := by
  have hmapped := h.mapped b obj hobj
  rw [hfd, hmap] at hmapped
  exact (Option.some.inj hmapped).symm

/-- One descriptor of a pass. -/
theorem destroyClosed_aging (h : s.Mapped) (ho : s.Owned) (fd : ℕ) :
    (s.destroyClosed fd).1.Mapped ∧
      Aging s (s.destroyClosed fd).1 [fd] (if (s.destroyClosed fd).2 then [fd] else []) := by
  have hhandled := s.destroyClosed_handled fd
  generalize s.destroyClosed fd = r at hhandled ⊢
  cases hhandled with
  | skipped hopen =>
    refine ⟨h, ?_, ?_, List.prefix_refl _⟩
    · intro a obj hobj
      refine ⟨obj, hobj, .refl obj, ?_⟩
      intro hmem hdisc
      have hmap := h.mapped a obj hobj
      rw [List.mem_singleton.mp hmem] at hmap
      rw [hopen a obj hmap hobj] at hdisc
      cases hdisc
    · intro a obj hobj
      exact .inl ⟨obj, hobj⟩
  | waited a obj hmap hobj hwait =>
    refine ⟨h.bump hobj hwait, ?_, ?_, List.prefix_refl _⟩
    · intro b obj' hb
      rcases enter_eq_some.mp hb with ⟨rfl, rfl⟩ | ⟨hne, hold⟩
      · refine ⟨obj, hobj, ⟨rfl, rfl, rfl, Nat.le_succ _⟩, ?_⟩
        intro hmem _
        exact ⟨hmem, le_rfl⟩
      · refine ⟨obj', hold, .refl obj', ?_⟩
        intro hmem _
        exact absurd (h.eq_of_fd hmap hold (List.mem_singleton.mp hmem)) hne
    · intro b obj' hb
      by_cases hba : b = a
      · rw [hba]
        exact .inl ⟨_, Function.update_self ..⟩
      · exact .inl ⟨obj', (Function.update_of_ne hba ..).trans hb⟩
  | removed a obj hmap hobj hdisc =>
    have hremovals := remove_removals s fd a obj
    refine ⟨h.remove ho hmap hobj, ?_, ?_, ?_⟩
    · intro b obj' hb
      rw [remove_heap] at hb
      rcases erase_eq_some.mp hb with ⟨hne, hold⟩
      refine ⟨obj', hold, .refl obj', ?_⟩
      intro hmem _
      exact absurd (h.eq_of_fd hmap hold (List.mem_singleton.mp hmem)) hne
    · intro b obj' hb
      by_cases hba : b = a
      · subst hba
        cases hobj.symm.trans hb
        refine .inr ⟨hdisc, ?_⟩
        rw [hremovals, List.map_append]
        exact List.mem_append_right _ (List.mem_singleton.mpr rfl)
      · refine .inl ⟨obj', ?_⟩
        rw [remove_heap, Function.update_of_ne hba]
        exact hb
    · rw [hremovals]
      exact List.prefix_append _ _

theorem destroyClosed_owned (ho : s.Owned) (fd : ℕ) : (s.destroyClosed fd).1.Owned :=
  ho.continues (.destroyClosed s fd) (destroyAll_created s [fd])

/-- A whole pass. -/
theorem destroyAll_aging (fds : List ℕ) (h : s.Mapped) (ho : s.Owned) :
    (destroyAll s fds).1.Mapped ∧ Aging s (destroyAll s fds).1 fds (destroyAll s fds).2 := by
  induction fds generalizing s with
  | nil =>
    refine ⟨h, ?_, ?_, List.prefix_refl _⟩
    · intro a obj hobj
      refine ⟨obj, hobj, .refl obj, ?_⟩
      intro hmem
      cases hmem
    · intro a obj hobj
      exact .inl ⟨obj, hobj⟩
  | cons fd fds ih =>
    rcases destroyClosed_aging h ho fd with ⟨hmapped, hfirst⟩
    rcases ih hmapped (destroyClosed_owned ho fd) with ⟨hall, hrest⟩
    refine ⟨hall, ?_, ?_, hfirst.removals.trans hrest.removals⟩
    · intro a obj' hobj'
      rcases hrest.stays a obj' hobj' with ⟨obj₁, hobj₁, haged₁, hlater⟩
      rcases hfirst.stays a obj₁ hobj₁ with ⟨obj, hobj, haged, hnow⟩
      refine ⟨obj, hobj, haged.trans haged₁, ?_⟩
      intro hmem hdisc
      show _ ∈ (if (s.destroyClosed fd).2 then fd :: _ else _) ∧ _
      rcases List.mem_cons.mp hmem with heq | htail
      · rcases hnow (List.mem_singleton.mpr heq) hdisc with ⟨hremains, hretries⟩
        refine ⟨?_, hretries.trans haged₁.retries⟩
        split at hremains
        · next hflag =>
          rw [if_pos hflag, heq]
          exact List.mem_cons_self
        · cases hremains
      · rw [← haged.fd] at htail
        rw [← haged.disconnected] at hdisc
        rcases hlater htail hdisc with ⟨hremains, hretries⟩
        rw [haged.fd] at hremains
        refine ⟨?_, (Nat.succ_le_succ haged.retries).trans hretries⟩
        split
        · exact List.mem_cons_of_mem _ hremains
        · exact hremains
    · intro a obj hobj
      rcases hfirst.goes a obj hobj with ⟨obj₁, hobj₁⟩ | ⟨hdisc, hgone⟩
      · rcases hfirst.stays a obj₁ hobj₁ with ⟨obj₂, hobj₂, haged, -⟩
        cases hobj.symm.trans hobj₂
        rcases hrest.goes a obj₁ hobj₁ with hstays | ⟨hdisc, hgone⟩
        · exact .inl hstays
        · rw [haged.disconnected] at hdisc
          rw [haged.owner] at hgone
          exact .inr ⟨hdisc, hgone⟩
      · exact .inr ⟨hdisc, (hrest.removals.map _).subset hgone⟩

/-! ## Runs -/

/-- The same connection, after a turn. -/
structure Onward (obj obj' : Object) : Prop where
  owner : obj'.owner = obj.owner
  fd : obj'.conn.fd = obj.conn.fd
  retries : obj'.conn.pendingIoRetries = obj.conn.pendingIoRetries
  closed : obj.conn.isDisconnected = true → obj'.conn.isDisconnected = true

/-- What a step is for the map: at most a turn of one connection, a new one, or a pass. -/
inductive Moved (s : EventManager) (l : Label) (s' : EventManager) : Prop where
  | turn (other : l ≠ .destroyClosed) (heap : ∀ a, Option.Rel Onward (s.heap a) (s'.heap a))
      (map : s'.connectionMap = s.connectionMap) (removals : s'.removals = s.removals)
      (created : s'.created = s.created)
  | insert (addr fd : ℕ) (b₁ b₂ b₃ : Bool) (hwm : Option ℕ) (b₄ : Bool) (c : Connecting)
      (label : l = .insert addr fd b₁ b₂ b₃ hwm b₄) (free : s.heap addr = none)
      (unused : s.connectionMap fd = none) (newFd : c.fd = fd)
      (new : c.pendingIoRetries = 0 ∧ c.isDisconnected = false)
      (heap : s'.heap = Function.update s.heap addr (some ⟨s.created, c⟩))
      (map : s'.connectionMap = Function.update s.connectionMap fd (some addr))
      (removals : s'.removals = s.removals) (created : s'.created = s.created + 1)
  | pass (label : l = .destroyClosed) (mapped : s'.Mapped) (created : s'.created = s.created)
      (due : ∀ a obj, s.heap a = some obj → obj.conn.isDisconnected = true →
        obj.conn.fd ∈ s.closedFds)
      (aging : Aging s s' s.closedFds s'.closedFds)

theorem Onward.refl (obj : Object) : Onward obj obj := ⟨rfl, rfl, rfl, id⟩

theorem onward_same (heap : ℕ → Option Object) (a : ℕ) : Option.Rel Onward (heap a) (heap a) := by
  cases heap a with
  | none => exact .none
  | some obj => exact .some (.refl obj)

theorem onward_replace {heap : ℕ → Option Object} {a : ℕ} {obj obj' : Object}
    (hobj : heap a = some obj) (h : Onward obj obj') (b : ℕ) :
    Option.Rel Onward (heap b) (Function.update heap a (some obj') b) := by
  by_cases hba : b = a
  · rw [hba, hobj, Function.update_self]
    exact .some h
  · rw [Function.update_of_ne hba]
    exact onward_same heap b

theorem onward_of_goes {obj : Object} {t : Turn} (h : Goes obj.conn t) :
    Onward obj ⟨obj.owner, t.conn⟩ := by
  refine ⟨rfl, h.fd, h.retries, ?_⟩
  intro hdisc
  exact decide_eq_true (h.stays (of_decide_eq_true hdisc))

theorem mem_deletes {outs : List Output} {fds : List ℕ} {fd : ℕ} :
    fd ∈ outs.foldl deleteConnection fds ↔ fd ∈ fds ∨ .deleteConnection fd ∈ outs := by
  induction outs generalizing fds with
  | nil => simp
  | cons o outs ih =>
    have hone : fd ∈ deleteConnection fds o ↔ fd ∈ fds ∨ .deleteConnection fd = o := by
      cases o with
      | deleteConnection fd' =>
        show (fd ∈ if fd' ∈ fds then fds else fds ++ [fd']) ↔ _
        rw [Output.deleteConnection.injEq]
        split
        · next hmem =>
          constructor
          · exact .inl
          · rintro (hold | rfl)
            · exact hold
            · exact hmem
        · rw [List.mem_append, List.mem_singleton]
      | _ => simp [deleteConnection]
    rw [List.foldl_cons, ih, hone, List.mem_cons, or_assoc]

/-- After a turn every closed connection is listed or its close goes on, if that was so for
the others before and for this one unless the turn announces it. -/
theorem listed_take {a : ℕ} {obj : Object} {sqe : Bool} {t : Turn} (hobj : s.heap a = some obj)
    (hgoes : Goes obj.conn t)
    (hlisted : ∀ b objb, s.heap b = some objb → objb.conn.isDisconnected = true →
      (objb.conn.fd ∈ s.closedFds ∨ ∃ f ∈ s.stack, f.1 = b ∧ Closing f.2) ∨
        b = a ∧ Announces obj.conn t) :
    (s.take a obj.owner sqe t).Listed := by
  have hkeeps : ∀ {b fd : ℕ}, (fd ∈ s.closedFds ∨ ∃ f ∈ s.stack, f.1 = b ∧ Closing f.2) →
      fd ∈ (s.take a obj.owner sqe t).closedFds ∨
        ∃ f ∈ (s.take a obj.owner sqe t).stack, f.1 = b ∧ Closing f.2 := by
    intro b fd h
    rcases h with hmem | ⟨f, hf, hclosing⟩
    · exact .inl (mem_deletes.mpr (.inl hmem))
    · exact .inr ⟨f, List.mem_append_right _ hf, hclosing⟩
  have hannounced : Announces obj.conn t → obj.conn.fd ∈ (s.take a obj.owner sqe t).closedFds ∨
      ∃ f ∈ (s.take a obj.owner sqe t).stack, f.1 = a ∧ Closing f.2 := by
    rintro (⟨f, hf, hclosing⟩ | hmem)
    · refine .inr ⟨(a, f), List.mem_append_left _ ?_, rfl, hclosing⟩
      exact List.mem_map.mpr ⟨f, Option.mem_toList.mpr hf, rfl⟩
    · exact .inl (mem_deletes.mpr (.inr hmem))
  intro b obj' hb hdisc
  rcases enter_eq_some.mp hb with ⟨rfl, rfl⟩ | ⟨hne, hold⟩
  · rw [show (⟨obj.owner, t.conn⟩ : Object).conn.fd = obj.conn.fd from hgoes.fd]
    rcases hgoes.closes (of_decide_eq_true hdisc) with hclosed | hannounces
    · rcases hlisted b obj hobj (decide_eq_true hclosed) with hlist | ⟨-, hannounces⟩
      · exact hkeeps hlist
      · exact hannounced hannounces
    · exact hannounced hannounces
  · rcases hlisted b obj' hold hdisc with hlist | ⟨heq, -⟩
    · exact hkeeps hlist
    · exact absurd heq hne

theorem perform_ret {sqe : Bool} (hen : s.Enabled (.ret sqe)) (hp : s.perform (.ret sqe) = .ok s') :
    ∃ a f rest obj t, s.stack = (a, f) :: rest ∧ s.heap a = some obj ∧
      obj.conn.resume (s.poller.answer sqe) f = .ok t ∧
      s' = { s with stack := rest }.take a obj.owner sqe t := by
  unfold perform at hp
  dsimp only at hp
  split at hp
  · next hnil => exact absurd hnil hen
  · next a f rest hstack =>
    split at hp
    · cases hp
    · next obj hobj =>
      rcases bind_eq_ok hp with ⟨t, ht, hs⟩
      exact ⟨a, f, rest, obj, t, hstack, hobj, ht, (Except.ok.inj hs).symm⟩

theorem moved_take {s₀ : EventManager} {a : ℕ} {obj : Object} {sqe : Bool} {t : Turn}
    (other : l ≠ .destroyClosed) (hheap : s₀.heap = s.heap)
    (hmap : s₀.connectionMap = s.connectionMap) (hremovals : s₀.removals = s.removals)
    (hcreated : s₀.created = s.created) (hobj : s.heap a = some obj) (hgoes : Goes obj.conn t) :
    s.Moved l (s₀.take a obj.owner sqe t) := by
  refine .turn other ?_ hmap hremovals hcreated
  intro b
  show Option.Rel Onward (s.heap b) (Function.update s₀.heap a _ b)
  rw [hheap]
  exact onward_replace hobj (onward_of_goes hgoes) b

theorem moved_same (other : l ≠ .destroyClosed) (hheap : s'.heap = s.heap)
    (hmap : s'.connectionMap = s.connectionMap) (hremovals : s'.removals = s.removals)
    (hcreated : s'.created = s.created) : s.Moved l s' := by
  refine .turn other ?_ hmap hremovals hcreated
  rw [hheap]
  exact onward_same s.heap

/-- A new connection finds its descriptor unused. -/
theorem Mapped.unused (h : s.Mapped) {addr fd : ℕ} {b₁ b₂ b₃ b₄ : Bool} {hwm : Option ℕ}
    (hok : s.FreshFd (.insert addr fd b₁ b₂ b₃ hwm b₄)) : s.connectionMap fd = none := by
  by_contra hne
  rcases Option.ne_none_iff_exists'.mp hne with ⟨a, ha⟩
  rcases h.entry fd a ha with ⟨obj, hobj, hfd⟩
  exact hok a obj hobj hfd

theorem insertNewConnection_of_none {addr fd : ℕ} {c : Connecting}
    (h : s.connectionMap fd = none) :
    s.insertNewConnection addr fd c = { s with
      poller := s.poller.addEventer addr
      heap := Function.update s.heap addr (some ⟨s.created, c⟩)
      connectionMap := Function.update s.connectionMap fd (some addr)
      created := s.created + 1 } := by
  unfold insertNewConnection
  dsimp only
  rw [h]

/-- Between two handlers no close is going on. -/
theorem Listed.of_idle (hl : s.Listed) (hidle : s.stack = []) {a : ℕ} {obj : Object}
    (hobj : s.heap a = some obj) (hdisc : obj.conn.isDisconnected = true) :
    obj.conn.fd ∈ s.closedFds := by
  rcases hl a obj hobj hdisc with hmem | ⟨f, hf, -⟩
  · exact hmem
  · rw [hidle] at hf
    cases hf

theorem pass_moved (h : s.Mapped) (hl : s.Listed) (ho : s.Owned) (hidle : s.stack = []) :
    s.Moved .destroyClosed s.destroyClosedConnections ∧ s.destroyClosedConnections.Listed := by
  rcases destroyAll_aging s.closedFds h ho with ⟨hm, haging⟩
  have hdue : ∀ a obj, s.heap a = some obj → obj.conn.isDisconnected = true →
      obj.conn.fd ∈ s.closedFds := fun a obj => hl.of_idle hidle
  constructor
  · refine .pass rfl ⟨hm.mapped, hm.entry, hm.once, hm.gone, hm.patient⟩ ?_ hdue ?_
    · exact destroyAll_created s s.closedFds
    · exact ⟨haging.stays, haging.goes, haging.removals⟩
  · intro a obj' hobj' hdisc
    rcases haging.stays a obj' hobj' with ⟨obj, hobj, haged, hremains⟩
    rw [haged.disconnected] at hdisc
    rw [haged.fd]
    exact .inl (hremains (hdue a obj hobj hdisc) hdisc).1

/-- What a step does to the map; and closed connections stay listed. -/
theorem moved (h : s.Mapped) (hl : s.Listed) (ho : s.Owned) (hok : s.FreshFd l)
    (hs : s.step l = some s') : s.Moved l s' ∧ s'.Listed := by
  rcases step_performed hs with ⟨hen, hp | ⟨e, hp, rfl⟩⟩
  swap
  · refine ⟨moved_same ?_ rfl rfl rfl rfl, hl⟩
    -- a pass does not fail
    rintro rfl
    cases hp
  cases perform_ok hen hp with
  | insert addr fd b₁ b₂ b₃ hwm b₄ c free hc =>
    have hnone := h.unused hok
    rcases new_fd hc with ⟨hfd, hretries, hopen⟩
    rw [insertNewConnection_of_none hnone]
    refine ⟨.insert addr fd b₁ b₂ b₃ hwm b₄ c rfl free hnone hfd ⟨hretries, hopen⟩ rfl rfl rfl rfl, ?_⟩
    intro a obj hobj hdisc
    rcases enter_eq_some.mp hobj with ⟨-, rfl⟩ | ⟨-, hold⟩
    · cases hopen.symm.trans hdisc
    · exact hl a obj hold hdisc
  | call a act sqe obj t hobj ht =>
    have hgoes := exec_goes ht
    refine ⟨moved_take (by simp) rfl rfl rfl rfl hobj hgoes, listed_take hobj hgoes ?_⟩
    intro b objb hb hdisc
    exact .inl (hl b objb hb hdisc)
  | ret sqe _ _ _ _ _ _ _ =>
    rcases perform_ret hen hp with ⟨a, f, rest, obj, t, hstack, hobj, ht, heq⟩
    have hgoes := resume_goes ht
    rw [heq]
    refine ⟨moved_take (by simp) rfl rfl rfl rfl hobj hgoes,
      listed_take (s := { s with stack := rest }) hobj hgoes ?_⟩
    intro b objb hb hdisc
    rcases hl b objb hb hdisc with hmem | ⟨g, hg, rfl, hclosing⟩
    · exact .inl (.inl hmem)
    · rw [hstack] at hg
      rcases List.mem_cons.mp hg with rfl | hrest
      · -- the frame that is resumed here
        exact .inr ⟨rfl, resume_announces hclosing ht⟩
      · exact .inl (.inr ⟨g, hrest, rfl, hclosing⟩)
  | readComplete key res data sqe op ctx ctx' obj b t hcall hctx hobj ht =>
    have hread := onReadComplete_goes ht
    have hgoes : Goes obj.conn t := ⟨hread.fd, hread.retries, hread.stays, hread.closes⟩
    refine ⟨moved_take (by simp) rfl rfl rfl rfl hobj hgoes,
      listed_take (s := s.lookup key) hobj hgoes ?_⟩
    intro b objb hb hdisc
    exact .inl (hl b objb hb hdisc)
  | writeComplete key res data sqe op ctx obj hcall hctx hobj =>
    have hgoes : Goes obj.conn (obj.conn.onWriteComplete ⟨res, false⟩ (s.poller.answer sqe)) :=
      onWriteComplete_goes
    refine ⟨moved_take (by simp) rfl rfl rfl rfl hobj hgoes,
      listed_take (s := s.lookup key) hobj hgoes ?_⟩
    intro b objb hb hdisc
    exact .inl (hl b objb hb hdisc)
  | unheard key res data more sqe hno => exact ⟨moved_same (by simp) rfl rfl rfl rfl, hl⟩
  | repeated key res data sqe => exact ⟨moved_same (by simp) rfl rfl rfl rfl, hl⟩
  | other sqe => exact ⟨moved_same (by simp) rfl rfl rfl rfl, hl⟩
  | destroyClosed => exact pass_moved h hl ho hen

theorem Mapped.moved (h : s.Mapped) (hm : s.Moved l s') : s'.Mapped := by
  cases hm with
  | turn _ heap map removals created =>
    have hback : ∀ {a obj'}, s'.heap a = some obj' → ∃ obj, s.heap a = some obj ∧ Onward obj obj' :=
      fun hobj' => rel_some_right (hobj' ▸ heap _)
    constructor
    · intro a obj' hobj'
      rcases hback hobj' with ⟨obj, hobj, honward⟩
      rw [map, honward.fd]
      exact h.mapped a obj hobj
    · intro fd a hmap
      rw [map] at hmap
      rcases h.entry fd a hmap with ⟨obj, hobj, hfd⟩
      rcases rel_some_left (hobj ▸ heap a) with ⟨obj', hobj', honward⟩
      exact ⟨obj', hobj', honward.fd.trans hfd⟩
    · rw [removals]
      exact h.once
    · intro r hr
      rw [removals] at hr
      rw [created]
      refine ⟨(h.gone r hr).1, ?_⟩
      intro a obj' hobj'
      rcases hback hobj' with ⟨obj, hobj, honward⟩
      rw [honward.owner]
      exact (h.gone r hr).2 a obj hobj
    · intro a obj' hobj'
      rcases hback hobj' with ⟨obj, hobj, honward⟩
      rw [honward.retries]
      exact h.patient a obj hobj
  | insert addr fd _ _ _ _ _ c _ free unused newFd new heap map removals created =>
    constructor
    · intro a obj hobj
      rw [heap] at hobj
      rw [map]
      rcases enter_eq_some.mp hobj with ⟨rfl, rfl⟩ | ⟨-, hold⟩
      · rw [newFd, Function.update_self]
      · have hmap := h.mapped a obj hold
        rw [Function.update_of_ne, hmap]
        intro heq
        rw [heq, unused] at hmap
        cases hmap
    · intro fd' a hmap
      rw [map] at hmap
      rw [heap]
      rcases enter_eq_some.mp hmap with ⟨rfl, rfl⟩ | ⟨-, hold⟩
      · exact ⟨_, Function.update_self .., newFd⟩
      · rcases h.entry fd' a hold with ⟨obj, hobj, hfd⟩
        refine ⟨obj, ?_, hfd⟩
        rw [Function.update_of_ne, hobj]
        rintro rfl
        cases free.symm.trans hobj
    · rw [removals]
      exact h.once
    · intro r hr
      rw [removals] at hr
      rw [created, heap]
      refine ⟨Nat.lt_succ_of_lt (h.gone r hr).1, ?_⟩
      intro a obj hobj
      rcases enter_eq_some.mp hobj with ⟨-, rfl⟩ | ⟨-, hold⟩
      · exact (h.gone r hr).1.ne'
      · exact (h.gone r hr).2 a obj hold
    · intro a obj hobj
      rw [heap] at hobj
      rcases enter_eq_some.mp hobj with ⟨-, rfl⟩ | ⟨-, hold⟩
      · rw [new.1]
        exact Nat.zero_le _
      · exact h.patient a obj hold
  | pass _ mapped => exact mapped

structure Booked (s : EventManager) : Prop extends Mapped s where
  listed : s.Listed

theorem booked_start : start.Booked := by
  refine ⟨⟨?_, ?_, List.nodup_nil, List.forall_mem_nil _, ?_⟩, ?_⟩
  · intro a obj hobj
    cases hobj
  · intro fd a hmap
    cases hmap
  · intro a obj hobj
    cases hobj
  · intro a obj hobj
    cases hobj

theorem booked (h : machine.Reachable FreshFd s) : s.Booked := by
  apply h.invariant
  · rintro _ rfl
    exact booked_start
  · intro s l s' hreach hinv hok hs
    rcases moved hinv.toMapped hinv.listed (owned hreach) hok hs with ⟨hmoved, hlisted⟩
    exact ⟨hinv.toMapped.moved hmoved, hlisted⟩

theorem moved_of_reachable (h : machine.Reachable FreshFd s) (hok : s.FreshFd l)
    (hs : s.step l = some s') : s.Moved l s' :=
  (moved (booked h).toMapped (booked h).listed (owned h) hok hs).1

/-- A step keeps a connection in its place, or it is a pass that destroys a closed one. -/
theorem Moved.fate (hm : s.Moved l s') {a : ℕ} {obj : Object}
    (hobj : s.heap a = some obj) :
    (∃ obj', s'.heap a = some obj' ∧ obj'.owner = obj.owner ∧ obj'.conn.fd = obj.conn.fd) ∨
      l = .destroyClosed ∧ obj.conn.isDisconnected = true ∧ s'.heap a = none ∧
        obj.owner ∈ s'.removals.map Removal.owner := by
  cases hm with
  | turn _ heap =>
    rcases rel_some_left (hobj ▸ heap a) with ⟨obj', hobj', honward⟩
    exact .inl ⟨obj', hobj', honward.owner, honward.fd⟩
  | insert addr fd _ _ _ _ _ c _ free unused newFd new heap =>
    refine .inl ⟨obj, ?_, rfl, rfl⟩
    rw [heap, Function.update_of_ne, hobj]
    rintro rfl
    cases free.symm.trans hobj
  | pass label mapped _ _ aging =>
    rcases hheap : s'.heap a with _ | obj'
    · rcases aging.goes a obj hobj with ⟨obj', hobj'⟩ | ⟨hdisc, hgone⟩
      · cases hheap.symm.trans hobj'
      · exact .inr ⟨label, hdisc, rfl, hgone⟩
    · rcases aging.stays a obj' hheap with ⟨obj₀, hobj₀, haged, -⟩
      cases hobj.symm.trans hobj₀
      exact .inl ⟨obj', rfl, haged.owner, haged.fd⟩

/-- Those of the connections with these numbers that are still there are closed, and have been
waited for in `n` passes. -/
def Waited (owners : ℕ → Prop) (n : ℕ) (s : EventManager) : Prop :=
  (∀ o, owners o → o < s.created) ∧ ∀ a obj, s.heap a = some obj → owners obj.owner →
    obj.conn.isDisconnected = true ∧ n ≤ obj.conn.pendingIoRetries

/-- A pass counts for every closed connection, and nothing else does. -/
theorem Waited.moved {owners : ℕ → Prop} {n : ℕ} (h : s.Waited owners n) (hm : s.Moved l s') :
    s'.Waited owners n ∧ (l = .destroyClosed → s'.Waited owners (n + 1)) := by
  cases hm with
  | turn other heap _ _ created =>
    refine ⟨⟨created ▸ h.1, ?_⟩, fun heq => absurd heq other⟩
    intro a obj' hobj' howner
    rcases rel_some_right (hobj' ▸ heap a) with ⟨obj, hobj, honward⟩
    rw [honward.owner] at howner
    rcases h.2 a obj hobj howner with ⟨hdisc, hle⟩
    exact ⟨honward.closed hdisc, honward.retries ▸ hle⟩
  | insert addr fd _ _ _ _ _ c label _ _ _ _ heap _ _ created =>
    refine ⟨⟨?_, ?_⟩, ?_⟩
    · intro o ho
      rw [created]
      exact Nat.lt_succ_of_lt (h.1 o ho)
    · intro a obj hobj howner
      rw [heap] at hobj
      rcases enter_eq_some.mp hobj with ⟨-, rfl⟩ | ⟨-, hold⟩
      · exact absurd (h.1 _ howner) (Nat.lt_irrefl _)
      · exact h.2 a obj hold howner
    · intro hpass
      cases label.symm.trans hpass
  | pass _ _ created due aging =>
    have hnext : s'.Waited owners (n + 1) := by
      refine ⟨created ▸ h.1, ?_⟩
      intro a obj' hobj' howner
      rcases aging.stays a obj' hobj' with ⟨obj, hobj, haged, hturn⟩
      rw [haged.owner] at howner
      rcases h.2 a obj hobj howner with ⟨hdisc, hle⟩
      rw [haged.disconnected]
      exact ⟨hdisc, (Nat.succ_le_succ hle).trans (hturn (due a obj hobj hdisc) hdisc).2⟩
    refine ⟨⟨hnext.1, ?_⟩, fun _ => hnext⟩
    intro a obj hobj howner
    rcases hnext.2 a obj hobj howner with ⟨hdisc, hle⟩
    exact ⟨hdisc, (Nat.le_succ n).trans hle⟩

/-- **Closed connections are destroyed once, and in time.** In every run in which the kernel
hands out descriptors that are not open:
between two handlers every closed connection in the map is listed in `closed_fds_`;
no connection is removed twice, and only a closed one is, by a pass;
a new connection never finds an entry under its descriptor;
and a closed connection is gone after 1001 passes. -/
theorem closed_connections_destroyed_once (h : machine.Reachable FreshFd s) :
    (s.stack = [] → ∀ fd a obj, s.connectionMap fd = some a → s.heap a = some obj →
      obj.conn.isDisconnected = true → fd ∈ s.closedFds) ∧
    (s.removals.map Removal.owner).Nodup ∧
    (∀ r ∈ s.removals, ∀ a obj, s.heap a = some obj → obj.owner ≠ r.owner) ∧
    (∀ l s', s.FreshFd l → s.step l = some s' → ∀ fd a, s.connectionMap fd = some a →
      ∃ obj, s.heap a = some obj ∧
        ((∃ obj', s'.connectionMap fd = some a ∧ s'.heap a = some obj' ∧ obj'.owner = obj.owner) ∨
          l = .destroyClosed ∧ obj.conn.isDisconnected = true ∧ s'.connectionMap fd ≠ some a ∧
            s'.heap a = none ∧ obj.owner ∈ s'.removals.map Removal.owner)) ∧
    (∀ addr fd b₁ b₂ b₃ hwm b₄, s.FreshFd (.insert addr fd b₁ b₂ b₃ hwm b₄) →
      s.connectionMap fd = none) ∧
    (∀ a obj, s.heap a = some obj → obj.conn.isDisconnected = true → ∀ n s',
      machine.Counted FreshFd (· = .destroyClosed) s n s' → 1001 ≤ n →
        ∀ a' obj', s'.heap a' = some obj' → obj'.owner ≠ obj.owner) := by
  have hbook := booked h
  have hfd : ∀ {fd a obj}, s.connectionMap fd = some a → s.heap a = some obj → obj.conn.fd = fd := by
    intro fd a obj hmap hobj
    rcases hbook.entry fd a hmap with ⟨obj', hobj', hfd⟩
    cases hobj.symm.trans hobj'
    exact hfd
  refine ⟨?_, hbook.once, fun r hr => (hbook.gone r hr).2, ?_, ?_, ?_⟩
  · intro hidle fd a obj hmap hobj hdisc
    rw [← hfd hmap hobj]
    exact hbook.listed.of_idle hidle hobj hdisc
  · intro l s' hok hs fd a hmap
    rcases hbook.entry fd a hmap with ⟨obj, hobj, rfl⟩
    refine ⟨obj, hobj, ?_⟩
    have hbook' := booked (.step l h hok hs)
    rcases (moved_of_reachable h hok hs).fate hobj with
      ⟨obj', hobj', howner, hfd'⟩ | ⟨hpass, hdisc, hnone, hgone⟩
    · have hmap' := hbook'.mapped a obj' hobj'
      rw [hfd'] at hmap'
      exact .inl ⟨obj', hmap', hobj', howner⟩
    · refine .inr ⟨hpass, hdisc, ?_, hnone, hgone⟩
      intro hmap'
      rcases hbook'.entry _ a hmap' with ⟨obj', hobj', -⟩
      cases hnone.symm.trans hobj'
  · intro addr fd b₁ b₂ b₃ hwm b₄ hok
    exact hbook.toMapped.unused hok
  · intro a obj hobj hdisc n s' hrun hmany a' obj' hobj' howner
    have hinit : s.Waited (· = obj.owner) 0 := by
      refine ⟨fun o ho => ho ▸ (owned h).lt a obj hobj, ?_⟩
      intro b objb hb heq
      cases (owned h).inj b a objb obj hb hobj heq
      cases hobj.symm.trans hb
      exact ⟨hdisc, Nat.zero_le _⟩
    have hwaited : s'.Waited (· = obj.owner) n := by
      refine Machine.Counted.invariant h hinit ?_ ?_ hrun
      · intro n t l t' ht hw hok hs hl
        exact (hw.moved (moved_of_reachable ht hok hs)).2 hl
      · intro n t l t' ht hw hok hs _
        exact (hw.moved (moved_of_reachable ht hok hs)).1
    have hpatient := (booked (hrun.reachable h)).patient a' obj' hobj'
    have hle := (hwaited.2 a' obj' hobj' howner).2
    rw [kMaxPendingIoRetries] at hpatient
    omega

/-- A single connection is constructed. -/
def Single (s : EventManager) : Label → Prop
  | .insert _ _ _ _ _ _ _ => s.created = 0
  | _ => True

instance (s : EventManager) : ∀ l, Decidable (s.Single l)
  | .insert _ _ _ _ _ _ _ => inferInstanceAs (Decidable (_ = _))
  | .call _ _ _ | .ret _ | .cqe _ _ _ _ _ | .other _ | .destroyClosed =>
    inferInstanceAs (Decidable True)

theorem freshFd_of_single (h : machine.Reachable Single s) (hl : s.Single l) : s.FreshFd l := by
  cases l with
  | insert addr fd b₁ b₂ b₃ hwm b₄ =>
    intro a obj hobj
    have hnone : s.created = 0 := hl
    have hlt := (owned h).lt a obj hobj
    omega
  | _ => trivial

/-- A connection whose close has come to its end. -/
theorem closed_connection_is_listed :
    ∃ s : EventManager, machine.Reachable FreshFd s ∧ s.connectionMap 7 = some 1 ∧
      (s.heap 1).any (·.conn.isDisconnected) = true ∧ 7 ∈ s.closedFds := by
  rcases machine.exists_of_run Single (s := start) rfl closing
    (fun s => s.stack = [] ∧ s.connectionMap 7 = some 1 ∧
      (s.heap 1).any (·.conn.isDisconnected) = true)
    (by decide +kernel) with ⟨s, hs, hidle, hmap, hdisc⟩
  have hreach : machine.Reachable FreshFd s := hs.mono_of fun s l => freshFd_of_single
  rcases (Option.any_eq_true _ _).mp hdisc with ⟨obj, hobj, hclosed⟩
  exact ⟨s, hreach, hmap, hdisc,
    (closed_connections_destroyed_once hreach).1 hidle 7 1 obj hmap hobj hclosed⟩

end EventManager

end Taotu
