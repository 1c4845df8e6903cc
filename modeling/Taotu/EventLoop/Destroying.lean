import Taotu.EventLoop.InFlight

/-!
# Taotu.EventLoop.Destroying — when a connection is removed (`DestroyClosedConnections`)

A closed connection is kept while `HasPendingIo` holds, because the kernel may
still write into its buffers. But `DoClosing` has cancelled its operations and
cleared its flags at once, whereas the cancelled operations stay in `ops_` until
the kernel answers. So `HasPendingIo` is false from the start, and the next pass
removes the connection with its operations outstanding
(`removed_under_the_kernel`).

1. Operations that are not cancelled are not the problem: a connection without
   flags has none, by the agreement of `Taotu.EventLoop.InFlight`.
2. So removals are safe in every run in which a pass finds no cancelled
   operation of a connection it removes early (`PassOk`,
   `removed_after_completion`), and no weaker condition would do
   (`passOk_of_safe`).
-/

namespace Taotu

open Lib

/-- `ops_` had no operation of the connection when it was removed, or it had
been waited for. -/
def Removal.Safe (r : Removal) : Prop :=
  r.retries < EventManager.kMaxPendingIoRetries →
    ∀ key op, r.ops key = some op → ¬ op.BelongsTo r.owner

namespace EventManager

/-! ## The condition -/

/-- The pass removes the connection without having waited its full time. -/
def RemovedEarly (c : Connecting) : Prop :=
  c.isDisconnected = true ∧ c.hasPendingIo = false ∧ c.pendingIoRetries < kMaxPendingIoRetries

/-- No connection that the pass removes early has a cancelled operation left. -/
def PassOk (s : EventManager) : Prop :=
  ∀ fd ∈ s.closedFds, ∀ a obj, s.connectionMap fd = some a → s.heap a = some obj →
    RemovedEarly obj.conn → ∀ key op, s.poller.ops key = some op → op.BelongsTo obj.owner →
      op.completion = true

/-- The condition on steps: passes are made when nothing cancelled is left. -/
def DestroyOk (s : EventManager) (l : Label) : Prop := l = .destroyClosed → s.PassOk

/-! ## Owners and waiting times -/

/-- The two counters of a waiting connection run together. -/
def Even (c : Connecting) : Prop := c.pendingIoWaitMs = c.pendingIoRetries

/-- Every object of the second heap was there before, with its owner. -/
def Continues (heap heap' : ℕ → Option Object) : Prop :=
  ∀ a obj', heap' a = some obj' →
    ∃ obj, heap a = some obj ∧ obj'.owner = obj.owner ∧ (Even obj.conn → Even obj'.conn)

namespace Continues

variable {heap heap' heap'' : ℕ → Option Object}

theorem refl (heap : ℕ → Option Object) : Continues heap heap :=
  fun _ obj h => ⟨obj, h, rfl, id⟩

theorem trans (h : Continues heap heap') (h' : Continues heap' heap'') : Continues heap heap'' := by
  intro a obj'' hobj''
  obtain ⟨obj', hobj', howner', heven'⟩ := h' a obj'' hobj''
  obtain ⟨obj, hobj, howner, heven⟩ := h a obj' hobj'
  exact ⟨obj, hobj, howner'.trans howner, fun he => heven' (heven he)⟩

theorem erase (heap : ℕ → Option Object) (addr : ℕ) :
    Continues heap (Function.update heap addr none) := by
  intro a obj' h
  by_cases ha : a = addr
  · rw [ha, Function.update_self] at h
    cases h
  · rw [Function.update_of_ne ha] at h
    exact ⟨obj', h, rfl, id⟩

theorem replace {addr : ℕ} {obj : Object} (hobj : heap addr = some obj) {c : Connecting}
    (hc : Even obj.conn → Even c) :
    Continues heap (Function.update heap addr (some ⟨obj.owner, c⟩)) := by
  intro a obj' h
  by_cases ha : a = addr
  · rw [ha, Function.update_self] at h
    cases h
    exact ⟨obj, ha ▸ hobj, rfl, hc⟩
  · rw [Function.update_of_ne ha] at h
    exact ⟨obj', h, rfl, id⟩

theorem destroy (s : EventManager) (a : ℕ) : Continues s.heap (s.destroy a).heap := by
  rw [destroy_heap]
  exact erase _ a

theorem destroyClosed (s : EventManager) (fd : ℕ) :
    Continues s.heap (s.destroyClosed fd).1.heap := by
  cases s.destroyClosed_passed fd with
  | skipped h =>
    rw [h]
    exact refl _
  | waited a obj hmap hobj hdisc hwait h =>
    rw [h]
    exact replace hobj (congrArg (· + 1))
  | removed a obj hmap hobj hdisc hwait h =>
    rw [h]
    exact destroy { s with connectionMap := _, removals := _ } a

theorem destroyAll (s : EventManager) (fds : List ℕ) :
    Continues s.heap (destroyAll s fds).1.heap := by
  induction fds generalizing s with
  | nil => exact refl _
  | cons fd fds ih => exact (destroyClosed s fd).trans (ih _)

end Continues

/-- A turn does not touch the counters. -/
theorem even_of_move {ans : ℕ} {c : Connecting} {st : ConnectionState} {t : Turn}
    (h : Connecting.IoMove ans c.io st t) (he : Even c) : Even t.conn := by
  have hio : t.conn.io.waitMs = c.io.waitMs ∧ t.conn.io.retries = c.io.retries := by
    cases h with
    | quiet _ io => rw [io]; exact ⟨rfl, rfl⟩
    | submitRead _ _ _ _ _ io => rw [io]; exact ⟨rfl, rfl⟩
    | submitWrite _ _ _ _ _ _ io => rw [io]; exact ⟨rfl, rfl⟩
    | cancel _ io => rw [io]; exact ⟨rfl, rfl⟩
  calc t.conn.pendingIoWaitMs = c.pendingIoWaitMs := hio.1
    _ = c.pendingIoRetries := he
    _ = t.conn.pendingIoRetries := hio.2.symm

theorem destroyAll_created (s : EventManager) (fds : List ℕ) :
    (destroyAll s fds).1.created = s.created := by
  induction fds generalizing s with
  | nil => rfl
  | cons fd fds ih =>
    show (destroyAll (s.destroyClosed fd).1 fds).1.created = s.created
    rw [ih]
    cases s.destroyClosed_passed fd with
    | skipped h => rw [h]
    | waited a obj hmap hobj hdisc hwait h => rw [h]
    | removed a obj hmap hobj hdisc hwait h =>
      rw [h]
      exact destroy_created _ a

/-- Owners are told apart, and every connection counts its passes evenly. -/
structure Owned (s : EventManager) : Prop where
  lt : ∀ a obj, s.heap a = some obj → obj.owner < s.created
  inj : ∀ a b obj₁ obj₂, s.heap a = some obj₁ → s.heap b = some obj₂ → obj₁.owner = obj₂.owner → a = b
  even : ∀ a obj, s.heap a = some obj → Even obj.conn

theorem Owned.continues {s s' : EventManager} (h : s.Owned) (hcont : Continues s.heap s'.heap)
    (hcreated : s'.created = s.created) : s'.Owned := by
  constructor
  · intro a obj' hobj'
    obtain ⟨obj, hobj, howner, -⟩ := hcont a obj' hobj'
    rw [howner, hcreated]
    exact h.lt a obj hobj
  · intro a b obj₁' obj₂' h₁' h₂' heq
    obtain ⟨obj₁, h₁, ho₁, -⟩ := hcont a obj₁' h₁'
    obtain ⟨obj₂, h₂, ho₂, -⟩ := hcont b obj₂' h₂'
    apply h.inj a b obj₁ obj₂ h₁ h₂
    rw [← ho₁, ← ho₂]
    exact heq
  · intro a obj' hobj'
    obtain ⟨obj, hobj, -, heven⟩ := hcont a obj' hobj'
    exact heven (h.even a obj hobj)

theorem Owned.insert {s : EventManager} (h : s.Owned) {addr fd : ℕ} {c : Connecting}
    (hc : Even c) : (s.insertNewConnection addr fd c).Owned := by
  -- every object is an old one or the new one, whose number is larger
  have hold : ∀ a obj, Function.update s.heap addr (some ⟨s.created, c⟩) a = some obj →
      (a = addr ∧ obj = ⟨s.created, c⟩) ∨ s.heap a = some obj := by
    intro a obj hobj
    by_cases ha : a = addr
    · rw [ha, Function.update_self] at hobj
      exact .inl ⟨ha, (Option.some.inj hobj).symm⟩
    · rw [Function.update_of_ne ha] at hobj
      exact .inr hobj
  have hnew : Owned { s with
      poller := s.poller.addEventer addr
      heap := Function.update s.heap addr (some ⟨s.created, c⟩)
      connectionMap := Function.update s.connectionMap fd (some addr)
      created := s.created + 1 } := by
    constructor
    · intro a obj hobj
      rcases hold a obj hobj with ⟨-, rfl⟩ | hobj
      · exact Nat.lt_succ_self _
      · exact Nat.lt_succ_of_lt (h.lt a obj hobj)
    · intro a b obj₁ obj₂ h₁ h₂ heq
      rcases hold a obj₁ h₁ with ⟨ha, rfl⟩ | h₁ <;> rcases hold b obj₂ h₂ with ⟨hb, rfl⟩ | h₂
      · rw [ha, hb]
      · exact absurd heq.symm (h.lt b obj₂ h₂).ne
      · exact absurd heq (h.lt a obj₁ h₁).ne
      · exact h.inj a b obj₁ obj₂ h₁ h₂ heq
    · intro a obj hobj
      rcases hold a obj hobj with ⟨-, rfl⟩ | hobj
      · exact hc
      · exact h.even a obj hobj
  unfold insertNewConnection
  dsimp only
  split
  · exact hnew.continues (Continues.destroy _ _) (destroy_created _ _)
  · exact hnew

theorem Owned.step {s s' : EventManager} {l : Label} (h : s.Owned) (hp : s.Performed l s') :
    s'.Owned := by
  cases hp with
  | insert a fd b₁ b₂ b₃ hwm b₄ c free hc =>
    apply h.insert
    obtain ⟨_, -, hc⟩ := bind_eq_ok hc
    obtain ⟨_, -, hc⟩ := bind_eq_ok hc
    obtain ⟨_, -, hc⟩ := bind_eq_ok hc
    cases hc
    rfl
  | call a act sqe obj t hobj ht =>
    exact h.continues (.replace hobj (even_of_move (Connecting.exec_ioMove ht))) rfl
  | ret sqe a f rest obj t hobj ht =>
    exact h.continues (.replace hobj (even_of_move (Connecting.resume_ioMove ht))) rfl
  | readComplete key res data sqe op ctx ctx' obj b t hcall hctx hobj ht =>
    have hmove := Connecting.onReadComplete_ioMove ht
    exact h.continues (.replace hobj (even_of_move (c := obj.conn.readDone) hmove)) rfl
  | writeComplete key res data sqe op ctx obj hcall hctx hobj =>
    exact h.continues (.replace hobj
      (even_of_move (c := obj.conn.writeDone) Connecting.onWriteComplete_ioMove)) rfl
  | unheard key res data more sqe hno => exact h.continues (.refl _) rfl
  | repeated key res data sqe => exact h
  | other sqe => exact h.continues (.refl _) rfl
  | destroyClosed => exact h.continues (.destroyAll s s.closedFds) (destroyAll_created s s.closedFds)

theorem owned {ok : EventManager → Label → Prop} {s : EventManager}
    (h : machine.Reachable ok s) : s.Owned := by
  refine invariant Owned ?_ ?_ ?_ h
  · refine ⟨?_, ?_, ?_⟩
    · intro a obj hobj
      cases hobj
    · intro a b obj₁ obj₂ h₁
      cases h₁
    · intro a obj hobj
      cases hobj
  · intro s e hs
    exact hs.continues (.refl _) rfl
  · intro s l s' _ hs _ hp
    exact hs.step hp

/-! ## A pass -/

/-- The targets in `ops_`, cancelled or not. -/
def targets (s : EventManager) (key : ℕ) : Option (Option Target) :=
  (s.poller.ops key).map IoUringOp.target

theorem cancelHeld_targets (p : Poller) (o : Option ℕ) (key : ℕ) :
    ((p.cancelHeld o).ops key).map IoUringOp.target = (p.ops key).map IoUringOp.target := by
  cases o with
  | none => rfl
  | some k =>
    show ((p.cancelOp k).ops key).map IoUringOp.target = _
    unfold Poller.cancelOp
    split
    · rfl
    · show (Function.update p.ops k _ key).map IoUringOp.target = _
      by_cases hk : key = k
      · rw [hk, Function.update_self, Option.map_map]
        rfl
      · rw [Function.update_of_ne hk]

/-- Cancelling keeps the contexts, and with them the targets. -/
theorem destroy_targets (s : EventManager) (a : ℕ) : (s.destroy a).targets = s.targets := by
  funext key
  unfold destroy
  split
  · rfl
  · next obj hobj =>
    rw [Poller.serve_io, Connecting.cancelPendingIo_out, Poller.serve_cancels]
    show ((Poller.cancelHeld (s.poller.cancelHeld _) _).ops key).map IoUringOp.target = _
    rw [cancelHeld_targets, cancelHeld_targets]
    rfl

theorem remove_targets (s : EventManager) (fd a : ℕ) (obj : Object) :
    (s.remove fd a obj).targets = s.targets :=
  destroy_targets { s with connectionMap := _, removals := _ } a

/-- Two tables with the same targets have the same operations of an owner. -/
theorem belongs_of_targets {s s' : EventManager} (h : s.targets = s'.targets) {key : ℕ}
    {op : IoUringOp} (hop : s.poller.ops key = some op) {owner : ℕ} (hb : op.BelongsTo owner) :
    ∃ op', s'.poller.ops key = some op' ∧ op'.BelongsTo owner := by
  have hkey := congrFun h key
  rw [targets, hop] at hkey
  obtain ⟨op', hop', ht⟩ := Option.map_eq_some_iff.mp hkey.symm
  refine ⟨op', hop', ?_⟩
  rw [IoUringOp.BelongsTo, ht]
  exact hb

/-- A connection that is removed in time has no flag set. -/
theorem removedEarly_iff {c : Connecting} (he : Even c) (hdisc : c.isDisconnected = true)
    (hn : c.pendingIoRetries < kMaxPendingIoRetries) : RemovedEarly c ↔ waits c = false := by
  have hms : c.pendingIoWaitMs < kMaxPendingIoTimeoutMs := by
    rw [Even] at he
    rw [kMaxPendingIoRetries] at hn
    rw [kMaxPendingIoTimeoutMs]
    omega
  simp [RemovedEarly, waits, hdisc, hn, hms]

/-- A connection without flags has no operation that is not cancelled. -/
theorem InStep.cancelled_of_idle {s : EventManager} (hs : InStep s.poller s.heap) (ho : s.Owned)
    {a : ℕ} {obj : Object} (hobj : s.heap a = some obj) (hidle : obj.conn.hasPendingIo = false)
    {key : ℕ} {op : IoUringOp} (hop : s.poller.ops key = some op) (hb : op.BelongsTo obj.owner) :
    op.completion = false := by
  by_contra hc
  rw [Bool.not_eq_false] at hc
  obtain ⟨t, ht, howner⟩ := Option.map_eq_some_iff.mp hb
  obtain ⟨obj', hobj', howner', hheld⟩ :=
    held_eq_some (hs.sound key t (Poller.named_eq_some.mpr ⟨op, hop, hc, ht⟩))
  -- the target is this connection, as owners are told apart
  have hself : t.self = a := ho.inj _ _ obj' obj hobj' hobj (howner'.trans howner)
  rw [hself, hobj] at hobj'
  cases hobj'
  rw [Connecting.hasPendingIo, Bool.or_eq_false_iff] at hidle
  rw [Connecting.held_io] at hheld
  rcases t with ⟨slot, _, _⟩
  cases slot with
  | read => simp [Connecting.inFlight, hidle.1] at hheld
  | write => simp [Connecting.inFlight, hidle.2] at hheld

/-- A pass is under way: the connections without operations in flight are
those from before, and so are the targets in `ops_`. -/
structure Passing (s₀ s : EventManager) : Prop where
  idle : ∀ a obj, s.heap a = some obj → obj.conn.hasPendingIo = false → s₀.heap a = some obj
  even : ∀ a obj, s.heap a = some obj → Even obj.conn
  map : ∀ fd a, s.connectionMap fd = some a → s₀.connectionMap fd = some a
  targets : s.targets = s₀.targets

namespace Passing

variable {s₀ s : EventManager}

theorem start (ho : s₀.Owned) : Passing s₀ s₀ :=
  ⟨fun _ _ h _ => h, ho.even, fun _ _ h => h, rfl⟩

/-- Other connections are as before when one has been removed. -/
theorem remove (h : Passing s₀ s) (fd a : ℕ) (obj : Object) : Passing s₀ (s.remove fd a obj) := by
  have hheap : ∀ b obj', (s.remove fd a obj).heap b = some obj' → s.heap b = some obj' := by
    intro b obj' hobj'
    rw [remove_heap] at hobj'
    by_cases hb : b = a
    · rw [hb, Function.update_self] at hobj'
      cases hobj'
    · rwa [Function.update_of_ne hb] at hobj'
  constructor
  · intro b obj' hobj' hidle
    exact h.idle b obj' (hheap b obj' hobj') hidle
  · intro b obj' hobj'
    exact h.even b obj' (hheap b obj' hobj')
  · intro fd' b hmap
    rw [remove_connectionMap] at hmap
    by_cases hfd : fd' = fd
    · rw [hfd, Function.update_self] at hmap
      cases hmap
    · rw [Function.update_of_ne hfd] at hmap
      exact h.map fd' b hmap
  · rw [remove_targets]
    exact h.targets

/-- A connection that is waited for has an operation in flight. -/
theorem wait (h : Passing s₀ s) {a : ℕ} {obj : Object} (hobj : s.heap a = some obj)
    (hwait : waits obj.conn = true) :
    Passing s₀ { s with
      heap := Function.update s.heap a (some ⟨obj.owner, obj.conn.bumpPendingIoWait⟩) } := by
  refine ⟨?_, ?_, h.map, h.targets⟩
  · intro b obj' hobj' hidle
    change Function.update s.heap a _ b = some obj' at hobj'
    by_cases hb : b = a
    · rw [hb, Function.update_self] at hobj'
      cases hobj'
      have hpending : obj.conn.hasPendingIo = true := by
        rw [waits, Bool.and_eq_true, Bool.and_eq_true] at hwait
        exact hwait.1.1
      rw [show obj.conn.bumpPendingIoWait.hasPendingIo = obj.conn.hasPendingIo from rfl,
        hpending] at hidle
      cases hidle
    · rw [Function.update_of_ne hb] at hobj'
      exact h.idle b obj' hobj' hidle
  · intro b obj' hobj'
    change Function.update s.heap a _ b = some obj' at hobj'
    by_cases hb : b = a
    · rw [hb, Function.update_self] at hobj'
      cases hobj'
      exact congrArg (· + 1) (h.even a obj hobj)
    · rw [Function.update_of_ne hb] at hobj'
      exact h.even b obj' hobj'

end Passing

/-- What is removed in a pass from a state that meets the condition is removed
safely. -/
theorem removal_safe {s₀ s : EventManager} (hs : InStep s₀.poller s₀.heap) (ho : s₀.Owned)
    (hok : s₀.PassOk) (h : Passing s₀ s) {fd : ℕ} (hfd : fd ∈ s₀.closedFds) {a : ℕ} {obj : Object}
    (hmap : s.connectionMap fd = some a) (hobj : s.heap a = some obj)
    (hdisc : obj.conn.isDisconnected = true) (hwait : waits obj.conn = false) :
    Removal.Safe ⟨obj.owner, obj.conn.pendingIoRetries, s.poller.ops⟩ := by
  intro hn key op hop hb
  have hearly : RemovedEarly obj.conn := (removedEarly_iff (h.even a obj hobj) hdisc hn).mpr hwait
  have hidle : obj.conn.hasPendingIo = false := hearly.2.1
  have hobj₀ := h.idle a obj hobj hidle
  obtain ⟨op₀, hop₀, hb₀⟩ := belongs_of_targets h.targets hop hb
  have hlive := hok fd hfd a obj (h.map fd a hmap) hobj₀ hearly key op₀ hop₀ hb₀
  rw [hs.cancelled_of_idle ho hobj₀ hidle hop₀ hb₀] at hlive
  cases hlive

theorem destroyAll_safe {s₀ : EventManager} (hs : InStep s₀.poller s₀.heap) (ho : s₀.Owned)
    (hok : s₀.PassOk) {fds : List ℕ} (hfds : ∀ fd ∈ fds, fd ∈ s₀.closedFds) {s : EventManager}
    (h : Passing s₀ s) (hsafe : ∀ r ∈ s.removals, r.Safe) :
    ∀ r ∈ (destroyAll s fds).1.removals, r.Safe := by
  induction fds generalizing s with
  | nil => exact hsafe
  | cons fd fds ih =>
    have hfd := hfds fd List.mem_cons_self
    have ih := fun s => @ih (fun fd' hfd' => hfds fd' (List.mem_cons_of_mem _ hfd')) s
    show ∀ r ∈ (destroyAll (s.destroyClosed fd).1 fds).1.removals, r.Safe
    cases s.destroyClosed_passed fd with
    | skipped heq =>
      rw [heq]
      exact ih s h hsafe
    | waited a obj hmap hobj hdisc hwait heq =>
      rw [heq]
      exact ih _ (h.wait hobj hwait) hsafe
    | removed a obj hmap hobj hdisc hwait heq =>
      rw [heq]
      apply ih _ (h.remove fd a obj)
      intro r hr
      rw [remove_removals] at hr
      rcases List.mem_append.mp hr with hr | hr
      · exact hsafe r hr
      · rw [List.mem_singleton] at hr
        rw [hr]
        exact removal_safe hs ho hok h hfd hmap hobj hdisc hwait

/-! ## Whole runs -/

/-- Outside a pass nothing is removed. -/
theorem Performed.removals {s s' : EventManager} {l : Label} (hp : s.Performed l s') :
    l = .destroyClosed ∨ s'.removals = s.removals := by
  cases hp with
  | destroyClosed => exact .inl rfl
  | insert a fd b₁ b₂ b₃ hwm b₄ c free hc =>
    right
    unfold insertNewConnection
    dsimp only
    split
    · exact destroy_removals _ _
    · rfl
  | call => exact .inr rfl
  | ret => exact .inr rfl
  | readComplete => exact .inr rfl
  | writeComplete => exact .inr rfl
  | unheard => exact .inr rfl
  | repeated => exact .inr rfl
  | other => exact .inr rfl

/-- **No connection is removed under the kernel's hands**, in every run whose
passes meet the condition. -/
theorem removed_after_completion {s : EventManager} (h : machine.Reachable DestroyOk s) :
    ∀ r ∈ s.removals, r.retries < kMaxPendingIoRetries →
      ∀ key op, r.ops key = some op → ¬ op.BelongsTo r.owner := by
  refine invariant (fun s => ∀ r ∈ s.removals, r.Safe) ?_ ?_ ?_ h
  · intro r hr
    cases hr
  · intro s e hs
    exact hs
  · intro s l s' hreach hsafe hok hp
    rcases hp.removals with rfl | hsame
    · cases hp
      exact destroyAll_safe (inStep hreach) (owned hreach) (hok rfl) (fun _ hfd => hfd)
        (Passing.start (owned hreach)) hsafe
    · rw [hsame]
      exact hsafe

/-- A connection is closed with a read in flight. -/
def closing : List Label :=
  [.insert 1 7 true true true none true, .call 1 .onEstablishing true, .ret true,
    .call 1 .forceClose true, .ret true, .ret true]

/-- The cancelled read is answered before the pass, which finds nothing in `ops_`. -/
theorem removed_after_cancelled :
    ∃ s, machine.Reachable DestroyOk s ∧ ∃ r ∈ s.removals, r.owner = 0 ∧ r.retries = 0 ∧
      ∀ key op, r.ops key = some op → ¬ op.BelongsTo r.owner := by
  obtain ⟨s, hs, hdraws, hone, hpass⟩ := machine.exists_of_run (fun _ l => l ≠ .destroyClosed) rfl
    (closing ++ [.cqe 1 (-125) [] false true])
    (fun s => s.poller.draws = 1 ∧ s.poller.ops 1 = none ∧
      (machine.step s .destroyClosed).any
        (fun s' => s'.removals.any (fun r => r.owner = 0 && r.retries = 0)) = true)
    (by decide +kernel)
  have hreach : machine.Reachable DestroyOk s := hs.mono (fun _ _ hl heq => absurd heq hl)
  have hok : s.PassOk := by
    intro fd _ a obj _ _ _ key op hop
    have hkey := (inStep hreach).wf.keys key op hop
    have hkey' : key = 1 := by omega
    rw [hkey', hone] at hop
    cases hop
  obtain ⟨s', hstep, hr⟩ := (Option.any_eq_true _ _).mp hpass
  obtain ⟨r, hr, hrec⟩ := List.any_eq_true.mp hr
  rw [Bool.and_eq_true, decide_eq_true_iff, decide_eq_true_iff] at hrec
  have hreach' := Machine.Reachable.step .destroyClosed hreach (fun _ => hok) hstep
  refine ⟨s', hreach', r, hr, hrec.1, hrec.2, ?_⟩
  exact removed_after_completion hreach' r hr (by rw [hrec.2]; decide)

/-- Without waiting: the connection is removed in its first pass, and `ops_`
still has its cancelled read. -/
theorem removed_under_the_kernel :
    ∃ s, machine.Reachable (fun _ _ => True) s ∧ ∃ r ∈ s.removals,
      r.retries < kMaxPendingIoRetries ∧ ∃ op, r.ops 1 = some op ∧ op.BelongsTo r.owner := by
  obtain ⟨s, hs, r, hr, hn, hop⟩ := machine.exists_of_run (fun _ _ => True) rfl
    (closing ++ [.destroyClosed])
    (fun s => ∃ r ∈ s.removals, r.retries < kMaxPendingIoRetries ∧
      (r.ops 1).any (fun op => op.BelongsTo r.owner) = true)
    (by decide +kernel)
  obtain ⟨op, hop, hb⟩ := (Option.any_eq_true _ _).mp hop
  exact ⟨s, hs, r, hr, hn, op, hop, of_decide_eq_true hb⟩

/-! ## The condition is exact -/

theorem destroyAll_removals {s : EventManager} {r : Removal} (hr : r ∈ s.removals) (fds : List ℕ) :
    r ∈ (destroyAll s fds).1.removals := by
  induction fds generalizing s with
  | nil => exact hr
  | cons fd fds ih =>
    apply ih
    cases s.destroyClosed_passed fd with
    | skipped h => rwa [h]
    | waited a obj hmap hobj hdisc hwait h => rwa [h]
    | removed a obj hmap hobj hdisc hwait h =>
      rw [h, remove_removals]
      exact List.mem_append_left _ hr

/-- A connection that qualifies is removed as it is. -/
theorem RemovedEarly.destroyClosed {s : EventManager} {fd a : ℕ} {obj : Object}
    (h : RemovedEarly obj.conn) (hmap : s.connectionMap fd = some a) (hobj : s.heap a = some obj) :
    (s.destroyClosed fd).1 = s.remove fd a obj := by
  simp [EventManager.destroyClosed, hmap, hobj, h.1, waits, h.2.1]

/-- A removal that leaves an operation of the connection in `ops_`. -/
theorem removal_now {s : EventManager} {a : ℕ} {obj : Object} (hearly : RemovedEarly obj.conn)
    {key : ℕ} {op : IoUringOp} (hop : s.poller.ops key = some op) (hb : op.BelongsTo obj.owner)
    (fd : ℕ) (fds : List ℕ) :
    ∃ r ∈ (destroyAll (s.remove fd a obj) fds).1.removals, ¬ r.Safe := by
  refine ⟨⟨obj.owner, obj.conn.pendingIoRetries, s.poller.ops⟩, ?_, ?_⟩
  · apply destroyAll_removals
    rw [remove_removals]
    exact List.mem_concat_self
  · intro hsafe
    exact hsafe hearly.2.2 key op hop hb

/-- What is there before the pass is still there when its turn comes. -/
theorem removal_later {fds : List ℕ} {fd : ℕ} (hfd : fd ∈ fds) {s : EventManager} {a : ℕ}
    {obj : Object} (hmap : s.connectionMap fd = some a) (hobj : s.heap a = some obj)
    (hearly : RemovedEarly obj.conn) {key : ℕ} {op : IoUringOp}
    (hop : s.poller.ops key = some op) (hb : op.BelongsTo obj.owner) :
    ∃ r ∈ (destroyAll s fds).1.removals, ¬ r.Safe := by
  induction fds generalizing s op with
  | nil => cases hfd
  | cons fd' fds ih =>
    show ∃ r ∈ (destroyAll (s.destroyClosed fd').1 fds).1.removals, ¬ r.Safe
    by_cases heq : fd = fd'
    · rw [← heq, hearly.destroyClosed hmap hobj]
      exact removal_now hearly hop hb fd fds
    · have hfd : fd ∈ fds := (List.mem_cons.mp hfd).resolve_left heq
      cases s.destroyClosed_passed fd' with
      | skipped h =>
        rw [h]
        exact ih hfd hmap hobj hop hb
      | waited a' obj' hmap' hobj' hdisc hwait h =>
        -- it is another connection that is waited for
        have hne : a ≠ a' := by
          rintro rfl
          rw [hobj] at hobj'
          cases hobj'
          simp [waits, hearly.2.1] at hwait
        rw [h]
        exact ih hfd hmap ((Function.update_of_ne hne ..).trans hobj) hop hb
      | removed a' obj' hmap' hobj' hdisc hwait h =>
        rw [h]
        by_cases hne : a = a'
        · subst hne
          rw [hobj] at hobj'
          cases hobj'
          exact removal_now hearly hop hb fd' fds
        · have hmap' : (s.remove fd' a' obj').connectionMap fd = some a := by
            rw [remove_connectionMap, Function.update_of_ne heq]
            exact hmap
          have hobj' : (s.remove fd' a' obj').heap a = some obj := by
            rw [remove_heap, Function.update_of_ne hne]
            exact hobj
          obtain ⟨op', hop', hb'⟩ := belongs_of_targets (remove_targets s fd' a' _).symm hop hb
          exact ih hfd hmap' hobj' hop' hb'

/-- **A pass is safe only if the condition is met**, in whatever state it is made. -/
theorem passOk_of_safe {s : EventManager}
    (h : ∀ r ∈ s.destroyClosedConnections.removals, r.Safe) : s.PassOk := by
  intro fd hfd a obj hmap hobj hearly key op hop hb
  obtain ⟨r, hr, hbad⟩ := removal_later hfd hmap hobj hearly hop hb
  exact absurd (h r hr) hbad

end EventManager

end Taotu
