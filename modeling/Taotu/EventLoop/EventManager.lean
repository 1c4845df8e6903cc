import Taotu.Connection.Solo
import Taotu.EventLoop.Poller

/-!
# Taotu.EventLoop.EventManager — the event loop (`event_manager.h`, `event_manager.cc`)

The machine of one event loop: its poller, the connections it owns, and the
kernel. A step is a new connection, a call of the user on a connection (at the
top level or from inside a callback of any connection), the return of the
innermost callback, a completion queue entry, a submission by some other
eventer, or a pass of `DestroyClosedConnections`. Entries are handled and
passes are made only when no handler is running, in any order; `Start` runs
one such order.

**Memory.** `heap` maps addresses to the connections that live there. The
address of a new connection is chosen by the allocator (or the object pool of
the reactors) among the free ones, so addresses are used again; the `owner`
number of an object is its own. A completion handler is run on whatever lives
at the address in its context, and fails if nothing does.

**Ghosts.** `created` counts the connections constructed. `removals` records,
for every connection that `DestroyClosedConnections` takes out of its map, the
passes it was waited for and `ops_` at that moment.
-/

namespace Taotu

open Lib

/-- A connection in memory. -/
structure Object where
  owner : ℕ
  conn : Connecting
deriving DecidableEq, Repr

/-- A connection is taken out of `connection_map_` to be destroyed. -/
structure Removal where
  owner : ℕ
  retries : ℕ
  ops : ℕ → Option IoUringOp

structure EventManager where
  poller : Poller
  heap : ℕ → Option Object
  connectionMap : ℕ → Option ℕ
  closedFds : List ℕ
  stack : List (ℕ × Frame)
  created : ℕ
  removals : List Removal
  fault : Option Fault

namespace EventManager

def kMaxPendingIoRetries : ℕ := 1000
def kMaxPendingIoTimeoutMs : ℕ := 2000

/-- What happens next; `sqe` says whether a submission finds an entry in the
submission queue. -/
inductive Label where
  | insert (addr fd : ℕ) (onConnection onMessage writeComplete : Bool) (highWaterMark : Option ℕ)
      (close : Bool)
  | call (addr : ℕ) (a : Act) (sqe : Bool)
  | ret (sqe : Bool)
  | cqe (key : ℕ) (res : ℤ) (data : List UInt8) (more sqe : Bool)
  | other (sqe : Bool)
  | destroyClosed
deriving DecidableEq, Repr

/-! ## Model layer -/

/-- `DeleteConnection`, among the calls of a handler. -/
def deleteConnection (fds : List ℕ) : Output → List ℕ
  | .deleteConnection fd => if fd ∈ fds then fds else fds ++ [fd]
  | _ => fds

/-- A turn of the connection at `addr` takes effect. -/
def take (s : EventManager) (addr owner : ℕ) (sqe : Bool) (t : Turn) : EventManager :=
  { s with
    poller := (t.out.map Prod.snd).foldl (Poller.serve owner sqe) s.poller
    heap := Function.update s.heap addr (some ⟨owner, t.conn⟩)
    closedFds := (t.out.map Prod.snd).foldl deleteConnection s.closedFds
    stack := t.frame.toList.map (addr, ·) ++ s.stack }

/-- `~Connecting`: cancel what is in flight, then `~Eventer`. -/
def destroy (s : EventManager) (addr : ℕ) : EventManager :=
  match s.heap addr with
  | none => s
  | some obj =>
    { s with
      poller := ((obj.conn.cancelPendingIo.2.map Prod.snd).foldl
        (Poller.serve obj.owner false) s.poller).removeEventer addr
      heap := Function.update s.heap addr none }

/-- `InsertNewConnection`; a connection that has the descriptor is destroyed. -/
def insertNewConnection (s : EventManager) (addr fd : ℕ) (c : Connecting) : EventManager :=
  let s' :=
    { s with
      poller := s.poller.addEventer addr
      heap := Function.update s.heap addr (some ⟨s.created, c⟩)
      connectionMap := Function.update s.connectionMap fd (some addr)
      created := s.created + 1 }
  match s.connectionMap fd with
  | some old => s'.destroy old
  | none => s'

/-- Take a connection out of the map and destroy it. -/
def remove (s : EventManager) (fd addr : ℕ) (obj : Object) : EventManager :=
  destroy
    { s with
      connectionMap := Function.update s.connectionMap fd none
      removals := s.removals ++ [⟨obj.owner, obj.conn.pendingIoRetries, s.poller.ops⟩] } addr

/-- A disconnected connection is waited for. -/
def waits (c : Connecting) : Bool :=
  c.hasPendingIo && c.pendingIoRetries < kMaxPendingIoRetries &&
    c.pendingIoWaitMs < kMaxPendingIoTimeoutMs

/-- One descriptor of `DestroyClosedConnections`, and whether it remains. -/
def destroyClosed (s : EventManager) (fd : ℕ) : EventManager × Bool :=
  match s.connectionMap fd with
  | none => (s, false)
  | some addr =>
    match s.heap addr with
    | none => (s, false)
    | some obj =>
      if obj.conn.isDisconnected then
        if waits obj.conn then
          ({ s with
            heap := Function.update s.heap addr (some ⟨obj.owner, obj.conn.bumpPendingIoWait⟩) },
            true)
        else (s.remove fd addr obj, false)
      else (s, false)

/-- The loop over the closed descriptors, which collects those that remain. -/
def destroyAll : EventManager → List ℕ → EventManager × List ℕ
  | s, [] => (s, [])
  | s, fd :: fds =>
    let r := s.destroyClosed fd
    let t := destroyAll r.1 fds
    (t.1, if r.2 then fd :: t.2 else t.2)

def destroyClosedConnections (s : EventManager) : EventManager :=
  let r := destroyAll s s.closedFds
  { r.1 with closedFds := r.2 }

/-- The operation of a completion queue entry leaves `ops_` and the kernel. -/
def lookup (s : EventManager) (key : ℕ) : EventManager :=
  { s with poller := { s.poller.lookupOp key with kernel := s.poller.kernel.erase key } }

/-- An entry the kernel may give: a one-shot read or write completes once, with
no more bytes than it has room or data for. -/
def CqeAllowed (s : EventManager) (key : ℕ) (res : ℤ) (data : List UInt8) (more : Bool) : Prop :=
  match (s.poller.ops key).map IoUringOp.context with
  | some (.read ctx) =>
    more = false ∧ data.length = res.toNat ∧ data.length ≤ (ctx.iov.map Iovec.len).sum
  | some (.write ctx) => more = false ∧ res.toNat ≤ ctx.toSend
  | _ => True

def Enabled (s : EventManager) : Label → Prop
  | .insert addr fd _ _ _ _ _ =>
    -- no handler of a connection that is destroyed here is still running
    s.heap addr = none ∧ ∀ f ∈ s.stack, s.connectionMap fd ≠ some f.1
  | .call addr _ _ => (s.heap addr).isSome = true
  | .ret _ => s.stack ≠ []
  | .cqe key res data more _ =>
    s.stack = [] ∧ key ∈ s.poller.kernel ∧ s.CqeAllowed key res data more
  | .other _ => True
  | .destroyClosed => s.stack = []

/-- `HandleCqe`. -/
def handleCqe (s : EventManager) (key : ℕ) (res : ℤ) (data : List UInt8) (more sqe : Bool) :
    Except Fault EventManager :=
  match s.poller.handleCqe key with
  | .call op =>
    match op.context with
    | .read ctx =>
      match s.heap ctx.self with
      | none => .error .outOfBounds
      | some obj => do
        let m ← Solo.fill ctx.iov data obj.conn.inputBuffer []
        let t ← Connecting.onReadComplete ⟨res, more⟩ { ctx with extraBuffer := m.2 }
          (s.poller.answer sqe) { obj.conn with inputBuffer := m.1 }
        return (s.lookup key).take ctx.self obj.owner sqe t
    | .write ctx =>
      match s.heap ctx.self with
      | none => .error .outOfBounds
      | some obj =>
        .ok ((s.lookup key).take ctx.self obj.owner sqe
          (obj.conn.onWriteComplete ⟨res, more⟩ (s.poller.answer sqe)))
    | .other => .ok (if more then s else s.lookup key)
  | _ => .ok (s.lookup key)

/-- The effect of an enabled label. -/
def perform (s : EventManager) : Label → Except Fault EventManager
  | .insert addr fd onConnection onMessage writeComplete highWaterMark close => do
    let c ← Connecting.new addr fd onConnection onMessage writeComplete highWaterMark close
    return s.insertNewConnection addr fd c
  | .call addr a sqe =>
    match s.heap addr with
    | none => .ok s
    | some obj => do
      let t ← obj.conn.exec (s.poller.answer sqe) a
      return s.take addr obj.owner sqe t
  | .ret sqe =>
    match s.stack with
    | [] => .ok s
    | (addr, f) :: rest =>
      match s.heap addr with
      | none => .error .outOfBounds
      | some obj => do
        let t ← obj.conn.resume (s.poller.answer sqe) f
        return { s with stack := rest }.take addr obj.owner sqe t
  | .cqe key res data more sqe => s.handleCqe key res data more sqe
  | .other sqe => .ok { s with poller := (s.poller.submitOther sqe).2 }
  | .destroyClosed => .ok s.destroyClosedConnections

instance (s : EventManager) (key : ℕ) (res : ℤ) (data : List UInt8) (more : Bool) :
    Decidable (s.CqeAllowed key res data more) :=
  match h : (s.poller.ops key).map IoUringOp.context with
  | some (.read ctx) => decidable_of_iff
      (more = false ∧ data.length = res.toNat ∧ data.length ≤ (ctx.iov.map Iovec.len).sum)
      (by simp [CqeAllowed, h])
  | some (.write ctx) => decidable_of_iff (more = false ∧ res.toNat ≤ ctx.toSend)
      (by simp [CqeAllowed, h])
  | some .other => isTrue (by simp [CqeAllowed, h])
  | none => isTrue (by simp [CqeAllowed, h])

instance (s : EventManager) : (l : Label) → Decidable (s.Enabled l)
  | .insert _ _ _ _ _ _ _ => inferInstanceAs (Decidable (_ ∧ ∀ f ∈ s.stack, _))
  | .call _ _ _ => inferInstanceAs (Decidable (_ = true))
  | .ret _ => inferInstanceAs (Decidable (_ ≠ _))
  | .cqe key res data more _ =>
    inferInstanceAs (Decidable (_ ∧ _ ∧ s.CqeAllowed key res data more))
  | .other _ => inferInstanceAs (Decidable True)
  | .destroyClosed => inferInstanceAs (Decidable (_ = _))

/-- One step; a fault is recorded and ends the run. -/
def step (s : EventManager) (l : Label) : Option EventManager :=
  if s.fault = none ∧ s.Enabled l then
    match s.perform l with
    | .ok s' => some s'
    | .error e => some { s with fault := some e }
  else none

/-- A new event loop. -/
def start : EventManager :=
  ⟨.new, fun _ => none, fun _ => none, [], [], 0, [], none⟩

def machine : Machine EventManager Label := ⟨(· = start), step⟩

/-! ## What a step can do -/

variable {s s' : EventManager} {l : Label}

/-- The steps that return normally. -/
inductive Performed (s : EventManager) : Label → EventManager → Prop where
  | insert (addr fd : ℕ) (b₁ b₂ b₃ : Bool) (hwm : Option ℕ) (b₄ : Bool) (c : Connecting)
      (free : s.heap addr = none) (hc : Connecting.new addr fd b₁ b₂ b₃ hwm b₄ = .ok c) :
      Performed s (.insert addr fd b₁ b₂ b₃ hwm b₄) (s.insertNewConnection addr fd c)
  | call (addr : ℕ) (a : Act) (sqe : Bool) (obj : Object) (t : Turn) (hobj : s.heap addr = some obj)
      (ht : obj.conn.exec (s.poller.answer sqe) a = .ok t) :
      Performed s (.call addr a sqe) (s.take addr obj.owner sqe t)
  | ret (sqe : Bool) (addr : ℕ) (f : Frame) (rest : List (ℕ × Frame)) (obj : Object) (t : Turn)
      (hobj : s.heap addr = some obj) (ht : obj.conn.resume (s.poller.answer sqe) f = .ok t) :
      Performed s (.ret sqe) ({ s with stack := rest }.take addr obj.owner sqe t)
  | readComplete (key : ℕ) (res : ℤ) (data : List UInt8) (sqe : Bool) (op : IoUringOp)
      (ctx ctx' : ReadContext) (obj : Object) (b : IoBuffer) (t : Turn)
      (hcall : s.poller.handleCqe key = .call op) (hctx : op.context = .read ctx)
      (hobj : s.heap ctx.self = some obj)
      (ht : Connecting.onReadComplete ⟨res, false⟩ ctx' (s.poller.answer sqe)
        { obj.conn with inputBuffer := b } = .ok t) :
      Performed s (.cqe key res data false sqe) ((s.lookup key).take ctx.self obj.owner sqe t)
  | writeComplete (key : ℕ) (res : ℤ) (data : List UInt8) (sqe : Bool) (op : IoUringOp)
      (ctx : WriteContext) (obj : Object) (hcall : s.poller.handleCqe key = .call op)
      (hctx : op.context = .write ctx) (hobj : s.heap ctx.self = some obj) :
      Performed s (.cqe key res data false sqe) ((s.lookup key).take ctx.self obj.owner sqe
        (obj.conn.onWriteComplete ⟨res, false⟩ (s.poller.answer sqe)))
  | unheard (key : ℕ) (res : ℤ) (data : List UInt8) (more sqe : Bool)
      (hno : ∀ op, s.poller.handleCqe key = .call op → op.target = none) :
      Performed s (.cqe key res data more sqe) (s.lookup key)
  | repeated (key : ℕ) (res : ℤ) (data : List UInt8) (sqe : Bool) :
      Performed s (.cqe key res data true sqe) s
  | other (sqe : Bool) :
      Performed s (.other sqe) { s with poller := (s.poller.submitOther sqe).2 }
  | destroyClosed : Performed s .destroyClosed s.destroyClosedConnections

/-- An entry whose completion function runs is for a one-shot operation. -/
theorem CqeAllowed.oneShot {key : ℕ} {res : ℤ} {data : List UInt8} {more : Bool} {op : IoUringOp}
    (h : s.CqeAllowed key res data more) (hop : s.poller.ops key = some op)
    (ht : op.context ≠ .other) : more = false := by
  unfold CqeAllowed at h
  rw [hop] at h
  rcases op with ⟨ev, ctx, c, o⟩
  cases ctx with
  | read ctx => exact h.1
  | write ctx => exact h.1
  | other => exact absurd rfl ht

theorem handleCqe_ok {key : ℕ} {res : ℤ} {data : List UInt8} {more sqe : Bool}
    (hall : s.CqeAllowed key res data more) (h : s.handleCqe key res data more sqe = .ok s') :
    s.Performed (.cqe key res data more sqe) s' := by
  unfold handleCqe at h
  split at h
  · next op hcall =>
    have hop := (Poller.handleCqe_call hcall).2.1
    split at h
    · next ctx hctx =>
      have hone : more = false := hall.oneShot hop (by rw [hctx]; simp)
      subst hone
      split at h
      · cases h
      · next obj hobj =>
        obtain ⟨m, -, h⟩ := bind_eq_ok h
        obtain ⟨t, ht, hs⟩ := bind_eq_ok h
        exact Except.ok.inj hs ▸ .readComplete key res data sqe op ctx _ obj m.1 t hcall hctx hobj ht
    · next ctx hctx =>
      have hone : more = false := hall.oneShot hop (by rw [hctx]; simp)
      subst hone
      split at h
      · cases h
      · next obj hobj =>
        exact Except.ok.inj h ▸ .writeComplete key res data sqe op ctx obj hcall hctx hobj
    · next hctx =>
      cases more with
      | true => exact Except.ok.inj h ▸ .repeated key res data sqe
      | false =>
        refine Except.ok.inj h ▸ .unheard key res data false sqe ?_
        intro op' hcall'
        rw [hcall] at hcall'
        cases hcall'
        rw [IoUringOp.target, hctx]
  · next hno =>
    refine Except.ok.inj h ▸ .unheard key res data more sqe ?_
    intro op hcall
    exact absurd hcall (hno op)

theorem perform_ok (hen : s.Enabled l) (h : s.perform l = .ok s') : s.Performed l s' := by
  cases l with
  | insert addr fd b₁ b₂ b₃ hwm b₄ =>
    obtain ⟨c, hc, hs⟩ := bind_eq_ok h
    exact Except.ok.inj hs ▸ .insert addr fd b₁ b₂ b₃ hwm b₄ c hen.1 hc
  | call addr a sqe =>
    unfold perform at h
    dsimp only at h
    split at h
    · next hnone =>
      have hsome : (s.heap addr).isSome = true := hen
      rw [hnone] at hsome
      cases hsome
    · next obj hobj =>
      obtain ⟨t, ht, hs⟩ := bind_eq_ok h
      exact Except.ok.inj hs ▸ .call addr a sqe obj t hobj ht
  | ret sqe =>
    unfold perform at h
    dsimp only at h
    split at h
    · next hnil => exact absurd hnil hen
    · next addr f rest hstack =>
      split at h
      · cases h
      · next obj hobj =>
        obtain ⟨t, ht, hs⟩ := bind_eq_ok h
        exact Except.ok.inj hs ▸ .ret sqe addr f rest obj t hobj ht
  | cqe key res data more sqe => exact handleCqe_ok hen.2.2 h
  | other sqe => exact Except.ok.inj h ▸ .other sqe
  | destroyClosed => exact Except.ok.inj h ▸ .destroyClosed

/-- A destructor leaves the map and the other connections alone. -/
@[simp] theorem destroy_heap (s : EventManager) (a : ℕ) :
    (s.destroy a).heap = Function.update s.heap a none := by
  unfold destroy
  split
  · next hnone => rw [← hnone, Function.update_eq_self]
  · rfl

@[simp] theorem destroy_connectionMap (s : EventManager) (a : ℕ) :
    (s.destroy a).connectionMap = s.connectionMap := by
  unfold destroy
  split <;> rfl

@[simp] theorem destroy_created (s : EventManager) (a : ℕ) :
    (s.destroy a).created = s.created := by
  unfold destroy
  split <;> rfl

@[simp] theorem destroy_removals (s : EventManager) (a : ℕ) :
    (s.destroy a).removals = s.removals := by
  unfold destroy
  split <;> rfl

theorem remove_heap (s : EventManager) (fd a : ℕ) (obj : Object) :
    (s.remove fd a obj).heap = Function.update s.heap a none := by
  rw [remove, destroy_heap]

theorem remove_connectionMap (s : EventManager) (fd a : ℕ) (obj : Object) :
    (s.remove fd a obj).connectionMap = Function.update s.connectionMap fd none := by
  rw [remove, destroy_connectionMap]

theorem remove_removals (s : EventManager) (fd a : ℕ) (obj : Object) :
    (s.remove fd a obj).removals =
      s.removals ++ [⟨obj.owner, obj.conn.pendingIoRetries, s.poller.ops⟩] := by
  rw [remove, destroy_removals]

/-- A descriptor of the pass is passed over, waited for, or its connection removed. -/
inductive Passed (s : EventManager) (fd : ℕ) (s' : EventManager) : Prop where
  | skipped (hs : s' = s)
  | waited (a : ℕ) (obj : Object) (hmap : s.connectionMap fd = some a) (hobj : s.heap a = some obj)
      (hdisc : obj.conn.isDisconnected = true) (hwait : waits obj.conn = true)
      (hs : s' = { s with
        heap := Function.update s.heap a (some ⟨obj.owner, obj.conn.bumpPendingIoWait⟩) })
  | removed (a : ℕ) (obj : Object) (hmap : s.connectionMap fd = some a) (hobj : s.heap a = some obj)
      (hdisc : obj.conn.isDisconnected = true) (hwait : waits obj.conn = false)
      (hs : s' = s.remove fd a obj)

theorem destroyClosed_passed (s : EventManager) (fd : ℕ) : s.Passed fd (s.destroyClosed fd).1 := by
  unfold destroyClosed
  split
  · exact .skipped rfl
  · next a hmap =>
    split
    · exact .skipped rfl
    · next obj hobj =>
      split
      · next hdisc =>
        split
        · next hwait => exact .waited a obj hmap hobj hdisc hwait rfl
        · next hwait => exact .removed a obj hmap hobj hdisc (by simpa using hwait) rfl
      · exact .skipped rfl

theorem step_performed (hs : s.step l = some s') :
    s.Enabled l ∧ (s.perform l = .ok s' ∨
      ∃ e, s.perform l = .error e ∧ s' = { s with fault := some e }) := by
  unfold step at hs
  split at hs
  · next hen =>
    split at hs
    · next hp =>
      cases hs
      exact ⟨hen.2, .inl hp⟩
    · next e hp =>
      cases hs
      exact ⟨hen.2, .inr ⟨e, hp, rfl⟩⟩
  · cases hs

/-- A step returns or records a fault. -/
theorem step_cases (h : s.step l = some s') :
    s.Performed l s' ∨ ∃ e, s' = { s with fault := some e } := by
  obtain ⟨hen, hp | ⟨e, -, rfl⟩⟩ := step_performed h
  · exact .inl (perform_ok hen hp)
  · exact .inr ⟨e, rfl⟩

/-- Inductive invariance for this machine, as for a single connection. -/
theorem invariant {ok : EventManager → Label → Prop} (Inv : EventManager → Prop) (hinit : Inv start)
    (hfault : ∀ s e, Inv s → Inv { s with fault := some e })
    (hstep : ∀ s l s', machine.Reachable ok s → Inv s → ok s l → s.Performed l s' → Inv s')
    {s : EventManager} (h : machine.Reachable ok s) : Inv s := by
  refine h.invariant (fun s hs => hs ▸ hinit) ?_
  intro s l s' hreach hinv hok hs
  rcases step_cases hs with hp | ⟨e, rfl⟩
  · exact hstep s l s' hreach hinv hok hp
  · exact hfault s e hinv

end EventManager

end Taotu
