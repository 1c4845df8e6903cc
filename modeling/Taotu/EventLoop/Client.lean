import Taotu.EventLoop.ForceClosing
import Taotu.EventLoop.Reaping
import Taotu.EventLoop.Shutdown

/-!
# Taotu.EventLoop.Client — the connection of a client (`reactor_manager.cc`, `client.cc`)

A `ClientReactorManager` keeps the address of the connection that it has launched in
`connection_`. The connection lives in the event loop, which closes and destroys it when it
likes. What keeps the address good is the close callback: it sets `connection_` to null before
the descriptor is entered in `closed_fds_`, and so before the loop destroys the connection.

1. **Model layer.** A client on a loop that it shares with others. `Disconnect` and `Stop` queue
   a task that closes what `connection_` points at. The tasks and the close callbacks of its
   connections hold the client's own address, so they must not run when it is destroyed.
2. **Loop.** `Turned` is what a step of the loop is for the closes that are going on; the last
   thing of a close is the return of the close callback (`Held.turned`).
3. **Client.** `Careful` asks that a client launches a connection only when `connection_` is
   null, and is destroyed only when it is done. Then `connection_` never dangles, and behind the
   task of `Disconnect` no connection of the client is open (`disconnect_closes`). A second
   `Connect` makes it forget the first connection (`second_connect_forgets`).

The connector and `Quit` are left out.

**Ghosts.** `launched` are the numbers of the connections that the client has launched.
`dangling` is set when code of a destroyed client runs.
-/

namespace Taotu

open Lib
open Solo (Closing)

namespace Connecting

variable {c c₁ : Connecting} {ans : ℕ} {t : Turn}

/-- What a handler does before its move is invisible if state and callback are kept. -/
theorem LifeMove.of_eq (h : LifeMove c₁ t) (hst : c₁.state = c.state)
    (hcb : c₁.closeCallback = c.closeCallback) : LifeMove c t := by
  cases h with
  | plain h => exact .plain (h.of_eq hst hcb)
  | establish steady before after life frame =>
    exact .establish ⟨steady.out, hst ▸ steady.forward, steady.closeCallback.trans hcb⟩
      (hst ▸ before) after life frame
  | close before h => exact .close (hst ▸ before) (h.of_eq hcb)

/-- A close stops at a callback, if the close callback is registered. -/
theorem LifeMove.frame (h : LifeMove c t) (hcallback : c.closeCallback = true)
    (hst : t.conn.state = .kDisconnected) :
    c.state = .kDisconnected ∨ ∃ f ∈ t.frame, Closing f := by
  cases h with
  | plain h => exact .inl (h.closed hst)
  | establish steady before after => cases after.symm.trans hst
  | close before h =>
    right
    rcases h.calls with ⟨-, hframe⟩ | hends
    · exact ⟨_, hframe, .inl rfl⟩
    · cases hends with
      | callback registered life frame => exact ⟨_, frame, .inr rfl⟩
      | delete fd registered => cases hcallback.symm.trans registered

/-- Only a turn that closes the connection leaves a frame of a close. -/
theorem LifeMove.closing (h : LifeMove c t) {f : Frame} (hf : f ∈ t.frame) (hclosing : Closing f) :
    c.state ≠ .kDisconnected ∧ t.conn.state = .kDisconnected := by
  cases h with
  | plain h => exact absurd hclosing (h.frame f hf)
  | establish _ _ _ _ frame =>
    rw [frame] at hf
    cases hf
    rcases hclosing with h | h <;> cases h
  | close before h => exact ⟨before, h.after⟩

theorem new_closeCallback {addr fd : ℕ} {onConnection onMessage writeComplete close : Bool}
    {highWaterMark : Option ℕ}
    (h : new addr fd onConnection onMessage writeComplete highWaterMark close = .ok c) :
    c.closeCallback = close := by
  rw [new] at h
  obtain ⟨b, hb, h⟩ := bind_eq_ok h
  rw [hb, ok_bind, ok_bind] at h
  cases h
  rfl

/-- Behind the connection callback a close goes on to the close callback. -/
theorem resume_closeRest (hcallback : c.closeCallback = true)
    (h : c.resume ans .closeRest = .ok t) : t.conn = c ∧ t.frame = some .closeEnd := by
  cases h
  rw [closeRest, callback, if_pos hcallback]
  exact ⟨rfl, rfl⟩

end Connecting

namespace EventManager

open Connecting (LifeMove)

variable {e e' : EventManager} {l : Label} {a o : ℕ}

/-! ## Closes that are going on -/

/-- What a step is for the closes: a turn of a connection, the next part of a close, a new
connection, a pass, or nothing. -/
inductive Turned (e : EventManager) (l : Label) (e' : EventManager) : Prop where
  | turn (a : ℕ) (obj : Object) (t : Turn) (frames : List (ℕ × Frame)) (hobj : e.heap a = some obj)
      (move : LifeMove obj.conn t) (below : ∀ f ∈ frames, f ∈ e.stack)
      (closes : ∀ f ∈ e.stack, Closing f.2 → f ∈ frames)
      (heap : e'.heap = Function.update e.heap a (some ⟨obj.owner, t.conn⟩))
      (stack : e'.stack = t.frame.toList.map (a, ·) ++ frames)
  | resume (a : ℕ) (f : Frame) (rest : List (ℕ × Frame)) (obj : Object) (t : Turn) (sqe : Bool)
      (label : l = .ret sqe) (before : e.stack = (a, f) :: rest) (closing : Closing f)
      (hobj : e.heap a = some obj) (ht : obj.conn.resume (e.poller.answer sqe) f = .ok t)
      (heap : e'.heap = Function.update e.heap a (some ⟨obj.owner, t.conn⟩))
      (stack : e'.stack = t.frame.toList.map (a, ·) ++ rest)
  | insert (addr : ℕ) (obj : Object) (free : e.heap addr = none)
      (heap : e'.heap = Function.update e.heap addr (some obj)) (stack : e'.stack = e.stack)
  | pass (idle : e.stack = [])
      (keeps : ∀ a obj, e.heap a = some obj → obj.conn.state ≠ .kDisconnected →
        e'.heap a = some obj) (stack : e'.stack = [])
  | same (heap : e'.heap = e.heap) (stack : e'.stack = e.stack)

theorem turned_take {e₀ : EventManager} {obj : Object} {t : Turn} {sqe : Bool}
    (hobj : e.heap a = some obj) (hmove : LifeMove obj.conn t) (hheap : e₀.heap = e.heap)
    (hstack : e₀.stack = e.stack) : e.Turned l (e₀.take a obj.owner sqe t) := by
  refine .turn a obj t e.stack hobj hmove (fun f hf => hf) (fun f hf _ => hf) ?_ ?_
  · rw [← hheap]
    rfl
  · rw [← hstack]
    rfl

/-- A pass leaves open connections alone. -/
theorem destroyAll_open {obj : Object} (fds : List ℕ) (hobj : e.heap a = some obj)
    (hopen : obj.conn.state ≠ .kDisconnected) : (destroyAll e fds).1.heap a = some obj := by
  induction fds generalizing e with
  | nil => exact hobj
  | cons fd fds ih =>
    refine ih (e := (e.destroyClosed fd).1) ?_
    have hother : ∀ b objb, e.heap b = some objb → objb.conn.isDisconnected = true → a ≠ b := by
      rintro b objb hobjb hdisc rfl
      cases hobj.symm.trans hobjb
      exact hopen (of_decide_eq_true hdisc)
    cases destroyClosed_passed e fd with
    | skipped hs => rw [hs, hobj]
    | waited b objb hmap hobjb hdisc hwait hs =>
      rw [hs]
      exact (Function.update_of_ne (hother b objb hobjb hdisc) _ _).trans hobj
    | removed b objb hmap hobjb hdisc hwait hs =>
      rw [hs, remove_heap, Function.update_of_ne (hother b objb hobjb hdisc), hobj]

theorem turned (h : machine.Reachable FreshFd e) (hok : e.FreshFd l) (hs : e.step l = some e') :
    e.Turned l e' := by
  rcases step_performed hs with ⟨hen, hp | ⟨f, hp, rfl⟩⟩
  swap
  · exact .same rfl rfl
  cases perform_ok hen hp with
  | insert addr fd b₁ b₂ b₃ hwm b₄ c free hc =>
    rw [insertNewConnection_of_none ((booked h).unused hok)]
    exact .insert addr _ free rfl rfl
  | call a act sqe obj t hobj ht => exact turned_take hobj (Connecting.exec_lifeMove ht) rfl rfl
  | ret sqe _ _ _ _ _ _ _ =>
    rcases perform_ret hen hp with ⟨a, f, rest, obj, t, hstack, hobj, ht, heq⟩
    rw [heq]
    by_cases hf : Closing f
    · exact .resume a f rest obj t sqe rfl hstack hf hobj ht rfl rfl
    · refine .turn a obj t rest hobj (.plain (Connecting.resume_plain hf ht)) ?_ ?_ rfl rfl
      · rw [hstack]
        exact fun g hg => List.mem_cons_of_mem _ hg
      · intro g hg hclosing
        rw [hstack] at hg
        rcases List.mem_cons.mp hg with rfl | hrest
        · exact absurd hclosing hf
        · exact hrest
  | readComplete key res data sqe op ctx ctx' obj b t hcall hctx hobj ht =>
    exact turned_take hobj ((Connecting.onReadComplete_lifeMove ht).of_eq rfl rfl) rfl rfl
  | writeComplete key res data sqe op ctx obj hcall hctx hobj =>
    exact turned_take hobj (.plain Connecting.onWriteComplete_plain) rfl rfl
  | unheard key res data more sqe hno => exact .same rfl rfl
  | repeated key res data sqe => exact .same rfl rfl
  | other sqe => exact .same rfl rfl
  | destroyClosed =>
    exact .pass hen (fun a obj => destroyAll_open e.closedFds)
      ((destroyAll_stack e e.closedFds).trans hen)

/-- The connection `o` is at `a` and has a close callback, and if it is closed, then its close
is still going on. -/
def Held (e : EventManager) (a o : ℕ) : Prop :=
  ∃ obj, e.heap a = some obj ∧ obj.owner = o ∧ obj.conn.closeCallback = true ∧
    (obj.conn.state = .kDisconnected → ∃ f ∈ e.stack, f.1 = a ∧ Closing f.2)

/-- The close callback of the connection at `a` is running. -/
def InCloseCallback (e : EventManager) (a : ℕ) : Prop := ∃ rest, e.stack = (a, .closeEnd) :: rest

theorem mem_frames {t : Turn} {f : Frame} (hf : f ∈ t.frame) (frames : List (ℕ × Frame)) :
    (a, f) ∈ t.frame.toList.map (a, ·) ++ frames :=
  List.mem_append_left _ (List.mem_map_of_mem (Option.mem_toList.mpr hf))

/-- A connection is held until its close callback returns. -/
theorem Held.turned (h : e.Held a o) (hturned : e.Turned l e') :
    e'.Held a o ∨ ((∃ sqe, l = .ret sqe) ∧ e.InCloseCallback a) := by
  rcases h with ⟨obj, hobj, howner, hcallback, hclosed⟩
  cases hturned with
  | turn b objb t frames hobjb move below closes heap stack =>
    left
    have hkeeps : (∃ f ∈ e.stack, f.1 = a ∧ Closing f.2) →
        ∃ f ∈ e'.stack, f.1 = a ∧ Closing f.2 := by
      rintro ⟨f, hf, ha, hclosing⟩
      exact ⟨f, stack ▸ List.mem_append_right _ (closes f hf hclosing), ha, hclosing⟩
    by_cases hab : a = b
    · subst hab
      cases hobj.symm.trans hobjb
      refine ⟨⟨obj.owner, t.conn⟩, by rw [heap, Function.update_self], howner, ?_, fun hst => ?_⟩
      · exact move.steady.closeCallback.trans hcallback
      · rcases move.frame hcallback hst with hbefore | ⟨f, hf, hclosing⟩
        · exact hkeeps (hclosed hbefore)
        · exact ⟨(a, f), stack ▸ mem_frames hf frames, rfl, hclosing⟩
    · refine ⟨obj, ?_, howner, hcallback, fun hst => hkeeps (hclosed hst)⟩
      rw [heap, Function.update_of_ne hab, hobj]
  | resume b f rest objb t sqe label before closing hobjb ht heap stack =>
    by_cases hab : a = b
    · subst hab
      cases hobj.symm.trans hobjb
      rcases closing with rfl | rfl
      · -- the close callback comes next
        left
        rcases Connecting.resume_closeRest hcallback ht with ⟨hconn, hframe⟩
        refine ⟨⟨obj.owner, t.conn⟩, by rw [heap, Function.update_self], howner, ?_, fun _ => ?_⟩
        · show t.conn.closeCallback = true
          rw [hconn]
          exact hcallback
        · exact ⟨(a, .closeEnd), stack ▸ mem_frames hframe rest, rfl, .inr rfl⟩
      · exact .inr ⟨⟨sqe, label⟩, rest, before⟩
    · left
      refine ⟨obj, by rw [heap, Function.update_of_ne hab, hobj], howner, hcallback, fun hst => ?_⟩
      rcases hclosed hst with ⟨g, hg, rfl, hclosing⟩
      rw [before] at hg
      rcases List.mem_cons.mp hg with rfl | hrest
      · exact absurd rfl hab
      · exact ⟨g, stack ▸ List.mem_append_right _ hrest, rfl, hclosing⟩
  | insert addr new free heap stack =>
    left
    refine ⟨obj, ?_, howner, hcallback, fun hst => stack ▸ hclosed hst⟩
    rw [heap, Function.update_of_ne, hobj]
    rintro rfl
    cases free.symm.trans hobj
  | pass idle keeps stack =>
    have hopen : obj.conn.state ≠ .kDisconnected := by
      intro hst
      rcases hclosed hst with ⟨f, hf, -⟩
      rw [idle] at hf
      cases hf
    exact .inl ⟨obj, keeps a obj hobj hopen, howner, hcallback, fun hst => absurd hst hopen⟩
  | same heap stack =>
    exact .inl ⟨obj, heap ▸ hobj, howner, hcallback, fun hst => stack ▸ hclosed hst⟩

/-- A frame of a close belongs to a close that was going on, or that begins here. -/
theorem Turned.closing (h : e.Turned l e') {f : ℕ × Frame} (hf : f ∈ e'.stack)
    (hclosing : Closing f.2) :
    (∃ g ∈ e.stack, g.1 = f.1 ∧ Closing g.2) ∨
      ∃ obj obj', e.heap f.1 = some obj ∧ obj.conn.state ≠ .kDisconnected ∧
        e'.heap f.1 = some obj' ∧ obj'.conn.state = .kDisconnected := by
  cases h with
  | turn b obj t frames hobj move below closes heap stack =>
    rw [stack] at hf
    rcases List.mem_append.mp hf with hnew | hold
    · rcases List.mem_map.mp hnew with ⟨g, hg, rfl⟩
      rcases move.closing (Option.mem_toList.mp hg) hclosing with ⟨hopen, hclosed⟩
      exact .inr ⟨obj, _, hobj, hopen, by rw [heap, Function.update_self], hclosed⟩
    · exact .inl ⟨f, below f hold, rfl, hclosing⟩
  | resume b g rest obj t sqe label before closing hobj ht heap stack =>
    rw [stack] at hf
    rw [before]
    rcases List.mem_append.mp hf with hnew | hold
    · rcases List.mem_map.mp hnew with ⟨g', -, rfl⟩
      exact .inl ⟨(b, g), List.mem_cons_self, rfl, closing⟩
    · exact .inl ⟨f, List.mem_cons_of_mem _ hold, rfl, hclosing⟩
  | insert addr new free heap stack => exact .inl ⟨f, stack ▸ hf, rfl, hclosing⟩
  | pass idle keeps stack =>
    rw [stack] at hf
    cases hf
  | same heap stack => exact .inl ⟨f, stack ▸ hf, rfl, hclosing⟩

/-- A connection is new, or it was there and is not opened again. -/
theorem Moved.back (h : e.Moved l e') {obj' : Object} (hobj' : e'.heap a = some obj') :
    obj'.owner = e.created ∨ ∃ obj, e.heap a = some obj ∧ obj'.owner = obj.owner ∧
      (obj'.conn.state ≠ .kDisconnected → obj.conn.state ≠ .kDisconnected) := by
  cases h with
  | turn _ heap =>
    rcases rel_some_right (hobj' ▸ heap a) with ⟨obj, hobj, honward⟩
    refine .inr ⟨obj, hobj, honward.owner, fun hopen hst => hopen ?_⟩
    exact of_decide_eq_true (honward.closed (decide_eq_true hst))
  | insert addr fd _ _ _ _ _ c _ free _ _ _ heap =>
    rw [heap] at hobj'
    rcases enter_eq_some.mp hobj' with ⟨-, rfl⟩ | ⟨-, hold⟩
    · exact .inl rfl
    · exact .inr ⟨obj', hold, rfl, id⟩
  | pass _ _ _ _ aging =>
    rcases aging.stays a obj' hobj' with ⟨obj, hobj, haged, -⟩
    exact .inr ⟨obj, hobj, haged.owner, fun hopen => haged.state ▸ hopen⟩

theorem Moved.created_le (h : e.Moved l e') : e.created ≤ e'.created := by
  cases h with
  | turn _ _ _ _ created => exact created.ge
  | insert _ _ _ _ _ _ _ _ _ _ _ _ _ _ _ _ created => exact created ▸ Nat.le_succ _
  | pass _ _ created => exact created.ge

end EventManager

/-! ## Model layer -/

/-- The tasks of `Disconnect` and `Stop`. -/
inductive ClientTask where
  | disconnectInLoop
  | stopInLoop
deriving DecidableEq, Repr

structure Client where
  loop : EventManager
  connection : Option ℕ
  tasks : List ClientTask
  destroyed : Bool
  launched : List ℕ
  dangling : Bool

namespace Client

/-- What happens next: something on the loop that is not the client's, a socket of the connector
is connected, a call of the user, or the next task of the client. -/
inductive Label where
  | loop (l : EventManager.Label)
  | launch (addr fd : ℕ) (onConnection onMessage writeComplete sqe : Bool)
  | disconnect
  | stop
  | task (sqe : Bool)
  | destruct
deriving DecidableEq, Repr

/-- The connection of the client whose close callback returns in this step. -/
def closing (s : Client) : EventManager.Label → Option ℕ
  | .ret _ =>
    match s.loop.stack with
    | (a, .closeEnd) :: _ =>
      if (s.loop.heap a).any (fun obj => obj.owner ∈ s.launched) then some a else none
    | _ => none
  | _ => none

/-- A step of the loop. The close callback of `LaunchNewConnectionCallback` sets `connection_`
to null and calls `ForceClose`, and then it returns. -/
def run (s : Client) (l : EventManager.Label) : Option Client :=
  match s.closing l with
  | some a =>
    ((s.loop.step (.call a .forceClose false)).bind (·.step l)).map fun e =>
      { s with loop := e, connection := none, dangling := s.dangling || s.destroyed }
  | none => (s.loop.step l).map fun e => { s with loop := e }

/-- `LaunchNewConnectionCallback`. -/
def launchNewConnectionCallback (s : Client) (addr fd : ℕ)
    (onConnection onMessage writeComplete sqe : Bool) : Option Client :=
  (s.loop.step (.insert addr fd onConnection onMessage writeComplete none true)).bind fun e =>
    if e.fault = none then
      (e.step (.call addr .onEstablishing sqe)).map fun e' =>
        { s with
          loop := e'
          connection := some addr
          launched := s.launched ++ [s.loop.created] }
    else some { s with loop := e }

/-- The common body of the two tasks: `connection_` is set to null, and what it pointed at is
closed. -/
def closeConnection (s : Client) (sqe : Bool) : Client :=
  match s.connection with
  | some a => { s with connection := none, loop := Forcing.fireAt s.loop a sqe }
  | none => s

def disconnectInLoop (s : Client) (sqe : Bool) : Client := s.closeConnection sqe

def stopInLoop (s : Client) (sqe : Bool) : Client := s.closeConnection sqe

/-- The loop runs a task of the client. -/
def runTask (s : Client) (sqe : Bool) : ClientTask → Client
  | .disconnectInLoop => s.disconnectInLoop sqe
  | .stopInLoop => s.stopInLoop sqe

def step (s : Client) : Label → Option Client
  | .loop l => s.run l
  | .launch addr fd onConnection onMessage writeComplete sqe =>
    -- the eventer of the connector is worked between two handlers
    if s.destroyed = false ∧ s.loop.stack = [] then
      s.launchNewConnectionCallback addr fd onConnection onMessage writeComplete sqe
    else none
  | .disconnect =>
    if s.destroyed = false then some { s with tasks := s.tasks ++ [.disconnectInLoop] } else none
  | .stop => if s.destroyed = false then some { s with tasks := s.tasks ++ [.stopInLoop] } else none
  | .task sqe =>
    if s.loop.fault = none ∧ s.loop.stack = [] then
      match s.tasks with
      | [] => none
      | task :: rest =>
        if s.destroyed then some { s with tasks := rest, dangling := true }
        else some ({ s with tasks := rest }.runTask sqe task)
    else none
  | .destruct =>
    if s.destroyed = false then some { s with connection := none, destroyed := true } else none

/-- A new client on a new loop. -/
def start : Client := ⟨.start, none, [], false, [], false⟩

def machine : Machine Client Label := ⟨(· = start), step⟩

/-- No connection of the client is open. -/
def AllClosed (s : Client) : Prop :=
  ∀ a obj, s.loop.heap a = some obj → obj.owner ∈ s.launched → obj.conn.state = .kDisconnected

/-- The condition on a step: descriptors are fresh, a connection is launched when there is none,
and the client is destroyed when all its connections are closed, no handler is running and no
task is queued. -/
def Careful (s : Client) : Label → Prop
  | .loop l => s.loop.FreshFd l
  | .launch _ fd _ _ _ _ =>
    s.connection = none ∧ ∀ a obj, s.loop.heap a = some obj → obj.conn.fd ≠ fd
  | .destruct => s.AllClosed ∧ s.loop.stack = [] ∧ s.tasks = []
  | .disconnect | .stop | .task _ => True

/-! ## The client -/

variable {s s' : Client} {l : EventManager.Label} {e : EventManager}

structure Inv (s : Client) : Prop where
  reach : EventManager.machine.Reachable EventManager.FreshFd s.loop
  old : ∀ o ∈ s.launched, o < s.loop.created
  /-- What `connection_` points at is there. -/
  pointer : ∀ a, s.connection = some a → ∃ o ∈ s.launched, s.loop.Held a o
  /-- What is open is what `connection_` points at. -/
  sole : ∀ a obj, s.loop.heap a = some obj → obj.owner ∈ s.launched →
    obj.conn.state ≠ .kDisconnected → s.connection = some a
  /-- While one of the connections is closing, none is open. -/
  ending : ∀ f ∈ s.loop.stack, Closing f.2 → ∀ obj, s.loop.heap f.1 = some obj →
    obj.owner ∈ s.launched → s.AllClosed
  /-- A destroyed client has no connections any more. -/
  ended : s.destroyed = true → s.tasks = [] ∧ s.AllClosed ∧ s.connection = none ∧
    ∀ f ∈ s.loop.stack, Closing f.2 → ∀ obj, s.loop.heap f.1 = some obj → obj.owner ∉ s.launched
  safe : s.dangling = false

/-- Connections of the client are not opened again by the loop. -/
theorem Inv.back (h : s.Inv) (hmoved : s.loop.Moved l e) {a : ℕ} {obj' : Object}
    (hobj' : e.heap a = some obj') (hmine : obj'.owner ∈ s.launched) :
    ∃ obj, s.loop.heap a = some obj ∧ obj.owner ∈ s.launched ∧
      (obj'.conn.state ≠ .kDisconnected → obj.conn.state ≠ .kDisconnected) := by
  rcases hmoved.back hobj' with hnew | ⟨obj, hobj, howner, hopen⟩
  · exact absurd (h.old _ hmine) (hnew ▸ Nat.lt_irrefl _)
  · exact ⟨obj, hobj, howner ▸ hmine, hopen⟩

theorem Inv.allClosed (h : s.Inv) (hmoved : s.loop.Moved l e) (hall : s.AllClosed) :
    AllClosed { s with loop := e } := by
  intro a obj' hobj' hmine
  rcases h.back hmoved hobj' hmine with ⟨obj, hobj, hmine₀, hopen⟩
  by_contra hst
  exact hopen hst (hall a obj hobj hmine₀)

/-- A step of the loop keeps the invariant, unless the close callback returns and `connection_`
is not null. -/
theorem Inv.loopStep (h : s.Inv) (hok : s.loop.FreshFd l) (hs : s.loop.step l = some e)
    (hnot : s.closing l = none ∨ s.connection = none) : Inv { s with loop := e } := by
  have hmoved := EventManager.moved_of_reachable h.reach hok hs
  have hturned := EventManager.turned h.reach hok hs
  have hending : ∀ f ∈ e.stack, Closing f.2 → ∀ obj, e.heap f.1 = some obj →
      obj.owner ∈ s.launched → AllClosed { s with loop := e } ∧
        (s.destroyed = true → False) := by
    intro f hf hclosing obj' hobj' hmine
    rcases h.back hmoved hobj' hmine with ⟨obj, hobj, hmine₀, -⟩
    rcases hturned.closing hf hclosing with
      ⟨g, hg, hgf, hclosing'⟩ | ⟨obj₀, obj₁, hobj₀, hopen, hobj₁, hclosed⟩
    · refine ⟨h.allClosed hmoved (h.ending g hg hclosing' obj (hgf ▸ hobj) hmine₀), fun hover => ?_⟩
      exact (h.ended hover).2.2.2 g hg hclosing' obj (hgf ▸ hobj) hmine₀
    · -- the close begins here, of the only connection that was open
      cases hobj.symm.trans hobj₀
      cases hobj'.symm.trans hobj₁
      refine ⟨?_, fun hover => hopen ((h.ended hover).2.1 f.1 obj hobj hmine₀)⟩
      intro b objb hobjb hmineb
      by_contra hst
      rcases h.back hmoved hobjb hmineb with ⟨objb₀, hobjb₀, hmineb₀, hopenb⟩
      have hb := h.sole b objb₀ hobjb₀ hmineb₀ (hopenb hst)
      have ha := h.sole f.1 obj hobj hmine₀ hopen
      cases hb.symm.trans ha
      cases hobjb.symm.trans hobj'
      exact hst hclosed
  refine ⟨h.reach.step l hok hs, ?_, ?_, ?_, ?_, ?_, h.safe⟩
  · exact fun o ho => (h.old o ho).trans_le hmoved.created_le
  · intro a ha
    rcases h.pointer a ha with ⟨o, ho, hheld⟩
    rcases hheld.turned hturned with hheld' | ⟨⟨sqe, rfl⟩, rest, hstack⟩
    · exact ⟨o, ho, hheld'⟩
    · exfalso
      rcases hnot with hnot | hnone
      · rcases hheld with ⟨obj, hobj, rfl, -⟩
        simp [closing, hstack, hobj, ho] at hnot
      · cases hnone.symm.trans ha
  · intro a obj' hobj' hmine hopen'
    rcases h.back hmoved hobj' hmine with ⟨obj, hobj, hmine₀, hopen⟩
    exact h.sole a obj hobj hmine₀ (hopen hopen')
  · exact fun f hf hclosing obj hobj hmine => (hending f hf hclosing obj hobj hmine).1
  · intro hover
    refine ⟨(h.ended hover).1, h.allClosed hmoved (h.ended hover).2.1, (h.ended hover).2.2.1, ?_⟩
    exact fun f hf hclosing obj hobj hmine => (hending f hf hclosing obj hobj hmine).2 hover

theorem closing_eq_some {a : ℕ} (h : s.closing l = some a) :
    (∃ sqe, l = .ret sqe) ∧ ∃ rest obj, s.loop.stack = (a, .closeEnd) :: rest ∧
      s.loop.heap a = some obj ∧ obj.owner ∈ s.launched := by
  unfold closing at h
  split at h
  · next sqe =>
    split at h
    · next b rest hstack =>
      split at h
      · next hmine =>
        cases h
        rcases (Option.any_eq_true _ _).mp hmine with ⟨obj, hobj, hin⟩
        exact ⟨⟨sqe, rfl⟩, rest, obj, hstack, hobj, of_decide_eq_true hin⟩
      · cases h
    · cases h
  · cases h

/-- `connection_` may be set to null when nothing is open. -/
theorem Inv.forget (h : s.Inv) (hall : s.AllClosed) : Inv { s with connection := none } :=
  ⟨h.reach, h.old, nofun, fun a obj hobj hmine hopen => absurd (hall a obj hobj hmine) hopen,
    h.ending, fun hover => ⟨(h.ended hover).1, (h.ended hover).2.1, rfl, (h.ended hover).2.2.2⟩,
    h.safe⟩

theorem Inv.run (h : s.Inv) (hok : s.loop.FreshFd l) (hs : s.run l = some s') : s'.Inv := by
  unfold Client.run at hs
  split at hs
  · next a hclosing =>
    rcases closing_eq_some hclosing with ⟨⟨sqe, rfl⟩, rest, obj, hstack, hobj, hmine⟩
    rcases Option.map_eq_some_iff.mp hs with ⟨e', hsteps, rfl⟩
    rcases Option.bind_eq_some_iff.mp hsteps with ⟨e, hforce, hret⟩
    have hframe : (a, Frame.closeEnd) ∈ s.loop.stack := hstack ▸ List.mem_cons_self
    have halive : s.destroyed = false := by
      by_contra hover
      exact (h.ended (Bool.not_eq_false _ ▸ hover)).2.2.2 _ hframe (.inr rfl) obj hobj hmine
    have hall := h.ending _ hframe (.inr rfl) obj hobj hmine
    have hforgot :=
      (h.forget hall).loopStep (l := .call a .forceClose false) trivial hforce (.inr rfl)
    have hdone := hforgot.loopStep (l := .ret sqe) trivial hret (.inr rfl)
    refine ⟨hdone.reach, hdone.old, hdone.pointer, hdone.sole, hdone.ending, hdone.ended, ?_⟩
    show (s.dangling || s.destroyed) = false
    rw [h.safe, halive]
    rfl
  · next hclosing =>
    rcases Option.map_eq_some_iff.mp hs with ⟨e, hstep, rfl⟩
    exact h.loopStep hok hstep (.inl hclosing)

/-- A connection that has just been inserted is the one that `connection_` points at. -/
theorem Inv.inserted (h : s.Inv) (hnone : s.connection = none) (hidle : s.loop.stack = [])
    (halive : s.destroyed = false) {addr fd : ℕ} {b₁ b₂ b₃ : Bool}
    (hfresh : s.loop.FreshFd (.insert addr fd b₁ b₂ b₃ none true))
    (hs : s.loop.step (.insert addr fd b₁ b₂ b₃ none true) = some e) (hfault : e.fault = none) :
    Inv { s with
      loop := e, connection := some addr, launched := s.launched ++ [s.loop.created] } := by
  have hloop := h.loopStep hfresh hs (.inl rfl)
  rcases EventManager.step_performed hs with ⟨hen, hp | ⟨f, -, rfl⟩⟩
  swap
  · cases hfault
  cases EventManager.perform_ok hen hp with
  | insert _ _ _ _ _ _ _ c free hc =>
    rw [EventManager.insertNewConnection_of_none
      ((EventManager.booked h.reach).unused hfresh)] at hloop ⊢
    rcases Connecting.new_ok hc with ⟨b, -, -, -, -, hst, -, -⟩
    have hcallback : c.closeCallback = true := Connecting.new_closeCallback hc
    refine ⟨hloop.reach, ?_, ?_, ?_, ?_, ?_, h.safe⟩
    · intro o ho
      rcases List.mem_append.mp ho with hold | hnew
      · exact (h.old o hold).trans (Nat.lt_succ_self _)
      · rw [List.mem_singleton.mp hnew]
        exact Nat.lt_succ_self _
    · rintro a ⟨⟩
      refine ⟨_, List.mem_append_right _ (List.mem_singleton_self _), _, Function.update_self _ _ _,
        rfl, hcallback, fun hclosed => ?_⟩
      cases hst.symm.trans hclosed
    · intro a obj hobj hmine hopen
      rcases enter_eq_some.mp hobj with ⟨rfl, -⟩ | ⟨-, hold⟩
      · rfl
      · -- no other connection of the client is open
        exfalso
        rcases List.mem_append.mp hmine with hmine | hnew
        · cases hnone.symm.trans (h.sole a obj hold hmine hopen)
        · have hlt := (EventManager.owned h.reach).lt a obj hold
          rw [List.mem_singleton.mp hnew] at hlt
          exact Nat.lt_irrefl _ hlt
    · intro f hf
      rw [show s.loop.stack = [] from hidle] at hf
      cases hf
    · intro hover
      cases halive.symm.trans hover

theorem Inv.launch (h : s.Inv) (hnone : s.connection = none) (hidle : s.loop.stack = [])
    (halive : s.destroyed = false) {addr fd : ℕ} {b₁ b₂ b₃ sqe : Bool}
    (hfresh : s.loop.FreshFd (.insert addr fd b₁ b₂ b₃ none true))
    (hs : s.launchNewConnectionCallback addr fd b₁ b₂ b₃ sqe = some s') : s'.Inv := by
  rcases Option.bind_eq_some_iff.mp hs with ⟨e, hinsert, hs⟩
  split at hs
  · next hfault =>
    rcases Option.map_eq_some_iff.mp hs with ⟨e', hcall, rfl⟩
    have hinserted := h.inserted hnone hidle halive hfresh hinsert hfault
    exact hinserted.loopStep (l := .call addr .onEstablishing sqe) trivial hcall (.inl rfl)
  · cases hs
    exact h.loopStep hfresh hinsert (.inl rfl)

/-- `ForceClose` on a connection that is there is a call of the loop. -/
theorem fireAt_eq {a : ℕ} {obj : Object} (hobj : e.heap a = some obj) (hfault : e.fault = none)
    (sqe : Bool) : e.step (.call a .forceClose sqe) = some (Forcing.fireAt e a sqe) := by
  have hen : e.fault = none ∧ e.Enabled (.call a .forceClose sqe) :=
    ⟨hfault, by rw [EventManager.Enabled, hobj]; rfl⟩
  rw [EventManager.step, if_pos hen, EventManager.perform, Forcing.fireAt, hobj]
  rfl

/-- The task closes the connection that is there. -/
theorem Inv.closeConnection (h : s.Inv) (hfault : s.loop.fault = none) (sqe : Bool) :
    (s.closeConnection sqe).Inv ∧ (s.closeConnection sqe).loop.fault = none ∧
      (s.closeConnection sqe).AllClosed := by
  rw [Client.closeConnection]
  cases hconn : s.connection with
  | none =>
    refine ⟨h, hfault, fun a obj hobj hmine => ?_⟩
    by_contra hopen
    cases hconn.symm.trans (h.sole a obj hobj hmine hopen)
  | some a =>
    rcases h.pointer a hconn with ⟨o, ho, obj, hobj, rfl, hcallback, hclosed⟩
    have hstep :=
      h.loopStep (l := .call a .forceClose sqe) trivial (fireAt_eq hobj hfault sqe) (.inl rfl)
    have hfire : Forcing.fireAt s.loop a sqe = s.loop.take a obj.owner sqe obj.conn.forceClose := by
      rw [Forcing.fireAt, hobj]
    have hall : AllClosed { s with loop := Forcing.fireAt s.loop a sqe } := by
      intro b objb hobjb hmine
      by_contra hopen
      cases hconn.symm.trans (hstep.sole b objb hobjb hmine hopen)
      rw [show ({ s with loop := Forcing.fireAt s.loop a sqe } : Client).loop = _ from hfire]
        at hobjb
      rcases enter_eq_some.mp hobjb with ⟨-, rfl⟩ | ⟨hne, -⟩
      · exact hopen (Connecting.forceClose_closed obj.conn)
      · exact hne rfl
    refine ⟨hstep.forget hall, ?_, hall⟩
    show (Forcing.fireAt s.loop a sqe).fault = none
    rw [hfire]
    exact hfault

theorem closeConnection_connection (s : Client) (sqe : Bool) :
    (s.closeConnection sqe).connection = none := by
  rw [Client.closeConnection]
  cases hconn : s.connection with
  | none => exact hconn
  | some a => rfl

/-- Both tasks have the same body. -/
theorem runTask_eq (s : Client) (sqe : Bool) (task : ClientTask) :
    s.runTask sqe task = s.closeConnection sqe := by
  cases task <;> rfl

/-- A task of the client runs while the client exists. -/
theorem Inv.task (h : s.Inv) {sqe : Bool} (hs : s.step (.task sqe) = some s') :
    s'.Inv ∧ s'.loop.fault = none ∧ s'.connection = none ∧ s'.AllClosed := by
  rw [step] at hs
  split at hs
  · next hen =>
    split at hs
    · cases hs
    · next task rest htasks =>
      split at hs
      · next hover =>
        cases htasks.symm.trans (h.ended hover).1
      · next halive =>
        cases hs
        have hpopped : Inv { s with tasks := rest } :=
          ⟨h.reach, h.old, h.pointer, h.sole, h.ending, fun hover => absurd hover halive, h.safe⟩
        rw [runTask_eq]
        rcases hpopped.closeConnection hen.1 sqe with ⟨hinv, hfault, hall⟩
        exact ⟨hinv, hfault, closeConnection_connection _ sqe, hall⟩
  · cases hs

/-- A call of the user queues a task. -/
theorem Inv.queue (h : s.Inv) (halive : s.destroyed = false) (tasks : List ClientTask) :
    Inv { s with tasks := tasks } :=
  ⟨h.reach, h.old, h.pointer, h.sole, h.ending, fun hover => (nomatch halive.symm.trans hover),
    h.safe⟩

theorem Inv.destruct (h : s.Inv) (hall : s.AllClosed) (hidle : s.loop.stack = [])
    (htasks : s.tasks = []) : Inv { s with connection := none, destroyed := true } := by
  have hforgot := h.forget hall
  refine ⟨h.reach, h.old, hforgot.pointer, hforgot.sole, h.ending, fun _ => ?_, h.safe⟩
  refine ⟨htasks, hall, rfl, fun f hf => ?_⟩
  rw [show s.loop.stack = [] from hidle] at hf
  cases hf

theorem inv (h : machine.Reachable Careful s) : s.Inv := by
  refine h.invariant ?_ fun s l s' _ hinv hok hs => ?_
  · rintro _ rfl
    exact ⟨.init rfl, nofun, nofun, fun a obj hobj => (by cases hobj), nofun, nofun, rfl⟩
  · cases l with
    | loop l => exact hinv.run hok hs
    | launch addr fd b₁ b₂ b₃ sqe =>
      simp only [machine, step, Option.ite_none_right_eq_some] at hs
      exact hinv.launch hok.1 hs.1.2 hs.1.1 hok.2 hs.2
    | disconnect =>
      simp only [machine, step, Option.ite_none_right_eq_some, Option.some.injEq] at hs
      exact hs.2 ▸ hinv.queue hs.1 _
    | stop =>
      simp only [machine, step, Option.ite_none_right_eq_some, Option.some.injEq] at hs
      exact hs.2 ▸ hinv.queue hs.1 _
    | task sqe => exact (hinv.task hs).1
    | destruct =>
      simp only [machine, step, Option.ite_none_right_eq_some, Option.some.injEq] at hs
      exact hs.2 ▸ hinv.destruct hok.1 hok.2.1 hok.2.2

/-- **A client knows its connection.** In every run of a client on a shared loop that launches a
connection only when `connection_` is null and is destroyed only when it is done: no code of a
destroyed client runs; between two handlers `connection_` is null or points at a connection of
the client that is there and open; every open connection of the client is the one it points at;
and the task of `Disconnect` or `Stop` touches no memory that is gone, and leaves no connection
of the client open. -/
theorem disconnect_closes (h : machine.Reachable Careful s) :
    s.dangling = false ∧
    (∀ a, s.connection = some a → s.loop.stack = [] → ∃ obj, s.loop.heap a = some obj ∧
      obj.owner ∈ s.launched ∧ obj.conn.state ≠ .kDisconnected) ∧
    (∀ a obj, s.loop.heap a = some obj → obj.owner ∈ s.launched →
      obj.conn.state ≠ .kDisconnected → s.connection = some a) ∧
    ∀ sqe s', s.step (.task sqe) = some s' →
      s'.loop.fault = none ∧ s'.connection = none ∧ s'.AllClosed := by
  have hinv := inv h
  refine ⟨hinv.safe, ?_, hinv.sole, fun sqe s' hs => (hinv.task hs).2⟩
  intro a ha hidle
  rcases hinv.pointer a ha with ⟨o, ho, obj, hobj, rfl, -, hclosed⟩
  refine ⟨obj, hobj, ho, fun hst => ?_⟩
  rcases hclosed hst with ⟨f, hf, -⟩
  rw [hidle] at hf
  cases hf

/-- A single connection is launched, and the client is not destroyed. -/
def Once (s : Client) : Label → Prop
  | .loop l => s.loop.Single l
  | .launch _ _ _ _ _ _ => s.connection = none ∧ s.loop.created = 0
  | .destruct => False
  | .disconnect | .stop | .task _ => True

instance (s : Client) : ∀ l, Decidable (s.Once l)
  | .loop l => inferInstanceAs (Decidable (s.loop.Single l))
  | .launch _ _ _ _ _ _ => inferInstanceAs (Decidable (_ ∧ _))
  | .destruct => inferInstanceAs (Decidable False)
  | .disconnect | .stop | .task _ => inferInstanceAs (Decidable True)

theorem careful_of_once (h : machine.Reachable Once s) : machine.Reachable Careful s := by
  induction h with
  | init h0 => exact .init h0
  | @step s s' l _ hok hs ih =>
    -- before the first connection the heap is empty
    have hempty : s.loop.created = 0 → ∀ a obj, s.loop.heap a ≠ some obj := by
      intro hzero a obj hobj
      have hlt := (EventManager.owned (inv ih).reach).lt a obj hobj
      omega
    refine ih.step l ?_ hs
    cases l with
    | loop l =>
      cases l with
      | insert addr fd b₁ b₂ b₃ hwm b₄ => exact fun a obj hobj => absurd hobj (hempty hok a obj)
      | _ => trivial
    | launch addr fd b₁ b₂ b₃ sqe =>
      exact ⟨hok.1, fun a obj hobj => absurd hobj (hempty hok.2 a obj)⟩
    | destruct => cases hok
    | disconnect | stop | task sqe => trivial

/-- The theorem at a client that has launched a connection and queued a `Disconnect`. -/
theorem disconnect_closes_once :
    ∃ s s' : Client, machine.Reachable Careful s ∧ s.connection = some 1 ∧
      (s.loop.heap 1).map (fun obj => obj.conn.state) = some .kConnected ∧
      s.step (.task true) = some s' ∧ s'.AllClosed := by
  rcases machine.exists_of_run Once (s := start) rfl
    [.launch 1 7 true true true true, .loop (.ret true), .disconnect]
    (fun s => s.connection = some 1 ∧
      (s.loop.heap 1).map (fun obj => obj.conn.state) = some .kConnected ∧
      (s.step (.task true)).isSome) (by decide +kernel) with ⟨s, hs, hconn, hst, htask⟩
  rcases Option.isSome_iff_exists.mp htask with ⟨s', hs'⟩
  have hreach := careful_of_once hs
  exact ⟨s, s', hreach, hconn, hst, hs', ((disconnect_closes hreach).2.2.2 true s' hs').2.2⟩

/-- A second `Connect` makes the client forget its first connection, and `Disconnect` leaves
that one open. -/
theorem second_connect_forgets :
    ∃ s : Client, machine.Reachable (fun _ _ => True) s ∧ s.launched = [0, 1] ∧ s.tasks = [] ∧
      s.connection = none ∧
      (s.loop.heap 1).map (fun obj => (obj.owner, obj.conn.state)) = some (0, .kConnected) ∧
      (s.loop.heap 2).map (fun obj => (obj.owner, obj.conn.state)) = some (1, .kDisconnected) :=
  machine.exists_of_run (fun _ _ => True) (s := start) rfl
    [.launch 1 7 true true true true, .loop (.ret true), .launch 2 8 true true true true,
      .loop (.ret true), .disconnect, .task true] _ (by decide +kernel)

end Client

end Taotu
