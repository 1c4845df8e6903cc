import Taotu.EventLoop.Reaping

/-!
# Taotu.EventLoop.Shutdown — how an event loop ends (`EventManager::Start`)

When the main loop has been left, every connection is closed by force, and a second
loop polls, runs the active eventers and destroys closed connections until there are
none. Tasks of the timer are not run any more.

A connector that waits for its socket is one of the eventers. If the socket becomes
writable in the second loop, the connection that is inserted then is not among those
that were closed, and the loop waits for it for ever (`drain_waits_for_new_connection`).

1. **Model layer.** The machine of `Taotu.EventLoop.EventManager` with the phases of
   `Start` and the sockets of waiting connectors.
2. **Safety.** If no connector succeeds after the main loop (`Settled`), every connection
   is closed when the second loop begins, so by the counting of
   `Taotu.EventLoop.Reaping` none is left after 1001 passes.
3. **Progress.** The loop never waits for anything but its handlers. So it ends, with
   nothing left (`drain_ends`).

**Ghosts.** `inserted` are the descriptors that have been entered in `connection_map_`, to
go through the map. `passes` counts the passes of the second loop.
-/

namespace Taotu

open Lib

namespace EventManager

variable {s s' : EventManager} {l : Label}

/-! ## What a pass leaves in `closed_fds_` -/

theorem destroy_closedFds (s : EventManager) (a : ℕ) : (s.destroy a).closedFds = s.closedFds := by
  unfold destroy
  split <;> rfl

theorem nodup_deletes {outs : List Output} {fds : List ℕ} (h : fds.Nodup) :
    (outs.foldl deleteConnection fds).Nodup := by
  induction outs generalizing fds with
  | nil => exact h
  | cons o outs ih =>
    apply ih
    cases o with
    | deleteConnection fd =>
      show (if fd ∈ fds then fds else fds ++ [fd]).Nodup
      split
      · exact h
      · next hnew =>
        rw [List.nodup_append]
        refine ⟨h, List.nodup_singleton _, ?_⟩
        intro x hx y hy heq
        rw [heq, List.mem_singleton.mp hy] at hx
        exact hnew hx
    | _ => exact h

theorem destroyAll_sublist (s : EventManager) (fds : List ℕ) : (destroyAll s fds).2.Sublist fds := by
  induction fds generalizing s with
  | nil => exact List.Sublist.refl _
  | cons fd fds ih =>
    show (if (s.destroyClosed fd).2 then fd :: _ else _).Sublist _
    split
    · exact (ih _).cons_cons fd
    · exact (ih _).cons fd

theorem closedFds_nodup {ok : EventManager → Label → Prop} (h : machine.Reachable ok s) :
    s.closedFds.Nodup := by
  refine invariant (fun s => s.closedFds.Nodup) List.nodup_nil (fun s e hs => hs) ?_ h
  intro s l s' _ hs _ hp
  cases hp with
  | insert addr fd b₁ b₂ b₃ hwm b₄ c free hc =>
    unfold insertNewConnection
    dsimp only
    split
    · rw [destroy_closedFds]
      exact hs
    · exact hs
  | call | ret | readComplete | writeComplete => exact nodup_deletes hs
  | unheard | repeated | other => exact hs
  | destroyClosed => exact hs.sublist (destroyAll_sublist s s.closedFds)

theorem destroyClosed_map {fd fd' : ℕ} (hne : fd' ≠ fd) :
    (s.destroyClosed fd).1.connectionMap fd' = s.connectionMap fd' := by
  have hhandled := s.destroyClosed_handled fd
  generalize s.destroyClosed fd = r at hhandled ⊢
  cases hhandled with
  | skipped => rfl
  | waited => rfl
  | removed a obj =>
    rw [remove_connectionMap, Function.update_of_ne hne]

theorem destroyAll_map {fds : List ℕ} {fd' : ℕ} (h : fd' ∉ fds) :
    (destroyAll s fds).1.connectionMap fd' = s.connectionMap fd' := by
  induction fds generalizing s with
  | nil => rfl
  | cons fd fds ih =>
    rw [List.mem_cons, not_or] at h
    exact (ih h.2).trans (destroyClosed_map h.1)

/-- A descriptor that remains after a pass has its connection in the map. -/
theorem destroyAll_rest {fds : List ℕ} (h : fds.Nodup) :
    ∀ fd ∈ (destroyAll s fds).2, (destroyAll s fds).1.connectionMap fd ≠ none := by
  induction fds generalizing s with
  | nil => exact List.forall_mem_nil _
  | cons fd fds ih =>
    rw [List.nodup_cons] at h
    intro fd' hfd'
    have hhandled := s.destroyClosed_handled fd
    have hstays : (destroyAll s (fd :: fds)).1.connectionMap fd =
        (s.destroyClosed fd).1.connectionMap fd := destroyAll_map h.1
    change fd' ∈ (if (s.destroyClosed fd).2 then fd :: _ else _) at hfd'
    split at hfd'
    · next hflag =>
      rcases List.mem_cons.mp hfd' with rfl | htail
      · rw [hstays]
        generalize s.destroyClosed fd' = r at hhandled hflag ⊢
        cases hhandled with
        | skipped => cases hflag
        | waited a obj hmap =>
          rw [hmap]
          exact Option.some_ne_none a
        | removed => cases hflag
      · exact ih h.2 fd' htail
    · exact ih h.2 fd' hfd'

theorem destroyAll_stack (s : EventManager) (fds : List ℕ) : (destroyAll s fds).1.stack = s.stack := by
  induction fds generalizing s with
  | nil => rfl
  | cons fd fds ih =>
    refine (ih _).trans ?_
    have hhandled := s.destroyClosed_handled fd
    generalize s.destroyClosed fd = r at hhandled ⊢
    cases hhandled with
    | skipped => rfl
    | waited => rfl
    | removed a obj =>
      unfold remove destroy
      split <;> rfl

/-- After a pass no handler runs, and what is listed is in the map. -/
theorem pass_rest (hnodup : s.closedFds.Nodup) (hs : s.step .destroyClosed = some s') :
    s'.stack = [] ∧ ∀ fd ∈ s'.closedFds, s'.connectionMap fd ≠ none := by
  rcases step_performed hs with ⟨hidle, hp | ⟨e, hp, -⟩⟩
  · cases hp
    exact ⟨(destroyAll_stack s s.closedFds).trans hidle, destroyAll_rest hnodup⟩
  · cases hp

/-! ## All connections -/

/-- All connections are closed, and have been waited for in `n` passes. -/
def AllWaited (n : ℕ) (s : EventManager) : Prop :=
  ∀ a obj, s.heap a = some obj → obj.conn.isDisconnected = true ∧ n ≤ obj.conn.pendingIoRetries

theorem Moved.created_eq (hm : s.Moved l s') (hl : ∀ addr fd b₁ b₂ b₃ hwm b₄,
    l ≠ .insert addr fd b₁ b₂ b₃ hwm b₄) : s'.created = s.created := by
  cases hm with
  | turn _ _ _ _ created => exact created
  | insert addr fd b₁ b₂ b₃ hwm b₄ c label => exact absurd label (hl addr fd b₁ b₂ b₃ hwm b₄)
  | pass _ _ created => exact created

/-- Nothing but an insertion makes a new entry. -/
theorem Moved.map_sub (h : s.Mapped) (hm : s.Moved l s') (hl : ∀ addr fd b₁ b₂ b₃ hwm b₄,
    l ≠ .insert addr fd b₁ b₂ b₃ hwm b₄) {fd a : ℕ} (hmap : s'.connectionMap fd = some a) :
    s.connectionMap fd = some a := by
  cases hm with
  | turn _ _ map => exact map ▸ hmap
  | insert addr fd b₁ b₂ b₃ hwm b₄ c label => exact absurd label (hl addr fd b₁ b₂ b₃ hwm b₄)
  | pass _ mapped _ _ aging =>
    rcases mapped.entry fd a hmap with ⟨obj', hobj', hfd⟩
    rcases aging.stays a obj' hobj' with ⟨obj, hobj, haged, -⟩
    rw [← hfd, haged.fd]
    exact h.mapped a obj hobj

theorem AllWaited.moved {n : ℕ} (ho' : s'.Owned) (h : s.AllWaited n) (hm : s.Moved l s')
    (hl : ∀ addr fd b₁ b₂ b₃ hwm b₄, l ≠ .insert addr fd b₁ b₂ b₃ hwm b₄) :
    s'.AllWaited n ∧ (l = .destroyClosed → s'.AllWaited (n + 1)) := by
  have hw : s.Waited (· < s.created) n := ⟨fun _ ho => ho, fun a obj hobj _ => h a obj hobj⟩
  have hcovers : ∀ a obj, s'.heap a = some obj → obj.owner < s.created := by
    intro a obj hobj
    rw [← hm.created_eq hl]
    exact ho'.lt a obj hobj
  rcases hw.moved hm with ⟨hsame, hnext⟩
  constructor
  · intro a obj hobj
    exact hsame.2 a obj hobj (hcovers a obj hobj)
  · intro hpass a obj hobj
    exact (hnext hpass).2 a obj hobj (hcovers a obj hobj)

/-- After 1001 passes nothing is left. -/
theorem AllWaited.gone (h : s.AllWaited 1001) (hm : s.Mapped) (fd : ℕ) : s.connectionMap fd = none := by
  by_contra hne
  rcases Option.ne_none_iff_exists'.mp hne with ⟨a, ha⟩
  rcases hm.entry fd a ha with ⟨obj, hobj, -⟩
  have hwaited := (h a obj hobj).2
  have hpatient := hm.patient a obj hobj
  rw [kMaxPendingIoRetries] at hpatient
  omega

/-- `ForceClose` leaves a closed connection. -/
theorem step_forceClose {a : ℕ} {sqe : Bool} (hs : s.step (.call a .forceClose sqe) = some s')
    {obj : Object} (hobj : s'.heap a = some obj) : obj.conn.isDisconnected = true := by
  rcases step_performed hs with ⟨hen, hp | ⟨e, hp, -⟩⟩
  · cases perform_ok hen hp with
    | call _ _ _ obj₀ t hobj₀ ht =>
      rw [show (s.take a obj₀.owner sqe t).heap = Function.update s.heap a (some ⟨obj₀.owner, t.conn⟩)
        from rfl, Function.update_self] at hobj
      cases hobj
      cases ht
      exact decide_eq_true (Connecting.forceClose_closed obj₀.conn)
  · unfold perform at hp
    dsimp only at hp
    split at hp
    · cases hp
    · cases hp

end EventManager

/-! ## Model layer -/

inductive Shutdown.Phase where
  | running
  /-- The connections at these addresses have yet to be closed. -/
  | closing (todo : List ℕ)
  /-- The second loop, at its head or in its body. -/
  | draining (polling : Bool)
  | ended
deriving DecidableEq, Repr

structure Shutdown where
  loop : EventManager
  phase : Shutdown.Phase
  connecting : List ℕ
  inserted : List ℕ
  passes : ℕ

namespace Shutdown

inductive Label where
  /-- What a handler does, or a task of the timer. -/
  | handler (l : EventManager.Label)
  /-- A task of the timer inserts a connection. -/
  | insert (addr fd : ℕ) (onConnection onMessage writeComplete : Bool) (highWaterMark : Option ℕ)
      (close : Bool)
  /-- A task of the timer starts to connect. -/
  | connect (fd : ℕ)
  /-- `Connector::DoWriting` finds its socket connected, and launches the connection. -/
  | connected (addr fd : ℕ) (onConnection onMessage writeComplete : Bool)
      (highWaterMark : Option ℕ) (close sqe : Bool)
  /-- The attempt has failed, or it is given up. -/
  | failed (fd : ℕ)
  | leave
  | forceClose (sqe : Bool)
  | drain
  | check
  | pass
deriving DecidableEq, Repr

/-- Events are waited for, and eventers are run. -/
def Polls (s : Shutdown) : Prop := s.phase = .running ∨ s.phase = .draining true

/-- What may happen by itself: calls from outside come from tasks. -/
def Allows (s : Shutdown) : EventManager.Label → Prop
  | .insert _ _ _ _ _ _ _ | .destroyClosed => False
  | .call _ _ _ => s.phase = .running ∨ s.loop.stack ≠ []
  | .ret _ => True
  | .cqe _ _ _ _ _ | .other _ => s.Polls

/-- `connection_map_` and `closed_fds_` are empty. -/
def Empty (s : Shutdown) : Prop :=
  (∀ fd ∈ s.inserted, s.loop.connectionMap fd = none) ∧ s.loop.closedFds = []

/-- A step of the loop. -/
def act (s : Shutdown) (l : EventManager.Label) : Option Shutdown :=
  (s.loop.step l).map fun loop => { s with loop := loop }

/-- `InsertNewConnection` for an open descriptor, which no connection has. -/
def insertNewConnection (s : Shutdown) (addr fd : ℕ) (b₁ b₂ b₃ : Bool) (hwm : Option ℕ) (b₄ : Bool) :
    Option Shutdown :=
  if s.loop.connectionMap fd = none then
    (s.act (.insert addr fd b₁ b₂ b₃ hwm b₄)).map fun s =>
      { s with inserted := s.inserted.insert fd }
  else none

instance (s : Shutdown) : Decidable s.Polls := inferInstanceAs (Decidable (_ ∨ _))

instance (s : Shutdown) : ∀ l, Decidable (s.Allows l)
  | .insert _ _ _ _ _ _ _ | .destroyClosed => inferInstanceAs (Decidable False)
  | .call _ _ _ => inferInstanceAs (Decidable (_ ∨ _ ≠ _))
  | .ret _ => inferInstanceAs (Decidable True)
  | .cqe _ _ _ _ _ | .other _ => inferInstanceAs (Decidable s.Polls)

instance (s : Shutdown) : Decidable s.Empty :=
  inferInstanceAs (Decidable ((∀ fd ∈ s.inserted, _) ∧ _))

/-- The connections that are closed by force. -/
def connectionsToClose (s : Shutdown) : List ℕ := s.inserted.filterMap s.loop.connectionMap

def step (s : Shutdown) : Label → Option Shutdown
  | .handler l => if s.Allows l then s.act l else none
  | .insert addr fd b₁ b₂ b₃ hwm b₄ =>
    if s.phase = .running then s.insertNewConnection addr fd b₁ b₂ b₃ hwm b₄ else none
  | .connect fd =>
    if s.phase = .running then some { s with connecting := fd :: s.connecting } else none
  | .connected addr fd b₁ b₂ b₃ hwm b₄ sqe =>
    if s.Polls ∧ s.loop.stack = [] ∧ fd ∈ s.connecting then
      match s.insertNewConnection addr fd b₁ b₂ b₃ hwm b₄ with
      | none => none
      | some s => { s with connecting := s.connecting.erase fd }.act (.call addr .onEstablishing sqe)
    else none
  | .failed fd =>
    if s.Polls then some { s with connecting := s.connecting.erase fd } else none
  | .leave =>
    if s.phase = .running ∧ s.loop.stack = [] then
      some { s with phase := .closing s.connectionsToClose }
    else none
  | .forceClose sqe =>
    match s.phase with
    | .closing (a :: todo) =>
      if s.loop.stack = [] then { s with phase := .closing todo }.act (.call a .forceClose sqe)
      else none
    | _ => none
  | .drain =>
    if s.phase = .closing [] ∧ s.loop.stack = [] then some { s with phase := .draining false }
    else none
  | .check =>
    if s.phase = .draining false then
      some { s with phase := if s.Empty then .ended else .draining true }
    else none
  | .pass =>
    match s.phase with
    | .running => s.act .destroyClosed
    | .draining true =>
      { s with phase := .draining false, passes := s.passes + 1 }.act .destroyClosed
    | _ => none

def start : Shutdown := ⟨.start, .running, [], [], 0⟩

def machine : Machine Shutdown Label := ⟨fun s => s = start, step⟩

/-- No connector succeeds after the main loop has been left. -/
def Settled (s : Shutdown) : Label → Prop
  | .connected _ _ _ _ _ _ _ _ => s.phase = .running
  | _ => True

instance (s : Shutdown) : ∀ l, Decidable (s.Settled l)
  | .connected _ _ _ _ _ _ _ _ => inferInstanceAs (Decidable (_ = _))
  | .handler _ | .insert _ _ _ _ _ _ _ | .connect _ | .failed _ | .leave | .forceClose _ | .drain
  | .check | .pass => inferInstanceAs (Decidable True)

/-! ## What a step can do -/

variable {s s' : Shutdown}

/-- The steps that are enabled. -/
inductive Taken (s : Shutdown) : Label → Shutdown → Prop where
  | handler (l : EventManager.Label) (s' : Shutdown) (allowed : s.Allows l) (act : s.act l = some s') :
      Taken s (.handler l) s'
  | insert (addr fd : ℕ) (b₁ b₂ b₃ : Bool) (hwm : Option ℕ) (b₄ : Bool) (s' : Shutdown)
      (running : s.phase = .running) (inserted : s.insertNewConnection addr fd b₁ b₂ b₃ hwm b₄ = some s') :
      Taken s (.insert addr fd b₁ b₂ b₃ hwm b₄) s'
  | connect (fd : ℕ) : Taken s (.connect fd) { s with connecting := fd :: s.connecting }
  | connected (addr fd : ℕ) (b₁ b₂ b₃ : Bool) (hwm : Option ℕ) (b₄ sqe : Bool) (s₁ s' : Shutdown)
      (inserted : s.insertNewConnection addr fd b₁ b₂ b₃ hwm b₄ = some s₁)
      (act : { s₁ with connecting := s₁.connecting.erase fd }.act (.call addr .onEstablishing sqe) =
        some s') : Taken s (.connected addr fd b₁ b₂ b₃ hwm b₄ sqe) s'
  | failed (fd : ℕ) : Taken s (.failed fd) { s with connecting := s.connecting.erase fd }
  | leave (running : s.phase = .running) :
      Taken s .leave { s with phase := .closing s.connectionsToClose }
  | forceClose (sqe : Bool) (a : ℕ) (todo : List ℕ) (s' : Shutdown)
      (closing : s.phase = .closing (a :: todo))
      (act : { s with phase := .closing todo }.act (.call a .forceClose sqe) = some s') :
      Taken s (.forceClose sqe) s'
  | drain (closing : s.phase = .closing []) (idle : s.loop.stack = []) :
      Taken s .drain { s with phase := .draining false }
  | check (head : s.phase = .draining false) :
      Taken s .check { s with phase := if s.Empty then .ended else .draining true }
  | pass (s' : Shutdown) (running : s.phase = .running) (act : s.act .destroyClosed = some s') :
      Taken s .pass s'
  | drainPass (s' : Shutdown) (body : s.phase = .draining true)
      (act : { s with phase := .draining false, passes := s.passes + 1 }.act .destroyClosed = some s') :
      Taken s .pass s'

theorem step_taken {l : Label} (hs : s.step l = some s') : s.Taken l s' := by
  cases l with
  | handler l =>
    simp only [step, Option.ite_none_right_eq_some] at hs
    exact .handler l s' hs.1 hs.2
  | insert addr fd b₁ b₂ b₃ hwm b₄ =>
    simp only [step, Option.ite_none_right_eq_some] at hs
    exact .insert addr fd b₁ b₂ b₃ hwm b₄ s' hs.1 hs.2
  | connect fd =>
    simp only [step, Option.ite_none_right_eq_some, Option.some.injEq] at hs
    rcases hs with ⟨-, rfl⟩
    exact .connect fd
  | connected addr fd b₁ b₂ b₃ hwm b₄ sqe =>
    simp only [step, Option.ite_none_right_eq_some] at hs
    rcases hs with ⟨-, hs⟩
    split at hs
    · cases hs
    · next s₁ hins => exact .connected addr fd b₁ b₂ b₃ hwm b₄ sqe s₁ s' hins hs
  | failed fd =>
    simp only [step, Option.ite_none_right_eq_some, Option.some.injEq] at hs
    rcases hs with ⟨-, rfl⟩
    exact .failed fd
  | leave =>
    simp only [step, Option.ite_none_right_eq_some, Option.some.injEq] at hs
    rcases hs with ⟨hleave, rfl⟩
    exact .leave hleave.1
  | forceClose sqe =>
    simp only [step] at hs
    split at hs
    · next a todo hclosing =>
      rw [Option.ite_none_right_eq_some] at hs
      exact .forceClose sqe a todo s' hclosing hs.2
    · cases hs
  | drain =>
    simp only [step, Option.ite_none_right_eq_some, Option.some.injEq] at hs
    rcases hs with ⟨⟨hclosing, hidle⟩, rfl⟩
    exact .drain hclosing hidle
  | check =>
    simp only [step, Option.ite_none_right_eq_some, Option.some.injEq] at hs
    rcases hs with ⟨hhead, rfl⟩
    exact .check hhead
  | pass =>
    simp only [step] at hs
    split at hs
    · next hrun => exact .pass s' hrun hs
    · next hbody => exact .drainPass s' hbody hs
    · cases hs

/-! ## Safety -/

/-- What is known in each phase of the loop. -/
inductive PhaseOk (loop : EventManager) (inserted : List ℕ) (passes : ℕ) : Phase → Prop where
  | running (none : passes = 0) : PhaseOk loop inserted passes .running
  | closing {todo : List ℕ} (none : passes = 0) (live : ∀ a ∈ todo, (loop.heap a).isSome = true)
      (rest : ∀ a obj, loop.heap a = some obj → obj.conn.isDisconnected = true ∨ a ∈ todo) :
      PhaseOk loop inserted passes (.closing todo)
  | head (few : passes ≤ 1001) (waited : loop.AllWaited passes) (idle : loop.stack = [])
      (listed : 0 < passes → ∀ fd ∈ loop.closedFds, loop.connectionMap fd ≠ Option.none) :
      PhaseOk loop inserted passes (.draining false)
  | body (few : passes ≤ 1000) (waited : loop.AllWaited passes) :
      PhaseOk loop inserted passes (.draining true)
  | ended (few : passes ≤ 1001) (idle : loop.stack = [])
      (map : ∀ fd ∈ inserted, loop.connectionMap fd = Option.none) (closed : loop.closedFds = []) :
      PhaseOk loop inserted passes .ended

structure Inv (s : Shutdown) : Prop where
  reach : EventManager.machine.Reachable EventManager.FreshFd s.loop
  support : ∀ fd a, s.loop.connectionMap fd = some a → fd ∈ s.inserted
  phase : PhaseOk s.loop s.inserted s.passes s.phase

def Inserts : EventManager.Label → Prop
  | .insert _ _ _ _ _ _ _ => True
  | _ => False

theorem Inv.mapped (h : s.Inv) : s.loop.Mapped := (EventManager.booked h.reach).toMapped

/-- A step of the loop that inserts nothing. -/
theorem Inv.moved (h : s.Inv) {l : EventManager.Label} {loop : EventManager} (hl : ¬ Inserts l)
    (hs : s.loop.step l = some loop) :
    EventManager.machine.Reachable EventManager.FreshFd loop ∧ s.loop.Moved l loop ∧
      ∀ fd a, loop.connectionMap fd = some a → fd ∈ s.inserted := by
  have hfresh : s.loop.FreshFd l := by
    cases l with
    | insert => exact absurd trivial hl
    | _ => trivial
  have hmoved := EventManager.moved_of_reachable h.reach hfresh hs
  refine ⟨.step l h.reach hfresh hs, hmoved, ?_⟩
  intro fd a hmap
  apply h.support fd a
  apply hmoved.map_sub h.mapped _ hmap
  rintro addr fd' b₁ b₂ b₃ hwm b₄ rfl
  exact hl trivial

/-- A handler keeps the phase. -/
theorem PhaseOk.turn {loop loop' : EventManager} {inserted : List ℕ} {passes : ℕ} {ph : Phase}
    {l : EventManager.Label} (h : PhaseOk loop inserted passes ph)
    (ho : loop'.Owned) (hm : loop.Moved l loop') (hl : ¬ Inserts l) (hpass : l ≠ .destroyClosed)
    (hbusy : ph ≠ .draining false ∧ ph ≠ .ended) : PhaseOk loop' inserted passes ph := by
  have hnoinsert : ∀ addr fd b₁ b₂ b₃ hwm b₄, l ≠ .insert addr fd b₁ b₂ b₃ hwm b₄ := by
    rintro addr fd' b₁ b₂ b₃ hwm b₄ rfl
    exact hl trivial
  cases h with
  | running none => exact .running none
  | closing none live rest =>
    cases hm with
    | turn _ heap =>
      refine .closing none ?_ ?_
      · intro a ha
        rcases Option.isSome_iff_exists.mp (live a ha) with ⟨obj, hobj⟩
        rcases rel_some_left (hobj ▸ heap a) with ⟨obj', hobj', -⟩
        exact Option.isSome_iff_exists.mpr ⟨obj', hobj'⟩
      · intro a obj' hobj'
        rcases rel_some_right (hobj' ▸ heap a) with ⟨obj, hobj, honward⟩
        exact (rest a obj hobj).imp_left honward.closed
    | insert addr fd b₁ b₂ b₃ hwm b₄ c label => exact absurd label (hnoinsert addr fd b₁ b₂ b₃ hwm b₄)
    | pass label => exact absurd label hpass
  | head => exact absurd rfl hbusy.1
  | body few waited => exact .body few (waited.moved ho hm hnoinsert).1
  | ended => exact absurd rfl hbusy.2

theorem act_eq_some {l : EventManager.Label} :
    s.act l = some s' ↔ ∃ loop, s.loop.step l = some loop ∧ { s with loop := loop } = s' :=
  Option.map_eq_some_iff

/-- In the phases without handlers nothing may happen by itself. -/
theorem Inv.busy (h : s.Inv) {l : EventManager.Label} {loop : EventManager} (hallow : s.Allows l)
    (hs : s.loop.step l = some loop) : s.phase ≠ .draining false ∧ s.phase ≠ .ended := by
  have hquiet : s.phase ≠ .running → ¬ s.Polls → s.loop.stack = [] → False := by
    intro hrun hpolls hidle
    have hen := (EventManager.step_performed hs).1
    cases l with
    | insert | destroyClosed => exact hallow
    | call a act sqe => exact hallow.elim hrun fun hstack => hstack hidle
    | ret sqe => exact hen hidle
    | cqe | other => exact hpolls hallow
  have hphase := h.phase
  constructor
  · intro hph
    rw [hph] at hphase
    cases hphase with
    | head few waited idle listed => exact hquiet (by simp [hph]) (by simp [Polls, hph]) idle
  · intro hph
    rw [hph] at hphase
    cases hphase with
    | ended few idle map closed => exact hquiet (by simp [hph]) (by simp [Polls, hph]) idle

theorem Inv.handler (h : s.Inv) {l : EventManager.Label} (hallow : s.Allows l)
    (hs : s.act l = some s') : s'.Inv := by
  rcases act_eq_some.mp hs with ⟨loop, hloop, rfl⟩
  have hl : ¬ Inserts l ∧ l ≠ .destroyClosed := by
    cases l with
    | insert | destroyClosed => exact hallow.elim
    | _ => exact ⟨id, by simp⟩
  rcases h.moved hl.1 hloop with ⟨hreach, hmoved, hsupport⟩
  exact ⟨hreach, hsupport, h.phase.turn (EventManager.owned hreach) hmoved hl.1 hl.2
    (h.busy hallow hloop)⟩

theorem Inv.insertNewConnection (h : s.Inv) (hrun : s.phase = .running) {addr fd : ℕ}
    {b₁ b₂ b₃ b₄ : Bool} {hwm : Option ℕ}
    (hs : s.insertNewConnection addr fd b₁ b₂ b₃ hwm b₄ = some s') :
    s'.Inv ∧ s'.phase = .running := by
  simp only [Shutdown.insertNewConnection, Option.ite_none_right_eq_some] at hs
  rcases hs with ⟨hnone, hs⟩
  rcases Option.map_eq_some_iff.mp hs with ⟨s₁, hs₁, rfl⟩
  rcases act_eq_some.mp hs₁ with ⟨loop, hloop, rfl⟩
  have hfresh : s.loop.FreshFd (.insert addr fd b₁ b₂ b₃ hwm b₄) := by
    intro a obj hobj hfd
    have hmap := h.mapped.mapped a obj hobj
    rw [hfd, hnone] at hmap
    cases hmap
  refine ⟨⟨.step _ h.reach hfresh hloop, ?_, ?_⟩, hrun⟩
  · intro fd' a hmap
    apply List.mem_insert_iff.mpr
    cases EventManager.moved_of_reachable h.reach hfresh hloop with
    | turn _ _ map => exact .inr (h.support fd' a (map ▸ hmap))
    | insert _ _ _ _ _ _ _ _ label _ _ _ _ _ map =>
      cases label
      change loop.connectionMap fd' = some a at hmap
      rw [map] at hmap
      rcases enter_eq_some.mp hmap with ⟨rfl, -⟩ | ⟨-, hold⟩
      · exact .inl rfl
      · exact .inr (h.support fd' a hold)
    | pass label => cases label
  · have hphase := h.phase
    show PhaseOk _ _ s.passes s.phase
    rw [hrun] at hphase ⊢
    cases hphase with
    | running none => exact .running none

theorem Inv.leave (h : s.Inv) (hrun : s.phase = .running) :
    Inv { s with phase := .closing s.connectionsToClose } := by
  have hphase := h.phase
  rw [hrun] at hphase
  cases hphase with
  | running none =>
    refine ⟨h.reach, h.support, .closing none ?_ ?_⟩
    · intro a ha
      rcases List.mem_filterMap.mp ha with ⟨fd, -, hmap⟩
      rcases h.mapped.entry fd a hmap with ⟨obj, hobj, -⟩
      exact Option.isSome_iff_exists.mpr ⟨obj, hobj⟩
    · intro a obj hobj
      have hmap := h.mapped.mapped a obj hobj
      exact .inr (List.mem_filterMap.mpr ⟨obj.conn.fd, h.support _ a hmap, hmap⟩)

theorem Inv.forceClose (h : s.Inv) {a : ℕ} {todo : List ℕ} {sqe : Bool}
    (hclosing : s.phase = .closing (a :: todo))
    (hs : { s with phase := .closing todo }.act (.call a .forceClose sqe) = some s') : s'.Inv := by
  rcases act_eq_some.mp hs with ⟨loop, hloop, rfl⟩
  have hphase := h.phase
  rw [hclosing] at hphase
  rcases h.moved (l := .call a .forceClose sqe) id hloop with ⟨hreach, hmoved, hsupport⟩
  have hnext := hphase.turn (EventManager.owned hreach) hmoved id (by simp) (by simp)
  refine ⟨hreach, hsupport, ?_⟩
  cases hnext with
  | closing none live rest =>
    refine .closing none (fun b hb => live b (List.mem_cons_of_mem _ hb)) ?_
    intro b obj hobj
    rcases rest b obj hobj with hdisc | hb
    · exact .inl hdisc
    · rcases List.mem_cons.mp hb with rfl | htodo
      · exact .inl (EventManager.step_forceClose hloop hobj)
      · exact .inr htodo

theorem Inv.drain (h : s.Inv) (hclosing : s.phase = .closing []) (hidle : s.loop.stack = []) :
    Inv { s with phase := .draining false } := by
  have hphase := h.phase
  rw [hclosing] at hphase
  cases hphase with
  | closing none _ rest =>
    refine ⟨h.reach, h.support, ?_⟩
    show PhaseOk s.loop s.inserted s.passes (.draining false)
    refine .head (by omega) ?_ hidle (by omega)
    intro a obj hobj
    rw [none]
    exact ⟨(rest a obj hobj).resolve_right (List.not_mem_nil), Nat.zero_le _⟩

/-- At the head of the loop, after 1001 passes everything is empty. -/
theorem Inv.check (h : s.Inv) (hhead : s.phase = .draining false) :
    Inv { s with phase := if s.Empty then .ended else .draining true } := by
  have hphase := h.phase
  rw [hhead] at hphase
  cases hphase with
  | head few waited idle listed =>
    refine ⟨h.reach, h.support, ?_⟩
    show PhaseOk s.loop s.inserted s.passes (if s.Empty then .ended else .draining true)
    split
    · next hempty => exact .ended few idle hempty.1 hempty.2
    · next hfull =>
      refine .body ?_ waited
      by_contra hmany
      have hpasses : s.passes = 1001 := by omega
      rw [hpasses] at waited
      have hgone := waited.gone h.mapped
      refine hfull ⟨fun fd _ => hgone fd, ?_⟩
      rw [List.eq_nil_iff_forall_not_mem]
      intro fd hfd
      exact listed (by omega) fd hfd (hgone fd)

theorem Inv.pass_running (h : s.Inv) (hrun : s.phase = .running)
    (hs : s.act .destroyClosed = some s') : s'.Inv := by
  rcases act_eq_some.mp hs with ⟨loop, hloop, rfl⟩
  rcases h.moved (l := .destroyClosed) id hloop with ⟨hreach, -, hsupport⟩
  have hphase := h.phase
  refine ⟨hreach, hsupport, ?_⟩
  show PhaseOk loop s.inserted s.passes s.phase
  rw [hrun] at hphase ⊢
  cases hphase with
  | running none => exact .running none

theorem Inv.pass_draining (h : s.Inv) (hbody : s.phase = .draining true)
    (hs : { s with phase := .draining false, passes := s.passes + 1 }.act .destroyClosed = some s') :
    s'.Inv := by
  rcases act_eq_some.mp hs with ⟨loop, hloop, rfl⟩
  rcases h.moved (l := .destroyClosed) id hloop with ⟨hreach, hmoved, hsupport⟩
  have hphase := h.phase
  rw [hbody] at hphase
  cases hphase with
  | body few waited =>
    rcases EventManager.pass_rest (EventManager.closedFds_nodup h.reach) hloop with ⟨hidle, hlisted⟩
    have hnext := (waited.moved (EventManager.owned hreach) hmoved (by simp)).2 rfl
    exact ⟨hreach, hsupport, .head (Nat.succ_le_succ few) hnext hidle fun _ => hlisted⟩

/-- What one step preserves, if no connector succeeds late. -/
theorem Inv.step (h : s.Inv) {l : Label} (hok : s.Settled l) (hs : s.step l = some s') : s'.Inv := by
  cases step_taken hs with
  | handler l s' allowed act => exact h.handler allowed act
  | insert _ _ _ _ _ _ _ s' running inserted => exact (h.insertNewConnection running inserted).1
  | connect | failed => exact ⟨h.reach, h.support, h.phase⟩
  | connected addr fd b₁ b₂ b₃ hwm b₄ sqe s₁ s' inserted act =>
    rcases h.insertNewConnection hok inserted with ⟨h₁, hrun⟩
    have h₂ : Inv { s₁ with connecting := s₁.connecting.erase fd } :=
      ⟨h₁.reach, h₁.support, h₁.phase⟩
    exact h₂.handler (l := .call addr .onEstablishing sqe) (Or.inl hrun) act
  | leave running => exact h.leave running
  | forceClose sqe a todo s' closing act => exact h.forceClose closing act
  | drain closing idle => exact h.drain closing idle
  | check head => exact h.check head
  | pass s' running act => exact h.pass_running running act
  | drainPass s' body act => exact h.pass_draining body act

theorem Inv.empty_of_ended (h : s.Inv) (hend : s.phase = .ended) :
    (∀ fd, s.loop.connectionMap fd = none) ∧ s.loop.closedFds = [] := by
  have hphase := h.phase
  rw [hend] at hphase
  cases hphase with
  | ended _ _ map closed =>
    refine ⟨?_, closed⟩
    intro fd
    by_contra hne
    rcases Option.ne_none_iff_exists'.mp hne with ⟨a, ha⟩
    exact hne (map fd (h.support fd a ha))

theorem inv_start : start.Inv := by
  refine ⟨.init rfl, ?_, .running rfl⟩
  intro fd a hmap
  cases hmap

theorem inv (h : machine.Reachable Settled s) : s.Inv := by
  apply h.invariant
  · rintro _ rfl
    exact inv_start
  · intro s l s' _ hinv hok hs
    exact hinv.step hok hs

/-! ## Progress -/

theorem step_destroyClosed {loop : EventManager} (hfault : loop.fault = none)
    (hidle : loop.stack = []) : loop.step .destroyClosed = some loop.destroyClosedConnections := by
  rw [EventManager.step, if_pos ⟨hfault, hidle⟩]
  rfl

theorem exists_forceClose {loop : EventManager} (hfault : loop.fault = none) {a : ℕ}
    (hlive : (loop.heap a).isSome = true) : ∃ loop', loop.step (.call a .forceClose true) = some loop' := by
  rw [EventManager.step, if_pos ⟨hfault, hlive⟩]
  split
  · exact ⟨_, rfl⟩
  · exact ⟨_, rfl⟩

/-- Between two handlers the loop goes on by itself. -/
theorem Inv.goes_on (h : s.Inv) (hfault : s.loop.fault = none) (hidle : s.loop.stack = [])
    (hrun : s.phase ≠ .running) (hend : s.phase ≠ .ended) :
    ∃ l ∈ [Label.forceClose true, .drain, .check, .pass], ∃ s', s.step l = some s' := by
  rcases hphase : s.phase with _ | ⟨_ | ⟨a, todo⟩⟩ | ⟨_ | _⟩ | _
  · exact absurd hphase hrun
  · exact ⟨.drain, by simp, _, if_pos ⟨hphase, hidle⟩⟩
  · have hok := h.phase
    rw [hphase] at hok
    cases hok with
    | closing _ live _ =>
      rcases exists_forceClose hfault (live a List.mem_cons_self) with ⟨loop', hloop'⟩
      refine ⟨.forceClose true, by simp, { s with phase := .closing todo, loop := loop' }, ?_⟩
      simp only [Shutdown.step, hphase, if_pos hidle]
      exact act_eq_some.mpr ⟨loop', hloop', rfl⟩
  · exact ⟨.check, by simp, _, if_pos hphase⟩
  · have hpass : s.step .pass =
        { s with phase := .draining false, passes := s.passes + 1 }.act .destroyClosed := by
      simp only [Shutdown.step, hphase]
    exact ⟨.pass, by simp, _,
      hpass.trans (act_eq_some.mpr ⟨_, step_destroyClosed hfault hidle, rfl⟩)⟩
  · exact absurd hphase hend

/-- **The loop ends.** In every run in which no connector succeeds after the main loop, the
second loop makes 1001 passes at most, waits for nothing but its handlers, and leaves
nothing in `connection_map_` and `closed_fds_`. -/
theorem drain_ends (h : machine.Reachable Settled s) :
    s.passes ≤ 1001 ∧
    (s.phase = .ended → (∀ fd, s.loop.connectionMap fd = none) ∧ s.loop.closedFds = []) ∧
    (s.loop.fault = none → s.loop.stack = [] → s.phase ≠ .running → s.phase ≠ .ended →
      ∃ l ∈ [Label.forceClose true, .drain, .check, .pass], ∃ s', s.step l = some s') := by
  have hinv := inv h
  refine ⟨?_, ?_, hinv.goes_on⟩
  · have hphase := hinv.phase
    generalize s.phase = ph at hphase
    cases hphase with
    | running none => omega
    | closing none => omega
    | head few => exact few
    | body few => omega
    | ended few => exact few
  · intro hend
    exact hinv.empty_of_ended hend

/-- A connection is open and a connector waits when the main loop is left. -/
def leaving : List Label :=
  [.insert 1 7 true true true none true, .handler (.call 1 .onEstablishing true),
    .handler (.ret true), .connect 9, .leave, .forceClose true, .handler (.ret true),
    .handler (.ret true), .drain, .check]

/-- The attempt fails, and the loop ends after one pass. -/
theorem drain_ends_after_failed_attempt :
    ∃ s, machine.Reachable Settled s ∧ s.phase = .ended ∧ s.passes = 1 ∧ s.inserted = [7] ∧
      s.loop.connectionMap 7 = none := by
  rcases machine.exists_of_run Settled (s := start) rfl (leaving ++ [.failed 9, .pass, .check])
    (fun s => s.phase = .ended ∧ s.passes = 1 ∧ s.inserted = [7]) (by decide +kernel) with
    ⟨s, hs, hend, hpasses, hinserted⟩
  exact ⟨s, hs, hend, hpasses, hinserted, ((drain_ends hs).2.1 hend).1 7⟩

/-- With an open connection, and nothing to destroy, the loop goes round. -/
theorem goes_round (h : machine.Reachable (fun _ _ => True) s) (hhead : s.phase = .draining false)
    (hfault : s.loop.fault = none) (hidle : s.loop.stack = []) (hclosed : s.loop.closedFds = [])
    (hfull : ¬ s.Empty) : machine.Reachable (fun _ _ => True) { s with passes := s.passes + 1 } := by
  have hcheck : s.step .check = some { s with phase := .draining true } := by
    rw [Shutdown.step, if_pos hhead, if_neg hfull]
  have hsame : s.loop.destroyClosedConnections = s.loop := by
    unfold EventManager.destroyClosedConnections
    rw [hclosed]
    dsimp only [EventManager.destroyAll]
    rw [← hclosed]
  refine .step .pass (.step .check h trivial hcheck) trivial ?_
  show ({ s with phase := .draining false, passes := s.passes + 1 } : Shutdown).act .destroyClosed = _
  refine act_eq_some.mpr ⟨s.loop, ?_, by rw [← hhead]⟩
  rw [step_destroyClosed hfault hidle, hsame]

/-- The attempt succeeds in the second loop: the new connection is open, and the loop makes any
number of passes. -/
theorem drain_waits_for_new_connection :
    ∃ s : Shutdown, s.phase = .draining false ∧ s.loop.connectionMap 9 = some 2 ∧
      (s.loop.heap 2).any (·.conn.state = .kConnected) = true ∧
      ∀ n, machine.Reachable (fun _ _ => True) { s with passes := s.passes + n } := by
  rcases machine.exists_of_run (fun _ _ => True) (s := start) rfl
    (leaving ++ [.connected 2 9 true true true none true true, .handler (.ret true), .pass])
    (fun s => s.phase = .draining false ∧ s.loop.connectionMap 9 = some 2 ∧
      (s.loop.heap 2).any (·.conn.state = .kConnected) = true ∧ s.loop.fault = none ∧
      s.loop.stack = [] ∧ s.loop.closedFds = [] ∧ ¬ s.Empty)
    (by decide +kernel) with ⟨s, hs, hhead, hmap, hopen, hfault, hidle, hclosed, hfull⟩
  refine ⟨s, hhead, hmap, hopen, ?_⟩
  intro n
  induction n with
  | zero => exact hs
  | succ n ih => exact goes_round ih hhead hfault hidle hclosed hfull

end Shutdown

end Taotu
