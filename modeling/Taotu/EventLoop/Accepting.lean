import Taotu.EventLoop.Shutdown

/-!
# Taotu.EventLoop.Accepting — what becomes of accepted descriptors (`acceptor.cc`,
`reactor_manager.cc`)

The acceptor belongs to the first reactor of a server. It hands every descriptor to the
reactor that the balancer picks, in a closure that is queued in that reactor's timer.
When the reactor runs the closure, a `Connecting` is made for the descriptor, which
closes it when it is destroyed.

Before that nobody owns the descriptor. It is lost if the reactor has left its main loop,
where tasks are run, or leaves it before the closure's turn; and a descriptor above
`kMaxEventAmount` is not closed at all (`accepted_descriptors_leak`).

1. **Model layer.** The reactors are machines of `Taotu.EventLoop.Shutdown`, without
   connectors. `openFds` is the table of the process; the kernel answers descriptors that
   are free in it.
2. **Safety.** Apart from these leaks (`Orderly`), every descriptor is in one place: in a
   closure, in a `Connecting` that is in the map of its reactor, or closed. When all loops
   have ended, it is closed (`accepted_descriptors_closed_once`).

**Ghosts.** `id` numbers the descriptors that were accepted. `closed` lists those that were
closed, with the `id` that the `Connecting` which did so was made for.
-/

namespace Taotu

open Lib

/-- `++cursor_` of the balancer, and back to the first reactor that does not accept. -/
def Balancer.next (evtMngNum cursor : ℕ) : ℕ := if evtMngNum ≤ cursor + 1 then 1 else cursor + 1

/-- A descriptor in a closure, or in the `Connecting` that was made from it. -/
structure Accepted where
  reactor : ℕ
  fd : ℕ
  id : ℕ
deriving DecidableEq, Repr

structure Server where
  amount : ℕ
  /-- `NewConnectionCallback_` is registered. -/
  newConnectionCallback : Bool
  reactors : ℕ → Shutdown
  cursor : ℕ
  tasks : List Accepted
  connections : List Accepted
  openFds : ℕ → Option ℕ
  accepted : ℕ
  closed : List (ℕ × Option ℕ)
  fault : Option Fault

namespace Server

/-! ## Model layer -/

def kMaxEventAmount : ℤ := 600000

/-- `PickOneEventManager`, with the strategy `kRoundRobin`. -/
def pickOneEventManager (s : Server) : ℕ := Balancer.next s.amount s.cursor

/-- `AcceptNewConnectionCallback`; there may be no reactor at the place that is picked. -/
def acceptNewConnectionCallback (fd id : ℕ) (s : Server) : Server :=
  let r := s.pickOneEventManager
  if r < s.amount then { s with cursor := r, tasks := s.tasks ++ [⟨r, fd, id⟩] }
  else { s with cursor := r, fault := some .outOfBounds }

/-- `OnAcceptComplete`; the kernel has opened the descriptor. An error opens none: with `EMFILE`
`idle_fd_` is given up to refuse one connection, and opened again. -/
def onAcceptComplete (res : ℤ) (s : Server) : Server :=
  if res < 0 then s
  else
    let fd := res.toNat
    let opened := { s with
      openFds := Function.update s.openFds fd (some s.accepted)
      accepted := s.accepted + 1 }
    if res ≤ kMaxEventAmount then
      if s.newConnectionCallback then opened.acceptNewConnectionCallback fd s.accepted
      else { opened with
        openFds := Function.update s.openFds fd none
        closed := s.closed ++ [(s.accepted, none)] }
    else
      -- treated as an error: the descriptor stays open
      opened

/-- The `Connecting` is no longer in the map of its reactor. -/
def Gone (r : ℕ) (reactor : Shutdown) (c : Accepted) : Prop :=
  c.reactor = r ∧ reactor.loop.connectionMap c.fd = none

instance (r : ℕ) (reactor : Shutdown) (c : Accepted) : Decidable (Gone r reactor c) :=
  inferInstanceAs (Decidable (_ ∧ _))

/-- A reactor makes a step. The destructor of a `Connecting` closes what is open under its
descriptor. -/
def reap (r : ℕ) (s : Server) (reactor : Shutdown) : Server :=
  let gone := s.connections.filter fun c => Gone r reactor c
  { s with
    reactors := Function.update s.reactors r reactor
    connections := s.connections.filter fun c => ¬ Gone r reactor c
    openFds := fun fd => if fd ∈ gone.map Accepted.fd then none else s.openFds fd
    closed := s.closed ++ gone.filterMap fun c => (s.openFds c.fd).map (·, some c.id) }

inductive Label where
  | accept (res : ℤ)
  /-- A reactor runs the closure with a descriptor. -/
  | runTask (task : Accepted) (addr : ℕ) (onConnection onMessage writeComplete close : Bool)
  | reactor (r : ℕ) (l : Shutdown.Label)
deriving DecidableEq, Repr

/-- What a reactor of a server does by itself. -/
def Reacts : Shutdown.Label → Prop
  | .handler _ | .leave | .forceClose _ | .drain | .check | .pass => True
  | .insert _ _ _ _ _ _ _ | .connect _ | .connected _ _ _ _ _ _ _ _ | .failed _ => False

instance : ∀ l, Decidable (Reacts l)
  | .handler _ | .leave | .forceClose _ | .drain | .check | .pass => inferInstanceAs (Decidable True)
  | .insert _ _ _ _ _ _ _ | .connect _ | .connected _ _ _ _ _ _ _ _ | .failed _ =>
    inferInstanceAs (Decidable False)

def step (s : Server) : Label → Option Server
  | .accept res =>
    if s.fault = none ∧ 0 < s.amount ∧ (s.reactors 0).Polls ∧ (s.reactors 0).loop.stack = [] ∧
        (0 ≤ res → s.openFds res.toNat = none) then
      some (s.onAcceptComplete res)
    else none
  | .runTask task addr b₁ b₂ b₃ b₄ =>
    if task ∈ s.tasks then
      ((s.reactors task.reactor).step (.insert addr task.fd b₁ b₂ b₃ none b₄)).map fun reactor =>
        { s with
          reactors := Function.update s.reactors task.reactor reactor
          tasks := s.tasks.erase task
          connections := task :: s.connections }
    else none
  | .reactor r l =>
    if r < s.amount ∧ Reacts l then ((s.reactors r).step l).map (s.reap r) else none

def start (amount : ℕ) (callback : Bool) : Server :=
  ⟨amount, callback, fun _ => .start, 0, [], [], fun _ => none, 0, [], none⟩

def machine : Machine Server Label := ⟨fun s => ∃ amount callback, s = start amount callback, step⟩

/-- A descriptor is not too large, and is handed to a reactor in its main loop, which does
not leave it with descriptors queued. -/
def Orderly (s : Server) : Label → Prop
  | .accept res => 0 ≤ res → res ≤ kMaxEventAmount ∧ (s.newConnectionCallback = true →
      2 ≤ s.amount ∧ (s.reactors s.pickOneEventManager).phase = .running)
  | .reactor r .leave => ∀ task ∈ s.tasks, task.reactor ≠ r
  | _ => True

instance (s : Server) : ∀ l, Decidable (s.Orderly l)
  | .accept _ => inferInstanceAs (Decidable (_ → _ ∧ (_ → _ ∧ _)))
  | .reactor _ .leave => inferInstanceAs (Decidable (∀ task ∈ s.tasks, _))
  | .runTask _ _ _ _ _ _ | .reactor _ (.handler _) | .reactor _ (.insert _ _ _ _ _ _ _)
  | .reactor _ (.connect _) | .reactor _ (.connected _ _ _ _ _ _ _ _) | .reactor _ (.failed _)
  | .reactor _ (.forceClose _) | .reactor _ .drain | .reactor _ .check | .reactor _ .pass =>
    inferInstanceAs (Decidable True)

end Server

/-! ## What a reactor does to its map -/

theorem EventManager.step_insert {s s' : EventManager} {addr fd : ℕ} {b₁ b₂ b₃ b₄ : Bool}
    {hwm : Option ℕ} (hnone : s.connectionMap fd = none)
    (hs : s.step (.insert addr fd b₁ b₂ b₃ hwm b₄) = some s') :
    s'.connectionMap = Function.update s.connectionMap fd (some addr) := by
  rcases step_performed hs with ⟨hen, hp | ⟨e, hp, -⟩⟩
  · cases perform_ok hen hp with
    | insert _ _ _ _ _ _ _ c free hc =>
      rw [insertNewConnection_of_none hnone]
  · have hsmall : IoBuffer.kReservedCapacity + IoBuffer.kInitialCapacity ≤ maxSize := by decide
    rcases IoBuffer.new_ok hsmall with ⟨b, hb, -⟩
    simp only [perform, Connecting.new, hb, ok_bind] at hp
    cases hp

namespace Shutdown

variable {s s' : Shutdown}

theorem step_insert {addr fd : ℕ} {b₁ b₂ b₃ b₄ : Bool} {hwm : Option ℕ}
    (hs : s.step (.insert addr fd b₁ b₂ b₃ hwm b₄) = some s') :
    s.phase = .running ∧ s'.phase = .running ∧
      ∀ fd', s'.loop.connectionMap fd' ≠ none ↔ fd' = fd ∨ s.loop.connectionMap fd' ≠ none := by
  simp only [step, insertNewConnection, Option.ite_none_right_eq_some] at hs
  rcases hs with ⟨hrun, hnone, hs⟩
  rcases Option.map_eq_some_iff.mp hs with ⟨s₁, hs₁, rfl⟩
  rcases act_eq_some.mp hs₁ with ⟨loop, hloop, rfl⟩
  refine ⟨hrun, hrun, ?_⟩
  intro fd'
  show loop.connectionMap fd' ≠ none ↔ _
  rw [EventManager.step_insert hnone hloop]
  by_cases hfd : fd' = fd
  · simp [hfd]
  · simp [hfd, Function.update_of_ne]

/-- A reactor of a server makes no entry by itself, and stays in its main loop until it
leaves it. -/
theorem Inv.step_reacts (h : s.Inv) {l : Label} (hl : Server.Reacts l) (hs : s.step l = some s') :
    s'.Inv ∧ (∀ fd, s'.loop.connectionMap fd ≠ none → s.loop.connectionMap fd ≠ none) ∧
      (l ≠ .leave → s.phase = .running → s'.phase = .running) := by
  have hok : s.Settled l := by
    cases l with
    | connected => exact hl.elim
    | _ => trivial
  have hact : ∀ {sh : Shutdown} {l : EventManager.Label}, sh.act l = some s' →
      sh.loop = s.loop → ¬ Inserts l → s'.phase = sh.phase ∧
        ∀ fd, s'.loop.connectionMap fd ≠ none → s.loop.connectionMap fd ≠ none := by
    intro sh l hact hloop hno
    rcases act_eq_some.mp hact with ⟨loop, hstep, rfl⟩
    rw [hloop] at hstep
    rcases h.moved hno hstep with ⟨-, hmoved, -⟩
    refine ⟨rfl, ?_⟩
    intro fd hne
    rcases Option.ne_none_iff_exists'.mp hne with ⟨a, ha⟩
    rw [hmoved.map_sub h.mapped (by rintro _ _ _ _ _ _ _ rfl; exact hno trivial) ha]
    exact Option.some_ne_none a
  refine ⟨h.step hok hs, ?_⟩
  cases step_taken hs with
  | insert | connect | connected | failed => exact hl.elim
  | handler l s' allowed act =>
    have hno : ¬ Inserts l := by
      cases l with
      | insert => exact allowed.elim
      | _ => exact id
    rcases hact act rfl hno with ⟨hphase, hmap⟩
    exact ⟨hmap, fun _ hrun => hphase.trans hrun⟩
  | leave => exact ⟨fun _ => id, fun hne => absurd rfl hne⟩
  | forceClose sqe a todo s' closing act =>
    refine ⟨(hact act rfl id).2, ?_⟩
    intro _ hrun
    cases closing.symm.trans hrun
  | drain closing =>
    refine ⟨fun _ => id, ?_⟩
    intro _ hrun
    cases closing.symm.trans hrun
  | check head =>
    refine ⟨fun _ => id, ?_⟩
    intro _ hrun
    cases head.symm.trans hrun
  | pass s' running act =>
    rcases hact act rfl id with ⟨hphase, hmap⟩
    exact ⟨hmap, fun _ hrun => hphase.trans hrun⟩
  | drainPass s' body act =>
    refine ⟨(hact act rfl id).2, ?_⟩
    intro _ hrun
    cases body.symm.trans hrun

end Shutdown

namespace Server

variable {s s' : Server}

/-! ## Safety -/

/-- The places of the descriptors that were accepted. -/
def places (s : Server) : List ℕ :=
  (s.tasks ++ s.connections).map Accepted.id ++ s.closed.map Prod.fst

structure Inv (s : Server) : Prop where
  loops : ∀ r, (s.reactors r).Inv
  /-- Every descriptor is in one place. -/
  conserved : s.places.Perm (List.range s.accepted)
  /-- A descriptor that is held is open, and still the one that was accepted. -/
  holds : ∀ c ∈ s.tasks ++ s.connections, s.openFds c.fd = some c.id
  inside : ∀ c ∈ s.tasks ++ s.connections, c.reactor < s.amount
  /-- A closure will be run. -/
  queued : ∀ c ∈ s.tasks, (s.reactors c.reactor).phase = .running
  mapped : ∀ r fd, (s.reactors r).loop.connectionMap fd ≠ none ↔
    ∃ c ∈ s.connections, c.reactor = r ∧ c.fd = fd
  closers : ∀ p ∈ s.closed, p.2 = none ∨ p.2 = some p.1

theorem inv_start (amount : ℕ) (callback : Bool) : (start amount callback).Inv where
  loops _ := Shutdown.inv_start
  conserved := .nil
  holds := List.forall_mem_nil _
  inside := List.forall_mem_nil _
  queued := List.forall_mem_nil _
  mapped := by
    intro r fd
    constructor
    · exact fun hne => absurd rfl hne
    · rintro ⟨c, hc, -⟩
      cases hc
  closers := List.forall_mem_nil _

theorem Inv.nodup (h : s.Inv) : ((s.tasks ++ s.connections).map Accepted.id).Nodup :=
  (h.conserved.nodup_iff.mpr List.nodup_range).of_append_left

/-- Holders of one descriptor are the same. -/
theorem Inv.eq_of_fd (h : s.Inv) {c c' : Accepted} (hc : c ∈ s.tasks ++ s.connections)
    (hc' : c' ∈ s.tasks ++ s.connections) (hfd : c.fd = c'.fd) : c = c' := by
  apply List.inj_on_of_nodup_map h.nodup hc hc'
  have hsame := h.holds c hc
  rw [hfd, h.holds c' hc'] at hsame
  exact (Option.some.inj hsame).symm

theorem pickOneEventManager_lt (h : 2 ≤ s.amount) : s.pickOneEventManager < s.amount := by
  unfold pickOneEventManager Balancer.next
  split <;> omega

/-- The kernel opens a descriptor that nobody holds. -/
theorem Inv.holds_update (h : s.Inv) {fd : ℕ} (hfree : s.openFds fd = none) (o : Option ℕ) :
    ∀ c ∈ s.tasks ++ s.connections, Function.update s.openFds fd o c.fd = some c.id := by
  intro c hc
  have hopen := h.holds c hc
  have hne : c.fd ≠ fd := by
    intro heq
    rw [heq, hfree] at hopen
    cases hopen
  rw [Function.update_of_ne hne, hopen]

/-- The descriptor is put in a closure of a reactor that will run it. -/
theorem Inv.handOver (h : s.Inv) {fd r : ℕ} (hfree : s.openFds fd = none) (hr : r < s.amount)
    (hrun : (s.reactors r).phase = .running) :
    Inv { s with
      openFds := Function.update s.openFds fd (some s.accepted)
      accepted := s.accepted + 1
      cursor := r
      tasks := s.tasks ++ [⟨r, fd, s.accepted⟩] } := by
  have hperm : List.Perm ((s.tasks ++ [⟨r, fd, s.accepted⟩]) ++ s.connections)
      (⟨r, fd, s.accepted⟩ :: (s.tasks ++ s.connections)) := by
    rw [List.append_assoc]
    exact List.perm_middle
  refine ⟨h.loops, ?_, ?_, ?_, ?_, h.mapped, h.closers⟩
  · have hids : (s.accepted :: s.places).Perm (List.range (s.accepted + 1)) := by
      rw [List.range_succ]
      exact (h.conserved.cons s.accepted).trans (List.perm_append_singleton _ _).symm
    exact ((hperm.map _).append_right _).trans hids
  · intro c hc
    rcases List.mem_cons.mp (hperm.mem_iff.mp hc) with rfl | hold
    · exact Function.update_self ..
    · exact h.holds_update hfree _ c hold
  · intro c hc
    rcases List.mem_cons.mp (hperm.mem_iff.mp hc) with rfl | hold
    · exact hr
    · exact h.inside c hold
  · intro c hc
    rcases List.mem_append.mp hc with hold | hnew
    · exact h.queued c hold
    · rw [List.mem_singleton.mp hnew]
      exact hrun

theorem Inv.accept (h : s.Inv) {res : ℤ} (hok : s.Orderly (.accept res))
    (hfree : 0 ≤ res → s.openFds res.toNat = none) : (s.onAcceptComplete res).Inv := by
  unfold onAcceptComplete
  split
  · exact h
  · next hres =>
    have hpos : 0 ≤ res := Int.not_lt.mp hres
    rcases hok hpos with ⟨hsmall, hpick⟩
    dsimp only
    rw [if_pos hsmall]
    split
    · next hcallback =>
      rcases hpick hcallback with ⟨hamount, hrun⟩
      have hlt := pickOneEventManager_lt hamount
      show Inv (if s.pickOneEventManager < s.amount then _ else _)
      rw [if_pos hlt]
      exact h.handOver (hfree hpos) hlt hrun
    · -- without a callback the acceptor closes the descriptor itself
      refine ⟨h.loops, ?_, h.holds_update (hfree hpos) none, h.inside, h.queued, h.mapped, ?_⟩
      · have hlast : (s.tasks ++ s.connections).map Accepted.id ++
            (s.closed ++ [(s.accepted, none)]).map Prod.fst = s.places ++ [s.accepted] := by
          simp only [places, List.map_append, List.map_cons, List.map_nil, List.append_assoc]
        show List.Perm (_ ++ _) (List.range (s.accepted + 1))
        rw [hlast, List.range_succ]
        exact h.conserved.append_right _
      · intro p hp
        rcases List.mem_append.mp hp with hp | hp
        · exact h.closers p hp
        · rw [List.mem_singleton.mp hp]
          exact .inl rfl

theorem Inv.runTask (h : s.Inv) {task : Accepted} (htask : task ∈ s.tasks) {addr : ℕ}
    {b₁ b₂ b₃ b₄ : Bool} {reactor : Shutdown}
    (hs : (s.reactors task.reactor).step (.insert addr task.fd b₁ b₂ b₃ none b₄) = some reactor) :
    Inv { s with
      reactors := Function.update s.reactors task.reactor reactor
      tasks := s.tasks.erase task
      connections := task :: s.connections } := by
  rcases Shutdown.step_insert hs with ⟨-, hrun, hmap⟩
  -- the descriptor goes from the closure to the connection
  have hperm : (s.tasks.erase task ++ task :: s.connections).Perm (s.tasks ++ s.connections) :=
    List.perm_middle.trans ((List.perm_cons_erase htask).symm.append_right _)
  refine ⟨?_, ?_, ?_, ?_, ?_, ?_, h.closers⟩
  · intro r
    by_cases hr : r = task.reactor
    · subst hr
      have hsettled : (s.reactors task.reactor).Settled
          (.insert addr task.fd b₁ b₂ b₃ none b₄) := trivial
      simpa only [Function.update_self] using (h.loops task.reactor).step hsettled hs
    · simpa only [Function.update_of_ne hr] using h.loops r
  · exact ((hperm.map _).append_right _).trans h.conserved
  · exact fun c hc => h.holds c (hperm.mem_iff.mp hc)
  · exact fun c hc => h.inside c (hperm.mem_iff.mp hc)
  · intro c hc
    have hold := h.queued c (List.mem_of_mem_erase hc)
    by_cases hr : c.reactor = task.reactor
    · simpa only [hr, Function.update_self] using hrun
    · simpa only [Function.update_of_ne hr] using hold
  · intro r fd
    by_cases hr : r = task.reactor
    · subst hr
      simp only [Function.update_self, hmap, h.mapped, List.exists_mem_cons_iff, true_and]
      rw [eq_comm]
    · simp only [Function.update_of_ne hr, h.mapped, List.exists_mem_cons_iff, Ne.symm hr,
        false_and, false_or]

theorem mem_kept {r : ℕ} {reactor : Shutdown} {c : Accepted} :
    c ∈ (s.reap r reactor).connections ↔ c ∈ s.connections ∧ ¬ Gone r reactor c := by
  show c ∈ s.connections.filter _ ↔ _
  rw [List.mem_filter, decide_eq_true_iff]

/-- What is closed are the descriptors of the connections that are gone. -/
theorem Inv.reap_closed (h : s.Inv) (r : ℕ) (reactor : Shutdown) :
    (s.reap r reactor).closed = s.closed ++
      (s.connections.filter fun c => Gone r reactor c).map fun c => (c.id, some c.id) := by
  show _ ++ List.filterMap _ _ = _
  rw [← List.filterMap_eq_map]
  congr 1
  apply List.filterMap_congr
  intro c hc
  rw [h.holds c (List.mem_append_right _ (List.mem_of_mem_filter hc))]
  rfl

/-- A step of a reactor that makes no entry. -/
theorem Inv.reap (h : s.Inv) {r : ℕ} {reactor : Shutdown} (hinv : reactor.Inv)
    (hsub : ∀ fd, reactor.loop.connectionMap fd ≠ none →
      (s.reactors r).loop.connectionMap fd ≠ none)
    (hrun : ∀ c ∈ s.tasks, c.reactor = r → reactor.phase = .running) : (s.reap r reactor).Inv := by
  have hheld : ∀ c ∈ s.tasks ++ (s.reap r reactor).connections, c ∈ s.tasks ++ s.connections := by
    intro c hc
    rw [List.mem_append] at hc ⊢
    exact hc.imp_right fun hc => (mem_kept.mp hc).1
  refine ⟨?_, ?_, ?_, ?_, ?_, ?_, ?_⟩
  · intro r'
    by_cases hr : r' = r
    · subst hr
      simpa only [Server.reap, Function.update_self] using hinv
    · simpa only [Server.reap, Function.update_of_ne hr] using h.loops r'
  · -- the connections are those that are kept and those that are closed
    have hsplit : ((s.reap r reactor).connections.map Accepted.id ++
        (s.connections.filter fun c => Gone r reactor c).map Accepted.id).Perm
          (s.connections.map Accepted.id) := by
      rw [← List.map_append]
      refine .map _ (List.perm_append_comm.trans ?_)
      show (_ ++ s.connections.filter fun c => ¬ Gone r reactor c).Perm _
      simpa using List.filter_append_perm (fun c => decide (Gone r reactor c)) s.connections
    refine .trans ?_ h.conserved
    show (List.map _ (s.tasks ++ _) ++ _).Perm _
    rw [h.reap_closed, places]
    simp only [List.map_append, List.map_map, List.append_assoc]
    refine .append_left _ ?_
    refine (List.Perm.append_left _ List.perm_append_comm).trans ?_
    rw [← List.append_assoc]
    exact hsplit.append_right _
  · intro c hc
    have hopen := h.holds c (hheld c hc)
    show (if _ then _ else _) = _
    rw [if_neg, hopen]
    -- the holder of a descriptor that is closed is gone, and there is no other
    intro hgone
    rcases List.mem_map.mp hgone with ⟨g, hg, hfd⟩
    rcases List.mem_filter.mp hg with ⟨hmem, hg⟩
    have heq := h.eq_of_fd (List.mem_append_right _ hmem) (hheld c hc) hfd
    rw [decide_eq_true_iff, heq] at hg
    rcases List.mem_append.mp hc with htask | hkept
    · exact (List.nodup_append.mp h.nodup.of_map).2.2 c htask c (heq ▸ hmem) rfl
    · exact (mem_kept.mp hkept).2 hg
  · exact fun c hc => h.inside c (hheld c hc)
  · intro c hc
    by_cases hr : c.reactor = r
    · simpa only [Server.reap, hr, Function.update_self] using hrun c hc hr
    · simpa only [Server.reap, Function.update_of_ne hr] using h.queued c hc
  · intro r' fd
    by_cases hr : r' = r
    · subst hr
      have hself : (s.reap r' reactor).reactors r' = reactor := Function.update_self ..
      rw [hself]
      constructor
      · intro hne
        rcases (h.mapped r' fd).mp (hsub fd hne) with ⟨c, hc, hreactor, rfl⟩
        exact ⟨c, mem_kept.mpr ⟨hc, fun hgone => hne hgone.2⟩, hreactor, rfl⟩
      · rintro ⟨c, hc, hreactor, rfl⟩ hnone
        exact (mem_kept.mp hc).2 ⟨hreactor, hnone⟩
    · have hother : (s.reap r reactor).reactors r' = s.reactors r' := Function.update_of_ne hr ..
      rw [hother, h.mapped]
      constructor
      · rintro ⟨c, hc, rfl, rfl⟩
        exact ⟨c, mem_kept.mpr ⟨hc, fun hgone => hr hgone.1⟩, rfl, rfl⟩
      · rintro ⟨c, hc, hreactor, hfd⟩
        exact ⟨c, (mem_kept.mp hc).1, hreactor, hfd⟩
  · rw [h.reap_closed]
    intro p hp
    rcases List.mem_append.mp hp with hp | hp
    · exact h.closers p hp
    · rcases List.mem_map.mp hp with ⟨c, -, rfl⟩
      exact .inr rfl

theorem Inv.step (h : s.Inv) {l : Label} (hok : s.Orderly l) (hs : s.step l = some s') :
    s'.Inv := by
  cases l with
  | accept res =>
    simp only [Server.step, Option.ite_none_right_eq_some, Option.some.injEq] at hs
    rcases hs with ⟨⟨-, -, -, -, hfree⟩, rfl⟩
    exact h.accept hok hfree
  | runTask task addr b₁ b₂ b₃ b₄ =>
    simp only [Server.step, Option.ite_none_right_eq_some] at hs
    rcases hs with ⟨htask, hs⟩
    rcases Option.map_eq_some_iff.mp hs with ⟨reactor, hreactor, rfl⟩
    exact h.runTask htask hreactor
  | reactor r l =>
    simp only [Server.step, Option.ite_none_right_eq_some] at hs
    rcases hs with ⟨⟨-, hreacts⟩, hs⟩
    rcases Option.map_eq_some_iff.mp hs with ⟨reactor, hreactor, rfl⟩
    rcases (h.loops r).step_reacts hreacts hreactor with ⟨hinv, hsub, hrun⟩
    apply h.reap hinv hsub
    rintro c hc rfl
    by_cases hleave : l = .leave
    · subst hleave
      exact absurd rfl (hok c hc)
    · exact hrun hleave (h.queued c hc)

theorem inv (h : machine.Reachable Orderly s) : s.Inv := by
  apply h.invariant
  · rintro s ⟨amount, callback, rfl⟩
    exact inv_start amount callback
  · intro s l s' _ hinv hok hs
    exact hinv.step hok hs

/-! ## Results -/

/-- When all event loops have returned, every descriptor that was accepted has been closed
once: by the acceptor, or with the connection that was made for it. -/
theorem accepted_descriptors_closed_once (h : machine.Reachable Orderly s)
    (hend : ∀ r < s.amount, (s.reactors r).phase = .ended) :
    (s.closed.map Prod.fst).Perm (List.range s.accepted) ∧
      ∀ p ∈ s.closed, p.2 = none ∨ p.2 = some p.1 := by
  have hinv := inv h
  -- a closure would be queued in a reactor that is still in its main loop
  have htasks : s.tasks = [] := by
    apply List.eq_nil_iff_forall_not_mem.mpr
    intro c hc
    have hended := hend c.reactor (hinv.inside c (List.mem_append_left _ hc))
    cases hended.symm.trans (hinv.queued c hc)
  -- and a connection would be in the map of its reactor
  have hconnections : s.connections = [] := by
    apply List.eq_nil_iff_forall_not_mem.mpr
    intro c hc
    have hended := hend c.reactor (hinv.inside c (List.mem_append_right _ hc))
    have hmap := (hinv.mapped c.reactor c.fd).mpr ⟨c, hc, rfl, rfl⟩
    exact hmap (((hinv.loops c.reactor).empty_of_ended hended).1 c.fd)
  have hplaces := hinv.conserved
  rw [places, htasks, hconnections] at hplaces
  exact ⟨hplaces, hinv.closers⟩

/-- Reactor `r` leaves its main loop, with no connection. -/
def quits (r : ℕ) : List Label := [.reactor r .leave, .reactor r .drain, .reactor r .check]

/-- Of two accept completions one has an error; the connection of the other is closed when
its reactor leaves its main loop. -/
theorem accepted_descriptor_closed_with_loop :
    ∃ s, machine.Reachable Orderly s ∧ s.accepted = 1 ∧ (s.closed.map Prod.fst).Perm [0] := by
  have hinit : machine.Init (start 2 true) := ⟨2, true, rfl⟩
  rcases machine.exists_of_run Orderly hinit
    ([.accept 5, .accept (-24), .runTask ⟨1, 5, 0⟩ 1 true true true true,
      .reactor 1 (.handler (.call 1 .onEstablishing true)), .reactor 1 (.handler (.ret true)),
      .reactor 1 .leave, .reactor 1 (.forceClose true), .reactor 1 (.handler (.ret true)),
      .reactor 1 (.handler (.ret true)), .reactor 1 .drain, .reactor 1 .check, .reactor 1 .pass,
      .reactor 1 .check] ++ quits 0)
    (fun s => s.accepted = 1 ∧ ∀ r < s.amount, (s.reactors r).phase = .ended)
    (by decide +kernel) with ⟨s, hs, haccepted, hend⟩
  have hclosed := (accepted_descriptors_closed_once hs hend).1
  rw [haccepted] at hclosed
  exact ⟨s, hs, haccepted, hclosed⟩

/-- Both loops have returned and two descriptors are open: one was too large, the other was
handed to a reactor that had left its main loop. -/
theorem accepted_descriptors_leak :
    ∃ s, machine.Reachable (fun _ _ => True) s ∧ (∀ r < s.amount, (s.reactors r).phase = .ended) ∧
      s.accepted = 2 ∧ s.closed = [] ∧ s.openFds 600001 = some 0 ∧ s.openFds 5 = some 1 := by
  have hinit : machine.Init (start 2 true) := ⟨2, true, rfl⟩
  apply machine.exists_of_run _ hinit ([.accept 600001] ++ quits 1 ++ [.accept 5] ++ quits 0)
  decide +kernel

end Server

end Taotu
