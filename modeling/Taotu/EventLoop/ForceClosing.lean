import Taotu.EventLoop.Destroying

/-!
# Taotu.EventLoop.ForceClosing — closing a connection later (`connecting.cc`)

`ForceCloseAfter` puts a task into the timer of the loop that calls `ForceClose` on `this`.
The task holds the bare address. Nothing takes it back when the connection is destroyed, and
the pool hands the block to the next connection.

1. **Runs.** The machine `forcing` is the event loop with these tasks. They are run at any
   time at which no handler is running, in any order.
2. **Firings.** `firings` records each task that was run with the loop before and after it;
   `Firing.Right` is what the task is for.
3. **Whose connection.** An owner is never found at another address (`Settled`), so a firing
   is right exactly when its address still holds its connection, or one that is closed
   already (`timers_close_their_own`).
-/

namespace Taotu

open Lib

/-- The task of `ForceCloseAfter`: it holds the address, `owner` is whose it was then. -/
structure CloseTimer where
  addr : ℕ
  owner : ℕ
deriving DecidableEq, Repr

/-- A task that was run. -/
structure Firing where
  timer : CloseTimer
  sqe : Bool
  before : EventManager
  after : EventManager

/-- The connection of the task is closed if it exists, and otherwise nothing happens. -/
structure Firing.Right (f : Firing) : Prop where
  own : ∀ a obj, f.before.heap a = some obj → obj.owner = f.timer.owner →
    f.after = f.before.take a obj.owner f.sqe obj.conn.forceClose
  gone : (∀ a obj, f.before.heap a = some obj → obj.owner ≠ f.timer.owner) → f.after = f.before

structure Forcing where
  loop : EventManager
  timers : List CloseTimer
  firings : List Firing

namespace Forcing

open EventManager (Performed)

/-! ## Model layer -/

inductive Label where
  | loop (l : EventManager.Label)
  | forceCloseAfter (addr : ℕ)
  | fire (k : ℕ) (sqe : Bool)
deriving DecidableEq, Repr

/-- `ForceCloseAfter` of the connection at `addr`. -/
def forceCloseAfter (s : Forcing) (addr : ℕ) (obj : Object) : Forcing :=
  if obj.conn.state ≠ .kDisconnected then { s with timers := s.timers ++ [⟨addr, obj.owner⟩] }
  else s

/-- `ForceClose` on whatever is at the address. -/
def fireAt (s : EventManager) (addr : ℕ) (sqe : Bool) : EventManager :=
  match s.heap addr with
  | none => { s with fault := some .outOfBounds }
  | some obj => s.take addr obj.owner sqe obj.conn.forceClose

def fire (s : Forcing) (k : ℕ) (timer : CloseTimer) (sqe : Bool) : Forcing :=
  let after := fireAt s.loop timer.addr sqe
  { loop := after
    timers := s.timers.eraseIdx k
    firings := s.firings ++ [⟨timer, sqe, s.loop, after⟩] }

def step (s : Forcing) : Label → Option Forcing
  | .loop l => (s.loop.step l).map ({ s with loop := · })
  | .forceCloseAfter addr =>
    if s.loop.fault = none then (s.loop.heap addr).map (s.forceCloseAfter addr) else none
  | .fire k sqe =>
    if s.loop.fault = none ∧ s.loop.stack = [] then
      (s.timers[k]?).map (s.fire k · sqe)
    else none

def forcing : Machine Forcing Label := ⟨(· = ⟨.start, [], []⟩), step⟩

/-! ## Whose connection -/

/-- The address of the task holds its connection, or one that is closed already. -/
def TargetOk (s : EventManager) (timer : CloseTimer) : Prop :=
  match s.heap timer.addr with
  | none => False
  | some obj => obj.owner = timer.owner ∨ obj.conn.state = .kDisconnected

/-- The condition on steps. -/
def FireOk (s : Forcing) : Label → Prop
  | .fire k _ => ∀ timer ∈ s.timers[k]?, TargetOk s.loop timer
  | _ => True

instance (s : EventManager) (timer : CloseTimer) : Decidable (TargetOk s timer) :=
  match h : s.heap timer.addr with
  | none => isFalse (by simp [TargetOk, h])
  | some obj => decidable_of_iff (obj.owner = timer.owner ∨ obj.conn.state = .kDisconnected)
      (by simp [TargetOk, h])

instance (s : Forcing) : (l : Label) → Decidable (s.FireOk l)
  | .fire k _ => inferInstanceAs (Decidable (∀ timer ∈ s.timers[k]?, TargetOk s.loop timer))
  | .loop _ | .forceCloseAfter _ => inferInstanceAs (Decidable True)

variable {s s' : Forcing} {e e' : EventManager} {timer : CloseTimer} {sqe : Bool}

/-- Every object of the second loop was there before, or has a number that was not in use. -/
structure Succeeds (e e' : EventManager) : Prop where
  created : e.created ≤ e'.created
  objects : ∀ a obj', e'.heap a = some obj' →
    e.created ≤ obj'.owner ∨ ∃ obj, e.heap a = some obj ∧ obj'.owner = obj.owner

theorem Succeeds.of_continues (hcont : EventManager.Continues e.heap e'.heap)
    (hcreated : e'.created = e.created) : Succeeds e e' := by
  refine ⟨hcreated.ge, ?_⟩
  intro a obj' hobj'
  obtain ⟨obj, hobj, howner, -⟩ := hcont a obj' hobj'
  exact .inr ⟨obj, hobj, howner⟩

theorem Succeeds.insert (e : EventManager) (addr fd : ℕ) (c : Connecting) :
    Succeeds e (e.insertNewConnection addr fd c) := by
  -- what is destroyed for its descriptor only takes an object away
  have hheap : ∀ a obj', (e.insertNewConnection addr fd c).heap a = some obj' →
      Function.update e.heap addr (some ⟨e.created, c⟩) a = some obj' := by
    intro a obj' hobj'
    unfold EventManager.insertNewConnection at hobj'
    dsimp only at hobj'
    split at hobj'
    · next old _ =>
      rw [EventManager.destroy_heap] at hobj'
      by_cases ha : a = old
      · rw [ha, Function.update_self] at hobj'
        cases hobj'
      · rwa [Function.update_of_ne ha] at hobj'
    · exact hobj'
  constructor
  · unfold EventManager.insertNewConnection
    dsimp only
    split
    · rw [EventManager.destroy_created]
      exact Nat.le_succ _
    · exact Nat.le_succ _
  · intro a obj' hobj'
    have hnew := hheap a obj' hobj'
    by_cases ha : a = addr
    · rw [ha, Function.update_self] at hnew
      cases hnew
      exact .inl le_rfl
    · rw [Function.update_of_ne ha] at hnew
      exact .inr ⟨obj', hnew, rfl⟩

/-- A turn of a connection replaces it by itself. -/
theorem Succeeds.take {a : ℕ} {obj : Object} (hobj : e.heap a = some obj) (sqe : Bool) (t : Turn)
    (hheap : e'.heap = (e.take a obj.owner sqe t).heap) (hcreated : e'.created = e.created) :
    Succeeds e e' := by
  refine ⟨hcreated.ge, ?_⟩
  intro b obj' hobj'
  rw [hheap] at hobj'
  change Function.update e.heap a (some ⟨obj.owner, t.conn⟩) b = some obj' at hobj'
  by_cases hb : b = a
  · rw [hb, Function.update_self] at hobj'
    cases hobj'
    exact .inr ⟨obj, hb ▸ hobj, rfl⟩
  · rw [Function.update_of_ne hb] at hobj'
    exact .inr ⟨obj', hobj', rfl⟩

theorem Succeeds.refl (e : EventManager) : Succeeds e e :=
  .of_continues (.refl _) rfl

theorem succeeds_performed {l : EventManager.Label} (hp : e.Performed l e') : Succeeds e e' := by
  cases hp with
  | insert a fd b₁ b₂ b₃ hwm b₄ c free hc => exact .insert e a fd c
  | call a act sqe obj t hobj ht => exact .take hobj sqe t rfl rfl
  | ret sqe a f rest obj t hobj ht => exact .take hobj sqe t rfl rfl
  | readComplete key res data sqe op ctx ctx' obj b t hcall hctx hobj ht =>
    exact .take hobj sqe t rfl rfl
  | writeComplete key res data sqe op ctx obj hcall hctx hobj => exact .take hobj sqe _ rfl rfl
  | unheard key res data more sqe hno => exact .of_continues (.refl _) rfl
  | repeated key res data sqe => exact .refl e
  | other sqe => exact .of_continues (.refl _) rfl
  | destroyClosed =>
    exact .of_continues (.destroyAll e e.closedFds) (EventManager.destroyAll_created e e.closedFds)

theorem succeeds_step {l : EventManager.Label} (h : e.step l = some e') : Succeeds e e' := by
  rcases EventManager.step_cases h with hp | ⟨f, rfl⟩
  · exact succeeds_performed hp
  · exact .of_continues (.refl _) rfl

theorem succeeds_fireAt (e : EventManager) (addr : ℕ) (sqe : Bool) :
    Succeeds e (fireAt e addr sqe) := by
  unfold fireAt
  split
  · exact .of_continues (.refl _) rfl
  · next obj hobj => exact .take hobj sqe _ rfl rfl

/-- The connection of a task is nowhere but at its address. -/
structure Placed (e : EventManager) (timer : CloseTimer) : Prop where
  lt : timer.owner < e.created
  addr : ∀ a obj, e.heap a = some obj → obj.owner = timer.owner → a = timer.addr

theorem Placed.succeeds (h : Placed e timer) (hs : Succeeds e e') : Placed e' timer := by
  refine ⟨lt_of_lt_of_le h.lt hs.created, ?_⟩
  intro a obj' hobj' howner
  rcases hs.objects a obj' hobj' with hnew | ⟨obj, hobj, hsame⟩
  · exact absurd (howner ▸ h.lt) (Nat.not_lt.mpr hnew)
  · exact h.addr a obj hobj (hsame.symm.trans howner)

/-- Owners are told apart, and the connection of every task is at its address. -/
structure Settled (s : Forcing) : Prop where
  owned : s.loop.Owned
  placed : ∀ timer ∈ s.timers, Placed s.loop timer

theorem Settled.forceCloseAfter (hs : s.Settled) {addr : ℕ} {obj : Object}
    (hobj : s.loop.heap addr = some obj) : (s.forceCloseAfter addr obj).Settled := by
  unfold Forcing.forceCloseAfter
  split
  · refine ⟨hs.owned, ?_⟩
    intro timer htimer
    rcases List.mem_append.mp htimer with hold | hnew
    · exact hs.placed timer hold
    · rw [List.mem_singleton.mp hnew]
      exact ⟨hs.owned.lt addr obj hobj,
        fun a obj' hobj' howner => hs.owned.inj a addr obj' obj hobj' hobj howner⟩
  · exact hs

theorem owned_fireAt (h : e.Owned) (addr : ℕ) (sqe : Bool) : (fireAt e addr sqe).Owned := by
  unfold fireAt
  split
  · exact h.continues (.refl _) rfl
  · next obj hobj => exact h.step (.call addr .forceClose sqe obj _ hobj rfl)

theorem owned_step {l : EventManager.Label} (h : e.Owned) (hstep : e.step l = some e') :
    e'.Owned := by
  rcases EventManager.step_cases hstep with hp | ⟨f, rfl⟩
  · exact h.step hp
  · exact h.continues (.refl _) rfl

theorem step_fire {k : ℕ} (h : s.step (.fire k sqe) = some s') :
    ∃ timer, s.timers[k]? = some timer ∧ s.loop.fault = none ∧ s' = s.fire k timer sqe := by
  rw [step] at h
  split at h
  · next hen =>
    obtain ⟨timer, htimer, rfl⟩ := Option.map_eq_some_iff.mp h
    exact ⟨timer, htimer, hen.1, rfl⟩
  · cases h

theorem Settled.step (hs : s.Settled) {l : Label} (h : s.step l = some s') : s'.Settled := by
  cases l with
  | loop l =>
    obtain ⟨e', hstep, rfl⟩ := Option.map_eq_some_iff.mp h
    exact ⟨owned_step hs.owned hstep,
      fun timer htimer => (hs.placed timer htimer).succeeds (succeeds_step hstep)⟩
  | forceCloseAfter addr =>
    rw [Forcing.step] at h
    split at h
    · obtain ⟨obj, hobj, rfl⟩ := Option.map_eq_some_iff.mp h
      exact hs.forceCloseAfter hobj
    · cases h
  | fire k sqe =>
    obtain ⟨timer, -, -, rfl⟩ := step_fire h
    refine ⟨owned_fireAt hs.owned _ sqe, fun other hother => ?_⟩
    exact (hs.placed other (List.mem_of_mem_eraseIdx hother)).succeeds (succeeds_fireAt _ _ _)

theorem settled {ok : Forcing → Label → Prop} (h : forcing.Reachable ok s) : s.Settled := by
  refine h.invariant ?_ fun _ _ _ _ hs _ hstep => hs.step hstep
  rintro s rfl
  exact ⟨@EventManager.owned (fun _ _ => True) _ (.init rfl), nofun⟩

/-! ## One firing -/

/-- `ForceClose` of a closed connection changes nothing. -/
theorem take_closed {a : ℕ} {obj : Object} (hobj : e.heap a = some obj)
    (hclosed : obj.conn.state = .kDisconnected) (sqe : Bool) :
    e.take a obj.owner sqe obj.conn.forceClose = e := by
  have hturn : obj.conn.forceClose = ⟨obj.conn, [], none⟩ := if_pos hclosed
  have hheap : Function.update e.heap a (some ⟨obj.owner, obj.conn⟩) = e.heap := by
    rw [← hobj, Function.update_eq_self]
  rw [hturn, EventManager.take]
  simp only [hheap, List.map_nil, List.foldl_nil, Option.toList_none, List.nil_append]

/-- **One firing, exactly.** -/
theorem right_iff (hplaced : Placed e timer) (hfault : e.fault = none) (sqe : Bool) :
    Firing.Right ⟨timer, sqe, e, fireAt e timer.addr sqe⟩ ↔ TargetOk e timer := by
  have hunique : ∀ obj, e.heap timer.addr = some obj → ∀ a obj', e.heap a = some obj' →
      obj'.owner = timer.owner → a = timer.addr ∧ obj' = obj := by
    intro obj hobj a obj' hobj' howner
    have ha := hplaced.addr a obj' hobj' howner
    subst ha
    exact ⟨rfl, Option.some.inj (hobj'.symm.trans hobj)⟩
  unfold TargetOk fireAt
  cases hobj : e.heap timer.addr with
  | none =>
    -- the connection is gone, and the task uses memory nobody owns
    refine iff_of_false ?_ id
    intro hright
    have hgone : ∀ a obj, e.heap a = some obj → obj.owner ≠ timer.owner := by
      intro a obj hobj' howner
      rw [hplaced.addr a obj hobj' howner, hobj] at hobj'
      cases hobj'
    have hsame := congrArg EventManager.fault (hright.gone hgone)
    rw [hfault] at hsame
    cases hsame
  | some obj =>
    dsimp only
    constructor
    · intro hright
      by_contra hwrong
      rw [not_or] at hwrong
      have hgone : ∀ a obj', e.heap a = some obj' → obj'.owner ≠ timer.owner := by
        intro a obj' hobj' howner
        obtain ⟨-, rfl⟩ := hunique obj hobj a obj' hobj' howner
        exact hwrong.1 howner
      have hsame := congrArg (fun e => EventManager.heap e timer.addr) (hright.gone hgone)
      change Function.update e.heap timer.addr (some ⟨obj.owner, obj.conn.forceClose.conn⟩)
        timer.addr = e.heap timer.addr at hsame
      rw [Function.update_self, hobj] at hsame
      have hconn := congrArg Object.conn (Option.some.inj hsame)
      exact hwrong.2 (hconn ▸ Connecting.forceClose_closed obj.conn)
    · intro hok
      refine ⟨?_, ?_⟩
      · intro a obj' hobj' howner
        obtain ⟨rfl, rfl⟩ := hunique obj hobj a obj' hobj' howner
        rfl
      · intro hgone
        rcases hok with hown | hclosed
        · exact absurd hown (hgone timer.addr obj hobj)
        · exact take_closed hobj hclosed sqe

theorem firings_right_step (hs : s.Settled) (hright : ∀ f ∈ s.firings, f.Right) {l : Label}
    (hok : s.FireOk l) (h : s.step l = some s') : ∀ f ∈ s'.firings, f.Right := by
  cases l with
  | loop l =>
    obtain ⟨e', -, rfl⟩ := Option.map_eq_some_iff.mp h
    exact hright
  | forceCloseAfter addr =>
    rw [step] at h
    split at h
    · obtain ⟨obj, -, rfl⟩ := Option.map_eq_some_iff.mp h
      unfold forceCloseAfter
      split <;> exact hright
    · cases h
  | fire k sqe =>
    obtain ⟨timer, htimer, hfault, rfl⟩ := step_fire h
    intro f hf
    rcases List.mem_append.mp hf with hold | hnew
    · exact hright f hold
    · rw [List.mem_singleton.mp hnew, right_iff (hs.placed timer (List.mem_of_getElem? htimer)) hfault]
      exact hok timer htimer

/-- **`ForceCloseAfter` closes its own connection as long as that exists.** In every run in
which a task is run only while its address holds its connection, or one that is closed
already, every task has closed its own connection or nothing; and from every state so reached
a task does so if and only if this holds of its address. -/
theorem timers_close_their_own (h : forcing.Reachable FireOk s) :
    (∀ f ∈ s.firings, f.Right) ∧
    ∀ k timer sqe s', s.timers[k]? = some timer → s.step (.fire k sqe) = some s' →
      ∃ f, s'.firings = s.firings ++ [f] ∧ f.timer = timer ∧ f.before = s.loop ∧
        f.after = s'.loop ∧ (f.Right ↔ TargetOk s.loop timer) := by
  constructor
  · refine h.invariant ?_ fun _ _ _ hreach hright hok hstep =>
      firings_right_step (settled hreach) hright hok hstep
    rintro s rfl f hf
    cases hf
  · intro k timer sqe s' htimer hstep
    obtain ⟨timer', htimer', hfault, rfl⟩ := step_fire hstep
    cases htimer.symm.trans htimer'
    exact ⟨_, rfl, rfl, rfl, rfl,
      right_iff ((settled h).placed timer (List.mem_of_getElem? htimer)) hfault sqe⟩

/-- A connection at address 1 that asks to be closed later. -/
def asking : List Label :=
  [.loop (.insert 1 7 true true true none true), .loop (.call 1 .onEstablishing true),
    .loop (.ret true), .forceCloseAfter 1]

/-- The theorem at a connection that is there when its task is run. -/
theorem timers_close_their_own_once :
    ∃ s, forcing.Reachable FireOk s ∧ s.firings.length = 1 ∧
      ((s.loop.heap 1).map fun obj => (obj.owner, obj.conn.state)) = some (0, .kDisconnected) ∧
      ∀ f ∈ s.firings, f.Right := by
  obtain ⟨s, hs, hone, hclosed⟩ := forcing.exists_of_run FireOk rfl (asking ++ [.fire 0 true])
    (fun s => s.firings.length = 1 ∧
      ((s.loop.heap 1).map fun obj => (obj.owner, obj.conn.state)) = some (0, .kDisconnected))
    (by decide +kernel)
  exact ⟨s, hs, hone, hclosed, (timers_close_their_own hs).1⟩

/-- The connection is closed and destroyed before its task is run, and the next one is put at
the same address. The task closes that one. -/
theorem timer_closes_successor :
    ∃ s, forcing.Reachable (fun _ _ => True) s ∧ s.timers = [⟨1, 0⟩] ∧
      ((s.loop.heap 1).map fun obj => (obj.owner, obj.conn.state)) = some (1, .kConnected) ∧
      ((s.step (.fire 0 true)).bind fun s' =>
        (s'.loop.heap 1).map fun obj => (obj.owner, obj.conn.state)) = some (1, .kDisconnected) := by
  obtain ⟨s, hs, hP⟩ := forcing.exists_of_run (fun _ _ => True) rfl
    (asking ++ [.loop (.call 1 .forceClose true), .loop (.ret true), .loop (.ret true),
      .loop .destroyClosed, .loop (.insert 1 8 true true true none true),
      .loop (.call 1 .onEstablishing true), .loop (.ret true)])
    (fun s => s.timers = [⟨1, 0⟩] ∧
      ((s.loop.heap 1).map fun obj => (obj.owner, obj.conn.state)) = some (1, .kConnected) ∧
      ((s.step (.fire 0 true)).bind fun s' =>
        (s'.loop.heap 1).map fun obj => (obj.owner, obj.conn.state)) = some (1, .kDisconnected))
    (by decide +kernel)
  exact ⟨s, hs, hP⟩

end Forcing

end Taotu
