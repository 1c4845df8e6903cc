import Taotu.EventLoop.Accepting
import Mathlib.Data.List.Chain
import Mathlib.Data.List.Rotate
import Mathlib.Data.List.Range

/-!
# Taotu.EventLoop.Balancer — which reactor gets a connection (`balancer.cc`)

The first reactor accepts; the balancer picks one of the others for every connection,
in turn or by their load.

1. **Model layer.** `PickOneEventManager` at any load, with its two strategies and the
   values of `strategy_` that are neither. One cursor serves them all.
2. **Machine.** Picks and changes of the strategy, in any order. The loads are new at
   every pick.

With one reactor the cursor points behind the last one. `kMinEvents` sets the cursor in
the body of its loop, which is not entered when there are two reactors; and a strategy
that is neither leaves it alone. So the first reactor may be picked. `Served` excludes
these picks, and then every pick is a good one, and turns are fair
(`picks_are_balanced`).

**Ghosts.** `picks` are the picks that were made, with the strategy and the loads at the
time.
-/

namespace Taotu

open Lib

structure Balancer where
  strategy : ℤ
  cursor : ℕ
deriving DecidableEq, Repr

namespace Balancer

/-! ## Model layer -/

def kRoundRobin : ℤ := 0

def kMinEvents : ℤ := 1

/-- The loop of `kMinEvents`, from the reactor `i` on. `cursor_` is set in every pass. -/
def scan : List UInt32 → ℕ → ℕ → UInt32 → ℕ → ℕ
  | [], _, _, _, cursor => cursor
  | load :: loads, i, pos, minEvts, _ =>
    if load < minEvts then scan loads (i + 1) i load i
    else scan loads (i + 1) pos minEvts pos

/-- `(*event_managers_)[cursor_]`. -/
def use (evtMngNum : ℕ) (b : Balancer) : Except Fault (ℕ × Balancer) :=
  if b.cursor < evtMngNum then .ok (b.cursor, b) else .error .outOfBounds

/-- `loads` are the answers of `GetEventerAmount()`, one for each reactor. -/
def pickOneEventManager (loads : List UInt32) (b : Balancer) : Except Fault (ℕ × Balancer) :=
  if b.strategy = kRoundRobin then
    use loads.length { b with cursor := next loads.length b.cursor }
  else if b.strategy = kMinEvents then
    match loads with
    | _ :: minEvts :: rest => use loads.length { b with cursor := scan rest 2 1 minEvts b.cursor }
    -- there is no `(*event_managers_)[1]`
    | _ => .error .outOfBounds
  else use loads.length b

def setStrategy (strategy : ℤ) (b : Balancer) : Balancer := { b with strategy := strategy }

/-! ## What the scan finds -/

/-- The reactor `r` has the least load of the reactors from the second one up to `k`. -/
structure LeastAt (loads : List UInt32) (r k : ℕ) : Prop where
  pos : 1 ≤ r
  lt : r < k
  le : ∀ i, 1 ≤ i → i < k → loads.getD r 0 ≤ loads.getD i 0

/-- One more reactor has been looked at. -/
theorem LeastAt.succ {loads : List UInt32} {r r' k : ℕ} (h : LeastAt loads r k) (hpos : 1 ≤ r')
    (hlt : r' < k + 1) (hle : loads.getD r' 0 ≤ loads.getD r 0)
    (hlast : loads.getD r' 0 ≤ loads.getD k 0) : LeastAt loads r' (k + 1) := by
  refine ⟨hpos, hlt, ?_⟩
  intro i hi hik
  rcases Nat.lt_succ_iff_lt_or_eq.mp hik with hik | rfl
  · exact UInt32.le_trans hle (h.le i hi hik)
  · exact hlast

/-- The loop carries the least reactor so far, and leaves it in the cursor. -/
theorem scan_least (seen : List UInt32) {loads : List UInt32} {pos cursor : ℕ} {minEvts : UInt32}
    (h : LeastAt (seen ++ loads) pos seen.length) (hmin : minEvts = (seen ++ loads).getD pos 0)
    (hcursor : loads = [] → cursor = pos) :
    LeastAt (seen ++ loads) (scan loads seen.length pos minEvts cursor) (seen ++ loads).length := by
  induction loads generalizing seen pos cursor minEvts with
  | nil =>
    rw [scan, hcursor rfl]
    simpa using h
  | cons load loads ih =>
    have hload : (seen ++ load :: loads).getD seen.length 0 = load := by
      simp
    have hsplit : seen ++ load :: loads = (seen ++ [load]) ++ loads := by
      simp
    have hlen : (seen ++ [load]).length = seen.length + 1 := List.length_append
    rw [scan]
    split
    · next hlt =>
      -- a smaller load than all before
      have hnext : LeastAt (seen ++ load :: loads) seen.length (seen.length + 1) := by
        refine h.succ (Nat.le_of_lt (Nat.lt_of_le_of_lt h.pos h.lt)) (Nat.lt_succ_self _) ?_ ?_
        · rw [hload, ← hmin]
          exact UInt32.le_of_lt hlt
        · exact UInt32.le_refl _
      rw [hsplit, ← hlen] at hnext ⊢
      exact ih _ hnext (by rw [← hsplit, hload]) fun _ => rfl
    · next hge =>
      have hnext : LeastAt (seen ++ load :: loads) pos (seen.length + 1) := by
        refine h.succ h.pos (Nat.lt_succ_of_lt h.lt) (UInt32.le_refl _) ?_
        rw [hload, ← hmin]
        exact UInt32.not_lt.mp hge
      rw [hsplit, ← hlen] at hnext ⊢
      exact ih _ hnext (by rw [← hsplit, hmin]) fun _ => rfl

theorem next_bounds {evtMngNum : ℕ} (h : 2 ≤ evtMngNum) (cursor : ℕ) :
    1 ≤ next evtMngNum cursor ∧ next evtMngNum cursor < evtMngNum := by
  unfold next
  split <;> omega

/-- Turns go round: after so many of them the cursor is so much further. -/
theorem next_mod {evtMngNum cursor : ℕ} (hpos : 1 ≤ cursor) (hlt : cursor < evtMngNum) :
    next evtMngNum cursor = cursor % (evtMngNum - 1) + 1 := by
  unfold next
  split
  · next hlast =>
    have heq : cursor = evtMngNum - 1 := by omega
    rw [← heq, Nat.mod_self]
  · rw [Nat.mod_eq_of_lt (by omega)]

/-- A full round of turns is a rotation of the reactors that do not accept. -/
theorem round_eq_rotate {amount first : ℕ} {round : List ℕ}
    (hchain : (first :: round).IsChain fun i j => j = next amount i)
    (hlen : round.length + 2 = amount) (hpos : 1 ≤ first) (hlt : first < amount) :
    first :: round = (List.range' 1 (amount - 1)).rotate (first - 1) := by
  have hnth : ∀ k (hk : k < (first :: round).length),
      (first :: round)[k] = (first - 1 + k) % (amount - 1) + 1 := by
    intro k
    induction k with
    | zero =>
      intro hk
      rw [List.getElem_cons_zero, Nat.add_zero, Nat.mod_eq_of_lt (by omega)]
      omega
    | succ k ih =>
      intro hk
      have hprev := ih (Nat.lt_of_succ_lt hk)
      have hmod : (first - 1 + k) % (amount - 1) < amount - 1 := Nat.mod_lt _ (by omega)
      rw [List.isChain_iff_getElem.mp hchain k hk, hprev, next_mod (by omega) (by omega),
        Nat.mod_add_mod]
      rfl
  refine List.ext_getElem ?_ ?_
  · simp only [List.length_cons, List.length_rotate, List.length_range']
    omega
  · intro k hk hk'
    rw [hnth k hk, List.getElem_rotate, List.getElem_range'_1, List.length_range',
      Nat.add_comm k, Nat.add_comm 1]

end Balancer

/-- A pick that was made. -/
structure Pick where
  strategy : ℤ
  loads : List UInt32
  index : ℕ
deriving DecidableEq, Repr

structure Balancing where
  /-- The number of reactors. -/
  amount : ℕ
  balancer : Balancer
  picks : List Pick
  fault : Option Fault
deriving DecidableEq

namespace Balancing

open Balancer

/-! ## Machine -/

inductive Label where
  | pickOneEventManager (loads : List UInt32)
  | setStrategy (strategy : ℤ)
deriving DecidableEq, Repr

/-- Nothing is known of the process after a fault. -/
def pick (s : Balancing) (loads : List UInt32) : Balancing :=
  match s.balancer.pickOneEventManager loads with
  | .ok (index, balancer) =>
    { s with
      balancer := balancer
      picks := s.picks ++ [⟨s.balancer.strategy, loads, index⟩] }
  | .error fault => { s with fault := some fault }

def step (s : Balancing) : Label → Option Balancing
  | .pickOneEventManager loads =>
    if loads.length = s.amount ∧ s.fault = none then some (s.pick loads) else none
  | .setStrategy strategy => some { s with balancer := s.balancer.setStrategy strategy }

/-- A balancer with any strategy over any number of reactors but zero. -/
def start (amount : ℕ) (strategy : ℤ) : Balancing := ⟨amount, ⟨strategy, 0⟩, [], none⟩

def machine : Machine Balancing Label :=
  ⟨fun s => ∃ amount strategy, 1 ≤ amount ∧ s = start amount strategy, step⟩

/-- There is a reactor for the pick, and the cursor gets to it. -/
def Served (s : Balancing) : Label → Prop
  | .pickOneEventManager _ =>
    if s.balancer.strategy = kRoundRobin then 2 ≤ s.amount
    else if s.balancer.strategy = kMinEvents then
      3 ≤ s.amount ∨ s.amount = 2 ∧ s.balancer.cursor = 1
    else s.amount = 1 ∨ s.balancer.cursor ≠ 0
  | .setStrategy _ => True

instance (s : Balancing) : ∀ l, Decidable (s.Served l)
  | .pickOneEventManager _ => inferInstanceAs (Decidable (ite _ _ _))
  | .setStrategy _ => inferInstanceAs (Decidable True)

/-! ## Every pick is a good one -/

variable {s s' : Balancing} {loads : List UInt32}

/-- What a pick must be, with so many reactors. -/
structure GoodPick (amount : ℕ) (p : Pick) : Prop where
  lt : p.index < amount
  pos : 2 ≤ amount → p.index ≠ 0
  least : p.strategy = kMinEvents →
    ∀ i, 1 ≤ i → i < amount → p.loads.getD p.index 0 ≤ p.loads.getD i 0

/-- The invariant: the cursor is at the last pick, and a pick in turn is the next one. -/
structure Inv (s : Balancing) : Prop where
  fault : s.fault = none
  good : ∀ p ∈ s.picks, GoodPick s.amount p
  cursor : s.balancer.cursor < s.amount
  last : ∀ p ∈ s.picks.getLast?, s.balancer.cursor = p.index
  turns : s.picks.IsChain fun p q => q.strategy = kRoundRobin → q.index = next s.amount p.index

/-- What a served pick does. -/
inductive Picked (s : Balancing) (loads : List UInt32) : Balancing → Prop where
  | mk {index : ℕ} (hgood : GoodPick s.amount ⟨s.balancer.strategy, loads, index⟩)
      (hturn : s.balancer.strategy = kRoundRobin → index = next s.amount s.balancer.cursor) :
      Picked s loads { s with
        balancer := { s.balancer with cursor := index }
        picks := s.picks ++ [⟨s.balancer.strategy, loads, index⟩] }

/-- The cursor is set to a good place. -/
theorem picked_of_use (index : ℕ)
    (hpick : s.balancer.pickOneEventManager loads =
      use loads.length { s.balancer with cursor := index })
    (hlen : loads.length = s.amount)
    (hgood : GoodPick s.amount ⟨s.balancer.strategy, loads, index⟩)
    (hturn : s.balancer.strategy = kRoundRobin → index = next s.amount s.balancer.cursor) :
    s.Picked loads (s.pick loads) := by
  have huse : use loads.length { s.balancer with cursor := index } =
      .ok (index, { s.balancer with cursor := index }) := by
    rw [hlen]
    exact if_pos hgood.lt
  rw [pick, hpick, huse]
  exact .mk hgood hturn

theorem pick_picked (hcursor : s.balancer.cursor < s.amount)
    (hok : s.Served (.pickOneEventManager loads)) (hlen : loads.length = s.amount) :
    s.Picked loads (s.pick loads) := by
  rw [Served] at hok
  split at hok
  · next hround =>
    rcases next_bounds hok s.balancer.cursor with ⟨hpos, hlt⟩
    refine picked_of_use (next s.amount s.balancer.cursor) ?_ hlen ?_ fun _ => rfl
    · unfold pickOneEventManager
      rw [if_pos hround, hlen]
    · refine ⟨hlt, fun _ => Nat.ne_of_gt hpos, fun hmin => ?_⟩
      rw [hround] at hmin
      cases hmin
  · next hround =>
    split at hok
    · next hmin =>
      -- there are two reactors at least, so the scan has a first load
      rcases loads with - | ⟨accepting, - | ⟨minEvts, rest⟩⟩
      · simp only [List.length_nil] at hlen
        omega
      · simp only [List.length_singleton] at hlen
        omega
      · have hfirst : LeastAt ([accepting, minEvts] ++ rest) 1 2 := by
          refine ⟨Nat.le_refl _, Nat.lt_succ_self _, fun i hi hi' => ?_⟩
          obtain rfl : i = 1 := by omega
          exact UInt32.le_refl _
        have hleast : LeastAt ([accepting, minEvts] ++ rest)
            (scan rest 2 1 minEvts s.balancer.cursor) (accepting :: minEvts :: rest).length := by
          refine scan_least [accepting, minEvts] hfirst rfl ?_
          rintro rfl
          simp only [List.length_cons, List.length_nil] at hlen
          omega
        refine picked_of_use (scan rest 2 1 minEvts s.balancer.cursor) ?_ hlen ?_
          fun h => absurd h hround
        · rw [pickOneEventManager, if_neg hround, if_pos hmin]
        · rw [hlen] at hleast
          exact ⟨hleast.lt, fun _ => Nat.ne_of_gt hleast.pos, fun _ => hleast.le⟩
    · next hmin =>
      refine picked_of_use s.balancer.cursor ?_ hlen ?_ fun h => absurd h hround
      · unfold pickOneEventManager
        rw [if_neg hround, if_neg hmin]
      · exact ⟨hcursor, fun htwo => hok.resolve_left (by omega), fun h => absurd h hmin⟩

theorem inv_init (h : machine.Init s) : s.Inv := by
  rcases h with ⟨amount, strategy, hamount, rfl⟩
  exact ⟨rfl, nofun, hamount, nofun, .nil⟩

theorem Inv.picked (h : s.Inv) (hs : s.Picked loads s') : s'.Inv := by
  cases hs with
  | mk hgood hturn =>
    refine ⟨h.fault, ?_, hgood.lt, ?_, ?_⟩
    · intro p hp
      rcases List.mem_append.mp hp with hp | hp
      · exact h.good p hp
      · rw [List.mem_singleton.mp hp]
        exact hgood
    · intro p hp
      rw [List.getLast?_concat] at hp
      cases hp
      rfl
    · -- the new pick comes after the one the cursor was at
      refine List.isChain_append.mpr ⟨h.turns, .singleton _, ?_⟩
      intro p hp q hq hround
      cases hq
      rw [hturn hround, h.last p hp]

theorem Inv.step {l : Label} (h : s.Inv) (hok : s.Served l) (hs : s.step l = some s') :
    s'.Inv := by
  cases l with
  | pickOneEventManager loads =>
    simp only [Balancing.step, Option.ite_none_right_eq_some, Option.some.injEq] at hs
    rcases hs with ⟨⟨hlen, -⟩, rfl⟩
    exact h.picked (pick_picked h.cursor hok hlen)
  | setStrategy strategy =>
    cases hs
    exact ⟨h.fault, h.good, h.cursor, h.last, h.turns⟩

theorem inv (h : machine.Reachable Served s) : s.Inv :=
  h.invariant (fun _ => inv_init) fun _ _ _ _ hinv hok hs => hinv.step hok hs

/-- Every reactor index that was used is in range and not that of the accepting reactor,
`kMinEvents` has picked a reactor with the least load, and one less than `amount` picks in
turn have picked every other reactor once. -/
structure Balanced (s : Balancing) : Prop where
  fault : s.fault = none
  lt : ∀ p ∈ s.picks, p.index < s.amount
  ne_zero : 2 ≤ s.amount → ∀ p ∈ s.picks, p.index ≠ 0
  least : ∀ p ∈ s.picks, p.strategy = kMinEvents →
    ∀ i, 1 ≤ i → i < s.amount → p.loads.getD p.index 0 ≤ p.loads.getD i 0
  round : ∀ round, round <:+: s.picks → (∀ p ∈ round, p.strategy = kRoundRobin) →
    round.length = s.amount - 1 →
      ∀ r, 1 ≤ r → r < s.amount → (round.map Pick.index).count r = 1

/-- A round of turns picks every reactor but the accepting one once. -/
theorem Inv.round (h : s.Inv) {round : List Pick} (hin : round <:+: s.picks)
    (hround : ∀ p ∈ round, p.strategy = kRoundRobin) (hlen : round.length = s.amount - 1) {r : ℕ}
    (hpos : 1 ≤ r) (hlt : r < s.amount) : (round.map Pick.index).count r = 1 := by
  have hturns : (round.map Pick.index).IsChain fun i j => j = next s.amount i := by
    rw [List.isChain_map]
    have hchain := List.IsChain.infix h.turns hin
    refine hchain.imp_of_mem_imp ?_
    intro p q _ hq hnext
    exact hnext (hround q hq)
  rcases round with - | ⟨first, round⟩
  · simp only [List.length_nil] at hlen
    omega
  · have hgood := h.good first (hin.subset List.mem_cons_self)
    have hne := hgood.pos (by omega)
    rw [List.map_cons] at hturns ⊢
    rw [List.length_cons] at hlen
    rw [round_eq_rotate hturns (by rw [List.length_map]; omega) (by omega) hgood.lt,
      (List.rotate_perm _ _).count_eq, List.count_eq_one_of_mem List.nodup_range']
    rw [List.mem_range'_1]
    omega

/-- **The balancer picks well.** In every run whose picks are served, for any number of
reactors, any loads and any strategies. -/
theorem picks_are_balanced (h : machine.Reachable Served s) : s.Balanced := by
  have hinv := inv h
  exact ⟨hinv.fault, fun p hp => (hinv.good p hp).lt, fun htwo p hp => (hinv.good p hp).pos htwo,
    fun p hp => (hinv.good p hp).least, fun _ hin hround hlen _ hpos hlt =>
      hinv.round hin hround hlen hpos hlt⟩

/-- The theorem at a run with three reactors, two turns, a pick by load and another turn. -/
theorem three_reactors_balanced :
    ∃ s, machine.Reachable Served s ∧ s.amount = 3 ∧ s.picks.map Pick.index = [1, 2, 1, 2] ∧
      s.Balanced := by
  rcases machine.exists_of_run Served (s := start 3 kRoundRobin) ⟨3, kRoundRobin, by decide, rfl⟩
    [.pickOneEventManager [0, 0, 0], .pickOneEventManager [0, 1, 0], .setStrategy kMinEvents,
      .pickOneEventManager [0, 4, 7], .setStrategy kRoundRobin, .pickOneEventManager [0, 5, 7]]
    (fun s => s.amount = 3 ∧ s.picks.map Pick.index = [1, 2, 1, 2]) (by decide +kernel)
    with ⟨s, hs, hamount, hpicks⟩
  exact ⟨s, hs, hamount, hpicks, picks_are_balanced hs⟩

/-- A server with one reactor has none to pick, with either strategy. With two reactors
`kMinEvents` picks the accepting one, whatever the loads. -/
theorem accepting_reactor_picked :
    (∃ s, machine.Reachable (fun _ _ => True) s ∧ s.amount = 1 ∧ s.balancer.strategy = kRoundRobin ∧
      s.fault = some .outOfBounds) ∧
    (∃ s, machine.Reachable (fun _ _ => True) s ∧ s.amount = 1 ∧ s.balancer.strategy = kMinEvents ∧
      s.fault = some .outOfBounds) ∧
    ∃ s, machine.Reachable (fun _ _ => True) s ∧ s.amount = 2 ∧
      s.picks = [⟨kMinEvents, [9, 0], 0⟩] := by
  refine ⟨?_, ?_, ?_⟩
  · exact machine.exists_of_run (fun _ _ => True) (s := start 1 kRoundRobin) ⟨1, _, by decide, rfl⟩
      [.pickOneEventManager [0]] (fun s => s.amount = 1 ∧ s.balancer.strategy = kRoundRobin ∧
        s.fault = some .outOfBounds) (by decide +kernel)
  · exact machine.exists_of_run (fun _ _ => True) (s := start 1 kMinEvents) ⟨1, _, by decide, rfl⟩
      [.pickOneEventManager [0]] (fun s => s.amount = 1 ∧ s.balancer.strategy = kMinEvents ∧
        s.fault = some .outOfBounds) (by decide +kernel)
  · exact machine.exists_of_run (fun _ _ => True) (s := start 2 kMinEvents) ⟨2, _, by decide, rfl⟩
      [.pickOneEventManager [9, 0]] (fun s => s.amount = 2 ∧ s.picks = [⟨kMinEvents, [9, 0], 0⟩])
      (by decide +kernel)

end Balancing

end Taotu
