import Mathlib.Algebra.Order.BigOperators.Group.Finset
import Mathlib.Algebra.Order.Ring.Nat
import Mathlib.Algebra.Order.SuccPred
import Mathlib.Data.Set.Finite.Lemmas
import Taotu.Lib.Machine

/-!
# Taotu.Lib.LockOrder — threads that take locks in order

Any finite number of threads run code of which only the locking is kept: guarded sections,
one after the other, inside one another, under conditions and in loops. A lock is not
reentrant, and a thread that finds it taken waits.

The code is ordered when every section is entered with locks of lower rank only
(`LockCode.Above`). Then no reachable state is a deadlock (`LockState.Inv.exists_enabled`):
among the threads that wait take one whose lock ranks highest; the thread that holds it waits
for nothing. And as a thread can leave its loops, every reachable state can be run to the end
(`LockState.Inv.exists_finished`).
-/

namespace Taotu.Lib

universe u v w

/-- What code does with locks. Which branch it takes, and how often it goes round a loop, is
not known. -/
inductive LockCode (ℓ : Type u) where
  | skip
  | guard (l : ℓ) (c : LockCode ℓ)
  | seq (c d : LockCode ℓ)
  | either (c d : LockCode ℓ)
  | many (c : LockCode ℓ)
deriving DecidableEq, Repr

namespace LockCode

variable {ℓ : Type u} {ρ : Type w}

/-- Code that is run, or is not. -/
def opt (c : LockCode ℓ) : LockCode ℓ := .either c .skip

/-- A section in which nothing else is locked. -/
def leaf (l : ℓ) : LockCode ℓ := .guard l .skip

/-- One after the other. -/
def block : List (LockCode ℓ) → LockCode ℓ
  | [] => .skip
  | c :: cs => .seq c (block cs)

section Above

variable [Preorder ρ] (rank : ℓ → ρ)

/-- Every lock is above `b`, and above the locks it is taken with. -/
def Above (b : ρ) : LockCode ℓ → Prop
  | .skip => True
  | .guard l c => b < rank l ∧ Above (rank l) c
  | .seq c d | .either c d => Above b c ∧ Above b d
  | .many c => Above b c

variable {rank} {b : ρ}

@[simp] theorem above_skip : Above rank b .skip := trivial

@[simp] theorem above_guard {l : ℓ} {c : LockCode ℓ} :
    Above rank b (.guard l c) ↔ b < rank l ∧ Above rank (rank l) c := Iff.rfl

@[simp] theorem above_seq {c d : LockCode ℓ} :
    Above rank b (.seq c d) ↔ Above rank b c ∧ Above rank b d := Iff.rfl

@[simp] theorem above_either {c d : LockCode ℓ} :
    Above rank b (.either c d) ↔ Above rank b c ∧ Above rank b d := Iff.rfl

@[simp] theorem above_many {c : LockCode ℓ} : Above rank b (.many c) ↔ Above rank b c := Iff.rfl

@[simp] theorem above_opt {c : LockCode ℓ} : Above rank b (opt c) ↔ Above rank b c := by
  simp [opt]

@[simp] theorem above_leaf {l : ℓ} : Above rank b (leaf l) ↔ b < rank l := by
  simp [leaf]

@[simp] theorem above_block {cs : List (LockCode ℓ)} :
    Above rank b (block cs) ↔ ∀ c ∈ cs, Above rank b c := by
  induction cs with
  | nil => simp [block]
  | cons c cs ih => simp [block, ih]

theorem Above.mono {a : ρ} {c : LockCode ℓ} (hab : a ≤ b) (h : Above rank b c) :
    Above rank a c := by
  induction c with
  | skip => trivial
  | guard l c _ => exact ⟨lt_of_le_of_lt hab h.1, h.2⟩
  | seq c d ihc ihd => exact ⟨ihc h.1, ihd h.2⟩
  | either c d ihc ihd => exact ⟨ihc h.1, ihd h.2⟩
  | many c ih => exact ih h

end Above

/-- The steps that are left when every loop is left at once. -/
def size : LockCode ℓ → ℕ
  | .skip => 1
  | .guard _ c => c.size + 2
  | .seq c d | .either c d => c.size + d.size + 1
  | .many _ => 1

end LockCode

/-- What a thread has still to do: code, or the end of a section. -/
inductive LockItem (ℓ : Type u) where
  | run (c : LockCode ℓ)
  | unlock (l : ℓ)
deriving DecidableEq, Repr

namespace LockItem

variable {ℓ : Type u} {ρ : Type w}

def size : LockItem ℓ → ℕ
  | .run c => c.size
  | .unlock _ => 1

/-- The locks of the sections that are not at their end. -/
def held : List (LockItem ℓ) → List ℓ
  | [] => []
  | .run _ :: r => held r
  | .unlock l :: r => l :: held r

section Ordered

variable [Preorder ρ] (rank : ℓ → ρ) (b : ρ)

/-- The rank of the section entered last. -/
def top : List (LockItem ℓ) → ρ
  | [] => b
  | .run _ :: r => top r
  | .unlock l :: _ => rank l

/-- The sections are entered in order, and what is left to do goes on so. -/
def Ordered : List (LockItem ℓ) → Prop
  | [] => True
  | .run c :: r => c.Above rank (top rank b r) ∧ Ordered r
  | .unlock l :: r => top rank b r < rank l ∧ Ordered r

variable {rank b}

theorem Ordered.le_top {r : List (LockItem ℓ)} (h : Ordered rank b r) {l : ℓ} (hl : l ∈ held r) :
    rank l ≤ top rank b r := by
  induction r with
  | nil => cases hl
  | cons x r ih =>
    cases x with
    | run c => exact ih h.2 hl
    | unlock l' =>
      rcases List.mem_cons.mp hl with rfl | hl
      · exact le_rfl
      · exact (ih h.2 hl).trans h.1.le

/-- A section is not entered again from inside. -/
theorem Ordered.notMem {r : List (LockItem ℓ)} {l : ℓ} (h : Ordered rank b (.unlock l :: r)) :
    l ∉ held r :=
  fun hl => (h.2.le_top hl).not_gt h.1

end Ordered

end LockItem

/-- What a step of a thread does to the locks. -/
inductive LockEffect (ℓ : Type u) where
  | stay
  | take (l : ℓ)
  | give (l : ℓ)
deriving DecidableEq, Repr

namespace LockItem

variable {ℓ : Type u} {ρ : Type w}

/-- The next step of a thread. The flag is for the branch it takes: the first or the second
one, and once more round a loop or out of it. -/
def act (f : Bool) : List (LockItem ℓ) → Option (LockEffect ℓ × List (LockItem ℓ))
  | [] => none
  | .run .skip :: r => some (.stay, r)
  | .run (.guard l c) :: r => some (.take l, .run c :: .unlock l :: r)
  | .run (.seq c d) :: r => some (.stay, .run c :: .run d :: r)
  | .run (.either c d) :: r => some (.stay, .run (if f then c else d) :: r)
  | .run (.many c) :: r => some (.stay, if f then .run c :: .run (.many c) :: r else r)
  | .unlock l :: r => some (.give l, r)

theorem exists_act {r : List (LockItem ℓ)} (h : r ≠ []) (f : Bool) :
    ∃ e r', act f r = some (e, r') := by
  cases r with
  | nil => exact absurd rfl h
  | cons x r =>
    cases x with
    | run c => cases c <;> exact ⟨_, _, rfl⟩
    | unlock l => exact ⟨_, _, rfl⟩

/-- Without going round loops, every step makes what is left smaller. -/
theorem size_act {r r' : List (LockItem ℓ)} {e : LockEffect ℓ} (h : act false r = some (e, r')) :
    (r'.map size).sum < (r.map size).sum := by
  cases r with
  | nil => cases h
  | cons x r =>
    cases x with
    | run c =>
      cases c <;> cases h <;> simp [size, LockCode.size] <;> omega
    | unlock l =>
      cases h
      simp [size]

section Acted

variable [Preorder ρ] (rank : ℓ → ρ) (b : ρ)

/-- The locks held before and after a step. -/
inductive Acted (r r' : List (LockItem ℓ)) : LockEffect ℓ → Prop where
  | stay (hheld : held r' = held r) : Acted r r' .stay
  | take {l : ℓ} (hheld : held r' = l :: held r) (hlt : top rank b r < rank l) :
      Acted r r' (.take l)
  | give {l : ℓ} (hheld : held r = l :: held r') (hnot : l ∉ held r') : Acted r r' (.give l)

variable {rank b}

theorem Ordered.act {f : Bool} {r r' : List (LockItem ℓ)} {e : LockEffect ℓ}
    (hord : Ordered rank b r) (h : LockItem.act f r = some (e, r')) :
    Ordered rank b r' ∧ Acted rank b r r' e := by
  cases r with
  | nil => cases h
  | cons x r =>
    cases x with
    | unlock l =>
      cases h
      exact ⟨hord.2, .give rfl hord.notMem⟩
    | run c =>
      obtain ⟨hc, hr⟩ := hord
      cases c with
      | skip =>
        cases h
        exact ⟨hr, .stay rfl⟩
      | guard l c =>
        cases h
        exact ⟨⟨hc.2, hc.1, hr⟩, .take rfl hc.1⟩
      | seq c d =>
        cases h
        exact ⟨⟨hc.1, hc.2, hr⟩, .stay rfl⟩
      | either c d =>
        cases h
        cases f with
        | false => exact ⟨⟨hc.2, hr⟩, .stay rfl⟩
        | true => exact ⟨⟨hc.1, hr⟩, .stay rfl⟩
      | many c =>
        cases h
        cases f with
        | false => exact ⟨hr, .stay rfl⟩
        | true => exact ⟨⟨hc, hc, hr⟩, .stay rfl⟩

end Acted

end LockItem

/-- What each thread has to do, and who holds each lock. -/
structure LockState (τ : Type v) (ℓ : Type u) where
  todo : τ → List (LockItem ℓ)
  owner : ℓ → Option τ

namespace LockState

open LockItem

variable {τ : Type v} {ℓ : Type u} {ρ : Type w} [DecidableEq τ] [DecidableEq ℓ]

/-- The locks after what a thread does, which must find the lock free that it takes. -/
def locked (owner : ℓ → Option τ) (t : τ) : LockEffect ℓ → Option (ℓ → Option τ)
  | .stay => some owner
  | .take l => if owner l = none then some (Function.update owner l (some t)) else none
  | .give l => some (Function.update owner l none)

def step (s : LockState τ ℓ) (a : τ × Bool) : Option (LockState τ ℓ) :=
  (act a.2 (s.todo a.1)).bind fun (e, r) =>
    (locked s.owner a.1 e).map fun owner => ⟨Function.update s.todo a.1 r, owner⟩

/-- Each thread has a program, and every lock is free. -/
def start (prog : τ → LockCode ℓ) : LockState τ ℓ where
  todo t := [.run (prog t)]
  owner _ := none

def machine (prog : τ → LockCode ℓ) : Machine (LockState τ ℓ) (τ × Bool) :=
  ⟨fun s => s = start prog, step⟩

variable {s s' : LockState τ ℓ} {a : τ × Bool}

theorem step_eq_some (h : s.step a = some s') : ∃ e r, act a.2 (s.todo a.1) = some (e, r) ∧
    locked s.owner a.1 e = some s'.owner ∧ s'.todo = Function.update s.todo a.1 r := by
  obtain ⟨⟨e, r⟩, hact, h⟩ := Option.bind_eq_some_iff.mp h
  obtain ⟨owner, hlock, rfl⟩ := Option.map_eq_some_iff.mp h
  exact ⟨e, r, hact, hlock, rfl⟩

section Order

variable [Preorder ρ] {rank : ℓ → ρ} {b : ρ}

variable (rank b) in
/-- Each thread keeps the order, and the lock is with the thread that is inside. -/
structure Inv (s : LockState τ ℓ) : Prop where
  order : ∀ t, Ordered rank b (s.todo t)
  owned : ∀ t l, s.owner l = some t ↔ l ∈ held (s.todo t)

omit [DecidableEq τ] [DecidableEq ℓ] in
theorem inv_start {prog : τ → LockCode ℓ} (h : ∀ t, (prog t).Above rank b) :
    Inv rank b (start prog) where
  order t := ⟨h t, trivial⟩
  owned t l := by simp [start, held]

omit [DecidableEq τ] in
/-- What the other threads hold is not touched by the step of one. -/
theorem Inv.owned_locked (h : Inv rank b s) {t u : τ} (hu : u ≠ t) {r : List (LockItem ℓ)}
    {e : LockEffect ℓ} (hact : Acted rank b (s.todo t) r e) {owner : ℓ → Option τ}
    (hlock : locked s.owner t e = some owner) (l : ℓ) :
    owner l = some u ↔ l ∈ held (s.todo u) := by
  rw [← h.owned u l]
  cases hact with
  | stay =>
    cases hlock
    exact Iff.rfl
  | @take k _ _ =>
    obtain ⟨hfree, rfl⟩ : s.owner k = none ∧ Function.update s.owner k (some t) = owner := by
      simpa [locked] using hlock
    by_cases hl : l = k
    · subst hl
      simp [hfree, Ne.symm hu]
    · rw [Function.update_of_ne hl]
  | @give k hheld _ =>
    cases hlock
    by_cases hl : l = k
    · subst hl
      have howner : s.owner l = some t := (h.owned t l).mpr (hheld ▸ List.mem_cons_self)
      simp [howner, Ne.symm hu]
    · rw [Function.update_of_ne hl]

omit [DecidableEq τ] in
/-- What the thread itself holds afterwards. -/
theorem Inv.owned_locked_self (h : Inv rank b s) {t : τ} {r : List (LockItem ℓ)}
    {e : LockEffect ℓ} (hact : Acted rank b (s.todo t) r e) {owner : ℓ → Option τ}
    (hlock : locked s.owner t e = some owner) (l : ℓ) :
    owner l = some t ↔ l ∈ held r := by
  cases hact with
  | stay hheld =>
    cases hlock
    rw [hheld, h.owned]
  | @take k hheld _ =>
    obtain ⟨-, rfl⟩ : s.owner k = none ∧ Function.update s.owner k (some t) = owner := by
      simpa [locked] using hlock
    rw [hheld, List.mem_cons]
    by_cases hl : l = k
    · simp [hl]
    · rw [Function.update_of_ne hl, h.owned]
      simp [hl]
  | @give k hheld hnot =>
    cases hlock
    by_cases hl : l = k
    · subst hl
      simp [hnot]
    · rw [Function.update_of_ne hl, h.owned, hheld]
      simp [hl]

theorem Inv.step (h : Inv rank b s) (hs : s.step a = some s') : Inv rank b s' := by
  obtain ⟨e, r, hact, hlock, htodo⟩ := step_eq_some hs
  obtain ⟨hord, hacted⟩ := (h.order a.1).act hact
  constructor
  · intro u
    rw [htodo]
    by_cases hu : u = a.1
    · rw [hu, Function.update_self]
      exact hord
    · rw [Function.update_of_ne hu]
      exact h.order u
  · intro u l
    rw [htodo]
    by_cases hu : u = a.1
    · rw [hu, Function.update_self]
      exact h.owned_locked_self hacted hlock l
    · rw [Function.update_of_ne hu]
      exact h.owned_locked hu hacted hlock l

theorem inv {prog : τ → LockCode ℓ} (h : ∀ t, (prog t).Above rank b)
    (hs : (machine prog).Reachable (fun _ _ => True) s) : Inv rank b s := by
  refine hs.invariant ?_ ?_
  · rintro s rfl
    exact inv_start h
  · intro s a s' _ hinv _ hstep
    exact hinv.step hstep

end Order

/-! ## No deadlock -/

/-- The thread waits for a lock. -/
def Waits (s : LockState τ ℓ) (t : τ) (l : ℓ) : Prop :=
  s.owner l ≠ none ∧ ∃ c r, s.todo t = .run (.guard l c) :: r

omit [DecidableEq τ] [DecidableEq ℓ] in
theorem waits_of_act {t : τ} {f : Bool} {l : ℓ} {r : List (LockItem ℓ)}
    (h : act f (s.todo t) = some (.take l, r)) (hl : s.owner l ≠ none) : s.Waits t l := by
  refine ⟨hl, ?_⟩
  cases hr : s.todo t with
  | nil => rw [hr] at h; cases h
  | cons x r =>
    rw [hr] at h
    cases x with
    | unlock k => cases h
    | run c =>
      cases c <;> cases h
      exact ⟨_, _, rfl⟩

/-- A thread that has something to do, and waits for no lock, can go on, whatever the branch. -/
theorem exists_step_of_not_waits {t : τ} (ht : s.todo t ≠ []) (hw : ∀ l, ¬ s.Waits t l) (f : Bool) :
    ∃ s', s.step (t, f) = some s' := by
  obtain ⟨e, r, hact⟩ := exists_act ht f
  have hlock : ∃ owner, locked s.owner t e = some owner := by
    cases e with
    | stay => exact ⟨_, rfl⟩
    | give l => exact ⟨_, rfl⟩
    | take l =>
      by_cases hl : s.owner l = none
      · exact ⟨_, if_pos hl⟩
      · exact absurd (waits_of_act hact hl) (hw l)
  obtain ⟨owner, hlock⟩ := hlock
  refine ⟨⟨Function.update s.todo t r, owner⟩, ?_⟩
  simp [step, hact, hlock]

variable [LinearOrder ρ] {rank : ℓ → ρ} {b : ρ}

omit [DecidableEq τ] [DecidableEq ℓ] in
/-- The thread that holds the lock has something to do, and a lock that it waits for ranks
higher. -/
theorem Inv.holder (h : Inv rank b s) {t : τ} {l : ℓ} (hw : s.Waits t l) :
    ∃ u, s.todo u ≠ [] ∧ ∀ k, s.Waits u k → rank l < rank k := by
  obtain ⟨u, hu⟩ := Option.ne_none_iff_exists'.mp hw.1
  have hheld := (h.owned u l).mp hu
  refine ⟨u, ?_, ?_⟩
  · intro hnil
    rw [hnil] at hheld
    cases hheld
  · rintro k ⟨-, c, r, hr⟩
    have hord := h.order u
    rw [hr] at hheld hord
    exact (hord.2.le_top hheld).trans_lt hord.1.1

/-- Some thread can go on, whatever the branch it takes. -/
theorem Inv.exists_enabled [Finite τ] (h : Inv rank b s) (hs : ∃ t, s.todo t ≠ []) :
    ∃ t, ∀ f, ∃ s', s.step (t, f) = some s' := by
  by_contra hno
  -- then every thread with something to do waits
  have hwaits : ∀ t, s.todo t ≠ [] → ∃ l, s.Waits t l := by
    intro t ht
    by_contra hw
    exact hno ⟨t, exists_step_of_not_waits ht (not_exists.mp hw)⟩
  have : Nonempty ℓ := by
    obtain ⟨t, ht⟩ := hs
    obtain ⟨l, _⟩ := hwaits t ht
    exact ⟨l⟩
  choose! want hwant using hwaits
  -- the one whose lock ranks highest waits for a thread that waits for a higher one
  obtain ⟨t, ht, hmax⟩ := Set.exists_max_image {t | s.todo t ≠ []} (fun t => rank (want t))
    (Set.toFinite _) hs
  obtain ⟨u, hu, hlt⟩ := h.holder (hwant t ht)
  exact (hmax u hu).not_gt (hlt _ (hwant u hu))

/-- Every thread has done its program, and every lock is free. -/
structure Finished (s : LockState τ ℓ) : Prop where
  todo : ∀ t, s.todo t = []
  owner : ∀ l, s.owner l = none

/-- The steps that are left when every loop is left at once. -/
def left [Fintype τ] (s : LockState τ ℓ) : ℕ :=
  ∑ t, ((s.todo t).map size).sum

theorem left_step [Fintype τ] {t : τ} (h : s.step (t, false) = some s') : s'.left < s.left := by
  obtain ⟨e, r, hact, -, htodo⟩ := step_eq_some h
  have hlt := size_act hact
  refine Finset.sum_lt_sum (fun u _ => ?_) ⟨t, Finset.mem_univ t, ?_⟩
  · by_cases hu : u = t
    · rw [htodo, hu, Function.update_self]
      exact hlt.le
    · rw [htodo, Function.update_of_ne hu]
  · rw [htodo, Function.update_self]
    exact hlt

omit [DecidableEq τ] [DecidableEq ℓ] in
theorem Inv.finished (h : Inv rank b s) (htodo : ∀ t, s.todo t = []) : s.Finished := by
  refine ⟨htodo, ?_⟩
  intro l
  by_contra hl
  obtain ⟨t, ht⟩ := Option.ne_none_iff_exists'.mp hl
  have hheld := (h.owned t l).mp ht
  rw [htodo t] at hheld
  cases hheld

/-- Every state can be run to the end, out of every loop. -/
theorem Inv.exists_finished [Fintype τ] {prog : τ → LockCode ℓ} (h : Inv rank b s) :
    ∃ t, (machine prog).Counted (fun _ _ => True) (fun a => a.2 = true) s 0 t ∧ t.Finished := by
  have hdown : ∀ s : LockState τ ℓ, Inv rank b s → ¬ (∀ t, s.todo t = []) →
      ∃ t, (machine prog).Counted (fun _ _ => True) (fun a => a.2 = true) s 0 t ∧
        Inv rank b t ∧ t.left < s.left := by
    intro s hs hbusy
    obtain ⟨t, ht⟩ := hs.exists_enabled (not_forall.mp hbusy)
    obtain ⟨s', hstep⟩ := ht false
    exact ⟨s', .other (t, false) .refl trivial hstep Bool.false_ne_true, hs.step hstep,
      left_step hstep⟩
  obtain ⟨t, hrun, ht, hend⟩ := Machine.Counted.exists_of_measure left hdown h
  exact ⟨t, hrun, ht.finished hend⟩

end LockState

end Taotu.Lib
