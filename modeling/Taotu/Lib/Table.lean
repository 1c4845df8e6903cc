import Mathlib.Data.List.Nodup
import Mathlib.Data.List.Perm.Basic
import Mathlib.Logic.Function.Basic
import Mathlib.Tactic.Common

/-!
# Taotu.Lib.Table — tables with optional entries

A table is a function to an option, and entering or erasing is
`Function.update`. Both are read back by saying where an entry of the new table
comes from.

Where the entries are counted, a table is the list of them. Each key has one entry
(`Nodup`), and taking it out leaves the others (`perm_without`).
-/

namespace Taotu.Lib

universe u v

variable {κ : Type u} {τ : Type v} [DecidableEq κ] {f : κ → Option τ} {k k' : κ} {x y : τ}

/-- An entry of a table after `x` was entered is the new one or an old one. -/
theorem enter_eq_some :
    Function.update f k (some x) k' = some y ↔ (k' = k ∧ x = y) ∨ (k' ≠ k ∧ f k' = some y) := by
  by_cases h : k' = k
  · simp [h]
  · simp [h, Function.update_of_ne]

/-- An entry of a table after one was erased is another one. -/
theorem erase_eq_some :
    Function.update f k none k' = some y ↔ k' ≠ k ∧ f k' = some y := by
  by_cases h : k' = k
  · simp [h]
  · simp [h, Function.update_of_ne]

/-- Erasing where there is nothing changes nothing. -/
theorem erase_of_none (h : f k = none) : Function.update f k none = f := by
  rw [← h, Function.update_eq_self]

/-- Two related entries are both there. -/
theorem rel_some_left {τ' : Type v} {r : τ → τ' → Prop} {o : Option τ'} (h : Option.Rel r (some x) o) :
    ∃ y, o = some y ∧ r x y := by
  cases h with
  | some hr => exact ⟨_, rfl, hr⟩

theorem rel_some_right {τ' : Type v} {r : τ' → τ → Prop} {o : Option τ'}
    (h : Option.Rel r o (some x)) : ∃ y, o = some y ∧ r y x := by
  cases h with
  | some hr => exact ⟨_, rfl, hr⟩

/-! ## Tables as lists -/

/-- The entries that are not at `k`. -/
def without (k : κ) (t : List (κ × τ)) : List (κ × τ) := t.filter fun p => p.1 ≠ k

variable {t : List (κ × τ)} {p : κ × τ}

theorem mem_without : p ∈ without k t ↔ p ∈ t ∧ p.1 ≠ k := by
  rw [without, List.mem_filter, decide_eq_true_iff]

theorem nodup_without (h : (t.map Prod.fst).Nodup) : ((without k t).map Prod.fst).Nodup :=
  h.sublist (List.filter_sublist.map _)

/-- Nothing is taken out where there is no entry. -/
theorem without_of_fresh (h : ∀ p ∈ t, p.1 ≠ k) : without k t = t :=
  List.filter_eq_self.mpr fun p hp => decide_eq_true (h p hp)

/-- The entry at a key is the only one that is taken out. -/
theorem perm_without (h : (t.map Prod.fst).Nodup) (hmem : (k, x) ∈ t) :
    t.Perm ((k, x) :: without k t) := by
  induction t with
  | nil => cases hmem
  | cons q t ih =>
    rw [List.map_cons, List.nodup_cons] at h
    rcases List.mem_cons.mp hmem with rfl | htail
    · have hrest : ∀ p ∈ t, p.1 ≠ k := by
        intro p hp heq
        exact h.1 (List.mem_map.mpr ⟨p, hp, heq⟩)
      rw [without, List.filter_cons_of_neg (by simp), ← without, without_of_fresh hrest]
    · have hne : q.1 ≠ k := by
        intro heq
        exact h.1 (List.mem_map.mpr ⟨_, htail, heq.symm⟩)
      rw [without, List.filter_cons_of_pos (by simpa using hne), ← without]
      exact ((ih h.2 htail).cons q).trans (.swap ..)

/-- What is found at a key is an entry. -/
theorem mem_of_find (h : t.find? (fun q => q.1 = k) = some p) : (k, p.2) ∈ t := by
  have hkey := List.find?_some h
  rw [decide_eq_true_iff] at hkey
  rw [← hkey]
  exact List.mem_of_find?_eq_some h

end Taotu.Lib
