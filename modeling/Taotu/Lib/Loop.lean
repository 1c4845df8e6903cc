import Mathlib.Tactic.Common

/-!
# Taotu.Lib.Loop — loops that ask their environment

A loop whose body takes one answer of its environment per turn. The answers are
an infinite sequence, so the loop need not end: `turns` is its state after so
many turns, and a loop that has ended stays where it is.
-/

namespace Taotu.Lib

universe u v w

structure Loop (σ : Type u) (α : Type v) (ε : Type w) where
  going : σ → Prop
  turn : σ → α → Except ε σ

namespace Loop

variable {σ : Type u} {α : Type v} {ε : Type w} (L : Loop σ α ε) [DecidablePred L.going]

/-- The state after `n` turns, or where the loop has ended before. -/
def turns (answers : ℕ → α) (s : σ) : ℕ → Except ε σ
  | 0 => .ok s
  | n + 1 =>
    match turns answers s n with
    | .ok t => if L.going t then L.turn t (answers n) else .ok t
    | .error e => .error e

variable {L} {answers : ℕ → α} {s t : σ} {n : ℕ}

theorem turns_succ (h : L.turns answers s n = .ok t) (hgo : L.going t) :
    L.turns answers s (n + 1) = L.turn t (answers n) := by
  rw [turns, h]
  exact if_pos hgo

/-- A loop that has ended stays where it is. -/
theorem turns_ended (h : L.turns answers s n = .ok t) (hend : ¬ L.going t) {m : ℕ} (hm : n ≤ m) :
    L.turns answers s m = .ok t := by
  induction hm with
  | refl => exact h
  | @step m _ ih =>
    rw [turns, ih]
    exact if_neg hend

/-- The invariant rule. `Inv n` is kept by the turn `n`; the state after `n` turns is one
that the loop is in after `k` turns, with `k = n` as long as it goes on. -/
theorem turns_invariant {Inv : ℕ → σ → Prop} (hinit : Inv 0 s)
    (hturn : ∀ n t, Inv n t → L.going t → ∃ t', L.turn t (answers n) = .ok t' ∧ Inv (n + 1) t')
    (n : ℕ) :
    ∃ t k, L.turns answers s n = .ok t ∧ k ≤ n ∧ L.turns answers s k = .ok t ∧ Inv k t ∧
      (L.going t → k = n) ∧ ∀ i < k, ∃ u, L.turns answers s i = .ok u ∧ L.going u := by
  induction n with
  | zero =>
    refine ⟨s, 0, rfl, Nat.le_refl _, rfl, hinit, fun _ => rfl, ?_⟩
    intro i hi
    exact absurd hi (Nat.not_lt_zero i)
  | succ n ih =>
    rcases ih with ⟨t, k, ht, hk, htk, hinv, hlast, hbefore⟩
    by_cases hgo : L.going t
    · -- one more turn
      have hkn := hlast hgo
      subst hkn
      rcases hturn k t hinv hgo with ⟨t', ht', hinv'⟩
      have hnext := (turns_succ ht hgo).trans ht'
      refine ⟨t', k + 1, hnext, Nat.le_refl _, hnext, hinv', fun _ => rfl, ?_⟩
      intro i hi
      rcases Nat.lt_succ_iff_lt_or_eq.mp hi with hlt | rfl
      · exact hbefore i hlt
      · exact ⟨t, ht, hgo⟩
    · refine ⟨t, k, turns_ended ht hgo (Nat.le_succ n), Nat.le_succ_of_le hk, htk, hinv, ?_, hbefore⟩
      intro h
      exact absurd h hgo

end Loop

end Taotu.Lib
