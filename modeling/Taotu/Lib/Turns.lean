import Mathlib.Logic.Function.Basic
import Mathlib.Tactic.Common

/-!
# Taotu.Lib.Turns — sequence numbers of a ring

A ring of `n` slots serves tickets in order: ticket `p` uses slot `p % n`, first
to be filled and then to be emptied. A number in every slot says whose turn it
is. With all tickets below `r` emptied, the slots belong to the `n` tickets from
`r` on; the number is the ticket itself until it is filled, and one more from
then on until it is emptied.

`Turns` is that discipline, `turn`, `full` and `filled_of_seq` are what a thread
learns from reading a number, possibly with an old ticket in its hand, and
`fill` and `empty` are the two writes that keep it.
-/

namespace Taotu.Lib

variable {n r p q : ℕ} {seq : ℕ → ℕ} {filled : ℕ → Prop}

/-- Two tickets of one lap have different slots. -/
theorem slot_inj (hp : r ≤ p) (hp' : p < r + n) (hq : r ≤ q) (hq' : q < r + n)
    (h : p % n = q % n) : p = q := by
  have hdiv := Nat.div_add_mod p n
  have hdiv' := Nat.div_add_mod q n
  rcases Nat.lt_trichotomy (p / n) (q / n) with hlt | heq | hgt
  · have := Nat.mul_le_mul_left n (Nat.succ_le_of_lt hlt)
    rw [Nat.mul_succ] at this
    omega
  · rw [heq] at hdiv
    omega
  · have := Nat.mul_le_mul_left n (Nat.succ_le_of_lt hgt)
    rw [Nat.mul_succ] at this
    omega

/-- Every slot has a ticket in every lap. -/
theorem slot_surj (hn : 0 < n) (r q : ℕ) : ∃ p, r ≤ p ∧ p < r + n ∧ p % n = q % n := by
  refine ⟨r + (q + n - r % n) % n, by omega, ?_, ?_⟩
  · have := Nat.mod_lt (q + n - r % n) hn
    omega
  · have hr := Nat.mod_lt r hn
    rw [Nat.add_mod_mod, ← Nat.mod_add_mod, show r % n + (q + n - r % n) = q + n by omega,
      Nat.add_mod_right]

/-- The numbers in the slots say whose turn it is. -/
structure Turns (n : ℕ) (seq : ℕ → ℕ) (r : ℕ) (filled : ℕ → Prop) : Prop where
  toFill : ∀ p, r ≤ p → p < r + n → ¬ filled p → seq (p % n) = p
  toEmpty : ∀ p, r ≤ p → p < r + n → filled p → seq (p % n) = p + 1

namespace Turns

/-- A ring that has not been used. -/
theorem init (n : ℕ) : Turns n (fun i => i) 0 (fun _ => False) := by
  constructor
  · intro p _ hp _
    rw [Nat.zero_add] at hp
    exact Nat.mod_eq_of_lt hp
  · exact fun p _ _ h => h.elim

variable (h : Turns n seq r filled)
include h

/-- Whoever finds their ticket in the slot may fill it. -/
theorem turn (hn : 2 ≤ n) (hseq : seq (q % n) = q) : r ≤ q ∧ q < r + n ∧ ¬ filled q := by
  rcases slot_surj (by omega : 0 < n) r q with ⟨p, hp, hp', hslot⟩
  rw [← hslot] at hseq
  by_cases hf : filled p
  · -- the number would be that of the next slot
    rw [h.toEmpty p hp hp' hf] at hseq
    have hne : p % n ≠ (p + 1) % n := by
      intro heq
      have := slot_inj (Nat.le_refl p) (by omega) (by omega) (by omega) heq
      omega
    rw [← hseq] at hslot
    exact absurd hslot hne
  · rw [h.toFill p hp hp' hf] at hseq
    rw [← hseq]
    exact ⟨hp, hp', hf⟩

/-- Whoever finds an older number has come to a slot of the lap before: the ring
is full. -/
theorem full (hn : 0 < n) (hq : q ≤ r + n) (hseq : seq (q % n) < q) : q = r + n := by
  rcases slot_surj hn r q with ⟨p, hp, hp', hslot⟩
  rw [← hslot] at hseq
  have hlt : p < q := by
    by_cases hf : filled p
    · rw [h.toEmpty p hp hp' hf] at hseq
      omega
    · rw [h.toFill p hp hp' hf] at hseq
      exact hseq
  by_contra hne
  have heq := slot_inj hp hp' (by omega) (by omega) hslot
  omega

/-- The oldest ticket sees whether it is filled. -/
theorem filled_of_seq (hn : 0 < n) (hseq : seq (r % n) = r + 1) : filled r := by
  by_contra hf
  rw [h.toFill r (Nat.le_refl r) (by omega) hf] at hseq
  omega

/-- A ticket is filled. -/
theorem fill (hp : r ≤ p) (hp' : p < r + n) :
    Turns n (Function.update seq (p % n) (p + 1)) r (fun q => q = p ∨ filled q) := by
  constructor
  · intro q hq hq' hf
    have hne : q % n ≠ p % n := fun heq => hf (.inl (slot_inj hq hq' hp hp' heq))
    rw [Function.update_of_ne hne]
    exact h.toFill q hq hq' fun h' => hf (.inr h')
  · intro q hq hq' hf
    by_cases heq : q = p
    · rw [heq, Function.update_self]
    · have hne : q % n ≠ p % n := fun hslot => heq (slot_inj hq hq' hp hp' hslot)
      rw [Function.update_of_ne hne]
      exact h.toEmpty q hq hq' (hf.resolve_left heq)

/-- The oldest ticket is emptied: its slot goes to the next lap. -/
theorem empty (hnext : ¬ filled (r + n)) :
    Turns n (Function.update seq (r % n) (r + n)) (r + 1) filled := by
  have hslot : ∀ q, r + 1 ≤ q → q < r + 1 + n → q % n = r % n → q = r + n := by
    intro q hq hq' heq
    rw [← Nat.add_mod_right r n] at heq
    exact slot_inj hq hq' (by omega) (by omega) heq
  constructor
  · intro q hq hq' hf
    by_cases heq : q % n = r % n
    · rw [heq, Function.update_self, hslot q hq hq' heq]
    · rw [Function.update_of_ne heq]
      refine h.toFill q (by omega) ?_ hf
      by_contra hge
      exact heq (by rw [show q = r + n by omega, Nat.add_mod_right])
  · intro q hq hq' hf
    have heq : q % n ≠ r % n := by
      intro heq
      rw [hslot q hq hq' heq] at hf
      exact hnext hf
    rw [Function.update_of_ne heq]
    refine h.toEmpty q (by omega) ?_ hf
    by_contra hge
    exact heq (by rw [show q = r + n by omega, Nat.add_mod_right])

end Turns

end Taotu.Lib
