import Mathlib.Logic.Function.Basic
import Mathlib.Tactic.Common

/-!
# Taotu.Lib.Holding — keys and the holders they name

A table maps keys to the holders they were handed out for, and every holder
remembers the key it holds. Two properties relate the sides: every key names a
holder that holds it (`Sound`), and every key that is held names its holder
(`Complete`).

Two moves change both sides at once: a key is handed to a holder that holds
none, and a holder gives its key up. Both keep `Sound`, even if the key that is
handed out was in use. `Complete` is lost then, and only then.
-/

namespace Taotu.Lib

universe u v

variable {κ : Type u} {τ : Type v}

/-- A key names only a holder that holds it. -/
def Sound (named : κ → Option τ) (held : τ → Option κ) : Prop :=
  ∀ k t, named k = some t → held t = some k

/-- A key that is held names its holder. -/
def Complete (named : κ → Option τ) (held : τ → Option κ) : Prop :=
  ∀ k t, held t = some k → named k = some t

/-- The table without an entry, if one is given. -/
def strike [DecidableEq κ] (named : κ → Option τ) : Option κ → κ → Option τ
  | some k => Function.update named k none
  | none => named

section

variable [DecidableEq κ] {named : κ → Option τ}

theorem of_strike {o : Option κ} {k : κ} {t : τ} (h : strike named o k = some t) :
    named k = some t ∧ o ≠ some k := by
  cases o with
  | none => exact ⟨h, by simp⟩
  | some k' =>
    rw [strike] at h
    by_cases hk : k = k'
    · rw [hk, Function.update_self] at h
      cases h
    · rw [Function.update_of_ne hk] at h
      exact ⟨h, fun heq => hk (Option.some.inj heq).symm⟩

theorem strike_of_ne {o : Option κ} {k : κ} (h : o ≠ some k) : strike named o k = named k := by
  cases o with
  | none => rfl
  | some k' =>
    rw [strike, Function.update_of_ne]
    rintro rfl
    exact h rfl

/-- Striking a key that names nobody changes nothing. -/
theorem strike_of_none {k : κ} (h : named k = none) : strike named (some k) = named := by
  rw [strike, ← h, Function.update_eq_self]

end

variable [DecidableEq κ] [DecidableEq τ] {named : κ → Option τ} {held : τ → Option κ}

namespace Sound

variable (h : Sound named held)
include h

/-- A key is handed to a holder that holds none. -/
theorem link {t : τ} (ht : held t = none) (k : κ) :
    Sound (Function.update named k (some t)) (Function.update held t (some k)) := by
  intro k' t' hk'
  by_cases hkk : k' = k
  · rw [hkk, Function.update_self] at hk'
    cases hk'
    rw [hkk, Function.update_self]
  · rw [Function.update_of_ne hkk] at hk'
    have htt : t' ≠ t := by
      rintro rfl
      rw [h k' t' hk'] at ht
      cases ht
    rw [Function.update_of_ne htt]
    exact h k' t' hk'

omit [DecidableEq τ] in
/-- A table that names less is as sound. -/
theorem strike (o : Option κ) : Sound (Lib.strike named o) held :=
  fun k t hk => h k t (of_strike hk).1

/-- A holder gives up its key, on both sides. -/
theorem unlink (t : τ) : Sound (Lib.strike named (held t)) (Function.update held t none) := by
  intro k' t' hk'
  obtain ⟨hnamed, hne⟩ := of_strike hk'
  have htt : t' ≠ t := by
    rintro rfl
    exact hne (h k' t' hnamed)
  rw [Function.update_of_ne htt]
  exact h k' t' hnamed

end Sound

namespace Complete

variable (h : Complete named held)
include h

/-- A fresh key is handed out. -/
theorem link {k : κ} (hk : named k = none) (t : τ) :
    Complete (Function.update named k (some t)) (Function.update held t (some k)) := by
  intro k' t' ht'
  by_cases htt : t' = t
  · rw [htt, Function.update_self] at ht'
    cases ht'
    rw [htt, Function.update_self]
  · rw [Function.update_of_ne htt] at ht'
    have hkk : k' ≠ k := by
      rintro rfl
      rw [h k' t' ht'] at hk
      cases hk
    rw [Function.update_of_ne hkk]
    exact h k' t' ht'

/-- A holder gives up its key, on both sides. -/
theorem unlink (t : τ) : Complete (strike named (held t)) (Function.update held t none) := by
  intro k' t' ht'
  by_cases htt : t' = t
  · rw [htt, Function.update_self] at ht'
    cases ht'
  · rw [Function.update_of_ne htt] at ht'
    have hnamed := h k' t' ht'
    have hne : held t ≠ some k' := by
      intro hk
      -- both would be named by the same key
      rw [h k' t hk] at hnamed
      exact htt (Option.some.inj hnamed).symm
    rw [strike_of_ne hne]
    exact hnamed

end Complete

end Taotu.Lib
