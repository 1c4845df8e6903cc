import Taotu.Lib.Machine
import Mathlib.Logic.Function.Basic

/-!
# Taotu.Lib.Guarded — threads around one lock

Any number of threads share a state. A thread that is inside has taken the lock, and only
such a thread may count on the shared state; the moves of the threads outside are
interleaved with its own.

`Mutex` is what is asked of the lock: an attempt takes it only when it is free, and it is
not free afterwards. An attempt may fail for no reason. `Protocol` is what is asked of the
threads: they get inside by the lock alone, and give it back when they leave.

The rule is that of a resource that the lock owns (`Guarded.kept`). `J none` is what holds
of the shared state while nobody is inside, `J (some k)` while a thread is inside at the
point `k`. Taking the lock turns the one into the other, giving it back turns it back;
the moves inside keep the second, and the moves outside keep both.
-/

namespace Taotu.Lib

universe u v w x y

/-- A lock. The flag of an attempt is for what the machine decides. -/
structure Mutex (L : Type u) where
  Free : L → Prop
  attempt : L → Bool → Option L
  release : L → L
  free_of_attempt : ∀ {l b l'}, attempt l b = some l' → Free l ∧ ¬ Free l'

/-- What a thread does, by the point it is at: the attempt to get in, the way out, and the
moves in between and outside. -/
structure Protocol (κ : Type u) (σ : Type v) (ι : Type w) where
  inside : κ → Bool
  lock : κ → Option κ
  unlock : κ → Option κ
  move : κ → σ → ι → Option (κ × σ)
  lock_inside : ∀ {k k'}, lock k = some k' → inside k = false ∧ inside k' = true
  unlock_inside : ∀ {k k'}, unlock k = some k' → inside k = true ∧ inside k' = false
  move_inside : ∀ {k s l r}, move k s l = some r → inside r.1 = inside k

structure Guarded (L : Type u) (τ : Type v) (κ : Type w) (σ : Type x) where
  lock : L
  thread : τ → κ
  shared : σ

namespace Guarded

inductive Label (τ : Type v) (ι : Type y) where
  | attempt (t : τ) (b : Bool)
  | release (t : τ)
  | move (t : τ) (l : ι)

variable {L : Type u} {τ : Type v} {κ : Type w} {σ : Type x} {ι : Type y} [DecidableEq τ]
  (M : Mutex L) (P : Protocol κ σ ι)

/-- A failed attempt leaves everything as it is, and may be made again. -/
def step (s : Guarded L τ κ σ) : Label τ ι → Option (Guarded L τ κ σ)
  | .attempt t b =>
    (P.lock (s.thread t)).map fun k =>
      match M.attempt s.lock b with
      | some l => { s with lock := l, thread := Function.update s.thread t k }
      | none => s
  | .release t =>
    (P.unlock (s.thread t)).map fun k =>
      { s with lock := M.release s.lock, thread := Function.update s.thread t k }
  | .move t l =>
    (P.move (s.thread t) s.shared l).map fun r =>
      { s with thread := Function.update s.thread t r.1, shared := r.2 }

def machine (Init : Guarded L τ κ σ → Prop) : Machine (Guarded L τ κ σ) (Label τ ι) :=
  ⟨Init, step M P⟩

/-- A condition on the moves of single threads. -/
def Ok (ok : κ → σ → ι → Prop) (s : Guarded L τ κ σ) : Label τ ι → Prop
  | .attempt _ _ | .release _ => True
  | .move t l => ok (s.thread t) s.shared l

instance (ok : κ → σ → ι → Prop) [∀ k s l, Decidable (ok k s l)] (s : Guarded L τ κ σ) :
    ∀ l, Decidable (Ok ok s l)
  | .attempt _ _ | .release _ => inferInstanceAs (Decidable True)
  | .move t l => inferInstanceAs (Decidable (ok (s.thread t) s.shared l))

/-- At most one thread is inside, and the resource is with it, or with the lock. -/
structure Kept (J : Option κ → σ → Prop) (s : Guarded L τ κ σ) : Prop where
  free : M.Free s.lock → ∀ t, P.inside (s.thread t) = false
  one : ∀ t u, P.inside (s.thread t) = true → P.inside (s.thread u) = true → t = u
  held : ∀ t, P.inside (s.thread t) = true → J (some (s.thread t)) s.shared
  home : (∀ t, P.inside (s.thread t) = false) → J none s.shared

variable {M P} {J : Option κ → σ → Prop} {s s' : Guarded L τ κ σ}

section Update

variable {t : τ} {k : κ}

/-- A thread that stays where it is, in or out, changes nothing for the lock. -/
theorem inside_update (h : P.inside k = P.inside (s.thread t)) (u : τ) :
    P.inside (Function.update s.thread t k u) = P.inside (s.thread u) := by
  by_cases hu : u = t
  · rw [hu, Function.update_self, h]
  · rw [Function.update_of_ne hu]

omit [DecidableEq τ] in
/-- When a thread is inside, every other one is outside. -/
theorem Kept.outside (h : Kept M P J s) (ht : P.inside (s.thread t) = true) {u : τ} (hu : u ≠ t) :
    P.inside (s.thread u) = false := by
  by_contra hin
  exact hu (h.one u t (Bool.not_eq_false _ ▸ hin) ht)

/-- The lock is taken. -/
theorem Kept.attempt (h : Kept M P J s) {l : L} {b : Bool} (hl : M.attempt s.lock b = some l)
    (hk : P.inside k = true) (hJ : J none s.shared → J (some k) s.shared) :
    Kept M P J { s with lock := l, thread := Function.update s.thread t k } := by
  obtain ⟨hfree, hnot⟩ := M.free_of_attempt hl
  have hnobody := h.free hfree
  have honly : ∀ u, P.inside (Function.update s.thread t k u) = true → u = t := by
    intro u hu
    by_contra hne
    rw [Function.update_of_ne hne, hnobody u] at hu
    cases hu
  refine ⟨fun hf => absurd hf hnot, ?_, ?_, ?_⟩
  · intro u v hu hv
    rw [honly u hu, honly v hv]
  · intro u hu
    obtain rfl := honly u hu
    simp only [Function.update_self]
    exact hJ (h.home hnobody)
  · intro hall
    have hself := hall t
    simp only [Function.update_self, hk] at hself
    cases hself

/-- The lock is given back. -/
theorem Kept.release (h : Kept M P J s) (ht : P.inside (s.thread t) = true)
    (hk : P.inside k = false) (hJ : J (some (s.thread t)) s.shared → J none s.shared) :
    Kept M P J { s with lock := M.release s.lock, thread := Function.update s.thread t k } := by
  have hnobody : ∀ u, P.inside (Function.update s.thread t k u) = false := by
    intro u
    by_cases hu : u = t
    · rw [hu, Function.update_self, hk]
    · rw [Function.update_of_ne hu]
      exact h.outside ht hu
  have hnone : ∀ u, P.inside (Function.update s.thread t k u) ≠ true := by
    intro u hu
    rw [hnobody u] at hu
    cases hu
  refine ⟨fun _ => hnobody, ?_, ?_, ?_⟩
  · intro u v hu _
    exact absurd hu (hnone u)
  · intro u hu
    exact absurd hu (hnone u)
  · intro _
    exact hJ (h.held t ht)

/-- A move of a thread that is inside. -/
theorem Kept.moveInside (h : Kept M P J s) (ht : P.inside (s.thread t) = true)
    (hk : P.inside k = true) {sh : σ} (hJ : J (some k) sh) :
    Kept M P J { s with thread := Function.update s.thread t k, shared := sh } := by
  have hsame := inside_update (P := P) (s := s) (t := t) (k := k) (hk.trans ht.symm)
  refine ⟨?_, ?_, ?_, ?_⟩
  · intro hfree u
    exact (hsame u).trans (h.free hfree u)
  · intro u v hu hv
    exact h.one u v ((hsame u).symm.trans hu) ((hsame v).symm.trans hv)
  · intro u hu
    obtain rfl := h.one u t ((hsame u).symm.trans hu) ht
    simp only [Function.update_self]
    exact hJ
  · intro hall
    have hself := (hsame t).symm.trans (hall t)
    rw [ht] at hself
    cases hself

/-- A move of a thread that is outside. -/
theorem Kept.moveOutside (h : Kept M P J s) (ht : P.inside (s.thread t) = false)
    (hk : P.inside k = false) {sh : σ} (hJ : ∀ p, J p s.shared → J p sh) :
    Kept M P J { s with thread := Function.update s.thread t k, shared := sh } := by
  have hsame := inside_update (P := P) (s := s) (t := t) (k := k) (hk.trans ht.symm)
  refine ⟨?_, ?_, ?_, ?_⟩
  · intro hfree u
    exact (hsame u).trans (h.free hfree u)
  · intro u v hu hv
    exact h.one u v ((hsame u).symm.trans hu) ((hsame v).symm.trans hv)
  · intro u hu
    have hin := (hsame u).symm.trans hu
    have hne : u ≠ t := by
      rintro rfl
      rw [ht] at hin
      cases hin
    simp only [Function.update_of_ne hne]
    exact hJ _ (h.held u hin)
  · intro hall
    exact hJ _ (h.home fun u => (hsame u).symm.trans (hall u))

end Update

/-- **The rule of the resource.** -/
theorem kept {Init : Guarded L τ κ σ → Prop} {ok : κ → σ → ι → Prop}
    (hinit : ∀ s, Init s → (∀ t, P.inside (s.thread t) = false) ∧ J none s.shared)
    (hlock : ∀ k k' sh, P.lock k = some k' → J none sh → J (some k') sh)
    (hunlock : ∀ k k' sh, P.unlock k = some k' → J (some k) sh → J none sh)
    (hin : ∀ k sh l r, P.inside k = true → ok k sh l → P.move k sh l = some r →
      J (some k) sh → J (some r.1) r.2)
    (hout : ∀ k sh l r, P.inside k = false → ok k sh l → P.move k sh l = some r →
      ∀ p, J p sh → J p r.2)
    (h : (machine M P Init).Reachable (Ok ok) s) : Kept M P J s := by
  have hkept : ∀ s, Init s → Kept M P J s := by
    intro s h0
    obtain ⟨hnobody, hJ⟩ := hinit s h0
    have hnone : ∀ t, P.inside (s.thread t) ≠ true := by
      intro t ht
      rw [hnobody t] at ht
      cases ht
    exact ⟨fun _ => hnobody, fun t _ ht _ => absurd ht (hnone t), fun t ht => absurd ht (hnone t),
      fun _ => hJ⟩
  refine h.invariant hkept ?_
  intro s l s' _ hs hok hstep
  cases l with
  | attempt t b =>
    obtain ⟨k, hk, rfl⟩ := Option.map_eq_some_iff.mp hstep
    cases hl : M.attempt s.lock b with
    | none => exact hs
    | some l => exact hs.attempt hl (P.lock_inside hk).2 (hlock _ k _ hk)
  | release t =>
    obtain ⟨k, hk, rfl⟩ := Option.map_eq_some_iff.mp hstep
    obtain ⟨ht, hout⟩ := P.unlock_inside hk
    exact hs.release ht hout (hunlock _ k _ hk)
  | move t l =>
    obtain ⟨r, hr, rfl⟩ := Option.map_eq_some_iff.mp hstep
    have hsame := P.move_inside hr
    cases ht : P.inside (s.thread t) with
    | true => exact hs.moveInside ht (hsame.trans ht) (hin _ _ l r ht hok hr (hs.held t ht))
    | false => exact hs.moveOutside ht (hsame.trans ht) (hout _ _ l r ht hok hr)

end Guarded

end Taotu.Lib
