import Mathlib.Logic.Basic
import Mathlib.Tactic.Common

/-!
# Taotu.Lib.Machine — labelled machines and conditional runs

The transition systems of this development are deterministic once the label
is chosen: a label carries everything the environment decides (a kernel
result, a user's call, the order of events), and `step` answers the next state
or `none` when the label is not enabled.

Claims about every run are invariants of `Reachable`. Its parameter `ok` is a
condition on single steps: `Reachable ok` collects the states of the runs
whose steps all meet it, so `Reachable fun _ _ => True` is plain reachability
and a smaller `ok` says under which conditions a property survives.

A machine that refines another one makes its steps or stands still
(`Reachable.simulate`).
-/

namespace Taotu.Lib

universe u v u' v'

/-- A labelled machine: initial states and a partial step function. -/
structure Machine (σ : Type u) (ι : Type v) where
  Init : σ → Prop
  step : σ → ι → Option σ

namespace Machine

variable {σ : Type u} {ι : Type v} (M : Machine σ ι)

/-- The states of the runs whose steps all meet `ok`. -/
inductive Reachable (ok : σ → ι → Prop) : σ → Prop where
  | init {s : σ} : M.Init s → Reachable ok s
  | step {s s' : σ} (l : ι) : Reachable ok s → ok s l → M.step s l = some s' → Reachable ok s'

variable {M}

/-- Inductive invariance: what holds initially and is kept by every step that
meets `ok` holds in every state of those runs. The step may use whatever is
already known of reachable states. -/
theorem Reachable.invariant {ok : σ → ι → Prop} {Inv : σ → Prop}
    (hinit : ∀ s, M.Init s → Inv s)
    (hstep : ∀ s l s', M.Reachable ok s → Inv s → ok s l → M.step s l = some s' → Inv s')
    {s : σ} (h : M.Reachable ok s) : Inv s := by
  induction h with
  | init h0 => exact hinit _ h0
  | step l hreach hok hs ih => exact hstep _ l _ hreach ih hok hs

/-- Runs under a stronger condition are runs under a weaker one. -/
theorem Reachable.mono {ok ok' : σ → ι → Prop} (hle : ∀ s l, ok s l → ok' s l)
    {s : σ} (h : M.Reachable ok s) : M.Reachable ok' s := by
  induction h with
  | init h0 => exact .init h0
  | step l _ hok hs ih => exact .step l ih (hle _ _ hok) hs

/-- The condition may be met because of what is known of the states reached. -/
theorem Reachable.mono_of {ok ok' : σ → ι → Prop}
    (hle : ∀ s l, M.Reachable ok s → ok s l → ok' s l) {s : σ} (h : M.Reachable ok s) :
    M.Reachable ok' s := by
  induction h with
  | init h0 => exact .init h0
  | step l hreach hok hs ih => exact .step l ih (hle _ _ hreach hok) hs

/-! ## Simulation -/

section Simulation

variable {σ' : Type u'} {ι' : Type v'} {N : Machine σ' ι'} {ok : σ → ι → Prop}
  {ok' : σ' → ι' → Prop}

/-- Every step is matched by a step of the other machine, or by none. -/
theorem Reachable.simulate {R : σ → σ' → Prop} (hinit : ∀ s, M.Init s → ∃ t, N.Init t ∧ R s t)
    (hstep : ∀ s l s' t, M.Reachable ok s → R s t → ok s l → M.step s l = some s' →
      R s' t ∨ ∃ l' t', ok' t l' ∧ N.step t l' = some t' ∧ R s' t')
    {s : σ} (h : M.Reachable ok s) : ∃ t, N.Reachable ok' t ∧ R s t := by
  induction h with
  | init h0 =>
    rcases hinit _ h0 with ⟨t, ht, hR⟩
    exact ⟨t, .init ht, hR⟩
  | step l hreach hok hs ih =>
    rcases ih with ⟨t, ht, hR⟩
    rcases hstep _ l _ t hreach hR hok hs with hR' | ⟨l', t', hok', hs', hR'⟩
    · exact ⟨t, ht, hR'⟩
    · exact ⟨t', .step l' ht hok' hs', hR'⟩

/-- A part of the state is a machine of its own. -/
theorem Reachable.project (f : σ → σ') (hinit : ∀ s, M.Init s → N.Init (f s))
    (hstep : ∀ s l s', ok s l → M.step s l = some s' →
      f s' = f s ∨ ∃ l', ok' (f s) l' ∧ N.step (f s) l' = some (f s'))
    {s : σ} (h : M.Reachable ok s) : N.Reachable ok' (f s) := by
  have hsim : ∃ t, N.Reachable ok' t ∧ f s = t := by
    refine h.simulate (fun s h0 => ⟨f s, hinit s h0, rfl⟩) ?_
    rintro s l s' _ - rfl hok hs
    rcases hstep s l s' hok hs with hsame | ⟨l', hok', hs'⟩
    · exact .inl hsame
    · exact .inr ⟨l', _, hok', hs', rfl⟩
  rcases hsim with ⟨_, ht, rfl⟩
  exact ht

end Simulation

/-! ## Counted runs -/

/-- The runs from `s` whose steps all meet `ok`, with the number of labels that are in
`p`. -/
inductive Counted (M : Machine σ ι) (ok : σ → ι → Prop) (p : ι → Prop) (s : σ) : ℕ → σ → Prop where
  | refl : Counted M ok p s 0 s
  | count {n : ℕ} {t t' : σ} (l : ι) : Counted M ok p s n t → ok t l → M.step t l = some t' →
      p l → Counted M ok p s (n + 1) t'
  | other {n : ℕ} {t t' : σ} (l : ι) : Counted M ok p s n t → ok t l → M.step t l = some t' →
      ¬ p l → Counted M ok p s n t'

theorem Counted.reachable {ok : σ → ι → Prop} {p : ι → Prop} {s t : σ} {n : ℕ}
    (h : M.Counted ok p s n t) (hs : M.Reachable ok s) : M.Reachable ok t := by
  induction h with
  | refl => exact hs
  | count l _ hok hstep _ ih => exact .step l ih hok hstep
  | other l _ hok hstep _ ih => exact .step l ih hok hstep

/-- What holds at first, and is carried from `n` to `n + 1` by the steps that count and
kept by the others. -/
theorem Counted.invariant {ok : σ → ι → Prop} {p : ι → Prop} {Inv : ℕ → σ → Prop} {s t : σ} {n : ℕ}
    (hs : M.Reachable ok s) (hinit : Inv 0 s)
    (hcount : ∀ n t l t', M.Reachable ok t → Inv n t → ok t l → M.step t l = some t' → p l →
      Inv (n + 1) t')
    (hother : ∀ n t l t', M.Reachable ok t → Inv n t → ok t l → M.step t l = some t' → ¬ p l →
      Inv n t')
    (h : M.Counted ok p s n t) : Inv n t := by
  induction h with
  | refl => exact hinit
  | count l hrun hok hstep hl ih => exact hcount _ _ l _ (hrun.reachable hs) ih hok hstep hl
  | other l hrun hok hstep hl ih => exact hother _ _ l _ (hrun.reachable hs) ih hok hstep hl

theorem Counted.trans {ok : σ → ι → Prop} {p : ι → Prop} {s t u : σ} {m n : ℕ}
    (h : M.Counted ok p s m t) (h' : M.Counted ok p t n u) : M.Counted ok p s (m + n) u := by
  induction h' with
  | refl => exact h
  | count l _ hok hstep hl ih => exact .count l ih hok hstep hl
  | other l _ hok hstep hl ih => exact .other l ih hok hstep hl

/-- A run is one whatever is counted. -/
theorem Counted.recount {ok : σ → ι → Prop} {p q : ι → Prop} {s t : σ} {n : ℕ}
    (h : M.Counted ok p s n t) : ∃ m, M.Counted ok q s m t := by
  have hstep : ∀ {m t t' l}, M.Counted ok q s m t → ok t l → M.step t l = some t' →
      ∃ m, M.Counted ok q s m t' := by
    intro m t t' l hrun hok hs
    by_cases hl : q l
    · exact ⟨_, .count l hrun hok hs hl⟩
    · exact ⟨_, .other l hrun hok hs hl⟩
  induction h with
  | refl => exact ⟨0, .refl⟩
  | count l _ hok hs _ ih => exact ih.elim fun _ hrun => hstep hrun hok hs
  | other l _ hok hs _ ih => exact ih.elim fun _ hrun => hstep hrun hok hs

/-- As long as `P` does not hold the machine can make the measure smaller, without a label
that counts: then it can get to `P`. -/
theorem Counted.exists_of_measure {ok : σ → ι → Prop} {p : ι → Prop} {Inv P : σ → Prop} (μ : σ → ℕ)
    (hdown : ∀ s, Inv s → ¬ P s → ∃ t, M.Counted ok p s 0 t ∧ Inv t ∧ μ t < μ s)
    {s : σ} (hs : Inv s) : ∃ t, M.Counted ok p s 0 t ∧ Inv t ∧ P t := by
  induction hn : μ s using Nat.strongRecOn generalizing s with
  | ind n ih =>
    by_cases hend : P s
    · exact ⟨s, .refl, hs, hend⟩
    · rcases hdown s hs hend with ⟨t, hrun, ht, hlt⟩
      rcases ih (μ t) (hn ▸ hlt) ht rfl with ⟨u, hrun', hu, hend'⟩
      exact ⟨u, hrun.trans hrun', hu, hend'⟩

/-! ## Executable runs -/

/-- Follow the labels as long as each is enabled and meets `ok`. -/
def runIf (M : Machine σ ι) (ok : σ → ι → Prop) [∀ s l, Decidable (ok s l)] :
    σ → List ι → Option σ
  | s, [] => some s
  | s, l :: ls =>
    if ok s l then
      match M.step s l with
      | some s' => runIf M ok s' ls
      | none => none
    else none

section RunIf

variable {ok : σ → ι → Prop} [∀ s l, Decidable (ok s l)]

theorem runIf_cons {l : ι} {ls : List ι} {s t : σ} (h : M.runIf ok s (l :: ls) = some t) :
    ok s l ∧ ∃ s₁, M.step s l = some s₁ ∧ M.runIf ok s₁ ls = some t := by
  rw [runIf] at h
  split at h
  · next hok =>
    split at h
    · next s₁ hs => exact ⟨hok, s₁, hs, h⟩
    · cases h
  · cases h

/-- The condition only cuts runs off. -/
theorem runIf_true {ls : List ι} {s t : σ} (h : M.runIf ok s ls = some t) :
    M.runIf (fun _ _ => True) s ls = some t := by
  induction ls generalizing s with
  | nil => exact h
  | cons l ls ih =>
    obtain ⟨-, s₁, hs, hrun⟩ := runIf_cons h
    rw [runIf, if_pos trivial, hs]
    exact ih hrun

end RunIf

/-- An executed run continues a reachable state. -/
theorem Reachable.of_runIf {ok : σ → ι → Prop} [∀ s l, Decidable (ok s l)] {ls : List ι}
    {s s' : σ} (h : M.Reachable ok s) (hrun : M.runIf ok s ls = some s') :
    M.Reachable ok s' := by
  induction ls generalizing s with
  | nil =>
    rw [runIf, Option.some.injEq] at hrun
    exact hrun ▸ h
  | cons l ls ih =>
    obtain ⟨hok, s₁, hs, hrun⟩ := runIf_cons hrun
    exact ih (.step l h hok hs) hrun

/-- A run found by evaluation: it is enough to test the state it ends in. -/
theorem exists_of_run (M : Machine σ ι) (ok : σ → ι → Prop) [∀ s l, Decidable (ok s l)] {s : σ}
    (h : M.Init s) (ls : List ι) (P : σ → Prop) [DecidablePred P]
    (hrun : (M.runIf ok s ls).any (fun t => decide (P t)) = true) :
    ∃ t, M.Reachable ok t ∧ P t := by
  obtain ⟨t, ht, hP⟩ := (Option.any_eq_true _ _).mp hrun
  exact ⟨t, (Reachable.init h).of_runIf ht, of_decide_eq_true hP⟩

end Machine

end Taotu.Lib
