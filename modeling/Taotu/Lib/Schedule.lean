import Mathlib.Data.List.Sort

/-!
# Taotu.Lib.Schedule — lists in order

A list that is kept in order by inserting (`List.orderedInsert`), and cut where a
property that goes down along it ends.
-/

namespace Taotu.Lib

universe u

variable {α : Type u} {r lt : α → α → Prop} {l : List α}

/-- The order `r` refines `lt`: whatever the new element is not less than comes before it,
and what it is less than comes after it, with all that is behind. -/
theorem pairwise_orderedInsert [DecidableRel lt] {a : α} (hl : l.Pairwise r)
    (hbefore : ∀ b ∈ l, ¬ lt a b → r b a) (hafter : ∀ b ∈ l, lt a b → r a b)
    (hbehind : ∀ b c, lt a b → r b c → lt a c) : (l.orderedInsert lt a).Pairwise r := by
  induction l with
  | nil => exact List.pairwise_singleton r a
  | cons b l ih =>
    rw [List.pairwise_cons] at hl
    rw [List.orderedInsert_cons]
    split
    · next hlt =>
      refine List.pairwise_cons.mpr ⟨?_, List.pairwise_cons.mpr hl⟩
      intro c hc
      rcases List.mem_cons.mp hc with rfl | hmem
      · exact hafter c hc hlt
      · exact hafter c hc (hbehind b c hlt (hl.1 c hmem))
    · next hge =>
      refine List.pairwise_cons.mpr ⟨?_, ih hl.2 ?_ ?_⟩
      · intro c hc
        rcases (List.mem_orderedInsert lt).mp hc with rfl | hc
        · exact hbefore b List.mem_cons_self hge
        · exact hl.1 c hc
      · exact fun c hc => hbefore c (List.mem_cons_of_mem b hc)
      · exact fun c hc => hafter c (List.mem_cons_of_mem b hc)

variable {p : α → Bool}

/-- What is cut off at the front is all that has the property. -/
theorem takeWhile_eq_filter (h : l.Pairwise fun a b => p b = true → p a = true) :
    l.takeWhile p = l.filter p := by
  induction l with
  | nil => rfl
  | cons a l ih =>
    rw [List.pairwise_cons] at h
    rw [List.takeWhile_cons, List.filter_cons]
    split
    · rw [ih h.2]
    · next ha =>
      symm
      rw [List.filter_eq_nil_iff]
      exact fun b hb hpb => ha (h.1 b hb hpb)

theorem dropWhile_eq_filter (h : l.Pairwise fun a b => p b = true → p a = true) :
    l.dropWhile p = l.filter fun a => !p a := by
  induction l with
  | nil => rfl
  | cons a l ih =>
    rw [List.pairwise_cons] at h
    rw [List.dropWhile_cons, List.filter_cons]
    cases hpa : p a with
    | true => exact ih h.2
    | false =>
      -- nothing behind has the property either
      refine congrArg (a :: ·) (List.filter_eq_self.mpr ?_).symm
      intro b hb
      cases hpb : p b with
      | false => rfl
      | true => exact absurd (h.1 b hb hpb) (by rw [hpa]; nofun)

end Taotu.Lib
