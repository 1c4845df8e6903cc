import Mathlib.Data.List.Basic
import Mathlib.Tactic.Common

/-!
# Taotu.Lib.Separated — fields joined by a separator

A list of values written as text: each value in its own notation, with a separator
between them. If the separator occurs in no notation and each notation can be read
back, so can the text (`parse_text`).
-/

namespace Taotu.Lib

namespace Separated

variable {α : Type*} {sep : Char} {write : α → List Char} {read : List Char → Option α}

def text (sep : Char) (write : α → List Char) (fields : List α) : List Char :=
  [sep].intercalate (fields.map write)

def parse (sep : Char) (read : List Char → Option α) (text : List Char) : Option (List α) :=
  (text.splitOn sep).mapM read

theorem text_cons_cons (a b : α) (fields : List α) :
    text sep write (a :: b :: fields) = write a ++ sep :: text sep write (b :: fields) := by
  simp [text, List.intercalate_cons_cons]

theorem mapM_read (hread : ∀ a, read (write a) = some a) (fields : List α) :
    (fields.map write).mapM read = some fields := by
  induction fields with
  | nil => rfl
  | cons a fields ih =>
    rw [List.map_cons, List.mapM_cons, hread, ih]
    rfl

theorem parse_text (hsep : ∀ a, sep ∉ write a) (hread : ∀ a, read (write a) = some a)
    {fields : List α} (hne : fields ≠ []) :
    parse sep read (text sep write fields) = some fields := by
  have hsplit : (text sep write fields).splitOn sep = fields.map write := by
    refine List.splitOn_intercalate sep ?_ (by simpa using hne)
    intro l hl
    rcases List.mem_map.mp hl with ⟨a, -, rfl⟩
    exact hsep a
  rw [parse, hsplit, mapM_read hread]

/-- The characters of a text are separators or belong to a notation. -/
theorem mem_text {fields : List α} {c : Char} (h : c ∈ text sep write fields) :
    c = sep ∨ ∃ a, c ∈ write a := by
  induction fields with
  | nil => simp [text] at h
  | cons a fields ih =>
    cases fields with
    | nil => exact .inr ⟨a, by simpa [text] using h⟩
    | cons b fields =>
      rw [text_cons_cons, List.mem_append, List.mem_cons] at h
      rcases h with hfield | rfl | hrest
      · exact .inr ⟨a, hfield⟩
      · exact .inl rfl
      · exact ih hrest

theorem sep_mem_text (a b : α) (fields : List α) : sep ∈ text sep write (a :: b :: fields) := by
  rw [text_cons_cons]
  simp

theorem length_text {w : ℕ} (hw : ∀ a, (write a).length ≤ w) {fields : List α} (hne : fields ≠ []) :
    (text sep write fields).length + 1 ≤ fields.length * (w + 1) := by
  induction fields with
  | nil => exact absurd rfl hne
  | cons a fields ih =>
    have ha := hw a
    cases fields with
    | nil => simpa [text] using ha
    | cons b fields =>
      have hrest := ih (List.cons_ne_nil b fields)
      rw [text_cons_cons, List.length_append, List.length_cons, List.length_cons, Nat.succ_mul]
      omega

end Separated

end Taotu.Lib
