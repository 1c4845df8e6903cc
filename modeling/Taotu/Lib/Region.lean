import Mathlib.Data.List.Basic
import Mathlib.Tactic.Common

/-!
# Taotu.Lib.Region — byte ranges of a flat memory

A memory block is a list of cells. `slice xs i n` reads the `n` cells from
offset `i` on, `blit xs i ys` overwrites the cells from offset `i` on by `ys`.
The lemmas say which part of a block a copy changes: the written range holds
the source, every range that ends before it or starts after it is untouched.
-/

namespace Taotu.Lib

universe u

variable {α : Type u}

/-- The `n` cells of `xs` from offset `i` on. -/
def slice (xs : List α) (i n : ℕ) : List α := (xs.drop i).take n

/-- Overwrite the cells of `xs` from offset `i` on by `ys`. -/
def blit (xs : List α) (i : ℕ) (ys : List α) : List α :=
  xs.take i ++ ys ++ xs.drop (i + ys.length)

/-! ## Reading -/

@[simp] theorem slice_zero (xs : List α) (i : ℕ) : slice xs i 0 = [] := by
  simp [slice]

theorem length_slice {xs : List α} {i n : ℕ} (h : i + n ≤ xs.length) :
    (slice xs i n).length = n := by
  simp [slice]
  omega

/-- A range is read piece by piece. -/
theorem slice_add (xs : List α) (i m n : ℕ) :
    slice xs i (m + n) = slice xs i m ++ slice xs (i + m) n := by
  simp [slice, List.take_add]

theorem take_slice (xs : List α) (i : ℕ) {k n : ℕ} (h : k ≤ n) :
    (slice xs i n).take k = slice xs i k := by
  rw [slice, slice, List.take_take, Nat.min_eq_left h]

theorem drop_slice (xs : List α) (i k n : ℕ) :
    (slice xs i n).drop k = slice xs (i + k) (n - k) := by
  rw [slice, slice, List.drop_take, List.drop_drop]

/-- Cells appended behind a block do not change the ranges inside it. -/
theorem slice_append_left {xs : List α} (ys : List α) {i n : ℕ} (h : i + n ≤ xs.length) :
    slice (xs ++ ys) i n = slice xs i n := by
  rw [slice, slice, List.drop_append_of_le_length (by omega),
    List.take_append_of_le_length (by simp; omega)]

/-- Cells cut off behind a range do not change it. -/
theorem slice_take {xs : List α} {i n k : ℕ} (h : i + n ≤ k) :
    slice (xs.take k) i n = slice xs i n := by
  rw [slice, slice, List.drop_take, List.take_take, Nat.min_eq_left (by omega)]

/-! ## Writing -/

theorem length_blit {xs ys : List α} {i : ℕ} (h : i + ys.length ≤ xs.length) :
    (blit xs i ys).length = xs.length := by
  simp [blit]
  omega

/-- The written range holds the source. -/
theorem slice_blit_self {xs : List α} (ys : List α) {i : ℕ} (h : i ≤ xs.length) :
    slice (blit xs i ys) i ys.length = ys := by
  have hlen : (xs.take i).length = i := by simp [h]
  rw [slice, blit, List.append_assoc, List.drop_append_of_le_length (by omega)]
  rw [List.drop_of_length_le (by omega), List.nil_append, List.take_left]

/-- A range that ends before the written one is untouched. -/
theorem slice_blit_before {xs : List α} (ys : List α) {i j n : ℕ} (h : i ≤ xs.length)
    (hj : j + n ≤ i) : slice (blit xs i ys) j n = slice xs j n := by
  rw [blit, List.append_assoc, slice_append_left _ (by simp; omega), slice_take hj]

/-- A range that starts after the written one is untouched. -/
theorem slice_blit_after {xs ys : List α} {i j n : ℕ} (h : i ≤ xs.length)
    (hj : i + ys.length ≤ j) : slice (blit xs i ys) j n = slice xs j n := by
  have hlen : (xs.take i ++ ys).length = i + ys.length := by simp [h]
  have hdrop : (blit xs i ys).drop j = xs.drop j := by
    rw [blit, List.drop_append, List.drop_of_length_le (by omega), List.nil_append,
      List.drop_drop, hlen]
    congr 1
    omega
  rw [slice, hdrop, slice]

end Taotu.Lib
