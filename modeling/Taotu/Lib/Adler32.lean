import Mathlib.Algebra.Field.ZMod
import Mathlib.Tactic.LinearCombination
import Mathlib.Tactic.NormNum.Prime
import Mathlib.Tactic.Ring
import Taotu.Lib.BigEndian

/-!
# Taotu.Lib.Adler32 — what the Adler-32 checksum detects

The checksum has two halves modulo 65521: the sum of the bytes and one, and the sum of
all sums on the way. A byte counts in the second half as often as there are bytes from it
to the end.

`distance` counts the places in which two byte strings differ. Two strings with their
checksums behind them differ in at least three places, as long as they are shorter than
65521 bytes (`three_le_distance`): one byte changes both halves, and two bytes that leave
the first half alone change the second.
-/

namespace Taotu.Lib

/-! ## Distance -/

section Distance

variable {α : Type*} [DecidableEq α]

/-- The number of places in which two lists of one length differ. -/
def distance : List α → List α → ℕ
  | x :: xs, y :: ys => (if x = y then 0 else 1) + distance xs ys
  | _, _ => 0

theorem distance_self (xs : List α) : distance xs xs = 0 := by
  induction xs with
  | nil => rfl
  | cons x xs ih => simp [distance, ih]

theorem distance_append {xs ys : List α} (h : xs.length = ys.length) (xs' ys' : List α) :
    distance (xs ++ xs') (ys ++ ys') = distance xs ys + distance xs' ys' := by
  induction xs generalizing ys with
  | nil =>
    obtain rfl := List.length_eq_zero_iff.mp h.symm
    simp [distance]
  | cons x xs ih =>
    cases ys with
    | nil => cases h
    | cons y ys =>
      simp only [List.cons_append, distance, ih (Nat.succ.inj h)]
      omega

theorem eq_of_distance {xs ys : List α} (h : xs.length = ys.length) (hd : distance xs ys = 0) :
    xs = ys := by
  induction xs generalizing ys with
  | nil => exact (List.length_eq_zero_iff.mp h.symm).symm
  | cons x xs ih =>
    cases ys with
    | nil => cases h
    | cons y ys =>
      rw [distance] at hd
      split at hd
      · next hxy => rw [hxy, ih (Nat.succ.inj h) (by omega)]
      · omega

/-- The first difference. -/
theorem exists_difference {xs ys : List α} (h : xs.length = ys.length) {k : ℕ}
    (hd : distance xs ys = k + 1) :
    ∃ p x y xs' ys', xs = p ++ x :: xs' ∧ ys = p ++ y :: ys' ∧ x ≠ y ∧
      xs'.length = ys'.length ∧ distance xs' ys' = k := by
  induction xs generalizing ys with
  | nil =>
    obtain rfl := List.length_eq_zero_iff.mp h.symm
    cases hd
  | cons x xs ih =>
    cases ys with
    | nil => cases h
    | cons y ys =>
      rw [distance] at hd
      split at hd
      · next hxy =>
        obtain ⟨p, a, b, xs', ys', rfl, rfl, hne, hlen, hrest⟩ := ih (Nat.succ.inj h) (by omega)
        exact ⟨x :: p, a, b, xs', ys', rfl, by rw [hxy]; rfl, hne, hlen, hrest⟩
      · next hxy => exact ⟨[], x, y, xs, ys, rfl, rfl, hxy, Nat.succ.inj h, by omega⟩

end Distance

/-! ## Checksum -/

/-- One byte more. -/
def adlerStep (s : ℕ × ℕ) (x : UInt8) : ℕ × ℕ :=
  ((s.1 + x.toNat) % 65521, (s.2 + s.1 + x.toNat) % 65521)

def adler32 (bytes : List UInt8) : ℕ :=
  let r := bytes.foldl adlerStep (1, 0)
  r.2 * 65536 + r.1

/-- The bytes and their checksum. -/
def coded (bytes : List UInt8) : List UInt8 := bytes ++ beBytes 4 (adler32 bytes)

instance fact_prime : Fact (Nat.Prime 65521) := ⟨by norm_num⟩

/-- The sum of the bytes. -/
def total : List UInt8 → ZMod 65521
  | [] => 0
  | x :: xs => (x.toNat : ZMod 65521) + total xs

/-- The sum of the bytes, each as often as there are bytes from it to the end. -/
def weighted : List UInt8 → ZMod 65521
  | [] => 0
  | x :: xs => ((xs.length + 1 : ℕ) : ZMod 65521) * x.toNat + weighted xs

theorem foldl_adlerStep (bytes : List UInt8) (a b : ℕ) :
    ((bytes.foldl adlerStep (a, b)).1 : ZMod 65521) = a + total bytes ∧
      ((bytes.foldl adlerStep (a, b)).2 : ZMod 65521) =
        b + bytes.length * a + weighted bytes := by
  induction bytes generalizing a b with
  | nil => simp [total, weighted]
  | cons x xs ih =>
    obtain ⟨h₁, h₂⟩ := ih ((a + x.toNat) % 65521) ((b + a + x.toNat) % 65521)
    rw [List.foldl_cons, adlerStep, h₁, h₂, total, weighted, List.length_cons]
    simp only [ZMod.natCast_mod]
    push_cast
    constructor <;> ring

theorem foldl_adlerStep_lt (bytes : List UInt8) {a b : ℕ} (ha : a < 65521) (hb : b < 65521) :
    (bytes.foldl adlerStep (a, b)).1 < 65521 ∧ (bytes.foldl adlerStep (a, b)).2 < 65521 := by
  induction bytes generalizing a b with
  | nil => exact ⟨ha, hb⟩
  | cons x xs ih => exact ih (Nat.mod_lt _ (by decide)) (Nat.mod_lt _ (by decide))

/-- The checksum and its two halves. -/
theorem adler32_halves (bytes : List UInt8) :
    ((adler32 bytes % 65536 : ℕ) : ZMod 65521) = 1 + total bytes ∧
      ((adler32 bytes / 65536 : ℕ) : ZMod 65521) = bytes.length + weighted bytes ∧
      adler32 bytes < 256 ^ 4 := by
  obtain ⟨hlow, hhigh⟩ := foldl_adlerStep_lt bytes (a := 1) (b := 0) (by decide) (by decide)
  obtain ⟨h₁, h₂⟩ := foldl_adlerStep bytes 1 0
  rw [adler32]
  have hmod : ((bytes.foldl adlerStep (1, 0)).2 * 65536 + (bytes.foldl adlerStep (1, 0)).1) %
      65536 = (bytes.foldl adlerStep (1, 0)).1 := by omega
  have hdiv : ((bytes.foldl adlerStep (1, 0)).2 * 65536 + (bytes.foldl adlerStep (1, 0)).1) /
      65536 = (bytes.foldl adlerStep (1, 0)).2 := by omega
  refine ⟨?_, ?_, by omega⟩
  · rw [hmod, h₁]
    simp
  · rw [hdiv, h₂]
    simp

/-! ## Differences -/

theorem total_append (xs ys : List UInt8) : total (xs ++ ys) = total xs + total ys := by
  induction xs with
  | nil => simp [total]
  | cons x xs ih => rw [List.cons_append, total, total, ih, add_assoc]

theorem weighted_append (xs ys : List UInt8) :
    weighted (xs ++ ys) = weighted xs + ys.length * total xs + weighted ys := by
  induction xs with
  | nil => simp [weighted, total]
  | cons x xs ih =>
    rw [List.cons_append, weighted, weighted, total, ih, List.length_append]
    push_cast
    ring

/-- What a change of one byte does, and of those behind it. -/
theorem changes {p xs ys : List UInt8} {x y : UInt8} (h : xs.length = ys.length) :
    total (p ++ y :: ys) - total (p ++ x :: xs) =
        ((y.toNat : ZMod 65521) - x.toNat) + (total ys - total xs) ∧
      weighted (p ++ y :: ys) - weighted (p ++ x :: xs) =
        ((xs.length + 1 : ℕ) : ZMod 65521) * ((y.toNat : ZMod 65521) - x.toNat) +
          (weighted ys - weighted xs) := by
  simp only [total_append, weighted_append, total, weighted, List.length_cons, h]
  constructor <;> ring

theorem byte_sub_ne_zero {x y : UInt8} (h : x ≠ y) : (y.toNat : ZMod 65521) - x.toNat ≠ 0 := by
  intro hzero
  have heq := (ZMod.natCast_eq_natCast_iff' _ _ _).mp (sub_eq_zero.mp hzero)
  have hx := x.toNat_lt
  have hy := y.toNat_lt
  rw [Nat.mod_eq_of_lt (by omega), Nat.mod_eq_of_lt (by omega)] at heq
  exact h (UInt8.toNat_inj.mp heq.symm)

theorem natCast_ne_zero {n : ℕ} (hpos : 0 < n) (hn : n < 65521) : (n : ZMod 65521) ≠ 0 := by
  intro hzero
  have hdvd := (ZMod.natCast_eq_zero_iff n 65521).mp hzero
  exact absurd (Nat.le_of_dvd hpos hdvd) (by omega)

/-- One byte changes both halves. -/
theorem halves_ne_of_one {xs ys : List UInt8} (h : xs.length = ys.length)
    (hlen : xs.length < 65521) (hd : distance xs ys = 1) :
    adler32 xs % 65536 ≠ adler32 ys % 65536 ∧ adler32 xs / 65536 ≠ adler32 ys / 65536 := by
  obtain ⟨p, x, y, xs, ys, rfl, rfl, hne, hlen', hrest⟩ := exists_difference h hd
  obtain rfl := eq_of_distance hlen' hrest
  obtain ⟨htotal, hweighted⟩ := changes (p := p) (x := x) (y := y) hlen'
  rw [sub_self, add_zero] at htotal hweighted
  have hbyte := byte_sub_ne_zero hne
  obtain ⟨hl, hh, -⟩ := adler32_halves (p ++ x :: xs)
  obtain ⟨hl', hh', -⟩ := adler32_halves (p ++ y :: xs)
  constructor
  · intro heq
    apply hbyte
    rw [← htotal]
    have hsame := hl.symm.trans ((congrArg (Nat.cast : ℕ → ZMod 65521) heq).trans hl')
    linear_combination -hsame
  · intro heq
    have hcount : ((xs.length + 1 : ℕ) : ZMod 65521) ≠ 0 := by
      refine natCast_ne_zero (Nat.succ_pos _) ?_
      rw [List.length_append, List.length_cons] at hlen
      omega
    apply mul_ne_zero hcount hbyte
    rw [← hweighted]
    have hsame := hh.symm.trans ((congrArg (Nat.cast : ℕ → ZMod 65521) heq).trans hh')
    rw [h] at hsame
    linear_combination -hsame

/-- Two bytes change a half. -/
theorem adler32_ne_of_two {xs ys : List UInt8} (h : xs.length = ys.length)
    (hlen : xs.length < 65521) (hd : distance xs ys = 2) : adler32 xs ≠ adler32 ys := by
  intro heq
  obtain ⟨hl, hh, -⟩ := adler32_halves xs
  obtain ⟨hl', hh', -⟩ := adler32_halves ys
  rw [← heq, hl] at hl'
  rw [← heq, hh, h] at hh'
  have htotal : total ys - total xs = 0 := by linear_combination -hl'
  have hweighted : weighted ys - weighted xs = 0 := by linear_combination -hh'
  obtain ⟨p, x, y, xs, ys, rfl, rfl, hne, hlen₁, hrest⟩ := exists_difference h hd
  obtain ⟨q, u, v, xs, ys, rfl, rfl, hne', hlen₂, hrest'⟩ := exists_difference hlen₁ hrest
  obtain rfl := eq_of_distance hlen₂ hrest'
  rw [(changes hlen₁).1, (changes hlen₂).1, sub_self, add_zero] at htotal
  rw [(changes hlen₁).2, (changes hlen₂).2, sub_self, add_zero] at hweighted
  -- the second byte undoes the first in the sum, but it counts less often
  have hgap : ((q.length + 1 : ℕ) : ZMod 65521) * ((y.toNat : ZMod 65521) - x.toNat) = 0 := by
    rw [List.length_append, List.length_cons] at hweighted
    push_cast at hweighted ⊢
    linear_combination hweighted - ((xs.length : ZMod 65521) + 1) * htotal
  have hcount : ((q.length + 1 : ℕ) : ZMod 65521) ≠ 0 := by
    refine natCast_ne_zero (Nat.succ_pos _) ?_
    simp only [List.length_append, List.length_cons] at hlen
    omega
  exact mul_ne_zero hcount (byte_sub_ne_zero hne) hgap

/-! ## Codewords -/

theorem ofNat_congr {a b : ℕ} (h : a % 256 = b % 256) : UInt8.ofNat a = UInt8.ofNat b := by
  apply UInt8.toNat_inj.mp
  rw [UInt8.toNat_ofNat', UInt8.toNat_ofNat']
  exact h

theorem beBytes_halves (v : ℕ) : beBytes 4 v = beBytes 2 (v / 65536) ++ beBytes 2 (v % 65536) := by
  simp only [beBytes, List.nil_append, List.cons_append, List.cons.injEq, and_true]
  refine ⟨ofNat_congr ?_, ofNat_congr ?_, ofNat_congr ?_, ofNat_congr ?_⟩ <;> omega

/-- Different numbers have different bytes. -/
theorem distance_beBytes_pos {n a b : ℕ} (ha : a < 256 ^ n) (hb : b < 256 ^ n) (h : a ≠ b) :
    0 < distance (beBytes n a) (beBytes n b) := by
  refine Nat.pos_of_ne_zero ?_
  intro hzero
  have heq := eq_of_distance (by rw [length_beBytes, length_beBytes]) hzero
  have hval := congrArg ofBeBytes heq
  rw [ofBeBytes_beBytes, ofBeBytes_beBytes, Nat.mod_eq_of_lt ha, Nat.mod_eq_of_lt hb] at hval
  exact h hval

/-- **Two codewords differ in at least three places.** -/
theorem three_le_distance {xs ys : List UInt8} (h : xs.length = ys.length)
    (hlen : xs.length < 65521) (hne : xs ≠ ys) : 3 ≤ distance (coded xs) (coded ys) := by
  obtain ⟨-, -, hx⟩ := adler32_halves xs
  obtain ⟨-, -, hy⟩ := adler32_halves ys
  rw [coded, coded, distance_append h]
  rcases hd : distance xs ys with _ | _ | _ | d
  · exact absurd (eq_of_distance h hd) hne
  · -- both halves of the checksum are others
    obtain ⟨hlow, hhigh⟩ := halves_ne_of_one h hlen hd
    have h₁ := distance_beBytes_pos (n := 2) (by omega) (by omega) hhigh
    have h₂ := distance_beBytes_pos (n := 2) (by omega) (by omega) hlow
    rw [beBytes_halves, beBytes_halves, distance_append (by rw [length_beBytes, length_beBytes])]
    omega
  · have h₁ := distance_beBytes_pos hx hy (adler32_ne_of_two h hlen hd)
    omega
  · omega

end Taotu.Lib
