import Mathlib.Data.List.Induction
import Mathlib.Data.Int.Basic
import Mathlib.Tactic.Linarith

/-!
# Taotu.Lib.BigEndian — fixed-width numbers on the wire

Unsigned numbers as big-endian byte strings of a fixed width, and the two's
complement reading of a word (`Int.bmod`). The encoder truncates like a C cast
to an unsigned type does, so encoding and decoding are inverse up to the width.

A word in memory has the byte order of its machine (`ByteOrder`). Converting it to
big-endian order first puts the same bytes on the wire on every machine
(`ByteOrder.bytes_toBig`).
-/

namespace Taotu.Lib

/-- The `n` low bytes of `x`, most significant first. -/
def beBytes : ℕ → ℕ → List UInt8
  | 0, _ => []
  | n + 1, x => beBytes n (x / 256) ++ [UInt8.ofNat x]

/-- The number a big-endian byte string stands for. -/
def ofBeBytes (bs : List UInt8) : ℕ := bs.foldl (fun acc b => acc * 256 + b.toNat) 0

@[simp] theorem length_beBytes (n x : ℕ) : (beBytes n x).length = n := by
  induction n generalizing x with
  | zero => rfl
  | succ n ih => simp [beBytes, ih]

@[simp] theorem ofBeBytes_nil : ofBeBytes [] = 0 := rfl

theorem ofBeBytes_concat (bs : List UInt8) (b : UInt8) :
    ofBeBytes (bs ++ [b]) = ofBeBytes bs * 256 + b.toNat := by
  simp [ofBeBytes, List.foldl_append]

/-- Decoding undoes encoding up to the width. -/
theorem ofBeBytes_beBytes (n x : ℕ) : ofBeBytes (beBytes n x) = x % 256 ^ n := by
  induction n generalizing x with
  | zero => simp [beBytes, Nat.mod_one]
  | succ n ih =>
    rw [beBytes, ofBeBytes_concat, ih, UInt8.toNat_ofNat', pow_succ' 256 n, Nat.mod_mul]
    omega

theorem ofBeBytes_lt (bs : List UInt8) : ofBeBytes bs < 256 ^ bs.length := by
  induction bs using List.reverseRecOn with
  | nil => simp
  | append_singleton bs b ih =>
    rw [ofBeBytes_concat, List.length_append, List.length_singleton, pow_succ]
    have hb : b.toNat < 256 := b.toNat_lt
    nlinarith

/-- Encoding undoes decoding. -/
theorem beBytes_ofBeBytes (bs : List UInt8) : beBytes bs.length (ofBeBytes bs) = bs := by
  induction bs using List.reverseRecOn with
  | nil => rfl
  | append_singleton bs b ih =>
    have hb : b.toNat < 256 := b.toNat_lt
    have hdiv : (ofBeBytes bs * 256 + b.toNat) / 256 = ofBeBytes bs := by omega
    have hlow : UInt8.ofNat (ofBeBytes bs * 256 + b.toNat) = b := by
      apply UInt8.toNat_inj.mp
      rw [UInt8.toNat_ofNat']
      omega
    rw [List.length_append, List.length_singleton, beBytes, ofBeBytes_concat, hdiv, ih, hlow]

theorem beBytes_mod (n x : ℕ) : beBytes n (x % 256 ^ n) = beBytes n x := by
  have h := beBytes_ofBeBytes (beBytes n x)
  rwa [length_beBytes, ofBeBytes_beBytes] at h

/-! ## Two's complement words -/

/-- Reading a word as signed and writing it back truncates it to the width. -/
theorem bmod_toNat (x m : ℕ) :
    ((Int.bmod (x : ℤ) m) % (m : ℤ)).toNat = x % m := by
  rw [Int.bmod_emod]
  omega

/-- Two words with one signed reading are equal up to the width. -/
theorem mod_eq_of_bmod_eq {x y m : ℕ} (h : Int.bmod (x : ℤ) m = Int.bmod (y : ℤ) m) :
    x % m = y % m := by
  rw [← bmod_toNat x m, ← bmod_toNat y m, h]

theorem bmod_mod (x m : ℕ) : Int.bmod ((x % m : ℕ) : ℤ) m = Int.bmod (x : ℤ) m := by
  rw [Int.natCast_mod, Int.emod_bmod]

/-- The cast of a signed number to an unsigned word of `n` bytes. -/
def toUnsigned (n : ℕ) (x : ℤ) : ℕ := (x % ((256 ^ n : ℕ) : ℤ)).toNat

/-- The cast of a word of `n` bytes to a signed number. -/
def toSigned (n x : ℕ) : ℤ := Int.bmod x (256 ^ n)

/-- A signed number of `n` bytes survives the way through an unsigned word. -/
theorem toSigned_toUnsigned {n : ℕ} {x : ℤ} (hlo : -((256 ^ n : ℕ) : ℤ) ≤ 2 * x)
    (hhi : 2 * x < ((256 ^ n : ℕ) : ℤ)) : toSigned n (toUnsigned n x) = x := by
  have hpos : (0 : ℤ) < ((256 ^ n : ℕ) : ℤ) := by positivity
  have hnonneg : 0 ≤ x % ((256 ^ n : ℕ) : ℤ) := Int.emod_nonneg _ hpos.ne'
  rw [toSigned, toUnsigned, Int.toNat_of_nonneg hnonneg, Int.emod_bmod]
  exact Int.bmod_eq_of_le_mul_two (by omega) (by omega)

theorem toUnsigned_lt (n : ℕ) (x : ℤ) : toUnsigned n x < 256 ^ n := by
  have hpos : (0 : ℤ) < ((256 ^ n : ℕ) : ℤ) := by positivity
  have hlt := Int.emod_lt_of_pos x hpos
  rw [toUnsigned]
  omega

/-! ## Words in memory -/

/-- The order in which a machine lays out the bytes of a word. -/
inductive ByteOrder where
  | little
  | big
deriving DecidableEq, Repr

namespace ByteOrder

variable (o : ByteOrder)

/-- A word of `n` bytes, as it stands in memory. -/
def bytes (n x : ℕ) : List UInt8 :=
  match o with
  | little => (beBytes n x).reverse
  | big => beBytes n x

/-- The word that bytes in memory stand for. -/
def word (bs : List UInt8) : ℕ :=
  match o with
  | little => ofBeBytes bs.reverse
  | big => ofBeBytes bs

/-- Conversion of a word of `n` bytes to big-endian order, and back. -/
def toBig (n x : ℕ) : ℕ :=
  match o with
  | little => ofBeBytes (beBytes n x).reverse
  | big => x

@[simp] theorem length_bytes (n x : ℕ) : (o.bytes n x).length = n := by
  cases o with
  | little => rw [bytes, List.length_reverse, length_beBytes]
  | big => exact length_beBytes n x

theorem word_bytes (n x : ℕ) : o.word (o.bytes n x) = x % 256 ^ n := by
  cases o with
  | little => rw [word, bytes, List.reverse_reverse, ofBeBytes_beBytes]
  | big => exact ofBeBytes_beBytes n x

/-- A converted word stands in memory most significant byte first. -/
theorem bytes_toBig (n x : ℕ) : o.bytes n (o.toBig n x) = beBytes n x := by
  cases o with
  | big => rfl
  | little =>
    have h := beBytes_ofBeBytes (beBytes n x).reverse
    rw [List.length_reverse, length_beBytes] at h
    rw [bytes, toBig, h, List.reverse_reverse]

/-- Converting the word back reads its bytes most significant first. -/
theorem toBig_word {n : ℕ} {bs : List UInt8} (h : bs.length = n) :
    o.toBig n (o.word bs) = ofBeBytes bs := by
  cases o with
  | big => rfl
  | little =>
    have hback := beBytes_ofBeBytes bs.reverse
    rw [List.length_reverse, h] at hback
    rw [toBig, word, hback, List.reverse_reverse]

end ByteOrder

end Taotu.Lib
