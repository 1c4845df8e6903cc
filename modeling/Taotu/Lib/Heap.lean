import Taotu.Lib.BigEndian

/-!
# Taotu.Lib.Heap — words and linked lists in a memory of bytes

A memory gives a byte at every address. Words of eight bytes are stored at any
address, aligned or not, in the byte order of the machine.

`Linked o m head l` says that following the words from `head` on visits the nodes `l`
and ends in null. What is stored outside of the words of the nodes does not matter
(`Linked.store`), and storing the old head in a node outside of the list puts that
node in front (`Linked.push`).

`tiles` are blocks of one size that lie one behind the other.
-/

namespace Taotu.Lib

abbrev Mem := ℕ → UInt8

namespace Mem

/-- Overwrite the bytes from address `a` on by `bs`. -/
def store (m : Mem) (a : ℕ) (bs : List UInt8) : Mem := fun x =>
  if a ≤ x then (bs[x - a]?).getD (m x) else m x

/-- The `n` bytes from address `a` on. -/
def load (m : Mem) (a n : ℕ) : List UInt8 := (List.range n).map fun i => m (a + i)

def storeWord (o : ByteOrder) (m : Mem) (a v : ℕ) : Mem := m.store a (o.bytes 8 v)

def loadWord (o : ByteOrder) (m : Mem) (a : ℕ) : ℕ := o.word (m.load a 8)

variable {o : ByteOrder} {m m' : Mem} {a v x : ℕ} {bs : List UInt8}

theorem store_outside (h : x < a ∨ a + bs.length ≤ x) : m.store a bs x = m x := by
  rw [store]
  split
  · next hle =>
    have hlen : bs.length ≤ x - a := by omega
    rw [List.getElem?_eq_none hlen, Option.getD_none]
  · rfl

theorem storeWord_outside (h : x < a ∨ a + 8 ≤ x) : m.storeWord o a v x = m x :=
  store_outside (by rwa [o.length_bytes])

/-- Stores that lie apart can be made in any order. -/
theorem store_comm {b : ℕ} {cs : List UInt8} (h : a + bs.length ≤ b ∨ b + cs.length ≤ a) :
    (m.store a bs).store b cs = (m.store b cs).store a bs := by
  funext x
  by_cases hx : x < a ∨ a + bs.length ≤ x
  · rw [store_outside hx]
    by_cases hx' : x < b ∨ b + cs.length ≤ x
    · rw [store_outside hx', store_outside hx', store_outside hx]
    · -- inside of the other one, both sides are what it stores
      unfold store
      have hb : b ≤ x := by omega
      have hlt : x - b < cs.length := by omega
      simp only [if_pos hb, List.getElem?_eq_getElem hlt, Option.getD_some]
  · have hx' : x < b ∨ b + cs.length ≤ x := by omega
    rw [store_outside hx']
    unfold store
    have ha : a ≤ x := by omega
    have hlt : x - a < bs.length := by omega
    simp only [if_pos ha, List.getElem?_eq_getElem hlt, Option.getD_some]

theorem load_store : (m.store a bs).load a bs.length = bs := by
  apply List.ext_getElem
  · rw [load, List.length_map, List.length_range]
  · intro i hi hi'
    have hle : a ≤ a + i := Nat.le_add_right a i
    simp only [load, List.getElem_map, List.getElem_range, store, if_pos hle,
      Nat.add_sub_cancel_left, List.getElem?_eq_getElem hi', Option.getD_some]

theorem loadWord_storeWord (hv : v < 256 ^ 8) : (m.storeWord o a v).loadWord o a = v := by
  have hload : (m.storeWord o a v).load a 8 = o.bytes 8 v := by
    have h : (m.store a (o.bytes 8 v)).load a (o.bytes 8 v).length = o.bytes 8 v := load_store
    rwa [o.length_bytes] at h
  rw [loadWord, hload, o.word_bytes, Nat.mod_eq_of_lt hv]

/-- A word depends on its own bytes only. -/
theorem loadWord_congr (h : ∀ x, a ≤ x → x < a + 8 → m' x = m x) :
    m'.loadWord o a = m.loadWord o a := by
  have hload : m'.load a 8 = m.load a 8 := by
    refine List.map_congr_left ?_
    intro i hi
    have hlt := List.mem_range.mp hi
    exact h (a + i) (by omega) (by omega)
  rw [loadWord, hload, loadWord]

end Mem

/-! ## Linked lists -/

/-- The nodes on the way from `head` to null. -/
def Linked (o : ByteOrder) (m : Mem) : ℕ → List ℕ → Prop
  | head, [] => head = 0
  | head, a :: l => head = a ∧ a ≠ 0 ∧ a < 256 ^ 8 ∧ Linked o m (m.loadWord o a) l

namespace Linked

variable {o : ByteOrder} {m m' : Mem} {head a : ℕ} {l : List ℕ}

theorem head_lt (h : Linked o m head l) : head < 256 ^ 8 := by
  cases l with
  | nil =>
    rw [show head = 0 from h]
    decide
  | cons b l =>
    obtain ⟨rfl, -, hlt, -⟩ := h
    exact hlt

theorem eq_nil (h : Linked o m 0 l) : l = [] := by
  cases l with
  | nil => rfl
  | cons b l =>
    obtain ⟨rfl, hne, -⟩ := h
    exact absurd rfl hne

theorem ne_nil (h : Linked o m head l) (hne : head ≠ 0) : l ≠ [] := by
  rintro rfl
  exact hne h

/-- A list depends on the words of its nodes only. -/
theorem congr (h : Linked o m head l) (hagree : ∀ a ∈ l, ∀ x, a ≤ x → x < a + 8 → m' x = m x) :
    Linked o m' head l := by
  induction l generalizing head with
  | nil => exact h
  | cons b l ih =>
    obtain ⟨rfl, hne, hlt, hrest⟩ := h
    have hword := Mem.loadWord_congr (o := o) (hagree head List.mem_cons_self)
    refine ⟨rfl, hne, hlt, ?_⟩
    rw [hword]
    exact ih hrest fun a ha => hagree a (List.mem_cons_of_mem head ha)

/-- Storing outside of the words of a list keeps it. -/
theorem store {bs : List UInt8} (h : Linked o m head l)
    (hout : ∀ b ∈ l, b + 8 ≤ a ∨ a + bs.length ≤ b) : Linked o (m.store a bs) head l := by
  refine h.congr ?_
  intro b hb x hlo hhi
  have hapart := hout b hb
  exact Mem.store_outside (by omega)

theorem storeWord {v : ℕ} (h : Linked o m head l) (hout : ∀ b ∈ l, b + 8 ≤ a ∨ a + 8 ≤ b) :
    Linked o (m.storeWord o a v) head l :=
  h.store (by rwa [o.length_bytes])

theorem push (h : Linked o m head l) (hne : a ≠ 0) (hlt : a < 256 ^ 8)
    (hout : ∀ b ∈ l, b + 8 ≤ a ∨ a + 8 ≤ b) : Linked o (m.storeWord o a head) a (a :: l) := by
  refine ⟨rfl, hne, hlt, ?_⟩
  rw [Mem.loadWord_storeWord h.head_lt]
  exact h.storeWord hout

end Linked

/-! ## Blocks of one size -/

/-- Two blocks of `size` bytes do not overlap. -/
def Apart (size a b : ℕ) : Prop := a + size ≤ b ∨ b + size ≤ a

instance (size a b : ℕ) : Decidable (Apart size a b) := inferInstanceAs (Decidable (_ ∨ _))

/-- The addresses of `n` blocks of `size` bytes, the first at `ptr`. -/
def tiles (size : ℕ) : ℕ → ℕ → List ℕ
  | _, 0 => []
  | ptr, n + 1 => ptr :: tiles size (ptr + size) n

variable {size ptr n b : ℕ}

theorem Apart.symm {a b : ℕ} (h : Apart size a b) : Apart size b a := Or.symm h

theorem Apart.ne (hsize : 0 < size) {a b : ℕ} (h : Apart size a b) : a ≠ b := by
  rintro rfl
  rcases h with h | h <;> omega

@[simp] theorem length_tiles : (tiles size ptr n).length = n := by
  induction n generalizing ptr with
  | zero => rfl
  | succ n ih => rw [tiles, List.length_cons, ih]

theorem mem_tiles (h : b ∈ tiles size ptr n) : ptr ≤ b ∧ b + size ≤ ptr + n * size := by
  induction n generalizing ptr with
  | zero => cases h
  | succ n ih =>
    rw [Nat.succ_mul]
    rcases List.mem_cons.mp h with rfl | hrest
    · omega
    · have hb := ih hrest
      omega

theorem pairwise_tiles : (tiles size ptr n).Pairwise (Apart size) := by
  induction n generalizing ptr with
  | zero => exact .nil
  | succ n ih =>
    refine .cons ?_ ih
    intro b hb
    exact .inl (mem_tiles hb).1

end Taotu.Lib
