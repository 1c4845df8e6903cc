import Taotu.Lib.Heap
import Taotu.Lib.Machine
import Mathlib.Algebra.BigOperators.Group.Finset.Basic

/-!
# Taotu.Memory.MemoryPool — blocks of one size (`memory_pool.h`, `object_pool.h`)

The pool gets chunks from `malloc()`. A chunk begins with a word that links it to the
chunk before it; behind that it is carved into blocks, 40 in the first chunk and one
more in each further one. Free blocks are linked through their own first words, so the
free list and the objects of the user share memory at different times.

`ObjectPool` adds the constructor and the destructor of the object to `Allocate` and
`Deallocate`. What they write is part of what the user writes.

The machine lets the user allocate, give back blocks handed out, and write into them
or outside of all chunks. `malloc()` answers with memory that overlaps no other chunk.

1. **Conservation.** As long as the size of a chunk does not wrap around, the blocks
   handed out do not overlap, and with those on the free list they are all blocks of
   all chunks (`pool_conserves_blocks`).
2. **The size of a chunk.** `malloc_size * object_size_ + sizeof(MemoryBlockNode)` is
   computed in `size_t`. If it wraps around, the chunk is smaller than what is carved
   from it (`wrapped_chunk_too_small`).
3. **Destruction.** The destructor frees every chunk once (`destruct_frees_chunks`).

**Ghosts.** `chunks` are the chunks with the sizes asked for, the newest first, and
`handed` are the blocks handed out.
-/

namespace Taotu

open Lib

/-! ## Model layer -/

/-- Arithmetic of `size_t` and of pointers. -/
def sizeT (x : ℕ) : ℕ := x % 256 ^ 8

/-- `sizeof(MemoryBlockNode)`. -/
def nodeSize : ℕ := 8

def kInitialMallocSize : ℕ := 40

/-- Addresses are pointers, 0 is `nullptr`. -/
structure MemoryPool where
  freeListHead : ℕ
  listHead : ℕ
  mallocTime : ℕ
  objectSize : ℕ
deriving DecidableEq, Repr

namespace MemoryPool

def construct (objectSize : ℕ) : MemoryPool :=
  ⟨0, 0, 0, if objectSize < nodeSize then nodeSize else objectSize⟩

/-- The number of blocks in the next chunk. -/
def mallocSize (p : MemoryPool) : ℕ := sizeT (kInitialMallocSize + p.mallocTime)

/-- The argument of the next `malloc()`. -/
def request (p : MemoryPool) : ℕ := sizeT (sizeT (p.mallocSize * p.objectSize) + nodeSize)

/-- The loop that puts `n` blocks in front of the free list, the first of them at `ptr`. -/
def carve (o : ByteOrder) (size : ℕ) : ℕ → ℕ → ℕ → Mem → ℕ × Mem
  | 0, _, head, m => (head, m)
  | n + 1, ptr, head, m => carve o size n (sizeT (ptr + size)) ptr (m.storeWord o ptr head)

/-- The first half of `Allocate`, with `fresh` from `malloc()`. -/
def grow (o : ByteOrder) (p : MemoryPool) (m : Mem) (fresh : ℕ) : MemoryPool × Mem :=
  let m := m.storeWord o fresh p.listHead
  let carved := carve o p.objectSize p.mallocSize (sizeT (fresh + nodeSize)) p.freeListHead m
  ({ p with
      freeListHead := carved.1
      listHead := fresh
      mallocTime := sizeT (p.mallocTime + 1) },
    carved.2)

/-- The second half of `Allocate`: the block returned, and the pool without it. -/
def pop (o : ByteOrder) (p : MemoryPool) (m : Mem) : ℕ × MemoryPool :=
  (p.freeListHead, { p with freeListHead := m.loadWord o p.freeListHead })

def allocate (o : ByteOrder) (p : MemoryPool) (m : Mem) (fresh : ℕ) : ℕ × MemoryPool × Mem :=
  let grown := if p.freeListHead = 0 then p.grow o m fresh else (p, m)
  ((grown.1.pop o grown.2).1, (grown.1.pop o grown.2).2, grown.2)

def deallocate (o : ByteOrder) (p : MemoryPool) (m : Mem) (block : ℕ) : MemoryPool × Mem :=
  if block = 0 then (p, m)
  else ({ p with freeListHead := block }, m.storeWord o block p.freeListHead)

/-- `~MemoryPool`: the chunks in the order they are freed, or `none` if `fuel` chunks
are not enough to come to the end of the list. -/
def destruct (o : ByteOrder) (m : Mem) (head : ℕ) : ℕ → Option (List ℕ)
  | 0 => if head = 0 then some [] else none
  | fuel + 1 =>
    if head = 0 then some []
    else (destruct o m (m.loadWord o head) fuel).map (head :: ·)

end MemoryPool

/-- Memory of `bytes` bytes that `malloc()` answered with. -/
structure Chunk where
  base : ℕ
  bytes : ℕ
deriving DecidableEq, Repr

namespace Chunk

/-- The blocks that fit behind the link word. -/
def blocks (size : ℕ) (c : Chunk) : List ℕ :=
  tiles size (c.base + nodeSize) ((c.bytes - nodeSize) / size)

def Apart (c d : Chunk) : Prop := c.base + c.bytes ≤ d.base ∨ d.base + d.bytes ≤ c.base

/-- The block `b` lies in the chunk, behind its link word. -/
def Contains (c : Chunk) (size b : ℕ) : Prop :=
  c.base + nodeSize ≤ b ∧ b + size ≤ c.base + c.bytes

instance (c d : Chunk) : Decidable (c.Apart d) := inferInstanceAs (Decidable (_ ∨ _))

instance (c : Chunk) (size b : ℕ) : Decidable (c.Contains size b) :=
  inferInstanceAs (Decidable (_ ∧ _))

end Chunk

/-- A pool, the memory, and what the pool has got and given. -/
structure Pooled where
  pool : MemoryPool
  mem : Mem
  chunks : List Chunk
  handed : List ℕ

namespace Pooled

/-- The blocks of all chunks. -/
def blocks (s : Pooled) : List ℕ := s.chunks.flatMap (Chunk.blocks s.pool.objectSize)

inductive Label where
  /-- `Allocate`; `fresh` is the answer of `malloc()` if it is called. -/
  | allocate (fresh : ℕ)
  | deallocate (block : ℕ)
  | write (a : ℕ) (bs : List UInt8)
deriving DecidableEq, Repr

/-- The answer of `malloc()` is no null, does not overlap with another chunk, and its
end is an address. -/
def Fresh (s : Pooled) (c : Chunk) : Prop :=
  0 < c.base ∧ c.base + c.bytes < 256 ^ 8 ∧ ∀ d ∈ s.chunks, c.Apart d

def Enabled (s : Pooled) : Label → Prop
  | .allocate fresh => s.pool.freeListHead = 0 → s.Fresh ⟨fresh, s.pool.request⟩
  | .deallocate block => block = 0 ∨ block ∈ s.handed
  | .write a bs =>
    (∃ b ∈ s.handed, b ≤ a ∧ a + bs.length ≤ b + s.pool.objectSize) ∨
      ∀ c ∈ s.chunks, c.base + c.bytes ≤ a ∨ a + bs.length ≤ c.base

instance (s : Pooled) (c : Chunk) : Decidable (s.Fresh c) :=
  inferInstanceAs (Decidable (_ ∧ _ ∧ _))

instance (s : Pooled) (l : Label) : Decidable (s.Enabled l) := by
  cases l <;> unfold Enabled <;> infer_instance

/-- The chunks after `Allocate`. -/
def chunksAfter (s : Pooled) (fresh : ℕ) : List Chunk :=
  if s.pool.freeListHead = 0 then ⟨fresh, s.pool.request⟩ :: s.chunks else s.chunks

def perform (o : ByteOrder) (s : Pooled) : Label → Pooled
  | .allocate fresh =>
    let got := s.pool.allocate o s.mem fresh
    ⟨got.2.1, got.2.2, s.chunksAfter fresh, got.1 :: s.handed⟩
  | .deallocate block =>
    let left := s.pool.deallocate o s.mem block
    { s with pool := left.1, mem := left.2, handed := s.handed.erase block }
  | .write a bs => { s with mem := s.mem.store a bs }

def step (o : ByteOrder) (s : Pooled) (l : Label) : Option Pooled :=
  if s.Enabled l then some (s.perform o l) else none

/-- A pool of objects of `objectSize` bytes, in any memory. -/
def machine (o : ByteOrder) (objectSize : ℕ) : Machine Pooled Label where
  Init s := s.pool = MemoryPool.construct objectSize ∧ s.chunks = [] ∧ s.handed = []
  step s l := s.step o l

/-- The size of the chunk that `Allocate` is about to ask for does not wrap around. -/
def NoWrap (s : Pooled) : Label → Prop
  | .allocate _ => s.pool.freeListHead = 0 →
      (kInitialMallocSize + s.pool.mallocTime) * s.pool.objectSize + nodeSize < 256 ^ 8
  | _ => True

instance (s : Pooled) (l : Label) : Decidable (s.NoWrap l) := by
  cases l <;> unfold NoWrap <;> infer_instance

end Pooled

/-! ## Chunks -/

namespace Chunk

variable {size b : ℕ} {c d : Chunk}

instance : Std.Symm Chunk.Apart := ⟨fun _ _ h => Or.symm h⟩

theorem contains_of_mem (h : b ∈ c.blocks size) : c.Contains size b := by
  have hb := mem_tiles h
  have hfit := Nat.div_mul_le_self (c.bytes - nodeSize) size
  refine ⟨hb.1, ?_⟩
  by_cases hbytes : nodeSize ≤ c.bytes
  · omega
  · -- a chunk without room for the link word has no blocks
    have hzero : c.bytes - nodeSize = 0 := by omega
    rw [blocks, hzero, Nat.zero_div] at h
    cases h

/-- Blocks of chunks that lie apart do not overlap. -/
theorem Apart.blocks (h : c.Apart d) {a : ℕ} (ha : a ∈ c.blocks size) (hb : b ∈ d.blocks size) :
    Lib.Apart size a b := by
  have ha := contains_of_mem ha
  have hb := contains_of_mem hb
  unfold Contains at ha hb
  rcases h with h | h
  · exact .inl (by omega)
  · exact .inr (by omega)

/-- Behind the link word there is room for `n` blocks. -/
def Holds (c : Chunk) (size n : ℕ) : Prop := c.bytes = n * size + nodeSize

theorem Holds.blocks_eq {n : ℕ} (h : c.Holds size n) (hsize : 0 < size) :
    c.blocks size = tiles size (c.base + nodeSize) n := by
  rw [blocks, h, Nat.add_sub_cancel, Nat.mul_div_cancel n hsize]

theorem Holds.nodeSize_le {n : ℕ} (h : c.Holds size n) : nodeSize ≤ c.bytes := by
  rw [h]
  exact Nat.le_add_left ..

end Chunk

/-- The `i`-th chunk has room for `40 + i` blocks; the newest chunk is the first. -/
def Sized (size : ℕ) : List Chunk → Prop
  | [] => True
  | c :: cs => c.Holds size (kInitialMallocSize + cs.length) ∧ Sized size cs

namespace Sized

variable {size : ℕ} {cs : List Chunk}

theorem nodeSize_le (h : Sized size cs) : ∀ c ∈ cs, nodeSize ≤ c.bytes := by
  induction cs with
  | nil => exact fun c hc => absurd hc List.not_mem_nil
  | cons c cs ih =>
    intro d hd
    rcases List.mem_cons.mp hd with rfl | hd
    · exact h.1.nodeSize_le
    · exact ih h.2 d hd

theorem length_blocks (h : Sized size cs) (hsize : 0 < size) :
    (cs.flatMap (Chunk.blocks size)).length =
      ∑ i ∈ Finset.range cs.length, (kInitialMallocSize + i) := by
  induction cs with
  | nil => rfl
  | cons c cs ih =>
    rw [List.flatMap_cons, List.length_append, h.1.blocks_eq hsize, length_tiles, ih h.2,
      List.length_cons, Finset.sum_range_succ, Nat.add_comm]

end Sized

/-! ## The carving loop -/

/-- The new blocks come in front of the list, the last one first. Memory outside of
them is as before. -/
theorem MemoryPool.carve_spec {o : ByteOrder} {size n ptr head : ℕ} {m : Mem} {l : List ℕ}
    (hsize : nodeSize ≤ size) (hpos : 0 < ptr) (hend : ptr + n * size < 256 ^ 8)
    (hout : ∀ a ∈ l, a + 8 ≤ ptr ∨ ptr + n * size ≤ a) (h : Linked o m head l) :
    Linked o (carve o size n ptr head m).2 (carve o size n ptr head m).1
        ((tiles size ptr n).reverse ++ l) ∧
      ∀ x, x < ptr ∨ ptr + n * size ≤ x → (carve o size n ptr head m).2 x = m x := by
  unfold nodeSize at hsize
  -- the blocks still to be carved lie behind `ptr`, those of the list do not overlap them
  induction n generalizing ptr head m l with
  | zero => exact ⟨h, fun _ _ => rfl⟩
  | succ n ih =>
    rw [Nat.succ_mul] at hend hout ⊢
    have hnext : sizeT (ptr + size) = ptr + size := Nat.mod_eq_of_lt (by omega)
    have hpush : Linked o (m.storeWord o ptr head) ptr (ptr :: l) := by
      refine h.push (by omega) (by omega) ?_
      intro a ha
      have hapart := hout a ha
      omega
    have hout' : ∀ a ∈ ptr :: l, a + 8 ≤ ptr + size ∨ ptr + size + n * size ≤ a := by
      intro a ha
      rcases List.mem_cons.mp ha with rfl | ha
      · omega
      · have hapart := hout a ha
        omega
    obtain ⟨hlinked, hframe⟩ := ih (by omega) (by omega) hout' hpush
    rw [carve, hnext, tiles, List.reverse_cons, List.append_assoc, List.singleton_append]
    refine ⟨hlinked, ?_⟩
    intro x hx
    rw [hframe x (by omega), Mem.storeWord_outside (by omega)]

/-- The free list after a chunk of `n` blocks was linked in and carved up, and the list
of chunks. -/
theorem MemoryPool.grow_spec {o : ByteOrder} {p : MemoryPool} {m : Mem} {fresh n : ℕ}
    {bases : List ℕ} (hsize : nodeSize ≤ p.objectSize) (hempty : p.freeListHead = 0)
    (hcount : p.mallocSize = n) (hpos : 0 < fresh)
    (hend : fresh + (n * p.objectSize + nodeSize) < 256 ^ 8)
    (hout : ∀ b ∈ bases, b + nodeSize ≤ fresh ∨ fresh + (n * p.objectSize + nodeSize) ≤ b)
    (h : Linked o m p.listHead bases) :
    Linked o (p.grow o m fresh).2 (p.grow o m fresh).1.freeListHead
        (tiles p.objectSize (fresh + nodeSize) n).reverse ∧
      Linked o (p.grow o m fresh).2 (p.grow o m fresh).1.listHead (fresh :: bases) := by
  unfold nodeSize at hend hout
  have hptr : sizeT (fresh + nodeSize) = fresh + nodeSize := by
    unfold nodeSize
    exact Nat.mod_eq_of_lt (by omega)
  have hlinks : Linked o (m.storeWord o fresh p.listHead) fresh (fresh :: bases) := by
    refine h.push (by omega) (by omega) ?_
    intro b hb
    have hapart := hout b hb
    omega
  have hnil : Linked o (m.storeWord o fresh p.listHead) 0 [] := rfl
  have hbehind : fresh + nodeSize + n * p.objectSize < 256 ^ 8 := by
    unfold nodeSize
    omega
  obtain ⟨hcarved, hframe⟩ := carve_spec hsize (by omega) hbehind
    (fun a ha => absurd ha List.not_mem_nil) hnil
  rw [List.append_nil] at hcarved
  simp only [grow, hcount, hptr, hempty]
  refine ⟨hcarved, hlinks.congr ?_⟩
  -- the loop writes behind the link word only
  unfold nodeSize at hframe
  intro a ha x hlo hhi
  rcases List.mem_cons.mp ha with rfl | ha
  · exact hframe x (by omega)
  · have hapart := hout a ha
    exact hframe x (by omega)

/-! ## The invariant -/

namespace Pooled

/-- What holds between calls, with the blocks on the free list. -/
structure Inv (o : ByteOrder) (objectSize : ℕ) (s : Pooled) (free : List ℕ) : Prop where
  size : s.pool.objectSize = max objectSize nodeSize
  time : s.pool.mallocTime = s.chunks.length
  sized : Sized s.pool.objectSize s.chunks
  placed : ∀ c ∈ s.chunks, 0 < c.base ∧ c.base + c.bytes < 256 ^ 8
  apart : s.chunks.Pairwise Chunk.Apart
  conserved : (s.handed ++ free).Perm s.blocks
  freeList : Linked o s.mem s.pool.freeListHead free
  links : Linked o s.mem s.pool.listHead (s.chunks.map Chunk.base)

variable {o : ByteOrder} {objectSize : ℕ} {s s' : Pooled} {free : List ℕ}

namespace Inv

theorem nodeSize_le (h : s.Inv o objectSize free) : nodeSize ≤ s.pool.objectSize := by
  rw [h.size]
  exact Nat.le_max_right ..

theorem contained (h : s.Inv o objectSize free) {b : ℕ} (hb : b ∈ s.handed ++ free) :
    ∃ c ∈ s.chunks, c.Contains s.pool.objectSize b := by
  obtain ⟨c, hc, hb⟩ := List.mem_flatMap.mp (h.conserved.mem_iff.mp hb)
  exact ⟨c, hc, Chunk.contains_of_mem hb⟩

theorem pairwise (h : s.Inv o objectSize free) :
    (s.handed ++ free).Pairwise (Lib.Apart s.pool.objectSize) := by
  have hblocks : s.blocks.Pairwise (Lib.Apart s.pool.objectSize) := by
    refine List.pairwise_flatMap.mpr ⟨fun c _ => pairwise_tiles, ?_⟩
    refine h.apart.imp ?_
    intro c d hcd a ha b hb
    exact hcd.blocks ha hb
  exact h.conserved.symm.pairwise hblocks Lib.Apart.symm

/-- A block lies apart from the link word of every chunk. -/
theorem link_apart (h : s.Inv o objectSize free) {b : ℕ} (hb : b ∈ s.handed ++ free) {c : Chunk}
    (hc : c ∈ s.chunks) : c.base + nodeSize ≤ b ∨ b + s.pool.objectSize ≤ c.base := by
  obtain ⟨d, hd, hlo, hhi⟩ := h.contained hb
  by_cases heq : c = d
  · subst heq
    exact .inl hlo
  · have hroom := h.sized.nodeSize_le c hc
    have hapart := h.apart.forall hc hd heq
    unfold Chunk.Apart at hapart
    omega

/-- A write that spares the free blocks and the link words. -/
theorem store (h : s.Inv o objectSize free) {a : ℕ} {bs : List UInt8}
    (hfree : ∀ f ∈ free, f + 8 ≤ a ∨ a + bs.length ≤ f)
    (hlink : ∀ c ∈ s.chunks, c.base + 8 ≤ a ∨ a + bs.length ≤ c.base) :
    Inv o objectSize { s with mem := s.mem.store a bs } free where
  size := h.size
  time := h.time
  sized := h.sized
  placed := h.placed
  apart := h.apart
  conserved := h.conserved
  freeList := h.freeList.store hfree
  links := by
    refine h.links.store ?_
    intro b hb
    obtain ⟨c, hc, rfl⟩ := List.mem_map.mp hb
    exact hlink c hc

/-- What the user may write is neither free nor a link word. -/
theorem write (h : s.Inv o objectSize free) {a : ℕ} {bs : List UInt8}
    (hen : s.Enabled (.write a bs)) : (s.perform o (.write a bs)).Inv o objectSize free := by
  have hsize := h.nodeSize_le
  unfold nodeSize at hsize
  rcases hen with ⟨b, hb, hlo, hhi⟩ | houtside
  · have hmem : b ∈ s.handed ++ free := List.mem_append_left free hb
    refine h.store ?_ ?_
    · intro f hf
      have hapart := (List.pairwise_append.mp h.pairwise).2.2 b hb f hf
      unfold Lib.Apart at hapart
      omega
    · intro c hc
      have hapart := h.link_apart hmem hc
      unfold nodeSize at hapart
      omega
  · refine h.store ?_ ?_
    · intro f hf
      obtain ⟨c, hc, hlo, hhi⟩ := h.contained (List.mem_append_right s.handed hf)
      have hapart := houtside c hc
      omega
    · intro c hc
      have hapart := houtside c hc
      have hroom := h.sized.nodeSize_le c hc
      unfold nodeSize at hroom
      omega

/-- A block handed out is put in front of the free list. -/
theorem deallocate (h : s.Inv o objectSize free) {block : ℕ} (hmem : block ∈ s.handed) :
    (s.perform o (.deallocate block)).Inv o objectSize (block :: free) := by
  have hsize := h.nodeSize_le
  unfold nodeSize at hsize
  have hblock : block ∈ s.handed ++ free := List.mem_append_left free hmem
  obtain ⟨c, hc, hlo, hhi⟩ := h.contained hblock
  have hplaced := h.placed c hc
  have hne : block ≠ 0 := by omega
  have hleft : s.pool.deallocate o s.mem block = ({ s.pool with freeListHead := block },
      s.mem.storeWord o block s.pool.freeListHead) := if_neg hne
  simp only [perform, hleft]
  exact {
    size := h.size
    time := h.time
    sized := h.sized
    placed := h.placed
    apart := h.apart
    conserved := by
      have hback : (s.handed.erase block ++ block :: free).Perm (s.handed ++ free) :=
        List.perm_middle.trans ((List.perm_cons_erase hmem).symm.append_right free)
      exact hback.trans h.conserved
    freeList := by
      refine h.freeList.push hne (by omega) ?_
      intro f hf
      have hapart := (List.pairwise_append.mp h.pairwise).2.2 block hmem f hf
      unfold Lib.Apart at hapart
      omega
    links := by
      refine h.links.storeWord ?_
      intro b hb
      obtain ⟨d, hd, rfl⟩ := List.mem_map.mp hb
      have hapart := h.link_apart hblock hd
      unfold nodeSize at hapart
      omega }

/-- `nullptr` is ignored. -/
theorem deallocate_null (h : s.Inv o objectSize free) :
    (s.perform o (.deallocate 0)).Inv o objectSize free := by
  have hnull : 0 ∉ s.handed := by
    intro hmem
    obtain ⟨c, -, hlo, -⟩ := h.contained (List.mem_append_left free hmem)
    unfold nodeSize at hlo
    omega
  have hsame : s.perform o (.deallocate 0) = s := by
    simp only [perform, MemoryPool.deallocate, if_true, List.erase_of_not_mem hnull]
  rw [hsame]
  exact h

/-- The front of the free list is handed out. -/
theorem pop (h : s.Inv o objectSize free) (hne : free ≠ []) :
    Inv o objectSize { s with
      pool := (s.pool.pop o s.mem).2, handed := (s.pool.pop o s.mem).1 :: s.handed } free.tail := by
  obtain ⟨f, free, rfl⟩ := List.exists_cons_of_ne_nil hne
  obtain ⟨hhead, -, -, hrest⟩ := h.freeList
  exact {
    size := h.size
    time := h.time
    sized := h.sized
    placed := h.placed
    apart := h.apart
    conserved := by
      refine List.Perm.trans ?_ h.conserved
      rw [MemoryPool.pop, hhead]
      exact List.perm_middle.symm
    freeList := by
      rw [MemoryPool.pop, hhead]
      exact hrest
    links := h.links }

/-- Without a wrap-around, the number of blocks and the size asked for are what they
are meant to be. -/
theorem request_eq (h : s.Inv o objectSize free)
    (hwrap : (kInitialMallocSize + s.pool.mallocTime) * s.pool.objectSize + nodeSize < 256 ^ 8) :
    kInitialMallocSize + s.chunks.length < 256 ^ 8 ∧
      s.pool.mallocSize = kInitialMallocSize + s.chunks.length ∧
      s.pool.request = (kInitialMallocSize + s.chunks.length) * s.pool.objectSize + nodeSize := by
  have hsize := h.nodeSize_le
  rw [h.time] at hwrap
  have hle : kInitialMallocSize + s.chunks.length ≤
      (kInitialMallocSize + s.chunks.length) * s.pool.objectSize :=
    Nat.le_mul_of_pos_right _ (Nat.lt_of_lt_of_le (by decide) hsize)
  have hlt : kInitialMallocSize + s.chunks.length < 256 ^ 8 := by omega
  have hcount : s.pool.mallocSize = kInitialMallocSize + s.chunks.length := by
    rw [MemoryPool.mallocSize, h.time]
    exact Nat.mod_eq_of_lt hlt
  have hproduct : sizeT ((kInitialMallocSize + s.chunks.length) * s.pool.objectSize) =
      (kInitialMallocSize + s.chunks.length) * s.pool.objectSize := Nat.mod_eq_of_lt (by omega)
  refine ⟨hlt, hcount, ?_⟩
  rw [MemoryPool.request, hcount, hproduct]
  exact Nat.mod_eq_of_lt hwrap

/-- The link words of the chunks lie outside of a chunk apart from them. -/
theorem bases_outside (h : s.Inv o objectSize free) {c : Chunk} (hapart : ∀ d ∈ s.chunks, c.Apart d) :
    ∀ b ∈ s.chunks.map Chunk.base, b + nodeSize ≤ c.base ∨ c.base + c.bytes ≤ b := by
  intro b hb
  obtain ⟨d, hd, rfl⟩ := List.mem_map.mp hb
  have hroom := h.sized.nodeSize_le d hd
  rcases hapart d hd with hbefore | hafter
  · exact .inr hbefore
  · exact .inl (le_trans (Nat.add_le_add_left hroom d.base) hafter)

/-- A new chunk is linked in and carved up. -/
theorem grow (h : s.Inv o objectSize free) (hempty : s.pool.freeListHead = 0) {fresh : ℕ}
    (hwrap : (kInitialMallocSize + s.pool.mallocTime) * s.pool.objectSize + nodeSize < 256 ^ 8)
    (hfresh : s.Fresh ⟨fresh, s.pool.request⟩) :
    Inv o objectSize { s with
      pool := (s.pool.grow o s.mem fresh).1
      mem := (s.pool.grow o s.mem fresh).2
      chunks := ⟨fresh, s.pool.request⟩ :: s.chunks }
      (tiles s.pool.objectSize (fresh + nodeSize)
        (kInitialMallocSize + s.chunks.length)).reverse := by
  obtain ⟨hlt, hcount, hrequest⟩ := h.request_eq hwrap
  obtain ⟨hpos, hend, hapart⟩ := hfresh
  have hsize := h.nodeSize_le
  have hholds : Chunk.Holds ⟨fresh, s.pool.request⟩ s.pool.objectSize
      (kInitialMallocSize + s.chunks.length) := hrequest
  have hfree : Linked o s.mem 0 free := hempty ▸ h.freeList
  obtain rfl := hfree.eq_nil
  obtain ⟨hfreeList, hlinks⟩ := MemoryPool.grow_spec hsize hempty hcount hpos (hrequest ▸ hend)
    (hrequest ▸ h.bases_outside hapart) h.links
  exact {
    size := h.size
    time := by
      change sizeT (s.pool.mallocTime + 1) = s.chunks.length + 1
      rw [h.time]
      unfold kInitialMallocSize at hlt
      exact Nat.mod_eq_of_lt (by omega)
    sized := ⟨hholds, h.sized⟩
    placed := by
      intro c hc
      rcases List.mem_cons.mp hc with rfl | hc
      · exact ⟨hpos, hend⟩
      · exact h.placed c hc
    apart := .cons hapart h.apart
    conserved := by
      -- nothing was free, so the blocks handed out are all those there were
      have hhanded : s.handed.Perm s.blocks := by
        have hperm := h.conserved
        rwa [List.append_nil] at hperm
      rw [← hholds.blocks_eq (Nat.lt_of_lt_of_le (by decide) hsize)]
      exact List.perm_append_comm.trans ((List.reverse_perm _).append hhanded)
    freeList := hfreeList
    links := hlinks }

end Inv

/-! ## Runs -/

theorem inv_init (h : (machine o objectSize).Init s) : s.Inv o objectSize [] := by
  obtain ⟨hpool, hchunks, hhanded⟩ := h
  have hsize : (MemoryPool.construct objectSize).objectSize = max objectSize nodeSize := by
    unfold MemoryPool.construct
    dsimp only
    split <;> omega
  exact {
    size := by rw [hpool, hsize]
    time := by
      rw [hpool, hchunks]
      rfl
    sized := by
      rw [hchunks]
      exact trivial
    placed := by
      rw [hchunks]
      exact fun c hc => absurd hc List.not_mem_nil
    apart := by
      rw [hchunks]
      exact .nil
    conserved := by
      rw [hhanded, blocks, hchunks]
      exact .nil
    freeList := by
      rw [hpool]
      rfl
    links := by
      rw [hpool, hchunks]
      rfl }

theorem inv_allocate {fresh : ℕ} (h : s.Inv o objectSize free) (hen : s.Enabled (.allocate fresh))
    (hwrap : s.NoWrap (.allocate fresh)) :
    ∃ free', (s.perform o (.allocate fresh)).Inv o objectSize free' := by
  by_cases hempty : s.pool.freeListHead = 0
  · have hgrown := h.grow hempty (hwrap hempty) (hen hempty)
    have hne : (tiles s.pool.objectSize (fresh + nodeSize)
        (kInitialMallocSize + s.chunks.length)).reverse ≠ [] := by
      refine List.ne_nil_of_length_pos ?_
      rw [List.length_reverse, length_tiles]
      exact Nat.add_pos_left (by decide) _
    have hpopped := hgrown.pop hne
    simp only [perform, MemoryPool.allocate, chunksAfter, if_pos hempty]
    exact ⟨_, hpopped⟩
  · have hpopped := h.pop (h.freeList.ne_nil hempty)
    simp only [perform, MemoryPool.allocate, chunksAfter, if_neg hempty]
    exact ⟨_, hpopped⟩

theorem inv_step {l : Label} (h : s.Inv o objectSize free) (hwrap : s.NoWrap l)
    (hstep : s.step o l = some s') : ∃ free', s'.Inv o objectSize free' := by
  unfold step at hstep
  split at hstep
  · next hen =>
    obtain rfl := Option.some.inj hstep
    cases l with
    | allocate fresh => exact inv_allocate h hen hwrap
    | deallocate block =>
      rcases hen with rfl | hmem
      · exact ⟨free, h.deallocate_null⟩
      · exact ⟨_, h.deallocate hmem⟩
    | write a bs => exact ⟨free, h.write hen⟩
  · cases hstep

theorem reachable_inv (h : (machine o objectSize).Reachable NoWrap s) :
    ∃ free, s.Inv o objectSize free := by
  have hinit : ∀ s, (machine o objectSize).Init s → ∃ free, s.Inv o objectSize free :=
    fun s h0 => ⟨[], inv_init h0⟩
  refine h.invariant hinit ?_
  rintro s l s' - ⟨free, hinv⟩ hwrap hstep
  exact inv_step hinv hwrap hstep

/-- In every run in which no size wraps around: the blocks handed out do not overlap,
each lies in a chunk behind its link word, and with the blocks on the free list they are
all blocks of all chunks, each once. After `k` chunks these are the sum of `40 + i` over
`i < k`. -/
theorem pool_conserves_blocks (h : (machine o objectSize).Reachable NoWrap s) :
    s.handed.Pairwise (Lib.Apart s.pool.objectSize) ∧
      (∀ b ∈ s.handed, ∃ c ∈ s.chunks, c.Contains s.pool.objectSize b) ∧
      (∃ free, Linked o s.mem s.pool.freeListHead free ∧ (s.handed ++ free).Perm s.blocks ∧
        (s.handed ++ free).Nodup) ∧
      s.pool.objectSize = max objectSize nodeSize ∧
      s.pool.mallocTime = s.chunks.length ∧
      s.blocks.length = ∑ i ∈ Finset.range s.chunks.length, (kInitialMallocSize + i) := by
  obtain ⟨free, hinv⟩ := reachable_inv h
  have hpos : 0 < s.pool.objectSize := Nat.lt_of_lt_of_le (by decide) hinv.nodeSize_le
  have hnodup : (s.handed ++ free).Nodup := hinv.pairwise.imp (Lib.Apart.ne hpos)
  refine ⟨(List.pairwise_append.mp hinv.pairwise).1, ?_, ⟨free, hinv.freeList, hinv.conserved,
    hnodup⟩, hinv.size, hinv.time, hinv.sized.length_blocks hpos⟩
  intro b hb
  exact hinv.contained (List.mem_append_left free hb)

/-- A pool in a memory of zeros. -/
def start (objectSize : ℕ) : Pooled := ⟨MemoryPool.construct objectSize, fun _ => 0, [], []⟩

theorem machine_init_start : (machine o objectSize).Init (start objectSize) := ⟨rfl, rfl, rfl⟩

/-- Two blocks of 24 bytes are taken, one is overwritten and given back, and it is the
one that is handed out next. -/
theorem pool_conserves_blocks_reused :
    ∃ s, (machine .little 24).Reachable NoWrap s ∧ s.chunks = [⟨4096, 968⟩] ∧
      s.handed = [5040, 5016] ∧ s.handed.Pairwise (Lib.Apart s.pool.objectSize) := by
  obtain ⟨s, hs, hP⟩ := Machine.exists_of_run (machine .little 24) NoWrap machine_init_start
    [.allocate 4096, .allocate 0, .write 5040 [1, 2, 3, 4, 5, 6, 7, 8, 9], .deallocate 5040,
      .allocate 0]
    (fun s => s.chunks = [⟨4096, 968⟩] ∧ s.handed = [5040, 5016]) (by decide +kernel)
  exact ⟨s, hs, hP.1, hP.2, (pool_conserves_blocks hs).1⟩

/-- Objects of `2 ^ 62` bytes: the size of the chunk wraps around to 8 bytes, the link
word alone. The block of the first `Allocate` lies outside of it. Every fourth block is the
same, so the fifth `Allocate` gives out that of the first again. -/
theorem wrapped_chunk_too_small :
    (∃ s b, (machine .little 4611686018427387904).step (start 4611686018427387904)
        (.allocate 4096) = some s ∧
      s.chunks = [⟨4096, 8⟩] ∧ s.handed = [b] ∧ ∀ c ∈ s.chunks, ¬ c.Contains s.pool.objectSize b) ∧
    ∃ s, (machine .little 4611686018427387904).Reachable (fun _ _ => True) s ∧
      s.chunks = [⟨4096, 8⟩] ∧
      (∃ b ∈ s.handed, ∀ c ∈ s.chunks, ¬ c.Contains s.pool.objectSize b) ∧
      ¬ s.handed.Pairwise (Lib.Apart s.pool.objectSize) := by
  constructor
  · exact ⟨_, _, rfl, by decide +kernel, rfl, by decide +kernel⟩
  · exact Machine.exists_of_run (machine .little 4611686018427387904) (fun _ _ => True)
      machine_init_start [.allocate 4096, .allocate 0, .allocate 0, .allocate 0, .allocate 0]
      (fun s => s.chunks = [⟨4096, 8⟩] ∧
        (∃ b ∈ s.handed, ∀ c ∈ s.chunks, ¬ c.Contains s.pool.objectSize b) ∧
        ¬ s.handed.Pairwise (Lib.Apart s.pool.objectSize)) (by decide +kernel)

/-! ## Destruction -/

theorem destruct_of_linked {m : Mem} {head fuel : ℕ} {l : List ℕ} (h : Linked o m head l)
    (hfuel : l.length ≤ fuel) : MemoryPool.destruct o m head fuel = some l := by
  induction l generalizing head fuel with
  | nil =>
    rw [show head = 0 from h]
    cases fuel <;> rfl
  | cons a l ih =>
    obtain ⟨rfl, hne, -, hrest⟩ := h
    cases fuel with
    | zero => exact absurd hfuel (Nat.not_succ_le_zero _)
    | succ fuel =>
      rw [MemoryPool.destruct, if_neg hne, ih hrest (Nat.le_of_succ_le_succ hfuel)]
      rfl

/-- The destructor comes to the end of the list and frees every chunk once, whatever is
still handed out. -/
theorem destruct_frees_chunks (h : (machine o objectSize).Reachable NoWrap s) {fuel : ℕ}
    (hfuel : s.chunks.length ≤ fuel) :
    MemoryPool.destruct o s.mem s.pool.listHead fuel = some (s.chunks.map Chunk.base) := by
  obtain ⟨free, hinv⟩ := reachable_inv h
  exact destruct_of_linked hinv.links (by rwa [List.length_map])

end Pooled

end Taotu
