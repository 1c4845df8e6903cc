import Taotu.Memory.MemoryPool
import Taotu.Threads.SpinLock

/-!
# Taotu.Memory.SharedPool — one pool for all loops (`reactor_manager.h`, `object_pool.h`)

`ServerReactorManager` has one object pool for the connections of all its event loops. A
loop takes a connection from it (`NewOneConnectingFromObjectPool`) and gives it back
(`DeleteOneConnectingFromObjectPool`) under a spin lock, while the other loops wait for the
lock or work with connections of their own, which lie in the same chunks.

1. **Machine.** A thread makes one access to the fields of the pool or to a word of memory
   at a time. `PoolPoint` is the place it is at; between any two of its accesses the other
   threads make theirs, and write into the blocks that they own.
2. **What is left to do.** `finish` is what the call that is under way has still to do. A
   write of another thread can be moved behind it (`finish_store`), so the state in which
   the call is finished keeps the invariant of the pool, step by step.
3. **Safety.** No two threads are in the pool at a time, blocks of different owners do not
   overlap and are not on the free list, no block is lost, and no access of the pool
   touches a block that is owned (`pool_shared_safely`).

`owned` are the blocks whose constructor has run and that were not given back. A thread
gives back a block that is owned; that nobody else does so at the same time is up to the
user. The constructor and the destructor run under the lock. They may write what the user
may write, and into their own block.
-/

namespace Taotu

open Lib

/-! ## Model layer -/

/-- Where a thread is; the statement that comes next. -/
inductive PoolPoint where
  | outside
  /-- In `Lock()`, with `New` or `Delete` to come. -/
  | waitNew
  | waitDelete (block : ℕ)
  /-- `if (nullptr == free_list_head_)` -/
  | test
  /-- `malloc()` -/
  | malloc
  /-- `new_malloc_node->next_node_ = list_head_` -/
  | link (fresh n : ℕ)
  /-- `list_head_ = new_malloc_node` -/
  | listHead (fresh n : ℕ)
  /-- The test of the loop with `n` blocks to come, and `new_node->next_node_ =
  free_list_head_`. -/
  | carve (n ptr : ℕ)
  /-- `free_list_head_ = new_node`, with `n` blocks to come behind this one. -/
  | push (n ptr : ℕ)
  /-- `++malloc_time_` -/
  | time
  /-- `return_prt = &free_list_head_->data_` -/
  | take
  /-- `free_list_head_ = free_list_head_->next_node_` -/
  | next (block : ℕ)
  /-- `new (new_object_ptr) T(args...)` -/
  | constructing (block : ℕ)
  /-- The test of `Delete`. -/
  | delete (block : ℕ)
  /-- `~T()`, and the test of `Deallocate`. -/
  | destroying (block : ℕ)
  /-- `tmp_node->next_node_ = free_list_head_` -/
  | nextNode (block : ℕ)
  /-- `free_list_head_ = tmp_node` -/
  | freeHead (block : ℕ)
  /-- `Unlock()` -/
  | done
deriving DecidableEq, Repr

namespace PoolPoint

def inside : PoolPoint → Bool
  | .outside | .waitNew | .waitDelete _ => false
  | _ => true

/-- The lock guard is constructed. -/
def lock : PoolPoint → Option PoolPoint
  | .waitNew => some .test
  | .waitDelete block => some (.delete block)
  | _ => none

/-- The lock guard is destroyed. -/
def unlock : PoolPoint → Option PoolPoint
  | .done => some .outside
  | _ => none

end PoolPoint

/-- What the threads do. `go` is the next statement, `malloced` the answer of `malloc()`. -/
inductive PoolMove where
  | new
  | delete (block : ℕ)
  | go
  | malloced (fresh : ℕ)
  | write (a : ℕ) (bs : List UInt8)
deriving DecidableEq, Repr

structure SharedPool where
  pooled : Pooled
  owned : List ℕ

namespace Pooled

variable (o : ByteOrder) (s : Pooled)

def store (a : ℕ) (bs : List UInt8) : Pooled := { s with mem := s.mem.store a bs }

def storeWord (a v : ℕ) : Pooled := { s with mem := s.mem.storeWord o a v }

def setListHead (a : ℕ) : Pooled := { s with pool := { s.pool with listHead := a } }

def setFreeListHead (a : ℕ) : Pooled := { s with pool := { s.pool with freeListHead := a } }

/-- `++malloc_time_` -/
def tick : Pooled := { s with pool := { s.pool with mallocTime := sizeT (s.pool.mallocTime + 1) } }

end Pooled

namespace SharedPool

variable (o : ByteOrder) (s : SharedPool)

/-- The next statement of a thread that is under way. -/
def go : PoolPoint → Option (PoolPoint × SharedPool)
  | .test => some (if s.pooled.pool.freeListHead = 0 then .malloc else .take, s)
  | .link fresh n => some (.listHead fresh n,
      { s with pooled := s.pooled.storeWord o fresh s.pooled.pool.listHead })
  | .listHead fresh n => some (.carve n (sizeT (fresh + nodeSize)),
      { s with pooled := s.pooled.setListHead fresh })
  | .carve 0 _ => some (.time, s)
  | .carve (n + 1) ptr => some (.push n ptr,
      { s with pooled := s.pooled.storeWord o ptr s.pooled.pool.freeListHead })
  | .push n ptr => some (.carve n (sizeT (ptr + s.pooled.pool.objectSize)),
      { s with pooled := s.pooled.setFreeListHead ptr })
  | .time => some (.take, { s with pooled := s.pooled.tick })
  | .take => some (.next s.pooled.pool.freeListHead, s)
  | .next block => some (.constructing block,
      { s with pooled := { s.pooled.setFreeListHead
        (s.pooled.mem.loadWord o s.pooled.pool.freeListHead) with
          handed := block :: s.pooled.handed } })
  | .constructing block => some (.done, { s with owned := block :: s.owned })
  | .delete block =>
    if block = 0 then some (.done, s)
    else if block ∈ s.owned then some (.destroying block, { s with owned := s.owned.erase block })
    else none
  | .destroying block => some (if block = 0 then .done else .nextNode block, s)
  | .nextNode block => some (.freeHead block,
      { s with pooled := s.pooled.storeWord o block s.pooled.pool.freeListHead })
  | .freeHead block => some (.done,
      { s with pooled := { s.pooled.setFreeListHead block with
        handed := s.pooled.handed.erase block } })
  | .outside | .waitNew | .waitDelete _ | .malloc | .done => none

/-- The user may write into the blocks it owns and outside of all chunks. -/
def UserMay (a : ℕ) (bs : List UInt8) : Prop :=
  (∃ b ∈ s.owned, b ≤ a ∧ a + bs.length ≤ b + s.pooled.pool.objectSize) ∨
    ∀ c ∈ s.pooled.chunks, c.base + c.bytes ≤ a ∨ a + bs.length ≤ c.base

/-- The block of a constructor or a destructor that is running. -/
def MayWrite (a : ℕ) (bs : List UInt8) : PoolPoint → Prop
  | .outside => s.UserMay a bs
  | .constructing block | .destroying block =>
    (block ≤ a ∧ a + bs.length ≤ block + s.pooled.pool.objectSize) ∨ s.UserMay a bs
  | _ => False

instance (a : ℕ) (bs : List UInt8) : Decidable (s.UserMay a bs) :=
  inferInstanceAs (Decidable (_ ∨ _))

instance (a : ℕ) (bs : List UInt8) (k : PoolPoint) : Decidable (s.MayWrite a bs k) := by
  cases k <;> unfold MayWrite <;> infer_instance

/-- `malloc()` answers; the size was computed from `malloc_time_`. -/
def malloced (fresh : ℕ) : PoolPoint × SharedPool :=
  (.link fresh s.pooled.pool.mallocSize,
    { s with pooled := { s.pooled with
      chunks := ⟨fresh, s.pooled.pool.request⟩ :: s.pooled.chunks } })

def move (k : PoolPoint) (s : SharedPool) : PoolMove → Option (PoolPoint × SharedPool)
  | .new => if k = .outside then some (.waitNew, s) else none
  | .delete block => if k = .outside then some (.waitDelete block, s) else none
  | .go => s.go o k
  | .malloced fresh =>
    if k = .malloc ∧ s.pooled.Fresh ⟨fresh, s.pooled.pool.request⟩ then some (s.malloced fresh)
    else none
  | .write a bs =>
    if s.MayWrite a bs k then some (k, { s with pooled := s.pooled.store a bs }) else none

theorem go_inside {k : PoolPoint} {r : PoolPoint × SharedPool} (h : s.go o k = some r) :
    k.inside = true ∧ r.1.inside = true := by
  cases k with
  | outside | waitNew | waitDelete | malloc | done => cases h
  | test | destroying =>
    cases h
    refine ⟨rfl, ?_⟩
    show PoolPoint.inside (if _ then _ else _) = true
    split <;> rfl
  | delete block =>
    rw [go] at h
    split at h
    · cases h
      exact ⟨rfl, rfl⟩
    · split at h
      · cases h
        exact ⟨rfl, rfl⟩
      · cases h
  | carve n ptr => cases n <;> (cases h; exact ⟨rfl, rfl⟩)
  | link | listHead | push | time | take | next | constructing | nextNode | freeHead =>
    cases h
    exact ⟨rfl, rfl⟩

theorem move_inside {k : PoolPoint} {l : PoolMove} {r : PoolPoint × SharedPool}
    (h : move o k s l = some r) :
    r.1.inside = k.inside := by
  cases l with
  | new | delete =>
    rw [move] at h
    split at h
    · next hk =>
      cases h
      rw [hk]
      rfl
    · cases h
  | go =>
    obtain ⟨hk, hr⟩ := go_inside o s h
    rw [hk, hr]
  | malloced fresh =>
    rw [move] at h
    split at h
    · next hk =>
      cases h
      rw [hk.1]
      rfl
    · cases h
  | write a bs =>
    rw [move] at h
    split at h
    · cases h
      rfl
    · cases h

def protocol : Protocol PoolPoint SharedPool PoolMove where
  inside := PoolPoint.inside
  lock := PoolPoint.lock
  unlock := PoolPoint.unlock
  move := move o
  lock_inside := by
    intro k k' h
    cases k <;> cases h <;> exact ⟨rfl, rfl⟩
  unlock_inside := by
    intro k k' h
    cases k <;> cases h
    exact ⟨rfl, rfl⟩
  move_inside h := move_inside o _ h

/-- An empty pool of objects of `objectSize` bytes, in any memory, and threads of any number. -/
def machine (τ : Type) [DecidableEq τ] (objectSize : ℕ) :
    Machine (Guarded MutexLock τ PoolPoint SharedPool) (Guarded.Label τ PoolMove) :=
  Guarded.machine MutexLock.mutex (protocol o) fun s =>
    s.lock = MutexLock.construct ∧ (∀ t, s.thread t = .outside) ∧
      (Pooled.machine o objectSize).Init s.shared.pooled ∧ s.shared.owned = []

/-- The size of the chunk asked for does not wrap around. -/
def NoWrap (_ : PoolPoint) (s : SharedPool) : PoolMove → Prop
  | .malloced _ =>
    (kInitialMallocSize + s.pooled.pool.mallocTime) * s.pooled.pool.objectSize + nodeSize < 256 ^ 8
  | _ => True

instance (k : PoolPoint) (s : SharedPool) (l : PoolMove) : Decidable (NoWrap k s l) := by
  cases l <;> unfold NoWrap <;> infer_instance

end SharedPool

/-! ## What is left to do -/

namespace Pooled

variable (o : ByteOrder) (s : Pooled)

/-- The rest of the loop. -/
def carveAll (n ptr : ℕ) : Pooled :=
  let carved := MemoryPool.carve o s.pool.objectSize n ptr s.pool.freeListHead s.mem
  { s with pool := { s.pool with freeListHead := carved.1 }, mem := carved.2 }

/-- The front of the free list is handed out. -/
def popped : Pooled :=
  { s with pool := (s.pool.pop o s.mem).2, handed := (s.pool.pop o s.mem).1 :: s.handed }

/-- A block comes to the front of the free list. -/
def putBack (block : ℕ) : Pooled :=
  { s.setFreeListHead block with handed := s.handed.erase block }

/-- The state in which the call that is under way is finished, up to the constructor. -/
def finish : PoolPoint → Pooled
  | .link fresh n => (((s.storeWord o fresh s.pool.listHead).setListHead fresh).carveAll o n
      (sizeT (fresh + nodeSize))).tick.popped o
  | .listHead fresh n =>
      ((s.setListHead fresh).carveAll o n (sizeT (fresh + nodeSize))).tick.popped o
  | .carve n ptr => (s.carveAll o n ptr).tick.popped o
  | .push n ptr =>
      ((s.setFreeListHead ptr).carveAll o n (sizeT (ptr + s.pool.objectSize))).tick.popped o
  | .time => s.tick.popped o
  | .take | .next _ => s.popped o
  | .nextNode block => (s.storeWord o block s.pool.freeListHead).putBack block
  | .freeHead block => s.putBack block
  | _ => s

/-- The addresses from `lo` up to `hi` lie in a chunk that no block was handed out from. -/
def Clear (lo hi : ℕ) : Prop :=
  ∃ c ∈ s.chunks, c.base ≤ lo ∧ hi ≤ c.base + c.bytes ∧
    ∀ b ∈ s.handed, b + s.pool.objectSize ≤ c.base ∨ c.base + c.bytes ≤ b

/-- What a thread knows at its point. -/
def Knows : PoolPoint → Prop
  | .malloc => s.pool.freeListHead = 0
  | .link fresh n | .listHead fresh n =>
    s.Clear fresh (fresh + nodeSize + n * s.pool.objectSize)
  | .carve n ptr => s.Clear ptr (ptr + n * s.pool.objectSize)
  | .push n ptr => s.Clear ptr (ptr + (n + 1) * s.pool.objectSize)
  | .next block => block = s.pool.freeListHead
  | _ => True

end Pooled

/-- The block that is neither owned nor free. -/
def PoolPoint.block : PoolPoint → List ℕ
  | .constructing block | .destroying block | .nextNode block | .freeHead block => [block]
  | _ => []

namespace SharedPool

variable {o : ByteOrder} {objectSize : ℕ} {s s' : SharedPool} {k : PoolPoint}

/-- What holds of the pool while a thread is inside at `k`, or nobody is. -/
structure Holds (o : ByteOrder) (objectSize : ℕ) (k : PoolPoint) (s : SharedPool) : Prop where
  pool : ∃ free, (s.pooled.finish o k).Inv o objectSize free
  blocks : s.pooled.handed.Perm (k.block ++ s.owned)
  apart : s.pooled.handed.Pairwise (Lib.Apart s.pooled.pool.objectSize)
  placed : ∀ b ∈ s.pooled.handed, ∃ c ∈ s.pooled.chunks,
    0 < c.base ∧ c.base + c.bytes < 256 ^ 8 ∧ c.Contains s.pooled.pool.objectSize b
  knows : s.pooled.Knows k

theorem finish_chunks (s : Pooled) (k : PoolPoint) : (s.finish o k).chunks = s.chunks := by
  cases k <;> rfl

theorem finish_objectSize (s : Pooled) (k : PoolPoint) :
    (s.finish o k).pool.objectSize = s.pool.objectSize := by
  cases k <;> rfl

/-- From the answer of `malloc()` on, `Allocate` is settled. -/
theorem finish_malloced (hempty : s.pooled.pool.freeListHead = 0) {fresh : ℕ} :
    (s.malloced fresh).2.pooled.finish o (s.malloced fresh).1 =
      s.pooled.perform o (.allocate fresh) := by
  simp only [Pooled.perform, MemoryPool.allocate, Pooled.chunksAfter, if_pos hempty]
  rfl

namespace Holds

theorem nodeSize_le (h : Holds o objectSize k s) : nodeSize ≤ s.pooled.pool.objectSize := by
  obtain ⟨free, hinv⟩ := h.pool
  have hle := hinv.nodeSize_le
  rwa [finish_objectSize] at hle

/-- Every chunk ends at an address. -/
theorem chunk_lt (h : Holds o objectSize k s) {c : Chunk} (hc : c ∈ s.pooled.chunks) :
    c.base + c.bytes < 256 ^ 8 := by
  obtain ⟨free, hinv⟩ := h.pool
  exact (hinv.placed c (by rwa [finish_chunks])).2

/-! ### The statements of the pool -/

/-- The test of the free list. -/
theorem test (h : Holds o objectSize .test s) :
    Holds o objectSize (if s.pooled.pool.freeListHead = 0 then .malloc else .take) s := by
  obtain ⟨free, hinv⟩ := h.pool
  split
  · next hempty => exact ⟨⟨free, hinv⟩, h.blocks, h.apart, h.placed, hempty⟩
  · next hne =>
    exact ⟨⟨_, hinv.pop (hinv.freeList.ne_nil hne)⟩, h.blocks, h.apart, h.placed, trivial⟩

/-- `malloc()` has answered. -/
theorem malloced (h : Holds o objectSize .malloc s) {fresh : ℕ}
    (hfresh : s.pooled.Fresh ⟨fresh, s.pooled.pool.request⟩)
    (hwrap : NoWrap .malloc s (.malloced fresh)) :
    Holds o objectSize (s.malloced fresh).1 (s.malloced fresh).2 := by
  obtain ⟨free, hinv⟩ := h.pool
  change s.pooled.Inv o objectSize free at hinv
  obtain ⟨free', hdone⟩ := Pooled.inv_allocate hinv (fun _ => hfresh) (fun _ => hwrap)
  rw [← finish_malloced h.knows] at hdone
  refine ⟨⟨free', hdone⟩, h.blocks, h.apart, ?_,
    ⟨fresh, s.pooled.pool.request⟩, List.mem_cons_self, Nat.le_refl _, ?_, ?_⟩
  · intro b hb
    obtain ⟨c, hc, hin⟩ := h.placed b hb
    exact ⟨c, List.mem_cons_of_mem _ hc, hin⟩
  · -- the chunk has room for the link word and all blocks
    obtain ⟨-, hcount, hrequest⟩ := hinv.request_eq hwrap
    rw [← hcount] at hrequest
    change s.pooled.pool.request = s.pooled.pool.mallocSize * s.pooled.pool.objectSize + nodeSize
      at hrequest
    show fresh + nodeSize + s.pooled.pool.mallocSize * s.pooled.pool.objectSize ≤
      fresh + s.pooled.pool.request
    omega
  · -- blocks are handed out from other chunks
    intro b hb
    obtain ⟨d, hd, -, -, hlo, hhi⟩ := h.placed b hb
    rcases hfresh.2.2 d hd with hbefore | hafter
    · exact .inr (hbefore.trans ((Nat.le_add_right _ _).trans hlo))
    · exact .inl (hhi.trans hafter)

/-- `Delete` takes a block that is owned. -/
theorem delete {block : ℕ} (h : Holds o objectSize (.delete block) s) (hmem : block ∈ s.owned) :
    Holds o objectSize (.destroying block) { s with owned := s.owned.erase block } :=
  ⟨h.pool, h.blocks.trans (List.perm_cons_erase hmem), h.apart, h.placed, trivial⟩

/-- The destructor has run. -/
theorem destroying {block : ℕ} (h : Holds o objectSize (.destroying block) s) :
    Holds o objectSize (if block = 0 then .done else .nextNode block) s := by
  obtain ⟨free, hinv⟩ := h.pool
  have hmem : block ∈ s.pooled.handed := h.blocks.mem_iff.mpr List.mem_cons_self
  have hne : block ≠ 0 := by
    obtain ⟨c, -, hpos, -, hlo, -⟩ := h.placed block hmem
    omega
  rw [if_neg hne]
  have hback := hinv.deallocate hmem
  simp only [Pooled.perform, MemoryPool.deallocate, Pooled.finish, if_neg hne] at hback
  exact ⟨⟨_, hback⟩, h.blocks, h.apart, h.placed, trivial⟩

/-- The next statement. -/
theorem go (h : Holds o objectSize k s) {r : PoolPoint × SharedPool} (hr : s.go o k = some r) :
    Holds o objectSize r.1 r.2 := by
  cases k with
  | outside | waitNew | waitDelete | malloc | done => cases hr
  | test =>
    cases hr
    exact h.test
  | link fresh n =>
    cases hr
    exact ⟨h.pool, h.blocks, h.apart, h.placed, h.knows⟩
  | listHead fresh n =>
    cases hr
    obtain ⟨c, hc, hlo, hhi, hout⟩ := h.knows
    have hend := h.chunk_lt hc
    have hptr : sizeT (fresh + nodeSize) = fresh + nodeSize := Nat.mod_eq_of_lt (by omega)
    refine ⟨h.pool, h.blocks, h.apart, h.placed, c, hc, ?_, ?_, hout⟩
    · rw [hptr]
      exact hlo.trans (Nat.le_add_right _ _)
    · rw [hptr]
      exact hhi
  | carve n ptr =>
    cases n with
    | zero =>
      cases hr
      exact ⟨h.pool, h.blocks, h.apart, h.placed, trivial⟩
    | succ n =>
      cases hr
      exact ⟨h.pool, h.blocks, h.apart, h.placed, h.knows⟩
  | push n ptr =>
    cases hr
    obtain ⟨c, hc, hlo, hhi, hout⟩ := h.knows
    have hend := h.chunk_lt hc
    rw [Nat.succ_mul] at hhi
    have hptr : sizeT (ptr + s.pooled.pool.objectSize) = ptr + s.pooled.pool.objectSize :=
      Nat.mod_eq_of_lt (by omega)
    refine ⟨h.pool, h.blocks, h.apart, h.placed, c, hc, ?_, ?_, hout⟩
    · rw [hptr]
      exact hlo.trans (Nat.le_add_right _ _)
    · rw [hptr]
      change ptr + s.pooled.pool.objectSize + n * s.pooled.pool.objectSize ≤ _
      omega
  | time =>
    cases hr
    exact ⟨h.pool, h.blocks, h.apart, h.placed, trivial⟩
  | take =>
    cases hr
    exact ⟨h.pool, h.blocks, h.apart, h.placed, rfl⟩
  | next block =>
    cases hr
    obtain rfl : block = s.pooled.pool.freeListHead := h.knows
    obtain ⟨free, hinv⟩ := h.pool
    refine ⟨⟨free, hinv⟩, h.blocks.cons _, (List.pairwise_append.mp hinv.pairwise).1, ?_, trivial⟩
    intro b hb
    obtain ⟨c, hc, hin⟩ := hinv.contained (List.mem_append_left free hb)
    exact ⟨c, hc, (hinv.placed c hc).1, (hinv.placed c hc).2, hin⟩
  | constructing block =>
    cases hr
    exact ⟨h.pool, h.blocks, h.apart, h.placed, trivial⟩
  | delete block =>
    rw [SharedPool.go] at hr
    split at hr
    · cases hr
      exact ⟨h.pool, h.blocks, h.apart, h.placed, trivial⟩
    · split at hr
      · next hmem =>
        cases hr
        exact h.delete hmem
      · cases hr
  | destroying block =>
    cases hr
    exact h.destroying
  | nextNode block =>
    cases hr
    exact ⟨h.pool, h.blocks, h.apart, h.placed, trivial⟩
  | freeHead block =>
    cases hr
    have hblocks := h.blocks.erase block
    rw [PoolPoint.block, List.singleton_append, List.erase_cons_head] at hblocks
    refine ⟨h.pool, hblocks, h.apart.sublist List.erase_sublist, ?_, trivial⟩
    intro b hb
    exact h.placed b (List.mem_of_mem_erase hb)

end Holds

end SharedPool

/-! ## Writes of other threads -/

/-- The loop does not care for writes outside of what it carves. -/
theorem MemoryPool.carve_store {o : ByteOrder} {size n ptr head a : ℕ} {m : Mem}
    {bs : List UInt8} (hsize : nodeSize ≤ size) (hend : ptr + n * size < 256 ^ 8)
    (hout : a + bs.length ≤ ptr ∨ ptr + n * size ≤ a) :
    carve o size n ptr head (m.store a bs) =
      ((carve o size n ptr head m).1, (carve o size n ptr head m).2.store a bs) := by
  unfold nodeSize at hsize
  induction n generalizing ptr head m with
  | zero => rfl
  | succ n ih =>
    rw [Nat.succ_mul] at hend hout
    have hnext : sizeT (ptr + size) = ptr + size := Nat.mod_eq_of_lt (by omega)
    have hswap : (m.store a bs).storeWord o ptr head = (m.storeWord o ptr head).store a bs :=
      Mem.store_comm (by rw [o.length_bytes]; omega)
    rw [carve, carve, hnext, hswap, ih (by omega) (by omega)]

namespace Pooled

variable {o : ByteOrder} {objectSize : ℕ} {s : Pooled} {a : ℕ} {bs : List UInt8}

theorem storeWord_store {b v : ℕ} (h : a + bs.length ≤ b ∨ b + 8 ≤ a) :
    (s.store a bs).storeWord o b v = (s.storeWord o b v).store a bs := by
  have hswap : (s.mem.store a bs).storeWord o b v = (s.mem.storeWord o b v).store a bs :=
    Mem.store_comm (by rwa [o.length_bytes])
  rw [storeWord, store, hswap]
  rfl

theorem carveAll_store {n ptr : ℕ} (hsize : nodeSize ≤ s.pool.objectSize)
    (hend : ptr + n * s.pool.objectSize < 256 ^ 8)
    (h : a + bs.length ≤ ptr ∨ ptr + n * s.pool.objectSize ≤ a) :
    (s.store a bs).carveAll o n ptr = (s.carveAll o n ptr).store a bs := by
  have hcarve : MemoryPool.carve o s.pool.objectSize n ptr s.pool.freeListHead
      (s.mem.store a bs) = _ := MemoryPool.carve_store hsize hend h
  unfold carveAll store
  dsimp only
  rw [hcarve]

/-- A write that the user may make spares the block that is about to be handed out. -/
theorem popped_store {free : List ℕ} (hinv : (s.popped o).Inv o objectSize free)
    (hen : s.Enabled (.write a bs)) : (s.store a bs).popped o = (s.popped o).store a bs := by
  have hsize := hinv.nodeSize_le
  change nodeSize ≤ s.pool.objectSize at hsize
  unfold nodeSize at hsize
  have hclear : a + bs.length ≤ s.pool.freeListHead ∨ s.pool.freeListHead + 8 ≤ a := by
    rcases hen with ⟨b, hb, hlo, hhi⟩ | houtside
    · have hpair := (List.pairwise_append.mp hinv.pairwise).1
      have hapart := List.rel_of_pairwise_cons hpair hb
      change s.pool.freeListHead + s.pool.objectSize ≤ b ∨
        b + s.pool.objectSize ≤ s.pool.freeListHead at hapart
      omega
    · obtain ⟨c, hc, hlo, hhi⟩ := hinv.contained (List.mem_append_left free List.mem_cons_self)
      change s.pool.freeListHead + s.pool.objectSize ≤ c.base + c.bytes at hhi
      change c.base + nodeSize ≤ s.pool.freeListHead at hlo
      have hapart := houtside c hc
      omega
  have hword : (s.mem.store a bs).loadWord o s.pool.freeListHead =
      s.mem.loadWord o s.pool.freeListHead :=
    Mem.loadWord_congr fun x hlo hhi => Mem.store_outside (by omega)
  unfold popped MemoryPool.pop store
  dsimp only
  rw [hword]

/-- The user does not write where no block was handed out. -/
theorem Clear.outside {lo hi : ℕ} (h : s.Clear lo hi) (hen : s.Enabled (.write a bs)) :
    a + bs.length ≤ lo ∨ hi ≤ a := by
  obtain ⟨c, hc, hlo, hhi, hout⟩ := h
  rcases hen with ⟨b, hb, hblo, hbhi⟩ | houtside
  · have hapart := hout b hb
    omega
  · have hapart := houtside c hc
    omega

/-- The rest of the loop and what comes behind it. -/
theorem carved_store {n ptr : ℕ} {free : List ℕ} (hsize : nodeSize ≤ s.pool.objectSize)
    (hend : ∀ c ∈ s.chunks, c.base + c.bytes < 256 ^ 8)
    (hclear : s.Clear ptr (ptr + n * s.pool.objectSize))
    (hinv : ((s.carveAll o n ptr).tick.popped o).Inv o objectSize free)
    (hen : s.Enabled (.write a bs)) :
    ((s.store a bs).carveAll o n ptr).tick.popped o =
      ((s.carveAll o n ptr).tick.popped o).store a bs := by
  have hout := hclear.outside hen
  obtain ⟨c, hc, -, hhi, -⟩ := hclear
  have hlt := Nat.lt_of_le_of_lt hhi (hend c hc)
  rw [carveAll_store hsize hlt hout]
  exact popped_store hinv hen

end Pooled

namespace SharedPool

variable {o : ByteOrder} {objectSize : ℕ} {s s' : SharedPool} {k : PoolPoint} {a : ℕ}
  {bs : List UInt8}

namespace Holds

theorem mem_handed (h : Holds o objectSize k s) {b : ℕ} (hb : b ∈ s.owned) :
    b ∈ s.pooled.handed :=
  h.blocks.mem_iff.mpr (List.mem_append_right _ hb)

theorem enabled (h : Holds o objectSize k s) (hmay : s.UserMay a bs) :
    s.pooled.Enabled (.write a bs) := by
  rcases hmay with ⟨b, hb, hin⟩ | houtside
  · exact .inl ⟨b, h.mem_handed hb, hin⟩
  · exact .inr houtside

/-- The block that is given back is not owned any more. -/
theorem apart_block (h : Holds o objectSize k s) {block b : ℕ} (hk : k.block = [block])
    (hb : b ∈ s.owned) : Lib.Apart s.pooled.pool.objectSize block b := by
  have hpair : (block :: s.owned).Pairwise (Lib.Apart s.pooled.pool.objectSize) := by
    have hperm := h.blocks
    rw [hk] at hperm
    exact hperm.pairwise h.apart Lib.Apart.symm
  exact List.rel_of_pairwise_cons hpair hb

/-- What is owned is handed out in the state in which the call is finished, too. -/
theorem mem_finish (h : Holds o objectSize k s) {b : ℕ} (hb : b ∈ s.owned) :
    b ∈ (s.pooled.finish o k).handed := by
  have hmem := h.mem_handed hb
  cases k with
  | link | listHead | carve | push | time | take | next => exact List.mem_cons_of_mem _ hmem
  | nextNode block | freeHead block =>
    have hsize : 0 < s.pooled.pool.objectSize := Nat.lt_of_lt_of_le (by decide) h.nodeSize_le
    have hne := Lib.Apart.ne hsize (h.apart_block rfl hb)
    exact (List.mem_erase_of_ne hne.symm).mpr hmem
  | _ => exact hmem

/-- A write of another thread can be moved behind what is left to do. -/
theorem finish_store (h : Holds o objectSize k s) (hmay : s.UserMay a bs) :
    (s.pooled.store a bs).finish o k = (s.pooled.finish o k).store a bs := by
  have hen := h.enabled hmay
  have hsize := h.nodeSize_le
  obtain ⟨free, hinv⟩ := h.pool
  have hend : ∀ c ∈ s.pooled.chunks, c.base + c.bytes < 256 ^ 8 := fun c hc => h.chunk_lt hc
  cases k with
  | link fresh n =>
    have hout := Pooled.Clear.outside h.knows hen
    have hword : (s.pooled.store a bs).storeWord o fresh s.pooled.pool.listHead =
        (s.pooled.storeWord o fresh s.pooled.pool.listHead).store a bs := by
      refine Pooled.storeWord_store ?_
      unfold nodeSize at hout
      omega
    have hclear := (h.go rfl).go rfl
    show (((s.pooled.store a bs).storeWord o fresh s.pooled.pool.listHead).setListHead
      fresh |>.carveAll o n (sizeT (fresh + nodeSize))).tick.popped o = _
    rw [hword]
    exact Pooled.carved_store (s := (s.pooled.storeWord o fresh s.pooled.pool.listHead).setListHead
      fresh) hsize hend hclear.knows hinv hen
  | listHead fresh n =>
    exact Pooled.carved_store (s := s.pooled.setListHead fresh) hsize hend (h.go rfl).knows hinv hen
  | carve n ptr => exact Pooled.carved_store hsize hend h.knows hinv hen
  | push n ptr =>
    exact Pooled.carved_store (s := s.pooled.setFreeListHead ptr) hsize hend (h.go rfl).knows hinv
      hen
  | time => exact Pooled.popped_store (s := s.pooled.tick) hinv hen
  | take | next => exact Pooled.popped_store hinv hen
  | nextNode block =>
    have hword : (s.pooled.store a bs).storeWord o block s.pooled.pool.freeListHead =
        (s.pooled.storeWord o block s.pooled.pool.freeListHead).store a bs := by
      refine Pooled.storeWord_store ?_
      unfold nodeSize at hsize
      rcases hmay with ⟨b, hb, hlo, hhi⟩ | houtside
      · have hapart := h.apart_block rfl hb
        unfold Lib.Apart at hapart
        omega
      · have hmem : block ∈ s.pooled.handed := h.blocks.mem_iff.mpr List.mem_cons_self
        obtain ⟨c, hc, -, -, hlo, hhi⟩ := h.placed block hmem
        have hapart := houtside c hc
        omega
    show ((s.pooled.store a bs).storeWord o block s.pooled.pool.freeListHead).putBack block = _
    rw [hword]
    rfl
  | _ => rfl

/-- A write that the user may make. -/
theorem write (h : Holds o objectSize k s) (hmay : s.UserMay a bs) :
    Holds o objectSize k { s with pooled := s.pooled.store a bs } := by
  obtain ⟨free, hinv⟩ := h.pool
  have hen : (s.pooled.finish o k).Enabled (.write a bs) := by
    rcases hmay with ⟨b, hb, hin⟩ | houtside
    · refine .inl ⟨b, h.mem_finish hb, ?_⟩
      rwa [finish_objectSize]
    · refine .inr ?_
      rwa [finish_chunks]
  refine ⟨⟨free, ?_⟩, h.blocks, h.apart, h.placed, by cases k <;> exact h.knows⟩
  show ((s.pooled.store a bs).finish o k).Inv o objectSize free
  rw [h.finish_store hmay]
  exact hinv.write hen

/-- A write of a constructor or a destructor into its own block. -/
theorem writeOwn {block : ℕ} (hk : k = .constructing block ∨ k = .destroying block)
    (h : Holds o objectSize k s)
    (hin : block ≤ a ∧ a + bs.length ≤ block + s.pooled.pool.objectSize) :
    Holds o objectSize k { s with pooled := s.pooled.store a bs } := by
  obtain ⟨free, hinv⟩ := h.pool
  rcases hk with rfl | rfl
  all_goals
    have hmem : block ∈ s.pooled.handed := h.blocks.mem_iff.mpr List.mem_cons_self
    exact ⟨⟨free, hinv.write (.inl ⟨block, hmem, hin⟩)⟩, h.blocks, h.apart, h.placed, trivial⟩

/-- The pool does not write into blocks that are owned. -/
theorem go_mem (h : Holds o objectSize k s) {r : PoolPoint × SharedPool} (hr : s.go o k = some r)
    {b x : ℕ} (hb : b ∈ s.owned) (hlo : b ≤ x) (hhi : x < b + s.pooled.pool.objectSize) :
    r.2.pooled.mem x = s.pooled.mem x := by
  have hsize := h.nodeSize_le
  unfold nodeSize at hsize
  have hmem := h.mem_handed hb
  cases k with
  | outside | waitNew | waitDelete | malloc | done => cases hr
  | link fresh n =>
    cases hr
    obtain ⟨c, -, hclo, hchi, hout⟩ := h.knows
    have hapart := hout b hmem
    unfold nodeSize at hchi
    exact Mem.storeWord_outside (by omega)
  | carve n ptr =>
    cases n with
    | zero =>
      cases hr
      rfl
    | succ n =>
      cases hr
      obtain ⟨c, -, hclo, hchi, hout⟩ := h.knows
      have hapart := hout b hmem
      rw [Nat.succ_mul] at hchi
      exact Mem.storeWord_outside (by omega)
  | nextNode block =>
    cases hr
    have hapart := h.apart_block rfl hb
    unfold Lib.Apart at hapart
    exact Mem.storeWord_outside (by omega)
  | delete block =>
    rw [SharedPool.go] at hr
    split at hr
    · cases hr
      rfl
    · split at hr
      · cases hr
        rfl
      · cases hr
  | test | listHead | push | time | take | next | constructing | destroying | freeHead =>
    cases hr
    rfl

end Holds

/-! ## Any number of threads -/

variable {τ : Type} [DecidableEq τ] {g : Guarded MutexLock τ PoolPoint SharedPool}

/-- One move of a thread that is inside. -/
theorem holds_inside {l : PoolMove} {r : PoolPoint × SharedPool} (hk : k.inside = true)
    (hok : NoWrap k s l) (hr : move o k s l = some r) (h : Holds o objectSize k s) :
    Holds o objectSize r.1 r.2 := by
  cases l with
  | new | delete =>
    rw [move] at hr
    split at hr
    · next hout =>
      rw [hout] at hk
      cases hk
    · cases hr
  | go => exact h.go hr
  | malloced fresh =>
    rw [move] at hr
    split at hr
    · next hm =>
      cases hr
      obtain ⟨rfl, hfresh⟩ := hm
      exact h.malloced hfresh hok
    · cases hr
  | write a bs =>
    rw [move] at hr
    split at hr
    · next hmay =>
      cases hr
      cases k with
      | constructing block =>
        rcases hmay with hin | hmay
        · exact h.writeOwn (.inl rfl) hin
        · exact h.write hmay
      | destroying block =>
        rcases hmay with hin | hmay
        · exact h.writeOwn (.inr rfl) hin
        · exact h.write hmay
      | outside => exact h.write hmay
      | _ => exact hmay.elim
    · cases hr

/-- One move of a thread that is outside, wherever the thread inside is. -/
theorem holds_outside {l : PoolMove} {r : PoolPoint × SharedPool} (hk : k.inside = false)
    (hr : move o k s l = some r) {p : PoolPoint} (h : Holds o objectSize p s) :
    Holds o objectSize p r.2 := by
  cases l with
  | new | delete =>
    rw [move] at hr
    split at hr
    · cases hr
      exact h
    · cases hr
  | go =>
    rw [(go_inside o s hr).1] at hk
    cases hk
  | malloced fresh =>
    rw [move] at hr
    split at hr
    · next hm =>
      rw [hm.1] at hk
      cases hk
    · cases hr
  | write a bs =>
    rw [move] at hr
    split at hr
    · next hmay =>
      cases hr
      cases k with
      | outside => exact h.write hmay
      | waitNew | waitDelete => exact hmay.elim
      | _ => cases hk
    · cases hr

/-- The lock owns the pool. -/
theorem kept (h : (machine o τ objectSize).Reachable (Guarded.Ok NoWrap) g) :
    Guarded.Kept MutexLock.mutex (protocol o)
      (fun k s => Holds o objectSize (k.getD .outside) s) g := by
  refine Guarded.kept ?_ ?_ ?_ ?_ ?_ h
  · rintro g ⟨-, hthread, hinit, howned⟩
    refine ⟨fun t => by rw [hthread t]; rfl, ⟨[], Pooled.inv_init hinit⟩, ?_, ?_, ?_, trivial⟩
    · rw [hinit.2.2, howned]
      exact .nil
    · rw [hinit.2.2]
      exact .nil
    · rw [hinit.2.2]
      exact fun b hb => absurd hb List.not_mem_nil
  · intro k k' s hlock hs
    cases k <;> cases hlock <;> exact ⟨hs.pool, hs.blocks, hs.apart, hs.placed, trivial⟩
  · intro k k' s hunlock hs
    cases k <;> cases hunlock
    exact ⟨hs.pool, hs.blocks, hs.apart, hs.placed, trivial⟩
  · intro k s l r hk hok hr hs
    exact holds_inside hk hok hr hs
  · intro k s l r hk _ hr p hs
    exact holds_outside hk hr hs

/-- Some thread is inside, or none. -/
theorem exists_holds (h : (machine o τ objectSize).Reachable (Guarded.Ok NoWrap) g) :
    ∃ k, Holds o objectSize k g.shared := by
  have hkept := kept h
  by_cases hnobody : ∀ t, (g.thread t).inside = false
  · exact ⟨_, hkept.home hnobody⟩
  · obtain ⟨t, ht⟩ := not_forall.mp hnobody
    exact ⟨_, hkept.held t (Bool.not_eq_false _ ▸ ht)⟩

/-- **The pool is shared safely.** For any number of threads and any interleaving of their
accesses, as long as no size wraps around: at most one thread is in the pool; the blocks that
are owned do not overlap, and each lies in a chunk behind its link word; when nobody is in the
pool, they and the blocks on the free list are all blocks of all chunks, each once; and no
statement of the pool changes a byte of a block that is owned. -/
theorem pool_shared_safely (h : (machine o τ objectSize).Reachable (Guarded.Ok NoWrap) g) :
    (∀ t u, (g.thread t).inside = true → (g.thread u).inside = true → t = u) ∧
    g.shared.owned.Pairwise (Lib.Apart g.shared.pooled.pool.objectSize) ∧
    (∀ b ∈ g.shared.owned, ∃ c ∈ g.shared.pooled.chunks,
      c.Contains g.shared.pooled.pool.objectSize b) ∧
    ((∀ t, (g.thread t).inside = false) → ∃ free,
      Linked o g.shared.pooled.mem g.shared.pooled.pool.freeListHead free ∧
        (g.shared.owned ++ free).Perm g.shared.pooled.blocks ∧ (g.shared.owned ++ free).Nodup) ∧
    (∀ t l g', (machine o τ objectSize).step g (.move t l) = some g' → (∀ a bs, l ≠ .write a bs) →
      ∀ b ∈ g.shared.owned, ∀ x, b ≤ x → x < b + g.shared.pooled.pool.objectSize →
        g'.shared.pooled.mem x = g.shared.pooled.mem x) := by
  have hkept := kept h
  obtain ⟨k, hk⟩ := exists_holds h
  refine ⟨hkept.one, ?_, ?_, ?_, ?_⟩
  · have hpair := hk.blocks.pairwise hk.apart Lib.Apart.symm
    exact (List.pairwise_append.mp hpair).2.1
  · intro b hb
    obtain ⟨c, hc, -, -, hin⟩ := hk.placed b (hk.mem_handed hb)
    exact ⟨c, hc, hin⟩
  · intro hnobody
    have hhome := hkept.home hnobody
    obtain ⟨free, hinv⟩ := hhome.pool
    change g.shared.pooled.Inv o objectSize free at hinv
    have howned : g.shared.pooled.handed.Perm g.shared.owned := hhome.blocks
    have hpos : 0 < g.shared.pooled.pool.objectSize :=
      Nat.lt_of_lt_of_le (by decide) hinv.nodeSize_le
    have hperm := (howned.symm.append_right free).trans hinv.conserved
    have hnodup : (g.shared.pooled.handed ++ free).Nodup := hinv.pairwise.imp (Lib.Apart.ne hpos)
    exact ⟨free, hinv.freeList, hperm, (howned.append_right free).nodup_iff.mp hnodup⟩
  · intro t l g' hstep hwrite b hb x hlo hhi
    obtain ⟨r, hr, rfl⟩ := Option.map_eq_some_iff.mp hstep
    change move o (g.thread t) g.shared l = some r at hr
    show r.2.pooled.mem x = _
    cases l with
    | new | delete =>
      rw [move] at hr
      split at hr <;> cases hr
      rfl
    | go =>
      have hin : (g.thread t).inside = true := (go_inside o _ hr).1
      exact (hkept.held t hin).go_mem hr hb hlo hhi
    | malloced fresh =>
      rw [move] at hr
      split at hr <;> cases hr
      rfl
    | write a bs => exact absurd rfl (hwrite a bs)

/-- Two threads and an empty pool in a memory of zeros. -/
def start (objectSize : ℕ) : Guarded MutexLock Bool PoolPoint SharedPool :=
  ⟨.construct, fun _ => .outside, ⟨Pooled.start objectSize, []⟩⟩

/-- The first thread takes a block, of a new chunk. While the second one takes the next block,
the first one writes into its own. -/
theorem pool_shared_by_two :
    ∃ g, (machine .little Bool 24).Reachable (Guarded.Ok NoWrap) g ∧ g.shared.owned = [5040] ∧
      g.thread true = .next 5016 ∧ g.shared.pooled.mem 5041 = 2 ∧
      (∀ t u, (g.thread t).inside = true → (g.thread u).inside = true → t = u) := by
  obtain ⟨g, hg, howned, hnext, hmem⟩ := Machine.exists_of_run (machine .little Bool 24)
    (Guarded.Ok NoWrap) (s := start 24) ⟨rfl, fun _ => rfl, Pooled.machine_init_start, rfl⟩
    ([.move false .new, .attempt false true, .attempt false false, .move true .new,
      .attempt true false, .move false .go, .move false (.malloced 4096)] ++
      List.replicate 87 (.move false .go) ++
      [.release false, .attempt true false, .move true .go, .move true .go,
        .move false (.write 5040 [1, 2, 3])])
    (fun g => g.shared.owned = [5040] ∧ g.thread true = .next 5016 ∧
      g.shared.pooled.mem 5041 = 2) (by decide +kernel)
  exact ⟨g, hg, howned, hnext, hmem, (pool_shared_safely hg).1⟩

end SharedPool

end Taotu
