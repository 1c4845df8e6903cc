import Taotu.Lib.Holding
import Taotu.Connection.Connecting

/-!
# Taotu.EventLoop.Poller — the operations in flight (`poller.h`, `poller.cc`)

The poller hands operations to the kernel under keys that it draws from a
64-bit counter, and keeps each of them in `ops_` until its completion queue
entry (CQE) arrives. A cancelled operation stays in `ops_` without its
completion function, so that its late CQE reaches nobody.

`kernel` are the keys of the requests the kernel has not completed. Two ghosts
are kept: `draws` counts the keys drawn, and every read or write operation
records the `owner` that submitted it. Owners are numbered in the order of
their construction, so an owner is told from a later one at its address.

Operations of other eventers (polls, accepts) appear only as keys drawn and
entries of `ops_`. The provided-buffer ring belongs to the multishot reads,
which are not modelled.

`named` is the abstract view: the target each key would complete for. In these
terms a submission links a fresh key, and cancelling and completing strike one.
-/

namespace Taotu

open Lib

/-- The number of `uint64_t` values, `2 ^ 64`. -/
def keyRange : ℕ := 18446744073709551616

/-- The two kinds of operations a connection has in flight. -/
inductive Slot where
  | read
  | write
deriving DecidableEq, Repr

/-- What an operation completes: a slot of the connection at `self`, for the
`owner` that submitted it. -/
structure Target where
  slot : Slot
  self : ℕ
  owner : ℕ
deriving DecidableEq, Repr

/-- The context of an operation. -/
inductive OpContext where
  | read (ctx : ReadContext)
  | write (ctx : WriteContext)
  | other
deriving DecidableEq, Repr

/-- `Poller::IoUringOp`: the eventer is named by the address of its connection,
the completion function is present or not. -/
structure IoUringOp where
  eventer : Option ℕ
  context : OpContext
  completion : Bool
  owner : ℕ
deriving DecidableEq, Repr

namespace IoUringOp

def target (op : IoUringOp) : Option Target :=
  match op.context with
  | .read ctx => some ⟨.read, ctx.self, op.owner⟩
  | .write ctx => some ⟨.write, ctx.self, op.owner⟩
  | .other => none

/-- The context, and with it the memory of the vectors, belongs to `owner`. -/
def BelongsTo (op : IoUringOp) (owner : ℕ) : Prop := op.target.map Target.owner = some owner

instance (op : IoUringOp) (owner : ℕ) : Decidable (op.BelongsTo owner) :=
  inferInstanceAs (Decidable (_ = _))

/-- A cancelled operation has lost its eventer and its completion function. -/
def cancelled (op : IoUringOp) : IoUringOp := { op with eventer := none, completion := false }

end IoUringOp

structure Poller where
  ops : ℕ → Option IoUringOp
  states : ℕ → Bool
  nextKey : ℕ
  draws : ℕ
  kernel : List ℕ

namespace Poller

/-! ## Model layer -/

/-- A new poller: no operations, no eventers, and 1 as the first key. -/
def new : Poller := ⟨fun _ => none, fun _ => false, 1, 0, []⟩

/-- `next_key_.fetch_add(1)`. -/
def fetchAdd (p : Poller) : Poller :=
  { p with nextKey := (p.nextKey + 1) % keyRange, draws := p.draws + 1 }

/-- `NormalizeKey(0)`; a key 0 is skipped. -/
def normalizeKey (p : Poller) : ℕ × Poller :=
  if p.nextKey = 0 then (p.fetchAdd.nextKey, p.fetchAdd.fetchAdd) else (p.nextKey, p.fetchAdd)

/-- A submission draws a key first. `sqe` says whether there is a submission
queue entry; without one the answer is 0. -/
def submit (sqe : Bool) (op : IoUringOp) (p : Poller) : ℕ × Poller :=
  let (key, p) := p.normalizeKey
  if sqe then
    (key, { p with ops := Function.update p.ops key (some op), kernel := key :: p.kernel })
  else (0, p)

def submitRead (sqe : Bool) (ctx : ReadContext) (owner : ℕ) (p : Poller) : ℕ × Poller :=
  p.submit sqe ⟨some ctx.self, .read ctx, true, owner⟩

def submitWrite (sqe : Bool) (ctx : WriteContext) (owner : ℕ) (p : Poller) : ℕ × Poller :=
  p.submit sqe ⟨some ctx.self, .write ctx, true, owner⟩

/-- `SubmitPoll` and `SubmitAccept`, of eventers that are not connections. -/
def submitOther (sqe : Bool) (p : Poller) : ℕ × Poller :=
  p.submit sqe ⟨none, .other, true, 0⟩

/-- What a submission will answer. -/
def answer (sqe : Bool) (p : Poller) : ℕ := if sqe then p.normalizeKey.1 else 0

/-- The kernel is also asked to cancel; whether and when the operation then
completes is its own affair. -/
def cancelOp (key : ℕ) (p : Poller) : Poller :=
  if key = 0 then p
  else { p with ops := Function.update p.ops key ((p.ops key).map IoUringOp.cancelled) }

def addEventer (addr : ℕ) (p : Poller) : Poller :=
  { p with states := Function.update p.states addr true }

def removeEventer (addr : ℕ) (p : Poller) : Poller :=
  { p with states := Function.update p.states addr false }

/-- `LookupOp` takes the operation out of `ops_`. -/
def lookupOp (key : ℕ) (p : Poller) : Poller :=
  if key = 0 then p else { p with ops := Function.update p.ops key none }

/-- What `HandleCqe` does with an entry. -/
inductive Dispatch where
  | ignore
  | cleanup
  | call (op : IoUringOp)
deriving DecidableEq, Repr

/-- The eventer of the operation is registered. -/
def watches (p : Poller) (op : IoUringOp) : Bool := op.eventer.any p.states

def handleCqe (key : ℕ) (p : Poller) : Dispatch :=
  if key = 0 then .ignore
  else
    match p.ops key with
    | none => .ignore
    | some op =>
      if op.completion then
        if op.target.isSome && !p.watches op then .cleanup else .call op
      else .cleanup

/-- A call of the connection with number `owner` to the poller. -/
def serve (owner : ℕ) (sqe : Bool) (p : Poller) : Output → Poller
  | .submitRead ctx => (p.submitRead sqe ctx owner).2
  | .submitWrite ctx => (p.submitWrite sqe ctx owner).2
  | .cancelOp key => p.cancelOp key
  | _ => p

/-! ## The table as it is named -/

/-- The target a key completes, if its operation has not been cancelled. -/
def named (p : Poller) (key : ℕ) : Option Target :=
  (p.ops key).bind fun op => if op.completion then op.target else none

theorem named_eq_some {p : Poller} {key : ℕ} {t : Target} :
    p.named key = some t ↔ ∃ op, p.ops key = some op ∧ op.completion = true ∧ op.target = some t := by
  unfold named
  cases p.ops key with
  | none => simp
  | some op => cases op.completion <;> simp

theorem normalizeKey_ops (p : Poller) : p.normalizeKey.2.ops = p.ops := by
  unfold normalizeKey
  split <;> rfl

/-- In the named view a submission that finds an entry links the key it draws. -/
theorem named_submit (p : Poller) (sqe : Bool) {op : IoUringOp} (hc : op.completion = true) :
    (p.submit sqe op).2.named =
      if sqe then Function.update p.named p.normalizeKey.1 op.target else p.named := by
  funext key
  cases sqe with
  | false =>
    show p.normalizeKey.2.named key = p.named key
    rw [named, normalizeKey_ops, named]
  | true =>
    show (Function.update p.normalizeKey.2.ops p.normalizeKey.1 (some op) key).bind _ = _
    rw [normalizeKey_ops, if_pos rfl]
    by_cases hk : key = p.normalizeKey.1
    · simp [hk, hc]
    · rw [Function.update_of_ne hk, Function.update_of_ne hk, named]

/-- The keys in use have been drawn, and an operation that has its completion
function also has the eventer of its connection. -/
structure Wf (p : Poller) : Prop where
  next : p.nextKey = (p.draws + 1) % keyRange
  keys : ∀ key op, p.ops key = some op → 1 ≤ key ∧ key ≤ p.draws
  eventer : ∀ key op t, p.ops key = some op → op.completion = true → op.target = some t →
    op.eventer = some t.self

theorem wf_new : new.Wf := by
  constructor
  · decide
  · intro key op h
    cases h
  · intro key op t h
    cases h

namespace Wf

variable {p : Poller} (hp : p.Wf)
include hp

/-- Changes that only touch `ops_`, the eventers and the requests of the kernel. -/
theorem of_ops {ops : ℕ → Option IoUringOp} {states : ℕ → Bool} {kernel : List ℕ}
    (h : ∀ key op, ops key = some op →
      ∃ op', p.ops key = some op' ∧ (op = op' ∨ op.completion = false)) :
    (⟨ops, states, p.nextKey, p.draws, kernel⟩ : Poller).Wf := by
  constructor
  · exact hp.next
  · intro key op hop
    rcases h key op hop with ⟨op', hop', -⟩
    exact hp.keys key op' hop'
  · intro key op t hop hc ht
    rcases h key op hop with ⟨op', hop', rfl | hc'⟩
    · exact hp.eventer key op t hop' hc ht
    · rw [hc] at hc'
      cases hc'

theorem zero : p.ops 0 = none := by
  cases h : p.ops 0 with
  | none => rfl
  | some op =>
    have hpos := (hp.keys 0 op h).1
    omega

theorem named_zero : p.named 0 = none := by
  rw [named, hp.zero]
  rfl

theorem fetchAdd : p.fetchAdd.Wf := by
  constructor
  · show (p.nextKey + 1) % keyRange = (p.draws + 1 + 1) % keyRange
    rw [hp.next, Nat.mod_add_mod]
  · intro key op h
    have hk := hp.keys key op h
    exact ⟨hk.1, Nat.le_succ_of_le hk.2⟩
  · exact hp.eventer

/-- A key is drawn: it is not 0, and it counts as drawn from now on. -/
theorem normalizeKey : p.normalizeKey.2.Wf ∧ 1 ≤ p.normalizeKey.1 ∧
    p.normalizeKey.1 ≤ p.normalizeKey.2.draws ∧ p.draws < p.normalizeKey.2.draws := by
  have hnext := hp.next
  have hle := Nat.mod_le (p.draws + 1) keyRange
  unfold Poller.normalizeKey
  split
  · next hz =>
    have hone : p.fetchAdd.nextKey = 1 := by
      show (p.nextKey + 1) % keyRange = 1
      rw [hz]
      rfl
    refine ⟨hp.fetchAdd.fetchAdd, ?_, ?_, ?_⟩
    · rw [hone]
    · rw [hone]
      exact Nat.succ_le_succ (Nat.zero_le _)
    · exact Nat.lt_succ_of_lt (Nat.lt_succ_self p.draws)
  · next hz => exact ⟨hp.fetchAdd, by omega, hnext ▸ hle, Nat.lt_succ_self p.draws⟩

/-- As long as the counter has not come round, the key is in use by nobody. -/
theorem fresh (hd : p.normalizeKey.2.draws < keyRange) : p.named p.normalizeKey.1 = none := by
  have hlt := hp.normalizeKey.2.2.2
  have hnext : p.nextKey = p.draws + 1 := by
    rw [hp.next, Nat.mod_eq_of_lt (by omega)]
  have hkey : p.normalizeKey.1 = p.draws + 1 := by
    rw [Poller.normalizeKey, hnext, if_neg (Nat.succ_ne_zero _)]
  rw [hkey, named]
  cases h : p.ops (p.draws + 1) with
  | none => rfl
  | some op =>
    have hle := (hp.keys _ op h).2
    omega

theorem submit (sqe : Bool) (op : IoUringOp)
    (hev : ∀ t, op.target = some t → op.eventer = some t.self) : (p.submit sqe op).2.Wf := by
  obtain ⟨hwf, hpos, hle, -⟩ := hp.normalizeKey
  cases sqe with
  | false => exact hwf
  | true =>
    constructor
    · exact hwf.next
    · intro key op' h
      change Function.update p.normalizeKey.2.ops p.normalizeKey.1 (some op) key = some op' at h
      by_cases hk : key = p.normalizeKey.1
      · exact hk ▸ ⟨hpos, hle⟩
      · rw [Function.update_of_ne hk] at h
        exact hwf.keys key op' h
    · intro key op' t h hc ht
      change Function.update p.normalizeKey.2.ops p.normalizeKey.1 (some op) key = some op' at h
      by_cases hk : key = p.normalizeKey.1
      · rw [hk, Function.update_self] at h
        cases h
        exact hev t ht
      · rw [Function.update_of_ne hk] at h
        exact hwf.eventer key op' t h hc ht

theorem cancelOp (key : ℕ) : (p.cancelOp key).Wf := by
  unfold Poller.cancelOp
  split
  · exact hp
  · apply hp.of_ops
    intro k op h
    by_cases hk : k = key
    · subst hk
      rw [Function.update_self, Option.map_eq_some_iff] at h
      rcases h with ⟨op', hop', rfl⟩
      exact ⟨op', hop', .inr rfl⟩
    · rw [Function.update_of_ne hk] at h
      exact ⟨op, h, .inl rfl⟩

/-- In the named view cancelling strikes the key, -/
theorem named_cancelOp (key : ℕ) : (p.cancelOp key).named = strike p.named (some key) := by
  funext k
  rw [strike]
  unfold Poller.cancelOp
  split
  · next hz =>
    subst hz
    by_cases hk : k = 0
    · rw [hk, Function.update_self, hp.named_zero]
    · rw [Function.update_of_ne hk]
  · unfold named
    by_cases hk : k = key
    · subst hk
      cases p.ops k <;> simp [IoUringOp.cancelled]
    · simp [Function.update_of_ne hk]

theorem lookupOp (key : ℕ) : (p.lookupOp key).Wf := by
  unfold Poller.lookupOp
  split
  · exact hp
  · apply hp.of_ops
    intro k op h
    by_cases hk : k = key
    · rw [hk, Function.update_self] at h
      cases h
    · rw [Function.update_of_ne hk] at h
      exact ⟨op, h, .inl rfl⟩

/-- and so does taking the operation out. -/
theorem named_lookupOp (key : ℕ) : (p.lookupOp key).named = strike p.named (some key) := by
  funext k
  rw [strike]
  unfold Poller.lookupOp
  split
  · next hz =>
    subst hz
    by_cases hk : k = 0
    · rw [hk, Function.update_self, hp.named_zero]
    · rw [Function.update_of_ne hk]
  · unfold named
    by_cases hk : k = key
    · subst hk
      simp
    · simp [Function.update_of_ne hk]

end Wf

/-- A completion function that runs was neither cancelled nor dropped. -/
theorem handleCqe_call {p : Poller} {key : ℕ} {op : IoUringOp} (h : p.handleCqe key = .call op) :
    key ≠ 0 ∧ p.ops key = some op ∧ op.completion = true := by
  unfold handleCqe at h
  split at h
  · cases h
  · next hz =>
    split at h
    · cases h
    · next op' hop =>
      split at h
      · next hc =>
        split at h
        · cases h
        · cases h
          exact ⟨hz, hop, hc⟩
      · cases h

end Poller

end Taotu
