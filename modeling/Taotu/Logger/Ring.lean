import Taotu.Lib.Machine
import Taotu.Lib.Turns
import Mathlib.Data.Finset.Insert

/-!
# Taotu.Logger.Ring — the log ring (`logger.h`, `logger.cc`)

`Enqueue` and `Dequeue` on the ring of log records, one atomic operation a step,
sequentially consistent, with any type `τ` of producer threads and one consumer.
A thread's state is the operation it does next.

A successful compare-and-swap on `write_index_` hands out a ticket, and the
ticket decides the slot. `slot.seq` says whose turn a slot is: `Lib.Turns`.

**Assumption.** The indices do not wrap: they and the sequence numbers are
natural numbers. `pending_` is a `size_t` and does wrap.

**Ghosts.** `claimed` are the records in the order of their tickets. `published`,
`counted` and `accepted` are the tickets whose producers have stored `seq`, have
added to `pending_` and have returned `true`. `released` counts the slots the
consumer has given back, `dequeued` are the records it has returned.
-/

namespace Taotu.Log

open Lib

/-! ## Model layer -/

def kLogBufferSize : ℕ := 16777216

def kLogBufferMask : ℕ := kLogBufferSize - 1

/-- The number of `size_t` values. -/
def countRange : ℕ := 18446744073709551616

/-- The index of the slot at a position. -/
def slot (pos : ℕ) : ℕ := pos &&& kLogBufferMask

/-- What a thread in `Enqueue` does next. -/
inductive Enqueuing where
  | idle
  | loadIndex (record : String)
  | loadSeq (record : String) (pos : ℕ)
  | exchange (record : String) (pos : ℕ)
  | writeData (record : String) (pos : ℕ)
  | storeSeq (record : String) (pos : ℕ)
  | fetchAdd (pos : ℕ)
  /-- Notify the writer if `prev` is zero, and return. -/
  | notify (pos prev : ℕ)
  | returned (result : Bool)
deriving DecidableEq, Repr

/-- What the consumer in `Dequeue` does next. -/
inductive Dequeuing where
  | idle
  | loadIndex
  | loadSeq (pos : ℕ)
  | exchange (pos : ℕ)
  | swapData (pos : ℕ)
  | clearData (pos : ℕ)
  | storeSeq (pos : ℕ)
  | fetchSub
  | returned (result : Bool)
deriving DecidableEq, Repr

/-- The ticket a thread has claimed and not yet counted. -/
def Enqueuing.ticket : Enqueuing → Option ℕ
  | .writeData _ pos | .storeSeq _ pos | .fetchAdd pos => some pos
  | _ => none

/-- The position of a thread between its exchange and its store of `seq`. -/
def Enqueuing.inSlot : Enqueuing → Option ℕ
  | .writeData _ pos | .storeSeq _ pos => some pos
  | _ => none

/-- The position of the consumer between its exchange and its store of `seq`. -/
def Dequeuing.inSlot : Dequeuing → Option ℕ
  | .swapData pos | .clearData pos | .storeSeq pos => some pos
  | _ => none

/-- A thread that is not in `Enqueue`. -/
def Enqueuing.Outside : Enqueuing → Prop
  | .idle | .returned _ => True
  | _ => False

/-- A consumer that is not in `Dequeue`. -/
def Dequeuing.Outside : Dequeuing → Prop
  | .idle | .returned _ => True
  | _ => False

instance : DecidablePred Enqueuing.Outside
  | .idle | .returned _ => inferInstanceAs (Decidable True)
  | .loadIndex _ | .loadSeq _ _ | .exchange _ _ | .writeData _ _ | .storeSeq _ _ | .fetchAdd _
  | .notify _ _ => inferInstanceAs (Decidable False)

instance : DecidablePred Dequeuing.Outside
  | .idle | .returned _ => inferInstanceAs (Decidable True)
  | .loadIndex | .loadSeq _ | .exchange _ | .swapData _ | .clearData _ | .storeSeq _ | .fetchSub =>
    inferInstanceAs (Decidable False)

structure Ring (τ : Type) where
  seq : ℕ → ℕ
  data : ℕ → String
  writeIndex : ℕ
  readIndex : ℕ
  pending : ℕ
  producers : τ → Enqueuing
  consumer : Dequeuing
  /-- `*out` of `Dequeue`. -/
  out : String
  claimed : List String
  published : Finset ℕ
  counted : Finset ℕ
  accepted : Finset ℕ
  released : ℕ
  dequeued : List String

namespace Ring

variable {τ : Type}

/-- A compare-and-swap may fail for no reason. -/
inductive Label (τ : Type) where
  | enqueue (t : τ) (record : String)
  | producer (t : τ) (spurious : Bool)
  | dequeue (out : String)
  | consumer (spurious : Bool)
deriving DecidableEq, Repr

def goto [DecidableEq τ] (s : Ring τ) (t : τ) (pc : Enqueuing) : Ring τ :=
  { s with producers := Function.update s.producers t pc }

@[simp] theorem goto_producers [DecidableEq τ] (s : Ring τ) (t : τ) (pc : Enqueuing) :
    (s.goto t pc).producers t = pc :=
  Function.update_self ..

/-- One step of `Enqueue`. -/
def producerStep [DecidableEq τ] (s : Ring τ) (t : τ) (spurious : Bool) : Option (Ring τ) :=
  match s.producers t with
  | .idle => none
  | .loadIndex record => some (s.goto t (.loadSeq record s.writeIndex))
  | .loadSeq record pos =>
    let diff : ℤ := (s.seq (slot pos) : ℤ) - pos
    if diff = 0 then some (s.goto t (.exchange record pos))
    else if diff < 0 then some (s.goto t (.returned false))
    else some (s.goto t (.loadIndex record))
  | .exchange record pos =>
    if s.writeIndex = pos ∧ spurious = false then
      some { s.goto t (.writeData record pos) with
        writeIndex := pos + 1
        claimed := s.claimed ++ [record] }
    else some (s.goto t (.loadSeq record s.writeIndex))
  | .writeData record pos =>
    some { s.goto t (.storeSeq record pos) with data := Function.update s.data (slot pos) record }
  | .storeSeq _ pos =>
    some { s.goto t (.fetchAdd pos) with
      seq := Function.update s.seq (slot pos) (pos + 1)
      published := insert pos s.published }
  | .fetchAdd pos =>
    some { s.goto t (.notify pos s.pending) with
      pending := (s.pending + 1) % countRange
      counted := insert pos s.counted }
  | .notify pos _ => some { s.goto t (.returned true) with accepted := insert pos s.accepted }
  | .returned _ => none

/-- One step of `Dequeue`. -/
def consumerStep (s : Ring τ) (spurious : Bool) : Option (Ring τ) :=
  match s.consumer with
  | .idle => none
  | .loadIndex => some { s with consumer := .loadSeq s.readIndex }
  | .loadSeq pos =>
    let diff : ℤ := (s.seq (slot pos) : ℤ) - (pos + 1)
    if diff = 0 then some { s with consumer := .exchange pos }
    else if diff < 0 then some { s with consumer := .returned false }
    else some { s with consumer := .loadIndex }
  | .exchange pos =>
    if s.readIndex = pos ∧ spurious = false then
      some { s with consumer := .swapData pos, readIndex := pos + 1 }
    else some { s with consumer := .loadSeq s.readIndex }
  | .swapData pos =>
    some { s with
      consumer := .clearData pos
      out := s.data (slot pos)
      data := Function.update s.data (slot pos) s.out }
  | .clearData pos =>
    some { s with consumer := .storeSeq pos, data := Function.update s.data (slot pos) "" }
  | .storeSeq pos =>
    some { s with
      consumer := .fetchSub
      seq := Function.update s.seq (slot pos) (pos + kLogBufferSize)
      released := s.released + 1 }
  | .fetchSub =>
    some { s with
      consumer := .returned true
      pending := (s.pending + (countRange - 1)) % countRange
      dequeued := s.dequeued ++ [s.out] }
  | .returned _ => none

def step [DecidableEq τ] (s : Ring τ) : Label τ → Option (Ring τ)
  | .enqueue t record =>
    if (s.producers t).Outside then some (s.goto t (.loadIndex record)) else none
  | .producer t spurious => s.producerStep t spurious
  | .dequeue out =>
    if s.consumer.Outside then some { s with consumer := .loadIndex, out := out } else none
  | .consumer spurious => s.consumerStep spurious

/-- The ring after `StartLogger`. -/
def start : Ring τ :=
  { seq := fun i => i
    data := fun _ => ""
    writeIndex := 0, readIndex := 0, pending := 0
    producers := fun _ => .idle
    consumer := .idle
    out := ""
    claimed := [], published := ∅, counted := ∅, accepted := ∅, released := 0, dequeued := [] }

def machine [DecidableEq τ] : Machine (Ring τ) (Label τ) := ⟨fun s => s = start, step⟩

/-! ## What a step can do -/

/-- The steps of `Enqueue`. -/
inductive Produced [DecidableEq τ] (s : Ring τ) (t : τ) : Ring τ → Prop where
  | loadIndex {record : String} (hpc : s.producers t = .loadIndex record) :
      Produced s t (s.goto t (.loadSeq record s.writeIndex))
  /-- The number in the slot is the position, an older one or a newer one. -/
  | turn {record : String} {pos : ℕ} (hpc : s.producers t = .loadSeq record pos)
      (hseq : s.seq (slot pos) = pos) : Produced s t (s.goto t (.exchange record pos))
  | full {record : String} {pos : ℕ} (hpc : s.producers t = .loadSeq record pos)
      (hseq : s.seq (slot pos) < pos) : Produced s t (s.goto t (.returned false))
  | late {record : String} {pos : ℕ} (hpc : s.producers t = .loadSeq record pos) :
      Produced s t (s.goto t (.loadIndex record))
  | won {record : String} (hpc : s.producers t = .exchange record s.writeIndex) :
      Produced s t { s.goto t (.writeData record s.writeIndex) with
        writeIndex := s.writeIndex + 1
        claimed := s.claimed ++ [record] }
  | lost {record : String} {pos : ℕ} (hpc : s.producers t = .exchange record pos) :
      Produced s t (s.goto t (.loadSeq record s.writeIndex))
  | writeData {record : String} {pos : ℕ} (hpc : s.producers t = .writeData record pos) :
      Produced s t { s.goto t (.storeSeq record pos) with
        data := Function.update s.data (slot pos) record }
  | storeSeq {record : String} {pos : ℕ} (hpc : s.producers t = .storeSeq record pos) :
      Produced s t { s.goto t (.fetchAdd pos) with
        seq := Function.update s.seq (slot pos) (pos + 1)
        published := insert pos s.published }
  | fetchAdd {pos : ℕ} (hpc : s.producers t = .fetchAdd pos) :
      Produced s t { s.goto t (.notify pos s.pending) with
        pending := (s.pending + 1) % countRange
        counted := insert pos s.counted }
  | notify {pos prev : ℕ} (hpc : s.producers t = .notify pos prev) :
      Produced s t { s.goto t (.returned true) with accepted := insert pos s.accepted }

theorem produced [DecidableEq τ] {s s' : Ring τ} {t : τ} {spurious : Bool}
    (h : s.producerStep t spurious = some s') : s.Produced t s' := by
  rw [producerStep] at h
  split at h
  case h_3 record pos hpc =>
    dsimp only at h
    split at h
    · cases h
      exact .turn hpc (by omega)
    · split at h
      · cases h
        exact .full hpc (by omega)
      · cases h
        exact .late hpc
  case h_4 record pos hpc =>
    split at h
    · next hwon =>
      cases h
      rcases hwon with ⟨rfl, -⟩
      exact .won hpc
    · cases h
      exact .lost hpc
  all_goals
    cases h
    try constructor
    try assumption

/-- The steps of `Dequeue`. -/
inductive Consumed (s : Ring τ) : Ring τ → Prop where
  | loadIndex (hpc : s.consumer = .loadIndex) :
      Consumed s { s with consumer := .loadSeq s.readIndex }
  | turn {pos : ℕ} (hpc : s.consumer = .loadSeq pos) (hseq : s.seq (slot pos) = pos + 1) :
      Consumed s { s with consumer := .exchange pos }
  | empty {pos : ℕ} (hpc : s.consumer = .loadSeq pos) :
      Consumed s { s with consumer := .returned false }
  | late {pos : ℕ} (hpc : s.consumer = .loadSeq pos) : Consumed s { s with consumer := .loadIndex }
  | won (hpc : s.consumer = .exchange s.readIndex) :
      Consumed s { s with consumer := .swapData s.readIndex, readIndex := s.readIndex + 1 }
  | lost {pos : ℕ} (hpc : s.consumer = .exchange pos) :
      Consumed s { s with consumer := .loadSeq s.readIndex }
  | swapData {pos : ℕ} (hpc : s.consumer = .swapData pos) :
      Consumed s { s with
        consumer := .clearData pos
        out := s.data (slot pos)
        data := Function.update s.data (slot pos) s.out }
  | clearData {pos : ℕ} (hpc : s.consumer = .clearData pos) :
      Consumed s { s with consumer := .storeSeq pos, data := Function.update s.data (slot pos) "" }
  | storeSeq {pos : ℕ} (hpc : s.consumer = .storeSeq pos) :
      Consumed s { s with
        consumer := .fetchSub
        seq := Function.update s.seq (slot pos) (pos + kLogBufferSize)
        released := s.released + 1 }
  | fetchSub (hpc : s.consumer = .fetchSub) :
      Consumed s { s with
        consumer := .returned true
        pending := (s.pending + (countRange - 1)) % countRange
        dequeued := s.dequeued ++ [s.out] }

theorem consumed {s s' : Ring τ} {spurious : Bool} (h : s.consumerStep spurious = some s') :
    s.Consumed s' := by
  rw [consumerStep] at h
  split at h
  case h_3 pos hpc =>
    dsimp only at h
    split at h
    · cases h
      exact .turn hpc (by omega)
    · split at h
      · cases h
        exact .empty hpc
      · cases h
        exact .late hpc
  case h_4 pos hpc =>
    split at h
    · next hwon =>
      cases h
      rcases hwon with ⟨rfl, -⟩
      exact .won hpc
    · cases h
      exact .lost hpc
  case h_8 hpc => exact Option.some.inj h ▸ .fetchSub hpc
  all_goals
    cases h
    try constructor
    try assumption

/-- A thread enters `Enqueue`. -/
theorem enqueue_eq [DecidableEq τ] {s s' : Ring τ} {t : τ} {record : String}
    (h : s.step (.enqueue t record) = some s') :
    (s.producers t).Outside ∧ s' = s.goto t (.loadIndex record) := by
  simp only [step, Option.ite_none_right_eq_some, Option.some.injEq] at h
  exact ⟨h.1, h.2.symm⟩

/-- The consumer enters `Dequeue`. -/
theorem dequeue_eq [DecidableEq τ] {s s' : Ring τ} {out : String}
    (h : s.step (.dequeue out) = some s') :
    s.consumer.Outside ∧ s' = { s with consumer := .loadIndex, out := out } := by
  simp only [step, Option.ite_none_right_eq_some, Option.some.injEq] at h
  exact ⟨h.1, h.2.symm⟩

/-! ## The invariant -/

theorem slot_eq (pos : ℕ) : slot pos = pos % kLogBufferSize :=
  Nat.and_two_pow_sub_one_eq_mod pos 24

theorem two_le_size : 2 ≤ kLogBufferSize := by decide

/-- What a thread in `Enqueue` relies on. -/
def EnqueueOk (s : Ring τ) : Enqueuing → Prop
  | .loadSeq _ pos => pos ≤ s.writeIndex
  | .exchange _ pos => pos ≤ s.writeIndex ∧ pos < s.released + kLogBufferSize
  | .writeData record pos => pos ∉ s.published ∧ s.claimed[pos]? = some record
  | .storeSeq record pos =>
    (pos ∉ s.published ∧ s.claimed[pos]? = some record) ∧ s.data (slot pos) = record
  | .fetchAdd pos => pos ∈ s.published ∧ pos ∉ s.counted
  | .notify pos _ => pos ∈ s.counted
  | .idle | .loadIndex _ | .returned _ => True

/-- Every record before `read_index_` has been returned. -/
def AtRest (s : Ring τ) : Prop :=
  s.released = s.readIndex ∧ s.dequeued = s.claimed.take s.readIndex

/-- The consumer has taken the ticket `pos` and not yet returned its record. -/
def Taken (s : Ring τ) (pos : ℕ) : Prop :=
  s.readIndex = pos + 1 ∧ s.dequeued = s.claimed.take pos

/-- What the consumer relies on. -/
def DequeueOk (s : Ring τ) : Dequeuing → Prop
  | .idle | .loadIndex | .returned _ => s.AtRest
  | .loadSeq pos => pos = s.readIndex ∧ s.AtRest
  | .exchange pos => pos = s.readIndex ∧ pos ∈ s.published ∧ s.AtRest
  | .swapData pos => s.Taken pos ∧ s.released = pos
  | .clearData pos | .storeSeq pos =>
    s.Taken pos ∧ s.released = pos ∧ s.claimed[pos]? = some s.out
  | .fetchSub => s.released = s.readIndex ∧ ∃ pos, s.Taken pos ∧ s.claimed[pos]? = some s.out

/-- A ticket has one owner. -/
def Apart (producers : τ → Enqueuing) : Prop :=
  ∀ t t' p, (producers t).ticket = some p → (producers t').ticket = some p → t = t'

structure Inv (s : Ring τ) : Prop where
  turns : Turns kLogBufferSize s.seq s.released (· ∈ s.published)
  released_le : s.released ≤ s.readIndex
  read_le : s.readIndex ≤ s.writeIndex
  write_le : s.writeIndex ≤ s.released + kLogBufferSize
  claimed : s.claimed.length = s.writeIndex
  published_lt : ∀ p ∈ s.published, p < s.writeIndex
  read_published : ∀ p, p < s.readIndex → p ∈ s.published
  counted : s.counted ⊆ s.published
  accepted : s.accepted ⊆ s.counted
  /-- A published record is in its slot until the consumer swaps it out. -/
  data : ∀ p ∈ s.published, s.readIndex ≤ p ∨ s.consumer = .swapData p →
    s.claimed[p]? = some (s.data (slot p))
  producers : ∀ t, s.EnqueueOk (s.producers t)
  apart : Apart s.producers
  consumer : s.DequeueOk s.consumer

variable {s s' : Ring τ} {t : τ} {l : Label τ} {p : ℕ}

/-- A thread may move on with a ticket nobody else has. -/
theorem Apart.update [DecidableEq τ] {f : τ → Enqueuing} (h : Apart f) {pc : Enqueuing}
    (hnew : ∀ p, pc.ticket = some p → ∀ t', t' ≠ t → (f t').ticket ≠ some p) :
    Apart (Function.update f t pc) := by
  intro t₁ t₂ p h₁ h₂
  by_cases ht₁ : t₁ = t <;> by_cases ht₂ : t₂ = t
  · rw [ht₁, ht₂]
  · rw [ht₁, Function.update_self] at h₁
    rw [Function.update_of_ne ht₂] at h₂
    exact absurd h₂ (hnew p h₁ t₂ ht₂)
  · rw [ht₂, Function.update_self] at h₂
    rw [Function.update_of_ne ht₁] at h₁
    exact absurd h₁ (hnew p h₂ t₁ ht₁)
  · rw [Function.update_of_ne ht₁] at h₁
    rw [Function.update_of_ne ht₂] at h₂
    exact h t₁ t₂ p h₁ h₂

theorem inv_init [DecidableEq τ] (h : machine.Init s) : s.Inv := by
  cases h
  refine ⟨?_, Nat.le_refl _, Nat.le_refl _, Nat.zero_le _, rfl, nofun, nofun, nofun, nofun, nofun,
    fun _ => trivial, nofun, ⟨rfl, rfl⟩⟩
  have hinit := Turns.init kLogBufferSize
  exact ⟨fun p h h' _ => hinit.toFill p h h' id, nofun⟩

namespace Inv

variable (h : s.Inv)
include h

/-- Two tickets that are not released have different slots. -/
theorem slot_ne {p q : ℕ} (hp : s.released ≤ p) (hp' : p < s.writeIndex) (hq : s.released ≤ q)
    (hq' : q < s.writeIndex) (hne : p ≠ q) : slot p ≠ slot q := by
  have hw := h.write_le
  rw [slot_eq, slot_eq]
  exact fun heq => hne (slot_inj hp (by omega) hq (by omega) heq)

/-- A claimed ticket that is not published is not released. -/
theorem window (hp : p ∉ s.published) {record : String} (hc : s.claimed[p]? = some record) :
    s.released ≤ p ∧ p < s.writeIndex := by
  have hle := h.released_le
  constructor
  · by_contra hlt
    exact hp (h.read_published p (by omega))
  · rw [← h.claimed]
    exact (List.getElem?_eq_some_iff.mp hc).1

/-- A thread that holds a ticket holds a claimed one. -/
theorem ticket_lt (ht : (s.producers t).ticket = some p) : p < s.writeIndex := by
  have hok := h.producers t
  cases hpc : s.producers t <;> rw [hpc] at ht hok <;> cases ht
  · exact (h.window hok.1 hok.2).2
  · exact (h.window hok.1.1 hok.1.2).2
  · exact h.published_lt p hok.1

/-- The ticket of a thread is nobody else's. -/
theorem ticket_ne (ht : (s.producers t).ticket = some p) {t' : τ} (hne : t' ≠ t) :
    (s.producers t').ticket ≠ some p :=
  fun ht' => hne (h.apart t' t p ht' ht)

/-- A thread moves to a point where it holds no new ticket. -/
theorem goto [DecidableEq τ] {pc : Enqueuing} (hok : s.EnqueueOk pc)
    (hticket : ∀ p, pc.ticket = some p → (s.producers t).ticket = some p) : (s.goto t pc).Inv :=
  { h with
    producers := (Function.forall_update_iff _ fun _ pc => (s.goto t pc).EnqueueOk pc).mpr
      ⟨hok, fun t' _ => h.producers t'⟩
    apart := h.apart.update fun p hp _ => h.ticket_ne (hticket p hp) }

end Inv

/-! ## Steps of a producer -/

/-- What the others do does not disturb a thread in `Enqueue`. -/
theorem EnqueueOk.mono {pc : Enqueuing} (h : s.EnqueueOk pc) (hw : s.writeIndex ≤ s'.writeIndex)
    (hr : s.released ≤ s'.released) {new : List String} (hc : s'.claimed = s.claimed ++ new)
    (hpub : s.published ⊆ s'.published)
    (hnew : ∀ p, pc.ticket = some p → p ∉ s.published → p ∉ s'.published)
    (hcount : s.counted ⊆ s'.counted)
    (hnew' : ∀ p, pc.ticket = some p → p ∉ s.counted → p ∉ s'.counted)
    (hdata : ∀ record p, pc = .storeSeq record p → s'.data (slot p) = s.data (slot p)) :
    s'.EnqueueOk pc := by
  have hget : ∀ (p : ℕ) (record : String), s.claimed[p]? = some record →
      s'.claimed[p]? = some record := by
    intro p record hp
    rw [hc, List.getElem?_append_left (List.getElem?_eq_some_iff.mp hp).1]
    exact hp
  cases pc with
  | idle => trivial
  | loadIndex record => trivial
  | loadSeq record pos => exact Nat.le_trans h hw
  | exchange record pos => exact ⟨Nat.le_trans h.1 hw, by have := h.2; omega⟩
  | writeData record pos => exact ⟨hnew pos rfl h.1, hget pos record h.2⟩
  | storeSeq record pos =>
    exact ⟨⟨hnew pos rfl h.1.1, hget pos record h.1.2⟩, (hdata record pos rfl).trans h.2⟩
  | fetchAdd pos => exact ⟨hpub h.1, hnew' pos rfl h.2⟩
  | notify pos prev => exact hcount h
  | returned result => trivial

/-- What the producers do does not disturb the consumer. -/
theorem DequeueOk.mono {pc : Dequeuing} (h : s.DequeueOk pc) (hlen : s.readIndex ≤ s.claimed.length)
    (hread : s'.readIndex = s.readIndex) (hrel : s'.released = s.released)
    (hout : s'.out = s.out) (hdeq : s'.dequeued = s.dequeued) {new : List String}
    (hc : s'.claimed = s.claimed ++ new) (hpub : s.published ⊆ s'.published) : s'.DequeueOk pc := by
  have htake : ∀ n, n ≤ s.readIndex → s'.claimed.take n = s.claimed.take n := by
    intro n hn
    rw [hc, List.take_append_of_le_length (by omega)]
  have hrest : s.AtRest → s'.AtRest := by
    rintro ⟨h₁, h₂⟩
    exact ⟨by rw [hrel, hread, h₁], by rw [hdeq, hread, htake _ (Nat.le_refl _), h₂]⟩
  have htaken : ∀ pos, s.Taken pos → s'.Taken pos := by
    rintro pos ⟨h₁, h₂⟩
    exact ⟨by rw [hread, h₁], by rw [hdeq, htake _ (by omega), h₂]⟩
  have hget : ∀ p : ℕ, s.claimed[p]? = some s.out → s'.claimed[p]? = some s'.out := by
    intro p hp
    rw [hc, hout, List.getElem?_append_left (List.getElem?_eq_some_iff.mp hp).1]
    exact hp
  cases pc with
  | idle => exact hrest h
  | loadIndex => exact hrest h
  | loadSeq pos => exact ⟨by rw [hread, h.1], hrest h.2⟩
  | exchange pos => exact ⟨by rw [hread, h.1], hpub h.2.1, hrest h.2.2⟩
  | swapData pos => exact ⟨htaken pos h.1, by rw [hrel, h.2]⟩
  | clearData pos => exact ⟨htaken pos h.1, by rw [hrel, h.2.1], hget pos h.2.2⟩
  | storeSeq pos => exact ⟨htaken pos h.1, by rw [hrel, h.2.1], hget pos h.2.2⟩
  | fetchSub =>
    rcases h with ⟨h₁, pos, h₂, h₃⟩
    exact ⟨by rw [hrel, hread, h₁], pos, htaken pos h₂, hget pos h₃⟩
  | returned result => exact hrest h

namespace Inv

variable [DecidableEq τ] (h : s.Inv)
include h

/-- A step of one thread, where the others rely on nothing it changes. -/
theorem producers_update {pc : Enqueuing} (hok : s'.EnqueueOk pc)
    (hothers : ∀ t', t' ≠ t → s.EnqueueOk (s.producers t') → s'.EnqueueOk (s.producers t')) (t' : τ) :
    s'.EnqueueOk (Function.update s.producers t pc t') := by
  by_cases ht : t' = t
  · rw [ht, Function.update_self]
    exact hok
  · rw [Function.update_of_ne ht]
    exact hothers t' ht (h.producers t')

/-- Reading one's turn in the slot, a thread may try for the ticket. -/
theorem loadSeq {record : String} {pos : ℕ} (hpc : s.producers t = .loadSeq record pos)
    (hseq : s.seq (slot pos) = pos) : (s.goto t (.exchange record pos)).Inv := by
  have hok := h.producers t
  rw [hpc] at hok
  rw [slot_eq] at hseq
  exact h.goto ⟨hok, (h.turns.turn two_le_size hseq).2.1⟩ nofun

/-- A thread wins the ticket `write_index_`. -/
theorem exchange {record : String} (hpc : s.producers t = .exchange record s.writeIndex) :
    Inv { s.goto t (.writeData record s.writeIndex) with
      writeIndex := s.writeIndex + 1
      claimed := s.claimed ++ [record] } := by
  have hok := h.producers t
  rw [hpc] at hok
  have hlen : s.claimed.length = s.writeIndex := h.claimed
  refine { h with
    read_le := Nat.le_succ_of_le h.read_le
    write_le := hok.2
    claimed := by simp [hlen]
    published_lt := fun p hp => Nat.lt_succ_of_lt (h.published_lt p hp)
    data := ?_, producers := ?_, apart := ?_, consumer := ?_ }
  · intro p hp hheld
    rw [List.getElem?_append_left (by rw [hlen]; exact h.published_lt p hp)]
    exact h.data p hp hheld
  · apply h.producers_update
    · exact ⟨fun hp => Nat.lt_irrefl _ (h.published_lt _ hp),
        by rw [← hlen]; exact List.getElem?_concat_length⟩
    · intro t' _ hok'
      exact hok'.mono (Nat.le_succ _) (Nat.le_refl _) rfl (fun _ hp => hp) (fun _ _ hp => hp)
        (fun _ hp => hp) (fun _ _ hp => hp) (fun _ _ _ => rfl)
  · -- nobody held this ticket before
    apply h.apart.update
    rintro p hp t' - ht'
    cases hp
    exact Nat.lt_irrefl _ (h.ticket_lt ht')
  · exact h.consumer.mono (by rw [hlen]; exact h.read_le) rfl rfl rfl rfl rfl (fun _ hp => hp)

/-- The owner of a ticket writes its record into the slot. -/
theorem writeData {record : String} {pos : ℕ} (hpc : s.producers t = .writeData record pos) :
    Inv { s.goto t (.storeSeq record pos) with data := Function.update s.data (slot pos) record } := by
  have hok := h.producers t
  rw [hpc] at hok
  have hwin := h.window hok.1 hok.2
  have hticket : (s.producers t).ticket = some pos := by rw [hpc]; rfl
  refine { h with data := ?_, producers := ?_, apart := ?_ }
  · -- another record that is still in its slot is in another slot
    intro p hp hheld
    have hpwin : s.released ≤ p := by
      rcases hheld with hle | hswap
      · exact Nat.le_trans h.released_le hle
      · have hcons := h.consumer
        rw [show s.consumer = .swapData p from hswap] at hcons
        exact Nat.le_of_eq hcons.2
    have hne : p ≠ pos := fun heq => hok.1 (heq ▸ hp)
    have hslot := h.slot_ne hpwin (h.published_lt p hp) hwin.1 hwin.2 hne
    show s.claimed[p]? = some (Function.update s.data (slot pos) record (slot p))
    rw [Function.update_of_ne hslot]
    exact h.data p hp hheld
  · apply h.producers_update
    · exact ⟨hok, Function.update_self ..⟩
    · intro t' ht hok'
      refine hok'.mono (Nat.le_refl _) (Nat.le_refl _) (List.append_nil _).symm
        (fun _ hp => hp) (fun _ _ hp => hp) (fun _ hp => hp) (fun _ _ hp => hp) ?_
      intro record' p hpc'
      rw [hpc'] at hok'
      have hwin' := h.window hok'.1.1 hok'.1.2
      have hne : p ≠ pos := by
        rintro rfl
        exact h.ticket_ne hticket ht (by rw [hpc']; rfl)
      exact Function.update_of_ne (h.slot_ne hwin'.1 hwin'.2 hwin.1 hwin.2 hne) ..
  · apply h.apart.update
    rintro p hp t' ht
    cases hp
    exact h.ticket_ne hticket ht

/-- The owner of a ticket publishes its record. -/
theorem storeSeq {record : String} {pos : ℕ} (hpc : s.producers t = .storeSeq record pos) :
    Inv { s.goto t (.fetchAdd pos) with
      seq := Function.update s.seq (slot pos) (pos + 1)
      published := insert pos s.published } := by
  have hok := h.producers t
  rw [hpc] at hok
  rcases hok with ⟨⟨hfree, hclaimed⟩, hdata⟩
  have hwin := h.window hfree hclaimed
  have hticket : (s.producers t).ticket = some pos := by rw [hpc]; rfl
  refine { h with
    turns := ?_
    published_lt := ?_
    read_published := fun p hp => Finset.mem_insert_of_mem (h.read_published p hp)
    counted := fun p hp => Finset.mem_insert_of_mem (h.counted hp)
    data := ?_, producers := ?_, apart := ?_, consumer := ?_ }
  · have hw := h.write_le
    have hfill := h.turns.fill (p := pos) hwin.1 (by omega)
    rw [← slot_eq] at hfill
    exact ⟨fun p hp hp' hf => hfill.toFill p hp hp' (by simpa using hf),
      fun p hp hp' hf => hfill.toEmpty p hp hp' (by simpa using hf)⟩
  · intro p hp
    rcases Finset.mem_insert.mp hp with rfl | hp
    · exact hwin.2
    · exact h.published_lt p hp
  · intro p hp hheld
    rcases Finset.mem_insert.mp hp with rfl | hp
    · exact hclaimed.trans (congrArg some hdata.symm)
    · exact h.data p hp hheld
  · apply h.producers_update
    · exact ⟨Finset.mem_insert_self .., fun hc => hfree (h.counted hc)⟩
    · intro t' ht hok'
      refine hok'.mono (Nat.le_refl _) (Nat.le_refl _) (List.append_nil _).symm
        (fun _ hp => Finset.mem_insert_of_mem hp) ?_ (fun _ hp => hp) (fun _ _ hp => hp)
        (fun _ _ _ => rfl)
      intro p hp hnot hmem
      rcases Finset.mem_insert.mp hmem with rfl | hmem
      · exact h.ticket_ne hticket ht hp
      · exact hnot hmem
  · apply h.apart.update
    rintro p hp t' ht
    cases hp
    exact h.ticket_ne hticket ht
  · exact h.consumer.mono (by rw [h.claimed]; exact h.read_le) rfl rfl rfl rfl
      (List.append_nil _).symm (fun _ hp => Finset.mem_insert_of_mem hp)

/-- The owner of a ticket counts it. -/
theorem fetchAdd {pos : ℕ} (hpc : s.producers t = .fetchAdd pos) (pending : ℕ) :
    Inv { s.goto t (.notify pos s.pending) with
      pending := pending
      counted := insert pos s.counted } := by
  have hok := h.producers t
  rw [hpc] at hok
  have hticket : (s.producers t).ticket = some pos := by rw [hpc]; rfl
  refine { h with
    counted := ?_
    accepted := fun p hp => Finset.mem_insert_of_mem (h.accepted hp)
    producers := ?_
    apart := h.apart.update nofun }
  · intro p hp
    rcases Finset.mem_insert.mp hp with rfl | hp
    · exact hok.1
    · exact h.counted hp
  · apply h.producers_update
    · exact Finset.mem_insert_self ..
    · intro t' ht hok'
      refine hok'.mono (Nat.le_refl _) (Nat.le_refl _) (List.append_nil _).symm (fun _ hp => hp)
        (fun _ _ hp => hp) (fun _ hp => Finset.mem_insert_of_mem hp) ?_ (fun _ _ _ => rfl)
      intro p hp hnot hmem
      rcases Finset.mem_insert.mp hmem with rfl | hmem
      · exact h.ticket_ne hticket ht hp
      · exact hnot hmem

theorem produced (hs : s.Produced t s') : s'.Inv := by
  cases hs with
  | loadIndex => exact h.goto (Nat.le_refl _) nofun
  | turn hpc hseq => exact h.loadSeq hpc hseq
  | full => exact h.goto trivial nofun
  | late => exact h.goto trivial nofun
  | won hpc => exact h.exchange hpc
  | lost => exact h.goto (Nat.le_refl _) nofun
  | writeData hpc => exact h.writeData hpc
  | storeSeq hpc => exact h.storeSeq hpc
  | fetchAdd hpc => exact h.fetchAdd hpc _
  | @notify pos prev hpc =>
    have hok := h.producers t
    rw [hpc] at hok
    have hmove : (s.goto t (.returned true)).Inv := h.goto trivial nofun
    refine { hmove with accepted := ?_ }
    intro p hp
    rcases Finset.mem_insert.mp hp with rfl | hp
    · exact hok
    · exact h.accepted hp

end Inv

/-! ## Steps of the consumer -/

namespace Inv

variable (h : s.Inv)
include h

/-- The ticket the consumer has taken is the oldest one, and it is published. -/
theorem taken {pos : ℕ} (htaken : s.Taken pos) (hrel : s.released = pos) :
    pos ∈ s.published ∧ pos < s.writeIndex ∧ s.released ≤ pos := by
  have hread := htaken.1
  have hmem := h.read_published pos (by omega)
  exact ⟨hmem, h.published_lt pos hmem, Nat.le_of_eq hrel⟩

/-- The consumer changes the data of the slot it has taken. -/
theorem consumer_data {pos : ℕ} (htaken : s.Taken pos) (hrel : s.released = pos) {pc : Dequeuing}
    (hpc : ∀ p, pc ≠ .swapData p) (record out : String)
    (hok : DequeueOk
      { s with consumer := pc, data := Function.update s.data (slot pos) record, out := out } pc) :
    Inv { s with
      consumer := pc
      data := Function.update s.data (slot pos) record
      out := out } := by
  rcases h.taken htaken hrel with ⟨hmem, hlt, hle⟩
  have hread := htaken.1
  refine { h with data := ?_, producers := ?_, consumer := hok }
  · intro p hp hheld
    have hpread : s.readIndex ≤ p := hheld.resolve_right (hpc p)
    have hslot := h.slot_ne (by omega) (h.published_lt p hp) hle hlt (by omega : p ≠ pos)
    show s.claimed[p]? = some (Function.update s.data (slot pos) record (slot p))
    rw [Function.update_of_ne hslot]
    exact h.data p hp (.inl hpread)
  · -- a producer that has written its record has written it elsewhere
    intro t
    refine (h.producers t).mono (Nat.le_refl _) (Nat.le_refl _) (List.append_nil _).symm
      (fun _ hp => hp) (fun _ _ hp => hp) (fun _ hp => hp) (fun _ _ hp => hp) ?_
    intro record' p hpc'
    have hok' := h.producers t
    rw [hpc'] at hok'
    have hwin := h.window hok'.1.1 hok'.1.2
    have hne : p ≠ pos := fun heq => hok'.1.1 (heq ▸ hmem)
    exact Function.update_of_ne (h.slot_ne hwin.1 hwin.2 hle hlt hne) ..

/-- The consumer gives a slot back. -/
theorem release {pos : ℕ} (hpc : s.consumer = .storeSeq pos) :
    Inv { s with
      consumer := .fetchSub
      seq := Function.update s.seq (slot pos) (pos + kLogBufferSize)
      released := s.released + 1 } := by
  have hok := h.consumer
  rw [hpc] at hok
  rcases hok with ⟨htaken, hrel, hout⟩
  have hread := htaken.1
  have hw := h.write_le
  refine { h with
    turns := ?_
    released_le := by show s.released + 1 ≤ s.readIndex; omega
    write_le := by show s.writeIndex ≤ s.released + 1 + kLogBufferSize; omega
    data := fun p hp hheld => h.data p hp (.inl (hheld.resolve_right nofun))
    producers := ?_
    consumer := ⟨by show s.released + 1 = s.readIndex; omega, pos, htaken, hout⟩ }
  · have hnext : s.released + kLogBufferSize ∉ s.published := by
      intro hp
      have := h.published_lt _ hp
      omega
    have hempty := h.turns.empty hnext
    rw [← slot_eq, hrel] at hempty
    rw [hrel]
    exact hempty
  · intro t
    exact (h.producers t).mono (Nat.le_refl _) (Nat.le_succ _) (List.append_nil _).symm
      (fun _ hp => hp) (fun _ _ hp => hp) (fun _ hp => hp) (fun _ _ hp => hp) (fun _ _ _ => rfl)

/-- The consumer moves without touching the ring. -/
theorem consumer_goto {pc : Dequeuing} (hpc : ∀ p, pc ≠ .swapData p) (out : String)
    (hok : DequeueOk { s with consumer := pc, out := out } pc) :
    Inv { s with consumer := pc, out := out } :=
  { h with
    data := fun p hp hheld => h.data p hp (.inl (hheld.resolve_right (hpc p)))
    consumer := hok }

/-- The consumer returns the record. -/
theorem finish (hpc : s.consumer = .fetchSub) (pending : ℕ) :
    Inv { s with
      consumer := .returned true
      pending := pending
      dequeued := s.dequeued ++ [s.out] } := by
  have hok := h.consumer
  rw [hpc] at hok
  rcases hok with ⟨hrel, pos, ⟨hread, hdeq⟩, hout⟩
  refine { h with
    data := fun p hp hheld => h.data p hp (.inl (hheld.resolve_right nofun))
    consumer := ⟨hrel, ?_⟩ }
  show s.dequeued ++ [s.out] = s.claimed.take s.readIndex
  rw [hread, List.take_add_one, hdeq, hout]
  rfl

/-- The consumer finds its turn in the slot. -/
theorem consumer_turn {pos : ℕ} (hpc : s.consumer = .loadSeq pos)
    (hseq : s.seq (slot pos) = pos + 1) : Inv { s with consumer := .exchange pos } := by
  have hok := h.consumer
  rw [hpc] at hok
  rcases hok with ⟨rfl, hrest⟩
  -- the number is that of a published record
  have hpub : s.readIndex ∈ s.published := by
    rw [slot_eq, ← hrest.1] at hseq
    have hmem := h.turns.filled_of_seq (by decide) hseq
    rwa [hrest.1] at hmem
  exact h.consumer_goto (by nofun) s.out ⟨rfl, hpub, hrest⟩

/-- The consumer takes the ticket `read_index_`. -/
theorem consumer_won (hpc : s.consumer = .exchange s.readIndex) :
    Inv { s with consumer := .swapData s.readIndex, readIndex := s.readIndex + 1 } := by
  have hok := h.consumer
  rw [hpc] at hok
  rcases hok with ⟨-, hpub, hrest⟩
  refine { h with
    released_le := Nat.le_succ_of_le h.released_le
    read_le := h.published_lt _ hpub
    read_published := ?_
    data := ?_
    consumer := ⟨⟨rfl, hrest.2⟩, hrest.1⟩ }
  · intro p hp
    rcases Nat.lt_succ_iff_lt_or_eq.mp hp with hp | rfl
    · exact h.read_published p hp
    · exact hpub
  · intro p hp hheld
    rcases hheld with hle | hswap
    · exact h.data p hp (.inl (Nat.le_of_succ_le hle))
    · cases hswap
      exact h.data _ hp (.inl (Nat.le_refl _))

theorem consumed (hs : s.Consumed s') : s'.Inv := by
  have hok := h.consumer
  cases hs with
  | loadIndex hpc =>
    rw [hpc] at hok
    exact h.consumer_goto (by nofun) s.out ⟨rfl, hok⟩
  | turn hpc hseq => exact h.consumer_turn hpc hseq
  | empty hpc =>
    rw [hpc] at hok
    exact h.consumer_goto (by nofun) s.out hok.2
  | late hpc =>
    rw [hpc] at hok
    exact h.consumer_goto (by nofun) s.out hok.2
  | won hpc => exact h.consumer_won hpc
  | lost hpc =>
    rw [hpc] at hok
    exact h.consumer_goto (by nofun) s.out ⟨rfl, hok.2.2⟩
  | @swapData pos hpc =>
    rw [hpc] at hok
    have hmem := (h.taken hok.1 hok.2).1
    exact h.consumer_data hok.1 hok.2 (by nofun) _ _ ⟨hok.1, hok.2, h.data pos hmem (.inr hpc)⟩
  | clearData hpc =>
    rw [hpc] at hok
    exact h.consumer_data hok.1 hok.2.1 (by nofun) _ _ hok
  | storeSeq hpc => exact h.release hpc
  | fetchSub hpc => exact h.finish hpc _

theorem step [DecidableEq τ] (hs : s.step l = some s') : s'.Inv := by
  cases l with
  | enqueue t record =>
    rcases enqueue_eq hs with ⟨-, rfl⟩
    exact h.goto trivial nofun
  | producer t spurious => exact h.produced (Ring.produced hs)
  | dequeue out =>
    rcases dequeue_eq hs with ⟨hout, rfl⟩
    have hok := h.consumer
    refine h.consumer_goto (by nofun) out ?_
    cases hpc : s.consumer <;> rw [hpc] at hok hout <;> first | exact hok | exact hout.elim
  | consumer spurious => exact h.consumed (Ring.consumed hs)

end Inv

theorem inv [DecidableEq τ] {ok : Ring τ → Label τ → Prop} (h : machine.Reachable ok s) : s.Inv :=
  h.invariant (fun _ => inv_init) fun _ _ _ _ hinv _ hs => hinv.step hs

/-! ## A bounded queue -/

theorem Inv.fifo (h : s.Inv) : s.dequeued = s.claimed.take s.dequeued.length := by
  have hok := h.consumer
  have hlen : ∀ n, s.dequeued = s.claimed.take n → s.dequeued = s.claimed.take s.dequeued.length := by
    intro n hn
    rw [hn, List.length_take, ← List.take_eq_take_min]
  cases hpc : s.consumer <;> rw [hpc] at hok
  case loadSeq pos => exact hlen _ hok.2.2
  case exchange pos => exact hlen _ hok.2.2.2
  case swapData pos => exact hlen _ hok.1.2
  case clearData pos => exact hlen _ hok.1.2
  case storeSeq pos => exact hlen _ hok.1.2
  case fetchSub =>
    rcases hok.2 with ⟨pos, htaken, -⟩
    exact hlen _ htaken.2
  all_goals exact hlen _ hok.2

section Queue

variable [DecidableEq τ]

/-- What a log ring owes its users. -/
structure BoundedFifo (s : Ring τ) : Prop where
  /-- `Dequeue` has returned the first records in the order of the tickets. -/
  fifo : s.dequeued = s.claimed.take s.dequeued.length
  /-- Who is about to write into a slot finds no record there that is not dequeued, -/
  vacant : ∀ t record pos, s.producers t = .writeData record pos →
    ∀ p ∈ s.published, s.released ≤ p → slot p ≠ slot pos
  /-- no other producer between its exchange and its store, -/
  producers : ∀ t record pos, s.producers t = .writeData record pos →
    ∀ t' pos', t' ≠ t → (s.producers t').inSlot = some pos' → slot pos' ≠ slot pos
  /-- and not the consumer. -/
  consumer : ∀ t record pos, s.producers t = .writeData record pos →
    ∀ pos', s.consumer.inSlot = some pos' → slot pos' ≠ slot pos
  /-- `Enqueue` fails only when every slot is claimed. -/
  refused : ∀ t spurious s', s.step (.producer t spurious) = some s' →
    s'.producers t = .returned false → s.writeIndex = s.released + kLogBufferSize

/-- The numbers show an older lap only when the ring is full. -/
theorem Inv.full (h : s.Inv) (hs : s.Produced t s') (hfalse : s'.producers t = .returned false) :
    s.writeIndex = s.released + kLogBufferSize := by
  cases hs with
  | @full record pos hpc hseq =>
    have hok := h.producers t
    rw [hpc] at hok
    have hpos : pos ≤ s.writeIndex := hok
    have hw := h.write_le
    rw [slot_eq] at hseq
    have hfull := h.turns.full (by decide) (Nat.le_trans hpos hw) hseq
    omega
  | _ => simp at hfalse

/-- **The log ring is a bounded FIFO queue.** In every interleaving of any number
of producers with one consumer, `Dequeue` returns the claimed records in the order
of their tickets, nobody writes into a slot that is in use, and `Enqueue` fails
only when the ring is full. -/
theorem log_ring_bounded_fifo (h : machine.Reachable (fun _ _ => True) s) : s.BoundedFifo := by
  have hinv := inv h
  refine ⟨hinv.fifo, ?_, ?_, ?_, fun t spurious s' hs => hinv.full (produced hs)⟩
  · intro t record pos hpc p hp hle
    have hok := hinv.producers t
    rw [hpc] at hok
    have hwin := hinv.window hok.1 hok.2
    exact hinv.slot_ne hle (hinv.published_lt p hp) hwin.1 hwin.2 fun heq => hok.1 (heq ▸ hp)
  · intro t record pos hpc t' pos' ht hin
    have hok := hinv.producers t
    have hok' := hinv.producers t'
    rw [hpc] at hok
    have hwin := hinv.window hok.1 hok.2
    have hticket : (s.producers t').ticket = some pos' := by
      cases hpc' : s.producers t' <;> rw [hpc'] at hin <;> first | exact hin | cases hin
    have hne : pos' ≠ pos := by
      rintro rfl
      exact hinv.ticket_ne (by rw [hpc]; rfl) ht hticket
    have hle : s.released ≤ pos' := by
      cases hpc' : s.producers t' <;> rw [hpc'] at hin hok' <;> cases hin
      · exact (hinv.window hok'.1 hok'.2).1
      · exact (hinv.window hok'.1.1 hok'.1.2).1
    exact hinv.slot_ne hle (hinv.ticket_lt hticket) hwin.1 hwin.2 hne
  · intro t record pos hpc pos' hin
    have hok := hinv.producers t
    have hcons := hinv.consumer
    rw [hpc] at hok
    have hwin := hinv.window hok.1 hok.2
    have htaken : s.Taken pos' ∧ s.released = pos' := by
      cases hpc' : s.consumer <;> rw [hpc'] at hin hcons <;> cases hin
      · exact hcons
      · exact ⟨hcons.1, hcons.2.1⟩
      · exact ⟨hcons.1, hcons.2.1⟩
    rcases hinv.taken htaken.1 htaken.2 with ⟨hmem, hlt, hle⟩
    exact hinv.slot_ne hle hlt hwin.1 hwin.2 fun heq => hok.1 (heq ▸ hmem)

end Queue

/-- The theorem at a run in which two threads race for a ticket, the loser takes
the next one, and the consumer has returned the first record. -/
theorem log_ring_two_producers :
    ∃ s : Ring Bool, machine.Reachable (fun _ _ => True) s ∧ s.claimed = ["a", "b"] ∧
      s.dequeued = ["a"] ∧ s.BoundedFifo := by
  rcases machine.exists_of_run (fun _ _ => True) (s := (start : Ring Bool)) rfl
    ([.enqueue true "a", .enqueue false "b", .producer true false, .producer false false,
        .producer true false, .producer false false, .producer true false] ++
      List.replicate 3 (.producer false false) ++ List.replicate 4 (.producer true false) ++
      .dequeue "" :: List.replicate 7 (.consumer false))
    (fun s => s.claimed = ["a", "b"] ∧ s.dequeued = ["a"]) (by decide +kernel)
    with ⟨s, hs, hclaimed, hdequeued⟩
  exact ⟨s, hs, hclaimed, hdequeued, log_ring_bounded_fifo hs⟩

end Ring

end Taotu.Log
