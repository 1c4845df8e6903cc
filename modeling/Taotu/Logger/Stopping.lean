import Taotu.Logger.Ring
import Mathlib.Data.Finset.Card
import Mathlib.Data.Finset.Range
import Mathlib.Data.Fintype.Defs

/-!
# Taotu.Logger.Stopping — the writer thread and `EndLogger` (`logger.cc`)

`WriteDownLogs` takes records out of the ring and writes them, until
`is_stopping_` is set and `pending_` is zero. `EndLogger` sets `is_stopping_`.
The machine runs both next to any number of producers; the writer is the consumer
of the ring.

`pending_` is added to after a record is published and subtracted from when it is
dequeued, so it can count a record down before it is counted up, and stand at zero
while a record that was counted is in the ring. `SettledAtExit` asks that this is
not so when the writer looks at `pending_` to leave: no thread whose record is
dequeued has yet to add. Then no accepted record is lost (`accepted_logs_written`).

The mutex and the condition variable are left out: a wait may end at any time, so
they exclude nothing here. `Taotu.Logger.Waking` has them. Changing the file when it
is full is left out, too.

**Ghosts.** `file` are the records written. `due` are the tickets of the records
that were accepted when `EndLogger` was called.
-/

namespace Taotu.Log

open Lib

/-! ## Model layer -/

/-- What the writer thread does next. -/
inductive Writing where
  /-- The loop condition, first `is_stopping_` and then `pending_`. -/
  | testStopping
  | testPending
  | callDequeue
  | inDequeue
  | write
  | flush
  /-- `pending_` is tested, and again behind `is_stopping_` under the lock. -/
  | testEmpty
  | lockedStopping
  | lockedPending
  | wait
  | left
deriving DecidableEq, Repr

structure Logger (τ : Type) where
  ring : Ring τ
  writer : Writing
  isStopping : Bool
  file : List String
  due : Finset ℕ

/-- The ticket a thread has published and is about to count. -/
def Enqueuing.uncounted : Enqueuing → Option ℕ
  | .fetchAdd pos => some pos
  | _ => none

namespace Logger

variable {τ : Type}

inductive Label (τ : Type) where
  | enqueue (t : τ) (record : String)
  | producer (t : τ) (spurious : Bool)
  | writer (spurious : Bool)
  | endLogger
deriving DecidableEq, Repr

/-- The ring takes a step. -/
def onRing [DecidableEq τ] (s : Logger τ) (l : Ring.Label τ) (writer : Writing) :
    Option (Logger τ) :=
  (s.ring.step l).map fun ring => { s with ring := ring, writer := writer }

/-- One step of `WriteDownLogs`. -/
def writerStep [DecidableEq τ] (s : Logger τ) (spurious : Bool) : Option (Logger τ) :=
  match s.writer with
  | .testStopping => some { s with writer := if s.isStopping then .testPending else .callDequeue }
  | .testPending => some { s with writer := if s.ring.pending ≠ 0 then .callDequeue else .left }
  | .callDequeue => s.onRing (.dequeue "") .inDequeue
  | .inDequeue =>
    match s.ring.consumer with
    | .returned true => some { s with writer := .write }
    | .returned false => some { s with writer := .flush }
    | _ => s.onRing (.consumer spurious) .inDequeue
  | .write => some { s with writer := .callDequeue, file := s.file ++ [s.ring.out] }
  | .flush => some { s with writer := .testEmpty }
  | .testEmpty =>
    some { s with writer := if s.ring.pending = 0 then .lockedStopping else .testStopping }
  | .lockedStopping =>
    some { s with writer := if s.isStopping then .testStopping else .lockedPending }
  | .lockedPending =>
    some { s with writer := if s.ring.pending = 0 then .wait else .testStopping }
  | .wait => some { s with writer := .testStopping }
  | .left => none

def step [DecidableEq τ] (s : Logger τ) : Label τ → Option (Logger τ)
  | .enqueue t record => s.onRing (.enqueue t record) s.writer
  | .producer t spurious => s.onRing (.producer t spurious) s.writer
  | .writer spurious => s.writerStep spurious
  | .endLogger =>
    if s.isStopping then none else some { s with isStopping := true, due := s.ring.accepted }

def start : Logger τ := ⟨Ring.start, .testStopping, false, [], ∅⟩

def machine [DecidableEq τ] : Machine (Logger τ) (Label τ) := ⟨fun s => s = start, step⟩

/-- When the writer looks at `pending_` to leave, no thread whose record has been
dequeued has yet to add to it. -/
def SettledAtExit (s : Logger τ) : Label τ → Prop
  | .writer _ => s.writer = .testPending →
      ∀ t, ∀ pos ∈ (s.ring.producers t).uncounted, s.ring.readIndex ≤ pos
  | _ => True

instance [Fintype τ] (s : Logger τ) (l : Label τ) : Decidable (s.SettledAtExit l) := by
  unfold SettledAtExit
  split <;> infer_instance

end Logger

/-! ## What `pending_` counts -/

namespace Ring

variable {τ : Type} {s s' : Ring τ} {t : τ} {l : Label τ}

/-- `pending_` is the number of tickets counted less the number of records
returned, and a published ticket that is not counted is about to be. -/
structure Counts (s : Ring τ) : Prop where
  pending : (s.pending + s.dequeued.length) % countRange = s.counted.card % countRange
  owner : ∀ p ∈ s.published, p ∉ s.counted → ∃ t, s.producers t = .fetchAdd p

/-- A thread that does not count leaves the counters alone. -/
theorem Counts.owner_update [DecidableEq τ] (h : s.Counts) (hpc : ∀ p, s.producers t ≠ .fetchAdd p)
    (pc : Enqueuing) (p : ℕ) (hp : p ∈ s.published) (hc : p ∉ s.counted) :
    ∃ t', (s.goto t pc).producers t' = .fetchAdd p := by
  rcases h.owner p hp hc with ⟨t', ht'⟩
  have hne : t' ≠ t := by
    rintro rfl
    exact hpc p ht'
  exact ⟨t', (Function.update_of_ne hne ..).trans ht'⟩

theorem Counts.produced [DecidableEq τ] (h : s.Counts) (hinv : s.Inv) (hs : s.Produced t s') :
    s'.Counts := by
  cases hs with
  | loadIndex hpc => exact ⟨h.pending, h.owner_update (by simp [hpc]) _⟩
  | turn hpc => exact ⟨h.pending, h.owner_update (by simp [hpc]) _⟩
  | full hpc => exact ⟨h.pending, h.owner_update (by simp [hpc]) _⟩
  | late hpc => exact ⟨h.pending, h.owner_update (by simp [hpc]) _⟩
  | won hpc => exact ⟨h.pending, h.owner_update (by simp [hpc]) _⟩
  | lost hpc => exact ⟨h.pending, h.owner_update (by simp [hpc]) _⟩
  | writeData hpc => exact ⟨h.pending, h.owner_update (by simp [hpc]) _⟩
  | storeSeq hpc =>
    -- the ticket is published, and its owner is about to count it
    refine ⟨h.pending, ?_⟩
    intro p hp hc
    rcases Finset.mem_insert.mp hp with rfl | hp
    · exact ⟨t, goto_producers s t _⟩
    · exact h.owner_update (by simp [hpc]) _ p hp hc
  | @fetchAdd pos hpc =>
    have hok := hinv.producers t
    rw [hpc] at hok
    refine ⟨?_, ?_⟩
    · show ((s.pending + 1) % countRange + s.dequeued.length) % countRange =
        (insert pos s.counted).card % countRange
      rw [Finset.card_insert_of_notMem hok.2, Nat.mod_add_mod, Nat.add_right_comm, Nat.add_mod,
        h.pending, ← Nat.add_mod]
    · intro p hp hc
      rcases h.owner p hp fun hc' => hc (Finset.mem_insert_of_mem hc') with ⟨t', ht'⟩
      have hne : t' ≠ t := by
        rintro rfl
        rw [hpc] at ht'
        cases ht'
        exact hc (Finset.mem_insert_self ..)
      exact ⟨t', (Function.update_of_ne hne ..).trans ht'⟩
  | notify hpc => exact ⟨h.pending, h.owner_update (by simp [hpc]) _⟩

theorem Counts.consumed (h : s.Counts) (hs : s.Consumed s') : s'.Counts := by
  cases hs with
  | fetchSub hpc =>
    refine ⟨?_, h.owner⟩
    have hpending := h.pending
    simp only [List.length_append, List.length_singleton]
    unfold countRange at *
    omega
  | _ => exact ⟨h.pending, h.owner⟩

theorem Counts.step [DecidableEq τ] (h : s.Counts) (hinv : s.Inv) (hs : s.step l = some s') :
    s'.Counts := by
  cases l with
  | enqueue t record =>
    rcases enqueue_eq hs with ⟨hout, rfl⟩
    refine ⟨h.pending, h.owner_update ?_ _⟩
    intro p hp
    rw [hp] at hout
    exact hout
  | producer t spurious => exact h.produced hinv (Ring.produced hs)
  | dequeue out =>
    rcases dequeue_eq hs with ⟨-, rfl⟩
    exact ⟨h.pending, h.owner⟩
  | consumer spurious => exact h.consumed (Ring.consumed hs)

theorem counts [DecidableEq τ] {ok : Ring τ → Label τ → Prop} (h : machine.Reachable ok s) :
    s.Counts := by
  refine h.invariant ?_ fun _ _ _ hreach hc _ hs => hc.step (inv hreach) hs
  rintro s rfl
  exact ⟨rfl, nofun⟩

/-- Outside of `Dequeue` every record that was taken has been returned. -/
theorem Inv.at_rest (h : s.Inv) (hout : s.consumer.Outside) : s.AtRest := by
  have hok := h.consumer
  cases hpc : s.consumer <;> rw [hpc] at hok hout <;> first | exact hok | exact hout.elim

theorem Inv.dequeued_length (h : s.Inv) (hout : s.consumer.Outside) :
    s.dequeued.length = s.readIndex := by
  have := h.read_le
  rw [(h.at_rest hout).2, List.length_take, h.claimed]
  omega

/-- At most a ring of tickets is counted ahead of the consumer. -/
theorem Inv.counted_card_le (h : s.Inv) (hout : s.consumer.Outside) :
    s.counted.card ≤ s.readIndex + kLogBufferSize := by
  have hwrite : s.counted ⊆ Finset.range s.writeIndex :=
    fun q hq => Finset.mem_range.mpr (h.published_lt q (h.counted hq))
  have hcard := Finset.card_le_card hwrite
  have hle := h.write_le
  rw [Finset.card_range] at hcard
  rw [(h.at_rest hout).1] at hle
  exact Nat.le_trans hcard hle

/-- **At zero nothing accepted is in the ring**, if every ticket that was dequeued
has been counted and the consumer is not in `Dequeue`. -/
theorem accepted_read (hinv : s.Inv) (hc : s.Counts) (hout : s.consumer.Outside)
    (hzero : s.pending = 0)
    (hsettled : ∀ t, ∀ pos ∈ (s.producers t).uncounted, s.readIndex ≤ pos) {p : ℕ}
    (hp : p ∈ s.accepted) : p < s.dequeued.length := by
  have hlen := hinv.dequeued_length hout
  -- the counted tickets are those that were read and at most a ring of others
  have hread : Finset.range s.readIndex ⊆ s.counted := by
    intro q hq
    have hq := Finset.mem_range.mp hq
    by_contra hnot
    rcases hc.owner q (hinv.read_published q hq) hnot with ⟨t, ht⟩
    exact Nat.not_lt_of_le (hsettled t q (by rw [ht]; rfl)) hq
  have hcard : s.counted.card = s.readIndex := by
    have hpending := hc.pending
    have hlo := Finset.card_le_card hread
    have hhi := hinv.counted_card_le hout
    rw [Finset.card_range] at hlo
    rw [hzero, hlen, Nat.zero_add] at hpending
    unfold kLogBufferSize at hhi
    unfold countRange at hpending
    omega
  have heq : Finset.range s.readIndex = s.counted :=
    Finset.eq_of_subset_of_card_le hread (by rw [hcard, Finset.card_range])
  rw [hlen]
  exact Finset.mem_range.mp (heq ▸ hinv.accepted hp)

/-- **At zero a record in the ring is not counted**, or another is not, if the consumer is
not in `Dequeue`. -/
theorem uncounted_of_zero {p : ℕ} (hinv : s.Inv) (hc : s.Counts) (hout : s.consumer.Outside)
    (hzero : s.pending = 0) (hp : p ∈ s.published) (hin : s.readIndex ≤ p) :
    ∃ t pos, s.producers t = .fetchAdd pos := by
  by_contra hnone
  -- the records read and the one in the ring are more than were read, and all counted
  have hcounted : ∀ q ∈ s.published, q ∈ s.counted := by
    intro q hq
    by_contra hnot
    rcases hc.owner q hq hnot with ⟨t, ht⟩
    exact hnone ⟨t, q, ht⟩
  have hsub : insert p (Finset.range s.readIndex) ⊆ s.counted := by
    intro q hq
    rcases Finset.mem_insert.mp hq with rfl | hq
    · exact hcounted q hp
    · exact hcounted q (hinv.read_published q (Finset.mem_range.mp hq))
  have hnot : p ∉ Finset.range s.readIndex := by simpa using hin
  have hlo := Finset.card_le_card hsub
  have hhi := hinv.counted_card_le hout
  have hpending := hc.pending
  rw [Finset.card_insert_of_notMem hnot, Finset.card_range] at hlo
  rw [hzero, hinv.dequeued_length hout, Nat.zero_add] at hpending
  unfold kLogBufferSize at hhi
  unfold countRange at hpending
  omega

/-- What a producer leaves alone. -/
theorem Produced.frame [DecidableEq τ] (hs : s.Produced t s') :
    s'.consumer = s.consumer ∧ s'.out = s.out ∧ s'.dequeued = s.dequeued ∧
      s.accepted ⊆ s'.accepted := by
  cases hs with
  | notify => exact ⟨rfl, rfl, rfl, fun _ hp => Finset.mem_insert_of_mem hp⟩
  | _ => exact ⟨rfl, rfl, rfl, fun _ hp => hp⟩

/-- `Dequeue` returns a record only at its end. -/
theorem Consumed.frame (hs : s.Consumed s') :
    s'.accepted = s.accepted ∧
      ((s'.consumer = .returned true ∧ s'.dequeued = s.dequeued ++ [s'.out]) ∨
        (s'.consumer ≠ .returned true ∧ s'.dequeued = s.dequeued)) := by
  cases hs with
  | fetchSub => exact ⟨rfl, .inl ⟨rfl, rfl⟩⟩
  | _ => exact ⟨rfl, .inr ⟨nofun, rfl⟩⟩

end Ring

/-! ## The writer -/

namespace Logger

section Stopping

variable {τ : Type} {s s' : Logger τ}

/-- What has been returned by `Dequeue` is in the file, but for the record the
writer has in its hands. -/
def Written (s : Logger τ) : Writing → Prop
  | .inDequeue =>
    (s.ring.consumer = .returned true ∧ s.ring.dequeued = s.file ++ [s.ring.out]) ∨
      (s.ring.consumer ≠ .returned true ∧ s.ring.dequeued = s.file)
  | .write => s.ring.consumer = .returned true ∧ s.ring.dequeued = s.file ++ [s.ring.out]
  | _ => s.ring.consumer.Outside ∧ s.ring.dequeued = s.file

structure Inv (s : Logger τ) : Prop where
  written : s.Written s.writer
  stopping : s.writer = .testPending ∨ s.writer = .left → s.isStopping = true
  due : s.due ⊆ s.ring.accepted
  left : s.writer = .left → ∀ p ∈ s.due, p < s.file.length

/-- Producers do not disturb the writer. -/
theorem Written.frame {ring : Ring τ} {writer : Writing} (hw : s.Written writer)
    (hc : ring.consumer = s.ring.consumer) (hout : ring.out = s.ring.out)
    (hd : ring.dequeued = s.ring.dequeued) : Written { s with ring := ring } writer := by
  cases writer <;> simp only [Written, hc, hout, hd] <;> exact hw

theorem Inv.frame {ring : Ring τ} (h : s.Inv) (hc : ring.consumer = s.ring.consumer)
    (hout : ring.out = s.ring.out) (hd : ring.dequeued = s.ring.dequeued)
    (ha : s.ring.accepted ⊆ ring.accepted) : Inv { s with ring := ring } :=
  ⟨h.written.frame hc hout hd, h.stopping, h.due.trans ha, h.left⟩

/-- Away from its exit the writer owes nothing but the file. -/
theorem Inv.of_written (hw : s.Written s.writer) (htest : s.writer ≠ .testPending)
    (hleft : s.writer ≠ .left) (hdue : s.due ⊆ s.ring.accepted) : s.Inv :=
  ⟨hw, fun hpc => absurd hpc (not_or.mpr ⟨htest, hleft⟩), hdue, fun hpc => absurd hpc hleft⟩

variable [DecidableEq τ] {l : Label τ}

theorem onRing_eq {l : Ring.Label τ} {writer : Writing} (h : s.onRing l writer = some s') :
    ∃ ring, s.ring.step l = some ring ∧ s' = { s with ring := ring, writer := writer } := by
  rcases Option.map_eq_some_iff.mp h with ⟨ring, hring, rfl⟩
  exact ⟨ring, hring, rfl⟩

theorem endLogger_eq (h : s.step .endLogger = some s') :
    s.isStopping ≠ true ∧ s' = { s with isStopping := true, due := s.ring.accepted } := by
  simp only [step, Option.ite_none_left_eq_some, Option.some.injEq] at h
  exact ⟨h.1, h.2.symm⟩

/-- The steps of `WriteDownLogs`. -/
inductive Wrote (s : Logger τ) : Logger τ → Prop where
  | goto {writer : Writing} (hwritten : s.Written s.writer → s.Written writer)
      (hstop : writer = .testPending → s.isStopping = true) (hleft : writer ≠ .left) :
      Wrote s { s with writer := writer }
  | leave (hpc : s.writer = .testPending) (hzero : s.ring.pending = 0) :
      Wrote s { s with writer := .left }
  | write (hpc : s.writer = .write) :
      Wrote s { s with writer := .callDequeue, file := s.file ++ [s.ring.out] }
  | callDequeue {ring : Ring τ} (hpc : s.writer = .callDequeue)
      (hring : s.ring.step (.dequeue "") = some ring) :
      Wrote s { s with ring := ring, writer := .inDequeue }
  | inDequeue {ring : Ring τ} {spurious : Bool} (hpc : s.writer = .inDequeue)
      (hne : s.ring.consumer ≠ .returned true)
      (hring : s.ring.step (.consumer spurious) = some ring) :
      Wrote s { s with ring := ring, writer := .inDequeue }

theorem wrote {spurious : Bool} (h : s.writerStep spurious = some s') : s.Wrote s' := by
  rw [writerStep] at h
  split at h
  case h_1 hpc =>
    cases h
    split <;> refine .goto (fun hw => ?_) ?_ nofun
    · rw [hpc] at hw
      exact hw
    · intro _
      assumption
    · rw [hpc] at hw
      exact hw
    · nofun
  case h_2 hpc =>
    cases h
    split
    · refine .goto (fun hw => ?_) nofun nofun
      rw [hpc] at hw
      exact hw
    · exact .leave hpc (by omega)
  case h_3 hpc =>
    rcases onRing_eq h with ⟨ring, hring, rfl⟩
    exact .callDequeue hpc hring
  case h_4 hpc =>
    split at h
    · next hret =>
      cases h
      refine .goto (fun hw => ?_) nofun nofun
      rw [hpc] at hw
      exact hw.resolve_right fun hne => hne.1 hret
    · next hret =>
      cases h
      refine .goto (fun hw => ?_) nofun nofun
      rw [hpc] at hw
      rcases hw with hw | hw
      · rw [hret] at hw
        cases hw.1
      · exact ⟨hret ▸ trivial, hw.2⟩
    · next hret _ =>
      rcases onRing_eq h with ⟨ring, hring, rfl⟩
      exact .inDequeue hpc hret hring
  case h_5 hpc =>
    cases h
    exact .write hpc
  case h_11 => cases h
  -- the tests between two passes of the loop
  all_goals
    next hpc =>
    cases h
    try split
    all_goals
      refine .goto (fun hw => ?_) nofun nofun
      rw [hpc] at hw
      exact hw

/-- The writer keeps the file up to date. -/
theorem Written.wrote (hw : s.Written s.writer) (hs : s.Wrote s') : s'.Written s'.writer := by
  cases hs with
  | goto hwritten => exact hwritten hw
  | leave hpc =>
    rw [hpc] at hw
    exact hw
  | write hpc =>
    rw [hpc] at hw
    exact ⟨hw.1 ▸ trivial, hw.2⟩
  | callDequeue hpc hring =>
    rw [hpc] at hw
    rcases Ring.dequeue_eq hring with ⟨-, rfl⟩
    exact .inr ⟨by simp, hw.2⟩
  | inDequeue hpc hne hring =>
    rw [hpc] at hw
    have hfile := (hw.resolve_left fun hret => hne hret.1).2
    have hdeq := (Ring.consumed hring).frame.2
    rw [hfile] at hdeq
    exact hdeq

theorem Written.step (hw : s.Written s.writer) (hs : s.step l = some s') :
    s'.Written s'.writer := by
  cases l with
  | enqueue t record =>
    rcases onRing_eq hs with ⟨ring, hr, rfl⟩
    rcases Ring.enqueue_eq hr with ⟨-, rfl⟩
    exact hw.frame rfl rfl rfl
  | producer t spurious =>
    rcases onRing_eq hs with ⟨ring, hr, rfl⟩
    rcases (Ring.produced hr).frame with ⟨hc, hout, hd, -⟩
    exact hw.frame hc hout hd
  | writer spurious => exact hw.wrote (Logger.wrote hs)
  | endLogger =>
    rcases endLogger_eq hs with ⟨-, rfl⟩
    exact hw

theorem written {ok : Logger τ → Label τ → Prop} (h : machine.Reachable ok s) :
    s.Written s.writer := by
  induction h with
  | init h0 =>
    cases h0
    exact ⟨trivial, rfl⟩
  | step l _ _ hs ih => exact ih.step hs

/-- The logger drives its ring by steps of the ring. -/
theorem step_ring (h : s.step l = some s') :
    s'.ring = s.ring ∨ ∃ l', s.ring.step l' = some s'.ring := by
  cases l with
  | enqueue t record =>
    rcases onRing_eq h with ⟨ring, hring, rfl⟩
    exact .inr ⟨_, hring⟩
  | producer t spurious =>
    rcases onRing_eq h with ⟨ring, hring, rfl⟩
    exact .inr ⟨_, hring⟩
  | endLogger =>
    rcases endLogger_eq h with ⟨-, rfl⟩
    exact .inl rfl
  | writer spurious =>
    cases wrote h with
    | callDequeue _ hring => exact .inr ⟨_, hring⟩
    | inDequeue _ _ hring => exact .inr ⟨_, hring⟩
    | _ => exact .inl rfl

theorem ring_reachable {ok : Logger τ → Label τ → Prop} (h : machine.Reachable ok s) :
    Ring.machine.Reachable (fun _ _ => True) s.ring := by
  refine h.project ring ?_ fun s l s' _ hs => ?_
  · rintro _ rfl
    rfl
  · exact (step_ring hs).imp id fun ⟨l', hl'⟩ => ⟨l', trivial, hl'⟩

/-! ## Stopping -/

theorem inv_init (h : machine.Init s) : s.Inv := by
  cases h
  exact ⟨⟨trivial, rfl⟩, nofun, Finset.Subset.refl _, nofun⟩

theorem Inv.wrote (h : s.Inv) (hring : s.ring.Inv) (hcounts : s.ring.Counts)
    (hsettled : s.writer = .testPending →
      ∀ t, ∀ pos ∈ (s.ring.producers t).uncounted, s.ring.readIndex ≤ pos)
    (hs : s.Wrote s') : s'.Inv := by
  have hw := h.written.wrote hs
  cases hs with
  | goto _ hstop hleft =>
    refine ⟨hw, ?_, h.due, fun hpc => absurd hpc hleft⟩
    rintro (hpc | hpc)
    · exact hstop hpc
    · exact absurd hpc hleft
  | leave hpc hzero =>
    refine ⟨hw, fun _ => h.stopping (.inl hpc), h.due, ?_⟩
    intro _ p hp
    have hread := Ring.accepted_read hring hcounts hw.1 hzero (hsettled hpc) (h.due hp)
    exact hw.2 ▸ hread
  | write => exact .of_written hw (by simp) (by simp) h.due
  | callDequeue _ hring =>
    refine .of_written hw (by simp) (by simp) ?_
    rcases Ring.dequeue_eq hring with ⟨-, rfl⟩
    exact h.due
  | inDequeue _ _ hring =>
    exact .of_written hw (by simp) (by simp) ((Ring.consumed hring).frame.1 ▸ h.due)

theorem Inv.step (h : s.Inv) (hring : s.ring.Inv) (hcounts : s.ring.Counts)
    (hok : s.SettledAtExit l) (hs : s.step l = some s') : s'.Inv := by
  cases l with
  | enqueue t record =>
    rcases onRing_eq hs with ⟨ring, hr, rfl⟩
    rcases Ring.enqueue_eq hr with ⟨-, rfl⟩
    exact h.frame rfl rfl rfl (Finset.Subset.refl _)
  | producer t spurious =>
    rcases onRing_eq hs with ⟨ring, hr, rfl⟩
    rcases (Ring.produced hr).frame with ⟨hc, hout, hd, ha⟩
    exact h.frame hc hout hd ha
  | writer spurious => exact h.wrote hring hcounts hok (Logger.wrote hs)
  | endLogger =>
    rcases endLogger_eq hs with ⟨hstop, rfl⟩
    refine ⟨h.written, fun _ => rfl, Finset.Subset.refl _, ?_⟩
    intro hpc
    exact absurd (h.stopping (.inr hpc)) hstop

theorem inv (h : machine.Reachable SettledAtExit s) : s.Inv :=
  h.invariant (fun _ => inv_init) fun _ _ _ hreach hinv hok hs =>
    hinv.step (Ring.inv (ring_reachable hreach)) (Ring.counts (ring_reachable hreach)) hok hs

/-- **Stopping loses no accepted record.** In every run whose exits are settled, the
records accepted before `EndLogger` are in the file when the writer has left. -/
theorem accepted_logs_written (h : machine.Reachable SettledAtExit s) (hleft : s.writer = .left) :
    ∀ p ∈ s.due, ∃ record, s.ring.claimed[p]? = some record ∧ s.file[p]? = some record := by
  have hinv := inv h
  have hring := Ring.inv (ring_reachable h)
  have hw := hinv.written
  rw [hleft] at hw
  intro p hp
  have hlt := hinv.left hleft p hp
  have hfifo := hring.fifo
  rw [hw.2] at hfifo
  have hpre : s.file <+: s.ring.claimed := List.prefix_iff_eq_take.mpr hfifo
  exact ⟨s.file[p], List.prefix_iff_getElem?.mp hpre p hlt, List.getElem?_eq_getElem hlt⟩

end Stopping

/-- The theorem at a run in which a record is accepted, the logger is told to stop
and a second record comes too late. -/
theorem accepted_log_written_on_stop :
    ∃ s : Logger Bool, machine.Reachable SettledAtExit s ∧ s.writer = .left ∧ s.due = {0} ∧
      s.file = ["a"] ∧ s.ring.claimed = ["a", "b"] ∧
      ∀ p ∈ s.due, ∃ record, s.ring.claimed[p]? = some record ∧ s.file[p]? = some record := by
  rcases machine.exists_of_run SettledAtExit (s := (start : Logger Bool)) rfl
    (.enqueue true "a" :: List.replicate 7 (.producer true false) ++
      .endLogger :: List.replicate 21 (.writer false) ++
      .enqueue false "b" :: List.replicate 3 (.producer false false))
    (fun s => s.writer = .left ∧ s.due = {0} ∧ s.file = ["a"] ∧ s.ring.claimed = ["a", "b"])
    (by decide +kernel) with ⟨s, hs, hleft, hdue, hfile, hclaimed⟩
  exact ⟨s, hs, hleft, hdue, hfile, hclaimed, accepted_logs_written hs hleft⟩

/-- One thread has published a record and not yet counted it when the writer
dequeues it. The next record is counted and accepted, `pending_` is zero, and the
writer leaves without it. -/
theorem accepted_log_lost_on_stop :
    ∃ s : Logger Bool, machine.Reachable (fun _ _ => True) s ∧ s.writer = .left ∧ s.due = {1} ∧
      s.ring.claimed = ["a", "b"] ∧ s.file = ["a"] := by
  exact machine.exists_of_run (fun _ _ => True) (s := (start : Logger Bool)) rfl
    (.enqueue true "a" :: List.replicate 5 (.producer true false) ++
      List.replicate 17 (.writer false) ++
      .enqueue false "b" :: List.replicate 7 (.producer false false) ++
      .endLogger :: List.replicate 2 (.writer false))
    (fun s => s.writer = .left ∧ s.due = {1} ∧ s.ring.claimed = ["a", "b"] ∧ s.file = ["a"])
    (by decide +kernel)

end Logger

end Taotu.Log
