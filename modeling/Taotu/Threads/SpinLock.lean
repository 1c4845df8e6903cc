import Taotu.Lib.Guarded

/-!
# Taotu.Threads.SpinLock — the spin lock (`spin_lock.h`)

`MutexLock` has one atomic flag, which is true while the lock is free. `Lock()` tries to
exchange true for false until it succeeds, and `Unlock()` stores true.

`compare_exchange_weak` may fail although it finds what it expects, and it overwrites what
it expected by what it has found. The body of the loop sets that back to true; without it
the next attempt would exchange false for false and succeed.
-/

namespace Taotu

open Lib

structure MutexLock where
  value : Bool
deriving DecidableEq, Repr

namespace MutexLock

def construct : MutexLock := ⟨true⟩

/-- `compare_exchange_weak`: whether it succeeded, what `expected` is afterwards, and the
flag. -/
def compareExchangeWeak (m : MutexLock) (expected desired spurious : Bool) :
    Bool × Bool × MutexLock :=
  if m.value = expected ∧ spurious = false then (true, expected, ⟨desired⟩)
  else (false, m.value, m)

/-- An iteration of the loop in `Lock()`: the lock if it is taken. -/
def attempt (m : MutexLock) (spurious : Bool) : Option MutexLock :=
  -- `exp` is true at first, and the body of the loop sets it back
  let r := m.compareExchangeWeak true false spurious
  if r.1 then some r.2.2 else none

def unlock (_ : MutexLock) : MutexLock := ⟨true⟩

/-- The lock is taken only when it is free. -/
theorem attempt_eq_some {m m' : MutexLock} {spurious : Bool} (h : m.attempt spurious = some m') :
    m.value = true ∧ m'.value = false := by
  unfold attempt compareExchangeWeak at h
  by_cases hfree : m.value = true ∧ spurious = false
  · rw [if_pos hfree] at h
    cases h
    exact ⟨hfree.1, rfl⟩
  · rw [if_neg hfree] at h
    cases h

def mutex : Mutex MutexLock where
  Free m := m.value = true
  attempt := attempt
  release := unlock
  free_of_attempt h := by
    obtain ⟨hfree, htaken⟩ := attempt_eq_some h
    exact ⟨hfree, by simp [htaken]⟩

end MutexLock

end Taotu
