import Mathlib.Algebra.Ring.Nat
import Mathlib.Order.Nat
import Mathlib.Tactic.Common

/-!
# Taotu.EventLoop.RingSetup — how the poller gets its ring (`poller.cc`)

The constructor of `Poller` asks for a ring of the size the environment names, and
halves the size as long as the kernel is out of memory. It asks for SQPOLL first; if
the kernel does not permit that, it begins again without. A ring it does not get ends
the process.

The loop stops as soon as the size falls below `kMinEntries`. A size that is not
`kMinEntries` times a power of two jumps over `kMinEntries` in its last halving, so
the minimum itself is never tried. What decides is the last size on the way down that
is not below the minimum, `leastHalving`: the ring is obtained iff the kernel has room
for that one (`ring_obtained_iff`).

The constructor is modelled up to its test of `ret`. The probe and the registration
of the provided buffers come after a ring was obtained.
-/

namespace Taotu

namespace RingSetup

/-! ## Model layer -/

def kDefaultEntries : ℕ := 32768

def kMinEntries : ℕ := 1024

def EPERM : ℤ := 1

def ENOMEM : ℤ := 12

def EINVAL : ℤ := 22

/-- `ULLONG_MAX`. -/
def ullongMax : ℕ := 18446744073709551615

/-- `isspace` of the C locale: the blank and the characters from tab to return. -/
def isSpace (c : Char) : Bool := c = ' ' ∨ '\t' ≤ c ∧ c ≤ '\r'

def decimal (digits : List Char) : ℕ := digits.foldl (fun n c => 10 * n + (c.toNat - '0'.toNat)) 0

/-- The optional sign: whether it is a minus, and what follows it. -/
def sign : List Char → Bool × List Char
  | '-' :: text => (true, text)
  | '+' :: text => (false, text)
  | text => (false, text)

/-- `strtoull(text, &end, 10)`, where `none` is `end == text`. A value that does not
fit is the largest one, and a minus negates modulo `2 ^ 64`. -/
def strtoull (text : List Char) : Option ℕ :=
  let signed := sign (text.dropWhile isSpace)
  let digits := signed.2.takeWhile Char.isDigit
  if digits = [] then none
  -- `ERANGE`, whatever the sign
  else if ullongMax < decimal digits then some ullongMax
  else if signed.1 then some ((ullongMax + 1 - decimal digits) % (ullongMax + 1))
  else some (decimal digits)

/-- `GetIoUringEntries`; `env` is the value of `TAOTU_IORING_ENTRIES`, if it is set. -/
def getIoUringEntries (env : Option (List Char)) : ℕ :=
  match env with
  | none => kDefaultEntries
  | some text =>
    if text = [] then kDefaultEntries
    else
      match strtoull text with
      | none => kDefaultEntries
      | some val =>
        if val = 0 then kDefaultEntries
        else if kDefaultEntries < val then kDefaultEntries
        else if val < kMinEntries then kMinEntries
        else val

/-- The loop around `io_uring_queue_init_params`: the last `ret`, and the sizes tried. -/
def queueInit (init : ℕ → ℤ) (ret : ℤ) (entries : ℕ) : ℤ × List ℕ :=
  if kMinEntries ≤ entries then
    if init entries = -ENOMEM ∧ kMinEntries < entries then
      -- `continue`: the guard is tested again with the halved size
      let rest := queueInit init (init entries) (entries / 2)
      (rest.1, entries :: rest.2)
    else (init entries, [entries])
  else (ret, [])
termination_by entries

/-- What the constructor has when it comes to the test of `ret`. `tried` are the sizes
it asked for. -/
structure Setup where
  ret : ℤ
  useSqpoll : Bool
  tried : List ℕ
deriving DecidableEq, Repr

namespace Setup

/-- Otherwise the constructor calls `exit`. -/
def Obtained (s : Setup) : Prop := ¬ s.ret < 0

instance (s : Setup) : Decidable s.Obtained := inferInstanceAs (Decidable (¬ _))

end Setup

/-- SQPOLL is not available. -/
def Denied (ret : ℤ) : Prop := ret = -EPERM ∨ ret = -EINVAL

instance (ret : ℤ) : Decidable (Denied ret) := inferInstanceAs (Decidable (_ ∨ _))

/-- `Poller::Poller`. The first argument of `init` is the SQPOLL flag. -/
def construct (init : Bool → ℕ → ℤ) (env : Option (List Char)) : Setup :=
  let first := queueInit (init true) (-ENOMEM) (getIoUringEntries env)
  if Denied first.1 then
    -- both structures are cleared, and the size is asked for anew
    let second := queueInit (init false) (-ENOMEM) (getIoUringEntries env)
    ⟨second.1, false, first.2 ++ second.2⟩
  else ⟨first.1, true, first.2⟩

/-- A kernel with room for rings of up to `limit` entries. Asked for SQPOLL it answers
the same, or that it does not permit it. -/
structure Kernel (limit : ℕ) where
  init : Bool → ℕ → ℤ
  plain : ∀ entries, init false entries = if entries ≤ limit then 0 else -ENOMEM
  sqpoll : ∀ entries, init true entries = init false entries ∨ Denied (init true entries)

/-- The last size that halving reaches before it falls below `kMinEntries`. -/
def leastHalving (entries : ℕ) : ℕ := entries / 2 ^ Nat.log2 (entries / kMinEntries)

/-! ## Sizes -/

theorem getIoUringEntries_bounds (env : Option (List Char)) :
    kMinEntries ≤ getIoUringEntries env ∧ getIoUringEntries env ≤ kDefaultEntries := by
  have hdefault : kMinEntries ≤ kDefaultEntries ∧ kDefaultEntries ≤ kDefaultEntries := by decide
  unfold getIoUringEntries
  split
  · exact hdefault
  · split
    · exact hdefault
    · split
      · exact hdefault
      · split_ifs with hzero hlarge hsmall
        · exact hdefault
        · exact hdefault
        · exact ⟨le_rfl, by decide⟩
        · exact ⟨Nat.le_of_not_lt hsmall, Nat.le_of_not_lt hlarge⟩

variable {entries limit : ℕ} {ret : ℤ}

theorem leastHalving_le : leastHalving entries ≤ entries := Nat.div_le_self _ _

theorem leastHalving_eq_self (h : entries / 2 < kMinEntries) : leastHalving entries = entries := by
  have hone : entries / kMinEntries < 2 := by
    unfold kMinEntries at h ⊢
    omega
  rw [leastHalving, Nat.log2_def, if_neg (Nat.not_le.mpr hone), pow_zero, Nat.div_one]

theorem leastHalving_half (h : kMinEntries ≤ entries / 2) :
    leastHalving entries = leastHalving (entries / 2) := by
  have htwo : 2 ≤ entries / kMinEntries := by
    unfold kMinEntries at h ⊢
    omega
  have hcomm : entries / kMinEntries / 2 = entries / 2 / kMinEntries := Nat.div_right_comm ..
  rw [leastHalving, Nat.log2_def, if_pos htwo, hcomm, pow_succ, Nat.mul_comm,
    ← Nat.div_div_eq_div_mul, leastHalving]

/-! ## The loop -/

theorem mem_queueInit {init : ℕ → ℤ} {e : ℕ} (h : e ∈ (queueInit init ret entries).2) :
    kMinEntries ≤ e ∧ e ≤ entries := by
  fun_induction queueInit init ret entries with
  | case1 ret entries hmin hnomem rest ih =>
    rcases List.mem_cons.mp h with rfl | hrest
    · exact ⟨hmin, le_rfl⟩
    · exact ⟨(ih hrest).1, le_trans (ih hrest).2 (Nat.div_le_self _ _)⟩
  | case2 ret entries hmin hstop =>
    rcases List.mem_singleton.mp h with rfl
    exact ⟨hmin, le_rfl⟩
  | case3 ret entries hsmall => cases h

namespace Kernel

variable (k : Kernel limit)

/-- Without SQPOLL the loop goes down to the first size there is room for. -/
theorem queueInit_plain (hlimit : kMinEntries ≤ limit) (hmin : kMinEntries ≤ entries) :
    (queueInit (k.init false) ret entries).1 =
      if leastHalving entries ≤ limit then 0 else -ENOMEM := by
  fun_induction queueInit (k.init false) ret entries with
  | case1 ret entries _ hnomem rest ih =>
    have hlarge : ¬ entries ≤ limit := by
      intro hroom
      have hzero := hnomem.1
      rw [k.plain, if_pos hroom] at hzero
      exact absurd hzero (by decide)
    by_cases hhalf : kMinEntries ≤ entries / 2
    · rw [leastHalving_half hhalf]
      exact ih hhalf
    · -- the halved size is not tried any more
      have hself := leastHalving_eq_self (Nat.lt_of_not_le hhalf)
      have hrest : rest = (k.init false entries, []) := by
        unfold rest
        rw [queueInit, if_neg hhalf]
      rw [hself, if_neg hlarge, hrest]
      exact hnomem.1
  | case2 ret entries _ hstop =>
    -- a refused size is above `limit`, so it is above the minimum and would be halved
    have hroom : entries ≤ limit := by
      by_contra hlarge
      refine hstop ⟨?_, lt_of_le_of_lt hlimit (Nat.lt_of_not_le hlarge)⟩
      rw [k.plain, if_neg hlarge]
    rw [if_pos (le_trans leastHalving_le hroom), k.plain, if_pos hroom]
  | case3 ret entries hsmall => exact absurd hmin hsmall

/-- With SQPOLL the loop ends as it does without, unless it meets a denial. -/
theorem queueInit_sqpoll :
    (queueInit (k.init true) ret entries).1 = (queueInit (k.init false) ret entries).1 ∨
      Denied (queueInit (k.init true) ret entries).1 := by
  fun_induction queueInit (k.init true) ret entries with
  | case1 ret entries hmin hnomem rest ih =>
    rcases k.sqpoll entries with hsame | hdenied
    · -- both loops go on with the halved size
      have hplain : queueInit (k.init false) ret entries =
          ((queueInit (k.init false) (k.init true entries) (entries / 2)).1,
            entries :: (queueInit (k.init false) (k.init true entries) (entries / 2)).2) := by
        rw [hsame] at hnomem ⊢
        rw [queueInit, if_pos hmin, if_pos hnomem]
      rw [hplain]
      exact ih
    · rw [hnomem.1] at hdenied
      exact absurd hdenied (by decide)
  | case2 ret entries hmin hstop =>
    rcases k.sqpoll entries with hsame | hdenied
    · rw [hsame] at hstop ⊢
      rw [queueInit, if_pos hmin, if_neg hstop]
      exact .inl rfl
    · exact .inr hdenied
  | case3 ret entries hsmall =>
    rw [queueInit, if_neg hsmall]
    exact .inl rfl

/-- Dropping SQPOLL costs nothing: the constructor ends with what the loop without
SQPOLL returns. -/
theorem construct_ret (env : Option (List Char)) :
    (construct k.init env).ret =
      (queueInit (k.init false) (-ENOMEM) (getIoUringEntries env)).1 := by
  rw [construct]
  split_ifs with hdenied
  · rfl
  · rcases k.queueInit_sqpoll with hsame | h
    · exact hsame
    · exact absurd h hdenied

theorem mem_tried {env : Option (List Char)} {e : ℕ} (h : e ∈ (construct k.init env).tried) :
    kMinEntries ≤ e ∧ e ≤ getIoUringEntries env := by
  rw [construct] at h
  split_ifs at h with hdenied
  · rcases List.mem_append.mp h with hfirst | hsecond
    · exact mem_queueInit hfirst
    · exact mem_queueInit hsecond
  · exact mem_queueInit h

end Kernel

/-! ## Obtaining a ring -/

/-- Whatever the environment says and whether or not SQPOLL is permitted, every size
tried is between the minimum and the default. The ring is obtained iff there is room
for the last size that halving reaches. -/
theorem ring_obtained_iff (k : Kernel limit) (hlimit : kMinEntries ≤ limit)
    (env : Option (List Char)) :
    ((construct k.init env).Obtained ↔ leastHalving (getIoUringEntries env) ≤ limit) ∧
      ∀ e ∈ (construct k.init env).tried, kMinEntries ≤ e ∧ e ≤ kDefaultEntries := by
  have hbounds := getIoUringEntries_bounds env
  refine ⟨?_, ?_⟩
  · rw [Setup.Obtained, k.construct_ret, k.queueInit_plain hlimit hbounds.1]
    split_ifs with hroom
    · exact ⟨fun _ => hroom, fun _ => by decide⟩
    · exact ⟨fun h => absurd (by decide) h, fun h => absurd h hroom⟩
  · intro e he
    have hmem := k.mem_tried he
    exact ⟨hmem.1, le_trans hmem.2 hbounds.2⟩

/-- A kernel that permits SQPOLL or answers it with `-EPERM`. -/
def kernel (limit : ℕ) (permitted : Bool) : Kernel limit where
  init sqpoll entries :=
    if sqpoll ∧ ¬ permitted then -EPERM else if entries ≤ limit then 0 else -ENOMEM
  plain _ := by simp
  sqpoll entries := by
    cases permitted with
    | true => exact .inl (by simp)
    | false => exact .inr (.inl (by simp))

/-- With nothing set, the sizes go from the default down to the minimum, here after a
denial of SQPOLL. -/
theorem ring_obtained_at_minimum :
    kMinEntries ≤ 1024 ∧ leastHalving (getIoUringEntries none) = 1024 ∧
      (construct (kernel 1024 false).init none).Obtained := by
  have hleast : leastHalving (getIoUringEntries none) = 1024 := by decide
  exact ⟨by decide, hleast, ((ring_obtained_iff (kernel 1024 false) (by decide) none).1).mpr
    (by rw [hleast])⟩

/-- `TAOTU_IORING_ENTRIES=1500` on a kernel with room for `kMinEntries`: 1500 is
refused, 750 is below the minimum, and the process exits although a ring of 1024
entries was to be had. -/
theorem minimum_not_tried :
    getIoUringEntries (some ['1', '5', '0', '0']) = 1500 ∧
      construct (kernel kMinEntries true).init (some ['1', '5', '0', '0']) =
        ⟨-ENOMEM, true, [1500]⟩ ∧
      ¬ (construct (kernel kMinEntries true).init (some ['1', '5', '0', '0'])).Obtained ∧
      (kernel kMinEntries true).init true kMinEntries = 0 := by
  have henv : getIoUringEntries (some ['1', '5', '0', '0']) = 1500 := by decide
  have hloop : queueInit ((kernel kMinEntries true).init true) (-ENOMEM) 1500 =
      (-ENOMEM, [1500]) := by
    rw [queueInit, if_pos (by decide), if_pos (by decide), queueInit, if_neg (by decide)]
    rfl
  have hsetup : construct (kernel kMinEntries true).init (some ['1', '5', '0', '0']) =
      ⟨-ENOMEM, true, [1500]⟩ := by
    rw [construct, henv, hloop]
    rfl
  refine ⟨henv, hsetup, ?_, rfl⟩
  rw [hsetup]
  decide

end RingSetup

end Taotu
