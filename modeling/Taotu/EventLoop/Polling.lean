import Taotu.Lib.Machine
import Taotu.Lib.Table
import Taotu.EventLoop.Poller

/-!
# Taotu.EventLoop.Polling — polls and their eventers (`poller.cc`)

A registered eventer that is interested in events has a one-shot poll in the
kernel. Its state remembers whether there is one (`armed`) and under which key.
When the poll completes, or the eventer changes its mind, the poller arms or
cancels.

A cancelled poll stays in `ops_` until its CQE, and `HandleCqe` does not ask
whether the poll that completes is the one the state is about. So the late CQE of
a cancelled poll, when the eventer has been armed again meanwhile, makes it
forget the new poll and arm a third one. `Calm` excludes that, and what else would
give an eventer a second poll: registering one whose poll is still in the kernel,
and a key that comes round while it is in use. In calm runs an eventer has at most
one poll, and its state says so (`at_most_one_live_poll`).

In terms of `Lib.Holding` the polls are the keys and the eventers are the holders.

**Ghosts.** `removed` marks the polls that `CancelPoll` has removed.
-/

namespace Taotu

open Lib

/-- An operation in `ops_`. -/
inductive PollOp where
  | poll (eventer : ℕ) (removed : Bool)
  | other
deriving DecidableEq, Repr

/-- `CancelPoll` has asked the kernel to remove it. -/
def PollOp.remove : PollOp → PollOp
  | .poll e _ => .poll e true
  | .other => .other

structure EventerState where
  mask : UInt32
  armed : Bool
  pollKey : ℕ
deriving DecidableEq, Repr

/-- The key of an armed eventer. -/
def EventerState.held (st : EventerState) : Option ℕ := if st.armed then some st.pollKey else none

/-- The part of the poller that is about polls; `active` are the eventers that are
handed to the loop, with their events. -/
structure Polls where
  ops : ℕ → Option PollOp
  states : ℕ → Option EventerState
  nextKey : ℕ
  active : List (ℕ × UInt32)

namespace Polls

/-! ## Model layer -/

/-- `NormalizeKey(0)`: the key and the counter afterwards. -/
def normalizeKey (next : ℕ) : ℕ × ℕ :=
  let after := (next + 1) % keyRange
  if next = 0 then (after, (after + 1) % keyRange) else (next, after)

/-- The key the next operation gets. -/
def drawn (s : Polls) : ℕ := (normalizeKey s.nextKey).1

/-- A key is drawn. -/
def draw (s : Polls) : Polls := { s with nextKey := (normalizeKey s.nextKey).2 }

/-- A poll is handed to the kernel. -/
def arm (e : ℕ) (st : EventerState) (key : ℕ) (s : Polls) : Polls :=
  { s with
    ops := Function.update s.ops key (some (.poll e false))
    states := Function.update s.states e (some { st with armed := true, pollKey := key }) }

def submitPoll (sqe : Bool) (e : ℕ) (s : Polls) : Polls :=
  match s.states e with
  | none => s
  | some st =>
    if st.mask = 0 ∨ st.armed = true then s
    else if sqe then s.draw.arm e st s.drawn
    else s.draw

def cancelPoll (sqe : Bool) (e : ℕ) (s : Polls) : Polls :=
  match s.states e with
  | none => s
  | some st =>
    if st.armed = true ∧ sqe = true then
      { s with
        ops := Function.update s.ops st.pollKey ((s.ops st.pollKey).map PollOp.remove)
        states := Function.update s.states e (some { st with armed := false, pollKey := 0 }) }
    else s

/-- `mask` is what `Events()` answers. -/
def addEventer (e : ℕ) (mask : UInt32) (sqe : Bool) (s : Polls) : Polls :=
  submitPoll sqe e { s with states := Function.update s.states e (some ⟨mask, false, 0⟩) }

def modifyEventer (e : ℕ) (mask : UInt32) (sqe : Bool) (s : Polls) : Polls :=
  match s.states e with
  | none => s.addEventer e mask sqe
  | some st =>
    let s := { s with states := Function.update s.states e (some { st with mask := mask }) }
    if mask = 0 then s.cancelPoll sqe e else s.submitPoll sqe e

def removeEventer (e : ℕ) (sqe : Bool) (s : Polls) : Polls :=
  let s := s.cancelPoll sqe e
  { s with states := Function.update s.states e none }

/-- `SubmitRead`, `SubmitWrite` and `SubmitAccept`. -/
def submitOther (sqe : Bool) (s : Polls) : Polls :=
  if sqe then { s.draw with ops := Function.update s.ops s.drawn (some .other) } else s.draw

/-- `HandleCqe`. An operation that is no poll is looked up and, if it is a multishot
one that goes on (`more`), put back. -/
def handleCqe (key : ℕ) (res : ℤ) (more sqe : Bool) (s : Polls) : Polls :=
  if key = 0 then s
  else
    match s.ops key with
    | none => s
    | some .other => if more then s else { s with ops := Function.update s.ops key none }
    | some (.poll e _) =>
      let s := { s with ops := Function.update s.ops key none }
      match s.states e with
      | none => s
      | some st =>
        submitPoll sqe e
          { s with
            states := Function.update s.states e (some { st with armed := false })
            active := if 0 ≤ res then s.active ++ [(e, UInt32.ofInt res)] else s.active }

inductive Label where
  | addEventer (e : ℕ) (mask : UInt32) (sqe : Bool)
  | modifyEventer (e : ℕ) (mask : UInt32) (sqe : Bool)
  | removeEventer (e : ℕ) (sqe : Bool)
  | submitOther (sqe : Bool)
  | cqe (key : ℕ) (res : ℤ) (more sqe : Bool)
deriving DecidableEq, Repr

def step (s : Polls) : Label → Option Polls
  | .addEventer e mask sqe => some (s.addEventer e mask sqe)
  | .modifyEventer e mask sqe => some (s.modifyEventer e mask sqe)
  | .removeEventer e sqe => some (s.removeEventer e sqe)
  | .submitOther sqe => some (s.submitOther sqe)
  | .cqe key res more sqe => some (s.handleCqe key res more sqe)

def new : Polls := ⟨fun _ => none, fun _ => none, 1, []⟩

def machine : Machine Polls Label := ⟨fun s => s = new, step⟩

variable {s s' : Polls} {e key : ℕ} {sqe : Bool}

/-! ## Calm runs -/

/-- A poll of `e` that has not been removed. -/
def Live (s : Polls) (e key : ℕ) : Prop := s.ops key = some (.poll e false)

/-- The key that is drawn next is not in use. -/
def Fresh (s : Polls) : Prop := s.ops s.drawn = none

/-- No step gives an eventer a second poll: an eventer is registered when none is in
the kernel, and a removed poll completes when its eventer has no interest. -/
def Calm (s : Polls) : Label → Prop
  | .addEventer e _ _ => s.Fresh ∧ ∀ key, ¬ s.Live e key
  | .modifyEventer e _ _ => s.Fresh ∧ (s.states e = none → ∀ key, ¬ s.Live e key)
  | .removeEventer _ _ => True
  | .submitOther _ => s.Fresh
  | .cqe key _ _ _ => s.Fresh ∧ ∀ e st, s.ops key = some (.poll e true) → s.states e = some st →
      st.armed = false ∧ st.mask = 0

/-! ## Keys and holders -/

/-- The registered eventer whose live poll has the key. -/
def named (s : Polls) (key : ℕ) : Option ℕ :=
  match s.ops key with
  | some (.poll e false) => if (s.states e).isSome then some e else none
  | _ => none

/-- The key an eventer holds. -/
def held (s : Polls) (e : ℕ) : Option ℕ := (s.states e).bind EventerState.held

theorem named_eq_some : s.named key = some e ↔ s.Live e key ∧ (s.states e).isSome = true := by
  unfold named Live
  split
  · next e' hop =>
    rw [hop]
    constructor
    · intro h
      split at h
      · cases h
        exact ⟨rfl, ‹_›⟩
      · cases h
    · rintro ⟨hlive, hreg⟩
      cases hlive
      exact if_pos hreg
  · next hne =>
    constructor
    · nofun
    · rintro ⟨hlive, -⟩
      exact absurd hlive (hne e)

/-- A key names nobody if its operation is not a live poll. -/
theorem named_eq_none (h : ∀ e, ¬ s.Live e key) : s.named key = none :=
  Option.eq_none_iff_forall_ne_some.mpr fun e he => h e (named_eq_some.mp he).1

/-- The names depend on which eventers are registered and on nothing else of their states. -/
theorem named_states (hops : s'.ops = s.ops)
    (hreg : ∀ e, (s'.states e).isSome = (s.states e).isSome) : s'.named = s.named := by
  funext key
  simp only [named, hops, hreg]

/-- An operation that is not a live poll takes the place of another. -/
theorem named_ops {o : Option PollOp} (hops : s'.ops = Function.update s.ops key o)
    (ho : ∀ e, o ≠ some (.poll e false))
    (hreg : ∀ e, (s'.states e).isSome = (s.states e).isSome) :
    s'.named = strike s.named (some key) := by
  funext key'
  rw [strike]
  by_cases hk : key' = key
  · rw [hk, Function.update_self]
    apply named_eq_none
    intro e hlive
    rw [Live, hops, Function.update_self] at hlive
    exact ho e hlive
  · rw [Function.update_of_ne hk]
    simp only [named, hops, Function.update_of_ne hk, hreg]

theorem held_states (o : Option EventerState) (hstates : s'.states = Function.update s.states e o) :
    s'.held = Function.update s.held e (o.bind EventerState.held) := by
  funext e'
  rw [held, hstates]
  by_cases he : e' = e
  · rw [he, Function.update_self, Function.update_self]
  · rw [Function.update_of_ne he, Function.update_of_ne he]
    rfl

/-- A registered eventer stays registered. -/
theorem isSome_update {st st' : EventerState} (hst : s.states e = some st)
    (hstates : s'.states = Function.update s.states e (some st')) (e' : ℕ) :
    (s'.states e').isSome = (s.states e').isSome := by
  rw [hstates]
  by_cases he : e' = e
  · rw [he, Function.update_self, hst]
    rfl
  · rw [Function.update_of_ne he]

theorem named_arm {st : EventerState} (hst : s.states e = some st) :
    (s.arm e st key).named = Function.update s.named key (some e) := by
  have hreg : ∀ e', ((s.arm e st key).states e').isSome = (s.states e').isSome :=
    isSome_update hst rfl
  funext key'
  by_cases hk : key' = key
  · rw [hk, Function.update_self]
    refine named_eq_some.mpr ⟨Function.update_self .., ?_⟩
    rw [hreg, hst]
    rfl
  · rw [Function.update_of_ne hk]
    simp only [named, hreg]
    simp only [arm, Function.update_of_ne hk]

/-- In a calm run the late CQE of a removed poll takes it out of `ops_`, and that is all. -/
theorem handleCqe_removed (hop : s.ops key = some (.poll e true))
    (hlate : ∀ st, s.ops key = some (.poll e true) → s.states e = some st →
      st.armed = false ∧ st.mask = 0) (res : ℤ) (more sqe : Bool) :
    s.handleCqe key res more sqe = s ∨
      ((s.handleCqe key res more sqe).ops = Function.update s.ops key none ∧
        (s.handleCqe key res more sqe).states = s.states) := by
  by_cases hz : key = 0
  · exact .inl (if_pos hz)
  · right
    rw [handleCqe, if_neg hz, hop]
    dsimp only
    split
    · exact ⟨rfl, rfl⟩
    · next st hst =>
      rcases hlate st hop hst with ⟨harmed, hmask⟩
      have hsame : some { st with armed := false } = s.states e := by
        rw [hst, ← harmed]
      have hidle : ∀ s₁ : Polls, s₁.states e = some st → s₁.submitPoll sqe e = s₁ := by
        intro s₁ h₁
        rw [submitPoll, h₁]
        exact if_pos (.inl hmask)
      rw [hsame, Function.update_eq_self, hidle]
      · exact ⟨rfl, rfl⟩
      · exact hst

/-- The polls in the kernel and the keys the eventers hold are the same. -/
structure Agrees (s : Polls) : Prop where
  sound : Sound s.named s.held
  complete : Complete s.named s.held

theorem agrees_new : new.Agrees := ⟨nofun, nofun⟩

namespace Agrees

variable (h : s.Agrees)
include h

/-- Neither side changes. -/
theorem frame (hnamed : s'.named = s.named) (hheld : s'.held = s.held) : s'.Agrees := by
  constructor
  · rw [hnamed, hheld]
    exact h.sound
  · rw [hnamed, hheld]
    exact h.complete

/-- An eventer gives up the key it holds, if it holds one. -/
theorem unlink (hnamed : s'.named = strike s.named (s.held e))
    (hheld : s'.held = Function.update s.held e none) : s'.Agrees := by
  constructor
  · rw [hnamed, hheld]
    exact h.sound.unlink e
  · rw [hnamed, hheld]
    exact h.complete.unlink e

theorem draw : s.draw.Agrees := h.frame rfl rfl

/-- A poll is armed for an eventer that has none. -/
theorem arm {st : EventerState} (hst : s.states e = some st) (harmed : st.armed ≠ true)
    (hkey : s.ops key = none) : (s.arm e st key).Agrees := by
  have hheld : s.held e = none := by
    rw [held, hst, Option.bind_some, EventerState.held, if_neg harmed]
  have hnamed : s.named key = none := by
    rw [named, hkey]
  have hheld' : (s.arm e st key).held = Function.update s.held e (some key) :=
    held_states (some { st with armed := true, pollKey := key }) rfl
  constructor
  · rw [named_arm hst, hheld']
    exact h.sound.link hheld key
  · rw [named_arm hst, hheld']
    exact h.complete.link hnamed e

theorem submitPoll (hfresh : s.Fresh) : (s.submitPoll sqe e).Agrees := by
  unfold Polls.submitPoll
  split
  · exact h
  · next st hst =>
    split
    · exact h
    · next hidle =>
      split
      · exact h.draw.arm hst (fun harmed => hidle (.inr harmed)) hfresh
      · exact h.draw

/-- A poll is cancelled or completes, and its eventer is disarmed. -/
theorem disarm {st st' : EventerState} {o : Option PollOp} (hst : s.states e = some st)
    (hkey : s.held e = some key) (hops : s'.ops = Function.update s.ops key o)
    (ho : ∀ e, o ≠ some (.poll e false))
    (hstates : s'.states = Function.update s.states e (some st')) (harmed : st'.armed = false) :
    s'.Agrees := by
  apply h.unlink
  · rw [hkey]
    exact named_ops hops ho (isSome_update hst hstates)
  · rw [held_states _ hstates, Option.bind_some, EventerState.held, harmed]
    rfl

theorem cancelPoll : (s.cancelPoll sqe e).Agrees := by
  unfold Polls.cancelPoll
  split
  · exact h
  · next st hst =>
    split
    · next harmed =>
      have hkey : s.held e = some st.pollKey := by
        rw [held, hst, Option.bind_some, EventerState.held, if_pos harmed.1]
      refine h.disarm hst hkey rfl ?_ rfl rfl
      intro e' he'
      rcases Option.map_eq_some_iff.mp he' with ⟨op, -, hop⟩
      cases op <;> cases hop
    · exact h

/-- An eventer without a poll in the kernel is registered, or registered again. -/
theorem addEventer {mask : UInt32} (hfresh : s.Fresh) (hnone : ∀ key, ¬ s.Live e key) :
    (s.addEventer e mask sqe).Agrees := by
  have hadd : Agrees { s with states := Function.update s.states e (some ⟨mask, false, 0⟩) } := by
    apply h.frame
    · funext key
      apply Option.ext
      intro e'
      rw [named_eq_some, named_eq_some]
      by_cases he : e' = e
      · subst he
        exact ⟨fun hl => absurd hl.1 (hnone key), fun hl => absurd hl.1 (hnone key)⟩
      · simp only [Live, Function.update_of_ne he]
    · -- an armed eventer would have a poll
      have hheld : s.held e = none := by
        cases hkey : s.held e with
        | none => rfl
        | some key => exact absurd (named_eq_some.mp (h.complete key e hkey)).1 (hnone key)
      rw [held_states (some ⟨mask, false, 0⟩) rfl]
      exact Function.update_eq_self_iff.mpr hheld.symm
  exact hadd.submitPoll hfresh

theorem modifyEventer {mask : UInt32} (hfresh : s.Fresh)
    (hnone : s.states e = none → ∀ key, ¬ s.Live e key) : (s.modifyEventer e mask sqe).Agrees := by
  unfold Polls.modifyEventer
  split
  · next hst => exact h.addEventer hfresh (hnone hst)
  · next st hst =>
    have hmask : Agrees
        { s with states := Function.update s.states e (some { st with mask := mask }) } := by
      apply h.frame
      · exact named_states rfl (isSome_update hst rfl)
      · have hheld : s.held e = EventerState.held { st with mask := mask } := by
          rw [held, hst]
          rfl
        rw [held_states (some { st with mask := mask }) rfl]
        exact Function.update_eq_self_iff.mpr hheld.symm
    dsimp only
    split
    · exact hmask.cancelPoll
    · exact hmask.submitPoll hfresh

theorem removeEventer : (s.removeEventer e sqe).Agrees := by
  have hcancel : (s.cancelPoll sqe e).Agrees := h.cancelPoll
  refine hcancel.unlink ?_ (held_states none rfl)
  funext key
  apply Option.ext
  intro e'
  constructor
  · intro hnamed
    rcases named_eq_some.mp hnamed with ⟨hlive, hreg⟩
    have hne : e' ≠ e := by
      rintro rfl
      simp [Polls.removeEventer] at hreg
    have hreg' : ((s.cancelPoll sqe e).states e').isSome = true := by
      simpa [Polls.removeEventer, Function.update_of_ne hne] using hreg
    have hnamed' : (s.cancelPoll sqe e).named key = some e' := named_eq_some.mpr ⟨hlive, hreg'⟩
    -- the key is not the one that `e` holds
    rw [strike_of_ne, hnamed']
    intro hheld
    rw [hcancel.complete key e hheld] at hnamed'
    exact hne (Option.some.inj hnamed').symm
  · intro hstrike
    rcases of_strike hstrike with ⟨hnamed, hkey⟩
    rcases named_eq_some.mp hnamed with ⟨hlive, hreg⟩
    have hne : e' ≠ e := by
      rintro rfl
      exact hkey (hcancel.sound key e' hnamed)
    refine named_eq_some.mpr ⟨hlive, ?_⟩
    simpa [Polls.removeEventer, Function.update_of_ne hne] using hreg

/-- An operation that names nobody gives its place to one that is not a live poll. -/
theorem replace {o : Option PollOp} (hnamed : s.named key = none)
    (hops : s'.ops = Function.update s.ops key o) (ho : ∀ e, o ≠ some (.poll e false))
    (hstates : s'.states = s.states) : s'.Agrees := by
  apply h.frame
  · rw [named_ops hops ho fun e => by rw [hstates]]
    exact strike_of_none hnamed
  · funext e
    rw [held, held, hstates]

theorem submitOther (hfresh : s.Fresh) : (s.submitOther sqe).Agrees := by
  unfold Polls.submitOther
  split
  · have hnamed : s.named s.drawn = none := by
      rw [named, hfresh]
    exact h.replace hnamed rfl nofun rfl
  · exact h.draw

theorem handleCqe {res : ℤ} {more : Bool} (hfresh : s.Fresh)
    (hlate : ∀ e st, s.ops key = some (.poll e true) → s.states e = some st →
      st.armed = false ∧ st.mask = 0) : (s.handleCqe key res more sqe).Agrees := by
  by_cases hremoved : ∃ e, s.ops key = some (.poll e true)
  · rcases hremoved with ⟨e, hop⟩
    have hnamed : s.named key = none := by
      rw [named, hop]
    rcases handleCqe_removed hop (hlate e) res more sqe with hsame | ⟨hops, hstates⟩
    · rw [hsame]
      exact h
    · exact h.replace hnamed hops nofun hstates
  · unfold Polls.handleCqe
    split
    · exact h
    split
    · exact h
    · next hop =>
      split
      · exact h
      · have hnamed : s.named key = none := by
          rw [named, hop]
        exact h.replace hnamed rfl nofun rfl
    · next e removed hop =>
      cases removed with
      | true => exact absurd ⟨e, hop⟩ hremoved
      | false =>
        dsimp only
        split
        · next hst =>
          have hnamed : s.named key = none := by
            rw [named, hop]
            exact if_neg (by rw [hst]; nofun)
          exact h.replace hnamed rfl nofun rfl
        · next st hst =>
          -- the poll is the one its eventer holds
          have hnamed : s.named key = some e := named_eq_some.mpr ⟨hop, by rw [hst]; rfl⟩
          refine submitPoll (h.disarm hst (h.sound key e hnamed) rfl nofun rfl rfl) ?_
          show Function.update s.ops key none s.drawn = none
          rw [Function.update_apply, hfresh, ite_self]

theorem step {l : Label} (hok : s.Calm l) (hs : s.step l = some s') : s'.Agrees := by
  cases l with
  | addEventer e mask sqe =>
    cases hs
    exact h.addEventer hok.1 hok.2
  | modifyEventer e mask sqe =>
    cases hs
    exact h.modifyEventer hok.1 hok.2
  | removeEventer e sqe =>
    cases hs
    exact h.removeEventer
  | submitOther sqe =>
    cases hs
    exact h.submitOther hok
  | cqe key res more sqe =>
    cases hs
    exact h.handleCqe hok.1 hok.2

/-- A live poll is the one its eventer knows. -/
theorem known {st : EventerState} (hst : s.states e = some st) (hlive : s.Live e key) :
    st.armed = true ∧ key = st.pollKey := by
  have hheld := h.sound key e (named_eq_some.mpr ⟨hlive, by rw [hst]; rfl⟩)
  rw [held, hst, Option.bind_some, EventerState.held] at hheld
  split at hheld
  · next harmed => exact ⟨harmed, (Option.some.inj hheld).symm⟩
  · cases hheld

theorem live {st : EventerState} (hst : s.states e = some st) (harmed : st.armed = true) :
    s.Live e st.pollKey := by
  have hheld : s.held e = some st.pollKey := by
    rw [held, hst, Option.bind_some, EventerState.held, if_pos harmed]
  exact (named_eq_some.mp (h.complete _ e hheld)).1

theorem armed_iff {st : EventerState} (hst : s.states e = some st) :
    st.armed = true ↔ ∃ key, s.Live e key :=
  ⟨fun harmed => ⟨st.pollKey, h.live hst harmed⟩, fun ⟨_, hlive⟩ => (h.known hst hlive).1⟩

end Agrees

theorem agrees (h : machine.Reachable Calm s) : s.Agrees :=
  h.invariant (fun _ hinit => hinit ▸ agrees_new) fun _ _ _ _ ha hok hs => ha.step hok hs

/-! ## One poll -/

structure OnePoll (s : Polls) : Prop where
  /-- A registered eventer is armed if it has a live poll, -/
  armed : ∀ e st, s.states e = some st → (st.armed = true ↔ ∃ key, s.Live e key)
  /-- which is the one it knows. -/
  key : ∀ e st key, s.states e = some st → s.Live e key → key = st.pollKey
  /-- The CQE of a removed poll changes neither states nor live polls. -/
  late : ∀ key e res more sqe s', s.ops key = some (.poll e true) →
    s.Calm (.cqe key res more sqe) → s.step (.cqe key res more sqe) = some s' →
      s'.states = s.states ∧ ∀ e' key', s'.Live e' key' ↔ s.Live e' key'

/-- **At most one live poll per eventer.** In every calm run a registered eventer has
at most one poll in the kernel that was not removed, it is armed if and only if it
has one, and `poll_key` is its key. -/
theorem at_most_one_live_poll (h : machine.Reachable Calm s) : s.OnePoll := by
  have ha := agrees h
  refine ⟨fun e st => ha.armed_iff, fun e st key hst hlive => (ha.known hst hlive).2, ?_⟩
  intro key e res more sqe s' hop hcalm hs
  cases hs
  rcases handleCqe_removed hop (hcalm.2 e) res more sqe with hsame | ⟨hops, hstates⟩
  · rw [hsame]
    exact ⟨rfl, fun _ _ => Iff.rfl⟩
  · refine ⟨hstates, ?_⟩
    intro e' key'
    rw [Live, hops, erase_eq_some, Live]
    constructor
    · exact And.right
    · intro hlive
      refine ⟨?_, hlive⟩
      rintro rfl
      rw [hop] at hlive
      cases hlive

/-- The theorem at a run in which an eventer is interested, gets an event, loses its
interest, has its poll cancelled and is interested again. -/
theorem one_live_poll_after_cancel :
    ∃ s : Polls, machine.Reachable Calm s ∧ s.active = [(7, 1)] ∧ s.states 7 = some ⟨3, true, 3⟩ ∧
      s.OnePoll := by
  have hadded : machine.Reachable Calm (new.addEventer 7 0 true) :=
    .step (.addEventer 7 0 true) (.init rfl) ⟨rfl, nofun⟩ rfl
  have henabled := hadded.step (Label.modifyEventer 7 3 true) ⟨rfl, nofun⟩ rfl
  have hfired := henabled.step (Label.cqe 1 1 false true) ⟨rfl, nofun⟩ rfl
  have hdisabled := hfired.step (Label.modifyEventer 7 0 true) ⟨rfl, nofun⟩ rfl
  -- the poll that was armed after the event has been removed
  have hlate := hdisabled.step (Label.cqe 2 (-125) false true) ⟨rfl, by
    intro e st hop hst
    cases hop
    cases hst
    exact ⟨rfl, rfl⟩⟩ rfl
  have hs := hlate.step (Label.modifyEventer 7 3 true) ⟨rfl, nofun⟩ rfl
  exact ⟨_, hs, rfl, rfl, at_most_one_live_poll hs⟩

/-- An eventer disables and enables its events before the CQE of the first poll
arrives. That CQE then arms a third poll next to the second one. -/
theorem late_cqe_arms_second_poll :
    ∃ s : Polls, machine.Reachable (fun _ _ => True) s ∧ s.states 7 = some ⟨3, true, 3⟩ ∧
      s.ops 2 = some (.poll 7 false) ∧ s.ops 3 = some (.poll 7 false) :=
  machine.exists_of_run (fun _ _ => True) (s := new) rfl
    [.addEventer 7 0 true, .modifyEventer 7 3 true, .modifyEventer 7 0 true,
      .modifyEventer 7 3 true, .cqe 1 (-125) false true]
    (fun s => s.states 7 = some ⟨3, true, 3⟩ ∧ s.ops 2 = some (.poll 7 false) ∧
      s.ops 3 = some (.poll 7 false)) (by decide +kernel)

end Polls

end Taotu
