import Taotu.Lib.Table
import Taotu.Rpc.Channel
import Mathlib.Data.List.Basic
import Mathlib.Data.List.Count

/-!
# Taotu.Rpc.Endpoint — one channel against an arbitrary peer

The machine of a single `RpcAsyncChannel`: its user calls methods, the peer
sends whatever RpcMessages it likes, and at the end the channel is destroyed.
A call brings two objects with it, the response object and the closure. They go
into `outstanding_calls_` together and leave it together, by the handler of a
RESPONSE or by the destructor, which visits one entry after the other.

**Ghosts.** The calls are numbered in the order they are made. `holder id` is
the number of the call whose pointers the entry under `id` holds. `received` are
the messages so far, `runs` the callbacks that were run, each with the position
of the message that made it run, `deletedResponses` the response objects that
were deleted and `releasedClosures` the closures that were run (a closure deletes
itself) or deleted.

The main result is `calls_settled_once`: whatever the peer sends, every call is
settled once, by the first RESPONSE with its id or by the destructor.
-/

namespace Taotu.Rpc

open Lib

/-- A call the user has made: its id, whether it has a closure, and the number
of messages received before it. -/
structure Made where
  id : ℕ
  done : Bool
  before : ℕ
deriving DecidableEq, Repr

/-- A RESPONSE with this id. -/
def answers (id : ℕ) (m : RpcMessage) : Bool := m.type = .RESPONSE ∧ m.id = id

/-- The position of the first RESPONSE to a call. -/
def firstAnswer (received : List RpcMessage) (c : Made) : Option ℕ :=
  ((received.drop c.before).findIdx? (answers c.id)).map (· + c.before)

structure Endpoint where
  channel : RpcAsyncChannel
  /-- The destructor is running. -/
  destroying : Bool
  calls : List Made
  holder : ℕ → ℕ
  received : List RpcMessage
  runs : List (ℕ × ℕ)
  deletedResponses : List ℕ
  releasedClosures : List ℕ

namespace Endpoint

inductive Label where
  | callMethod (service method : String) (request : List UInt8) (response done : Bool)
  | receive (m : RpcMessage)
  | destroy
  /-- The loop of the destructor comes to the entry of an id. -/
  | visit (id : ℕ)
deriving DecidableEq, Repr

/-! ## Model layer -/

/-- Both objects of a call are released, as far as they exist. -/
def release (s : Endpoint) (k : ℕ) (call : OutstandingCall) : Endpoint :=
  { s with
    deletedResponses := s.deletedResponses ++ (if call.responseMessage then [k] else [])
    releasedClosures := s.releasedClosures ++ (if call.doneCallback then [k] else []) }

/-- The effect of the message at position `i`. Sending and calling a service do
not touch a call. -/
def effect (s : Endpoint) (id i : ℕ) : Effect → Endpoint
  | .complete call _ =>
    let k := s.holder id
    { s.release k call with
      runs := s.runs ++ (if call.doneCallback then [(k, i)] else []) }
  | .nothing | .callService _ | .send _ => s

def step (s : Endpoint) : Label → Option Endpoint
  | .callMethod service method request response done =>
    if s.destroying then none
    else
      let r := s.channel.callMethod service method request response done
      some { s with
        channel := r.1
        calls := s.calls ++ [⟨r.2.id, done, s.received.length⟩]
        holder := Function.update s.holder r.2.id s.calls.length }
  | .receive m =>
    if s.destroying then none
    else
      let r := s.channel.onRpcMessage m
      some (effect { s with channel := r.1, received := s.received ++ [m] } m.id
        s.received.length r.2)
  | .destroy => if s.destroying then none else some { s with destroying := true }
  | .visit id =>
    if s.destroying then
      match s.channel.outstandingCalls id with
      | none => none
      | some call =>
        some (release
          { s with channel := { s.channel with
              outstandingCalls := Function.update s.channel.outstandingCalls id none } }
          (s.holder id) call)
    else none

/-- A new channel; `id_` is whatever it happens to be. -/
def new (id : ℕ) (services : Option (String → Option Service)) : Endpoint :=
  { channel := ⟨id, fun _ => none, services⟩
    destroying := false, calls := [], holder := fun _ => 0, received := [], runs := []
    deletedResponses := [], releasedClosures := [] }

def machine : Machine Endpoint Label := ⟨fun s => ∃ id services, s = new id services, step⟩

/-- The destructor has visited every entry. -/
def Destroyed (s : Endpoint) : Prop :=
  s.destroying = true ∧ ∀ id, s.channel.outstandingCalls id = none

/-- Response objects exist. -/
def NonNull (_ : Endpoint) : Label → Prop
  | .callMethod _ _ _ response _ => response = true
  | _ => True

/-- Response objects exist, and no call is given an id that is outstanding. -/
def Fresh (s : Endpoint) : Label → Prop
  | .callMethod _ _ _ response _ =>
    response = true ∧ s.channel.outstandingCalls ((s.channel.id + 1) % idRange) = none
  | _ => True

instance (s : Endpoint) : (l : Label) → Decidable (s.Fresh l)
  | .callMethod _ _ _ _ _ => inferInstanceAs (Decidable (_ = _ ∧ _ = _))
  | .receive _ | .destroy | .visit _ => inferInstanceAs (Decidable True)

/-! ## What a step can do -/

variable {s s' : Endpoint} {l : Label} {k i : ℕ} {c : Made} {m : RpcMessage}

/-- A message finds an entry and takes it out, or leaves the channel alone. -/
theorem onRpcMessage_cases (ch : RpcAsyncChannel) (m : RpcMessage) :
    (∃ call, ch.outstandingCalls m.id = some call ∧ m.type = .RESPONSE ∧
      ch.onRpcMessage m =
        ({ ch with outstandingCalls := Function.update ch.outstandingCalls m.id none },
          if call.responseMessage then .complete call m.response else .nothing)) ∨
      ((m.type = .RESPONSE → ch.outstandingCalls m.id = none) ∧ (ch.onRpcMessage m).1 = ch ∧
        ∀ call parsed, (ch.onRpcMessage m).2 ≠ .complete call parsed) := by
  simp only [RpcAsyncChannel.onRpcMessage]
  cases m.type with
  | RESPONSE =>
    cases hcall : ch.outstandingCalls m.id with
    | none =>
      right
      refine ⟨fun _ => rfl, ?_, by simp⟩
      simp [erase_of_none hcall]
    | some call =>
      left
      exact ⟨call, rfl, rfl, rfl⟩
  | REQUEST =>
    right
    refine ⟨nofun, rfl, fun call parsed => ?_⟩
    dsimp only
    split <;> nofun
  | ERROR => exact .inr ⟨nofun, rfl, nofun⟩
  | OTHER => exact .inr ⟨nofun, rfl, nofun⟩

theorem effect_of_ne {e : Effect} (h : ∀ call parsed, e ≠ .complete call parsed) (id i : ℕ) :
    s.effect id i e = s := by
  cases e with
  | complete call parsed => exact absurd rfl (h call parsed)
  | nothing | callService | send => rfl

/-- The steps of the machine. -/
inductive Moved (s : Endpoint) : Label → Endpoint → Prop where
  | callMethod (service method : String) (request : List UInt8) (response done : Bool)
      (id : ℕ) (hid : id = (s.channel.id + 1) % idRange) :
      Moved s (.callMethod service method request response done)
        { s with
          channel := { s.channel with
            id := id
            outstandingCalls := Function.update s.channel.outstandingCalls id (some ⟨response, done⟩) }
          calls := s.calls ++ [⟨id, done, s.received.length⟩]
          holder := Function.update s.holder id s.calls.length }
  /-- A RESPONSE takes out the entry it finds. -/
  | answer (m : RpcMessage) (call : OutstandingCall) (hopen : s.destroying = false)
      (hcall : s.channel.outstandingCalls m.id = some call) (htype : m.type = .RESPONSE) :
      Moved s (.receive m) (effect
        { s with
          channel := { s.channel with
            outstandingCalls := Function.update s.channel.outstandingCalls m.id none }
          received := s.received ++ [m] }
        m.id s.received.length
        (if call.responseMessage then .complete call m.response else .nothing))
  /-- Any other message touches no call. -/
  | ignore (m : RpcMessage) (hopen : s.destroying = false)
      (hnone : m.type = .RESPONSE → s.channel.outstandingCalls m.id = none) :
      Moved s (.receive m) { s with received := s.received ++ [m] }
  | destroy : Moved s .destroy { s with destroying := true }
  | visit (id : ℕ) (call : OutstandingCall) (hdestroying : s.destroying = true)
      (hcall : s.channel.outstandingCalls id = some call) :
      Moved s (.visit id) (release
        { s with channel := { s.channel with
            outstandingCalls := Function.update s.channel.outstandingCalls id none } }
        (s.holder id) call)

theorem step_moved (h : s.step l = some s') : s.Moved l s' := by
  cases l with
  | callMethod service method request response done =>
    simp only [step, Option.ite_none_left_eq_some, Option.some.injEq] at h
    exact h.2 ▸ .callMethod service method request response done _ rfl
  | receive m =>
    simp only [step, Option.ite_none_left_eq_some, Option.some.injEq, Bool.not_eq_true] at h
    rcases h with ⟨hopen, rfl⟩
    rcases onRpcMessage_cases s.channel m with ⟨call, hcall, htype, heq⟩ | ⟨hnone, heq, hne⟩
    · rw [heq]
      exact .answer m call hopen hcall htype
    · rw [heq, effect_of_ne hne]
      exact .ignore m hopen hnone
  | destroy =>
    simp only [step, Option.ite_none_left_eq_some, Option.some.injEq] at h
    exact h.2 ▸ .destroy
  | visit id =>
    simp only [step] at h
    split at h
    · next hd =>
      split at h
      · cases h
      · next call hcall =>
        cases h
        exact .visit id call hd hcall
    · cases h

/-- A message with an id that is not outstanding changes nothing. -/
theorem receive_unknown (hnone : s.channel.outstandingCalls m.id = none)
    (h : s.step (.receive m) = some s') : s' = { s with received := s.received ++ [m] } := by
  cases step_moved h with
  | answer _ call _ hcall =>
    rw [hnone] at hcall
    cases hcall
  | ignore => rfl

/-! ## The first answer -/

section FirstAnswer

variable {received : List RpcMessage}

/-- Nothing has answered a call at the moment it is made. -/
theorem firstAnswer_made (id : ℕ) (done : Bool) :
    firstAnswer received ⟨id, done, received.length⟩ = none := by
  simp [firstAnswer]

/-- A later message does not replace the first answer, and it is the first
answer if there was none. -/
theorem firstAnswer_append (hc : c.before ≤ received.length) (m : RpcMessage) :
    firstAnswer (received ++ [m]) c =
      (firstAnswer received c).or (if answers c.id m then some received.length else none) := by
  rw [firstAnswer, firstAnswer, List.drop_append_of_le_length hc, List.findIdx?_append]
  cases hfind : (received.drop c.before).findIdx? (answers c.id) with
  | some j => simp
  | none =>
    by_cases ha : answers c.id m
    · simp [List.findIdx?_cons, ha, hc]
    · simp [List.findIdx?_cons, ha]

theorem firstAnswer_of_not_answers (hc : c.before ≤ received.length) (h : answers c.id m = false) :
    firstAnswer (received ++ [m]) c = firstAnswer received c := by
  rw [firstAnswer_append hc, h]
  simp

theorem firstAnswer_of_some (hc : c.before ≤ received.length) (h : firstAnswer received c = some i) :
    firstAnswer (received ++ [m]) c = some i := by
  rw [firstAnswer_append hc, h, Option.some_or]

end FirstAnswer

/-! ## How a call stands -/

/-- The entry under the id of a call holds its pointers. -/
def Holds (s : Endpoint) (k : ℕ) (c : Made) : Prop :=
  s.channel.outstandingCalls c.id = some ⟨true, c.done⟩ ∧ s.holder c.id = k

/-- Nothing has happened to the objects of a call. -/
structure Untouched (s : Endpoint) (k : ℕ) : Prop where
  runs : s.runs.filter (fun r => r.1 = k) = []
  response : s.deletedResponses.count k = 0
  closure : s.releasedClosures.count k = 0

/-- Both objects of a call have been released, once. -/
structure Released (s : Endpoint) (k : ℕ) (c : Made) : Prop where
  response : s.deletedResponses.count k = 1
  closure : s.releasedClosures.count k = if c.done then 1 else 0

/-- The runs of the callback of a call that was answered at position `i`. -/
def ranAt (k : ℕ) (c : Made) (i : ℕ) : List (ℕ × ℕ) := if c.done then [(k, i)] else []

/-- A call waits for its answer, was answered, or was found by the destructor. -/
inductive Stands (s : Endpoint) (k : ℕ) (c : Made) : Prop where
  | waiting (answer : firstAnswer s.received c = none) (holds : s.Holds k c) (untouched : s.Untouched k)
  | answered (i : ℕ) (answer : firstAnswer s.received c = some i) (away : ¬ s.Holds k c)
      (runs : s.runs.filter (fun r => r.1 = k) = ranAt k c i) (released : s.Released k c)
  | dropped (destroying : s.destroying = true) (answer : firstAnswer s.received c = none)
      (away : ¬ s.Holds k c) (runs : s.runs.filter (fun r => r.1 = k) = []) (released : s.Released k c)

structure Inv (s : Endpoint) : Prop where
  /-- Every entry holds the pointers of a call with its id. -/
  entry : ∀ id call, s.channel.outstandingCalls id = some call →
    ∃ c, s.calls[s.holder id]? = some c ∧ c.id = id ∧ call = ⟨true, c.done⟩
  before : ∀ c ∈ s.calls, c.before ≤ s.received.length
  stands : ∀ k c, s.calls[k]? = some c → s.Stands k c
  /-- Objects that do not exist yet are not touched. -/
  later : ∀ k, s.calls.length ≤ k → s.Untouched k

/-- What happens to other calls leaves a call where it stands. -/
theorem Stands.frame (hs : s.Stands k c) (hd : s.destroying = true → s'.destroying = true)
    (hans : firstAnswer s'.received c = firstAnswer s.received c)
    (hholds : s'.Holds k c ↔ s.Holds k c)
    (hruns : s'.runs.filter (fun r => r.1 = k) = s.runs.filter fun r => r.1 = k)
    (hresp : s'.deletedResponses.count k = s.deletedResponses.count k)
    (hclos : s'.releasedClosures.count k = s.releasedClosures.count k) : s'.Stands k c := by
  cases hs with
  | waiting answer holds untouched =>
    exact .waiting (hans.trans answer) (hholds.mpr holds)
      ⟨hruns.trans untouched.runs, hresp.trans untouched.response, hclos.trans untouched.closure⟩
  | answered i answer away runs released =>
    exact .answered i (hans.trans answer) (hholds.not.mpr away) (hruns.trans runs)
      ⟨hresp.trans released.response, hclos.trans released.closure⟩
  | dropped destroying answer away runs released =>
    exact .dropped (hd destroying) (hans.trans answer) (hholds.not.mpr away) (hruns.trans runs)
      ⟨hresp.trans released.response, hclos.trans released.closure⟩

/-- A call whose pointers are in the table is waiting. -/
theorem Stands.of_holds (hs : s.Stands k c) (h : s.Holds k c) :
    firstAnswer s.received c = none ∧ s.Untouched k := by
  cases hs with
  | waiting answer _ untouched => exact ⟨answer, untouched⟩
  | answered _ _ away => exact absurd h away
  | dropped _ _ away => exact absurd h away

/-- A message that does not answer a waiting call does not change the first
answer of any call. -/
theorem Stands.firstAnswer_receive (hs : s.Stands k c) (hopen : s.destroying = false)
    (hc : c.before ≤ s.received.length) (hne : s.Holds k c → answers c.id m = false) :
    firstAnswer (s.received ++ [m]) c = firstAnswer s.received c := by
  cases hs with
  | waiting _ holds => exact firstAnswer_of_not_answers hc (hne holds)
  | answered i answer => rw [firstAnswer_of_some hc answer, answer]
  | dropped destroying =>
    rw [hopen] at destroying
    cases destroying

theorem Untouched.release (h : s.Untouched k) : (s.release k ⟨true, c.done⟩).Released k c := by
  constructor
  · simp [Endpoint.release, h.response]
  · cases hdone : c.done <;> simp [Endpoint.release, h.closure]

/-- Releasing the objects of one call leaves those of another alone. -/
theorem release_other {k₀ : ℕ} (hk : k ≠ k₀) (call : OutstandingCall) :
    (s.release k₀ call).deletedResponses.count k = s.deletedResponses.count k ∧
      (s.release k₀ call).releasedClosures.count k = s.releasedClosures.count k := by
  constructor
  · cases hr : call.responseMessage <;> simp [Endpoint.release, hr, Ne.symm hk]
  · cases hd : call.doneCallback <;> simp [Endpoint.release, hd, Ne.symm hk]

/-! ## The invariant -/

theorem inv_init (h : machine.Init s) : s.Inv := by
  rcases h with ⟨id, services, rfl⟩
  constructor
  · nofun
  · nofun
  · nofun
  · intro k _
    exact ⟨rfl, rfl, rfl⟩

/-- The call an entry belongs to is waiting. -/
theorem Inv.taken (h : s.Inv) {id : ℕ} {call : OutstandingCall}
    (hcall : s.channel.outstandingCalls id = some call) :
    ∃ c, s.calls[s.holder id]? = some c ∧ c.id = id ∧ call = ⟨true, c.done⟩ ∧
      firstAnswer s.received c = none ∧ s.Untouched (s.holder id) := by
  rcases h.entry id call hcall with ⟨c, hc, rfl, rfl⟩
  rcases (h.stands _ c hc).of_holds ⟨hcall, rfl⟩ with ⟨hans, hun⟩
  exact ⟨c, hc, rfl, rfl, hans, hun⟩

section Erase

variable {id : ℕ}
    (htable : s'.channel.outstandingCalls = Function.update s.channel.outstandingCalls id none)
    (hholder : s'.holder = s.holder)
include htable

theorem not_holds_erase (hid : c.id = id) : ¬ s'.Holds k c := by
  rintro ⟨htab, -⟩
  rw [htable, hid, Function.update_self] at htab
  cases htab

include hholder

/-- Taking out one entry leaves the entries of the other calls. -/
theorem holds_erase (hk : k ≠ s.holder id) : s'.Holds k c ↔ s.Holds k c := by
  by_cases hid : c.id = id
  · constructor
    · intro h
      exact absurd h (not_holds_erase htable hid)
    · rintro ⟨-, rfl⟩
      exact absurd (congrArg s.holder hid) hk
  · rw [Holds, Holds, htable, hholder, Function.update_of_ne hid]

theorem entry_erase (h : s.Inv) (hcalls : s'.calls = s.calls) (id' : ℕ) (call : OutstandingCall)
    (hcall : s'.channel.outstandingCalls id' = some call) :
    ∃ c, s'.calls[s'.holder id']? = some c ∧ c.id = id' ∧ call = ⟨true, c.done⟩ := by
  rw [htable, erase_eq_some] at hcall
  rw [hcalls, hholder]
  exact h.entry id' call hcall.2

end Erase

/-- A call is made under an id that is not outstanding. -/
theorem Inv.callMethod (h : s.Inv) {id : ℕ} (hfree : s.channel.outstandingCalls id = none)
    (done : Bool) :
    Inv { s with
      channel := { s.channel with
        id := id
        outstandingCalls := Function.update s.channel.outstandingCalls id (some ⟨true, done⟩) }
      calls := s.calls ++ [⟨id, done, s.received.length⟩]
      holder := Function.update s.holder id s.calls.length } := by
  constructor
  · intro id' call hcall
    rcases enter_eq_some.mp hcall with ⟨rfl, rfl⟩ | ⟨hne, hold⟩
    · exact ⟨⟨id', done, s.received.length⟩, by simp, rfl, rfl⟩
    · rcases h.entry id' call hold with ⟨c, hc, hid, heq⟩
      refine ⟨c, ?_, hid, heq⟩
      simp only [Function.update_of_ne hne]
      exact List.getElem?_append_left (List.getElem?_eq_some_iff.mp hc).1 ▸ hc
  · intro c hc
    rcases List.mem_append.mp hc with hc | hc
    · exact h.before c hc
    · cases List.mem_singleton.mp hc
      exact Nat.le_refl _
  · intro k c hc
    rcases Nat.lt_trichotomy k s.calls.length with hlt | rfl | hgt
    · -- an earlier call: its pointers are not under the new id, before or after
      have hc : s.calls[k]? = some c := List.getElem?_append_left hlt ▸ hc
      refine (h.stands k c hc).frame (fun hd => hd) rfl ?_ rfl rfl rfl
      by_cases hid : c.id = id
      · constructor
        · rintro ⟨-, hk⟩
          simp only [hid, Function.update_self] at hk
          omega
        · rintro ⟨htab, -⟩
          rw [hid, hfree] at htab
          cases htab
      · simp only [Holds, Function.update_of_ne hid]
    · simp only [List.getElem?_concat_length, Option.some.injEq] at hc
      subst hc
      rcases h.later s.calls.length (Nat.le_refl _) with ⟨hruns, hresp, hclos⟩
      exact .waiting (firstAnswer_made id done) ⟨by simp, by simp⟩ ⟨hruns, hresp, hclos⟩
    · rw [List.getElem?_eq_none (by simp; omega)] at hc
      cases hc
  · intro k hk
    rw [List.length_append, List.length_singleton] at hk
    rcases h.later k (by omega) with ⟨hruns, hresp, hclos⟩
    exact ⟨hruns, hresp, hclos⟩

/-- A RESPONSE settles the call whose entry it finds. -/
theorem Inv.answer (h : s.Inv) (hopen : s.destroying = false) {call : OutstandingCall}
    (hcall : s.channel.outstandingCalls m.id = some call) (htype : m.type = .RESPONSE) :
    Inv (effect
      { s with
        channel := { s.channel with
          outstandingCalls := Function.update s.channel.outstandingCalls m.id none }
        received := s.received ++ [m] }
      m.id s.received.length
      (if call.responseMessage then .complete call m.response else .nothing)) := by
  rcases h.taken hcall with ⟨c₀, hc₀, hid, rfl, hans, hun⟩
  have hreleased := Untouched.release (c := c₀) hun
  have hk₀ : s.holder m.id < s.calls.length := (List.getElem?_eq_some_iff.mp hc₀).1
  simp only [if_true, effect]
  constructor
  · exact entry_erase (s := s) rfl rfl h rfl
  · intro c hc
    refine Nat.le_trans (h.before c hc) ?_
    simp [release]
  · intro k c hc
    by_cases hk : k = s.holder m.id
    · -- the call that is answered
      subst hk
      cases Option.some.inj (hc₀.symm.trans hc)
      have hbefore := h.before c₀ (List.mem_of_getElem? hc₀)
      refine .answered s.received.length ?_ (not_holds_erase (s := s) rfl hid) ?_ ?_
      · simp only [release, firstAnswer_append hbefore, hans, Option.none_or]
        simp [answers, htype, hid]
      · rw [List.filter_append, hun.runs, ranAt]
        cases hdone : c₀.done <;> simp
      · exact ⟨hreleased.response, hreleased.closure⟩
    · -- another call does not have this id in the table
      have hrel := release_other (s := s) hk ⟨true, c₀.done⟩
      refine (h.stands k c hc).frame (fun hd => hd) ?_ (holds_erase (s := s) rfl rfl hk) ?_ hrel.1 hrel.2
      · refine (h.stands k c hc).firstAnswer_receive hopen (h.before c (List.mem_of_getElem? hc)) ?_
        rintro ⟨-, rfl⟩
        simp only [answers, decide_eq_false_iff_not, not_and]
        rintro - heq
        exact hk (congrArg s.holder heq.symm)
      · rw [List.filter_append]
        cases c₀.done <;> simp [Ne.symm hk]
  · intro k hk
    have hne : k ≠ s.holder m.id := by
      rintro rfl
      exact Nat.not_lt_of_le hk hk₀
    have hrel := release_other (s := s) hne ⟨true, c₀.done⟩
    rcases h.later k hk with ⟨hruns, hresp, hclos⟩
    refine ⟨?_, hrel.1.trans hresp, hrel.2.trans hclos⟩
    rw [List.filter_append, hruns]
    cases c₀.done <;> simp [Ne.symm hne]

/-- A message that finds no entry leaves every call where it stands. -/
theorem Inv.ignore (h : s.Inv) (hopen : s.destroying = false)
    (hnone : m.type = .RESPONSE → s.channel.outstandingCalls m.id = none) :
    Inv { s with received := s.received ++ [m] } := by
  constructor
  · exact h.entry
  · intro c hc
    refine Nat.le_trans (h.before c hc) ?_
    simp
  · intro k c hc
    refine (h.stands k c hc).frame (fun hd => hd) ?_ Iff.rfl rfl rfl rfl
    refine (h.stands k c hc).firstAnswer_receive hopen (h.before c (List.mem_of_getElem? hc)) ?_
    rintro ⟨htab, -⟩
    simp only [answers, decide_eq_false_iff_not, not_and]
    rintro htype heq
    rw [← heq, hnone htype] at htab
    cases htab
  · exact fun k hk => ⟨(h.later k hk).runs, (h.later k hk).response, (h.later k hk).closure⟩

/-- The destructor settles the call of an entry. -/
theorem Inv.visit (h : s.Inv) (hd : s.destroying = true) {id : ℕ} {call : OutstandingCall}
    (hcall : s.channel.outstandingCalls id = some call) :
    Inv (release
      { s with channel := { s.channel with
          outstandingCalls := Function.update s.channel.outstandingCalls id none } }
      (s.holder id) call) := by
  rcases h.taken hcall with ⟨c₀, hc₀, hid, rfl, hans, hun⟩
  have hreleased := Untouched.release (c := c₀) hun
  have hk₀ : s.holder id < s.calls.length := (List.getElem?_eq_some_iff.mp hc₀).1
  constructor
  · exact entry_erase (s := s) rfl rfl h rfl
  · exact h.before
  · intro k c hc
    by_cases hk : k = s.holder id
    · subst hk
      cases Option.some.inj (hc₀.symm.trans hc)
      exact .dropped hd hans (not_holds_erase (s := s) rfl hid) hun.runs
        ⟨hreleased.response, hreleased.closure⟩
    · have hrel := release_other (s := s) hk ⟨true, c₀.done⟩
      exact (h.stands k c hc).frame (fun hd => hd) rfl (holds_erase (s := s) rfl rfl hk) rfl hrel.1
        hrel.2
  · intro k hk
    have hne : k ≠ s.holder id := by
      rintro rfl
      exact Nat.not_lt_of_le hk hk₀
    have hrel := release_other (s := s) hne ⟨true, c₀.done⟩
    rcases h.later k hk with ⟨hruns, hresp, hclos⟩
    exact ⟨hruns, hrel.1.trans hresp, hrel.2.trans hclos⟩

theorem Inv.step (h : s.Inv) (hok : s.Fresh l) (hs : s.step l = some s') : s'.Inv := by
  cases step_moved hs with
  | callMethod service method request response done id hid =>
    rcases hok with ⟨rfl, hfree⟩
    exact h.callMethod (hid ▸ hfree) done
  | answer m call hopen hcall htype => exact h.answer hopen hcall htype
  | ignore m hopen hnone => exact h.ignore hopen hnone
  | destroy =>
    refine ⟨h.entry, h.before, ?_, fun k hk => ?_⟩
    · exact fun k c hc => (h.stands k c hc).frame (fun _ => rfl) rfl Iff.rfl rfl rfl rfl
    · exact ⟨(h.later k hk).runs, (h.later k hk).response, (h.later k hk).closure⟩
  | visit id call hd hcall => exact h.visit hd hcall

theorem inv (h : machine.Reachable Fresh s) : s.Inv :=
  h.invariant (fun _ => inv_init) fun _ _ _ _ hinv hok hs => hinv.step hok hs

/-! ## Settled once -/

/-- What an arbitrary peer cannot break. -/
structure SettledOnce (s : Endpoint) : Prop where
  /-- The callback of a call ran at the first RESPONSE with its id, and at no other time. -/
  runs : ∀ k c, s.calls[k]? = some c →
    s.runs.filter (fun r => r.1 = k) = (firstAnswer s.received c).elim [] (ranAt k c)
  /-- The first RESPONSE releases both objects, -/
  answered : ∀ k c, s.calls[k]? = some c → firstAnswer s.received c ≠ none → s.Released k c
  /-- the destructor releases those that are left, -/
  destroyed : ∀ k c, s.calls[k]? = some c → s.Destroyed → s.Released k c
  /-- no object is released otherwise, and none twice. -/
  once : ∀ k c, s.calls[k]? = some c → s.Released k c ∨ (firstAnswer s.received c = none ∧ s.Untouched k)
  alive : ∀ k c, s.calls[k]? = some c → s.destroying = false → firstAnswer s.received c = none →
    s.Untouched k
  /-- No other object is touched. -/
  others : ∀ k, s.calls.length ≤ k → s.Untouched k
  /-- `outstanding_calls_` holds the calls that are not answered. -/
  outstanding : s.destroying = false → ∀ id k call,
    (s.channel.outstandingCalls id = some call ∧ s.holder id = k) ↔
      ∃ c, s.calls[k]? = some c ∧ c.id = id ∧ call = ⟨true, c.done⟩ ∧ firstAnswer s.received c = none
  /-- A message with an id that is not outstanding changes nothing. -/
  unknown : ∀ m s', s.channel.outstandingCalls m.id = none → s.step (.receive m) = some s' →
    s' = { s with received := s.received ++ [m] }

theorem Stands.runs_eq (hs : s.Stands k c) :
    s.runs.filter (fun r => r.1 = k) = (firstAnswer s.received c).elim [] (ranAt k c) := by
  cases hs with
  | waiting answer _ untouched => rw [answer, untouched.runs, Option.elim_none]
  | answered i answer _ runs => rw [answer, runs, Option.elim_some]
  | dropped _ answer _ runs => rw [answer, runs, Option.elim_none]

/-- **A channel is safe against its peer.** In every run in which no call is given
an id that is outstanding, whatever the messages: each callback runs at the first
RESPONSE with the id of its call and at no other time, each response object and
each closure is released once, and `outstanding_calls_` holds exactly the calls
that are not answered. -/
theorem calls_settled_once (h : machine.Reachable Fresh s) : s.SettledOnce := by
  have hinv := inv h
  refine ⟨?_, ?_, ?_, ?_, ?_, hinv.later, ?_, fun m s' => receive_unknown⟩
  · exact fun k c hc => (hinv.stands k c hc).runs_eq
  · intro k c hc hans
    cases hinv.stands k c hc with
    | waiting answer => exact absurd answer hans
    | answered i _ _ _ released => exact released
    | dropped _ answer => exact absurd answer hans
  · intro k c hc hd
    cases hinv.stands k c hc with
    | waiting _ holds =>
      -- the destructor has been at this entry
      rw [Holds, hd.2] at holds
      cases holds.1
    | answered i _ _ _ released => exact released
    | dropped _ _ _ _ released => exact released
  · intro k c hc
    cases hinv.stands k c hc with
    | waiting answer _ untouched => exact .inr ⟨answer, untouched⟩
    | answered i _ _ _ released => exact .inl released
    | dropped _ _ _ _ released => exact .inl released
  · intro k c hc hopen hans
    cases hinv.stands k c hc with
    | waiting _ _ untouched => exact untouched
    | answered i answer => simp [hans] at answer
    | dropped hd => simp [hopen] at hd
  · intro hopen id k call
    constructor
    · rintro ⟨hcall, rfl⟩
      rcases hinv.taken hcall with ⟨c, hc, hid, heq, hans, -⟩
      exact ⟨c, hc, hid, heq, hans⟩
    · rintro ⟨c, hc, rfl, rfl, hans⟩
      cases hinv.stands k c hc with
      | waiting _ holds => exact holds
      | answered i answer => simp [hans] at answer
      | dropped hd => simp [hopen] at hd

/-- The theorem at a run with an unknown RESPONSE, a RESPONSE, its repetition
and a call that is left to the destructor. -/
theorem settled_with_stray_responses :
    ∃ s : Endpoint, machine.Reachable Fresh s ∧ s.runs = [(0, 1)] ∧ s.deletedResponses = [0, 1] ∧
      s.SettledOnce := by
  rcases machine.exists_of_run Fresh (s := new 0 none) ⟨0, none, rfl⟩
    [.callMethod "S" "M" [] true true, .receive (RpcAsyncChannel.doneCallback [7] 9),
      .receive (RpcAsyncChannel.doneCallback [7] 1), .receive (RpcAsyncChannel.doneCallback [8] 1),
      .callMethod "S" "M" [] true true, .destroy, .visit 2]
    (fun s => s.runs = [(0, 1)] ∧ s.deletedResponses = [0, 1]) (by decide +kernel)
    with ⟨s, hs, hruns, hdel⟩
  exact ⟨s, hs, hruns, hdel, calls_settled_once hs⟩

/-! ## When an id comes round

The ids are consecutive modulo `2 ^ 64`, so a run of at most `2 ^ 64` calls never
gives out an id that is outstanding. One call more can. -/

/-- Calls and entries are numbered from `first` on. -/
structure Numbered (s : Endpoint) (first : ℕ) : Prop where
  next : s.channel.id % idRange = (first + s.calls.length) % idRange
  call : ∀ k c, s.calls[k]? = some c → c.id = (first + k + 1) % idRange
  entry : ∀ id call, s.channel.outstandingCalls id = some call →
    s.holder id < s.calls.length ∧ id = (first + s.holder id + 1) % idRange

theorem Numbered.step {first : ℕ} (h : s.Numbered first) (hs : s.step l = some s') :
    s'.Numbered first := by
  have hnext := h.next
  cases step_moved hs with
  | callMethod service method request response done id hid =>
    have hid' : id = (first + s.calls.length + 1) % idRange := by
      rw [hid, Nat.add_mod, hnext, ← Nat.add_mod]
    constructor
    · simp only [List.length_append, List.length_singleton, hid', Nat.mod_mod]
      rfl
    · intro k c hc
      rcases Nat.lt_or_ge k s.calls.length with hlt | hge
      · exact h.call k c (List.getElem?_append_left hlt ▸ hc)
      · rw [List.getElem?_append_right hge, List.getElem?_singleton] at hc
        split at hc
        · cases hc
          rw [hid', show k = s.calls.length by omega]
        · cases hc
    · intro id' call hcall
      rw [List.length_append, List.length_singleton]
      rcases enter_eq_some.mp hcall with ⟨rfl, -⟩ | ⟨hne, hold⟩
      · simp only [Function.update_self]
        exact ⟨Nat.lt_succ_self _, hid'⟩
      · simp only [Function.update_of_ne hne]
        exact ⟨Nat.lt_succ_of_lt (h.entry id' call hold).1, (h.entry id' call hold).2⟩
  | answer m call hopen hcall htype =>
    have herase : ∀ id' call',
        Function.update s.channel.outstandingCalls m.id none id' = some call' →
          s.holder id' < s.calls.length ∧ id' = (first + s.holder id' + 1) % idRange :=
      fun id' call' h' => h.entry id' call' (erase_eq_some.mp h').2
    split
    · exact ⟨h.next, h.call, herase⟩
    · exact ⟨h.next, h.call, herase⟩
  | ignore => exact ⟨h.next, h.call, h.entry⟩
  | destroy => exact ⟨h.next, h.call, h.entry⟩
  | visit id call hd hcall =>
    exact ⟨h.next, h.call, fun id' call' h' => h.entry id' call' (erase_eq_some.mp h').2⟩

theorem numbered {ok : Endpoint → Label → Prop} (h : machine.Reachable ok s) :
    ∃ first, s.Numbered first := by
  induction h with
  | init h0 =>
    rcases h0 with ⟨id, services, rfl⟩
    exact ⟨id, rfl, nofun, nofun⟩
  | step l _ _ hs ih =>
    rcases ih with ⟨first, hnum⟩
    exact ⟨first, hnum.step hs⟩

theorem calls_length_le (hs : s.step l = some s') : s.calls.length ≤ s'.calls.length := by
  cases step_moved hs with
  | callMethod => simp
  | answer => split <;> exact Nat.le_refl _
  | ignore => exact Nat.le_refl _
  | destroy => exact Nat.le_refl _
  | visit => exact Nat.le_refl _

/-- In a run of at most `2 ^ 64` calls no id comes round. -/
theorem fresh_of_few_calls (h : machine.Reachable NonNull s) (hn : s.calls.length ≤ idRange) :
    machine.Reachable Fresh s := by
  induction h with
  | init h0 => exact .init h0
  | @step s s' l hreach hok hs ih =>
    change step s l = some s' at hs
    have hprev := ih (Nat.le_trans (calls_length_le hs) hn)
    refine .step l hprev ?_ hs
    cases l with
    | callMethod service method request response done =>
      refine ⟨hok, ?_⟩
      rcases numbered hreach with ⟨first, hnum⟩
      have hlt : s.calls.length < idRange := by
        cases step_moved hs
        rw [List.length_append] at hn
        exact hn
      cases hentry : s.channel.outstandingCalls ((s.channel.id + 1) % idRange) with
      | none => rfl
      | some call =>
        -- the entry would belong to a call `2 ^ 64` calls ago
        have hnext := hnum.next
        rcases hnum.entry _ call hentry with ⟨hk, hid⟩
        rw [idRange] at *
        omega
    | receive | destroy | visit => trivial

/-- As many calls as one likes, none of them answered. -/
theorem many_calls (n : ℕ) :
    ∃ s : Endpoint, machine.Reachable NonNull s ∧ s.destroying = false ∧ s.received = [] ∧
      s.calls.length = n := by
  induction n with
  | zero => exact ⟨new 0 none, .init ⟨0, none, rfl⟩, rfl, rfl, rfl⟩
  | succ n ih =>
    rcases ih with ⟨s, hs, hopen, hrec, hlen⟩
    exact ⟨_, .step (.callMethod "S" "M" [] true true) hs rfl (if_neg (by simp [hopen])), hopen,
      hrec, by simp [hlen]⟩

/-- The call number `2 ^ 64` takes the entry of the first call, which nobody has
answered: its objects are in no entry any more. -/
theorem entry_overwritten_after_wrap :
    ∃ s : Endpoint, machine.Reachable NonNull s ∧ s.destroying = false ∧
      ∃ c, s.calls[0]? = some c ∧ firstAnswer s.received c = none ∧
        ∀ id, s.channel.outstandingCalls id ≠ none → s.holder id ≠ 0 := by
  rcases many_calls idRange with ⟨s, hs, hopen, hrec, hlen⟩
  rcases numbered hs with ⟨first, hnum⟩
  have hpos : 0 < s.calls.length := by simp [hlen, idRange]
  refine ⟨_, .step (.callMethod "S" "M" [] true true) hs rfl (if_neg (by simp [hopen])), hopen,
    s.calls[0], ?_, ?_, ?_⟩
  · exact (List.getElem?_append_left hpos).trans (List.getElem?_eq_getElem hpos)
  · simp [firstAnswer, hrec]
  · intro id hne
    -- the new call has the id of the first one
    have hid : (s.channel.id + 1) % idRange = (first + 0 + 1) % idRange := by
      have hnext := hnum.next
      rw [hlen] at hnext
      rw [Nat.add_mod, hnext, Nat.add_mod_right, ← Nat.add_mod]
    rcases Option.ne_none_iff_exists'.mp hne with ⟨call, hcall⟩
    rcases enter_eq_some.mp hcall with ⟨rfl, -⟩ | ⟨hother, hold⟩
    · simp only [RpcAsyncChannel.callMethod, Function.update_self]
      omega
    · simp only [RpcAsyncChannel.callMethod] at hother ⊢
      rw [Function.update_of_ne hother]
      intro hzero
      have hentry := (hnum.entry id call hold).2
      rw [hzero, ← hid] at hentry
      exact hother hentry

end Endpoint

end Taotu.Rpc
