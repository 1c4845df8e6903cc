import Taotu.Rpc.Channel
import Mathlib.Data.List.Perm.Basic
import Mathlib.Data.List.Nodup

/-!
# Taotu.Rpc.Correlation — every call is answered once, with its own answer

Three facts are kept by every step of a pair of channels.

1. **Numbering.** The ids of the calls are consecutive modulo `2 ^ 64`, so they
   are distinct as long as at most `2 ^ 64` calls are made (`Numbered.nodup`).
2. **Flow.** Every call is on its way to the server, with a service, on its way
   back or delivered, and counts in one place only; what comes back for it is an
   error of its own or what the service produced for it (`Flow`).
3. **Book-keeping.** `outstanding_calls_` are the calls whose RESPONSE has not
   been delivered, and the completed calls those whose RESPONSE has (`Book`).

Together they give `calls_complete_once`.
-/

namespace Taotu.Rpc

open Lib RpcAsyncChannel

namespace Call

/-- The REQUEST of a call. -/
def message (c : Call) : RpcMessage :=
  ⟨.REQUEST, c.id, some c.service, some c.method, some c.request, none, none⟩

/-- What the service gets. -/
def invocation (c : Call) : Invocation := ⟨c.service, c.method, c.request, c.id⟩

def outstanding (c : Call) : OutstandingCall := ⟨c.response, c.done⟩

end Call

def ids (ms : List RpcMessage) : List ℕ := ms.map RpcMessage.id

/-- The call with an id. -/
def callOf (calls : List Call) (id : ℕ) : Option Call := calls.find? fun c => c.id = id

/-- What a RESPONSE completes, given what is outstanding under its id. -/
def completionOf (call : Option OutstandingCall) (m : RpcMessage) : Option Completion :=
  call.bind fun call =>
    if call.responseMessage then some ⟨m.id, m.response, call.doneCallback⟩ else none

section CallOf

variable {calls : List Call} {c c' : Call} {id : ℕ}

theorem callOf_mem (h : callOf calls id = some c) : c ∈ calls ∧ c.id = id := by
  refine ⟨List.mem_of_find?_eq_some h, ?_⟩
  simpa using List.find?_some h

theorem callOf_eq_none (h : id ∉ calls.map Call.id) : callOf calls id = none := by
  rw [callOf, List.find?_eq_none]
  intro c hc heq
  apply h
  rw [← of_decide_eq_true heq]
  exact List.mem_map_of_mem hc

/-- Ids tell calls apart. -/
theorem callOf_eq (hnd : (calls.map Call.id).Nodup) (hc : c ∈ calls) : callOf calls c.id = some c := by
  cases h : callOf calls c.id with
  | none =>
    rw [callOf, List.find?_eq_none] at h
    exact absurd (decide_eq_true rfl) (h c hc)
  | some c' =>
    obtain ⟨hc', hid⟩ := callOf_mem h
    rw [List.inj_on_of_nodup_map hnd hc' hc hid]

/-- A later call does not hide an earlier one. -/
theorem callOf_append (h : id ∈ calls.map Call.id) (c' : Call) :
    callOf (calls ++ [c']) id = callOf calls id := by
  obtain ⟨c, hc, rfl⟩ := List.mem_map.mp h
  rw [callOf, List.find?_append, Option.or_of_isSome]
  · rfl
  · rw [List.find?_isSome]
    exact ⟨c, hc, decide_eq_true rfl⟩

theorem callOf_append_new (h : id ∉ calls.map Call.id) (c' : Call) :
    callOf (calls ++ [c']) id = if c'.id = id then some c' else none := by
  rw [callOf, List.find?_append, show calls.find? _ = callOf calls id from rfl, callOf_eq_none h,
    Option.none_or]
  by_cases hid : c'.id = id <;> simp [hid]

end CallOf

namespace Pair

variable {s s' : Pair} {l : Label}

/-! ## Numbering -/

/-- The calls are numbered consecutively, from the first value of `id_` on. -/
def Numbered (s : Pair) : Prop :=
  ∃ first, s.client.id % idRange = (first + s.calls.length) % idRange ∧
    s.calls.map Call.id = (List.range s.calls.length).map fun i => (first + i + 1) % idRange

/-- Fewer than `2 ^ 64` consecutive numbers are distinct. -/
theorem nodup_numbers (first : ℕ) {n : ℕ} (hn : n ≤ idRange) :
    ((List.range n).map fun i => (first + i + 1) % idRange).Nodup := by
  refine List.Nodup.map_on ?_ List.nodup_range
  intro i hi j hj heq
  rw [List.mem_range] at hi hj
  rw [idRange] at heq hn
  omega

theorem Numbered.nodup (h : s.Numbered) (hn : s.calls.length ≤ idRange) :
    (s.calls.map Call.id).Nodup := by
  obtain ⟨first, -, hids⟩ := h
  rw [hids]
  exact nodup_numbers first hn

/-! ## What a step can do -/

/-- `m` is the right RESPONSE to the call: its own error, or what the service
has produced for it. -/
def Answers (s : Pair) (c : Call) (m : RpcMessage) : Prop :=
  (s.server.errorCode c.message ≠ .NO_ERROR ∧
    m = errorResponse c.id (s.server.errorCode c.message)) ∨
  ∃ response, (c.invocation, response) ∈ s.produced ∧ m = doneCallback response c.id

namespace Answers

variable {c : Call} {m : RpcMessage}

theorem id_eq (h : s.Answers c m) : m.id = c.id := by
  rcases h with ⟨-, rfl⟩ | ⟨response, -, rfl⟩ <;> rfl

theorem type_eq (h : s.Answers c m) : m.type = .RESPONSE := by
  rcases h with ⟨-, rfl⟩ | ⟨response, -, rfl⟩ <;> rfl

theorem mono (h : s.Answers c m) (hserver : s'.server = s.server)
    (hproduced : ∀ p ∈ s.produced, p ∈ s'.produced) : s'.Answers c m := by
  rcases h with ⟨hne, rfl⟩ | ⟨response, hmem, rfl⟩
  · exact .inl ⟨by rwa [hserver], by rw [hserver]⟩
  · exact .inr ⟨response, hproduced _ hmem, rfl⟩

end Answers

/-- Messages and closures are where they belong, each call in one place. -/
structure Flow (s : Pair) : Prop where
  sent : s.requests ++ s.toServer = s.calls.map Call.message
  answered : s.delivered ++ s.toClient = s.responses
  served : ∀ id, (ids s.requests).count id =
    (s.invocations.map Invocation.id).count id + (ids s.responses).count id
  working : ∀ v ∈ s.invocations, ∃ c ∈ s.calls, v = c.invocation
  answers : ∀ m ∈ s.responses, ∃ c ∈ s.calls, s.Answers c m
  strays : s.strays = []

/-- The moves of a call. -/
inductive Moved (s : Pair) : Pair → Prop where
  | called (c : Call) (hid : c.id = (s.client.id + 1) % idRange) :
      Moved s { s with
        client := { s.client with
          id := c.id
          outstandingCalls :=
            Function.update s.client.outstandingCalls c.id (some c.outstanding) }
        toServer := s.toServer ++ [c.message]
        calls := s.calls ++ [c] }
  | rejected (c : Call) (rest : List RpcMessage) (hq : s.toServer = c.message :: rest)
      (hc : c ∈ s.calls) (hne : s.server.errorCode c.message ≠ .NO_ERROR) :
      Moved s (respond { s with toServer := rest, requests := s.requests ++ [c.message] }
        (errorResponse c.id (s.server.errorCode c.message)))
  | accepted (c : Call) (rest : List RpcMessage) (hq : s.toServer = c.message :: rest)
      (hc : c ∈ s.calls) :
      Moved s { s with
        toServer := rest
        requests := s.requests ++ [c.message]
        invocations := s.invocations ++ [c.invocation] }
  | answered (k : ℕ) (c : Call) (response : List UInt8) (hv : s.invocations[k]? = some c.invocation)
      (hc : c ∈ s.calls) :
      Moved s (respond
        { s with
          invocations := s.invocations.eraseIdx k
          produced := s.produced ++ [(c.invocation, response)] } (doneCallback response c.id))
  | completed (m : RpcMessage) (rest : List RpcMessage) (c : Call) (hq : s.toClient = m :: rest)
      (hc : c ∈ s.calls) (ha : s.Answers c m) :
      Moved s { s with
        client := { s.client with
          outstandingCalls := Function.update s.client.outstandingCalls m.id none }
        toClient := rest
        delivered := s.delivered ++ [m]
        completions :=
          s.completions ++ (completionOf (s.client.outstandingCalls m.id) m).toList }

/-- A REQUEST is turned down or handed to its service. -/
theorem onRpcMessage_request (ch : RpcAsyncChannel) (c : Call) :
    ch.onRpcMessage c.message =
      (ch, if ch.errorCode c.message = .NO_ERROR then .callService c.invocation
        else .send (errorResponse c.id (ch.errorCode c.message))) := rfl

/-- A RESPONSE completes what is outstanding under its id. -/
theorem clientEffect_response {m : RpcMessage} (hm : m.type = .RESPONSE) (ch : RpcAsyncChannel) :
    clientEffect s m.id (ch.onRpcMessage m).2 =
      { s with completions :=
        s.completions ++ (completionOf (ch.outstandingCalls m.id) m).toList } := by
  rw [onRpcMessage, hm]
  dsimp only
  cases ch.outstandingCalls m.id with
  | none => simp [clientEffect, completionOf]
  | some call =>
    by_cases hcall : call.responseMessage = true <;> simp [clientEffect, completionOf, hcall]

theorem Flow.moved (h : s.Flow) (hs : step s l = some s') : Moved s s' := by
  cases l with
  | callMethod service method request response done =>
    cases hs
    exact .called ⟨_, service, method, request, response, done⟩ rfl
  | serverReceives =>
    unfold step at hs
    dsimp only at hs
    split at hs
    · cases hs
    · next m rest hq =>
      -- the link carries the requests of calls
      have hmem : m ∈ s.calls.map Call.message := by
        rw [← h.sent, hq]
        simp
      obtain ⟨c, hc, rfl⟩ := List.mem_map.mp hmem
      rw [onRpcMessage_request] at hs
      dsimp only at hs
      split at hs
      · cases hs
        exact .accepted c rest hq hc
      · next hne =>
        cases hs
        exact .rejected c rest hq hc hne
  | clientReceives =>
    unfold step at hs
    dsimp only at hs
    split at hs
    · cases hs
    · next m rest hq =>
      have hmem : m ∈ s.responses := by
        rw [← h.answered, hq]
        simp
      obtain ⟨c, hc, ha⟩ := h.answers m hmem
      rw [clientEffect_response ha.type_eq] at hs
      rw [← Option.some.inj hs]
      have hch : (s.client.onRpcMessage m).1 = { s.client with
          outstandingCalls := Function.update s.client.outstandingCalls m.id none } := by
        rw [onRpcMessage, ha.type_eq]
      rw [hch]
      exact .completed m rest c hq hc ha
  | runClosure k response =>
    unfold step at hs
    dsimp only at hs
    split at hs
    · cases hs
    · next v hv =>
      obtain ⟨c, hc, rfl⟩ := h.working v (List.mem_of_getElem? hv)
      cases hs
      exact .answered k c response hv hc

/-! ## Every step keeps the three facts -/

namespace Flow

variable (h : s.Flow)
include h

/-- The first REQUEST of the link is delivered. -/
theorem sent_next {m : RpcMessage} {rest : List RpcMessage} (hq : s.toServer = m :: rest) :
    s.requests ++ [m] ++ rest = s.calls.map Call.message := by
  rw [← h.sent, hq, List.append_assoc]
  rfl

/-- A RESPONSE is sent. -/
theorem answered_next (m : RpcMessage) :
    s.delivered ++ (s.toClient ++ [m]) = s.responses ++ [m] := by
  rw [← List.append_assoc, h.answered]

/-- The answers stay right while the server has produced no less, and calls no fewer. -/
theorem answers_kept (hserver : s'.server = s.server) (hproduced : ∀ p ∈ s.produced, p ∈ s'.produced)
    {calls : List Call} (hcalls : s.calls ⊆ calls) :
    ∀ m ∈ s.responses, ∃ c ∈ calls, s'.Answers c m := by
  intro m hm
  obtain ⟨c, hc, ha⟩ := h.answers m hm
  exact ⟨c, hcalls hc, ha.mono hserver hproduced⟩

/-- A right RESPONSE is sent, by a server that has produced no less. -/
theorem answers_next {c : Call} (hc : c ∈ s.calls) {m : RpcMessage} (hserver : s'.server = s.server)
    (hproduced : ∀ p ∈ s.produced, p ∈ s'.produced) (ha : s'.Answers c m) :
    ∀ m' ∈ s.responses ++ [m], ∃ c' ∈ s.calls, s'.Answers c' m' := by
  intro m' hm'
  rcases List.mem_append.mp hm' with hm' | hm'
  · exact h.answers_kept hserver hproduced (List.Subset.refl _) m' hm'
  · rw [List.mem_singleton] at hm'
    exact ⟨c, hc, hm' ▸ ha⟩

theorem step (hm : Moved s s') : s'.Flow := by
  cases hm with
  | called c hid =>
    refine ⟨?_, h.answered, h.served, ?_,
      h.answers_kept rfl (fun _ hp => hp) (List.subset_append_left _ _), h.strays⟩
    · show s.requests ++ (s.toServer ++ [c.message]) = (s.calls ++ [c]).map Call.message
      rw [← List.append_assoc, h.sent, List.map_append]
      rfl
    · intro v hv
      obtain ⟨c', hc', hv'⟩ := h.working v hv
      exact ⟨c', List.mem_append_left _ hc', hv'⟩
  | rejected c rest hq hc hne =>
    refine ⟨h.sent_next hq, h.answered_next _, ?_, h.working,
      h.answers_next hc rfl (fun _ hp => hp) (.inl ⟨hne, rfl⟩), h.strays⟩
    -- the id joins the requests and the responses
    intro id
    show (ids (s.requests ++ [c.message])).count id =
      _ + (ids (s.responses ++ [errorResponse c.id _])).count id
    have hserved := h.served id
    simp only [ids, List.map_append, List.count_append] at hserved ⊢
    rw [hserved]
    exact Nat.add_assoc ..
  | accepted c rest hq hc =>
    refine ⟨h.sent_next hq, h.answered, ?_, ?_,
      h.answers_kept rfl (fun _ hp => hp) (List.Subset.refl _), h.strays⟩
    · -- the id joins the requests and the closures
      intro id
      show (ids (s.requests ++ [c.message])).count id =
        ((s.invocations ++ [c.invocation]).map Invocation.id).count id + _
      have hserved := h.served id
      simp only [ids, List.map_append, List.count_append] at hserved ⊢
      rw [hserved]
      exact Nat.add_right_comm ..
    · intro v hv
      rcases List.mem_append.mp hv with hv | hv
      · exact h.working v hv
      · exact ⟨c, hc, List.mem_singleton.mp hv⟩
  | answered k c response hv hc =>
    refine ⟨h.sent, h.answered_next _, ?_, ?_, ?_, h.strays⟩
    · -- the id leaves the closures and joins the responses
      intro id
      show (ids s.requests).count id = ((s.invocations.eraseIdx k).map Invocation.id).count id +
        (ids (s.responses ++ [doneCallback response c.id])).count id
      obtain ⟨hk, hget⟩ := List.getElem?_eq_some_iff.mp hv
      have hperm := ((List.getElem_cons_eraseIdx_perm hk).map Invocation.id).count_eq id
      have hserved := h.served id
      simp only [hget, ids, List.map_append, List.map_cons, List.map_nil, List.count_append,
        List.count_cons, List.count_nil, Call.invocation, doneCallback] at hperm hserved ⊢
      omega
    · intro v hv'
      exact h.working v (List.mem_of_mem_eraseIdx hv')
    · exact h.answers_next hc rfl (fun _ hp => List.mem_append_left _ hp)
        (.inr ⟨response, List.mem_append_right _ (List.mem_singleton_self _), rfl⟩)
  | completed m rest c hq hc ha =>
    refine ⟨h.sent, ?_, h.served, h.working,
      h.answers_kept rfl (fun _ hp => hp) (List.Subset.refl _), h.strays⟩
    show s.delivered ++ [m] ++ rest = s.responses
    rw [← h.answered, hq, List.append_assoc]
    rfl

end Flow

theorem Numbered.step (h : s.Numbered) (hm : Moved s s') : s'.Numbered := by
  obtain ⟨first, hid, hids⟩ := h
  cases hm with
  | called c hc =>
    refine ⟨first, ?_, ?_⟩
    · show c.id % idRange = (first + (s.calls ++ [c]).length) % idRange
      rw [hc, Nat.mod_mod, Nat.add_mod, hid, ← Nat.add_mod, List.length_append,
        List.length_singleton, Nat.add_assoc]
    · show (s.calls ++ [c]).map Call.id = (List.range (s.calls ++ [c]).length).map _
      have hnew : c.id = (first + s.calls.length + 1) % idRange := by
        rw [hc, Nat.add_mod, hid, ← Nat.add_mod]
      rw [List.length_append, List.length_singleton, List.range_succ, List.map_append,
        List.map_append, hids, List.map_singleton, List.map_singleton, hnew]
  | rejected => exact ⟨first, hid, hids⟩
  | accepted => exact ⟨first, hid, hids⟩
  | answered => exact ⟨first, hid, hids⟩
  | completed => exact ⟨first, hid, hids⟩

/-- The client's books: what is outstanding, and what is completed. -/
structure Book (s : Pair) : Prop where
  outstanding : ∀ id, s.client.outstandingCalls id =
    if id ∈ ids s.delivered then none else (callOf s.calls id).map Call.outstanding
  completions : s.completions = s.delivered.filterMap fun m =>
    completionOf ((callOf s.calls m.id).map Call.outstanding) m

namespace Flow

variable (h : s.Flow)
include h

theorem ids_sent : ids s.requests ++ ids s.toServer = s.calls.map Call.id := by
  rw [ids, ids, ← List.map_append, h.sent, List.map_map]
  rfl

/-- With distinct ids, a call is with a service or answered, and once only. -/
theorem count_le (hnd : (s.calls.map Call.id).Nodup) (id : ℕ) :
    (s.invocations.map Invocation.id).count id + (ids s.responses).count id ≤ 1 := by
  have hone := List.nodup_iff_count_le_one.mp hnd id
  rw [← h.ids_sent, List.count_append, h.served id] at hone
  omega

theorem mem_calls {m : RpcMessage} (hm : m ∈ s.responses) : m.id ∈ s.calls.map Call.id := by
  obtain ⟨c, hc, ha⟩ := h.answers m hm
  rw [ha.id_eq]
  exact List.mem_map_of_mem hc

theorem mem_responses {m : RpcMessage} (hm : m ∈ s.delivered) : m ∈ s.responses := by
  rw [← h.answered]
  exact List.mem_append_left _ hm

/-- A RESPONSE on its way is the first one with its id. -/
theorem not_delivered (hnd : (s.calls.map Call.id).Nodup) {m : RpcMessage} {rest : List RpcMessage}
    (hq : s.toClient = m :: rest) : m.id ∉ ids s.delivered := by
  have hle := h.count_le hnd m.id
  rw [← h.answered, hq, ids, List.map_append, List.count_append, List.map_cons,
    List.count_cons_self] at hle
  rw [← List.count_eq_zero]
  have : (ids s.delivered).count m.id = (s.delivered.map RpcMessage.id).count m.id := rfl
  omega

end Flow

theorem Book.step (h : s.Book) (hf : s.Flow) (hnd : (s'.calls.map Call.id).Nodup)
    (hm : Moved s s') : s'.Book := by
  cases hm with
  | called c hid =>
    have hnew : c.id ∉ s.calls.map Call.id := by
      rw [List.map_append, List.nodup_append] at hnd
      intro hmem
      exact hnd.2.2 c.id hmem c.id (List.mem_singleton_self _) rfl
    constructor
    · intro id
      show Function.update s.client.outstandingCalls c.id (some c.outstanding) id =
        if id ∈ ids s.delivered then none else (callOf (s.calls ++ [c]) id).map Call.outstanding
      by_cases hmem : id ∈ s.calls.map Call.id
      · have hne : id ≠ c.id := fun heq => hnew (heq ▸ hmem)
        rw [Function.update_of_ne hne, callOf_append hmem]
        exact h.outstanding id
      · have hdel : id ∉ ids s.delivered := by
          intro hdel
          obtain ⟨m, hm, rfl⟩ := List.mem_map.mp hdel
          exact hmem (hf.mem_calls (hf.mem_responses hm))
        rw [callOf_append_new hmem, if_neg hdel]
        by_cases heq : c.id = id
        · rw [heq, Function.update_self, if_pos rfl]
          rfl
        · rw [Function.update_of_ne (Ne.symm heq), if_neg heq, h.outstanding id, if_neg hdel,
            callOf_eq_none hmem]
    · show s.completions = s.delivered.filterMap _
      rw [h.completions]
      apply List.filterMap_congr
      intro m hm
      rw [callOf_append (hf.mem_calls (hf.mem_responses hm))]
  | rejected => exact ⟨h.outstanding, h.completions⟩
  | accepted => exact ⟨h.outstanding, h.completions⟩
  | answered => exact ⟨h.outstanding, h.completions⟩
  | completed m rest c hq hc ha =>
    have hdel : m.id ∉ ids s.delivered := hf.not_delivered hnd hq
    have hout := h.outstanding m.id
    rw [if_neg hdel] at hout
    constructor
    · intro id
      show Function.update s.client.outstandingCalls m.id none id =
        if id ∈ ids (s.delivered ++ [m]) then none else (callOf s.calls id).map Call.outstanding
      have hmem : id ∈ ids (s.delivered ++ [m]) ↔ id ∈ ids s.delivered ∨ id = m.id := by simp [ids]
      by_cases heq : id = m.id
      · rw [heq, Function.update_self, if_pos (heq ▸ hmem.mpr (.inr heq))]
      · rw [Function.update_of_ne heq, h.outstanding id]
        simp only [hmem, heq, or_false]
    · show s.completions ++ (completionOf _ m).toList = (s.delivered ++ [m]).filterMap _
      rw [List.filterMap_append, ← h.completions, hout]
      cases hx : completionOf ((callOf s.calls m.id).map Call.outstanding) m <;> simp [hx]

/-- The three facts. -/
def Inv (s : Pair) : Prop := s.Flow ∧ s.Numbered ∧ (s.calls.length ≤ idRange → s.Book)

theorem inv_init (h : machine.Init s) : s.Inv := by
  obtain ⟨clientId, serverId, clientServices, serverServices, rfl⟩ := h
  refine ⟨⟨rfl, rfl, fun _ => rfl, ?_, ?_, rfl⟩, ⟨clientId, rfl, rfl⟩, fun _ => ⟨?_, rfl⟩⟩
  · intro v hv
    cases hv
  · intro m hm
    cases hm
  · intro id
    rfl

theorem Inv.step (h : s.Inv) (hs : machine.step s l = some s') : s'.Inv := by
  obtain ⟨hflow, hnum, hbook⟩ := h
  have hm := hflow.moved hs
  refine ⟨hflow.step hm, hnum.step hm, ?_⟩
  intro hn
  -- calls are only added
  have hle : s.calls.length ≤ idRange := by
    cases hm with
    | called =>
      rw [List.length_append] at hn
      omega
    | rejected => exact hn
    | accepted => exact hn
    | answered => exact hn
    | completed => exact hn
  exact (hbook hle).step hflow ((hnum.step hm).nodup hn) hm

theorem inv (h : machine.Reachable (fun _ _ => True) s) : s.Inv :=
  h.invariant (fun _ h0 => inv_init h0) fun _ _ _ _ hinv _ hs => hinv.step hs

/-! ## Calls complete once -/

/-- How often the callback of a call has run. -/
def runs (s : Pair) (id : ℕ) : ℕ := s.completions.countP fun x => x.id = id && x.ran

theorem completionOf_eq_some {call : Option OutstandingCall} {m : RpcMessage} {x : Completion}
    (h : completionOf call m = some x) :
    ∃ o, call = some o ∧ x = ⟨m.id, m.response, o.doneCallback⟩ := by
  obtain ⟨o, ho, hx⟩ := Option.bind_eq_some_iff.mp h
  split at hx
  · exact ⟨o, ho, (Option.some.inj hx).symm⟩
  · cases hx

/-- The callback of a call runs at the RESPONSE with its id, if it has one. -/
theorem completionOf_ran {calls : List Call} {c : Call} (hc : callOf calls c.id = some c)
    (m : RpcMessage) :
    (((completionOf ((callOf calls m.id).map Call.outstanding) m).map
      (fun x => decide (x.id = c.id) && x.ran)).getD false) =
        (c.response && c.done && m.id == c.id) := by
  by_cases hid : m.id = c.id
  · cases hr : c.response <;> simp [completionOf, hid, hc, Call.outstanding, hr]
  · cases h : completionOf ((callOf calls m.id).map Call.outstanding) m with
    | none => simp [hid]
    | some x =>
      obtain ⟨o, -, rfl⟩ := completionOf_eq_some h
      simp [hid]

theorem runs_eq (hbook : s.Book) (hnd : (s.calls.map Call.id).Nodup) {c : Call} (hc : c ∈ s.calls) :
    s.runs c.id = if c.response && c.done then (ids s.delivered).count c.id else 0 := by
  rw [runs, hbook.completions, List.countP_filterMap]
  simp only [completionOf_ran (callOf_eq hnd hc)]
  cases c.response && c.done with
  | false => simp
  | true =>
    rw [ids, List.count, List.countP_map]
    rfl

/-- What was sent back has been delivered or is on its way. -/
theorem Flow.count_delivered (hflow : s.Flow) (id : ℕ) :
    (ids s.delivered).count id + (ids s.toClient).count id = (ids s.responses).count id := by
  rw [← hflow.answered, ids, ids, ids, List.map_append, List.count_append]

/-- A completion has parsed what the server answered to its call. -/
theorem Flow.completion_answers (hflow : s.Flow) (hbook : s.Book) {x : Completion}
    (hx : x ∈ s.completions) :
    ∃ c ∈ s.calls, c.id = x.id ∧
      ((s.server.errorCode c.message ≠ .NO_ERROR ∧ x.parsed = none) ∨
        ∃ response, (c.invocation, response) ∈ s.produced ∧ x.parsed = some response) := by
  rw [hbook.completions, List.mem_filterMap] at hx
  obtain ⟨m, hm, hx⟩ := hx
  obtain ⟨o, -, rfl⟩ := completionOf_eq_some hx
  obtain ⟨c, hc, ha⟩ := hflow.answers m (hflow.mem_responses hm)
  refine ⟨c, hc, ha.id_eq.symm, ?_⟩
  rcases ha with ⟨hne, rfl⟩ | ⟨response, hmem, rfl⟩
  · exact .inl ⟨hne, rfl⟩
  · exact .inr ⟨response, hmem, rfl⟩

/-- A delivered REQUEST has one answer, or a closure that will give it. -/
theorem Flow.served_once (hflow : s.Flow) (hnd : (s.calls.map Call.id).Nodup) {m : RpcMessage}
    (hm : m ∈ s.requests) :
    (s.invocations.map Invocation.id).count m.id + (ids s.responses).count m.id = 1 := by
  have hle := hflow.count_le hnd m.id
  have hpos : 0 < (ids s.requests).count m.id :=
    List.count_pos_iff.mpr (List.mem_map_of_mem hm)
  rw [hflow.served] at hpos
  omega

/-- When nothing is under way the answer to every call has been delivered. -/
theorem Flow.all_delivered (hflow : s.Flow) (hnd : (s.calls.map Call.id).Nodup)
    (hserver : s.toServer = []) (hclient : s.toClient = []) (hclosures : s.invocations = [])
    {c : Call} (hc : c ∈ s.calls) : (ids s.delivered).count c.id = 1 := by
  have hsent : ids s.requests = s.calls.map Call.id := by
    rw [← hflow.ids_sent, hserver]
    simp [ids]
  have hmem : c.id ∈ ids s.requests := by
    rw [hsent]
    exact List.mem_map_of_mem hc
  obtain ⟨m, hm, hid⟩ := List.mem_map.mp hmem
  have hone := hflow.served_once hnd hm
  have hsum := hflow.count_delivered c.id
  rw [hid, hclosures] at hone
  rw [hclient] at hsum
  simp only [ids, List.map_nil, List.count_nil] at hone hsum ⊢
  omega

/-- A table whose calls have all been answered is empty. -/
theorem Book.outstanding_empty (hbook : s.Book)
    (hall : ∀ c ∈ s.calls, (ids s.delivered).count c.id = 1) (id : ℕ) :
    s.client.outstandingCalls id = none := by
  rw [hbook.outstanding]
  split
  · rfl
  · next hid =>
    rw [callOf_eq_none]
    · rfl
    · intro hmem
      obtain ⟨c, hc, rfl⟩ := List.mem_map.mp hmem
      exact hid (List.count_pos_iff.mp (by rw [hall c hc]; exact Nat.one_pos))

/-- **Calls complete once, with their own answer**: a callback runs at most once
and not before the RESPONSE of its call is delivered; the response object is
parsed from what the service produced for the call, or left alone if the server
answered with an error; a delivered REQUEST is answered exactly once, now or when
its closure runs; and when nothing is under way every call has completed. -/
theorem calls_complete_once (h : machine.Reachable (fun _ _ => True) s)
    (hn : s.calls.length < idRange) :
    (∀ c ∈ s.calls, s.runs c.id ≤ (ids s.delivered).count c.id ∧
      (ids s.delivered).count c.id ≤ 1) ∧
    (∀ x ∈ s.completions, ∃ c ∈ s.calls, c.id = x.id ∧
      ((s.server.errorCode c.message ≠ .NO_ERROR ∧ x.parsed = none) ∨
        ∃ response, (c.invocation, response) ∈ s.produced ∧ x.parsed = some response)) ∧
    ((∀ m ∈ s.responses, m.type = .RESPONSE) ∧ ∀ m ∈ s.requests,
      (s.invocations.map Invocation.id).count m.id + (ids s.responses).count m.id = 1) ∧
    (s.toServer = [] → s.toClient = [] → s.invocations = [] →
      (∀ id, s.client.outstandingCalls id = none) ∧
        ∀ c ∈ s.calls, (ids s.delivered).count c.id = 1 ∧
          s.runs c.id = if c.response && c.done then 1 else 0) := by
  obtain ⟨hflow, hnum, hbook⟩ := inv h
  have hnd := hnum.nodup (Nat.le_of_lt hn)
  have hbook := hbook (Nat.le_of_lt hn)
  refine ⟨?_, ?_, ⟨?_, ?_⟩, ?_⟩
  · intro c hc
    have hle := hflow.count_le hnd c.id
    have hsum := hflow.count_delivered c.id
    refine ⟨?_, by omega⟩
    rw [runs_eq hbook hnd hc]
    split <;> omega
  · intro x hx
    exact hflow.completion_answers hbook hx
  · intro m hm
    obtain ⟨c, -, ha⟩ := hflow.answers m hm
    exact ha.type_eq
  · intro m hm
    exact hflow.served_once hnd hm
  · intro hserver hclient hclosures
    have hall : ∀ c ∈ s.calls, (ids s.delivered).count c.id = 1 :=
      fun c hc => hflow.all_delivered hnd hserver hclient hclosures hc
    refine ⟨hbook.outstanding_empty hall, ?_⟩
    intro c hc
    refine ⟨hall c hc, ?_⟩
    rw [runs_eq hbook hnd hc, hall c hc]

/-- A service that answers one method, whatever the request. -/
def echo : String → Option Service := fun name =>
  if name = "echo" then some ⟨fun method => if method = "call" then some ⟨fun _ => true⟩ else none⟩
  else none

/-- Two calls, numbered across the end of the range; the second one goes to no
service and is answered first. -/
theorem calls_complete_out_of_order :
    ∃ s, machine.Reachable (fun _ _ => True) s ∧
      s.completions = [⟨0, none, true⟩, ⟨18446744073709551615, some [7], true⟩] ∧
      (∀ id, s.client.outstandingCalls id = none) ∧ ∀ c ∈ s.calls, s.runs c.id = 1 := by
  obtain ⟨s, hs, hn, hrun, hserver, hclient, hclosures, hcalls⟩ := machine.exists_of_run
    (fun _ _ => True) ⟨18446744073709551614, 0, none, some echo, rfl⟩
    [.callMethod "echo" "call" [1] true true, .callMethod "other" "call" [2] true true,
      .serverReceives, .serverReceives, .runClosure 0 [7], .clientReceives, .clientReceives]
    (fun s => s.calls.length < idRange ∧
      s.completions = [⟨0, none, true⟩, ⟨18446744073709551615, some [7], true⟩] ∧
      s.toServer = [] ∧ s.toClient = [] ∧ s.invocations = [] ∧
      ∀ c ∈ s.calls, (c.response && c.done) = true)
    (by decide +kernel)
  obtain ⟨hout, hall⟩ := (calls_complete_once hs hn).2.2.2 hserver hclient hclosures
  refine ⟨s, hs, hrun, hout, ?_⟩
  intro c hc
  rw [(hall c hc).2, if_pos (hcalls c hc)]

end Pair

end Taotu.Rpc
