import Taotu.Connection.Inbound
import Taotu.Connection.Noticing
import Taotu.Connection.Outbound

/-!
# Taotu.Connection.Pausing — pausing and resuming (`StopReading`, `StopWriting`)

`StopReading` and `StopWriting` are the same function: `CancelPendingIo` cancels the read
and the write in flight. `CancelOp` makes the poller forget who waits for an operation and
asks the kernel to end it. The kernel may have moved bytes by then, or move them before
it hears of the request, and `HandleCqe` ignores what it answers. So bytes that were read
are lost, and bytes that were written stay in the output buffer, to be written again
(`pausing_loses_and_repeats`).

1. **Model layer.** The machine of `Taotu.Connection.Solo`, with the cancelled operations
   that the kernel has not ended yet.
2. **Refinement.** If a cancelled operation moves nothing, that it ends is not noticed:
   the connection makes a run of the machine of `Taotu.Connection.Solo`
   (`solo_reachable`), if need be up to its close (`follows`), and inherits its streams.
3. **Results.** Where only what is to be stopped is in flight (`PauseOk`), pausing is
   transparent (`pausing_transparent`).
-/

namespace Taotu

open Lib

structure Pausing where
  solo : Solo
  cancelledReads : List ReadContext
  /-- The bytes in the vectors of the cancelled writes. -/
  cancelledWrites : List (List UInt8)
deriving DecidableEq, Repr

namespace Pausing

/-- That a cancelled operation ends reaches nobody. What matters is when it moves its bytes,
and that is when it ends here. -/
inductive Label where
  | turn (l : Solo.Label)
  | endRead (i : ℕ) (res : ℤ) (data : List UInt8)
  | endWrite (i : ℕ) (res : ℤ)
deriving DecidableEq, Repr

/-! ## Model layer -/

/-- `CancelOp` was called with this key. -/
def Cancelled (s s' : Solo) (key : ℕ) : Prop :=
  ∃ e ∈ s'.trace.drop s.trace.length, e.out = .cancelOp key

instance (s s' : Solo) (key : ℕ) : Decidable (Cancelled s s' key) :=
  inferInstanceAs (Decidable (∃ e ∈ _, _))

/-- The operation in flight, if it was cancelled. -/
def cancelled {α : Type} (s s' : Solo) (op : Option (ℕ × α)) : List α :=
  (op.filter fun o => Cancelled s s' o.1).toList.map Prod.snd

/-- The bytes in the vector of a write. -/
def vector (s : Solo) (ctx : WriteContext) : List UInt8 :=
  slice s.conn.outputBuffer.buffer ctx.iovBase ctx.toSend

/-- The vector lies in the memory of the input buffer, which has not grown since. -/
def PointsInto (b : IoBuffer) (v : Iovec) : Prop :=
  match v.base with
  | .inputBuffer off => off + v.len = b.buffer.length
  | .extraBuffer => True

instance (b : IoBuffer) : (v : Iovec) → Decidable (PointsInto b v)
  | ⟨.inputBuffer _, _⟩ => inferInstanceAs (Decidable ((_ : ℕ) = _))
  | ⟨.extraBuffer, _⟩ => inferInstanceAs (Decidable True)

/-- A cancelled read stores what it has read, behind the content of the input buffer or over
what was read since. -/
def stray (ctx : ReadContext) (data : List UInt8) (b : IoBuffer) : Except Fault IoBuffer := do
  if ∀ v ∈ ctx.iov, PointsInto b v then
    let m ← Solo.fill ctx.iov data b []
    return m.1
  else .error .outOfBounds

/-- A cancelled read ends. The kernel has delivered what it has read, also where the memory is
no longer the buffer's. -/
def endRead (ctx : ReadContext) (data : List UInt8) (s : Solo) : Solo :=
  if data = [] then s
  else
    match stray ctx data s.conn.inputBuffer with
    | .ok b => { s with
        conn := { s.conn with inputBuffer := b }
        delivered := s.delivered ++ data }
    | .error e => { s with delivered := s.delivered ++ data, fault := some e }

def endWrite (data : List UInt8) (s : Solo) : Solo := { s with accepted := s.accepted ++ data }

/-- The connection after a turn to `solo`. -/
def turned (s : Pausing) (solo : Solo) : Pausing :=
  { solo := solo
    cancelledReads := s.cancelledReads ++ cancelled s.solo solo s.solo.readOp
    cancelledWrites := s.cancelledWrites ++
      (cancelled s.solo solo s.solo.writeOp).map (vector s.solo) }

def step (s : Pausing) : Label → Option Pausing
  | .turn l => (s.solo.step l).map s.turned
  | .endRead i res data =>
    match s.cancelledReads[i]? with
    | none => none
    | some ctx =>
      if s.solo.fault = none ∧ data.length = res.toNat ∧
          data.length ≤ (ctx.iov.map Iovec.len).sum then
        some { s with
          solo := endRead ctx data s.solo
          cancelledReads := s.cancelledReads.eraseIdx i }
      else none
  | .endWrite i res =>
    match s.cancelledWrites[i]? with
    | none => none
    | some bytes =>
      if s.solo.fault = none ∧ res.toNat ≤ bytes.length then
        some { s with
          solo := endWrite (bytes.take res.toNat) s.solo
          cancelledWrites := s.cancelledWrites.eraseIdx i }
      else none

def start (solo : Solo) : Pausing := ⟨solo, [], []⟩

def machine : Machine Pausing Label := ⟨fun s => ∃ solo, Solo.Init solo ∧ s = start solo, step⟩

/-- Only what is to be stopped is in flight. -/
def Apart (s : Solo) : Solo.Label → Prop
  | .call .stopReading _ => s.writeOp = none
  | .call .stopWriting _ => s.readOp = none
  | _ => True

/-- The condition on a step of an open connection: a pause stops what it is to stop, the
inbound stream is not disturbed otherwise, and a cancelled operation moves no bytes. -/
def PauseOk (s : Pausing) (l : Label) : Prop :=
  s.solo.conn.state ≠ .kDisconnected →
    match l with
    | .turn l => s.solo.InboundOk l ∧ Apart s.solo l
    | .endRead _ res _ => res ≤ 0
    | .endWrite _ res => res ≤ 0

/-- The condition on a step: turns meet `ok`, and a cancelled operation moves no bytes. -/
def Still (ok : Solo → Solo.Label → Prop) (s : Pausing) : Label → Prop
  | .turn l => ok s.solo l
  | .endRead _ res _ | .endWrite _ res => res ≤ 0

instance {ok : Solo → Solo.Label → Prop} [∀ s l, Decidable (ok s l)] (s : Pausing) :
    (l : Label) → Decidable (s.Still ok l)
  | .turn l => inferInstanceAs (Decidable (ok s.solo l))
  | .endRead _ res _ | .endWrite _ res => inferInstanceAs (Decidable (res ≤ 0))

/-! ## Refinement -/

variable {s s' : Pausing}

theorem step_turn {l : Solo.Label} (hs : s.step (.turn l) = some s') :
    s.solo.step l = some s'.solo := by
  rcases Option.map_eq_some_iff.mp hs with ⟨solo, hsolo, rfl⟩
  exact hsolo

theorem step_of_turn {l : Solo.Label} {solo : Solo} (hs : s.solo.step l = some solo) :
    s.step (.turn l) = some (s.turned solo) := by
  rw [step, hs]
  rfl

theorem step_endRead {i : ℕ} {res : ℤ} {data : List UInt8}
    (hs : s.step (.endRead i res data) = some s') :
    ∃ ctx, data.length = res.toNat ∧ s'.solo = endRead ctx data s.solo := by
  simp only [Pausing.step] at hs
  split at hs
  · cases hs
  · next ctx _ =>
    rw [Option.ite_none_right_eq_some, Option.some.injEq] at hs
    rcases hs with ⟨⟨-, hlen, -⟩, rfl⟩
    exact ⟨ctx, hlen, rfl⟩

theorem step_endWrite {i : ℕ} {res : ℤ} (hs : s.step (.endWrite i res) = some s') :
    ∃ bytes : List UInt8, s'.solo = endWrite (bytes.take res.toNat) s.solo := by
  simp only [Pausing.step] at hs
  split at hs
  · cases hs
  · next bytes _ =>
    rw [Option.ite_none_right_eq_some, Option.some.injEq] at hs
    rcases hs with ⟨-, rfl⟩
    exact ⟨bytes, rfl⟩

/-- A cancelled read that moved nothing leaves the connection as it was, -/
theorem endRead_unmoved {i : ℕ} {res : ℤ} {data : List UInt8}
    (hs : s.step (.endRead i res data) = some s') (hres : res ≤ 0) : s'.solo = s.solo := by
  rcases step_endRead hs with ⟨ctx, hlen, heq⟩
  have hnil : data = [] := List.eq_nil_of_length_eq_zero (by omega)
  rw [heq, endRead, if_pos hnil]

/-- and so does such a write. -/
theorem endWrite_unmoved {i : ℕ} {res : ℤ} (hs : s.step (.endWrite i res) = some s')
    (hres : res ≤ 0) : s'.solo = s.solo := by
  rcases step_endWrite hs with ⟨bytes, heq⟩
  rw [heq, endWrite, Int.toNat_of_nonpos hres, List.take_zero, List.append_nil]

/-- If no cancelled operation moves bytes, the connection makes a run of its own. -/
theorem solo_reachable {ok : Solo → Solo.Label → Prop} (h : machine.Reachable (Still ok) s) :
    Solo.machine.Reachable ok s.solo := by
  have hinit : ∀ s, machine.Init s → Solo.machine.Init s.solo := by
    rintro s ⟨solo, hsolo, rfl⟩
    exact hsolo
  refine h.project Pausing.solo hinit ?_
  intro s l s' hok hs
  cases l with
  | turn l => exact .inr ⟨l, hok, step_turn hs⟩
  | endRead i res data => exact .inl (endRead_unmoved hs hok)
  | endWrite i res => exact .inl (endWrite_unmoved hs hok)

/-- A closed connection stays closed. -/
theorem open_before {s s' : Solo} {l : Solo.Label} (hs : s.step l = some s')
    (hopen : s'.conn.state ≠ .kDisconnected) : s.conn.state ≠ .kDisconnected := by
  have hforward := Solo.step_forward hs
  intro hclosed
  rw [hclosed] at hforward
  revert hforward hopen
  cases s'.conn.state <;> simp [ConnectionState.rank]

theorem endRead_state (ctx : ReadContext) (data : List UInt8) (s : Solo) :
    (endRead ctx data s).conn.state = s.conn.state := by
  unfold endRead
  split
  · rfl
  · split <;> rfl

theorem endRead_frame (ctx : ReadContext) (data : List UInt8) (s : Solo) :
    (endRead ctx data s).trace = s.trace ∧ (endRead ctx data s).accepted = s.accepted := by
  unfold endRead
  split
  · exact ⟨rfl, rfl⟩
  · split <;> exact ⟨rfl, rfl⟩

theorem endRead_delivered (ctx : ReadContext) (data : List UInt8) (s : Solo) :
    (endRead ctx data s).delivered = s.delivered ++ data := by
  unfold endRead
  split
  · next hnil => rw [hnil, List.append_nil]
  · split <;> rfl

/-- The connection is closed, or in a state that it reaches by itself. -/
def Follows (s : Pausing) : Prop :=
  s.solo.conn.state ≠ .kDisconnected → Solo.machine.Reachable Solo.InboundOk s.solo

/-- An open connection does not notice the end of operations that moved nothing. -/
theorem Follows.step (h : s.Follows) {l : Label} (hok : s.PauseOk l) (hs : s.step l = some s') :
    s'.Follows := by
  intro hopen
  cases l with
  | turn l =>
    -- the condition speaks of open connections, and this one was open before
    have hbefore := open_before (step_turn hs) hopen
    exact .step l (h hbefore) (hok hbefore).1 (step_turn hs)
  | endRead i res data =>
    have hbefore : s.solo.conn.state ≠ .kDisconnected := by
      rcases step_endRead hs with ⟨ctx, -, heq⟩
      rw [heq, endRead_state] at hopen
      exact hopen
    rw [endRead_unmoved hs (hok hbefore)]
    exact h hbefore
  | endWrite i res =>
    have hbefore : s.solo.conn.state ≠ .kDisconnected := by
      rcases step_endWrite hs with ⟨bytes, heq⟩
      rw [heq] at hopen
      exact hopen
    rw [endWrite_unmoved hs (hok hbefore)]
    exact h hbefore

theorem follows (h : machine.Reachable PauseOk s) : s.Follows := by
  apply h.invariant
  · rintro s ⟨solo, hsolo, rfl⟩ -
    exact .init hsolo
  · intro s l s' _ hfollows hok hs
    exact hfollows.step hok hs

/-! ## Results -/

/-- Each of the three functions leaves nothing in flight. -/
theorem step_stop {s s' : Solo} (hops : s.OpsOk) {a : Act} (ha : a.isStop = true) {ans : ℕ}
    (hs : s.step (.call a ans) = some s') : s'.readOp = none ∧ s'.writeOp = none := by
  have hperform : s.perform (.call a ans) = .ok (s.take ans s.conn.stop) := by
    cases a with
    | stopReading | stopWriting | stopReadingWriting => rfl
    | _ => cases ha
  have hio : s.conn.stop.io = s.conn.io.cancels := Connecting.cancelPendingIo_out s.conn
  rw [Solo.step, hperform] at hs
  split at hs
  · cases hs
    constructor
    · show s.conn.stop.io.foldl _ _ = _
      rw [hio]
      exact Solo.read_cancelled hops.read
    · show s.conn.stop.io.foldl _ _ = _
      rw [hio]
      exact Solo.write_cancelled hops.write
  · cases hs

/-- **Pausing is transparent, if it stops only what it is to stop and cancelled operations move
nothing.** In every run whose steps meet `PauseOk`, as long as the connection is open: the
bytes that the kernel delivered are consumed or readable, in their order; what was sent is
accepted by the kernel or queued, each byte once; and `StopReading` leaves the write as it
was exactly if none is in flight, and so does `StopWriting` the read. -/
theorem pausing_transparent (h : machine.Reachable PauseOk s)
    (hopen : s.solo.conn.state ≠ .kDisconnected) :
    s.solo.consumed ++ s.solo.conn.inputBuffer.readable = s.solo.delivered ∧
    s.solo.line.Perm s.solo.sent ∧
    (∀ ans s', s.step (.turn (.call .stopReading ans)) = some s' →
      (s'.solo.writeOp = s.solo.writeOp ↔ s.solo.writeOp = none)) ∧
    ∀ ans s', s.step (.turn (.call .stopWriting ans)) = some s' →
      (s'.solo.readOp = s.solo.readOp ↔ s.solo.readOp = none) := by
  have hsolo := follows h hopen
  have hops := Solo.opsOk hsolo
  refine ⟨(Solo.inboundInv hsolo).stream, Solo.line_perm hsolo, ?_, ?_⟩
  · intro ans s' hs
    rcases Option.map_eq_some_iff.mp hs with ⟨solo, hstop, rfl⟩
    show solo.writeOp = _ ↔ _
    rw [(step_stop hops rfl hstop).2, eq_comm]
  · intro ans s' hs
    rcases Option.map_eq_some_iff.mp hs with ⟨solo, hstop, rfl⟩
    show solo.readOp = _ ↔ _
    rw [(step_stop hops rfl hstop).1, eq_comm]

instance (s : Solo) : (l : Solo.Label) → Decidable (Apart s l)
  | .call .stopReading _ => inferInstanceAs (Decidable (_ = _))
  | .call .stopWriting _ => inferInstanceAs (Decidable (_ = _))
  | .call .onEstablishing _ | .call (.send _) _ | .call .shutDownWrite _ | .call .forceClose _
  | .call .doClosing _ | .call .startReading _ | .call .startWriting _
  | .call .stopReadingWriting _ | .call (.consume _) _ | .ret _ | .readComplete _ _ _
  | .writeComplete _ _ => inferInstanceAs (Decidable True)

instance (s : Pausing) : (l : Label) → Decidable (s.PauseOk l)
  | .turn l => inferInstanceAs (Decidable (_ → s.solo.InboundOk l ∧ Apart s.solo l))
  | .endRead _ res _ => inferInstanceAs (Decidable (_ → res ≤ 0))
  | .endWrite _ res => inferInstanceAs (Decidable (_ → res ≤ 0))

theorem plain_init : machine.Init (start (.start Solo.plain)) := ⟨_, Solo.plain_init, rfl⟩

/-- Reading and then writing is paused and resumed; the cancelled operations end with
`ECANCELED` while the new ones are in flight. -/
theorem pausing_transparent_resumed :
    ∃ s, machine.Reachable PauseOk s ∧ s.cancelledReads = [] ∧ s.cancelledWrites = [] ∧
      s.solo.accepted = [1, 2] ∧ s.solo.line.Perm [1, 2] ∧
      s.solo.consumed ++ s.solo.conn.inputBuffer.readable = [8] := by
  rcases machine.exists_of_run PauseOk plain_init
    [.turn (.call .onEstablishing 0), .turn (.ret 1), .turn (.call .stopReading 0),
      .turn (.call (.send [1, 2]) 2), .turn (.call .stopWriting 0),
      .turn (.call .startReading 3), .turn (.call .startWriting 4), .endRead 0 (-125) [],
      .endWrite 0 (-125), .turn (.writeComplete 2 0), .turn (.readComplete 1 [8] 0)]
    (fun s => s.solo.conn.state ≠ .kDisconnected ∧ s.cancelledReads = [] ∧
      s.cancelledWrites = [] ∧ s.solo.accepted = [1, 2] ∧ s.solo.sent = [1, 2] ∧
      s.solo.delivered = [8])
    (by decide +kernel) with ⟨s, hs, hopen, hreads, hwrites, haccepted, hsent, hdelivered⟩
  rcases pausing_transparent hs hopen with ⟨hin, hout, -⟩
  exact ⟨s, hs, hreads, hwrites, haccepted, hsent ▸ hout, hdelivered ▸ hin⟩

/-- `StopReading` cancels the read and the write. Both have moved their bytes when they end:
7 is lost, and 1, 2 are written twice. -/
theorem pausing_loses_and_repeats :
    ∃ s, machine.Reachable (fun _ _ => True) s ∧ s.solo.conn.state = .kConnected ∧
      s.solo.fault = none ∧ s.solo.delivered = [7, 8] ∧
      s.solo.consumed ++ s.solo.conn.inputBuffer.readable = [8] ∧
      s.solo.sent = [1, 2] ∧ s.solo.accepted = [1, 2, 1, 2] := by
  apply machine.exists_of_run _ plain_init
    [.turn (.call .onEstablishing 0), .turn (.ret 1), .turn (.call (.send [1, 2]) 2),
      .turn (.call .stopReading 0), .turn (.call .startReading 3),
      .turn (.call .startWriting 4), .endRead 0 1 [7], .endWrite 0 2, .turn (.writeComplete 2 0),
      .turn (.readComplete 1 [8] 0)]
  decide +kernel

end Pausing

end Taotu
