import Taotu.Lib.Machine
import Taotu.Connection.Connecting

/-!
# Taotu.Connection.Solo — one connection and the kernel

The machine of a single connection: the user calls it, at the top level or
from inside a callback to any depth, and the kernel completes the read and the
write that are in flight, in any order and with any result it is allowed to
give. `stack` holds the handlers that are suspended in a callback, innermost
first; completions arrive only when no handler is running.

**The kernel.** A completed read has filled the vectors of its context in
order; a completed write has taken the first `res` bytes of its vector out of
the memory of the output buffer. An operation that was cancelled never reaches
the connection.

**Ghosts.** `delivered` and `accepted` are the bytes the kernel has delivered
and accepted, `consumed` those the message callback took out of the input
buffer, `sent` the messages of the `Send` calls in state `kConnected`, in call
order. `trace` records the calls to the collaborators, `fault` that a step did
not return normally; nothing happens after a fault.

At the end: the invariants that hold in every run, whatever the user does.
-/

namespace Taotu

open Lib

/-- A recorded call to a collaborator, with the ghosts at that moment. -/
structure Event where
  conn : Connecting
  out : Output
  sent : List UInt8
  accepted : List UInt8
deriving DecidableEq, Repr

structure Solo where
  conn : Connecting
  stack : List Frame
  readOp : Option (ℕ × ReadContext)
  writeOp : Option (ℕ × WriteContext)
  delivered : List UInt8
  consumed : List UInt8
  sent : List UInt8
  accepted : List UInt8
  trace : List Event
  fault : Option Fault
deriving DecidableEq, Repr

namespace Solo

/-- What happens next: a call, the return of the innermost callback, or a
completion. `ans` is the answer of the poller if something is submitted. -/
inductive Label where
  | call (a : Act) (ans : ℕ)
  | ret (ans : ℕ)
  | readComplete (res : ℤ) (data : List UInt8) (ans : ℕ)
  | writeComplete (res : ℤ) (ans : ℕ)
deriving DecidableEq, Repr

/-! ## Model layer -/

/-- The kernel spreads `data` over the vectors of a read, in order. -/
def fill : List Iovec → List UInt8 → IoBuffer → List UInt8 → Except Fault (IoBuffer × List UInt8)
  | [], _, b, extra => .ok (b, extra)
  | ⟨.inputBuffer off, len⟩ :: vs, data, b, extra => do
    let b ← b.store off (data.take len)
    fill vs (data.drop len) b extra
  | ⟨.extraBuffer, len⟩ :: vs, data, b, _ => fill vs (data.drop len) b (data.take len)

/-- The read in flight after a call to the poller. -/
def readOpAfter (ans : ℕ) (op : Option (ℕ × ReadContext)) : Output → Option (ℕ × ReadContext)
  | .submitRead ctx => if ans = 0 then op else some (ans, ctx)
  | .cancelOp key => op.filter fun o => o.1 ≠ key
  | _ => op

/-- The write in flight after a call to the poller. -/
def writeOpAfter (ans : ℕ) (op : Option (ℕ × WriteContext)) : Output → Option (ℕ × WriteContext)
  | .submitWrite ctx => if ans = 0 then op else some (ans, ctx)
  | .cancelOp key => op.filter fun o => o.1 ≠ key
  | _ => op

/-- A turn of the connection takes effect. -/
def take (s : Solo) (ans : ℕ) (t : Turn) : Solo :=
  { s with
    conn := t.conn
    stack := t.frame.toList ++ s.stack
    readOp := t.io.foldl (readOpAfter ans) s.readOp
    writeOp := t.io.foldl (writeOpAfter ans) s.writeOp
    trace := s.trace ++ t.out.map fun o => ⟨o.1, o.2, s.sent, s.accepted⟩ }

/-- The ghosts move with the calls that are counted. -/
def note (s : Solo) : Act → Solo
  | .send message => if s.conn.state = .kConnected then { s with sent := s.sent ++ message } else s
  | .consume len => { s with consumed := s.consumed ++ s.conn.inputBuffer.readable.take len }
  | _ => s

/-- What a caller owes: a message exists in memory, only the message callback
consumes input and no more than there is, a connection is established by the
event loop. -/
def Allowed (s : Solo) : Act → Prop
  | .onEstablishing => s.stack = []
  | .send message => message.length ≤ maxSize
  | .consume len => .readRest false ∈ s.stack ∧ len ≤ s.conn.inputBuffer.getReadableBytes
  | _ => True

/-- A read completes with a result the kernel may give. -/
def ReadAllowed (s : Solo) (res : ℤ) (data : List UInt8) : Prop :=
  match s.readOp with
  | some (_, ctx) => data.length = res.toNat ∧ data.length ≤ (ctx.iov.map Iovec.len).sum
  | none => False

/-- A write completes with a result the kernel may give. -/
def WriteAllowed (s : Solo) (res : ℤ) : Prop :=
  match s.writeOp with
  | some (_, ctx) => res.toNat ≤ ctx.toSend
  | none => False

def Enabled (s : Solo) : Label → Prop
  | .call a _ => s.Allowed a
  | .ret _ => s.stack ≠ []
  | .readComplete res data _ => s.stack = [] ∧ s.ReadAllowed res data
  | .writeComplete res _ => s.stack = [] ∧ s.WriteAllowed res

/-- The effect of an enabled label. -/
def perform (s : Solo) : Label → Except Fault Solo
  | .call a ans => do
    let t ← s.conn.exec ans a
    return (s.note a).take ans t
  | .ret ans =>
    match s.stack with
    | [] => .ok s
    | f :: rest => do
      let t ← s.conn.resume ans f
      return { s with stack := rest }.take ans t
  | .readComplete res data ans =>
    match s.readOp with
    | none => .ok s
    | some (_, ctx) => do
      let m ← fill ctx.iov data s.conn.inputBuffer []
      let t ← Connecting.onReadComplete ⟨res, false⟩ { ctx with extraBuffer := m.2 } ans
        { s.conn with inputBuffer := m.1 }
      return { s with readOp := none, delivered := s.delivered ++ data }.take ans t
  | .writeComplete res ans =>
    match s.writeOp with
    | none => .ok s
    | some (_, ctx) => do
      let data ← s.conn.outputBuffer.load ctx.iovBase res.toNat
      return { s with writeOp := none, accepted := s.accepted ++ data }.take ans
        (s.conn.onWriteComplete ⟨res, false⟩ ans)

instance (s : Solo) : (a : Act) → Decidable (s.Allowed a)
  | .onEstablishing => inferInstanceAs (Decidable (_ = _))
  | .send _ => inferInstanceAs (Decidable ((_ : ℕ) ≤ _))
  | .consume _ => inferInstanceAs (Decidable (_ ∈ _ ∧ (_ : ℕ) ≤ _))
  | .shutDownWrite | .forceClose | .doClosing | .startReading | .stopReading | .startWriting
  | .stopWriting | .stopReadingWriting => inferInstanceAs (Decidable True)

instance (s : Solo) (res : ℤ) (data : List UInt8) : Decidable (s.ReadAllowed res data) :=
  match h : s.readOp with
  | some (_, ctx) => decidable_of_iff
      (data.length = res.toNat ∧ data.length ≤ (ctx.iov.map Iovec.len).sum)
      (by simp [ReadAllowed, h])
  | none => isFalse (by simp [ReadAllowed, h])

instance (s : Solo) (res : ℤ) : Decidable (s.WriteAllowed res) :=
  match h : s.writeOp with
  | some (_, ctx) => decidable_of_iff (res.toNat ≤ ctx.toSend) (by simp [WriteAllowed, h])
  | none => isFalse (by simp [WriteAllowed, h])

instance (s : Solo) : (l : Label) → Decidable (s.Enabled l)
  | .call a _ => inferInstanceAs (Decidable (s.Allowed a))
  | .ret _ => inferInstanceAs (Decidable (_ ≠ _))
  | .readComplete res data _ => inferInstanceAs (Decidable (_ ∧ s.ReadAllowed res data))
  | .writeComplete res _ => inferInstanceAs (Decidable (_ ∧ s.WriteAllowed res))

/-- One step; a fault is recorded and ends the run. -/
def step (s : Solo) (l : Label) : Option Solo :=
  if s.fault = none ∧ s.Enabled l then
    match s.perform l with
    | .ok s' => some s'
    | .error e => some { s with fault := some e }
  else none

/-- A connection that has just been constructed. -/
def start (c : Connecting) : Solo :=
  ⟨c, [], none, none, [], [], [], [], [], none⟩

/-- Any connection, with any callbacks registered. -/
def Init (s : Solo) : Prop :=
  ∃ addr fd onConnection onMessage writeComplete highWaterMark close c,
    Connecting.new addr fd onConnection onMessage writeComplete highWaterMark close = .ok c ∧
      s = start c

def machine : Machine Solo Label := ⟨Init, step⟩

/-! ## What a step can do -/

variable {s s' : Solo} {l : Label} {ans : ℕ} {t : Turn}

/-- The steps that return normally. -/
inductive Performed (s : Solo) : Label → Solo → Prop where
  | call (a : Act) (ans : ℕ) (t : Turn) (hallowed : s.Allowed a) (ht : s.conn.exec ans a = .ok t) :
      Performed s (.call a ans) ((s.note a).take ans t)
  | ret (ans : ℕ) (f : Frame) (rest : List Frame) (t : Turn) (hstack : s.stack = f :: rest)
      (ht : s.conn.resume ans f = .ok t) :
      Performed s (.ret ans) ({ s with stack := rest }.take ans t)
  | readComplete (res : ℤ) (data : List UInt8) (ans key : ℕ) (ctx : ReadContext) (b : IoBuffer)
      (extra : List UInt8) (t : Turn) (hstack : s.stack = []) (hop : s.readOp = some (key, ctx))
      (hlen : data.length = res.toNat) (hle : data.length ≤ (ctx.iov.map Iovec.len).sum)
      (hfill : fill ctx.iov data s.conn.inputBuffer [] = .ok (b, extra))
      (ht : Connecting.onReadComplete ⟨res, false⟩ { ctx with extraBuffer := extra } ans
        { s.conn with inputBuffer := b } = .ok t) :
      Performed s (.readComplete res data ans)
        ({ s with readOp := none, delivered := s.delivered ++ data }.take ans t)
  | writeComplete (res : ℤ) (ans key : ℕ) (ctx : WriteContext) (data : List UInt8)
      (hstack : s.stack = []) (hop : s.writeOp = some (key, ctx)) (hle : res.toNat ≤ ctx.toSend)
      (hdata : s.conn.outputBuffer.load ctx.iovBase res.toNat = .ok data) :
      Performed s (.writeComplete res ans)
        ({ s with writeOp := none, accepted := s.accepted ++ data }.take ans
          (s.conn.onWriteComplete ⟨res, false⟩ ans))

theorem perform_ok (hen : s.Enabled l) (h : s.perform l = .ok s') : s.Performed l s' := by
  cases l with
  | call a ans =>
    obtain ⟨t, ht, hs⟩ := bind_eq_ok h
    exact Except.ok.inj hs ▸ .call a ans t hen ht
  | ret ans =>
    rw [perform] at h
    split at h
    · next hstack => exact absurd hstack hen
    · next f rest hstack =>
      obtain ⟨t, ht, hs⟩ := bind_eq_ok h
      exact Except.ok.inj hs ▸ .ret ans f rest t hstack ht
  | readComplete res data ans =>
    obtain ⟨hstack, hall⟩ := hen
    rw [ReadAllowed] at hall
    rw [perform] at h
    split at h
    · next hop => simp [hop] at hall
    · next key ctx hop =>
      simp only [hop] at hall
      obtain ⟨⟨b, extra⟩, hfill, h⟩ := bind_eq_ok h
      obtain ⟨t, ht, hs⟩ := bind_eq_ok h
      exact Except.ok.inj hs ▸
        .readComplete res data ans key ctx b extra t hstack hop hall.1 hall.2 hfill ht
  | writeComplete res ans =>
    obtain ⟨hstack, hall⟩ := hen
    rw [WriteAllowed] at hall
    rw [perform] at h
    split at h
    · next hop => simp [hop] at hall
    · next key ctx hop =>
      simp only [hop] at hall
      obtain ⟨data, hdata, hs⟩ := bind_eq_ok h
      exact Except.ok.inj hs ▸ .writeComplete res ans key ctx data hstack hop hall hdata

/-- A step returns or records a fault. -/
theorem step_cases (h : s.step l = some s') :
    s.Performed l s' ∨ ∃ e, s' = { s with fault := some e } := by
  rw [step] at h
  split at h
  · next hen =>
    split at h
    · next s₁ hp =>
      cases h
      exact .inl (perform_ok hen.2 hp)
    · next e hp =>
      cases h
      exact .inr ⟨e, rfl⟩
  · cases h

/-- Inductive invariance for this machine: a step that returns keeps the
invariant, and a fault changes nothing the invariant may depend on. -/
theorem invariant {ok : Solo → Label → Prop} (Inv : Solo → Prop) (hinit : ∀ s, Init s → Inv s)
    (hfault : ∀ s e, Inv s → Inv { s with fault := some e })
    (hstep : ∀ s l s', machine.Reachable ok s → machine.Reachable ok s' → Inv s → ok s l →
      s.Performed l s' → Inv s')
    {s : Solo} (h : machine.Reachable ok s) : Inv s := by
  refine h.invariant hinit ?_
  intro s l s' hreach hinv hok hs
  have hreach' := hreach.step l hok hs
  rcases step_cases hs with hp | ⟨e, rfl⟩
  · exact hstep s l s' hreach hreach' hinv hok hp
  · exact hfault s e hinv

/-! ## Suspended handlers

Completions and the establishing start only at the top level, so their frames
are at the bottom of the stack. -/

/-- The frames of handlers that may start inside a callback. -/
def Nested : Frame → Prop
  | .sendRest _ | .closeRest | .closeEnd => True
  | _ => False

/-- The frames of a closing. -/
def Closing (f : Frame) : Prop := f = .closeRest ∨ f = .closeEnd

theorem Closing.nested {f : Frame} (h : Closing f) : Nested f := by
  rcases h with rfl | rfl <;> trivial

/-- Only the outermost handler is not nested. -/
def StackOk (s : Solo) : Prop := ∀ f ∈ s.stack.dropLast, Nested f

theorem doClosing_frame {c : Connecting} : ∀ f ∈ c.doClosing.frame, Closing f := by
  simp only [Connecting.doClosing, Connecting.closeRest, Connecting.closeEnd, Connecting.callback,
    Turn.after]
  split_ifs <;> simp [Closing]

theorem submitReadOnce_frame {c : Connecting} : (c.submitReadOnce ans).frame = none := by
  simp only [Connecting.submitReadOnce]
  split_ifs <;> rfl

theorem submitWriteOnce_frame {c : Connecting} : (c.submitWriteOnce ans).frame = none := by
  simp only [Connecting.submitWriteOnce]
  split_ifs <;> rfl

theorem sendRest_frame {c : Connecting} {message : List UInt8}
    (h : c.sendRest message ans = .ok t) : t.frame = none := by
  rcases Connecting.sendRest_cases h with ⟨-, pending, -, rfl⟩ | ⟨-, output, -, rfl⟩
  · rfl
  · exact submitWriteOnce_frame

/-- The frames a call is suspended in. -/
theorem exec_frame {c : Connecting} {a : Act} (h : c.exec ans a = .ok t) :
    ∀ f ∈ t.frame, Closing f ∨ (∃ message, a = .send message ∧ f = .sendRest message) ∨
      (a = .onEstablishing ∧ f = .establishRest) := by
  cases a <;> simp only [Connecting.exec, Except.ok.injEq] at h
  case onEstablishing =>
    simp only [Connecting.onEstablishing] at h
    split_ifs at h <;> cases h <;> simp
  case send message =>
    rcases Connecting.send_cases h with ⟨-, rfl⟩ | ⟨-, cb, rfl⟩ | ⟨-, -, h⟩
    · simp
    · simp
    · simp [sendRest_frame h]
  case shutDownWrite =>
    subst h
    simp only [Connecting.shutDownWrite]
    split_ifs <;> simp
  case forceClose =>
    subst h
    rw [Connecting.forceClose]
    split
    · simp
    · exact fun f hf => .inl (doClosing_frame f hf)
  case doClosing => exact h ▸ fun f hf => .inl (doClosing_frame f hf)
  case startReading => simp [← h, submitReadOnce_frame]
  case startWriting => simp [← h, submitWriteOnce_frame]
  all_goals simp [← h, Connecting.stop]

/-- A resumed handler is suspended again only in the second callback of a closing. -/
theorem resume_frame {c : Connecting} {f : Frame} (h : c.resume ans f = .ok t) :
    ∀ f' ∈ t.frame, Closing f' := by
  cases f <;> simp only [Connecting.resume, Except.ok.injEq] at h
  case sendRest message => simp [sendRest_frame h]
  case readRest more =>
    subst h
    rw [Connecting.readRest]
    split
    · simp
    · simp [submitReadOnce_frame]
  case writeRest =>
    subst h
    rw [Connecting.writeRest]
    split <;> simp
  case closeRest =>
    subst h
    rw [Connecting.closeRest, Connecting.callback]
    split <;> simp [Closing, Connecting.closeEnd]
  case closeEnd => simp [← h, Connecting.closeEnd]
  case establishRest => simp [← h, submitReadOnce_frame]

theorem onReadComplete_frame {c : Connecting} {res : ℤ} {ctx : ReadContext}
    (h : c.onReadComplete ⟨res, false⟩ ctx ans = .ok t) :
    ∀ f ∈ t.frame, Closing f ∨ f = .readRest false := by
  rcases Connecting.onReadComplete_cases h with ⟨-, input, -, rfl⟩ | ⟨-, rfl⟩ | ⟨-, rfl⟩ | ⟨-, rfl⟩
  · rw [Connecting.callback]
    split
    · simp
    · simp [submitReadOnce_frame]
  · exact fun f hf => .inl (doClosing_frame f hf)
  · simp [submitReadOnce_frame]
  · simp

theorem onWriteComplete_frame {c : Connecting} {cqe : Cqe} :
    ∀ f ∈ (c.onWriteComplete cqe ans).frame, f = .writeRest := by
  simp only [Connecting.onWriteComplete, Connecting.writtenRest, Connecting.callback,
    Connecting.writeRest]
  split_ifs <;> simp [submitWriteOnce_frame]

theorem stackOk_take {s : Solo} (hs : s.StackOk) (hf : s.stack ≠ [] → ∀ f ∈ t.frame, Nested f) :
    (s.take ans t).StackOk := by
  rw [StackOk, take]
  by_cases hne : s.stack = []
  · cases t.frame <;> simp [hne]
  · cases hfr : t.frame with
    | none =>
      simp only [Option.toList_none, List.nil_append]
      exact hs
    | some f =>
      simp only [Option.toList_some, List.singleton_append, List.dropLast_cons_of_ne_nil hne]
      rintro f' (_ | ⟨_, hf'⟩)
      · exact hf hne f (by simp [hfr])
      · exact hs f' hf'

theorem StackOk.tail {s : Solo} (hs : s.StackOk) {f : Frame} {rest : List Frame}
    (h : s.stack = f :: rest) : ({ s with stack := rest } : Solo).StackOk := by
  rw [StackOk, h] at hs
  cases rest with
  | nil => simp [StackOk]
  | cons g rest =>
    exact fun f' hf' => hs f' (by rw [List.dropLast_cons_cons]; exact List.mem_cons_of_mem _ hf')

/-- A handler that cannot be nested is alone on the stack. -/
theorem StackOk.alone {s : Solo} (hs : s.StackOk) {f : Frame} {rest : List Frame}
    (h : s.stack = f :: rest) (hf : ¬ Nested f) : rest = [] := by
  rw [StackOk, h] at hs
  by_contra hne
  exact hf (hs f (by rw [List.dropLast_cons_of_ne_nil hne]; exact List.mem_cons_self))

theorem note_stack (s : Solo) (a : Act) : (s.note a).stack = s.stack := by
  cases a <;> simp only [note]
  split <;> rfl

theorem stackOk {ok : Solo → Label → Prop} (h : machine.Reachable ok s) : s.StackOk := by
  refine invariant StackOk ?_ (fun s e hs => hs) ?_ h
  · rintro s ⟨addr, fd, b₁, b₂, b₃, hwm, b₄, c, -, rfl⟩
    simp [StackOk, start]
  · intro s l s' _ _ hs _ hp
    cases hp with
    | call a ans t hallowed ht =>
      refine stackOk_take (by rw [StackOk, note_stack]; exact hs) fun hne f hf => ?_
      rcases exec_frame ht f hf with h | ⟨message, -, rfl⟩ | ⟨rfl, -⟩
      · exact h.nested
      · trivial
      · exact absurd (note_stack s .onEstablishing ▸ hallowed) hne
    | ret ans f rest t hstack ht =>
      exact stackOk_take (hs.tail hstack) fun _ f' hf' => (resume_frame ht f' hf').nested
    | readComplete res data ans key ctx b extra t hstack =>
      exact stackOk_take hs fun hne => absurd hstack hne
    | writeComplete res ans key ctx data hstack =>
      exact stackOk_take hs fun hne => absurd hstack hne

theorem note_trace (s : Solo) (a : Act) : (s.note a).trace = s.trace := by
  cases a <;> simp only [note]
  split <;> rfl

/-- The events a turn adds. -/
theorem mem_trace_take {e : Event} (h : e ∈ (s.take ans t).trace) :
    e ∈ s.trace ∨ ((e.conn, e.out) ∈ t.out ∧ e.sent = s.sent ∧ e.accepted = s.accepted) := by
  rcases List.mem_append.mp h with h | h
  · exact .inl h
  · obtain ⟨o, ho, rfl⟩ := List.mem_map.mp h
    exact .inr ⟨ho, rfl, rfl⟩

/-! ## Operations in flight

The flags of the connection say what is in flight, and its keys are the keys
of the operations, in every run. -/

/-- An operation is in flight exactly if the flag is set, under the nonzero key. -/
def Match {α : Type} (op : Option (ℕ × α)) (flag : Bool) (key : ℕ) : Prop :=
  op.map Prod.fst = (if flag then some key else none) ∧ (flag = true → key ≠ 0)

structure OpsOk (s : Solo) : Prop where
  read : Match s.readOp s.conn.readInFlight s.conn.readCancelKey
  write : Match s.writeOp s.conn.writeInFlight s.conn.writeCancelKey

theorem Match.none_of {α : Type} {op : Option (ℕ × α)} {key : ℕ} (h : Match op false key) :
    op = none := by
  simpa [Match] using h

theorem Match.isSome {α : Type} {op : Option (ℕ × α)} {key : ℕ} (h : Match op true key) :
    op.isSome := by
  rw [← Option.isSome_map, h.1]
  rfl

theorem Match.idle {α : Type} (key : ℕ) : Match (none : Option (ℕ × α)) false key := by
  simp [Match]

theorem Match.submitted {α : Type} {op : Option (ℕ × α)} {key : ℕ} (ctx : α)
    (h : Match op false key) :
    Match (if ans = 0 then op else some (ans, ctx)) (decide (ans ≠ 0)) ans := by
  rw [h.none_of]
  by_cases hans : ans = 0 <;> simp [Match, hans]

theorem Match.some_of {α : Type} {flag : Bool} {key k : ℕ} {ctx : α}
    (h : Match (some (k, ctx)) flag key) : flag = true ∧ k = key ∧ key ≠ 0 := by
  cases flag <;> simp_all [Match]

/-- Cancelling what is in flight leaves no read, -/
theorem read_cancelled {v : Connecting.IoView} {op : Option (ℕ × ReadContext)}
    (h : Match op v.readInFlight v.readCancelKey) :
    v.cancels.foldl (readOpAfter ans) op = none := by
  cases op with
  | none =>
    rw [Connecting.IoView.cancels]
    split_ifs <;> rfl
  | some o =>
    obtain ⟨hflag, hkey, hne⟩ := h.some_of
    rw [Connecting.IoView.cancels, if_pos ⟨hflag, hne⟩]
    split_ifs <;> simp [readOpAfter, hkey]

/-- and no write. -/
theorem write_cancelled {v : Connecting.IoView} {op : Option (ℕ × WriteContext)}
    (h : Match op v.writeInFlight v.writeCancelKey) :
    v.cancels.foldl (writeOpAfter ans) op = none := by
  cases op with
  | none =>
    rw [Connecting.IoView.cancels]
    split_ifs <;> rfl
  | some o =>
    obtain ⟨hflag, hkey, hne⟩ := h.some_of
    rw [Connecting.IoView.cancels, if_pos (c := v.writeInFlight ∧ _) ⟨hflag, hne⟩]
    split_ifs <;> simp [writeOpAfter, hkey, Option.filter_filter]

/-- A move keeps flags and operations in step. -/
theorem opsOk_take {v : Connecting.IoView} {st : ConnectionState}
    (hmove : Connecting.IoMove ans v st t)
    (hr : Match s.readOp v.readInFlight v.readCancelKey)
    (hw : Match s.writeOp v.writeInFlight v.writeCancelKey) : (s.take ans t).OpsOk := by
  have hview : ∀ v', t.conn.io = v' →
      Match (t.io.foldl (readOpAfter ans) s.readOp) v'.readInFlight v'.readCancelKey →
      Match (t.io.foldl (writeOpAfter ans) s.writeOp) v'.writeInFlight v'.writeCancelKey →
      (s.take ans t).OpsOk := fun v' hv h₁ h₂ => by subst hv; exact ⟨h₁, h₂⟩
  cases hmove with
  | quiet out io =>
    refine hview _ io ?_ ?_ <;> rw [out]
    · exact hr
    · exact hw
  | submitRead c₁ free out _ _ io =>
    have hio := Turn.io_single out rfl
    refine hview _ io ?_ ?_ <;> rw [hio]
    · rw [free] at hr
      exact hr.submitted _
    · exact hw
  | submitWrite c₁ free _ out _ _ io =>
    have hio := Turn.io_single out rfl
    refine hview _ io ?_ ?_ <;> rw [hio]
    · exact hr
    · rw [free] at hw
      exact hw.submitted _
  | cancel out io =>
    refine hview _ io ?_ ?_ <;> rw [out]
    · rw [read_cancelled hr]
      exact .idle _
    · rw [write_cancelled hw]
      exact .idle _

theorem note_conn (s : Solo) (a : Act) : (s.note a).conn = s.conn := by
  cases a <;> simp only [note]
  split <;> rfl

theorem OpsOk.note (hs : s.OpsOk) (a : Act) : (s.note a).OpsOk := by
  cases a <;> simp only [Solo.note]
  case send => split <;> exact ⟨hs.read, hs.write⟩
  all_goals exact ⟨hs.read, hs.write⟩

theorem opsOk_init (h : Init s) : s.OpsOk := by
  obtain ⟨addr, fd, b₁, b₂, b₃, hwm, b₄, c, hc, rfl⟩ := h
  obtain ⟨b, -, -, -, -, -, hr, hw⟩ := Connecting.new_ok hc
  refine ⟨?_, ?_⟩
  · rw [show (start c).conn.readInFlight = false from hr]
    exact .idle _
  · rw [show (start c).conn.writeInFlight = false from hw]
    exact .idle _

theorem opsOk_step (hs : s.OpsOk) (hp : s.Performed l s') : s'.OpsOk := by
  cases hp with
  | call a ans t _ ht =>
    have hn := hs.note a
    rw [← note_conn s a] at ht
    exact opsOk_take (Connecting.exec_ioMove ht) hn.read hn.write
  | ret ans f rest t _ ht => exact opsOk_take (Connecting.resume_ioMove ht) hs.read hs.write
  | readComplete res data ans key ctx b extra t _ _ _ _ _ ht =>
    exact opsOk_take (Connecting.onReadComplete_ioMove ht) (.idle _) hs.write
  | writeComplete res ans key ctx data =>
    exact opsOk_take Connecting.onWriteComplete_ioMove hs.read (.idle _)

theorem opsOk {ok : Solo → Label → Prop} (h : machine.Reachable ok s) : s.OpsOk :=
  invariant OpsOk (fun _ h0 => opsOk_init h0) (fun _ _ hs => ⟨hs.read, hs.write⟩)
    (fun _ _ _ _ _ hs _ hp => opsOk_step hs hp) h

/-! ## A connection to run -/

/-- A new connection with a connection and a message callback. -/
def plain : Connecting :=
  { addr := 1
    fd := 7
    outEvents := 0
    onConnectionCallback := true
    onMessageCallback := true
    writeCompleteCallback := false
    highWaterMark := none
    closeCallback := false
    inputBuffer := ⟨List.replicate 1032 0, 8, 8⟩
    outputBuffer := ⟨List.replicate 1032 0, 8, 8⟩
    pendingOutputBuffer := ⟨List.replicate 1032 0, 8, 8⟩
    state := .kConnecting
    readInFlight := false
    writeInFlight := false
    readCancelKey := 0
    writeCancelKey := 0
    pendingIoWaitMs := 0
    pendingIoRetries := 0 }

theorem plain_init : machine.Init (start plain) :=
  ⟨1, 7, true, true, false, none, false, plain, by decide +kernel, rfl⟩

end Solo

end Taotu
