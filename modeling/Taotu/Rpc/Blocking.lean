import Taotu.Lib.Loop
import Taotu.Rpc.SyncChannel

/-!
# Taotu.Rpc.Blocking — the loops around `recv` and `send` (`io_buffer.cc`, `rpc_codec.cc`)

`IoBuffer::ReadFromFd` reads a given number of bytes, the synchronous
`RpcCodec::Send` writes a frame. Both count down a `size_t` by whatever the
system call returns, `-1` included.

1. **Receiving.** `Receiving` is the loop of `ReadFromFd`; `read_accounts_iff`
   says for which buffers, lengths and answers of `recv` it does what it is for.
2. **Sending.** `Sending` is the loop of `Send`; `send_once_iff` says the same of
   the answers of `send`.

An answer of the kernel offers bytes, or room for bytes, and the call takes as
many as it asks for, so that every sequence of answers is a possible one.

**Ghosts.** `received` and `accepted` are the bytes that have passed the socket.
-/

namespace Taotu

open Lib

namespace IoBuffer

/-! ## Receiving -/

/-- What a call of `recv` meets. -/
inductive Recv where
  | bytes (first : UInt8) (rest : List UInt8)
  | endOfStream
  | error (errno : ℕ)
deriving DecidableEq, Repr

namespace Recv

def data : Recv → List UInt8
  | bytes first rest => first :: rest
  | endOfStream | error _ => []

/-- What `recv` returns when it is asked for `len` bytes. -/
def result (len : ℕ) : Recv → ℤ
  | error _ => -1
  | r => (r.data.take len).length

def Positive (r : Recv) : Prop := r.data ≠ []

instance (r : Recv) : Decidable r.Positive := inferInstanceAs (Decidable (¬ _))

end Recv

/-- The loop of `ReadFromFd`. -/
structure Receiving where
  io : IoBuffer
  readLen : ℕ
  tmpErrno : ℕ
  res : ℤ
  received : List UInt8
deriving DecidableEq, Repr

namespace Receiving

def turn (s : Receiving) (r : Recv) : Except Fault Receiving := do
  let bytesRead := r.result s.readLen
  let io ← s.io.store s.io.writingIndex (r.data.take s.readLen)
  return {
    io := { io with writingIndex := toSize ((io.writingIndex : ℤ) + bytesRead) }
    readLen := toSize ((s.readLen : ℤ) - bytesRead)
    tmpErrno := s.tmpErrno
    res := s.res + bytesRead
    received := s.received ++ r.data.take s.readLen }

def loop : Loop Receiving Recv Fault := ⟨fun s => 0 < s.readLen, turn⟩

instance : DecidablePred loop.going := fun s => inferInstanceAs (Decidable (0 < s.readLen))

/-- `ReadFromFd` when there is room. -/
def start (io : IoBuffer) (readLen tmpErrno : ℕ) : Receiving := ⟨io, readLen, tmpErrno, 0, []⟩

end Receiving

/-! ## When `ReadFromFd` accounts for what it received -/

/-- The bytes offered by the first `n` answers. -/
def offeredBytes (answers : ℕ → Recv) : ℕ → ℕ
  | 0 => 0
  | n + 1 => offeredBytes answers n + (answers n).data.length

namespace Receiving

/-- A call with the answer `r` between `t` and `t'`. -/
structure CallRight (r : Recv) (t t' : Receiving) : Prop where
  asks : t.readLen ≤ t.io.buffer.length - t.io.writingIndex
  index : t.io.writingIndex ≤ t'.io.writingIndex
  last : ¬ r.Positive → t'.readLen = 0
  errno : ∀ e, r = .error e → t'.tmpErrno = e

/-- What the loop keeps as long as bytes arrive. -/
structure Filling (b : IoBuffer) (readLen : ℕ) (answers : ℕ → Recv) (n : ℕ) (t : Receiving) :
    Prop where
  wf : t.io.Wf
  readable : t.io.readable = b.readable ++ t.received
  room : t.io.writingIndex + t.readLen ≤ t.io.buffer.length
  left : t.readLen = readLen - offeredBytes answers n
  offered : n ≤ offeredBytes answers n

variable {b : IoBuffer} {readLen : ℕ} {answers : ℕ → Recv} {n : ℕ} {t t' : Receiving} {r : Recv}

theorem result_of_positive (hr : r.Positive) (len : ℕ) :
    r.result len = ((r.data.take len).length : ℤ) := by
  cases r with
  | bytes first rest => rfl
  | endOfStream => rfl
  | error e => exact absurd rfl hr

/-- A call that delivers bytes leaves that much less to read. -/
theorem turn_readLen (hr : r.Positive) (hlen : t.readLen < sizeRange) (h : t.turn r = .ok t') :
    t'.readLen = t.readLen - r.data.length := by
  rcases bind_eq_ok h with ⟨io, -, hio⟩
  cases hio
  show toSize ((t.readLen : ℤ) - r.result t.readLen) = _
  rw [result_of_positive hr, List.length_take, ← Int.ofNat_sub (Nat.min_le_left _ _),
    toSize_natCast (by omega)]
  omega

/-- A call that delivers bytes, where there is room. -/
theorem turn_bytes (hwf : t.io.Wf) (hroom : t.io.writingIndex + t.readLen ≤ t.io.buffer.length)
    (hr : r.Positive) :
    ∃ t', t.turn r = .ok t' ∧ t'.io.Wf ∧
      t'.io.readable = t.io.readable ++ r.data.take t.readLen ∧
      t'.received = t.received ++ r.data.take t.readLen ∧
      t'.io.writingIndex = t.io.writingIndex + min t.readLen r.data.length ∧
      t'.io.buffer.length = t.io.buffer.length := by
  have hsize := hwf.size_le
  have hmax := maxSize_lt
  have hlen : (r.data.take t.readLen).length = min t.readLen r.data.length := List.length_take
  have hfit : t.io.writingIndex + (r.data.take t.readLen).length ≤ t.io.buffer.length := by omega
  rcases hwf.extend hfit with ⟨hwf', hread⟩
  have hindex : toSize ((t.io.writingIndex : ℤ) + ((r.data.take t.readLen).length : ℤ)) =
      t.io.writingIndex + (r.data.take t.readLen).length := by
    rw [← Int.natCast_add]
    exact toSize_natCast (by omega)
  have hturn : t.turn r = .ok ⟨⟨blit t.io.buffer t.io.writingIndex (r.data.take t.readLen),
      t.io.readingIndex, t.io.writingIndex + (r.data.take t.readLen).length⟩,
      toSize ((t.readLen : ℤ) - ((r.data.take t.readLen).length : ℤ)), t.tmpErrno,
      t.res + (r.data.take t.readLen).length, t.received ++ r.data.take t.readLen⟩ := by
    rw [turn, result_of_positive hr, store_ok hfit, ok_bind]
    simp only [hindex]
    rfl
  exact ⟨_, hturn, hwf', hread, rfl, congrArg (t.io.writingIndex + ·) hlen, length_blit hfit⟩

/-- After a call that delivers nothing there is at least as much to read as before. -/
theorem turn_nothing (hr : ¬ r.Positive) (hlen : t.readLen + 1 < sizeRange)
    (h : t.turn r = .ok t') : t.readLen ≤ t'.readLen := by
  have hdata : r.data = [] := not_not.mp hr
  rcases bind_eq_ok h with ⟨io, -, hio⟩
  cases hio
  cases r with
  | bytes first rest => cases hdata
  | endOfStream =>
    show t.readLen ≤ toSize ((t.readLen : ℤ) - (List.length (List.take t.readLen []) : ℤ))
    rw [List.take_nil, List.length_nil, Int.natCast_zero, Int.sub_zero, toSize_natCast (by omega)]
  | error e =>
    show t.readLen ≤ toSize ((t.readLen : ℤ) - (-1))
    rw [Int.sub_neg, ← Int.natCast_one, ← Int.natCast_add, toSize_natCast hlen]
    omega

theorem Filling.turn (h : Filling b readLen answers n t) (hgo : 0 < t.readLen)
    (hr : (answers n).Positive) :
    ∃ t', t.turn (answers n) = .ok t' ∧ Filling b readLen answers (n + 1) t' ∧
      CallRight (answers n) t t' := by
  have hroom := h.room
  have hleft := h.left
  have hoffered := h.offered
  have hsize := h.wf.size_le
  have hmax := maxSize_lt
  have hsum : offeredBytes answers (n + 1) = offeredBytes answers n + (answers n).data.length := rfl
  have hlen : 0 < (answers n).data.length := List.length_pos_iff.mpr hr
  rcases turn_bytes h.wf h.room hr with ⟨t', ht', hwf, hread, hreceived, hindex, hbuf⟩
  have hless := turn_readLen hr (by omega) ht'
  refine ⟨t', ht', ⟨hwf, ?_, ?_, ?_, ?_⟩, ⟨by omega, by omega, absurd hr, ?_⟩⟩
  · rw [hread, hreceived, h.readable, List.append_assoc]
  · omega
  · omega
  · omega
  · intro e he
    exact absurd (congrArg Recv.data he) hr

end Receiving

/-- What `ReadFromFd` is for: no call asks for more than there is room for, the writing
index only grows, what is readable grows by what was received, and the call returns, after
an answer without bytes at once, with the error if there was one. -/
def ReadAccounts (b : IoBuffer) (readLen tmpErrno : ℕ) (answers : ℕ → Recv) : Prop :=
  ∃ b₀, b.ensureWritableSpace readLen = .ok b₀ ∧ b.writingIndex ≤ b₀.writingIndex ∧
    (∀ n, ∃ t, Receiving.loop.turns answers (.start b₀ readLen tmpErrno) n = .ok t ∧
      t.io.readable = b.readable ++ t.received ∧
      (0 < t.readLen → ∃ t', t.turn (answers n) = .ok t' ∧ Receiving.CallRight (answers n) t t')) ∧
    ∃ n t, Receiving.loop.turns answers (.start b₀ readLen tmpErrno) n = .ok t ∧ t.readLen = 0

section

variable {b : IoBuffer} {readLen tmpErrno : ℕ} {answers : ℕ → Recv}

/-- The room `ReadFromFd` needs: making it moves nothing and the vector can hold it. -/
theorem room_of_asks (hb : b.Wf) (hlen : readLen < sizeRange) {b₀ : IoBuffer}
    (hens : b.ensureWritableSpace readLen = .ok b₀)
    (hasks : 0 < readLen → readLen ≤ b₀.buffer.length - b₀.writingIndex) :
    ¬ b.Compacts readLen ∧ b.writingIndex + readLen ≤ maxSize := by
  have hw := hb.writing_le
  have hsize := hb.size_le
  have hc : ¬ b.Compacts readLen := by
    intro hc
    have hlt := hc.1
    rw [hb.getWritableBytes_eq] at hlt
    rcases reserve_of_compacts hb hlen hc with h | ⟨b', h, hindex, hbuf⟩
    · cases hens.symm.trans h
    · cases hens.symm.trans h
      have := hasks (by omega)
      omega
  refine ⟨hc, ?_⟩
  by_cases ho : b.Overflows readLen
  · rcases reserve_of_overflows hb hlen hc ho with ⟨b', h, hindex, hbuf⟩
    cases hens.symm.trans h
    have hpos : 0 < readLen := Nat.lt_of_le_of_lt (Nat.zero_le _) ho.1
    have := hasks hpos
    omega
  · rcases ensureWritableSpace_cases hb hc ho with h | ⟨pad, -, hroom, hmax⟩
    · cases hens.symm.trans h
    · exact Nat.le_trans hroom hmax

/-- A loop that is right at the answer `n` and has something left to read was offered bytes. -/
theorem positive_of_right {t t' : Receiving} {r : Recv} (hlen : t.readLen + 1 < sizeRange)
    (hpos : 0 < t.readLen) (ht : t.turn r = .ok t') (hright : Receiving.CallRight r t t') :
    r.Positive := by
  by_contra hr
  have hmore := Receiving.turn_nothing hr hlen ht
  have hzero := hright.last hr
  omega

/-- As long as fewer bytes have been offered than are wanted, the loop has taken them all. -/
theorem left_of_accounts (hlen : readLen + 1 < sizeRange) {b₀ : IoBuffer}
    (h : ∀ n, ∃ t, Receiving.loop.turns answers (.start b₀ readLen tmpErrno) n = .ok t ∧
      t.io.readable = b.readable ++ t.received ∧
      (0 < t.readLen → ∃ t', t.turn (answers n) = .ok t' ∧ Receiving.CallRight (answers n) t t'))
    (n : ℕ) (hn : offeredBytes answers n < readLen) :
    ∃ t, Receiving.loop.turns answers (.start b₀ readLen tmpErrno) n = .ok t ∧
      t.readLen = readLen - offeredBytes answers n := by
  induction n with
  | zero => exact ⟨_, rfl, rfl⟩
  | succ n ih =>
    have hsum : offeredBytes answers (n + 1) = offeredBytes answers n + (answers n).data.length := rfl
    rcases ih (by omega) with ⟨t, ht, hleft⟩
    rcases h n with ⟨u, hu, -, hcall⟩
    cases ht.symm.trans hu
    rcases hcall (by omega) with ⟨t', ht', hright⟩
    have hpos := positive_of_right (by omega) (by omega) ht' hright
    refine ⟨t', (Loop.turns_succ ht (by show 0 < t.readLen; omega)).trans ht', ?_⟩
    rw [Receiving.turn_readLen hpos (by omega) ht', hleft, hsum]
    omega

/-- **A read accounts for what it received** exactly if room is made for it without moving
the content, and no answer of `recv` is empty or an error before the bytes are there. -/
theorem read_accounts_iff (hb : b.Wf) (hlen : readLen < sizeRange) :
    ReadAccounts b readLen tmpErrno answers ↔
      ¬ b.Compacts readLen ∧ b.writingIndex + readLen ≤ maxSize ∧
        ∀ n, offeredBytes answers n < readLen → (answers n).Positive := by
  constructor
  · rintro ⟨b₀, hens, -, hcalls, -⟩
    have hasks : 0 < readLen → readLen ≤ b₀.buffer.length - b₀.writingIndex := by
      intro hpos
      rcases hcalls 0 with ⟨t, ht, -, hcall⟩
      cases ht
      rcases hcall hpos with ⟨t', -, hright⟩
      exact hright.asks
    rcases room_of_asks hb hlen hens hasks with ⟨hc, hmax⟩
    refine ⟨hc, hmax, ?_⟩
    intro n hn
    have hsize := maxSize_lt
    rcases left_of_accounts (by omega) hcalls n hn with ⟨t, ht, hleft⟩
    rcases hcalls n with ⟨u, hu, -, hcall⟩
    cases ht.symm.trans hu
    rcases hcall (by omega) with ⟨t', ht', hright⟩
    exact positive_of_right (by omega) (by omega) ht' hright
  · rintro ⟨hc, hmax, hpos⟩
    rcases ensureWritableSpace_room hb hc hmax with ⟨pad, hens, hroom, hsize⟩
    have hinit : Receiving.Filling b readLen answers 0
        (.start { b with buffer := b.buffer ++ pad } readLen tmpErrno) :=
      ⟨hb.pad hsize, (readable_pad hb).trans (List.append_nil _).symm, hroom, rfl, le_rfl⟩
    have hcall : ∀ n t, Receiving.Filling b readLen answers n t → 0 < t.readLen →
        (answers n).Positive := by
      intro n t h hgo
      have hleft := h.left
      exact hpos n (by omega)
    have hrun := Loop.turns_invariant (L := Receiving.loop) hinit fun n t h hgo => by
      rcases h.turn hgo (hcall n t h hgo) with ⟨t', ht', hfill, -⟩
      exact ⟨t', ht', hfill⟩
    refine ⟨_, hens, le_rfl, ?_, readLen, ?_⟩
    · intro n
      rcases hrun n with ⟨t, k, ht, -, -, hfill, hlast, -⟩
      refine ⟨t, ht, hfill.readable, ?_⟩
      intro hgo
      have hk := hlast hgo
      subst hk
      rcases hfill.turn hgo (hcall k t hfill hgo) with ⟨t', ht', -, hright⟩
      exact ⟨t', ht', hright⟩
    · -- every turn takes a byte
      rcases hrun readLen with ⟨t, k, ht, -, -, hfill, hlast, -⟩
      refine ⟨t, ht, Nat.eq_zero_of_not_pos ?_⟩
      intro hgo
      have hk := hlast hgo
      have hleft := hfill.left
      have hoffered := hfill.offered
      omega

end

/-- Three bytes into an empty buffer, in two calls. -/
theorem read_accounts_two_calls :
    ReadAccounts ⟨List.replicate 12 0, 8, 8⟩ 3 0
      fun n => if n = 0 then .bytes 1 [2] else .bytes 3 [4] := by
  rw [read_accounts_iff (by decide) (by decide)]
  refine ⟨by decide +kernel, by decide, ?_⟩
  intro n _
  split
  · decide
  · decide

/-- A readable byte 7, two bytes wanted, and a `recv` that fails once: the index goes back
over the 7, three bytes are read in its place, and no error is reported. -/
theorem failed_recv_loses_byte :
    ∃ (b : IoBuffer) (answers : ℕ → Recv) (t : Receiving), b.Wf ∧ b.readable = [7] ∧
      answers 0 = .error 104 ∧
      b.ensureWritableSpace 2 = .ok b ∧ Receiving.loop.turns answers (.start b 2 0) 2 = .ok t ∧
      t.readLen = 0 ∧ t.received = [1, 2, 3] ∧ t.io.readable = [1, 2, 3] ∧ t.tmpErrno = 0 ∧
      ¬ ReadAccounts b 2 0 answers := by
  refine ⟨⟨List.replicate 8 0 ++ [7, 0, 0], 8, 9⟩,
    fun n => if n = 0 then .error 104 else .bytes 1 [2, 3],
    ⟨⟨List.replicate 8 0 ++ [1, 2, 3], 8, 11⟩, 0, 0, 2, [1, 2, 3]⟩,
    by decide, by decide, rfl, by decide +kernel, by decide +kernel, rfl, rfl, by decide, rfl, ?_⟩
  rintro ⟨b₀, hens, -, hcalls, -⟩
  have hb₀ : IoBuffer.ensureWritableSpace ⟨List.replicate 8 0 ++ [7, 0, 0], 8, 9⟩ 2 =
      .ok ⟨List.replicate 8 0 ++ [7, 0, 0], 8, 9⟩ := by decide +kernel
  cases hb₀.symm.trans hens
  rcases hcalls 0 with ⟨t, ht, -, hcall⟩
  cases ht
  rcases hcall (by decide) with ⟨t', ht', hright⟩
  have hturn : (Receiving.start ⟨List.replicate 8 0 ++ [7, 0, 0], 8, 9⟩ 2 0).turn (.error 104) =
      .ok ⟨⟨List.replicate 8 0 ++ [7, 0, 0], 8, 8⟩, 3, 0, -1, []⟩ := by decide +kernel
  cases hturn.symm.trans ht'
  exact absurd hright.index (by decide)

end IoBuffer

namespace RpcCodec

open IoBuffer

/-! ## Sending -/

/-- What a call of `send` meets: room for `more + 1` bytes, or a failure. -/
inductive Sent where
  | room (more : ℕ)
  | failure
deriving DecidableEq, Repr

namespace Sent

/-- What `send` returns when it is given `len` bytes. Giving it none is no failure. -/
def result (len : ℕ) : Sent → ℤ
  | room more => (min len (more + 1) : ℕ)
  | failure => -1

def size : Sent → ℕ
  | room more => more + 1
  | failure => 0

theorem toNat_result (r : Sent) (len : ℕ) : (r.result len).toNat = min len r.size := by
  cases r with
  | room more => exact Int.toNat_natCast _
  | failure => exact (Nat.min_zero len).symm

end Sent

/-- The loop of the synchronous `Send`. -/
structure Sending where
  io : IoBuffer
  bufferSize : ℕ
  accepted : List UInt8
deriving DecidableEq, Repr

namespace Sending

def turn (s : Sending) (r : Sent) : Except Fault Sending := do
  let bytesSent := r.result s.io.getReadableBytes
  let io ← s.io.writeToFd bytesSent
  return {
    io := io
    bufferSize := toSize ((s.bufferSize : ℤ) - bytesSent)
    accepted := s.accepted ++ s.io.readable.take bytesSent.toNat }

def loop : Loop Sending Sent Fault := ⟨fun s => 0 < s.bufferSize, turn⟩

instance : DecidablePred loop.going := fun s => inferInstanceAs (Decidable (0 < s.bufferSize))

end Sending

/-- `Send` up to its loop, on a valid socket. -/
def startSend {μ : Type} (c : RpcCodec μ) (message : μ) : Except Fault Sending := do
  let io ← IoBuffer.new kInitialCapacity
  let io ← c.fillEmptyBuffer io message
  return ⟨io, io.getReadableBytes, []⟩

/-! ## When `Send` sends the frame once -/

/-- The room offered by the first `n` answers. -/
def offeredRoom (answers : ℕ → Sent) : ℕ → ℕ
  | 0 => 0
  | n + 1 => offeredRoom answers n + (answers n).size

/-- The failures among the first `n` answers. -/
def failures (answers : ℕ → Sent) : ℕ → ℕ
  | 0 => 0
  | n + 1 => failures answers n + if answers n = .failure then 1 else 0

namespace Sending

variable {s t t' : Sending} {answers : ℕ → Sent} {n : ℕ} {r : Sent}

/-- The call number `n` is made. -/
def Called (s : Sending) (answers : ℕ → Sent) (n : ℕ) : Prop :=
  ∃ t, loop.turns answers s n = .ok t ∧ 0 < t.bufferSize

/-- What the loop is for. -/
structure SendsOnce (s : Sending) (answers : ℕ → Sent) : Prop where
  ends : ∃ n t, loop.turns answers s n = .ok t ∧ t.bufferSize = 0
  order : ∀ n, ∃ t, loop.turns answers s n = .ok t ∧ t.accepted <+: s.io.readable
  /-- If every failure is followed by a call that succeeds. -/
  whole : (∀ n, s.Called answers n → answers n = .failure →
      ∃ m, n < m ∧ s.Called answers m ∧ answers m ≠ .failure) →
    ∃ n t, loop.turns answers s n = .ok t ∧ t.bufferSize = 0 ∧ t.accepted = s.io.readable

/-- The counter is ahead of the readable bytes by the number of failures, until it wraps. -/
inductive Counter (answers : ℕ → Sent) (n : ℕ) (t : Sending) : Prop
  | ahead (lt : t.bufferSize < sizeRange)
      (count : t.bufferSize = t.io.readable.length + failures answers n)
  | wrapped (zero : t.bufferSize = 0)
      (count : t.io.readable.length + failures answers n = sizeRange)
      (last : ∃ k, n = k + 1 ∧ answers k = .failure)

structure Inv (frame : List UInt8) (answers : ℕ → Sent) (n : ℕ) (t : Sending) : Prop where
  wf : t.io.Wf
  line : t.accepted ++ t.io.readable = frame
  left : t.io.readable.length = frame.length - offeredRoom answers n
  counter : Counter answers n t

/-- One call, on a well-formed buffer. -/
theorem turn_eq (hwf : t.io.Wf) (r : Sent) :
    ∃ t', t.turn r = .ok t' ∧ t'.io.Wf ∧
      t'.accepted = t.accepted ++ t.io.readable.take (min t.io.readable.length r.size) ∧
      t'.io.readable = t.io.readable.drop (min t.io.readable.length r.size) ∧
      t'.bufferSize = toSize ((t.bufferSize : ℤ) - r.result t.io.readable.length) := by
  have hnat := r.toNat_result t.io.readable.length
  have hwrite : ∃ io, t.io.writeToFd (r.result t.io.readable.length) = .ok io ∧ io.Wf ∧
      io.readable = t.io.readable.drop (min t.io.readable.length r.size) := by
    rw [writeToFd_spec hwf, ← hnat]
    split
    · have hle : (r.result t.io.readable.length).toNat ≤ t.io.getReadableBytes := by
        rw [hnat, hwf.getReadableBytes_length]
        exact Nat.min_le_left _ _
      rcases refresh_spec hwf hle with ⟨hwf', hread⟩
      exact ⟨_, rfl, hwf', hread⟩
    · next hn =>
      rw [Int.toNat_of_nonpos (not_lt.mp hn)]
      exact ⟨t.io, rfl, hwf, rfl⟩
  rcases hwrite with ⟨io, hio, hwf', hread⟩
  have hturn : t.turn r = .ok ⟨io, toSize ((t.bufferSize : ℤ) - r.result t.io.readable.length),
      t.accepted ++ t.io.readable.take (min t.io.readable.length r.size)⟩ := by
    rw [turn, hwf.getReadableBytes_length, hio, hnat, ok_bind]
    rfl
  exact ⟨_, hturn, hwf', rfl, hread, rfl⟩

theorem Counter.of_going (h : Counter answers n t) (hgo : 0 < t.bufferSize) :
    t.bufferSize < sizeRange ∧ t.bufferSize = t.io.readable.length + failures answers n := by
  cases h with
  | ahead lt count => exact ⟨lt, count⟩
  | wrapped zero => omega

/-- What a call does to the counter. -/
theorem Counter.turn (h : Counter answers n t) (hgo : 0 < t.bufferSize)
    (hlen : t'.io.readable.length = t.io.readable.length - (answers n).size)
    (hsize : t'.bufferSize = toSize ((t.bufferSize : ℤ) - (answers n).result t.io.readable.length)) :
    Counter answers (n + 1) t' := by
  rcases h.of_going hgo with ⟨lt, count⟩
  have hsum : failures answers (n + 1) =
    failures answers n + if answers n = .failure then 1 else 0 := rfl
  cases hr : answers n with
  | room more =>
    rw [hr] at hlen hsize hsum
    have hnext : t'.bufferSize = t.bufferSize - min t.io.readable.length (more + 1) := by
      rw [hsize, Sent.result, ← Int.ofNat_sub (by omega), toSize_natCast (by omega)]
    simp only [reduceCtorEq, if_false, Sent.size] at hlen hsum
    exact .ahead (by omega) (by omega)
  | failure =>
    rw [hr] at hlen hsize hsum
    simp only [if_true, Sent.size] at hlen hsum
    rw [Sent.result, Int.sub_neg, ← Int.natCast_one, ← Int.natCast_add] at hsize
    by_cases hwrap : t.bufferSize + 1 < sizeRange
    · rw [toSize_natCast hwrap] at hsize
      exact .ahead (by omega) (by omega)
    · have hmax : t.bufferSize + 1 = sizeRange := by omega
      rw [hmax] at hsize
      have hzero : t'.bufferSize = 0 := hsize.trans (by decide)
      exact .wrapped hzero (by omega) ⟨n, rfl, hr⟩

theorem Inv.turn {frame : List UInt8} (h : Inv frame answers n t) (hgo : 0 < t.bufferSize) :
    ∃ t', t.turn (answers n) = .ok t' ∧ Inv frame answers (n + 1) t' := by
  have hleft := h.left
  have hsum : offeredRoom answers (n + 1) = offeredRoom answers n + (answers n).size := rfl
  rcases turn_eq h.wf (answers n) with ⟨t', ht', hwf, haccepted, hread, hsize⟩
  have hlen : t'.io.readable.length = t.io.readable.length - (answers n).size := by
    rw [hread, List.length_drop]
    omega
  refine ⟨t', ht', hwf, ?_, ?_, h.counter.turn hgo hlen hsize⟩
  · rw [haccepted, hread, List.append_assoc, List.take_append_drop, h.line]
  · omega

/-- As long as nothing has failed, every turn has taken a byte. -/
structure Unfailing (frame : List UInt8) (answers : ℕ → Sent) (n : ℕ) (t : Sending) : Prop where
  inv : Inv frame answers n t
  none : failures answers n = 0
  taken : n ≤ offeredRoom answers n

theorem Unfailing.turn {frame : List UInt8} (h : Unfailing frame answers n t)
    (hgo : 0 < t.bufferSize)
    (hroom : offeredRoom answers n < frame.length → answers n ≠ .failure) :
    ∃ t', t.turn (answers n) = .ok t' ∧ Unfailing frame answers (n + 1) t' := by
  rcases h.inv.turn hgo with ⟨t', ht', hinv'⟩
  have hleft := h.inv.left
  have hcount := (h.inv.counter.of_going hgo).2
  have hnone := h.none
  have htaken := h.taken
  have hr := hroom (by omega)
  refine ⟨t', ht', hinv', ?_, ?_⟩
  · rw [failures, if_neg hr, hnone]
  · rw [offeredRoom]
    cases hcase : answers n with
    | room more =>
      rw [Sent.size]
      omega
    | failure => exact absurd hcase hr

/-- The buffer that is sent. -/
structure Frame (s : Sending) : Prop where
  wf : s.io.Wf
  size : s.bufferSize = s.io.readable.length
  accepted : s.accepted = []

theorem Frame.inv (h : s.Frame) (answers : ℕ → Sent) : Inv s.io.readable answers 0 s where
  wf := h.wf
  line := by rw [h.accepted, List.nil_append]
  left := rfl
  counter := by
    have hlen := h.wf.length_readable
    have hw := h.wf.writing_le
    have hmax := h.wf.size_le
    have hlt := maxSize_lt
    have hsize := h.size
    exact .ahead (by omega) hsize

theorem failures_mono (answers : ℕ → Sent) : Monotone (failures answers) :=
  monotone_nat_of_le_succ fun _ => Nat.le_add_right _ _

theorem offeredRoom_mono (answers : ℕ → Sent) : Monotone (offeredRoom answers) :=
  monotone_nat_of_le_succ fun _ => Nat.le_add_right _ _

/-- No failure is among the answers that a loop without failures has had. -/
theorem ne_failure_of_failures {k : ℕ} (h : failures answers k = 0) (hn : n < k) :
    answers n ≠ .failure := by
  intro hr
  have hle : failures answers (n + 1) ≤ failures answers k := failures_mono answers hn
  have hsum : failures answers (n + 1) =
      failures answers n + if answers n = .failure then 1 else 0 := rfl
  rw [if_pos hr] at hsum
  omega

section

variable (h : s.Frame)
include h

/-- The rule of the loop at this invariant. -/
theorem Frame.run (answers : ℕ → Sent) (n : ℕ) :
    ∃ t k, loop.turns answers s n = .ok t ∧ k ≤ n ∧ loop.turns answers s k = .ok t ∧
      Inv s.io.readable answers k t ∧ (0 < t.bufferSize → k = n) ∧
      ∀ i < k, s.Called answers i :=
  Loop.turns_invariant (L := loop) (h.inv answers) (fun _ _ hinv hgo => hinv.turn hgo) n

/-- A loop that ends met no failure before the frame was out, or as many as make the
counter wrap. -/
theorem Frame.cause {n : ℕ} (ht : loop.turns answers s n = .ok t) (hend : t.bufferSize = 0) :
    (∀ i, offeredRoom answers i < s.io.readable.length → answers i ≠ .failure) ∨
      ∃ k, s.io.readable.length - offeredRoom answers k + failures answers k = sizeRange := by
  rcases h.run answers n with ⟨t', k, ht', -, -, hinv, -, -⟩
  cases ht.symm.trans ht'
  have hleft := hinv.left
  cases hinv.counter with
  | ahead lt count =>
    left
    intro i hi
    refine ne_failure_of_failures (k := k) (by omega) ?_
    by_contra hki
    have hmono := offeredRoom_mono answers (not_lt.mp hki)
    omega
  | wrapped zero count last => exact .inr ⟨k, by omega⟩

/-- Without a failure before the frame is out, the loop ends when it is out. -/
theorem Frame.ends_of_room
    (hroom : ∀ n, offeredRoom answers n < s.io.readable.length → answers n ≠ .failure) :
    ∃ n t, loop.turns answers s n = .ok t ∧ t.bufferSize = 0 := by
  have hinit : Unfailing s.io.readable answers 0 s := ⟨h.inv answers, rfl, le_rfl⟩
  have hrun := Loop.turns_invariant (L := loop) hinit
    (fun n t hinv hgo => hinv.turn hgo (hroom n)) s.io.readable.length
  rcases hrun with ⟨t, k, ht, -, -, hinv, hlast, -⟩
  refine ⟨_, t, ht, Nat.eq_zero_of_not_pos ?_⟩
  intro hgo
  have hk := hlast hgo
  have hleft := hinv.inv.left
  have hcount := (hinv.inv.counter.of_going hgo).2
  have hnone := hinv.none
  have htaken := hinv.taken
  omega

/-- The loop ends at the latest where the failures make the counter wrap. -/
theorem Frame.ends_of_wrap {n : ℕ}
    (hwrap : s.io.readable.length - offeredRoom answers n + failures answers n = sizeRange) :
    ∃ n t, loop.turns answers s n = .ok t ∧ t.bufferSize = 0 := by
  rcases h.run answers n with ⟨t, k, ht, -, -, hinv, hlast, -⟩
  refine ⟨n, t, ht, Nat.eq_zero_of_not_pos ?_⟩
  intro hgo
  have hk := hlast hgo
  subst hk
  have hleft := hinv.left
  have hcount := hinv.counter.of_going hgo
  omega

/-- A loop that ends has done all that it is for. -/
theorem Frame.sendsOnce_of_ends (hend : ∃ n t, loop.turns answers s n = .ok t ∧ t.bufferSize = 0) :
    s.SendsOnce answers := by
  refine ⟨hend, ?_, ?_⟩
  · intro n
    rcases h.run answers n with ⟨t, k, ht, -, -, hinv, -, -⟩
    exact ⟨t, ht, _, hinv.line⟩
  · intro hfair
    rcases hend with ⟨n, t, ht, hzero⟩
    refine ⟨n, t, ht, hzero, ?_⟩
    rcases h.run answers n with ⟨t', k, ht', -, htk, hinv, -, hcalled⟩
    cases ht.symm.trans ht'
    cases hinv.counter with
    | ahead lt count =>
      have hempty : t.io.readable = [] := List.eq_nil_of_length_eq_zero (by omega)
      rw [← hinv.line, hempty, List.append_nil]
    | wrapped _ count last =>
      -- the call that made the counter wrap is the last one, and failed
      rcases last with ⟨i, rfl, hfailed⟩
      rcases hfair i (hcalled i (Nat.lt_succ_self i)) hfailed with ⟨m, hm, ⟨u, hu, hgo⟩, -⟩
      have hstay := Loop.turns_ended (L := loop) htk (by show ¬ 0 < t.bufferSize; omega) hm
      cases hstay.symm.trans hu
      exact absurd hgo (by rw [hzero]; exact lt_irrefl 0)

end

end Sending

section

variable {μ : Type} {c : RpcCodec μ} {message : μ}

/-- A buffer behind the reserved area. -/
structure Behind (io : IoBuffer) : Prop where
  wf : io.Wf
  reading : io.readingIndex = kReservedCapacity

theorem Behind.append {io io' : IoBuffer} (h : Behind io) {str : List UInt8}
    (hlen : str.length ≤ maxSize) (happ : io.append str = .ok io') : Behind io' := by
  rcases append_ok h.wf hlen happ with ⟨hwf, -, hr⟩
  exact ⟨hwf, hr.trans h.reading⟩

theorem Behind.serialize {io io' : IoBuffer} {r : ℤ} (h : Behind io)
    (hsize : c.byteSizeLong message + 4 ≤ maxSize)
    (hser : c.serialize2Buffer message io = .ok (r, io')) : Behind io' := by
  have hmax := maxSize_lt
  have hadd : addSize (c.byteSizeLong message) kChecksumLength.toNat =
      c.byteSizeLong message + 4 := addSize_eq (by unfold kChecksumLength; omega)
  have hc := not_compacts_of_reading h.wf h.reading (by omega : c.byteSizeLong message + 4 < sizeRange)
  rw [serialize2Buffer, hadd] at hser
  rcases bind_eq_ok hser with ⟨io₁, hens, hcopy⟩
  rcases bind_eq_ok hcopy with ⟨io₂, hstore, hend⟩
  rcases ensureWritableSpace_cases h.wf hc (not_overflows_of_le h.wf hsize) with
    he | ⟨pad, he, -, hpad⟩
  · cases hens.symm.trans he
  cases hens.symm.trans he
  have hwf := h.wf.pad hpad
  by_cases hfit : io.writingIndex + (c.serializeWithCachedSizesToArray message).length ≤
      (io.buffer ++ pad).length
  · rw [store_ok hfit] at hstore
    cases hstore
    split at hend
    · -- the index stays in front of what was written
      cases hend
      have hlen := length_blit hfit
      exact ⟨⟨hwf.reading_le, hlen.symm ▸ hwf.writing_le, hlen.symm ▸ hwf.reserved_le,
        hlen.symm ▸ hwf.size_le⟩, h.reading⟩
    · next heq =>
      simp only [pure, Except.pure, Except.ok.injEq, Prod.mk.injEq] at hend
      rcases hend with ⟨-, rfl⟩
      have hindex : addSize io.writingIndex (c.byteSizeLong message) =
          io.writingIndex + (c.serializeWithCachedSizesToArray message).length := by
        rw [not_not.mp heq] at hfit ⊢
        exact addSize_eq (by omega)
      refine ⟨?_, h.reading⟩
      unfold refreshW
      dsimp only
      rw [hindex]
      exact (hwf.extend hfit).1
  · rw [store_outOfBounds (not_le.mp hfit)] at hstore
    cases hstore

/-- What `FillEmptyBuffer` leaves is well-formed, however it ends. -/
theorem fillEmptyBuffer_wf {io io' : IoBuffer} (h : Behind io) (htag : c.tag.length ≤ maxSize)
    (hsize : c.byteSizeLong message + 4 ≤ maxSize) (hfill : c.fillEmptyBuffer io message = .ok io') :
    io'.Wf := by
  rcases bind_eq_ok hfill with ⟨io₁, happ, hfill⟩
  have h₁ := h.append htag happ
  rcases bind_eq_ok hfill with ⟨⟨r, io₂⟩, hser, hfill⟩
  have h₂ := h₁.serialize hsize hser
  rcases bind_eq_ok hfill with ⟨bytes, -, hfill⟩
  rcases bind_eq_ok hfill with ⟨io₃, hsum, hfill⟩
  rw [appendInt32_checksum] at hsum
  have h₃ := h₂.append (by rw [length_beBytes]; decide) hsum
  rcases @setHeadContent_spec io₃ h₃.wf (beBytes 4 (toUInt32 (toInt32 io₃.getReadableBytes)))
    (by rw [length_beBytes, getReservedBytes, h₃.reading]; decide) with ⟨io₄, hhead, hwf, -⟩
  cases hhead.symm.trans hfill
  exact hwf

theorem startSend_of_encode {frame : List UInt8} (h : c.encode message = .ok frame) :
    ∃ s, c.startSend message = .ok s ∧ s.io.readable = frame := by
  rcases bind_eq_ok h with ⟨io₀, hnew, hfill⟩
  rcases bind_eq_ok hfill with ⟨io, hio, hread⟩
  cases hread
  refine ⟨⟨io, io.getReadableBytes, []⟩, ?_, rfl⟩
  rw [startSend, hnew, ok_bind, hio]
  rfl

theorem startSend_frame (htag : c.tag.length ≤ maxSize)
    (hsize : c.byteSizeLong message + 4 ≤ maxSize) {s : Sending}
    (hstart : c.startSend message = .ok s) : s.Frame := by
  rcases bind_eq_ok hstart with ⟨io₀, hnew, hfill⟩
  rcases bind_eq_ok hfill with ⟨io, hio, hs⟩
  cases hs
  rcases new_spec (by decide) hnew with ⟨hwf₀, -, hr₀⟩
  have hwf := fillEmptyBuffer_wf ⟨hwf₀, hr₀⟩ htag hsize hio
  exact ⟨hwf, hwf.getReadableBytes_length, rfl⟩

/-- **`Send` sends the frame once and ends** exactly if no call fails before the frame is
out, or if as many fail as make the counter wrap. -/
theorem send_once_iff (htag : c.tag.length ≤ maxSize)
    (hsize : c.byteSizeLong message + 4 ≤ maxSize) {s : Sending}
    (hstart : c.startSend message = .ok s) (answers : ℕ → Sent) :
    s.SendsOnce answers ↔
      (∀ n, offeredRoom answers n < s.io.readable.length → answers n ≠ .failure) ∨
        ∃ n, s.io.readable.length - offeredRoom answers n + failures answers n = sizeRange := by
  have hframe := startSend_frame htag hsize hstart
  constructor
  · intro h
    rcases h.ends with ⟨n, t, ht, hzero⟩
    exact hframe.cause ht hzero
  · rintro (hroom | ⟨n, hwrap⟩)
    · exact hframe.sendsOnce_of_ends (hframe.ends_of_room hroom)
    · exact hframe.sendsOnce_of_ends (hframe.ends_of_wrap hwrap)

end

/-- The frame of a one-byte message in two calls. -/
theorem send_once_two_calls :
    ∃ s, rpc0.startSend [7] = .ok s ∧ s.io.readable = rpc0.frameOf [7] ∧
      s.SendsOnce fun _ => .room 7 := by
  have henc : rpc0.encode [7] = .ok (rpc0.frameOf [7]) := encode_eq rfl (by decide)
  rcases startSend_of_encode henc with ⟨s, hs, hread⟩
  refine ⟨s, hs, hread, (send_once_iff (by decide) (by decide) hs _).mpr (.inl ?_)⟩
  intro n _
  exact Sent.noConfusion

/-- The answers of a socket that fails once and then takes eight bytes at a time. -/
def failsOnce (n : ℕ) : Sent := if n = 0 then .failure else .room 7

theorem failsOnce_sums (n : ℕ) :
    failures failsOnce (n + 1) = 1 ∧ offeredRoom failsOnce (n + 1) = 8 * n := by
  induction n with
  | zero => exact ⟨rfl, rfl⟩
  | succ n ih =>
    rw [failures, offeredRoom, ih.1, ih.2]
    exact ⟨rfl, rfl⟩

/-- After the failure two calls send the frame. Then the counter stands at one for ever,
with nothing left to send. -/
theorem failed_send_never_ends :
    ∃ s, rpc0.startSend [7] = .ok s ∧ ¬ s.SendsOnce failsOnce ∧
      ∀ n, 2 < n → ∃ t, Sending.loop.turns failsOnce s n = .ok t ∧ t.bufferSize = 1 ∧
        t.accepted = rpc0.frameOf [7] ∧ t.io.readable = [] := by
  have henc : rpc0.encode [7] = .ok (rpc0.frameOf [7]) := encode_eq rfl (by decide)
  rcases startSend_of_encode henc with ⟨s, hs, hread⟩
  have hframe := startSend_frame (by decide) (by decide) hs
  have hlen : s.io.readable.length = 13 := by
    rw [hread]
    decide
  have hstuck : ∀ n, 2 < n → ∃ t, Sending.loop.turns failsOnce s n = .ok t ∧ t.bufferSize = 1 ∧
      t.accepted = rpc0.frameOf [7] ∧ t.io.readable = [] := by
    intro n hn
    rcases hframe.run failsOnce n with ⟨t, k, ht, hk, htk, hinv, hlast, -⟩
    have hleft := hinv.left
    -- the loop has not ended: its counter is ahead by one from the first call on
    have hgo : 0 < t.bufferSize := by
      cases k with
      | zero =>
        cases htk
        have hsize := hframe.size
        omega
      | succ k =>
        rcases failsOnce_sums k with ⟨hone, -⟩
        cases hinv.counter with
        | ahead lt count => omega
        | wrapped zero count =>
          unfold sizeRange at count
          omega
    have hkn := hlast hgo
    obtain ⟨m, rfl⟩ : ∃ m, k = m + 1 := ⟨k - 1, by omega⟩
    rcases failsOnce_sums m with ⟨hone, hoffered⟩
    have hempty : t.io.readable = [] := List.eq_nil_of_length_eq_zero (by omega)
    have hcount := (hinv.counter.of_going hgo).2
    have hline := hinv.line
    rw [hempty, List.append_nil, hread] at hline
    rw [hempty, hone] at hcount
    exact ⟨t, ht, hcount, hline, hempty⟩
  refine ⟨s, hs, ?_, hstuck⟩
  intro h
  rcases h.ends with ⟨n, t, ht, hzero⟩
  rcases hstuck (n + 3) (by omega) with ⟨u, hu, hone, -, -⟩
  have hstay := Loop.turns_ended (L := Sending.loop) ht (by show ¬ 0 < t.bufferSize; omega)
    (by omega : n ≤ n + 3)
  cases hstay.symm.trans hu
  omega

end RpcCodec

end Taotu
