import Taotu.Lib.Table
import Taotu.Rpc.Stream
import Taotu.Rpc.Channel

/-!
# Taotu.Rpc.SyncChannel — calls that wait for their reply (`rpc_channel.cc`, `rpc_codec.cc`)

`RpcSyncChannel::CallMethod` registers the call, sends the REQUEST, and then
processes one message from the socket, whatever it is.

1. **Socket.** `readFromFd` is the blocking read, `onMessageSync` the
   synchronous `OnMessage` around it. What `recv` and `send` return are
   arguments; a loop that runs out of them does not end, and neither does the
   call (`none`).
2. **Channel.** `callMethod` and `onRpcMessage`, and a machine in which the
   server sends any bytes and the user calls methods. A call that does not
   return is not a step.
3. **When a call leaves no entry.** `entry_gone_iff` says it for every call that
   returns: the socket is usable, and the next frame of the stream is a RESPONSE
   with the id of the call.

**Ghosts.** `inbound` are the bytes the server has sent and the channel has not
read. `touched` records whose response object and closure were used, each with
the id of the call that was running.
-/

namespace Taotu

open Lib

/-! ## Socket -/

namespace IoBuffer

/-- What a read leaves: the buffer, the bytes still to come and the results of
`recv` still to come. -/
abbrev ReadState := IoBuffer × List UInt8 × List ℤ

instance : DecidableEq ReadState := inferInstance

/-- The loop of `ReadFromFd`. A result `n ≥ 0` of `recv` delivers `n` bytes, or
as many as are asked for and there are; a negative one is `-1` and is added to
the index and subtracted from the length like any other. -/
def recvLoop : List ℤ → ℕ → IoBuffer → List UInt8 → Except Fault (Option ReadState)
  | results, 0, b, inbound => .ok (some (b, inbound, results))
  | [], _ + 1, _, _ => .ok none
  | n :: results, readLen + 1, b, inbound => do
    let bytes := inbound.take (min n.toNat (readLen + 1))
    let bytesRead : ℤ := if n < 0 then -1 else bytes.length
    let b ← b.store b.writingIndex bytes
    recvLoop results (toSize (((readLen + 1 : ℕ) : ℤ) - bytesRead))
      { b with writingIndex := toSize ((b.writingIndex : ℤ) + bytesRead) } (inbound.drop bytes.length)

def readFromFd (readLen : ℕ) : ReadState → Except Fault (Option ReadState)
  | (b, inbound, results) => do
    let b ← b.ensureWritableSpace readLen
    recvLoop results readLen b inbound

/-- `ReadFromFd` is repeated while fewer than `want` bytes are readable. Every
turn takes a result of `recv`, so their number bounds the turns. -/
def readUpTo (want : ℕ) : ℕ → ReadState → Except Fault (Option ReadState)
  | 0, s => if want ≤ s.1.getReadableBytes then .ok (some s) else .ok none
  | fuel + 1, s =>
    if want ≤ s.1.getReadableBytes then .ok (some s)
    else do
      match ← readFromFd (subSize want s.1.getReadableBytes) s with
      | none => return none
      | some s => readUpTo want fuel s

/-- The loop of the synchronous `Send`: `bufferSize` is counted down by what
`send` returns. The result says whether the loop ends. -/
def sendLoop : List ℤ → ℕ → IoBuffer → Except Fault Bool
  | _, 0, _ => .ok true
  | [], _ + 1, _ => .ok false
  | n :: results, bufferSize + 1, b => do
    let b ← b.writeToFd n
    sendLoop results (toSize (((bufferSize + 1 : ℕ) : ℤ) - n)) b

end IoBuffer

namespace RpcCodec

variable {μ : Type}

/-- The synchronous `Send`; `valid` is the answer of `CheckSocketStatusValid`. -/
def sendSync (c : RpcCodec μ) (valid : Bool) (results : List ℤ) (message : μ) :
    Except Fault Bool :=
  if valid then do
    let io ← IoBuffer.new IoBuffer.kInitialCapacity
    let io ← c.fillEmptyBuffer io message
    IoBuffer.sendLoop results io.getReadableBytes io
  else .ok true

/-- What the synchronous `OnMessage` comes to. -/
inductive Outcome (μ : Type) where
  | nothing
  | error (e : ErrorCode)
  | message (m : μ)
deriving DecidableEq, Repr

/-- The synchronous `OnMessage`, without a raw callback. A bad frame stays in the
buffer. -/
def onMessageSync (c : RpcCodec μ) (valid : Bool) (s : IoBuffer.ReadState) :
    Except Fault (Option (Outcome μ × IoBuffer.ReadState)) :=
  if valid then do
    match ← IoBuffer.readUpTo (toSize (toInt32 (c.kMinMessageLength + kHeaderLength)))
        (s.2.2.length + 1) s with
    | none => return none
    | some s =>
      let len ← s.1.getReadableInt32
      if kMaxMessageLength < len ∨ len < c.kMinMessageLength then
        return some (.error .kInvalidLength, s)
      else
        match ← IoBuffer.readUpTo (toSize (kHeaderLength + len)) (s.2.2.length + 1) s with
        | none => return none
        | some s =>
          match ← c.parse (s.1.buffer.drop (addSize s.1.readingIndex 4)) len with
          | .ok m => return some (.message m, (s.1.refresh (toSize (kHeaderLength + len)), s.2))
          | .error e => return some (.error e, s)
  else .ok (some (.nothing, s))

end RpcCodec

/-! ## Reads without errors -/

namespace IoBuffer

variable {b : IoBuffer} {results : List ℤ} {readLen : ℕ}

/-- `recv` never fails. -/
def NoError (results : List ℤ) : Prop := ∀ n ∈ results, 0 ≤ n

/-- Every `recv` has something to deliver. -/
def Flowing (results : List ℤ) : Prop := ∀ n ∈ results, 0 < n

theorem NoError.suffix {results' : List ℤ} (h : NoError results) (hs : results' <:+ results) :
    NoError results' :=
  fun n hn => h n (hs.mem hn)

theorem Flowing.suffix {results' : List ℤ} (h : Flowing results) (hs : results' <:+ results) :
    Flowing results' :=
  fun n hn => h n (hs.mem hn)

theorem Flowing.noError (h : Flowing results) : NoError results := fun n hn => (h n hn).le

theorem toSize_natCast {n : ℕ} (h : n < sizeRange) : toSize (n : ℤ) = n := by
  rw [toSize, Int.emod_eq_of_lt (by omega) (by omega)]
  rfl

/-- Without errors the loop reads what it is asked for, or does not end. As long as the
bytes flow, it needs no more calls than bytes. -/
theorem recvLoop_spec (inbound : List UInt8) (hb : b.Wf)
    (hroom : b.writingIndex + readLen ≤ b.buffer.length) (hres : NoError results) :
    (recvLoop results readLen b inbound = .ok none ∧
        (Flowing results → results.length < readLen ∨ inbound.length < readLen)) ∨
      ∃ b' results', recvLoop results readLen b inbound = .ok (some (b', inbound.drop readLen, results')) ∧
        results' <:+ results ∧ (Flowing results → results.length ≤ results'.length + readLen) ∧
        readLen ≤ inbound.length ∧ b'.Wf ∧
        b'.readable = b.readable ++ inbound.take readLen ∧ b'.readingIndex = b.readingIndex ∧
        b'.writingIndex = b.writingIndex + readLen := by
  induction results generalizing b inbound readLen with
  | nil =>
    cases readLen with
    | zero =>
      exact .inr ⟨b, [], rfl, List.suffix_refl _, fun _ => le_rfl, Nat.zero_le _, hb, by simp, rfl, rfl⟩
    | succ readLen => exact .inl ⟨rfl, fun _ => .inl (Nat.succ_pos _)⟩
  | cons n results ih =>
    cases readLen with
    | zero =>
      exact .inr ⟨b, n :: results, rfl, List.suffix_refl _, fun _ => le_rfl, Nat.zero_le _, hb,
        by simp, rfl, rfl⟩
    | succ readLen =>
      have hsize := hb.size_le
      have hmax := maxSize_lt
      have hn : ¬ n < 0 := Int.not_lt.mpr (hres n (by simp))
      -- the bytes this `recv` delivers are the next `k` of the stream
      generalize hk : (inbound.take (min n.toNat (readLen + 1))).length = k
      have hbytes : inbound.take (min n.toNat (readLen + 1)) = inbound.take k := by
        rw [← hk, List.length_take, ← List.take_eq_take_min]
      rw [List.length_take] at hk
      have hkle : k ≤ readLen + 1 ∧ k ≤ inbound.length := by omega
      have hflow : Flowing (n :: results) → 0 < k ∨ inbound.length = 0 := by
        intro hf
        have := hf n (by simp)
        omega
      have hlen : (inbound.take k).length = k := List.length_take_of_le hkle.2
      have hfit : b.writingIndex + (inbound.take k).length ≤ b.buffer.length := by omega
      rcases hb.extend hfit with ⟨hwf, hread⟩
      rw [hlen] at hwf hread
      have hcount : toSize (((readLen + 1 : ℕ) : ℤ) - (k : ℤ)) = readLen + 1 - k := by
        rw [← Int.ofNat_sub hkle.1]
        exact toSize_natCast (by omega)
      have hindex : toSize ((b.writingIndex : ℤ) + (k : ℤ)) = b.writingIndex + k := by
        rw [← Int.natCast_add]
        exact toSize_natCast (by omega)
      rw [recvLoop]
      simp only [hn, if_false, hbytes, hlen]
      rw [store_ok hfit, ok_bind]
      simp only [hcount, hindex]
      have hroom' : b.writingIndex + k + (readLen + 1 - k) ≤
          (blit b.buffer b.writingIndex (inbound.take k)).length := by
        rw [length_blit hfit]
        omega
      have hrest : Flowing (n :: results) → Flowing results := fun hf => hf.suffix (List.suffix_cons _ _)
      rcases ih (inbound.drop k) hwf hroom' (hres.suffix (List.suffix_cons _ _)) with
        ⟨h, hshort⟩ | ⟨b', results', h, hsuffix, hcalls, hle, hwf', hread', hr', hw'⟩
      · refine .inl ⟨h, ?_⟩
        intro hf
        have hk0 := hflow hf
        have hs := hshort (hrest hf)
        rw [List.length_drop] at hs
        rw [List.length_cons]
        omega
      · rw [List.length_drop] at hle
        refine .inr ⟨b', results', ?_, hsuffix.trans (List.suffix_cons _ _), ?_, ?_, hwf', ?_, hr', ?_⟩
        · rw [h, List.drop_drop, Nat.add_sub_cancel' hkle.1]
        · intro hf
          have hk0 := hflow hf
          have hc := hcalls (hrest hf)
          rw [List.length_cons]
          omega
        · omega
        · rw [hread', hread, List.append_assoc, ← List.take_add, Nat.add_sub_cancel' hkle.1]
        · rw [hw']
          show b.writingIndex + k + (readLen + 1 - k) = _
          omega

open RpcCodec in
/-- Reading up to `want` bytes takes what is missing from the stream. As long as the bytes
flow, it needs no more calls than bytes. -/
theorem readUpTo_spec {content : List UInt8} (want : ℕ) (inbound : List UInt8)
    (hb : Filled b content) (hwant : want < 4294967296) (hres : NoError results) (fuel : ℕ) :
    (readUpTo want (fuel + 1) (b, inbound, results) = .ok none ∧
        (Flowing results → results.length < want - content.length ∨
          inbound.length < want - content.length)) ∨
      ∃ b' results',
        readUpTo want (fuel + 1) (b, inbound, results) =
          .ok (some (b', inbound.drop (want - content.length), results')) ∧
        results' <:+ results ∧
        (Flowing results → results.length ≤ results'.length + (want - content.length)) ∧
        want - content.length ≤ inbound.length ∧
        Filled b' (content ++ inbound.take (want - content.length)) := by
  have hcount : b.getReadableBytes = content.length := by
    rw [hb.wf.getReadableBytes_length, hb.readable]
  by_cases hdone : want ≤ content.length
  · have hzero : want - content.length = 0 := by omega
    rw [readUpTo, if_pos (by rw [hcount]; exact hdone), hzero]
    exact .inr ⟨b, results, rfl, List.suffix_refl _, fun _ => le_rfl, Nat.zero_le _, by simpa using hb⟩
  · have hsub : subSize want content.length = want - content.length :=
      subSize_eq (by unfold sizeRange; omega) (by omega)
    have hr := hb.reading
    have hw := hb.writing
    rcases @ensureWritableSpace_room b hb.wf (want - content.length)
      (not_compacts_of_reading hb.wf hr (by unfold sizeRange; omega))
      (by rw [hw]; unfold maxSize kReservedCapacity; omega) with ⟨pad, hens, hfit, hmax⟩
    rw [readUpTo, if_neg (by rw [hcount]; exact hdone), hcount, hsub, readFromFd, hens, ok_bind]
    rcases recvLoop_spec inbound (hb.wf.pad hmax) hfit hres with
      ⟨h, hshort⟩ | ⟨b', results', h, hsuffix, hcalls, hle, hwf, hread, hr', hw'⟩
    · rw [h]
      exact .inl ⟨rfl, hshort⟩
    · right
      rw [readable_pad hb.wf, hb.readable] at hread
      have hfilled : Filled b' (content ++ inbound.take (want - content.length)) := by
        refine ⟨hwf, hread, hr'.trans hr, ?_⟩
        rw [hw', List.length_append, List.length_take_of_le hle]
        show b.writingIndex + _ = _
        omega
      -- the loop sees enough bytes and ends
      have henough : want ≤ b'.getReadableBytes := by
        rw [hwf.getReadableBytes_length, hread, List.length_append, List.length_take_of_le hle]
        omega
      refine ⟨b', results', ?_, hsuffix, hcalls, hle, hfilled⟩
      rw [h, ok_bind]
      cases fuel <;> exact if_pos henough

end IoBuffer

/-! ## One message of the stream -/

namespace RpcCodec

open IoBuffer

variable {μ : Type} {c : RpcCodec μ} {b : IoBuffer} {content inbound : List UInt8}
  {results : List ℤ}

variable (c) in
/-- Between calls the buffer is empty or starts with a bad frame. -/
structure Ready (b : IoBuffer) (content : List UInt8) : Prop where
  filled : Filled b content
  front : content = [] ∨ ∃ e, c.front content = .reject e
  short : content.length ≤ 1073741824

variable (c) in
/-- The outcome is the message at the front of the stream, if there is one. -/
structure Decodes (stream : List UInt8) (outcome : Outcome μ) : Prop where
  message : ∀ m, outcome = .message m → ∃ k, c.front stream = .accept m k
  other : (∀ m, outcome ≠ .message m) → ∃ e, c.front stream = .reject e

/-- The length field, read where the buffer has more than the frame's head. -/
theorem Filled.getReadableInt32 (h : Filled b content) :
    b.getReadableInt32 = .ok (readInt32 content) := by
  rw [getReadableInt32_eq h.wf, h.readable]

/-- `Parse` looks at the body of the frame the buffer starts with. -/
theorem parse_readable (hb : b.Wf) {n : ℕ} (hmin : c.tag.length + 4 ≤ n) (hmax : n ≤ 67108864)
    (hn : 4 + n ≤ b.readable.length) :
    c.parse (b.buffer.drop (addSize b.readingIndex 4)) n = .ok (c.check (slice b.readable 4 n)) := by
  have h2 := hb.writing_le
  have h3 := hb.size_le
  have h4 := maxSize_lt
  have hlen := hb.length_readable
  rw [addSize_eq (by omega), parse_eq hmin (by rw [List.length_drop]; omega) (by omega)]
  have hbody : (b.buffer.drop (b.readingIndex + 4)).take n = slice b.readable 4 n := by
    rw [slice, IoBuffer.readable, drop_slice, slice, List.take_take, Nat.min_eq_left (by omega)]
  rw [hbody]

/-- A buffer that holds one frame is empty when the frame is dropped. -/
theorem Filled.refresh (h : Filled b content) : Filled (b.refresh content.length) [] := by
  have hlen : ¬ content.length < b.getReadableBytes := by
    rw [h.wf.getReadableBytes_length, h.readable]
    exact Nat.lt_irrefl _
  rw [IoBuffer.refresh, if_neg hlen]
  rcases refreshRW_spec h.wf with ⟨hwf, hread⟩
  exact ⟨hwf, hread, rfl, rfl⟩

/-- A call first reads the length, the tag and the checksum of a frame without payload. -/
theorem headSize_eq (hfit : c.tag.length + 8 < 2147483648) :
    toSize (toInt32 (c.kMinMessageLength + kHeaderLength)) = c.tag.length + 8 := by
  rw [kMinMessageLength_eq hfit, kHeaderLength, toInt32_eq (by omega) (by omega),
    toSize_eq (by omega) (by omega)]
  omega

namespace Announces

variable {buf : List UInt8} {n : ℕ} (ann : c.Announces buf n)
include ann

theorem le_max : n ≤ 67108864 := by
  have hmax := ann.max
  unfold kMaxMessageLength at hmax
  omega

theorem frameSize_eq : toSize (kHeaderLength + (n : ℤ)) = 4 + n := by
  have hmax := ann.le_max
  rw [kHeaderLength, toSize_eq (by omega) (by omega)]
  omega

theorem in_range : ¬ (kMaxMessageLength < (n : ℤ) ∨ (n : ℤ) < c.tag.length + 4) := by
  have hmin := ann.min
  have hmax := ann.max
  omega

end Announces

variable (c) in
/-- What a call comes to that finds `content` in the buffer. -/
inductive SyncResult (content inbound : List UInt8) (results : List ℤ) :
    Option (Outcome μ × ReadState) → Prop
  | waits (short : Flowing results →
      results.length < inbound.length ∨ c.front (content ++ inbound) = .wait) :
      SyncResult content inbound results none
  | badLength {b' : IoBuffer} {results' : List ℤ} {k : ℕ} (hk : k = c.tag.length + 8 - content.length)
      (guard : c.tag.length + 8 ≤ (content ++ inbound).length)
      (range : kMaxMessageLength < readInt32 (content ++ inbound) ∨
        readInt32 (content ++ inbound) < c.tag.length + 4)
      (filled : Filled b' (content ++ inbound.take k)) :
      SyncResult content inbound results
        (some (.error .kInvalidLength, b', inbound.drop k, results'))
  | invalid {b' : IoBuffer} {results' : List ℤ} {n k : ℕ} {e : ErrorCode}
      (hk : k = 4 + n - content.length) (ann : c.Announces (content ++ inbound) n)
      (complete : 4 + n ≤ (content ++ inbound).length)
      (bad : c.check (slice (content ++ inbound) 4 n) = .error e)
      (filled : Filled b' (content ++ inbound.take k)) :
      SyncResult content inbound results (some (.error e, b', inbound.drop k, results'))
  | frame {b' : IoBuffer} {results' : List ℤ} {n k : ℕ} {m : μ}
      (hk : k = 4 + n - content.length) (ann : c.Announces (content ++ inbound) n)
      (complete : 4 + n ≤ (content ++ inbound).length)
      (good : c.check (slice (content ++ inbound) 4 n) = .ok m)
      (filled : Filled b' (content ++ inbound.take k)) :
      SyncResult content inbound results
        (some (.message m, b'.refresh (4 + n), inbound.drop k, results'))

/-- A frame that is complete is announced without what comes behind it. -/
theorem Announces.of_append {buf x : List UInt8} {n : ℕ} (ann : c.Announces (buf ++ x) n)
    (h : 4 + n ≤ buf.length) : c.Announces buf n := by
  have hmin := ann.min
  have hlen := ann.len
  rw [readInt32_append (by omega)] at hlen
  exact ⟨by omega, hlen, ann.min, ann.max⟩

/-- What is taken from the stream and what is left of it. -/
theorem taken_append (content inbound : List UInt8) (k : ℕ) :
    content ++ inbound.take k ++ inbound.drop k = content ++ inbound := by
  rw [List.append_assoc, List.take_append_drop]

/-- One call without errors, whatever is in the buffer and comes in. -/
theorem onMessageSync_result (inbound : List UInt8) (hfit : c.tag.length + 8 < 2147483648)
    (h : Filled b content) (hres : NoError results) :
    ∃ r, c.onMessageSync true (b, inbound, results) = .ok r ∧
      c.SyncResult content inbound results r := by
  have hmin := kMinMessageLength_eq hfit
  rw [onMessageSync, if_pos rfl, headSize_eq hfit]
  rcases readUpTo_spec (c.tag.length + 8) inbound h (by omega) hres results.length with
    ⟨hr, hshort⟩ | ⟨b₁, results₁, hr, hsuffix₁, hcalls₁, hle₁, hb₁⟩
  · rw [hr]
    refine ⟨none, rfl, .waits ?_⟩
    intro hf
    by_cases hlen : inbound.length < c.tag.length + 8 - content.length
    · exact .inr (front_short hfit (by rw [List.length_append]; omega))
    · have := hshort hf
      omega
  -- the head of the stream is in the buffer
  have hcut := taken_append content inbound (c.tag.length + 8 - content.length)
  have hlen₁ : (content ++ inbound.take (c.tag.length + 8 - content.length)).length =
      content.length + (c.tag.length + 8 - content.length) := by
    rw [List.length_append, List.length_take_of_le hle₁]
  have hall : (content ++ inbound).length = content.length + inbound.length := List.length_append
  have hfield := readInt32_append (by omega :
    4 ≤ (content ++ inbound.take (c.tag.length + 8 - content.length)).length)
    (inbound.drop (c.tag.length + 8 - content.length))
  rw [hcut] at hfield
  rw [hr, ok_bind]
  simp only [hb₁.getReadableInt32, ok_bind, ← hfield, hmin]
  by_cases hrange : kMaxMessageLength < readInt32 (content ++ inbound) ∨
      readInt32 (content ++ inbound) < c.tag.length + 4
  · rw [if_pos hrange]
    exact ⟨_, rfl, .badLength rfl (by omega) hrange hb₁⟩
  · rw [if_neg hrange]
    have ann : c.Announces (content ++ inbound) (readInt32 (content ++ inbound)).toNat :=
      ⟨by omega, by omega, by omega, by omega⟩
    generalize (readInt32 (content ++ inbound)).toNat = n at ann
    have hmax := ann.le_max
    have hbody := ann.min
    rw [ann.len, ann.frameSize_eq]
    have hmore : c.tag.length + 8 - content.length +
        (4 + n - (content ++ inbound.take (c.tag.length + 8 - content.length)).length) =
        4 + n - content.length := by omega
    rcases readUpTo_spec (4 + n) (inbound.drop (c.tag.length + 8 - content.length)) hb₁ (by omega)
      (hres.suffix hsuffix₁) results₁.length with
      ⟨hr', hshort⟩ | ⟨b₂, results₂, hr', -, -, hle₂, hb₂⟩
    · rw [hr']
      refine ⟨none, rfl, .waits ?_⟩
      intro hf
      have hcalls := hcalls₁ hf
      have hmissing := hshort (hf.suffix hsuffix₁)
      rw [List.length_drop] at hmissing
      by_cases hfull : 4 + n ≤ (content ++ inbound).length
      · omega
      · exact .inr (by rw [front_announced hfit ann, if_neg hfull])
    -- the frame is in the buffer
    rw [List.append_assoc, ← List.take_add, hmore] at hb₂
    rw [List.drop_drop, hmore] at hr'
    rw [List.length_drop] at hle₂
    have hfull : 4 + n ≤ (content ++ inbound).length := by omega
    have hlen₂ : (content ++ inbound.take (4 + n - content.length)).length =
        content.length + (4 + n - content.length) := by
      rw [List.length_append, List.length_take_of_le (by omega)]
    have hslice : slice (content ++ inbound.take (4 + n - content.length)) 4 n =
        slice (content ++ inbound) 4 n := by
      rw [← taken_append content inbound (4 + n - content.length)]
      exact (slice_append_left _ (by omega)).symm
    have hparse := parse_readable (c := c) hb₂.wf ann.min hmax (by rw [hb₂.readable]; omega)
    rw [hb₂.readable] at hparse
    rw [hr', ok_bind]
    dsimp only
    rw [hparse, ok_bind, hslice]
    cases hcheck : c.check (slice (content ++ inbound) 4 n) with
    | ok m => exact ⟨_, rfl, .frame rfl ann hfull hcheck hb₂⟩
    | error e => exact ⟨_, rfl, .invalid rfl ann hfull hcheck hb₂⟩

/-- **One call decodes the front of the stream.** Without errors of `recv`, the
synchronous `OnMessage` does not return, or its outcome is the message at the
front of what was in the buffer and what comes in, and the buffer is left as
such a call finds it. -/
theorem onMessageSync_spec (inbound : List UInt8) (hfit : c.tag.length + 8 ≤ 1073741824)
    (h : c.Ready b content) (hres : NoError results) :
    c.onMessageSync true (b, inbound, results) = .ok none ∨
      ∃ outcome b' content' inbound' results',
        c.onMessageSync true (b, inbound, results) =
          .ok (some (outcome, b', inbound', results')) ∧
        c.Ready b' content' ∧ c.Decodes (content ++ inbound) outcome := by
  have hfit' : c.tag.length + 8 < 2147483648 := by omega
  rcases onMessageSync_result inbound hfit' h.filled hres with ⟨r, hr, hresult⟩
  have hshort := h.short
  have hl := lawful (c := c) hfit'
  -- a bad front of what is in the buffer now is that of the stream
  have hbad : ∀ {k e b' results' code}, (content ++ inbound.take k).length ≤ 1073741824 →
      Filled b' (content ++ inbound.take k) → c.front (content ++ inbound.take k) = .reject e →
      r = some (.error code, b', inbound.drop k, results') →
      ∃ outcome b' content' inbound' results',
        r = some (outcome, b', inbound', results') ∧ c.Ready b' content' ∧
          c.Decodes (content ++ inbound) outcome := by
    intro k e b' results' code hlen filled hfront hrr
    refine ⟨_, b', _, _, results', hrr, ⟨filled, .inr ⟨e, hfront⟩, hlen⟩, by simp, ?_⟩
    intro _
    rw [← taken_append content inbound k]
    exact hl.reject_append _ hfront
  rw [hr]
  simp only [Except.ok.injEq]
  cases hresult with
  | waits => exact .inl rfl
  | @badLength b' results' k hk guard range filled =>
    rw [List.length_append] at guard
    have hlen : (content ++ inbound.take k).length = content.length + k := by
      rw [List.length_append, List.length_take_of_le (by omega)]
    have hfield := readInt32_append (by omega : 4 ≤ (content ++ inbound.take k).length)
      (inbound.drop k)
    rw [taken_append] at hfield
    rw [hfield] at range
    exact .inr (hbad (by omega) filled (front_badLength hfit' (by omega) range) rfl)
  | @invalid b' results' n k e hk ann complete bad filled =>
    have hmax := ann.le_max
    rw [List.length_append] at complete
    have hlen : (content ++ inbound.take k).length = content.length + k := by
      rw [List.length_append, List.length_take_of_le (by omega)]
    rw [← taken_append content inbound k] at ann bad
    rw [slice_append_left _ (by omega)] at bad
    have hfront := front_complete hfit' (ann.of_append (by omega)) (by omega)
    rw [bad] at hfront
    exact .inr (hbad (by omega) filled hfront rfl)
  | @frame b' results' n k m hk ann complete good filled =>
    rw [List.length_append] at complete
    have hlen : (content ++ inbound.take k).length = content.length + k := by
      rw [List.length_append, List.length_take_of_le (by omega)]
    have hfront := front_complete hfit' ann (by rw [List.length_append]; exact complete)
    rw [good] at hfront
    rcases h.front with rfl | ⟨e, hrej⟩
    · -- the buffer holds the frame and nothing else
      have hempty := filled.refresh
      rw [hlen, hk, List.length_nil, Nat.zero_add, Nat.sub_zero] at hempty
      refine .inr ⟨_, _, [], _, results', rfl, ⟨hempty, .inl rfl, by simp⟩, ?_,
        fun hne => absurd rfl (hne m)⟩
      intro m' hm'
      cases hm'
      exact ⟨_, hfront⟩
    · rcases hl.reject_append inbound hrej with ⟨e', he'⟩
      cases he'.symm.trans hfront

end RpcCodec

/-! ## Channel -/

namespace Rpc

/-- `"RPC0"`. -/
def kRpcTag : List UInt8 := [82, 80, 67, 48]

structure RpcSyncChannel where
  codec : RpcCodec RpcMessage
  socketFd : ℤ
  ioBuffer : IoBuffer
  id : ℕ
  outstandingCalls : ℕ → Option OutstandingCall

/-- What the system calls of one `CallMethod` return: the two answers of
`CheckSocketStatusValid`, and the results of `send` and `recv`. -/
structure Kernel where
  sendValid : Bool
  sends : List ℤ
  receiveValid : Bool
  recvs : List ℤ
deriving DecidableEq, Repr

namespace RpcSyncChannel

def onRpcMessage (m : RpcMessage) (ch : RpcSyncChannel) : RpcSyncChannel × Effect :=
  match m.type with
  | .RESPONSE =>
    let call := (ch.outstandingCalls m.id).getD ⟨false, false⟩
    ({ ch with outstandingCalls := Function.update ch.outstandingCalls m.id none },
      if call.responseMessage then .complete call m.response else .nothing)
  | .REQUEST | .ERROR | .OTHER => (ch, .nothing)

/-- `CallMethod` before it waits: the call is registered under the next id. -/
def register (response done : Bool) (ch : RpcSyncChannel) : RpcSyncChannel :=
  let id := (ch.id + 1) % idRange
  { ch with
    id := id
    outstandingCalls := Function.update ch.outstandingCalls id (some ⟨response, done⟩) }

/-- `CallMethod`: the channel afterwards, the bytes that are left, and the
message it has handled, with its effect. Nothing changes `socket_fd_` between the
two tests of it. -/
def callMethod (service method : String) (request : List UInt8) (response done : Bool) (k : Kernel)
    (inbound : List UInt8) (ch : RpcSyncChannel) :
    Except Fault (Option (RpcSyncChannel × List UInt8 × Option (RpcMessage × Effect))) :=
  let ch := ch.register response done
  if ch.socketFd < 0 then .ok (some (ch, inbound, none))
  else do
    let sent ← ch.codec.sendSync k.sendValid k.sends
      ⟨.REQUEST, ch.id, some service, some method, some request, none, none⟩
    if sent then
      match ← ch.codec.onMessageSync k.receiveValid (ch.ioBuffer, inbound, k.recvs) with
      | none => return none
      | some (.message m, io, inbound, _) =>
        let r := ({ ch with ioBuffer := io } : RpcSyncChannel).onRpcMessage m
        return some (r.1, inbound, some (m, r.2))
      | some (_, io, inbound, _) => return some ({ ch with ioBuffer := io }, inbound, none)
    else return none

end RpcSyncChannel

/-- A channel and its server. -/
structure Session where
  channel : RpcSyncChannel
  inbound : List UInt8
  touched : List (ℕ × ℕ)

namespace Session

inductive Label where
  | serverSends (bytes : List UInt8)
  | callMethod (service method : String) (request : List UInt8) (response done : Bool) (k : Kernel)
deriving DecidableEq, Repr

/-- Whose objects the handling of a message uses. -/
def touches (id : ℕ) : Option (RpcMessage × Effect) → List (ℕ × ℕ)
  | some (m, .complete _ _) => [(id, m.id)]
  | _ => []

def step (s : Session) : Label → Option Session
  | .serverSends bytes => some { s with inbound := s.inbound ++ bytes }
  | .callMethod service method request response done k =>
    match s.channel.callMethod service method request response done k s.inbound with
    | .ok (some (ch, inbound, handled)) =>
      some ⟨ch, inbound, s.touched ++ touches ch.id handled⟩
    | .ok none => none
    | .error _ => none

/-- A channel as the constructor leaves it, with or without a connection. -/
def Init (s : Session) : Prop :=
  s.channel.codec.tag = kRpcTag ∧ IoBuffer.new IoBuffer.kInitialCapacity = .ok s.channel.ioBuffer ∧
    (∀ id, s.channel.outstandingCalls id = none) ∧ s.inbound = [] ∧ s.touched = []

def machine : Machine Session Label := ⟨Init, step⟩

/-- What the channel will read, from its buffer and from the socket. -/
def stream (s : Session) : List UInt8 := s.channel.ioBuffer.readable ++ s.inbound

/-! ## When a call leaves no entry -/

/-- The system call does not fail. -/
def NoRecvError (_ : Session) : Label → Prop
  | .serverSends _ => True
  | .callMethod _ _ _ _ _ k => IoBuffer.NoError k.recvs

/-- The next frame of the stream is a RESPONSE with this id. -/
def RepliesTo (s : Session) (id : ℕ) : Prop :=
  ∃ f m rest, s.stream = f ++ rest ∧ s.channel.codec.IsValidFrame f m ∧ m.type = .RESPONSE ∧
    m.id = id

/-- The channel can use its socket, and the next frame is the reply to the call. -/
def Answered (s : Session) : Label → Prop
  | .serverSends _ => True
  | .callMethod _ _ _ _ _ k =>
    IoBuffer.NoError k.recvs ∧ 0 ≤ s.channel.socketFd ∧ k.receiveValid = true ∧
      s.RepliesTo ((s.channel.id + 1) % idRange)

variable {s s' : Session} {l : Label}

theorem append_touches_none (touched : List (ℕ × ℕ)) (id : ℕ) : touched ++ touches id none = touched :=
  List.append_nil touched

/-- Between calls the buffer is as `OnMessage` leaves it. -/
structure Waiting (s : Session) : Prop where
  tag : s.channel.codec.tag = kRpcTag
  ready : ∃ content, s.channel.codec.Ready s.channel.ioBuffer content

theorem Waiting.fit (h : s.Waiting) : s.channel.codec.tag.length + 8 ≤ 1073741824 := by
  rw [h.tag]
  decide

/-- The calls that return. -/
inductive Returned (s : Session) (response done : Bool) (k : Kernel) : Session → Prop where
  | unconnected (hfd : s.channel.socketFd < 0) :
      Returned s response done k { s with channel := s.channel.register response done }
  | unusable (hfd : 0 ≤ s.channel.socketFd) (hvalid : k.receiveValid = false) :
      Returned s response done k { s with channel := s.channel.register response done }
  | handled (hfd : 0 ≤ s.channel.socketFd) (hvalid : k.receiveValid = true) (m : RpcMessage)
      (io : IoBuffer) (content inbound : List UInt8) (hready : s.channel.codec.Ready io content)
      (hfront : ∃ n, s.channel.codec.front s.stream = .accept m n) (ch : RpcSyncChannel) (e : Effect)
      (heq : RpcSyncChannel.onRpcMessage m
        { s.channel.register response done with ioBuffer := io } = (ch, e)) :
      Returned s response done k
        ⟨ch, inbound, s.touched ++ touches ch.id (some (m, e))⟩
  | failed (hfd : 0 ≤ s.channel.socketFd) (hvalid : k.receiveValid = true) (io : IoBuffer)
      (content inbound : List UInt8) (hready : s.channel.codec.Ready io content)
      (hfront : ∃ e, s.channel.codec.front s.stream = .reject e) :
      Returned s response done k
        ⟨{ s.channel.register response done with ioBuffer := io }, inbound, s.touched⟩

theorem callMethod_returned {service method : String} {request : List UInt8} {response done : Bool}
    {k : Kernel} (hw : s.Waiting) (hres : IoBuffer.NoError k.recvs)
    (h : s.step (.callMethod service method request response done k) = some s') :
    s.Returned response done k s' := by
  rcases hw.ready with ⟨content, hready⟩
  simp only [step] at h
  split at h
  · next ch inbound handled hcall =>
    cases h
    simp only [RpcSyncChannel.callMethod] at hcall
    split at hcall
    · next hfd =>
      cases hcall
      rw [append_touches_none]
      exact .unconnected hfd
    · next hfd =>
      have hfd : 0 ≤ s.channel.socketFd := Int.not_lt.mp hfd
      rcases bind_eq_ok hcall with ⟨sent, -, hcall⟩
      split at hcall
      · rcases bind_eq_ok hcall with ⟨r, hr, hcall⟩
        cases hvalid : k.receiveValid with
        | false =>
          rw [hvalid] at hr
          cases hr
          cases hcall
          rw [append_touches_none]
          exact .unusable hfd hvalid
        | true =>
          rw [hvalid] at hr
          rcases RpcCodec.onMessageSync_spec s.inbound hw.fit hready hres with
            hnone | ⟨outcome, io, content', inbound', results', hsome, hready', hdec⟩
          · cases hnone.symm.trans hr
            cases hcall
          · cases hsome.symm.trans hr
            have hstream : s.stream = content ++ s.inbound := by
              rw [stream, hready.filled.readable]
            rw [← hstream] at hdec
            -- without a message the channel keeps its entry
            have hfailed (hother : ∀ m, outcome ≠ .message m) : s.Returned response done k _ :=
              .failed hfd hvalid io content' inbound' hready' (hdec.other hother)
            cases outcome with
            | message m =>
              cases hcall
              exact .handled hfd hvalid m io content' _ hready' (hdec.message m rfl) _ _ rfl
            | nothing | error =>
              cases hcall
              rw [append_touches_none]
              apply hfailed
              intro m heq
              cases heq
      · cases hcall
  · cases h
  · cases h

/-- The reply is next exactly if the decoder accepts it. -/
theorem repliesTo_iff (hw : s.Waiting) {id : ℕ} :
    s.RepliesTo id ↔
      ∃ m n, s.channel.codec.front s.stream = .accept m n ∧ m.type = .RESPONSE ∧ m.id = id := by
  have hfit : s.channel.codec.tag.length + 8 < 2147483648 := by
    have := hw.fit
    omega
  have hl := RpcCodec.lawful hfit
  constructor
  · rintro ⟨f, m, rest, hstream, hframe, htype, hid⟩
    have hf := (RpcCodec.isFrame_iff hfit).mpr hframe
    exact ⟨m, f.length, by rw [hstream]; exact hl.accept_append rest hf, htype, hid⟩
  · rintro ⟨m, n, hfront, htype, hid⟩
    refine ⟨s.stream.take n, m, s.stream.drop n, (List.take_append_drop n _).symm, ?_, htype, hid⟩
    apply (RpcCodec.isFrame_iff hfit).mp
    have hlen : (s.stream.take n).length = n := List.length_take_of_le (hl.accept_pos hfront).2
    rw [IsFrame, hlen]
    exact hl.accept_take hfront

/-- A message changes nothing but the table, and that only as a RESPONSE. -/
theorem onRpcMessage_eq {m : RpcMessage} {ch ch' : RpcSyncChannel} {e : Effect}
    (h : ch.onRpcMessage m = (ch', e)) :
    ch'.codec = ch.codec ∧ ch'.ioBuffer = ch.ioBuffer ∧ ch'.id = ch.id ∧
      ((m.type = .RESPONSE ∧
          ch'.outstandingCalls = Function.update ch.outstandingCalls m.id none) ∨
        (m.type ≠ .RESPONSE ∧ ch'.outstandingCalls = ch.outstandingCalls ∧ e = .nothing)) := by
  rw [RpcSyncChannel.onRpcMessage] at h
  split at h <;> rename_i htype <;> cases h
  · exact ⟨rfl, rfl, rfl, .inl ⟨htype, rfl⟩⟩
  · exact ⟨rfl, rfl, rfl, .inr ⟨by simp [htype], rfl, rfl⟩⟩
  · exact ⟨rfl, rfl, rfl, .inr ⟨by simp [htype], rfl, rfl⟩⟩
  · exact ⟨rfl, rfl, rfl, .inr ⟨by simp [htype], rfl, rfl⟩⟩

theorem Waiting.returned {response done : Bool} {k : Kernel} (hw : s.Waiting)
    (h : s.Returned response done k s') : s'.Waiting := by
  cases h with
  | unconnected => exact ⟨hw.tag, hw.ready⟩
  | unusable => exact ⟨hw.tag, hw.ready⟩
  | handled hfd hvalid m io content inbound hready hfront ch e heq =>
    rcases onRpcMessage_eq heq with ⟨hcodec, hio, -, -⟩
    refine ⟨?_, content, ?_⟩
    · rw [hcodec]
      exact hw.tag
    · rw [hcodec, hio]
      exact hready
  | failed hfd hvalid io content inbound hready => exact ⟨hw.tag, content, hready⟩

theorem waiting (h : machine.Reachable NoRecvError s) : s.Waiting := by
  refine h.invariant ?_ ?_
  · rintro s ⟨htag, hnew, -⟩
    rcases RpcCodec.Filled.new with ⟨io, hio, hfilled⟩
    cases hnew.symm.trans hio
    exact ⟨htag, [], hfilled, .inl rfl, Nat.zero_le _⟩
  · intro s l s' _ hw hok hs
    change step s l = some s' at hs
    cases l with
    | serverSends bytes =>
      cases hs
      exact ⟨hw.tag, hw.ready⟩
    | callMethod service method request response done k =>
      exact hw.returned (callMethod_returned hw hok hs)

/-- **When a call leaves no entry.** Whatever has happened before, a call that
returns has left `outstanding_calls_` exactly if the socket was usable and the
next frame of the stream was a RESPONSE with its id. -/
theorem entry_gone_iff {service method : String} {request : List UInt8} {response done : Bool}
    {k : Kernel} (h : machine.Reachable NoRecvError s) (hres : IoBuffer.NoError k.recvs)
    (hs : s.step (.callMethod service method request response done k) = some s') :
    s'.channel.outstandingCalls ((s.channel.id + 1) % idRange) = none ↔
      0 ≤ s.channel.socketFd ∧ k.receiveValid = true ∧
        s.RepliesTo ((s.channel.id + 1) % idRange) := by
  have hw := waiting h
  rw [repliesTo_iff hw]
  cases callMethod_returned hw hres hs with
  | unconnected hfd =>
    simp only [RpcSyncChannel.register, Function.update_self, reduceCtorEq, false_iff]
    omega
  | unusable hfd hvalid =>
    simp [RpcSyncChannel.register, hvalid]
  | handled hfd hvalid m io content inbound hready hfront ch e heq =>
    rcases hfront with ⟨n, hfront⟩
    rcases onRpcMessage_eq heq with ⟨-, -, -, ⟨htype, htable⟩ | ⟨htype, htable, -⟩⟩
    · -- a RESPONSE: it takes the entry away if it has the id
      simp only [htable, RpcSyncChannel.register, hfront, hfd, hvalid, true_and]
      by_cases hid : m.id = (s.channel.id + 1) % idRange
      · simp only [hid, Function.update_self, true_iff]
        exact ⟨m, n, rfl, htype, hid⟩
      · simp only [Function.update_of_ne (Ne.symm hid), Function.update_self, reduceCtorEq,
          false_iff]
        rintro ⟨m', n', hm', -, hid'⟩
        cases hm'
        exact hid hid'
    · simp only [htable, RpcSyncChannel.register, Function.update_self, reduceCtorEq, false_iff,
        hfront]
      rintro ⟨-, -, m', n', hm', htype', -⟩
      cases hm'
      exact htype htype'
  | failed hfd hvalid io content inbound hready hfront =>
    rcases hfront with ⟨e, hfront⟩
    simp only [RpcSyncChannel.register, Function.update_self, reduceCtorEq, false_iff, hfront]
    rintro ⟨-, -, m, n, hm, -⟩
    cases hm

/-- No entry is left, and every call has used its own objects only. -/
structure Clean (s : Session) : Prop where
  waiting : s.Waiting
  table : ∀ id, s.channel.outstandingCalls id = none
  touched : ∀ t ∈ s.touched, t.1 = t.2

theorem clean (h : machine.Reachable Answered s) : s.Clean := by
  refine h.invariant ?_ ?_
  · intro s hinit
    refine ⟨waiting (.init hinit), hinit.2.2.1, ?_⟩
    rw [hinit.2.2.2.2]
    nofun
  · intro s l s' _ hc hok hs
    change step s l = some s' at hs
    cases l with
    | serverSends bytes =>
      cases hs
      exact ⟨⟨hc.waiting.tag, hc.waiting.ready⟩, hc.table, hc.touched⟩
    | callMethod service method request response done k =>
      rcases hok with ⟨hres, hfd, hvalid, hreply⟩
      have hret := callMethod_returned hc.waiting hres hs
      have hw' := hc.waiting.returned hret
      rcases (repliesTo_iff hc.waiting).mp hreply with ⟨m, n, hm, htype, hid⟩
      cases hret with
      | unconnected hfd' => omega
      | unusable _ hvalid' => simp [hvalid] at hvalid'
      | handled _ _ m' io content inbound hready hfront ch e heq =>
        -- the message is the reply, and the table held nothing else
        rcases hfront with ⟨n', hm'⟩
        cases hm.symm.trans hm'
        rcases onRpcMessage_eq heq with ⟨-, -, hchid, ⟨-, htable⟩ | ⟨hne, -⟩⟩
        · refine ⟨hw', ?_, ?_⟩
          · intro id
            simp only [htable, RpcSyncChannel.register, hid]
            by_cases hsame : id = (s.channel.id + 1) % idRange
            · rw [hsame, Function.update_self]
            · rw [Function.update_of_ne hsame, Function.update_of_ne hsame, hc.table id]
          · intro t ht
            rcases List.mem_append.mp ht with ht | ht
            · exact hc.touched t ht
            · cases e with
              | complete call parsed =>
                rw [List.mem_singleton.mp ht]
                exact hchid.trans hid.symm
              | nothing | callService | send => cases ht
        · exact absurd htype hne
      | failed _ _ io content inbound hready hfront =>
        rcases hfront with ⟨e, he⟩
        cases hm.symm.trans he

/-- **A call that gets its reply leaves nothing behind.** In every run in which
each call finds a usable socket and its own RESPONSE as the next frame,
`outstanding_calls_` is empty after every call, and no call uses the response
object or the closure of another. -/
theorem sync_calls_leave_no_entry (h : machine.Reachable Answered s) :
    (∀ id, s.channel.outstandingCalls id = none) ∧ ∀ t ∈ s.touched, t.1 = t.2 :=
  ⟨(clean h).table, (clean h).touched⟩

/-- A codec whose payload is one byte, the id of a RESPONSE. -/
def idCodec : RpcCodec RpcMessage where
  tag := kRpcTag
  adler32 := RpcCodec.rpc0.adler32
  parseFromArray
    | [id] => some (RpcAsyncChannel.doneCallback [] id.toNat)
    | _ => none
  byteSizeLong _ := 1
  serializeWithCachedSizesToArray m := [UInt8.ofNat m.id]

/-- A new channel with this codec. -/
def fresh (socketFd : ℤ) : Session :=
  ⟨⟨idCodec, socketFd, ⟨List.replicate 1032 0, 8, 8⟩, 0, fun _ => none⟩, [], []⟩

theorem fresh_init (socketFd : ℤ) : machine.Init (fresh socketFd) :=
  ⟨rfl, show IoBuffer.new IoBuffer.kInitialCapacity = .ok ⟨List.replicate 1032 0, 8, 8⟩ by
    decide +kernel, fun _ => rfl, rfl, rfl⟩

/-- The theorem at a call whose reply arrives in three pieces. -/
theorem sync_call_answered :
    ∃ s : Session, machine.Reachable Answered s ∧ s.touched = [(1, 1)] ∧
      ∀ id, s.channel.outstandingCalls id = none := by
  let k : Kernel := ⟨true, [13], true, [5, 100, 100]⟩
  let s₁ : Session := { fresh 5 with inbound := idCodec.frameOf [1] }
  have hs₁ : machine.Reachable Answered s₁ :=
    .step (.serverSends (idCodec.frameOf [1])) (.init (fresh_init 5)) trivial rfl
  have hrun : (s₁.step (.callMethod "S" "M" [] true true k)).any
      (fun s => decide (s.touched = [(1, 1)])) = true := by decide +kernel
  rcases (Option.any_eq_true _ _).mp hrun with ⟨s, hstep, htouched⟩
  have hs : machine.Reachable Answered s := by
    refine .step (.callMethod "S" "M" [] true true k) hs₁ ⟨?_, by decide, rfl, ?_⟩ hstep
    · intro n hn
      simp only [k, List.mem_cons, List.not_mem_nil, or_false] at hn
      omega
    · exact ⟨idCodec.frameOf [1], RpcAsyncChannel.doneCallback [] 1, [], by decide +kernel,
        RpcCodec.isValidFrame_frameOf (by decide +kernel) (by decide +kernel), rfl, rfl⟩
  exact ⟨s, hs, of_decide_eq_true htouched, (sync_calls_leave_no_entry hs).1⟩

/-- Without a connection a call leaves its entry. With one, a RESPONSE to another
call makes it return too, and the next call uses the objects it has left. -/
theorem unanswered_call_is_used_later :
    (∃ s : Session, machine.Reachable (fun _ _ => True) s ∧ s.channel.socketFd < 0 ∧
      s.channel.id = 1 ∧ s.channel.outstandingCalls 1 = some ⟨true, true⟩) ∧
    ∃ s : Session, machine.Reachable (fun _ _ => True) s ∧ s.channel.id = 2 ∧
      s.channel.outstandingCalls 2 = some ⟨true, true⟩ ∧ s.touched = [(2, 1)] := by
  constructor
  · exact machine.exists_of_run (fun _ _ => True) (fresh_init (-100))
      [.callMethod "S" "M" [] true true ⟨true, [], true, []⟩]
      (fun s => s.channel.socketFd < 0 ∧ s.channel.id = 1 ∧
        s.channel.outstandingCalls 1 = some ⟨true, true⟩) (by decide +kernel)
  · exact machine.exists_of_run (fun _ _ => True) (fresh_init 5)
      [.serverSends (idCodec.frameOf [2]), .callMethod "S" "M" [] true true ⟨true, [13], true, [12, 1]⟩,
        .serverSends (idCodec.frameOf [1]), .callMethod "S" "M" [] true true ⟨true, [13], true, [12, 1]⟩]
      (fun s => s.channel.id = 2 ∧ s.channel.outstandingCalls 2 = some ⟨true, true⟩ ∧
        s.touched = [(2, 1)]) (by decide +kernel)

end Session

end Rpc

end Taotu
