import Taotu.Lib.Framing
import Taotu.Buffer.ByteQueue

/-!
# Taotu.Rpc.Codec — the RPC frame codec (`rpc_codec.h`, `rpc_codec.cc`)

A frame is a four-byte length, then that many bytes of body: the tag of the
codec, the serialized message and a checksum over the two.

1. **Decoder.** One turn of the loop of the asynchronous `OnMessage` looks at
   the front of the input buffer (`frontOf`) and waits, calls the error callback,
   or delivers a message and drops its frame. `front` is that look on a byte
   string, `onMessage` is the loop on an `IoBuffer`.
2. **What a look can find.** For a tag whose lengths fit an `int` the five
   outcomes are those of `Look`, and none of them depends on later input
   (`lawful`). The loop on an `IoBuffer` is `Lib.drain` on its readable bytes
   (`onMessage_drain`).
3. **Encoder.** `FillEmptyBuffer` on a fresh buffer leaves one frame readable
   (`encode_eq`).

Reading outside the memory a pointer was given for is the fault `outOfBounds`.
`int` arithmetic is modulo `2 ^ 32`.
-/

namespace Taotu

open Lib IoBuffer

/-- Conversion of an `int` to `uint32_t`. -/
def toUInt32 (x : ℤ) : ℕ := (x % 4294967296).toNat

/-- Conversion of an `int` to `size_t`. -/
def toSize (x : ℤ) : ℕ := (x % (sizeRange : ℤ)).toNat

theorem toInt32_eq {x : ℤ} (h : -2147483648 ≤ x) (h' : x < 2147483648) : toInt32 x = x := by
  rw [toInt32, Int.bmod_def]
  split <;> omega

theorem toInt32_range (x : ℤ) : -2147483648 ≤ toInt32 x ∧ toInt32 x < 2147483648 := by
  rw [toInt32, Int.bmod_def]
  split <;> omega

theorem mod_eq_of_toInt32_eq {x y : ℕ} (h : toInt32 x = toInt32 y) :
    x % 4294967296 = y % 4294967296 := by
  rw [toInt32, toInt32] at h
  exact mod_eq_of_bmod_eq h

theorem toInt32_mod (x : ℕ) : toInt32 ((x % 4294967296 : ℕ) : ℤ) = toInt32 x := by
  rw [toInt32, toInt32]
  exact bmod_mod x 4294967296

theorem toUInt32_eq {x : ℤ} (h : 0 ≤ x) (h' : x < 4294967296) : toUInt32 x = x.toNat := by
  rw [toUInt32, Int.emod_eq_of_lt h h']

/-- A word survives the way through `int32_t`. -/
theorem toUInt32_toInt32 (x : ℕ) : toUInt32 (toInt32 x) = x % 4294967296 :=
  bmod_toNat x 4294967296

theorem toSize_eq {x : ℤ} (h : 0 ≤ x) (h' : x < 4294967296) : toSize x = x.toNat := by
  rw [toSize, Int.emod_eq_of_lt h (by unfold sizeRange; omega)]

/-- `GetReadableInt32` on the readable bytes. -/
def readInt32 (buf : List UInt8) : ℤ :=
  if buf.length < 4 then 0 else toInt32 (ofBeBytes (buf.take 4))

/-- A codec: its tag, and what it takes from zlib and protobuf. -/
structure RpcCodec (μ : Type) where
  tag : List UInt8
  adler32 : List UInt8 → ℕ
  parseFromArray : List UInt8 → Option μ
  byteSizeLong : μ → ℕ
  serializeWithCachedSizesToArray : μ → List UInt8

namespace RpcCodec

def kHeaderLength : ℤ := 4
def kChecksumLength : ℤ := 4
def kMaxMessageLength : ℤ := 64 * 1024 * 1024

inductive ErrorCode where
  | kNoError
  | kInvalidLength
  | kChecksumError
  | kInvalidNameLength
  | kUnknownMessageType
  | kParseError
deriving DecidableEq, Repr

/-- Why the loop of `OnMessage` stops at a front: the error callback gets a
code, or a read leaves its memory. -/
inductive Failure where
  | code (e : ErrorCode)
  | fault (f : Fault)
deriving DecidableEq, Repr

variable {μ : Type} (c : RpcCodec μ)

/-! ## Decoder -/

/-- Read `n` bytes at `off` behind a pointer to `mem`. -/
def peek (mem : List UInt8) (off n : ℤ) : Except Fault (List UInt8) :=
  if 0 ≤ off ∧ 0 ≤ n ∧ off + n ≤ mem.length then .ok (slice mem off.toNat n.toNat)
  else .error .outOfBounds

/-- The sum is a `size_t`, the constant an `int`. -/
def kMinMessageLength : ℤ := toInt32 (addSize c.tag.length kChecksumLength.toNat)

def asInt32 (mem : List UInt8) (off : ℤ) : Except Fault ℤ := do
  let be32 ← peek mem off 4
  return toInt32 (ofBeBytes be32)

def checksum (bytes : List UInt8) : ℤ := toInt32 (c.adler32 bytes)

def validateChecksum (buffer : List UInt8) (length : ℤ) : Except Fault Bool := do
  let expectedChecksum ← asInt32 buffer (length - kChecksumLength)
  let bytes ← peek buffer 0 (length - kChecksumLength)
  return expectedChecksum = c.checksum bytes

/-- `ok` carries the message of `kNoError`. -/
def parse (buffer : List UInt8) (length : ℤ) : Except Fault (Except ErrorCode μ) := do
  let valid ← c.validateChecksum buffer length
  if valid then
    let start ← peek buffer 0 c.tag.length
    if start = c.tag then
      let dataLength := toInt32 (length - kChecksumLength - toInt32 c.tag.length)
      let data ← peek buffer c.tag.length dataLength
      match c.parseFromArray data with
      | some message => return .ok message
      | none => return .error .kParseError
    else return .error .kUnknownMessageType
  else return .error .kChecksumError

/-- What the loop does with the outcome of `Parse` for a frame of `n` bytes. -/
def settle (n : ℕ) : Except Fault (Except ErrorCode μ) → Verdict μ Failure
  | .ok (.ok message) => .accept message n
  | .ok (.error e) => .reject (.code e)
  | .error f => .reject (.fault f)

/-- The body of the loop of `OnMessage`: `readable` bytes are in the buffer,
`len` is the length field in front of them and `body` points behind it. -/
def frontOf (readable : ℕ) (len : ℤ) (body : List UInt8) : Verdict μ Failure :=
  if kMaxMessageLength < len ∨ len < c.kMinMessageLength then .reject (.code .kInvalidLength)
  else if toSize (kHeaderLength + len) ≤ readable then
    settle (toSize (kHeaderLength + len)) (c.parse body len)
  else .wait

/-- One look at the front of the readable bytes. -/
def front (buf : List UInt8) : Verdict μ Failure :=
  if buf.length < toUInt32 (toInt32 (c.kMinMessageLength + kHeaderLength)) then .wait
  else c.frontOf buf.length (readInt32 buf) (buf.drop 4)

/-- One look at the front of an `IoBuffer`. -/
def frontIo (io : IoBuffer) : Verdict μ Failure :=
  if io.getReadableBytes < toUInt32 (toInt32 (c.kMinMessageLength + kHeaderLength)) then .wait
  else
    match io.getReadableInt32 with
    | .ok len => c.frontOf io.getReadableBytes len (io.buffer.drop (addSize io.readingIndex 4))
    | .error f => .reject (.fault f)

/-- The loop of `OnMessage` around the look: what it reports to the callbacks,
and the buffer after it. The fuel bounds its turns. -/
def onMessageLoop (look : IoBuffer → Verdict μ Failure) :
    ℕ → IoBuffer → List (Report μ Failure) × IoBuffer
  | 0, io => ([], io)
  | fuel + 1, io =>
    match look io with
    | .wait => ([], io)
    | .reject e => ([.error e], io)
    | .accept message n =>
      let r := onMessageLoop look fuel (io.refresh n)
      (.deliver message :: r.1, r.2)

/-- The asynchronous `OnMessage` without a raw callback, with an error callback
that leaves the buffer alone. -/
def onMessage (fuel : ℕ) (io : IoBuffer) : List (Report μ Failure) × IoBuffer :=
  onMessageLoop c.frontIo fuel io

/-- Append each chunk to the readable bytes and call `OnMessage` after it. -/
def receive (chunks : List (List UInt8)) : List (Report μ Failure) × List UInt8 :=
  feed c.front [] chunks

/-! ## Encoder -/

def serialize2Buffer (message : μ) (io : IoBuffer) : Except Fault (ℤ × IoBuffer) := do
  let byteSize := c.byteSizeLong message
  let io ← io.ensureWritableSpace (addSize byteSize kChecksumLength.toNat)
  let bytes := c.serializeWithCachedSizesToArray message
  let io ← io.store io.writingIndex bytes
  if bytes.length ≠ byteSize then return (-1, io)
  else return (toInt32 byteSize, io.refreshW byteSize)

def fillEmptyBuffer (io : IoBuffer) (message : μ) : Except Fault IoBuffer := do
  let io ← io.append c.tag
  let (_, io) ← c.serialize2Buffer message io
  let bytes ← io.load io.readingIndex (toUInt32 (toInt32 io.getReadableBytes))
  let io ← io.appendInt32 (c.checksum bytes)
  let len := beBytes 4 (toUInt32 (toInt32 io.getReadableBytes))
  io.setHeadContent len

/-- The bytes `Send` hands to the connection for a message. -/
def encode (message : μ) : Except Fault (List UInt8) := do
  let io ← IoBuffer.new kInitialCapacity
  let io ← c.fillEmptyBuffer io message
  return io.readable

/-! ## The body of a frame -/

variable {c}

theorem peek_ok {mem : List UInt8} {off n : ℕ} (h : off + n ≤ mem.length) :
    peek mem off n = .ok (slice mem off n) := by
  rw [peek, if_pos (by omega), Int.toNat_natCast, Int.toNat_natCast]

variable (c) in
/-- What `Parse` finds in a complete body. -/
def check (body : List UInt8) : Except ErrorCode μ :=
  let content := body.take (body.length - 4)
  if toInt32 (ofBeBytes (body.drop (body.length - 4))) = c.checksum content then
    if content.take c.tag.length = c.tag then
      match c.parseFromArray (content.drop c.tag.length) with
      | some message => .ok message
      | none => .error .kParseError
    else .error .kUnknownMessageType
  else .error .kChecksumError

theorem validateChecksum_eq {mem : List UInt8} {n : ℕ} (hmin : 4 ≤ n) (hn : n ≤ mem.length) :
    c.validateChecksum mem n = .ok (decide
      (toInt32 (ofBeBytes ((mem.take n).drop (n - 4))) = c.checksum (mem.take (n - 4)))) := by
  have hlen : (n : ℤ) - kChecksumLength = ((n - 4 : ℕ) : ℤ) := by
    unfold kChecksumLength
    omega
  have hsum : peek mem ((n - 4 : ℕ) : ℤ) 4 = .ok ((mem.take n).drop (n - 4)) := by
    rw [List.drop_take, show n - (n - 4) = 4 by omega]
    exact @peek_ok mem (n - 4) 4 (by omega)
  have hcontent : peek mem 0 ((n - 4 : ℕ) : ℤ) = .ok (mem.take (n - 4)) :=
    @peek_ok mem 0 (n - 4) (by omega)
  rw [validateChecksum, asInt32, hlen, hsum, ok_bind, hcontent]
  rfl

/-- `Parse` reads the body it is told the length of and nothing else. -/
theorem parse_eq {mem : List UInt8} {n : ℕ} (hmin : c.tag.length + 4 ≤ n) (hn : n ≤ mem.length)
    (hmax : n < 2147483648) : c.parse mem n = .ok (c.check (mem.take n)) := by
  have hdata : toInt32 ((n : ℤ) - kChecksumLength - toInt32 c.tag.length) =
      ((n - 4 - c.tag.length : ℕ) : ℤ) := by
    have htag : toInt32 c.tag.length = c.tag.length := toInt32_eq (by omega) (by omega)
    unfold kChecksumLength
    rw [htag, toInt32_eq (by omega) (by omega)]
    omega
  have hbody : (mem.take n).length = n := by simp [hn]
  have hcontent : (mem.take n).take (n - 4) = mem.take (n - 4) := by
    rw [List.take_take, Nat.min_eq_left (by omega)]
  -- the tag and the payload, as parts of the body
  have htag : peek mem 0 (c.tag.length : ℤ) = .ok ((mem.take (n - 4)).take c.tag.length) := by
    rw [List.take_take, Nat.min_eq_left (by omega)]
    exact @peek_ok mem 0 c.tag.length (by omega)
  have hpayload : peek mem c.tag.length ((n - 4 - c.tag.length : ℕ) : ℤ) =
      .ok ((mem.take (n - 4)).drop c.tag.length) := by
    rw [List.drop_take]
    exact peek_ok (by omega)
  rw [parse, validateChecksum_eq (by omega) hn, ok_bind, check, hbody, hcontent, htag, ok_bind]
  simp only [decide_eq_true_eq]
  split
  · split
    · rw [hdata, hpayload, ok_bind]
      split <;> rfl
    · rfl
  · rfl

/-- A checksum agrees with four bytes exactly when they are its encoding. -/
theorem checksum_eq_iff {bytes sum : List UInt8} (hsum : sum.length = 4) :
    toInt32 (ofBeBytes sum) = c.checksum bytes ↔ sum = beBytes 4 (c.adler32 bytes) := by
  have hword : (256 : ℕ) ^ 4 = 4294967296 := by norm_num
  constructor
  · intro h
    have hmod := mod_eq_of_toInt32_eq h
    rw [← beBytes_ofBeBytes sum, hsum, ← beBytes_mod, hword, hmod, ← hword, beBytes_mod]
  · rintro rfl
    rw [ofBeBytes_beBytes, hword, toInt32_mod, checksum]

/-- A body passes exactly when it is the tag, a payload protobuf accepts, and
the checksum of the two. -/
theorem check_ok_iff {body : List UInt8} {message : μ} (hlen : 4 ≤ body.length) :
    c.check body = .ok message ↔ ∃ payload,
      body = c.tag ++ payload ++ beBytes 4 (c.adler32 (c.tag ++ payload)) ∧
        c.parseFromArray payload = some message := by
  constructor
  · intro h
    have hcut : (body.drop (body.length - 4)).length = 4 := by simp; omega
    rw [check] at h
    split at h
    · next hs =>
      split at h
      · next ht =>
        have hcontent : body.take (body.length - 4) =
            c.tag ++ (body.take (body.length - 4)).drop c.tag.length := by
          conv_lhs => rw [← List.take_append_drop c.tag.length (body.take (body.length - 4)), ht]
        refine ⟨(body.take (body.length - 4)).drop c.tag.length, ?_, ?_⟩
        · rw [← hcontent, ← (checksum_eq_iff hcut).mp hs, List.take_append_drop]
        · split at h
          · next hp =>
            cases h
            exact hp
          · cases h
      · cases h
    · cases h
  · rintro ⟨payload, rfl, hp⟩
    have hcut : (c.tag ++ payload ++ beBytes 4 (c.adler32 (c.tag ++ payload))).length - 4 =
        (c.tag ++ payload).length := by
      rw [List.length_append, length_beBytes]
      omega
    rw [check]
    simp only [hcut, List.take_left, List.drop_left, if_true, hp]
    rw [if_pos ((checksum_eq_iff (length_beBytes 4 _)).mpr rfl)]

/-! ## What a look can find -/

variable (c) in
/-- The front announces a frame with a body of `n` bytes. -/
structure Announces (buf : List UInt8) (n : ℕ) : Prop where
  guard : c.tag.length + 8 ≤ buf.length
  len : readInt32 buf = n
  min : c.tag.length + 4 ≤ n
  max : (n : ℤ) ≤ kMaxMessageLength

variable (c) in
/-- The outcomes of a look at the front of `buf`. -/
inductive Look (buf : List UInt8) : Verdict μ Failure → Prop
  | short (h : buf.length < c.tag.length + 8) : Look buf .wait
  | badLength (guard : c.tag.length + 8 ≤ buf.length)
      (range : kMaxMessageLength < readInt32 buf ∨ readInt32 buf < c.tag.length + 4) :
      Look buf (.reject (.code .kInvalidLength))
  | incomplete {n : ℕ} (ann : c.Announces buf n) (h : buf.length < 4 + n) : Look buf .wait
  | invalid {n : ℕ} {e : ErrorCode} (ann : c.Announces buf n) (h : 4 + n ≤ buf.length)
      (bad : c.check (slice buf 4 n) = .error e) : Look buf (.reject (.code e))
  | frame {n : ℕ} {message : μ} (ann : c.Announces buf n) (h : 4 + n ≤ buf.length)
      (good : c.check (slice buf 4 n) = .ok message) : Look buf (.accept message (4 + n))

theorem kMinMessageLength_eq (hfit : c.tag.length + 8 < 2147483648) :
    c.kMinMessageLength = c.tag.length + 4 := by
  have hadd : addSize c.tag.length kChecksumLength.toNat = c.tag.length + 4 :=
    addSize_eq (by unfold sizeRange kChecksumLength; omega)
  rw [kMinMessageLength, hadd, toInt32_eq (by omega) (by omega)]
  omega

/-- The guard of the loop asks for a frame without payload. -/
theorem guard_eq (hfit : c.tag.length + 8 < 2147483648) :
    toUInt32 (toInt32 (c.kMinMessageLength + kHeaderLength)) = c.tag.length + 8 := by
  rw [kMinMessageLength_eq hfit, kHeaderLength, toInt32_eq (by omega) (by omega),
    toUInt32_eq (by omega) (by omega)]
  omega

/-- The body of the loop, when `body` has what the length field announces. -/
theorem frontOf_announced (hfit : c.tag.length + 8 < 2147483648) {readable n : ℕ}
    {body : List UInt8} (hmin : c.tag.length + 4 ≤ n) (hmax : (n : ℤ) ≤ kMaxMessageLength)
    (hbody : readable ≤ body.length + 4) :
    c.frontOf readable n body =
      if 4 + n ≤ readable then settle (4 + n) (.ok (c.check (body.take n))) else .wait := by
  have hmax' : n ≤ 67108864 := by
    unfold kMaxMessageLength at hmax
    omega
  have hsize : toSize (kHeaderLength + n) = 4 + n := by
    rw [kHeaderLength, toSize_eq (by omega) (by omega)]
    omega
  rw [frontOf, kMinMessageLength_eq hfit, if_neg (by omega), hsize]
  split
  · next h => rw [parse_eq hmin (by omega) (by omega)]
  · rfl

theorem front_short (hfit : c.tag.length + 8 < 2147483648) {buf : List UInt8}
    (h : buf.length < c.tag.length + 8) : c.front buf = .wait := by
  rw [front, guard_eq hfit, if_pos h]

theorem front_badLength (hfit : c.tag.length + 8 < 2147483648) {buf : List UInt8}
    (guard : c.tag.length + 8 ≤ buf.length)
    (range : kMaxMessageLength < readInt32 buf ∨ readInt32 buf < c.tag.length + 4) :
    c.front buf = .reject (.code .kInvalidLength) := by
  rw [front, guard_eq hfit, if_neg (by omega), frontOf, kMinMessageLength_eq hfit, if_pos range]

theorem front_announced (hfit : c.tag.length + 8 < 2147483648) {buf : List UInt8} {n : ℕ}
    (ann : c.Announces buf n) :
    c.front buf =
      if 4 + n ≤ buf.length then settle (4 + n) (.ok (c.check (slice buf 4 n))) else .wait := by
  have hguard := ann.guard
  rw [front, guard_eq hfit, if_neg (by omega), ann.len,
    frontOf_announced hfit ann.min ann.max (by simp; omega), slice]

theorem front_complete (hfit : c.tag.length + 8 < 2147483648) {buf : List UInt8} {n : ℕ}
    (ann : c.Announces buf n) (h : 4 + n ≤ buf.length) :
    c.front buf = settle (4 + n) (.ok (c.check (slice buf 4 n))) := by
  rw [front_announced hfit ann, if_pos h]

/-- The front has too few bytes, a bad length, or announces a frame. -/
theorem look (hfit : c.tag.length + 8 < 2147483648) (buf : List UInt8) :
    c.Look buf (c.front buf) := by
  by_cases hguard : c.tag.length + 8 ≤ buf.length
  · by_cases hrange : kMaxMessageLength < readInt32 buf ∨ readInt32 buf < c.tag.length + 4
    · rw [front_badLength hfit hguard hrange]
      exact .badLength hguard hrange
    · have ann : c.Announces buf (readInt32 buf).toNat :=
        ⟨hguard, by omega, by omega, by omega⟩
      by_cases hlen : 4 + (readInt32 buf).toNat ≤ buf.length
      · rw [front_complete hfit ann hlen]
        cases hc : c.check (slice buf 4 (readInt32 buf).toNat) with
        | error e => exact .invalid ann hlen hc
        | ok message => exact .frame ann hlen hc
      · rw [front_announced hfit ann, if_neg hlen]
        exact .incomplete ann (by omega)
  · rw [front_short hfit (by omega)]
    exact .short (by omega)

/-! ## A look does not depend on later input -/

theorem readInt32_eq {buf : List UInt8} (h : 4 ≤ buf.length) :
    readInt32 buf = toInt32 (ofBeBytes (buf.take 4)) := by
  rw [readInt32, if_neg (by omega)]

theorem readInt32_append {buf : List UInt8} (h : 4 ≤ buf.length) (x : List UInt8) :
    readInt32 (buf ++ x) = readInt32 buf := by
  have hx : 4 ≤ (buf ++ x).length := by simp; omega
  rw [readInt32_eq hx, readInt32_eq h, List.take_append_of_le_length h]

namespace Announces

variable {buf : List UInt8} {n : ℕ} (ann : c.Announces buf n)
include ann

theorem append (x : List UInt8) : c.Announces (buf ++ x) n := by
  have h := ann.guard
  constructor
  · simp only [List.length_append]
    omega
  · rw [readInt32_append (by omega), ann.len]
  · exact ann.min
  · exact ann.max

/-- The announced frame announces itself. -/
theorem take (h : 4 + n ≤ buf.length) : c.Announces (buf.take (4 + n)) n := by
  have hguard := ann.guard
  have hmin := ann.min
  have hlen : (buf.take (4 + n)).length = 4 + n := by simp [h]
  constructor
  · omega
  · have hcut := readInt32_append (by omega : 4 ≤ (buf.take (4 + n)).length) (buf.drop (4 + n))
    rw [List.take_append_drop, ann.len] at hcut
    exact hcut.symm
  · exact hmin
  · exact ann.max

end Announces

/-- An accepted front starts with a complete announced frame that passes. -/
theorem front_accept (hfit : c.tag.length + 8 < 2147483648) {buf : List UInt8} {message : μ}
    {k : ℕ} (h : c.front buf = .accept message k) :
    ∃ n, c.Announces buf n ∧ k = 4 + n ∧ 4 + n ≤ buf.length ∧
      c.check (slice buf 4 n) = .ok message := by
  have hlook := look hfit buf
  rw [h] at hlook
  cases hlook with
  | frame ann hlen good => exact ⟨_, ann, rfl, hlen, good⟩

/-- **What the decoder decides about a front it never takes back.** -/
theorem lawful (hfit : c.tag.length + 8 < 2147483648) : Lawful c.front where
  nil_wait := front_short hfit (by simp)
  accept_pos := by
    intro buf message k h
    obtain ⟨n, -, hk, hlen, -⟩ := front_accept hfit h
    omega
  accept_append := by
    intro buf message k x h
    obtain ⟨n, ann, hk, hlen, hgood⟩ := front_accept hfit h
    rw [front_complete hfit (ann.append x) (by simp; omega), slice_append_left x hlen, hgood, hk]
    rfl
  accept_take := by
    intro buf message k h
    obtain ⟨n, ann, hk, hlen, hgood⟩ := front_accept hfit h
    have hfull : (buf.take (4 + n)).length = 4 + n := by simp [hlen]
    rw [hk, front_complete hfit (ann.take hlen) (by omega), slice_take le_rfl, hgood]
    rfl
  reject_append := by
    intro buf e x h
    have hlook := look hfit buf
    rw [h] at hlook
    cases hlook with
    | badLength guard range =>
      rw [← readInt32_append (by omega) x] at range
      exact ⟨_, front_badLength hfit (by simp; omega) range⟩
    | @invalid n e' ann hlen bad =>
      refine ⟨.code e', ?_⟩
      rw [front_complete hfit (ann.append x) (by simp; omega), slice_append_left x hlen, bad]
      rfl

/-- Whatever the tag, an empty buffer is no error. -/
theorem front_nil : c.front [] = .wait := by
  rw [front]
  split
  · rfl
  · next h =>
    -- the guard lets no bytes pass only when the narrowed minimum is `-4`
    have hmin : c.kMinMessageLength = -4 := by
      have hrange := toInt32_range (addSize c.tag.length kChecksumLength.toNat)
      rw [← kMinMessageLength] at hrange
      have hzero : toUInt32 (toInt32 (c.kMinMessageLength + kHeaderLength)) = 0 := by
        simpa using h
      have hback := toInt32_range (c.kMinMessageLength + kHeaderLength)
      rw [toUInt32] at hzero
      unfold toInt32 kHeaderLength at hzero hback
      rw [Int.bmod_def] at hzero hback
      split at hzero <;> omega
    rw [frontOf, hmin, if_neg (by decide), if_neg (by decide)]

/-! ## The loop on an `IoBuffer` -/

theorem getReadableInt32_eq {io : IoBuffer} (hio : io.Wf) :
    io.getReadableInt32 = .ok (readInt32 io.readable) := by
  rw [IoBuffer.getReadableInt32, readInt32, hio.getReadableBytes_length]
  split
  · rfl
  · next h => rw [load_take hio (by rw [hio.getReadableBytes_length]; omega), ok_bind]; rfl

/-- A look at the buffer is a look at its readable bytes. -/
theorem frontIo_eq (hfit : c.tag.length + 8 < 2147483648) {io : IoBuffer} (hio : io.Wf) :
    c.frontIo io = c.front io.readable := by
  have h1 := hio.reading_le
  have h2 := hio.writing_le
  have h3 := hio.size_le
  have h4 := maxSize_lt
  have hlen := hio.length_readable
  rw [frontIo, front, getReadableInt32_eq hio, hio.getReadableBytes_length, guard_eq hfit]
  split
  · rfl
  · next hguard =>
    show c.frontOf io.readable.length (readInt32 io.readable)
      (io.buffer.drop (addSize io.readingIndex 4)) = _
    rw [addSize_eq (by omega)]
    by_cases hrange : kMaxMessageLength < readInt32 io.readable ∨
        readInt32 io.readable < c.tag.length + 4
    · rw [frontOf, frontOf, kMinMessageLength_eq hfit, if_pos hrange, if_pos hrange]
    · -- both read the announced body, the buffer from memory that goes on behind it
      obtain ⟨n, hn⟩ : ∃ n : ℕ, readInt32 io.readable = n := ⟨_, (Int.toNat_of_nonneg (by omega)).symm⟩
      rw [hn] at hrange ⊢
      rw [frontOf_announced hfit (by omega) (by omega) (by simp; omega),
        frontOf_announced hfit (by omega) (by omega) (by simp; omega)]
      split
      · next hfull =>
        have hsame : (io.buffer.drop (io.readingIndex + 4)).take n = (io.readable.drop 4).take n := by
          rw [readable, drop_slice, slice, List.take_take, Nat.min_eq_left (by omega)]
        rw [hsame]
      · rfl

/-- **The loop on a well-formed buffer drains its readable bytes.** -/
theorem onMessage_drain (hfit : c.tag.length + 8 < 2147483648) (fuel : ℕ) {io : IoBuffer}
    (hio : io.Wf) :
    (c.onMessage fuel io).1 = (drain c.front fuel io.readable).1 ∧ (c.onMessage fuel io).2.Wf ∧
      (c.onMessage fuel io).2.readable = (drain c.front fuel io.readable).2 := by
  induction fuel generalizing io with
  | zero => exact ⟨rfl, hio, rfl⟩
  | succ fuel ih =>
    rw [onMessage, onMessageLoop, drain, frontIo_eq hfit hio]
    cases hf : c.front io.readable with
    | wait => exact ⟨rfl, hio, rfl⟩
    | reject e => exact ⟨rfl, hio, rfl⟩
    | accept message n =>
      have hn : n ≤ io.getReadableBytes := by
        rw [hio.getReadableBytes_length]
        exact ((lawful hfit).accept_pos hf).2
      obtain ⟨hwf, hread⟩ := refresh_spec hio hn
      obtain ⟨hrep, hwf', hrest⟩ := ih hwf
      rw [hread] at hrep hrest
      exact ⟨congrArg (Report.deliver message :: ·) hrep, hwf', hrest⟩

/-! ## What the encoder leaves in the buffer -/

variable (c) in
/-- The frame of a payload. -/
def frameOf (payload : List UInt8) : List UInt8 :=
  beBytes 4 (c.tag.length + payload.length + 4) ++
    (c.tag ++ payload ++ beBytes 4 (c.adler32 (c.tag ++ payload)))

/-- A buffer whose content has never moved, with `content` readable. -/
structure Filled (io : IoBuffer) (content : List UInt8) : Prop where
  wf : io.Wf
  readable : io.readable = content
  reading : io.readingIndex = kReservedCapacity
  writing : io.writingIndex = kReservedCapacity + content.length

theorem Filled.new : ∃ io, IoBuffer.new kInitialCapacity = .ok io ∧ Filled io [] := by
  obtain ⟨io, h, hwf, hread, hr, hw, -⟩ := @new_ok kInitialCapacity (by decide)
  exact ⟨io, h, hwf, hread, hr, hw⟩

/-- Appending to such a buffer grows it and never moves the content. -/
theorem Filled.append {io : IoBuffer} {content str : List UInt8} (h : Filled io content)
    (hroom : kReservedCapacity + (content.length + str.length) ≤ maxSize) :
    ∃ io', io.append str = .ok io' ∧ Filled io' (content ++ str) := by
  have hr := h.reading
  have hw := h.writing
  have hmaxSize := maxSize_lt
  obtain ⟨pad, hens, hfit, hmax⟩ := @ensureWritableSpace_room io h.wf str.length
    (not_compacts_of_reading h.wf hr (by omega)) (by omega)
  obtain ⟨io', happ, hwf, hread, hr', hw'⟩ := append_of_pad h.wf hens hfit hmax
  refine ⟨io', happ, hwf, by rw [hread, h.readable], by rw [hr', hr], ?_⟩
  rw [hw', hw, List.length_append]
  omega

/-- `Serialize2Buffer` appends what protobuf writes. -/
theorem Filled.serialize {io : IoBuffer} {content : List UInt8} {message : μ}
    (h : Filled io content)
    (hsize : (c.serializeWithCachedSizesToArray message).length = c.byteSizeLong message)
    (hroom : kReservedCapacity + (content.length + c.byteSizeLong message + 4) ≤ maxSize) :
    ∃ r io', c.serialize2Buffer message io = .ok (r, io') ∧
      Filled io' (content ++ c.serializeWithCachedSizesToArray message) := by
  have hr := h.reading
  have hw := h.writing
  have hmaxSize := maxSize_lt
  have hadd : addSize (c.byteSizeLong message) kChecksumLength.toNat =
      c.byteSizeLong message + 4 :=
    addSize_eq (by unfold kChecksumLength; omega)
  obtain ⟨pad, hens, hfit, hmax⟩ := @ensureWritableSpace_room io h.wf (c.byteSizeLong message + 4)
    (not_compacts_of_reading h.wf hr (by omega)) (by omega)
  -- the copy ends four bytes before the room that was made
  have hcopy : io.writingIndex + (c.serializeWithCachedSizesToArray message).length ≤
      (io.buffer ++ pad).length := by
    rw [hsize]
    omega
  obtain ⟨hwf, hread⟩ := (h.wf.pad hmax).extend hcopy
  refine ⟨toInt32 (c.byteSizeLong message), _, ?_, hwf, ?_, hr, ?_⟩
  · have hindex : addSize io.writingIndex (c.byteSizeLong message) =
        io.writingIndex + (c.serializeWithCachedSizesToArray message).length := by
      rw [hsize, addSize_eq (by omega)]
    rw [serialize2Buffer, hadd, hens, ok_bind]
    dsimp only
    rw [store_ok hcopy, ok_bind, if_neg (not_not.mpr hsize), refreshW]
    dsimp only
    rw [hindex]
    rfl
  · rw [hread, readable_pad h.wf, h.readable]
  · show io.writingIndex + (c.serializeWithCachedSizesToArray message).length = _
    rw [hw, List.length_append]
    omega

theorem appendInt32_checksum (io : IoBuffer) (bytes : List UInt8) :
    io.appendInt32 (c.checksum bytes) = io.append (beBytes 4 (c.adler32 bytes)) := by
  have hword := toUInt32_toInt32 (c.adler32 bytes)
  have hmod := beBytes_mod 4 (c.adler32 bytes)
  norm_num at hmod
  rw [IoBuffer.appendInt32, checksum]
  rw [toUInt32] at hword
  norm_num
  rw [hword, hmod]

/-- `FillEmptyBuffer`, whatever the size: the length field keeps the low four bytes of the
length, and the checksum is over as many bytes as fit its `int`. -/
theorem encode_wide {message : μ} {payload : List UInt8}
    (hpayload : c.serializeWithCachedSizesToArray message = payload)
    (hsize : payload.length = c.byteSizeLong message)
    (hroom : kReservedCapacity + (c.tag.length + payload.length + 4) ≤ maxSize) :
    c.encode message = .ok (beBytes 4 (c.tag.length + payload.length + 4) ++ (c.tag ++ payload ++
      beBytes 4 (c.adler32
        ((c.tag ++ payload).take ((c.tag.length + payload.length) % 4294967296))))) := by
  generalize hsum : beBytes 4 (c.adler32
    ((c.tag ++ payload).take ((c.tag.length + payload.length) % 4294967296))) = sum
  have hsum4 : sum.length = 4 := by rw [← hsum, length_beBytes]
  obtain ⟨io₀, h₀, hf₀⟩ := Filled.new
  obtain ⟨io₁, h₁, hf₁⟩ := hf₀.append (by rw [List.length_nil]; omega : _ + (_ + c.tag.length) ≤ _)
  rw [List.nil_append] at hf₁
  obtain ⟨r, io₂, h₂, hf₂⟩ := hf₁.serialize (hpayload.symm ▸ hsize) (by omega)
  rw [hpayload] at hf₂
  obtain ⟨io₃, h₃, hf₃⟩ := hf₂.append (by rw [List.length_append]; omega : _ + (_ + sum.length) ≤ _)
  have hlen₂ : io₂.getReadableBytes = c.tag.length + payload.length := by
    rw [hf₂.wf.getReadableBytes_length, hf₂.readable, List.length_append]
  have hlen₃ : io₃.getReadableBytes = c.tag.length + payload.length + 4 := by
    rw [hf₃.wf.getReadableBytes_length, hf₃.readable, List.length_append, List.length_append, hsum4]
  have hread₂ : io₂.load io₂.readingIndex (toUInt32 (toInt32 io₂.getReadableBytes)) =
      .ok ((c.tag ++ payload).take ((c.tag.length + payload.length) % 4294967296)) := by
    rw [toUInt32_toInt32, load_take hf₂.wf (Nat.mod_le _ _), hf₂.readable, hlen₂]
  have hhead : beBytes 4 (toUInt32 (toInt32 io₃.getReadableBytes)) =
      beBytes 4 (c.tag.length + payload.length + 4) := by
    rw [toUInt32_toInt32, hlen₃]
    exact beBytes_mod 4 _
  obtain ⟨io₄, h₄, -, hread₄⟩ := @setHeadContent_spec io₃ hf₃.wf
    (beBytes 4 (c.tag.length + payload.length + 4))
    (by rw [length_beBytes, getReservedBytes, hf₃.reading]; decide)
  rw [encode, h₀, ok_bind, fillEmptyBuffer, h₁, ok_bind, h₂, ok_bind]
  show (io₂.load io₂.readingIndex _ >>= _) >>= _ = _
  rw [hread₂, ok_bind, appendInt32_checksum, hsum, h₃, ok_bind, hhead, h₄, ok_bind]
  show Except.ok io₄.readable = _
  rw [hread₄, hf₃.readable]

/-- **`FillEmptyBuffer` leaves the frame of the message readable.** -/
theorem encode_eq {message : μ}
    (hsize : (c.serializeWithCachedSizesToArray message).length = c.byteSizeLong message)
    (hmax : (c.tag.length + c.byteSizeLong message + 4 : ℤ) ≤ kMaxMessageLength) :
    c.encode message = .ok (c.frameOf (c.serializeWithCachedSizesToArray message)) := by
  have hmax' : c.tag.length + (c.serializeWithCachedSizesToArray message).length + 4 ≤ 67108864 := by
    rw [hsize]
    unfold kMaxMessageLength at hmax
    omega
  have hall : (c.tag ++ c.serializeWithCachedSizesToArray message).length ≤
      (c.tag.length + (c.serializeWithCachedSizesToArray message).length) % 4294967296 := by
    rw [List.length_append, Nat.mod_eq_of_lt (by omega)]
  rw [encode_wide rfl hsize (by unfold kReservedCapacity maxSize; omega),
    List.take_of_length_le hall, frameOf]

end RpcCodec

end Taotu
