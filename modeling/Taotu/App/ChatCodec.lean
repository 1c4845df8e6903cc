import Taotu.Rpc.Stream
import Taotu.Buffer.TypedValues
import Taotu.Connection.Messages
import Mathlib.Data.List.TakeWhile

/-!
# Taotu.App.ChatCodec — the frames of the chat room (`message_codec.h`, `message_codec.cc`)

A chat message is framed by its length, four bytes in big-endian order. The
receiver gives up at a length above 65536 or below zero; the sender does not
look at the length at all.

1. **Decoder.** `look` is one turn of the loop of `Codec::OnMessage`. The header is
   dropped before the callback and the message behind it. `front` is the same
   decision on the readable bytes alone; the two agree as long as the number of
   readable bytes fits `int32_t`, to which it is narrowed before it is compared.
2. **Encoder.** `encode` is what `Codec::Send` hands to the connection.
3. **Stream.** Whatever the chunking, the messages up to the first one that is too
   long are delivered, and nothing behind it (`delivered_up_to_long`).
-/

namespace Taotu.Chat

open Lib IoBuffer

abbrev Message : Type := List UInt8

def kHeadLength : ℕ := 4

/-- Why `OnMessage` shuts the connection down. -/
inductive Failure where
  | invalidLength
  | fault (f : Fault)
deriving DecidableEq, Repr

/-! ## Decoder -/

/-- A message is there, of `n` bytes with its header. -/
def settle (n : ℕ) : Except Fault Message → Verdict Message Failure
  | .ok m => .accept m n
  | .error f => .reject (.fault f)

/-- The body of the loop, for a length `len`; `message` is what the string is made of. -/
def turn (readable : ℕ) (len : ℤ) (message : Except Fault Message) : Verdict Message Failure :=
  if 65536 < len ∨ len < 0 then .reject .invalidLength
  else if len + kHeadLength ≤ toInt32 readable then settle (kHeadLength + len.toNat) message
  else .wait

/-- The string is read behind the header, which has been dropped. -/
def body (io : IoBuffer) (len : ℤ) : Except Fault Message :=
  (io.refresh kHeadLength).load (io.refresh kHeadLength).readingIndex len.toNat

def look (io : IoBuffer) : Verdict Message Failure :=
  if io.getReadableBytes < kHeadLength then .wait
  else
    match io.getReadableInt32 with
    | .ok len => turn io.getReadableBytes len (body io len)
    | .error f => .reject (.fault f)

/-- The loop of `OnMessage`. -/
def onMessage : ℕ → IoBuffer → List (Report Message Failure) × IoBuffer
  | 0, io => ([], io)
  | fuel + 1, io =>
    match look io with
    | .wait => ([], io)
    | .reject e => ([.error e], io)
    | .accept m n =>
      let r := onMessage fuel ((io.refresh kHeadLength).refresh (n - kHeadLength))
      (.deliver m :: r.1, r.2)

/-- The decision on the readable bytes. -/
def front (buf : List UInt8) : Verdict Message Failure :=
  if buf.length < kHeadLength then .wait
  else if 65536 < readInt32 buf ∨ readInt32 buf < 0 then .reject .invalidLength
  else if kHeadLength + (readInt32 buf).toNat ≤ buf.length then
    .accept (slice buf kHeadLength (readInt32 buf).toNat) (kHeadLength + (readInt32 buf).toNat)
  else .wait

/-- Append each chunk to the readable bytes and call `OnMessage` after it. -/
def receive (chunks : List (List UInt8)) : List (Report Message Failure) × List UInt8 :=
  feed front [] chunks

/-! ## Encoder -/

/-- What `Send` hands to the connection. -/
def encode (o : ByteOrder) (message : Message) : Except Fault (List UInt8) := do
  let io ← IoBuffer.new kInitialCapacity
  let io ← io.append message
  let io ← io.setHeadContentInt32 o (toInt32 message.length)
  return io.readable

/-! ## What a look decides -/

section Front

variable {buf : List UInt8} {m : Message} {n : ℕ}

theorem front_short (h : buf.length < kHeadLength) : front buf = .wait := by
  rw [front, if_pos h]

/-- A message is accepted when its length is in range and all of it is there. -/
theorem front_accept_iff :
    front buf = .accept m n ↔ kHeadLength ≤ buf.length ∧ 0 ≤ readInt32 buf ∧
      readInt32 buf ≤ 65536 ∧ n = kHeadLength + (readInt32 buf).toNat ∧ n ≤ buf.length ∧
      m = slice buf kHeadLength (readInt32 buf).toNat := by
  rw [front]
  constructor
  · intro h
    split at h
    · cases h
    · next hlen =>
      split at h
      · cases h
      · next hrange =>
        split at h
        · next hfull =>
          cases h
          exact ⟨by omega, by omega, by omega, rfl, hfull, rfl⟩
        · cases h
  · rintro ⟨hlen, hpos, hmax, rfl, hfull, rfl⟩
    rw [if_neg (by omega), if_neg (by omega), if_pos hfull]

theorem front_reject_iff {e : Failure} :
    front buf = .reject e ↔ kHeadLength ≤ buf.length ∧ (65536 < readInt32 buf ∨ readInt32 buf < 0) ∧
      e = .invalidLength := by
  rw [front]
  constructor
  · intro h
    split at h
    · cases h
    · next hlen =>
      split at h
      · next hrange =>
        cases h
        exact ⟨by omega, hrange, rfl⟩
      · split at h <;> cases h
  · rintro ⟨hlen, hrange, rfl⟩
    rw [if_neg (by omega), if_pos hrange]

theorem slice_append {k : ℕ} (h : kHeadLength + k ≤ buf.length) (x : List UInt8) :
    slice (buf ++ x) kHeadLength k = slice buf kHeadLength k := by
  rw [slice, slice, List.drop_append_of_le_length (by omega),
    List.take_append_of_le_length (by rw [List.length_drop]; omega)]

theorem lawful : Lawful front where
  nil_wait := front_short (by decide)
  accept_pos := by
    intro b m n h
    obtain ⟨-, -, -, rfl, hfull, -⟩ := front_accept_iff.mp h
    exact ⟨by unfold kHeadLength; omega, hfull⟩
  accept_append := by
    intro b m n x h
    obtain ⟨hlen, hpos, hmax, rfl, hfull, rfl⟩ := front_accept_iff.mp h
    have hread := RpcCodec.readInt32_append hlen x
    rw [front_accept_iff, hread, List.length_append]
    exact ⟨by omega, hpos, hmax, rfl, by omega, (slice_append hfull x).symm⟩
  accept_take := by
    intro b m n h
    obtain ⟨hlen, hpos, hmax, hn, hfull, rfl⟩ := front_accept_iff.mp h
    have hsplit : b.take n ++ b.drop n = b := List.take_append_drop n b
    have htake : (b.take n).length = n := by rw [List.length_take, Nat.min_eq_left hfull]
    have hread : readInt32 (b.take n) = readInt32 b := by
      have happ := RpcCodec.readInt32_append
        (by rw [htake, hn]; exact Nat.le_add_right _ _ : 4 ≤ (b.take n).length) (b.drop n)
      rw [hsplit] at happ
      exact happ.symm
    have hslice := slice_append (by omega : kHeadLength + (readInt32 b).toNat ≤ (b.take n).length)
      (b.drop n)
    rw [hsplit] at hslice
    rw [front_accept_iff, hread, htake]
    exact ⟨by omega, hpos, hmax, hn, Nat.le_refl _, hslice⟩
  reject_append := by
    intro b e x h
    obtain ⟨hlen, hrange, rfl⟩ := front_reject_iff.mp h
    refine ⟨.invalidLength, front_reject_iff.mpr ⟨?_, ?_, rfl⟩⟩
    · rw [List.length_append]
      omega
    · rwa [RpcCodec.readInt32_append hlen x]

end Front

/-- The buffer and its readable bytes look the same below `2 ^ 31` bytes. -/
theorem look_eq {io : IoBuffer} (hio : io.Wf) (hlen : io.readable.length < 2147483648) :
    look io = front io.readable := by
  rw [look, front, hio.getReadableBytes_length, RpcCodec.getReadableInt32_eq hio]
  split
  · rfl
  · next hhead =>
    dsimp only
    rw [turn]
    split
    · rfl
    · next hrange =>
      have hint : toInt32 (io.readable.length : ℤ) = io.readable.length :=
        toInt32_eq (by omega) (by omega)
      rw [hint]
      by_cases hfull : kHeadLength + (readInt32 io.readable).toNat ≤ io.readable.length
      · have hrefresh := refresh_spec hio
          (by rw [hio.getReadableBytes_length]; omega : kHeadLength ≤ io.getReadableBytes)
        have hbody : body io (readInt32 io.readable) =
            .ok (slice io.readable kHeadLength (readInt32 io.readable).toNat) := by
          have hroom : (readInt32 io.readable).toNat ≤ (io.refresh kHeadLength).getReadableBytes := by
            rw [hrefresh.1.getReadableBytes_length, hrefresh.2, List.length_drop]
            omega
          rw [body, load_take hrefresh.1 hroom, hrefresh.2]
          rfl
        rw [if_pos (by omega), if_pos hfull, hbody, settle]
      · rw [if_neg (by omega), if_neg hfull]

/-- `OnMessage` drains the readable bytes. -/
theorem onMessage_drain (fuel : ℕ) {io : IoBuffer} (hio : io.Wf)
    (hlen : io.readable.length < 2147483648) :
    (onMessage fuel io).1 = (drain front fuel io.readable).1 ∧ (onMessage fuel io).2.Wf ∧
      (onMessage fuel io).2.readable = (drain front fuel io.readable).2 := by
  induction fuel generalizing io with
  | zero => exact ⟨rfl, hio, rfl⟩
  | succ fuel ih =>
    rw [onMessage, drain, look_eq hio hlen]
    cases hf : front io.readable with
    | wait => exact ⟨rfl, hio, rfl⟩
    | reject e => exact ⟨rfl, hio, rfl⟩
    | accept m n =>
      obtain ⟨-, -, -, rfl, hfull, -⟩ := front_accept_iff.mp hf
      obtain ⟨hwf, hread⟩ := refresh_spec hio
        (by rw [hio.getReadableBytes_length]; omega : kHeadLength ≤ io.getReadableBytes)
      obtain ⟨hwf', hread'⟩ := @refresh_spec _ hwf (readInt32 io.readable).toNat
        (by rw [hwf.getReadableBytes_length, hread, List.length_drop]; omega)
      rw [hread, List.drop_drop] at hread'
      have hrest : (io.readable.drop (kHeadLength + (readInt32 io.readable).toNat)).length <
          2147483648 := by
        rw [List.length_drop]
        omega
      obtain ⟨hrep, hwf'', hdone⟩ := ih hwf' (by rw [hread']; exact hrest)
      rw [hread'] at hrep hdone
      dsimp only
      rw [Nat.add_sub_cancel_left]
      exact ⟨congrArg (Report.deliver m :: ·) hrep, hwf'', hdone⟩

/-! ## What the encoder writes -/

/-- The frame of a message. -/
def frameOf (message : Message) : List UInt8 := beBytes kHeadLength message.length ++ message

theorem encode_eq (o : ByteOrder) {message : Message}
    (hroom : kReservedCapacity + message.length ≤ maxSize) :
    encode o message = .ok (frameOf message) := by
  obtain ⟨io₀, h₀, hf₀⟩ := RpcCodec.Filled.new
  obtain ⟨io₁, h₁, hf₁⟩ := hf₀.append
    (by rw [List.length_nil]; omega : _ + (_ + message.length) ≤ _)
  have hhead : intObject o 4 (toInt32 message.length) = beBytes kHeadLength message.length := by
    have hword := toUInt32_toInt32 message.length
    have hmod := beBytes_mod 4 message.length
    norm_num at hmod
    rw [toUInt32] at hword
    rw [intObject_eq, toUnsigned]
    norm_num
    rw [hword, hmod]
    rfl
  obtain ⟨io₂, h₂, -, hread₂⟩ := @setHeadContent_spec io₁ hf₁.wf
    (beBytes kHeadLength message.length)
    (by rw [length_beBytes, getReservedBytes, hf₁.reading]; decide)
  rw [encode, h₀, ok_bind, h₁, ok_bind, setHeadContentInt32, hhead, h₂, ok_bind, frameOf]
  rw [List.nil_append] at hf₁
  rw [hf₁.readable] at hread₂
  exact congrArg Except.ok hread₂

/-- The length as the receiver reads it. -/
theorem readInt32_frameOf (message : Message) (x : List UInt8) :
    readInt32 (frameOf message ++ x) = toInt32 message.length := by
  have hhead := length_beBytes kHeadLength message.length
  have hword : (256 : ℕ) ^ kHeadLength = 4294967296 := by decide
  have htake : (frameOf message ++ x).take 4 = beBytes kHeadLength message.length := by
    rw [frameOf, List.append_assoc]
    exact List.take_left' hhead
  have hlong : 4 ≤ (frameOf message ++ x).length := by
    rw [frameOf, List.append_assoc, List.length_append, hhead]
    exact Nat.le_add_right _ _
  rw [RpcCodec.readInt32_eq hlong, htake, ofBeBytes_beBytes, hword]
  exact toInt32_mod _

theorem length_frameOf (message : Message) :
    (frameOf message).length = kHeadLength + message.length := by
  rw [frameOf, List.length_append, length_beBytes]

theorem isFrame_frameOf {message : Message} (h : message.length ≤ 65536) :
    IsFrame front (frameOf message) message := by
  have hread := readInt32_frameOf message []
  rw [List.append_nil, toInt32_eq (by omega) (by omega)] at hread
  rw [IsFrame, front_accept_iff, hread, length_frameOf]
  refine ⟨by omega, by omega, by omega, by simp, Nat.le_refl _, ?_⟩
  rw [Int.toNat_natCast, frameOf, slice, List.drop_left' (length_beBytes _ _), List.take_length]

/-- A message that is too long is turned down, whatever follows. -/
theorem front_long {message : Message} (hlong : 65536 < message.length)
    (hmax : message.length < 4294967296) (x : List UInt8) :
    front (frameOf message ++ x) = .reject .invalidLength := by
  rw [front_reject_iff, readInt32_frameOf]
  refine ⟨?_, ?_, rfl⟩
  · rw [List.length_append, length_frameOf]
    omega
  · rw [toInt32, Int.bmod_def]
    split <;> omega

/-! ## A stream -/

/-- `OnMessage` is called after each chunk, on a buffer to which the chunk was added and which
holds fewer than `2 ^ 31` readable bytes. -/
inductive Received : List (List UInt8) → List (Report Message Failure) → IoBuffer → Prop where
  | start {io : IoBuffer} (hio : io.Wf) (hread : io.readable = []) : Received [] [] io
  | chunk {cs : List (List UInt8)} {reports : List (Report Message Failure)} {io io' : IoBuffer}
      (h : Received cs reports io) (c : List UInt8) (hio : io'.Wf)
      (hread : io'.readable = io.readable ++ c) (hsmall : io'.readable.length < 2147483648) :
      Received (cs ++ [c]) (reports ++ (onMessage (io'.readable.length + 1) io').1)
        (onMessage (io'.readable.length + 1) io').2

/-- Only the bytes matter. -/
theorem Received.receive_eq {cs : List (List UInt8)} {reports : List (Report Message Failure)}
    {io : IoBuffer} (h : Received cs reports io) :
    reports = (receive cs).1 ∧ io.readable = (receive cs).2 := by
  induction h with
  | start hio hread => exact ⟨rfl, hread⟩
  | @chunk cs reports io io' _ c hio hread hsmall ih =>
    obtain ⟨hrep, hrest⟩ := ih
    obtain ⟨hone, -, hleft⟩ := onMessage_drain (io'.readable.length + 1) hio hsmall
    have hall : receive (cs ++ [c]) = ((receive cs).1 ++ (drainAll front io'.readable).1,
        (drainAll front io'.readable).2) := by
      rw [receive, feed_append, hread, hrest]
      simp only [feed, receive, List.append_nil]
    constructor
    · rw [hall, hrep, hone]
      rfl
    · rw [hall, hleft]
      rfl

/-- What `OnMessage` makes of a stream of frames. -/
theorem receive_frames {ms : List Message} (hmax : ∀ m ∈ ms, m.length < 4294967296)
    {cs : List (List UInt8)} (hcs : cs.flatten = (ms.map frameOf).flatten) :
    delivered (receive cs).1 = ms.takeWhile (fun m => m.length ≤ 65536) ∧
      (receive cs).2 = ((ms.dropWhile fun m => m.length ≤ 65536).map frameOf).flatten := by
  have hnil : ∀ m n, front [] ≠ .accept m n := by
    intro m n h
    rw [lawful.nil_wait] at h
    cases h
  obtain ⟨hdel, hleft⟩ := lawful.feed_eq cs hnil
  have hframes : List.Forall₂ (IsFrame front)
      ((ms.takeWhile fun m => m.length ≤ 65536).map frameOf)
      (ms.takeWhile fun m => m.length ≤ 65536) := by
    rw [List.forall₂_map_left_iff, List.forall₂_same]
    intro m hm
    have hshort := List.mem_takeWhile_imp hm
    exact isFrame_frameOf (of_decide_eq_true hshort)
  -- the first message that is too long stops the loop for good
  have hstuck : ∀ m n,
      front ((ms.dropWhile fun m => m.length ≤ 65536).map frameOf).flatten ≠ .accept m n := by
    intro m n h
    cases hrest : ms.dropWhile fun m => decide (m.length ≤ 65536) with
    | nil =>
      rw [hrest] at h
      exact hnil m n h
    | cons long rest =>
      have hlong : 65536 < long.length := by
        have hhead := List.head_dropWhile_not (fun m : Message => decide (m.length ≤ 65536))
          (by rw [hrest]; exact List.cons_ne_nil _ _)
        simp only [hrest, List.head_cons, decide_eq_false_iff_not] at hhead
        omega
      have hmem : long ∈ ms := by
        apply (List.dropWhile_sublist (fun m : Message => decide (m.length ≤ 65536))).subset
        rw [hrest]
        exact List.mem_cons_self
      rw [hrest, List.map_cons, List.flatten_cons, front_long hlong (hmax long hmem)] at h
      cases h
  have hsplit : cs.flatten = ((ms.takeWhile fun m => m.length ≤ 65536).map frameOf).flatten ++
      ((ms.dropWhile fun m => m.length ≤ 65536).map frameOf).flatten := by
    rw [hcs, ← List.flatten_append, ← List.map_append, List.takeWhile_append_dropWhile]
  obtain ⟨hall, hrest⟩ := lawful.drain_frames hframes
    ((ms.dropWhile fun m => m.length ≤ 65536).map frameOf).flatten
  obtain ⟨hnone, hsame⟩ := Lawful.drainAll_of_not_accept hstuck
  rw [List.nil_append, hsplit] at hdel hleft
  rw [receive, hdel, hleft, hall, hrest, hnone, hsame, List.append_nil]
  exact ⟨rfl, rfl⟩

/-- **The messages up to the first long one arrive, and no other.** Messages of less than
`2 ^ 32` bytes are encoded and sent, and the stream is cut in any way in which fewer than
`2 ^ 31` bytes are readable whenever `OnMessage` is called: the messages in front of the first
one of more than 65536 bytes are delivered, in order; from that one on everything stays in the
buffer. -/
theorem delivered_up_to_long (o : ByteOrder) {ms : List Message} {bs : List (List UInt8)}
    (hmax : ∀ m ∈ ms, m.length < 4294967296)
    (hbs : List.Forall₂ (fun m b => encode o m = .ok b) ms bs)
    {cs : List (List UInt8)} {reports : List (Report Message Failure)} {io : IoBuffer}
    (hcs : cs.flatten = bs.flatten) (h : Received cs reports io) :
    delivered reports = ms.takeWhile (fun m => m.length ≤ 65536) ∧
      io.readable = ((ms.dropWhile fun m => m.length ≤ 65536).map frameOf).flatten := by
  have hbytes : bs = ms.map frameOf := by
    clear hcs h
    induction hbs with
    | nil => rfl
    | @cons m b ms bs hb _ ih =>
      have hm := hmax m List.mem_cons_self
      have hroom : kReservedCapacity + m.length ≤ maxSize := by
        unfold kReservedCapacity maxSize
        omega
      rw [encode_eq o hroom] at hb
      cases hb
      rw [ih fun m hm => hmax m (List.mem_cons_of_mem _ hm)]
      rfl
  obtain ⟨hrep, hread⟩ := h.receive_eq
  rw [hrep, hread]
  exact receive_frames hmax (hbytes ▸ hcs)

/-- A buffer with the given bytes. -/
theorem exists_buffer {bytes : List UInt8} (h : kReservedCapacity + bytes.length ≤ maxSize) :
    ∃ io : IoBuffer, io.Wf ∧ io.readable = bytes := by
  obtain ⟨io₀, -, hf₀⟩ := RpcCodec.Filled.new
  obtain ⟨io, -, hf⟩ := hf₀.append (by rw [List.length_nil]; omega : _ + (_ + bytes.length) ≤ _)
  exact ⟨io, hf.wf, by rw [hf.readable, List.nil_append]⟩

/-- The theorem at three messages, read at once, of which the second is too long. -/
theorem delivered_one_of_three :
    ∃ (long : Message) (reports : List (Report Message Failure)) (io : IoBuffer),
      long.length = 65537 ∧ Received [([[7], long, [8]].map frameOf).flatten] reports io ∧
      delivered reports = [[7]] ∧ io.readable = frameOf long ++ frameOf [8] := by
  obtain ⟨long, hlong⟩ : ∃ long : Message, long.length = 65537 :=
    ⟨List.replicate 65537 0, List.length_replicate⟩
  let ms : List Message := [[7], long, [8]]
  have hlen : ∀ m ∈ ms, m.length ≤ 65537 := by
    simp [ms, hlong]
  have hbytes : (ms.map frameOf).flatten.length = 65551 := by
    simp [ms, length_frameOf, kHeadLength, hlong]
  obtain ⟨io₀, hio₀, hread₀⟩ := @exists_buffer [] (by decide)
  obtain ⟨io, hio, hread⟩ := @exists_buffer (ms.map frameOf).flatten
    (by rw [hbytes]; decide)
  have hrec := (Received.start hio₀ hread₀).chunk (ms.map frameOf).flatten hio
    (by rw [hread, hread₀, List.nil_append]) (by rw [hread, hbytes]; decide)
  have hone : List.Forall₂ (fun m b => encode .little m = .ok b) ms (ms.map frameOf) := by
    rw [List.forall₂_map_right_iff, List.forall₂_same]
    intro m hm
    have hm := hlen m hm
    exact encode_eq _ (by unfold kReservedCapacity maxSize; omega)
  have hfit : ∀ m ∈ ms, m.length < 4294967296 := by
    intro m hm
    have hm := hlen m hm
    omega
  have hmain := delivered_up_to_long .little hfit hone
    (by rw [List.nil_append, List.flatten_singleton]) hrec
  refine ⟨long, _, _, hlong, hrec, ?_, ?_⟩
  · rw [hmain.1]
    simp [ms, hlong]
  · rw [hmain.2]
    simp [ms, hlong]

/-! ## The codec at a connection -/

/-- Of a frame the header is dropped before the callback. -/
def codec (o : ByteOrder) : Codec Message Failure := ⟨look, encode o, kHeadLength⟩

theorem codec_look (o : ByteOrder) : (codec o).look = look := by
  rw [codec]

/-- The codec is sound for messages that are not too long. -/
def sound (o : ByteOrder) : (codec o).Sound where
  front := front
  lawful := lawful
  limit := 2147483648
  look_eq := by
    intro io hio hlen
    rw [codec_look]
    exact look_eq hio hlen
  Fits m := m.length ≤ 65536
  frame := frameOf
  encode_eq := by
    intro m hm
    exact encode_eq o (by unfold kReservedCapacity maxSize; omega)
  isFrame := isFrame_frameOf
  header_le := by
    intro m _
    rw [length_frameOf]
    exact Nat.le_add_right _ _

instance (o : ByteOrder) : DecidablePred (sound o).Fits :=
  fun m => inferInstanceAs (Decidable (m.length ≤ 65536))

end Taotu.Chat
