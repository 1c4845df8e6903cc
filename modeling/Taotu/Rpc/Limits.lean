import Taotu.Buffer.TypedValues
import Taotu.Rpc.Stream

/-!
# Taotu.Rpc.Limits — the largest frame (`rpc_codec.h`, `rpc_codec.cc`)

The decoder takes no length above `kMaxMessageLength`. The encoder does not look at that
constant: `FillEmptyBuffer` puts the low four bytes of whatever length it finds in front of
the content and hands the buffer on, and only a vector that is asked for too much stops it.

1. `Acceptable` is the test of `OnMessage` together with the meaning of the length field.
2. `encode_refused` is the one case in which nothing is put on the wire.
3. `frames_acceptable_iff` says for which sizes the two sides agree.
-/

namespace Taotu.RpcCodec

open Lib IoBuffer

variable {μ : Type} {c : RpcCodec μ} {message : μ}

variable (c) in
/-- The length field of a frame counts the bytes behind it and passes the test of
`OnMessage`. -/
def Acceptable (frame : List UInt8) : Prop :=
  4 ≤ frame.length ∧ readInt32 frame = ((frame.length - 4 : ℕ) : ℤ) ∧
    ¬ (kMaxMessageLength < readInt32 frame ∨ readInt32 frame < c.kMinMessageLength)

variable (c) in
/-- The sender puts an acceptable frame on the wire or refuses the message. -/
def SendsAcceptable (message : μ) : Prop :=
  (∃ frame, c.encode message = .ok frame ∧ c.Acceptable frame) ∨
    c.encode message = .error .lengthError

/-- A number in front of a frame is read back modulo `2 ^ 32`. -/
theorem readInt32_beBytes (n : ℕ) (rest : List UInt8) :
    readInt32 (beBytes 4 n ++ rest) = toInt32 n := by
  have hhead : (beBytes 4 n ++ rest).take 4 = beBytes 4 n := List.take_left' (length_beBytes 4 n)
  have hword : (256 : ℕ) ^ 4 = 4294967296 := by norm_num
  rw [readInt32, List.length_append, length_beBytes, if_neg (by omega), hhead, ofBeBytes_beBytes,
    hword, toInt32_mod]

/-- What `FillEmptyBuffer` leaves, as far as its length field goes. -/
theorem encode_length
    (hsize : (c.serializeWithCachedSizesToArray message).length = c.byteSizeLong message)
    (hroom : kReservedCapacity + (c.tag.length + c.byteSizeLong message + 4) ≤ maxSize) :
    ∃ frame, c.encode message = .ok frame ∧
      frame.length = 4 + (c.tag.length + c.byteSizeLong message + 4) ∧
      readInt32 frame = toInt32 ((c.tag.length + c.byteSizeLong message + 4 : ℕ) : ℤ) := by
  refine ⟨_, encode_wide rfl hsize (by rw [hsize]; exact hroom), ?_, ?_⟩
  · simp only [List.length_append, length_beBytes, hsize]
  · rw [readInt32_beBytes, hsize]

/-- A message for which the vector has no room is refused. -/
theorem encode_refused (htag : c.tag.length ≤ maxSize)
    (hmessage : c.byteSizeLong message + 4 ≤ maxSize)
    (hroom : maxSize < kReservedCapacity + (c.tag.length + c.byteSizeLong message + 4)) :
    c.encode message = .error .lengthError := by
  rcases Filled.new with ⟨io₀, h₀, hf₀⟩
  rw [encode, h₀, ok_bind, fillEmptyBuffer]
  by_cases hfits : kReservedCapacity + c.tag.length ≤ maxSize
  · -- the tag has room, and the serialized message does not
    rcases hf₀.append (by simpa using hfits) with ⟨io₁, h₁, hf₁⟩
    rw [List.nil_append] at hf₁
    have hlt := maxSize_lt
    have hadd : addSize (c.byteSizeLong message) kChecksumLength.toNat =
        c.byteSizeLong message + 4 := addSize_eq (by unfold kChecksumLength; omega)
    have hin := hf₁.wf.writing_le
    have hmax := hf₁.wf.size_le
    have hw := hf₁.writing
    have hens : io₁.ensureWritableSpace (c.byteSizeLong message + 4) = .error .lengthError := by
      have hc := not_compacts_of_reading hf₁.wf hf₁.reading
        (by omega : c.byteSizeLong message + 4 < sizeRange)
      have hno := not_overflows_of_le hf₁.wf hmessage
      rcases ensureWritableSpace_cases hf₁.wf hc hno with h | ⟨pad, -, hpad, hle⟩
      · exact h
      · omega
    rw [h₁, ok_bind, serialize2Buffer, hadd, hens]
    rfl
  · have hlong : maxSize < kReservedCapacity + (io₀.readable.length + c.tag.length) := by
      rw [hf₀.readable, List.length_nil]
      omega
    rw [append_too_long hf₀.wf hf₀.reading htag hlong]
    rfl

/-- **The two sides agree up to `kMaxMessageLength` and nowhere above it.** For every tag and
every message that protobuf serializes to as many bytes as it says, the sender puts a frame
on the wire that the receiver does not reject for its length, or refuses the message, if and
only if tag, message and checksum fit the limit of the receiver, or do not fit a vector. -/
theorem frames_acceptable_iff (c : RpcCodec μ) (message : μ)
    (hsize : (c.serializeWithCachedSizesToArray message).length = c.byteSizeLong message)
    (htag : c.tag.length ≤ maxSize) (hmessage : c.byteSizeLong message + 4 ≤ maxSize) :
    c.SendsAcceptable message ↔
      (c.tag.length + c.byteSizeLong message + 4 : ℤ) ≤ kMaxMessageLength ∨
        maxSize < kReservedCapacity + (c.tag.length + c.byteSizeLong message + 4) := by
  by_cases hroom : maxSize < kReservedCapacity + (c.tag.length + c.byteSizeLong message + 4)
  · exact iff_of_true (.inr (encode_refused htag hmessage hroom)) (.inr hroom)
  rcases encode_length hsize (by omega) with ⟨frame, henc, hlen, hread⟩
  have hbehind : frame.length - 4 = c.tag.length + c.byteSizeLong message + 4 := by omega
  constructor
  · rintro (⟨frame', henc', hfour, hcount, hin⟩ | hrefused)
    · cases henc.symm.trans henc'
      left
      rw [hbehind] at hcount
      omega
    · cases henc.symm.trans hrefused
  · intro h
    have hmax := h.resolve_right hroom
    have hmax' : c.tag.length + c.byteSizeLong message + 4 ≤ 67108864 := by
      unfold kMaxMessageLength at hmax
      omega
    rw [toInt32_eq (by omega) (by omega)] at hread
    refine .inl ⟨frame, henc, by omega, by rw [hread, hbehind], ?_⟩
    rw [hread, kMinMessageLength_eq (by omega)]
    omega

/-- The theorem at the tag `RPC0` and a message of three bytes. -/
theorem small_frame_acceptable : rpc0.SendsAcceptable [1, 2, 3] :=
  (frames_acceptable_iff rpc0 [1, 2, 3] rfl (by decide) (by decide)).mpr (.inl (by decide))

/-- With the tag `RPC0` a message of 67108857 bytes makes a body of 64 MiB and one byte. The
sender puts the frame on the wire, and the receiver rejects its length. -/
theorem large_frame_rejected :
    ∃ frame, rpc0.encode (List.replicate 67108857 0) = .ok frame ∧ frame.length = 67108869 ∧
      readInt32 frame = 67108865 ∧ kMaxMessageLength < readInt32 frame ∧
      rpc0.front frame = .reject (.code .kInvalidLength) := by
  have hbytes : rpc0.byteSizeLong (List.replicate 67108857 0) = 67108857 := List.length_replicate
  have htag : rpc0.tag.length = 4 := rfl
  rcases @encode_length _ rpc0 (List.replicate 67108857 0) rfl
    (by rw [hbytes, htag]; decide) with ⟨frame, henc, hlen, hread⟩
  rw [hbytes, htag] at hlen hread
  have hlimit : readInt32 frame = 67108865 := hread
  have hover : kMaxMessageLength < readInt32 frame := by
    rw [hlimit]
    decide
  exact ⟨frame, henc, hlen, hlimit, hover,
    front_badLength (by decide) (by rw [htag, hlen]; decide) (.inl hover)⟩

end Taotu.RpcCodec
