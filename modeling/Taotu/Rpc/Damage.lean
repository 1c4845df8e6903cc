import Taotu.Lib.Adler32
import Taotu.Rpc.Stream

/-!
# Taotu.Rpc.Damage — frames that were damaged on the way (`rpc_codec.cc`)

`ValidateChecksum` compares the checksum of a body with the last four bytes of it. With
zlib's `adler32` the bodies that pass are codewords that differ in three places or more, so
a frame with one or two damaged bytes behind its length field is rejected, wherever the
damage is: in the tag, in the message or in the checksum itself.

The loop of `OnMessage` stops there, and it stops there again whenever more bytes arrive
(`damaged_frame_rejected`). Nothing in the frame says where the next one begins, and
nothing is delivered any more.

The bound on the length of the frame is that of the checksum: in longer bodies two bytes
65521 places apart can make up for each other. The length field is not covered by it.
-/

namespace Taotu.RpcCodec

open Lib

variable {μ : Type} {c : RpcCodec μ}

/-- One or two bytes behind the length field were damaged. -/
structure Damaged (f f' : List UInt8) : Prop where
  length : f'.length = f.length
  head : f'.take 4 = f.take 4
  damage : 0 < distance f f'
  few : distance f f' ≤ 2

/-- A body with the right checksum is a codeword. -/
theorem coded_of_checksum (hadler : c.adler32 = Lib.adler32) {body : List UInt8}
    (hlen : 4 ≤ body.length)
    (h : toInt32 (ofBeBytes (body.drop (body.length - 4))) =
      c.checksum (body.take (body.length - 4))) :
    body = coded (body.take (body.length - 4)) := by
  have hfour : (body.drop (body.length - 4)).length = 4 := by
    rw [List.length_drop]
    omega
  rw [checksum_eq_iff hfour, hadler] at h
  rw [coded, ← h, List.take_append_drop]

/-- The body of a damaged frame does not pass. -/
theorem check_damaged (hadler : c.adler32 = Lib.adler32) {content body : List UInt8}
    (hlen : body.length = content.length + 4) (hshort : content.length < 65521)
    (hdamage : 0 < distance (coded content) body) (hfew : distance (coded content) body ≤ 2) :
    c.check body = .error .kChecksumError := by
  rw [check]
  refine if_neg ?_
  intro hsum
  have hcoded := coded_of_checksum hadler (by omega) hsum
  have hsame : content.length = (body.take (body.length - 4)).length := by
    rw [List.length_take]
    omega
  rw [hcoded] at hdamage hfew
  by_cases heq : content = body.take (body.length - 4)
  · rw [← heq, distance_self] at hdamage
    exact absurd hdamage (Nat.lt_irrefl 0)
  · exact absurd (three_le_distance hsame hshort heq) (by omega)

/-- A damaged frame is rejected, whatever comes behind it. -/
theorem front_damaged (hadler : c.adler32 = Lib.adler32) {f f' : List UInt8} {message : μ}
    (hf : c.IsValidFrame f message) (hlen : f.length < 65529) (hd : Damaged f f')
    (rest : List UInt8) : c.front (f' ++ rest) = .reject (.code .kChecksumError) := by
  obtain ⟨n, payload, hmin, hmax, rfl, hn, -⟩ := hf
  rw [hadler] at hn hlen hd
  change (coded (c.tag ++ payload)).length = n at hn
  change (beBytes 4 n ++ coded (c.tag ++ payload)).length < 65529 at hlen
  change Damaged (beBytes 4 n ++ coded (c.tag ++ payload)) f' at hd
  have hfour := length_beBytes 4 n
  have hcontent : (coded (c.tag ++ payload)).length = (c.tag ++ payload).length + 4 := by
    rw [coded, List.length_append, length_beBytes]
  have hall := hd.length
  rw [List.length_append, hfour] at hlen hall
  -- the length field is the same, so the same bytes are taken for the body
  have hhead : f'.take 4 = beBytes 4 n := by rw [hd.head, List.take_left' hfour]
  have hsplit : f' = beBytes 4 n ++ f'.drop 4 := by rw [← hhead, List.take_append_drop]
  have hbody : (f'.drop 4).length = n := by
    rw [List.length_drop]
    omega
  have hdist : distance (beBytes 4 n ++ coded (c.tag ++ payload)) f' =
      distance (coded (c.tag ++ payload)) (f'.drop 4) := by
    conv_lhs => rw [hsplit]
    rw [distance_append rfl, distance_self, Nat.zero_add]
  have ann : c.Announces (f' ++ rest) n := by
    refine ⟨?_, ?_, hmin, hmax⟩
    · rw [List.length_append]
      omega
    · rw [readInt32_eq_iff (by rw [List.length_append]; omega)
        (by unfold kMaxMessageLength at hmax; omega), List.take_append_of_le_length (by omega), hhead]
  have hslice : slice (f' ++ rest) 4 n = f'.drop 4 := by
    rw [slice, List.drop_append_of_le_length (by omega), List.take_append_of_le_length (by omega),
      List.take_of_length_le (by omega)]
  have hbad : c.check (f'.drop 4) = .error .kChecksumError := by
    have hsum : (f'.drop 4).length = (c.tag ++ payload).length + 4 := by omega
    refine check_damaged hadler hsum (by omega) ?_ ?_
    · rw [← hdist]
      exact hd.damage
    · rw [← hdist]
      exact hd.few
  rw [front_complete (by omega) ann (by rw [List.length_append]; omega), hslice, hbad]
  rfl

/-- **A damaged frame stops the stream.** Behind any number of valid frames comes one of less
than 65529 bytes with one or two damaged bytes behind its length field. However the stream is
cut: the messages in front of it are delivered and nothing else, an error of the checksum is
reported, and the frame stays in the buffer with all that follows. -/
theorem damaged_frame_rejected (hadler : c.adler32 = Lib.adler32) {fs : List (List UInt8)}
    {ms : List μ} (hfs : List.Forall₂ c.IsValidFrame fs ms) {f f' : List UInt8} {message : μ}
    (hf : c.IsValidFrame f message) (hlen : f.length < 65529) (hd : Damaged f f')
    {cs : List (List UInt8)} {rest : List UInt8} (hcs : cs.flatten = fs.flatten ++ (f' ++ rest)) :
    delivered (c.receive cs).1 = ms ∧ (c.receive cs).2 = f' ++ rest ∧
      Report.error (.code .kChecksumError) ∈ (c.receive cs).1 := by
  have hfit : c.tag.length + 8 < 2147483648 := by
    obtain ⟨n, payload, -, -, rfl, -, -⟩ := hf
    simp only [List.length_append] at hlen
    omega
  have hl := lawful hfit
  have hfront := front_damaged hadler hf hlen hd rest
  have hfeed := hl.feed_eq cs (b := []) (by simp [hl.nil_wait])
  have hdrain := hl.drain_frames ((forall₂_isFrame_iff hfit).mpr hfs) (f' ++ rest)
  have hstop := Lawful.drainAll_reject hfront
  rw [List.nil_append, hcs] at hfeed
  have hrest : (c.receive cs).2 = f' ++ rest := by
    rw [receive, hfeed.2, hdrain.2, hstop]
  refine ⟨?_, hrest, ?_⟩
  · rw [receive, hfeed.1, hdrain.1, hstop]
    simp
  · refine hl.error_mem_feed ?_ (by rw [← receive, hrest, hfront])
    rintro rfl
    -- a frame is not empty
    have hnil : f' = [] := by
      have hnil := congrArg List.length hcs
      simp only [List.flatten_nil, List.length_nil, List.length_append] at hnil
      exact List.length_eq_zero_iff.mp (by omega)
    rw [hnil] at hd
    have hpos := hd.damage
    have hzero : f = [] := List.length_eq_zero_iff.mp hd.length.symm
    rw [hzero] at hpos
    exact absurd hpos (Nat.lt_irrefl 0)

/-- The theorem at a frame with a damaged byte in its tag and one in its checksum. -/
theorem damaged_tag_and_checksum :
    ∃ f' : List UInt8, Damaged (rpc0.frameOf [7]) f' ∧ distance (rpc0.frameOf [7]) f' = 2 ∧
      ∀ cs rest, cs.flatten = (rpc0.frameOf []) ++ (f' ++ rest) →
        delivered (rpc0.receive cs).1 = [[]] := by
  have hd : Damaged (rpc0.frameOf [7]) (((rpc0.frameOf [7]).set 5 0).set 11 0) :=
    ⟨by decide +kernel, by decide +kernel, by decide +kernel, by decide +kernel⟩
  refine ⟨_, hd, by decide +kernel, ?_⟩
  intro cs rest hcs
  have hvalid : rpc0.IsValidFrame (rpc0.frameOf []) [] := isValidFrame_frameOf (by decide) rfl
  have hvalid' : rpc0.IsValidFrame (rpc0.frameOf [7]) [7] := isValidFrame_frameOf (by decide) rfl
  exact (damaged_frame_rejected rfl (.cons hvalid .nil) hvalid' (by decide +kernel) hd
    (by rw [hcs, List.flatten_singleton])).1

end Taotu.RpcCodec
