import Taotu.Lib.Adler32
import Taotu.Rpc.Codec

/-!
# Taotu.Rpc.Stream — what the codec does to a whole stream

`Codec` settles one look at the front of the input. Here the frame grammar of
`rpc_codec.h` is stated on its own (`IsValidFrame`), and the looks are joined
to what happens on a stream that TCP has cut anywhere.

1. The frames of the decoder are the frames of the grammar (`isFrame_iff`).
2. Whatever arrives, the messages delivered are those of the longest prefix
   made of valid frames (`decoder_accepts_exactly_frames`). The lengths of the
   codec are `int`s: a tag too long for them is outside of this result, and
   `huge_tag_accepts_non_frame` is such a tag.
3. What the encoder wrote comes back, for any chunking (`decoder_undoes_encoder`).
-/

namespace Taotu.RpcCodec

open Lib IoBuffer

variable {μ : Type} {c : RpcCodec μ}

/-! ## The frame grammar -/

variable (c) in
/-- A length `n` in range, and `n` bytes: the tag, a payload that protobuf
accepts as `message`, and the checksum of the two. -/
def IsValidFrame (f : List UInt8) (message : μ) : Prop :=
  ∃ (n : ℕ) (payload : List UInt8), c.tag.length + 4 ≤ n ∧ (n : ℤ) ≤ kMaxMessageLength ∧
    f = beBytes 4 n ++ (c.tag ++ payload ++ beBytes 4 (c.adler32 (c.tag ++ payload))) ∧
    (c.tag ++ payload ++ beBytes 4 (c.adler32 (c.tag ++ payload))).length = n ∧
    c.parseFromArray payload = some message

variable (c) in
/-- The input starts with an invalid frame: the length is out of range, or the
announced bytes are there and are no frame. -/
def InvalidFront (buf : List UInt8) : Prop :=
  4 ≤ buf.length ∧
    ((kMaxMessageLength < readInt32 buf ∨ readInt32 buf < c.tag.length + 4) ∨
      ∃ n : ℕ, readInt32 buf = n ∧ 4 + n ≤ buf.length ∧
        ∀ message, ¬ c.IsValidFrame (buf.take (4 + n)) message)

/-- The length field reads as `n` exactly when it is the encoding of `n`. -/
theorem readInt32_eq_iff {buf : List UInt8} (hlen : 4 ≤ buf.length) {n : ℕ} (hn : n < 2147483648) :
    readInt32 buf = n ↔ buf.take 4 = beBytes 4 n := by
  have hword : (256 : ℕ) ^ 4 = 4294967296 := by norm_num
  have hfour : (buf.take 4).length = 4 := by simp [hlen]
  have hlt := ofBeBytes_lt (buf.take 4)
  rw [hfour, hword] at hlt
  rw [readInt32_eq hlen]
  constructor
  · intro h
    have hval := congrArg toUInt32 h
    rw [toUInt32_toInt32, Nat.mod_eq_of_lt hlt, toUInt32_eq (by omega) (by omega),
      Int.toNat_natCast] at hval
    rw [← hval]
    have hback := beBytes_ofBeBytes (buf.take 4)
    rw [hfour] at hback
    exact hback.symm
  · intro h
    rw [h, ofBeBytes_beBytes, hword, Nat.mod_eq_of_lt (by omega), toInt32_eq (by omega) (by omega)]

/-- **The decoder's frames are those of the grammar.** -/
theorem isFrame_iff (hfit : c.tag.length + 8 < 2147483648) {f : List UInt8} {message : μ} :
    IsFrame c.front f message ↔ c.IsValidFrame f message := by
  constructor
  · intro h
    rcases front_accept hfit h with ⟨n, ann, hlen, hfull, hgood⟩
    have hmin := ann.min
    have hmax := ann.max
    have hbody : (slice f 4 n).length = n := length_slice hfull
    have hhead : f.take 4 = beBytes 4 n :=
      (readInt32_eq_iff (by omega) (by unfold kMaxMessageLength at hmax; omega)).mp ann.len
    rcases (check_ok_iff (by omega)).mp hgood with ⟨payload, hpayload, hparse⟩
    refine ⟨n, payload, hmin, hmax, ?_, by rw [← hpayload, hbody], hparse⟩
    have htail : slice f 4 n = f.drop 4 := List.take_of_length_le (by simp; omega)
    have hall : f.take 4 ++ slice f 4 n = f := by rw [htail, List.take_append_drop]
    rw [← hpayload, ← hhead, hall]
  · rintro ⟨n, payload, hmin, hmax, rfl, hlen, hparse⟩
    have hhead := length_beBytes 4 n
    have hdrop : slice (beBytes 4 n ++ (c.tag ++ payload ++
        beBytes 4 (c.adler32 (c.tag ++ payload)))) 4 n =
        c.tag ++ payload ++ beBytes 4 (c.adler32 (c.tag ++ payload)) := by
      rw [slice, List.drop_left' hhead, List.take_of_length_le (by omega)]
    have hfull : (beBytes 4 n ++ (c.tag ++ payload ++
        beBytes 4 (c.adler32 (c.tag ++ payload)))).length = 4 + n := by
      rw [List.length_append, hhead, hlen]
    have ann : c.Announces (beBytes 4 n ++ (c.tag ++ payload ++
        beBytes 4 (c.adler32 (c.tag ++ payload)))) n := by
      refine ⟨by omega, ?_, hmin, hmax⟩
      rw [readInt32_eq_iff (by omega) (by unfold kMaxMessageLength at hmax; omega),
        List.take_left' hhead]
    rw [IsFrame, front_complete hfit ann (by omega), hdrop,
      (check_ok_iff (by omega)).mpr ⟨payload, rfl, hparse⟩, hfull]
    rfl

theorem forall₂_isFrame_iff (hfit : c.tag.length + 8 < 2147483648) {fs : List (List UInt8)}
    {ms : List μ} :
    List.Forall₂ (IsFrame c.front) fs ms ↔ List.Forall₂ c.IsValidFrame fs ms := by
  have hsame : IsFrame c.front = c.IsValidFrame := by
    funext f message
    exact propext (isFrame_iff hfit)
  rw [hsame]

/-- No continuation of an invalid front is accepted. -/
theorem InvalidFront.dead (hfit : c.tag.length + 8 < 2147483648) {buf : List UInt8}
    (h : c.InvalidFront buf) (x : List UInt8) (message : μ) (k : ℕ) :
    c.front (buf ++ x) ≠ .accept message k := by
  intro hacc
  rcases h with ⟨hfour, hbad⟩
  rcases front_accept hfit hacc with ⟨n, ann, hk, -, -⟩
  have hmin := ann.min
  have hmax := ann.max
  have hlen := ann.len
  rw [readInt32_append hfour] at hlen
  rcases hbad with hrange | ⟨n', hn', hfull, hno⟩
  · omega
  · -- the frame accepted is the one that was complete and invalid
    have hn : n = n' := by omega
    have hframe := (lawful hfit).accept_take hacc
    rw [hk, hn, List.take_append_of_le_length hfull] at hframe
    apply hno message
    rw [← isFrame_iff hfit, IsFrame, hframe, List.length_take, Nat.min_eq_left hfull]

/-! ## Any stream -/

/-- **The decoder accepts exactly its frames, whatever the chunking.** For any
bytes `B`, cut in any way into the chunks `cs`, the messages delivered are
those of valid frames at the front of `B`, what is left in the buffer is the
rest of `B`, and no longer prefix of `B` consists of valid frames. Once the
rest starts with an invalid frame, nothing more is delivered. -/
theorem decoder_accepts_exactly_frames (c : RpcCodec μ) (hfit : c.tag.length + 8 < 2147483648)
    (B : List UInt8) (cs : List (List UInt8)) (hcs : cs.flatten = B) :
    (∃ fs, List.Forall₂ c.IsValidFrame fs (delivered (c.receive cs).1) ∧
      B = fs.flatten ++ (c.receive cs).2 ∧
      ∀ gs ms, List.Forall₂ c.IsValidFrame gs ms → gs.flatten <+: B → gs.flatten <+: fs.flatten) ∧
    (c.InvalidFront (c.receive cs).2 → ∀ ds,
      delivered (c.receive (cs ++ ds)).1 = delivered (c.receive cs).1 ∧
        (c.receive (cs ++ ds)).2 = (c.receive cs).2 ++ ds.flatten) := by
  have hl := lawful hfit
  have hfeed := hl.feed_eq cs (b := []) (by simp [hl.nil_wait])
  rw [List.nil_append, hcs] at hfeed
  constructor
  · rcases hl.exists_frames B with ⟨fs, hfs, hB⟩
    refine ⟨fs, ?_, ?_, ?_⟩
    · rw [receive, hfeed.1]
      exact (forall₂_isFrame_iff hfit).mp hfs
    · rw [receive, hfeed.2]
      exact hB
    · intro gs ms hgs hpre
      rw [hB] at hpre
      exact hl.prefix_of_frames ((forall₂_isFrame_iff hfit).mpr hgs) hfs (hl.rest_front B) hpre
  · intro hbad ds
    have hdead := hl.feed_dead (hbad.dead hfit) ds
    rw [receive, receive, feed_append, delivered_append]
    constructor
    · rw [receive] at hdead
      rw [hdead.1, List.append_nil]
    · exact hdead.2

/-- A codec for byte strings with the tag `RPC0`. -/
def rpc0 : RpcCodec (List UInt8) where
  tag := [82, 80, 67, 48]
  adler32 := Lib.adler32
  parseFromArray := some
  byteSizeLong := List.length
  serializeWithCachedSizesToArray := id

/-- The theorem at two frames cut inside of the second one, with a length out of
range behind them. -/
theorem decoder_stops_at_bad_length :
    ∃ cs : List (List UInt8),
      (∃ fs, List.Forall₂ rpc0.IsValidFrame fs [[], [7]] ∧
        cs.flatten = fs.flatten ++ [0, 0, 0, 1, 9, 9, 9, 9, 9, 9, 9, 9]) ∧
      ∀ ds, delivered (rpc0.receive (cs ++ ds)).1 = [[], [7]] := by
  let cs : List (List UInt8) :=
    [rpc0.frameOf [] ++ [0, 0], [0, 9, 82] ++ (rpc0.frameOf [7]).drop 5,
      [0, 0, 0, 1, 9, 9, 9, 9, 9, 9, 9, 9]]
  have hrun : delivered (rpc0.receive cs).1 = [[], [7]] ∧
      (rpc0.receive cs).2 = [0, 0, 0, 1, 9, 9, 9, 9, 9, 9, 9, 9] := by decide +kernel
  have h := decoder_accepts_exactly_frames rpc0 (by decide) cs.flatten cs rfl
  rw [hrun.1, hrun.2] at h
  rcases h with ⟨⟨fs, hfs, hB, -⟩, hdead⟩
  refine ⟨cs, ⟨fs, hfs, hB⟩, ?_⟩
  intro ds
  exact (hdead ⟨by decide, .inl (.inr (by decide))⟩ ds).1

/-- A codec whose tag is `t` behind the four bytes of the number one, with a
checksum that is always one. -/
def wideTag (t : List UInt8) : RpcCodec Unit where
  tag := [0, 0, 0, 1] ++ t
  adler32 _ := 1
  parseFromArray _ := some ()
  byteSizeLong _ := 0
  serializeWithCachedSizesToArray _ := []

/-- With a tag of `2 ^ 32` bytes the least length is narrowed to four, and a
body of four bytes is parsed. -/
theorem wideTag_front {t : List UInt8} (ht : t.length + 4 = 4294967296) :
    (wideTag t).front ([0, 0, 0, 4] ++ (wideTag t).tag) = .accept () 8 := by
  have htag : (wideTag t).tag.length = 4294967296 := by
    simp only [wideTag, List.length_append, List.length_cons, List.length_nil]
    omega
  have hmin : (wideTag t).kMinMessageLength = 4 := by
    rw [kMinMessageLength, htag, addSize_eq (by decide)]
    decide
  have hlen : ([0, 0, 0, 4] ++ (wideTag t).tag).length = 4294967300 := by
    rw [List.length_append, htag]
    rfl
  have hread : readInt32 ([0, 0, 0, 4] ++ (wideTag t).tag) = 4 := by
    rw [readInt32_eq (by omega)]
    have hhead : ([0, 0, 0, 4] ++ (wideTag t).tag).take 4 = [0, 0, 0, 4] := rfl
    rw [hhead]
    decide
  have hstart : peek (wideTag t).tag 0 (wideTag t).tag.length = .ok (wideTag t).tag := by
    have h := @peek_ok (wideTag t).tag 0 (wideTag t).tag.length (by omega)
    rwa [slice, List.drop_zero, List.take_length] at h
  have hdata : peek (wideTag t).tag (wideTag t).tag.length 0 = .ok [] :=
    @peek_ok (wideTag t).tag (wideTag t).tag.length 0 (by omega)
  have hvalid : (wideTag t).validateChecksum (wideTag t).tag 4 = .ok true := by
    have hsum : ((wideTag t).tag.take 4).drop (4 - 4) = [0, 0, 0, 1] := rfl
    have heq : toInt32 (ofBeBytes (((wideTag t).tag.take 4).drop (4 - 4))) =
        (wideTag t).checksum ((wideTag t).tag.take (4 - 4)) := by
      rw [hsum]
      show toInt32 _ = toInt32 ((1 : ℕ) : ℤ)
      decide
    have h := @validateChecksum_eq _ (wideTag t) (wideTag t).tag 4 le_rfl (by omega)
    rwa [decide_eq_true heq] at h
  have hzero : toInt32 (4 - kChecksumLength - toInt32 (wideTag t).tag.length) = 0 := by
    rw [htag]
    decide
  have hparse : (wideTag t).parse (wideTag t).tag 4 = .ok (.ok ()) := by
    rw [parse, hvalid, ok_bind, if_pos rfl, hstart, ok_bind, if_pos rfl, hzero]
    dsimp only
    rw [hdata]
    rfl
  rw [front, hmin, if_neg (by rw [hlen]; decide), frontOf, hmin, hread, hlen, if_neg (by decide),
    if_pos (by decide)]
  show settle _ ((wideTag t).parse (wideTag t).tag 4) = _
  rw [hparse]
  decide

/-- A tag of `2 ^ 32` bytes leaves no room for a valid frame, and yet a message
is delivered. -/
theorem huge_tag_accepts_non_frame :
    ∃ (c : RpcCodec Unit) (B : List UInt8), c.tag.length = 4294967296 ∧
      (∀ f message, ¬ c.IsValidFrame f message) ∧ delivered (c.receive [B]).1 ≠ [] := by
  obtain ⟨t, ht⟩ : ∃ t : List UInt8, t.length + 4 = 4294967296 :=
    ⟨List.replicate 4294967292 0, by rw [List.length_replicate]⟩
  have htag : (wideTag t).tag.length = 4294967296 := by
    simp only [wideTag, List.length_append, List.length_cons, List.length_nil]
    omega
  refine ⟨wideTag t, [0, 0, 0, 4] ++ (wideTag t).tag, htag, ?_, ?_⟩
  · rintro f message ⟨n, payload, hmin, hmax, -⟩
    unfold kMaxMessageLength at hmax
    omega
  · apply List.ne_nil_of_mem
    exact mem_delivered_feed _ (wideTag_front ht) []

/-! ## What was encoded -/

theorem isValidFrame_frameOf {payload : List UInt8} {message : μ}
    (hmax : (c.tag.length + payload.length + 4 : ℤ) ≤ kMaxMessageLength)
    (hparse : c.parseFromArray payload = some message) :
    c.IsValidFrame (c.frameOf payload) message := by
  refine ⟨c.tag.length + payload.length + 4, payload, by omega, by push_cast; exact hmax, rfl, ?_,
    hparse⟩
  simp only [List.length_append, length_beBytes]

/-- **Decoding undoes encoding on streams.** For any messages whose bodies fit,
`FillEmptyBuffer` succeeds on a fresh buffer, and however the bytes of all the
frames are cut, the decoder with the same tag reports the messages in order,
no error, and ends with an empty buffer. -/
theorem decoder_undoes_encoder (c : RpcCodec μ)
    (hsize : ∀ m, (c.serializeWithCachedSizesToArray m).length = c.byteSizeLong m)
    (hparse : ∀ m, c.parseFromArray (c.serializeWithCachedSizesToArray m) = some m)
    (ms : List μ)
    (hms : ∀ m ∈ ms, (c.tag.length + c.byteSizeLong m + 4 : ℤ) ≤ kMaxMessageLength) :
    ∃ bs, List.Forall₂ (fun m b => c.encode m = .ok b) ms bs ∧
      ∀ cs, cs.flatten = bs.flatten → c.receive cs = (ms.map .deliver, []) := by
  refine ⟨ms.map fun m => c.frameOf (c.serializeWithCachedSizesToArray m), ?_, ?_⟩
  · rw [List.forall₂_map_right_iff, List.forall₂_same]
    intro m hm
    exact encode_eq (hsize m) (hms m hm)
  · intro cs hcs
    cases ms with
    | nil => exact feed_empty c.front front_nil hcs
    | cons m ms =>
      -- one message that fits is enough to bound the tag
      have hfit : c.tag.length + 8 < 2147483648 := by
        have hm := hms m (List.mem_cons_self ..)
        unfold kMaxMessageLength at hm
        omega
      refine (lawful hfit).feed_frames ?_ hcs
      rw [forall₂_isFrame_iff hfit, List.forall₂_map_left_iff, List.forall₂_same]
      intro m' hm'
      apply isValidFrame_frameOf
      · rw [hsize]
        exact hms m' hm'
      · exact hparse m'

/-- The theorem at an empty and a short message that arrive byte by byte. -/
theorem decoder_undoes_encoder_bytewise :
    ∃ bs, List.Forall₂ (fun m b => rpc0.encode m = .ok b) [[], [1, 2, 3]] bs ∧
      rpc0.receive (bs.flatten.map fun x => [x]) = ([.deliver [], .deliver [1, 2, 3]], []) := by
  rcases decoder_undoes_encoder rpc0 (fun _ => rfl) (fun _ => rfl) [[], [1, 2, 3]] (by decide) with
    ⟨bs, hbs, hall⟩
  refine ⟨bs, hbs, hall _ ?_⟩
  rw [← List.flatMap_def, List.flatMap_singleton']

end Taotu.RpcCodec
