import Taotu.Rpc.SyncChannel

/-!
# Taotu.Rpc.Agreement — the two decoders side by side (`rpc_codec.h`, `rpc_codec.cc`)

`RpcCodec` has two constructors, each of which stores its raw callback in a field
of its own, and two `OnMessage`, which read the fields.

1. **Codecs with raw callbacks.** `newAsync` and `newSync` are the constructors,
   `asyncIteration` is the first iteration of the asynchronous `OnMessage` and
   `onMessage` the synchronous one.
2. **Connection.** Without a raw callback these are the decoders of the other
   modules: `asyncIteration_of_none`, `onMessage_of_none`.
3. **Agreement.** `decoders_agree_iff` says when one call of either comes to the
   same on a stream that starts with a complete frame or a bad header.
-/

namespace Taotu

open Lib IoBuffer

/-- A raw callback, as a function of the bytes of a frame. -/
abbrev RawCallback := List UInt8 → Bool

/-- A codec with the raw callbacks that were given to its constructor. -/
structure CallbackCodec (μ : Type) where
  codec : RpcCodec μ
  asyncRawCallback : Option RawCallback
  syncRawCallback : Option RawCallback

/-- What becomes of a frame. -/
inductive Decision (μ : Type) where
  | filtered
  | delivered (m : μ)
  | error (e : RpcCodec.ErrorCode)
deriving DecidableEq, Repr

namespace CallbackCodec

open RpcCodec

variable {μ : Type}

/-! ## Codecs with raw callbacks -/

def newAsync (codec : RpcCodec μ) (rawCallback : Option RawCallback) : CallbackCodec μ :=
  ⟨codec, rawCallback, none⟩

def newSync (codec : RpcCodec μ) (rawCallback : Option RawCallback) : CallbackCodec μ :=
  ⟨codec, none, rawCallback⟩

/-- The frame at the front of the buffer, as the callbacks see it. -/
def frameView (io : IoBuffer) (len : ℤ) : Except Fault (List UInt8) :=
  io.load io.readingIndex (toSize (kHeaderLength + len))

/-- The test of the asynchronous `OnMessage`. -/
def asyncRejects (c : CallbackCodec μ) (io : IoBuffer) (len : ℤ) : Except Fault Bool :=
  match c.asyncRawCallback with
  | none => .ok false
  | some raw => do
    let frame ← frameView io len
    return !raw frame

/-- The test of the synchronous `OnMessage` asks for one callback and calls the other. -/
def syncRejects (c : CallbackCodec μ) (io : IoBuffer) (len : ℤ) : Except Fault Bool :=
  match c.asyncRawCallback with
  | none => .ok false
  | some _ =>
    match c.syncRawCallback with
    | none => .error .badFunctionCall
    | some raw => do
      let frame ← frameView io len
      return !raw frame

/-- What both do with a complete frame behind that test. -/
def conclude (c : CallbackCodec μ) (io : IoBuffer) (len : ℤ) (rejected : Bool) :
    Except Fault (Decision μ × IoBuffer) :=
  if rejected then .ok (.filtered, io.refresh (toSize (kHeaderLength + len)))
  else do
    match ← c.codec.parse (io.buffer.drop (addSize io.readingIndex 4)) len with
    | .ok m => return (.delivered m, io.refresh (toSize (kHeaderLength + len)))
    | .error e => return (.error e, io)

/-- The first iteration of the asynchronous `OnMessage`; `none` if the loop ends in front
of an incomplete frame. -/
def asyncIteration (c : CallbackCodec μ) (io : IoBuffer) :
    Except Fault (Option (Decision μ × IoBuffer)) :=
  if io.getReadableBytes < toUInt32 (toInt32 (c.codec.kMinMessageLength + kHeaderLength)) then
    .ok none
  else do
    let len ← io.getReadableInt32
    if kMaxMessageLength < len ∨ len < c.codec.kMinMessageLength then
      return some (.error .kInvalidLength, io)
    else if toSize (kHeaderLength + len) ≤ io.getReadableBytes then do
      let rejected ← c.asyncRejects io len
      let r ← c.conclude io len rejected
      return some r
    else return none

/-- The synchronous `OnMessage`; `none` if it does not return. `valid` is the answer of
`CheckSocketStatusValid`, without which there is no decision. -/
def onMessage (c : CallbackCodec μ) (valid : Bool) (s : ReadState) :
    Except Fault (Option (Option (Decision μ) × ReadState)) :=
  if valid then do
    match ← readUpTo (toSize (toInt32 (c.codec.kMinMessageLength + kHeaderLength)))
        (s.2.2.length + 1) s with
    | none => return none
    | some s =>
      let len ← s.1.getReadableInt32
      if kMaxMessageLength < len ∨ len < c.codec.kMinMessageLength then
        return some (some (.error .kInvalidLength), s)
      else
        match ← readUpTo (toSize (kHeaderLength + len)) (s.2.2.length + 1) s with
        | none => return none
        | some s =>
          let rejected ← c.syncRejects s.1 len
          let r ← c.conclude s.1 len rejected
          return some (some r.1, r.2, s.2)
  else .ok (some (none, s))

/-! ## Connection -/

/-- The decision behind an outcome of the synchronous decoder without raw callbacks. -/
def ofOutcome : Outcome μ → Option (Decision μ)
  | .nothing => none
  | .error e => some (.error e)
  | .message m => some (.delivered m)

/-- What an iteration does with the verdict of the decoder without raw callbacks. -/
def ofVerdict (io : IoBuffer) : Verdict μ Failure → Except Fault (Option (Decision μ × IoBuffer))
  | .wait => .ok none
  | .reject (.code e) => .ok (some (.error e, io))
  | .reject (.fault f) => .error f
  | .accept m n => .ok (some (.delivered m, io.refresh n))

theorem conclude_false (c : CallbackCodec μ) (io : IoBuffer) (len : ℤ) :
    (c.conclude io len false >>= fun r => .ok (some r)) =
      ofVerdict io (settle (toSize (kHeaderLength + len))
        (c.codec.parse (io.buffer.drop (addSize io.readingIndex 4)) len)) := by
  rw [conclude, if_neg (by decide)]
  cases c.codec.parse (io.buffer.drop (addSize io.readingIndex 4)) len with
  | error f => rfl
  | ok r => cases r <;> rfl

/-- Without a raw callback the first iteration is one look at the buffer. -/
theorem asyncIteration_of_none (c : CallbackCodec μ) (hc : c.asyncRawCallback = none)
    (io : IoBuffer) : c.asyncIteration io = ofVerdict io (c.codec.frontIo io) := by
  rw [asyncIteration, frontIo]
  by_cases hguard : io.getReadableBytes <
      toUInt32 (toInt32 (c.codec.kMinMessageLength + kHeaderLength))
  · rw [if_pos hguard, if_pos hguard]
    rfl
  rw [if_neg hguard, if_neg hguard]
  cases io.getReadableInt32 with
  | error f => rfl
  | ok len =>
    rw [ok_bind]
    simp only [frontOf]
    by_cases hrange : kMaxMessageLength < len ∨ len < c.codec.kMinMessageLength
    · rw [if_pos hrange, if_pos hrange]
      rfl
    rw [if_neg hrange, if_neg hrange]
    by_cases hfull : toSize (kHeaderLength + len) ≤ io.getReadableBytes
    · rw [if_pos hfull, if_pos hfull, asyncRejects, hc, ok_bind]
      exact conclude_false c io len
    · rw [if_neg hfull, if_neg hfull]
      rfl

/-- Without an asynchronous raw callback the synchronous `OnMessage` is that of the
channel, whatever its own callback. -/
theorem onMessage_of_none (c : CallbackCodec μ) (hc : c.asyncRawCallback = none) (valid : Bool)
    (s : ReadState) :
    c.onMessage valid s =
      (c.codec.onMessageSync valid s).map (Option.map fun r => (ofOutcome r.1, r.2)) := by
  rw [onMessage, onMessageSync]
  cases valid with
  | false => rfl
  | true =>
    rw [if_pos rfl, if_pos rfl]
    cases readUpTo (toSize (toInt32 (c.codec.kMinMessageLength + kHeaderLength)))
        (s.2.2.length + 1) s with
    | error f => rfl
    | ok r =>
    cases r with
    | none => rfl
    | some s₁ =>
    rw [ok_bind, ok_bind]
    dsimp only
    cases s₁.1.getReadableInt32 with
    | error f => rfl
    | ok len =>
    rw [ok_bind, ok_bind]
    by_cases hrange : kMaxMessageLength < len ∨ len < c.codec.kMinMessageLength
    · rw [if_pos hrange, if_pos hrange]
      rfl
    rw [if_neg hrange, if_neg hrange]
    cases readUpTo (toSize (kHeaderLength + len)) (s₁.2.2.length + 1) s₁ with
    | error f => rfl
    | ok r =>
    cases r with
    | none => rfl
    | some s₂ =>
    rw [ok_bind, ok_bind]
    dsimp only
    rw [syncRejects, hc, ok_bind, conclude, if_neg (by decide)]
    cases c.codec.parse (s₂.1.buffer.drop (addSize s₂.1.readingIndex 4)) len with
    | error f => rfl
    | ok m => cases m <;> rfl

/-! ## Agreement -/

variable {codec : RpcCodec μ} {raw : Option RawCallback} {io b : IoBuffer}
  {content inbound : List UInt8} {results : List ℤ}

/-- The raw callback, if there is one, lets the frame pass. -/
def Passes (raw : Option RawCallback) (frame : List UInt8) : Prop := ∀ f ∈ raw, f frame = true

instance (raw : Option RawCallback) (frame : List UInt8) : Decidable (Passes raw frame) :=
  match raw with
  | none => .isTrue (by simp [Passes])
  | some f => decidable_of_iff (f frame = true) (by simp [Passes])

/-- A stream starts with a header of a bad length or with a complete frame. -/
inductive Starts (codec : RpcCodec μ) (stream : List UInt8) : Prop
  | badLength (guard : codec.tag.length + 8 ≤ stream.length)
      (range : kMaxMessageLength < readInt32 stream ∨ readInt32 stream < codec.tag.length + 4)
  | frame {n : ℕ} (ann : codec.Announces stream n) (complete : 4 + n ≤ stream.length)

section

variable {c : CallbackCodec μ} (hfit : c.codec.tag.length + 8 < 2147483648)
include hfit

/-- An iteration that finds a bad length does not ask the raw callback. -/
theorem asyncIteration_badLength (hio : io.Wf)
    (guard : c.codec.tag.length + 8 ≤ io.readable.length)
    (range : kMaxMessageLength < readInt32 io.readable ∨
      readInt32 io.readable < c.codec.tag.length + 4) :
    c.asyncIteration io = .ok (some (.error .kInvalidLength, io)) := by
  rw [asyncIteration, guard_eq hfit, hio.getReadableBytes_length, if_neg (not_lt.mpr guard),
    getReadableInt32_eq hio, ok_bind, kMinMessageLength_eq hfit, if_pos range]
  rfl

/-- An iteration that finds a complete frame asks the raw callback first. -/
theorem asyncIteration_frame (hio : io.Wf) {n : ℕ} (ann : c.codec.Announces io.readable n)
    (complete : 4 + n ≤ io.readable.length) :
    c.asyncIteration io =
      if Passes c.asyncRawCallback (io.readable.take (4 + n)) then
        ofVerdict io (settle (4 + n) (.ok (c.codec.check (slice io.readable 4 n))))
      else .ok (some (.filtered, io.refresh (4 + n))) := by
  have hview : frameView io n = .ok (io.readable.take (4 + n)) := by
    rw [frameView, ann.frameSize_eq]
    exact load_take hio (by rw [hio.getReadableBytes_length]; exact complete)
  have hpass := conclude_false c io n
  rw [ann.frameSize_eq, parse_readable hio ann.min ann.le_max complete] at hpass
  rw [asyncIteration, guard_eq hfit, hio.getReadableBytes_length, if_neg (not_lt.mpr ann.guard),
    getReadableInt32_eq hio, ok_bind, ann.len, kMinMessageLength_eq hfit, if_neg ann.in_range,
    ann.frameSize_eq, if_pos complete, asyncRejects]
  cases hraw : c.asyncRawCallback with
  | none =>
    rw [if_pos (by simp [Passes])]
    exact hpass
  | some f =>
    dsimp only
    rw [hview, ok_bind]
    cases hf : f (io.readable.take (4 + n)) with
    | true =>
      rw [if_pos (by simp [Passes, hf])]
      exact hpass
    | false =>
      have hreject : c.conclude io n true = .ok (.filtered, io.refresh (4 + n)) := by
        rw [conclude, if_pos rfl, ann.frameSize_eq]
      rw [if_neg (by simp [Passes, hf])]
      change (Except.ok true >>= fun rejected => c.conclude io n rejected >>= _) = _
      rw [ok_bind, hreject]
      rfl

end

/-- Both decoders come to the same decision, and leave the same bytes in the buffer and
the socket. -/
def Agree (codec : RpcCodec μ) (raw : Option RawCallback) (io : IoBuffer) (s : ReadState) : Prop :=
  ∃ d io' b' inbound' results',
    (newAsync codec raw).asyncIteration io = .ok (some (d, io')) ∧
    (newSync codec raw).onMessage true s = .ok (some (some d, b', inbound', results')) ∧
    b'.readable ++ inbound' = io'.readable

/-- On a complete frame that the synchronous decoder does not filter, both agree if the
raw callback lets it pass. -/
theorem agree_iff_passes (hfit : codec.tag.length + 8 < 2147483648) (hio : io.Wf) {s : ReadState}
    {n : ℕ} (ann : codec.Announces io.readable n) (complete : 4 + n ≤ io.readable.length)
    {d : Decision μ} (hd : d ≠ .filtered) {io' b' : IoBuffer} {inbound' : List UInt8}
    {results' : List ℤ}
    (hasync : ofVerdict io (settle (4 + n) (.ok (codec.check (slice io.readable 4 n)))) =
      .ok (some (d, io')))
    (hsync : (newSync codec raw).onMessage true s = .ok (some (some d, b', inbound', results')))
    (hrest : b'.readable ++ inbound' = io'.readable) :
    Agree codec raw io s ↔ Passes raw (io.readable.take (4 + n)) := by
  have hfirst := asyncIteration_frame (c := newAsync codec raw) hfit hio ann complete
  constructor
  · rintro ⟨d', _, _, _, _, ha, hs, -⟩
    by_contra hraw
    cases hs.symm.trans hsync
    cases ha.symm.trans (hfirst.trans (if_neg hraw))
    exact hd rfl
  · intro hraw
    exact ⟨d, io', b', inbound', results', (hfirst.trans (if_pos hraw)).trans hasync, hsync, hrest⟩

/-- **The decoders agree** exactly if the raw callback lets the frame pass: the synchronous
one never asks it. -/
theorem decoders_agree_iff (hfit : codec.tag.length + 8 < 2147483648) (hio : io.Wf)
    (hb : Filled b content) (hsame : io.readable = content ++ inbound)
    (hstart : Starts codec (content ++ inbound)) (hflow : Flowing results)
    (hmany : inbound.length ≤ results.length) :
    Agree codec raw io (b, inbound, results) ↔
      ∀ n, codec.Announces (content ++ inbound) n →
        Passes raw ((content ++ inbound).take (4 + n)) := by
  rcases onMessageSync_result inbound hfit hb hflow.noError with ⟨r, hr, hresult⟩
  have hsync := onMessage_of_none (newSync codec raw) rfl true (b, inbound, results)
  simp only [newSync] at hsync
  rw [hr] at hsync
  rw [← hsame] at hstart ⊢
  -- a frame is announced with one length only
  have hunique : ∀ {n}, codec.Announces io.readable n →
      ((∀ m, codec.Announces io.readable m → Passes raw (io.readable.take (4 + m))) ↔
        Passes raw (io.readable.take (4 + n))) := by
    intro n ann
    refine ⟨fun h => h n ann, fun h m hm => ?_⟩
    have hmn : m = n := Int.ofNat.inj (hm.len.symm.trans ann.len)
    rw [hmn]
    exact h
  cases hresult with
  | waits short =>
    exfalso
    rcases short hflow with hfew | hwait
    · omega
    · rw [← hsame] at hwait
      cases hstart with
      | badLength guard range => cases (front_badLength hfit guard range).symm.trans hwait
      | frame ann complete =>
        have hfront := (front_complete hfit ann complete).symm.trans hwait
        cases hcheck : codec.check (slice io.readable 4 _) <;> rw [hcheck] at hfront <;> cases hfront
  | badLength hk guard range filled =>
    rw [← hsame] at guard range
    constructor
    · intro _ n ann
      rw [ann.len] at range
      exact absurd range ann.in_range
    · intro _
      refine ⟨_, _, _, _, _, asyncIteration_badLength (c := newAsync codec raw) hfit hio guard range,
        hsync, ?_⟩
      rw [filled.readable, taken_append, hsame]
  | invalid hk ann complete bad filled =>
    rw [← hsame] at ann complete bad
    rw [hunique ann]
    refine agree_iff_passes hfit hio ann complete (by simp) (by rw [bad]; rfl) hsync ?_
    rw [filled.readable, taken_append, hsame]
  | @frame b' results' n k m hk ann complete good filled =>
    rw [← hsame] at ann complete good
    rw [hunique ann]
    refine agree_iff_passes hfit hio ann complete (by simp) (by rw [good]; rfl) hsync ?_
    -- both drop the frame
    have hall : io.readable.length = content.length + inbound.length := by
      rw [hsame, List.length_append]
    have hlen : 4 + n ≤ (content ++ inbound.take k).length := by
      rw [List.length_append, List.length_take_of_le (by omega)]
      omega
    rw [(refresh_spec filled.wf (by rw [filled.wf.getReadableBytes_length, filled.readable]; exact hlen)).2,
      (refresh_spec hio (by rw [hio.getReadableBytes_length]; exact complete)).2, filled.readable, hsame,
      ← taken_append content inbound k, List.drop_append_of_le_length hlen]

/-- A frame and a byte behind it, which the raw callback lets pass. -/
theorem decoders_agree_on_short_frame :
    Agree rpc0 (some fun frame => frame.length < 100)
      ⟨List.replicate 8 0 ++ (rpc0.frameOf [7] ++ [1]), 8, 22⟩
      (⟨List.replicate 12 0, 8, 8⟩, rpc0.frameOf [7] ++ [1], List.replicate 14 1) := by
  have hempty : Filled (⟨List.replicate 12 0, 8, 8⟩ : IoBuffer) [] := ⟨by decide, by decide, rfl, rfl⟩
  refine (decoders_agree_iff (by decide) (by decide) hempty (by decide)
    (.frame (n := 9) ⟨by decide, by decide, by decide, by decide⟩ (by decide))
    (fun n hn => by rw [List.eq_of_mem_replicate hn]; decide) (by decide)).mpr ?_
  intro n _ f hf
  cases hf
  have hlen : (rpc0.frameOf [7] ++ [1]).length = 14 := by decide
  simp only [List.nil_append, List.length_take, hlen, decide_eq_true_eq]
  omega

/-- A raw callback that lets nothing pass: the asynchronous decoder drops the frame, the
synchronous one delivers it. -/
theorem sync_decoder_ignores_raw_callback :
    ∃ io io' s s', io.readable = rpc0.frameOf [7] ∧
      (newAsync rpc0 (some fun _ => false)).asyncIteration io = .ok (some (.filtered, io')) ∧
      s.1.readable = [] ∧ s.2.1 = rpc0.frameOf [7] ∧
      (newSync rpc0 (some fun _ => false)).onMessage true s = .ok (some (some (.delivered [7]), s')) ∧
      ¬ Agree rpc0 (some fun _ => false) io s := by
  have hasync : (newAsync rpc0 (some fun _ => false)).asyncIteration
      ⟨List.replicate 8 0 ++ rpc0.frameOf [7], 8, 21⟩ =
      .ok (some (.filtered, ⟨List.replicate 8 0 ++ rpc0.frameOf [7], 8, 8⟩)) := by decide +kernel
  have hsync : (newSync rpc0 (some fun _ => false)).onMessage true
      (⟨List.replicate 21 0, 8, 8⟩, rpc0.frameOf [7], [12, 1]) =
      .ok (some (some (.delivered [7]),
        ⟨List.replicate 8 0 ++ rpc0.frameOf [7], 8, 8⟩, [], [])) := by decide +kernel
  refine ⟨_, _, _, _, by decide, hasync, rfl, rfl, hsync, ?_⟩
  rintro ⟨d, _, _, _, _, ha, hs, -⟩
  cases ha.symm.trans hasync
  cases hs.symm.trans hsync

end CallbackCodec

end Taotu
