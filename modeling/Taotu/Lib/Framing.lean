import Mathlib.Data.List.Forall2
import Mathlib.Data.List.Infix
import Mathlib.Tactic.Common

/-!
# Taotu.Lib.Framing — incremental decoding of a framed stream

A framed stream is decoded by looking at the front of the input received so
far: the look (`front`) either waits for more input, rejects what is there, or
accepts one frame and says how long it is. `drain` repeats the look until it
stops accepting, `feed` drains after each received chunk.

The laws of `Lawful` are what makes decoding independent of how the stream was
cut: a decision, once taken, does not depend on input that arrives later. From
them alone:

* `feed_eq`: any chunking delivers what draining the whole stream delivers;
* `drain_frames`, `exists_frames`: what is delivered is exactly the content of
  a sequence of frames at the front of the stream;
* `prefix_of_frames`: that sequence is the longest one;
* `feed_dead`: behind a front that can no longer become a frame nothing is
  ever delivered;
* `feed_frames`: a stream of frames is delivered in full and without an error.
-/

namespace Taotu.Lib

universe u v w

/-- What a look at the front of the input decides. -/
inductive Verdict (μ : Type v) (ε : Type w) where
  | wait
  | reject (e : ε)
  | accept (m : μ) (n : ℕ)
deriving DecidableEq

/-- What a decoder reports: a delivered message, or an error. -/
inductive Report (μ : Type v) (ε : Type w) where
  | deliver (m : μ)
  | error (e : ε)
deriving DecidableEq

/-- The messages among some reports. -/
def delivered {μ : Type v} {ε : Type w} (rs : List (Report μ ε)) : List μ :=
  rs.filterMap fun
    | .deliver m => some m
    | .error _ => none

section Reports

variable {μ : Type v} {ε : Type w}

@[simp] theorem delivered_nil : delivered ([] : List (Report μ ε)) = [] := rfl

@[simp] theorem delivered_deliver (m : μ) (rs : List (Report μ ε)) :
    delivered (.deliver m :: rs) = m :: delivered rs := rfl

@[simp] theorem delivered_error (e : ε) (rs : List (Report μ ε)) :
    delivered (.error e :: rs) = delivered rs := rfl

@[simp] theorem delivered_append (rs rs' : List (Report μ ε)) :
    delivered (rs ++ rs') = delivered rs ++ delivered rs' := by
  simp [delivered]

/-- Reports without an error are deliveries. -/
theorem eq_deliver_of_no_error {rs : List (Report μ ε)} (h : ∀ e, Report.error e ∉ rs) :
    rs = (delivered rs).map .deliver := by
  induction rs with
  | nil => rfl
  | cons r rs ih =>
    cases r with
    | deliver m =>
      have hrs := ih fun e he => h e (List.mem_cons_of_mem _ he)
      rw [delivered_deliver, List.map_cons, ← hrs]
    | error e => exact absurd (List.mem_cons_self ..) (h e)

end Reports

section Decoder

variable {α : Type u} {μ : Type v} {ε : Type w} (front : List α → Verdict μ ε)

/-- Decode frames off the front until the look stops accepting; the second
component is the input left over. The fuel bounds the number of looks. -/
def drain : ℕ → List α → List (Report μ ε) × List α
  | 0, b => ([], b)
  | fuel + 1, b =>
    match front b with
    | .wait => ([], b)
    | .reject e => ([.error e], b)
    | .accept m n =>
      let r := drain fuel (b.drop n)
      (.deliver m :: r.1, r.2)

/-- Drain with as many looks as can be of use: each frame has a cell at least. -/
def drainAll (b : List α) : List (Report μ ε) × List α := drain front (b.length + 1) b

/-- Append each chunk to what was left over and drain. -/
def feed : List α → List (List α) → List (Report μ ε) × List α
  | b, [] => ([], b)
  | b, c :: cs =>
    let r := drainAll front (b ++ c)
    let t := feed r.2 cs
    (r.1 ++ t.1, t.2)

theorem feed_append (b : List α) (cs ds : List (List α)) :
    feed front b (cs ++ ds) =
      ((feed front b cs).1 ++ (feed front (feed front b cs).2 ds).1,
        (feed front (feed front b cs).2 ds).2) := by
  induction cs generalizing b with
  | nil => simp [feed]
  | cons c cs ih => simp only [List.cons_append, feed, ih, List.append_assoc]

/-- A frame completed by a chunk is delivered. -/
theorem mem_delivered_feed {b c : List α} {m : μ} {n : ℕ} (h : front (b ++ c) = .accept m n)
    (cs : List (List α)) : m ∈ delivered (feed front b (c :: cs)).1 := by
  rw [feed, drainAll, drain, h]
  simp

/-- Empty chunks into an empty buffer are nothing. -/
theorem feed_empty (hnil : front [] = .wait) {cs : List (List α)} (hcs : cs.flatten = []) :
    feed front [] cs = ([], []) := by
  induction cs with
  | nil => rfl
  | cons c cs ih =>
    rw [List.flatten_cons, List.append_eq_nil_iff] at hcs
    have hdrain : drainAll front ([] : List α) = ([], []) := by rw [drainAll, drain, hnil]
    rw [feed, hcs.1, List.nil_append, hdrain]
    simp only [ih hcs.2, List.nil_append]

/-- `f` is one complete frame and carries `m`. -/
def IsFrame (f : List α) (m : μ) : Prop := front f = .accept m f.length

/-- The decisions of a look do not depend on input that arrives later. -/
structure Lawful : Prop where
  nil_wait : front [] = .wait
  accept_pos : ∀ {b m n}, front b = .accept m n → 0 < n ∧ n ≤ b.length
  accept_append : ∀ {b m n} (x), front b = .accept m n → front (b ++ x) = .accept m n
  accept_take : ∀ {b m n}, front b = .accept m n → front (b.take n) = .accept m n
  reject_append : ∀ {b e} (x), front b = .reject e → ∃ e', front (b ++ x) = .reject e'

variable {front}

namespace Lawful

variable (hl : Lawful front)
include hl

/-- Fuel beyond the length of the input changes nothing. -/
theorem drain_fuel {fuel fuel' : ℕ} {b : List α} (h : b.length < fuel) (h' : b.length < fuel') :
    drain front fuel b = drain front fuel' b := by
  induction fuel generalizing fuel' b with
  | zero => omega
  | succ fuel ih =>
    cases fuel' with
    | zero => omega
    | succ fuel' =>
      rw [drain, drain]
      cases hf : front b with
      | wait => rfl
      | reject e => rfl
      | accept m n =>
        -- an accepted frame shortens the input, so both fuels still suffice
        obtain ⟨hn, hle⟩ := hl.accept_pos hf
        have hlen : (b.drop n).length < b.length := by simp; omega
        simp only [ih (by omega) (by omega : (b.drop n).length < fuel')]

omit hl in
theorem drainAll_wait {b : List α} (h : front b = .wait) : drainAll front b = ([], b) := by
  rw [drainAll, drain, h]

omit hl in
theorem drainAll_reject {b : List α} {e : ε} (h : front b = .reject e) :
    drainAll front b = ([.error e], b) := by
  rw [drainAll, drain, h]

theorem drainAll_accept {b : List α} {m : μ} {n : ℕ} (h : front b = .accept m n) :
    drainAll front b =
      (.deliver m :: (drainAll front (b.drop n)).1, (drainAll front (b.drop n)).2) := by
  obtain ⟨hn, hle⟩ := hl.accept_pos h
  have hfuel : drain front b.length (b.drop n) = drainAll front (b.drop n) :=
    hl.drain_fuel (by simp; omega) (by omega)
  rw [drainAll, drain, h]
  simp only [hfuel]

/-- Induction along the frames at the front of the input. -/
theorem induction {P : List α → Prop}
    (hwait : ∀ b, front b = .wait → P b)
    (hreject : ∀ b e, front b = .reject e → P b)
    (haccept : ∀ b m n, front b = .accept m n → P (b.drop n) → P b) (b : List α) : P b := by
  induction hk : b.length using Nat.strong_induction_on generalizing b with
  | _ k ih =>
    cases hf : front b with
    | wait => exact hwait b hf
    | reject e => exact hreject b e hf
    | accept m n =>
      obtain ⟨hn, hle⟩ := hl.accept_pos hf
      exact haccept b m n hf (ih _ (by simp; omega) _ rfl)

/-! ## Chunking -/

/-- Draining a longer input is draining the shorter one first, and then what
it left over together with the rest. -/
theorem drainAll_append (b x : List α) :
    delivered (drainAll front (b ++ x)).1 =
        delivered (drainAll front b).1 ++
          delivered (drainAll front ((drainAll front b).2 ++ x)).1 ∧
      (drainAll front (b ++ x)).2 = (drainAll front ((drainAll front b).2 ++ x)).2 := by
  induction b using hl.induction with
  | hwait b h => simp [drainAll_wait h]
  | hreject b e h => simp [drainAll_reject h]
  | haccept b m n h ih =>
    obtain ⟨hn, hle⟩ := hl.accept_pos h
    have hx := hl.drainAll_accept (hl.accept_append x h)
    rw [List.drop_append_of_le_length hle] at hx
    rw [hx, hl.drainAll_accept h]
    simp [ih.1, ih.2]

/-- What is left over has no further frame at its front. -/
theorem rest_front (b : List α) (m : μ) (n : ℕ) :
    front (drainAll front b).2 ≠ .accept m n := by
  induction b using hl.induction with
  | hwait b h => simp [drainAll_wait h, h]
  | hreject b e h => simp [drainAll_reject h, h]
  | haccept b m n h ih => simpa [hl.drainAll_accept h] using ih

/-- A front that is rejected has been reported. -/
theorem error_mem_drainAll {b : List α} {e : ε} (h : front (drainAll front b).2 = .reject e) :
    Report.error e ∈ (drainAll front b).1 := by
  induction b using hl.induction with
  | hwait b hw =>
    rw [drainAll_wait hw, hw] at h
    cases h
  | hreject b e' hr =>
    rw [drainAll_reject hr, hr] at h
    cases h
    rw [drainAll_reject hr]
    exact List.mem_singleton_self _
  | haccept b m n ha ih =>
    rw [hl.drainAll_accept ha] at h ⊢
    exact List.mem_cons_of_mem _ (ih h)

theorem error_mem_feed {cs : List (List α)} (hne : cs ≠ []) {b : List α} {e : ε}
    (h : front (feed front b cs).2 = .reject e) : Report.error e ∈ (feed front b cs).1 := by
  induction cs generalizing b with
  | nil => exact absurd rfl hne
  | cons c cs ih =>
    rw [feed] at h ⊢
    cases cs with
    | nil => exact List.mem_append_left _ (hl.error_mem_drainAll h)
    | cons d ds => exact List.mem_append_right _ (ih (List.cons_ne_nil d ds) h)

omit hl in
/-- An input without a frame at its front is left as it is. -/
theorem drainAll_of_not_accept {b : List α} (h : ∀ m n, front b ≠ .accept m n) :
    delivered (drainAll front b).1 = [] ∧ (drainAll front b).2 = b := by
  cases hf : front b with
  | wait => simp [drainAll_wait hf]
  | reject e => simp [drainAll_reject hf]
  | accept m n => exact absurd hf (h m n)

/-- **Chunking is invisible**: feeding a stream piece by piece delivers and
leaves over what draining the whole of it does. -/
theorem feed_eq (cs : List (List α)) {b : List α} (hb : ∀ m n, front b ≠ .accept m n) :
    delivered (feed front b cs).1 = delivered (drainAll front (b ++ cs.flatten)).1 ∧
      (feed front b cs).2 = (drainAll front (b ++ cs.flatten)).2 := by
  induction cs generalizing b with
  | nil =>
    have h := drainAll_of_not_accept hb
    simp [feed, h.1, h.2]
  | cons c cs ih =>
    have hrest := ih (hl.rest_front (b ++ c))
    have happ := hl.drainAll_append (b ++ c) cs.flatten
    rw [List.append_assoc] at happ
    rw [feed, List.flatten_cons]
    simp only [delivered_append]
    exact ⟨by rw [happ.1, hrest.1], by rw [happ.2, hrest.2]⟩

/-! ## The frame grammar -/

/-- Frames at the front are delivered in order, and the rest is drained. -/
theorem drain_frames {fs : List (List α)} {ms : List μ} (h : List.Forall₂ (IsFrame front) fs ms)
    (r : List α) :
    delivered (drainAll front (fs.flatten ++ r)).1 = ms ++ delivered (drainAll front r).1 ∧
      (drainAll front (fs.flatten ++ r)).2 = (drainAll front r).2 := by
  induction h with
  | nil => simp
  | @cons f m fs ms hf _ ih =>
    have hacc := hl.accept_append (fs.flatten ++ r) hf
    have hdrain := hl.drainAll_accept hacc
    rw [List.drop_left] at hdrain
    rw [List.flatten_cons, List.append_assoc, hdrain]
    simp [ih.1, ih.2]

/-- What is delivered is the content of frames at the front of the input. -/
theorem exists_frames (b : List α) :
    ∃ fs, List.Forall₂ (IsFrame front) fs (delivered (drainAll front b).1) ∧
      b = fs.flatten ++ (drainAll front b).2 := by
  induction b using hl.induction with
  | hwait b h => exact ⟨[], by simp [drainAll_wait h]⟩
  | hreject b e h => exact ⟨[], by simp [drainAll_reject h]⟩
  | haccept b m n h ih =>
    obtain ⟨fs, hfs, hb⟩ := ih
    obtain ⟨hn, hle⟩ := hl.accept_pos h
    have hframe : IsFrame front (b.take n) m := by
      rw [IsFrame, hl.accept_take h, List.length_take, Nat.min_eq_left hle]
    refine ⟨b.take n :: fs, ?_, ?_⟩
    · rw [hl.drainAll_accept h]
      exact .cons hframe hfs
    · rw [hl.drainAll_accept h, List.flatten_cons, List.append_assoc, ← hb,
        List.take_append_drop]

/-- Frames at the front of one stream are prefixes of each other: a frame is
determined by the stream it starts. -/
theorem prefix_of_frames {gs fs : List (List α)} {ms ns : List μ} {r : List α}
    (hg : List.Forall₂ (IsFrame front) gs ns) (hf : List.Forall₂ (IsFrame front) fs ms)
    (hr : ∀ m n, front r ≠ .accept m n) (hpre : gs.flatten <+: fs.flatten ++ r) :
    gs.flatten <+: fs.flatten := by
  induction hg generalizing fs ms with
  | nil => exact List.nil_prefix
  | @cons g n gs ns hgn _ ih =>
    obtain ⟨x, hx⟩ := hpre
    rw [List.flatten_cons, List.append_assoc] at hx
    have hacc : front (g ++ (gs.flatten ++ x)) = .accept n g.length :=
      hl.accept_append _ hgn
    cases hf with
    | nil =>
      rw [hx, List.flatten_nil, List.nil_append] at hacc
      exact absurd hacc (hr n g.length)
    | @cons f m fs ms hfm hfs =>
      -- both streams start with a frame, and the look is a function
      have hacc' : front (f ++ (fs.flatten ++ r)) = .accept m f.length :=
        hl.accept_append _ hfm
      rw [List.flatten_cons, List.append_assoc] at hx
      rw [hx, hacc'] at hacc
      have hlen : f.length = g.length := (Verdict.accept.inj hacc).2
      obtain ⟨hgf, htail⟩ := List.append_inj hx hlen.symm
      rw [List.flatten_cons, List.flatten_cons, hgf]
      exact (List.prefix_append_right_inj f).mpr (ih hfs ⟨x, htail⟩)

/-! ## Dead and clean streams -/

/-- Behind a front that no continuation turns into a frame, nothing is delivered. -/
theorem feed_dead {b : List α} (h : ∀ x m n, front (b ++ x) ≠ .accept m n) (cs : List (List α)) :
    delivered (feed front b cs).1 = [] ∧ (feed front b cs).2 = b ++ cs.flatten := by
  have hb : ∀ m n, front b ≠ .accept m n := by simpa using h []
  have hfeed := hl.feed_eq cs hb
  have hall := drainAll_of_not_accept (h cs.flatten)
  exact ⟨hfeed.1.trans hall.1, hfeed.2.trans hall.2⟩

/-- The start of a stream of frames drains without an error, and what it
leaves over is again the start of a stream of frames. -/
theorem drainAll_clean {fs : List (List α)} {ms : List μ}
    (h : List.Forall₂ (IsFrame front) fs ms) {b x : List α} (hb : b ++ x = fs.flatten) :
    (∀ e, Report.error e ∉ (drainAll front b).1) ∧
      ∃ gs ns, List.Forall₂ (IsFrame front) gs ns ∧ (drainAll front b).2 ++ x = gs.flatten := by
  induction h generalizing b with
  | nil =>
    have hnil : b = [] := (List.append_eq_nil_iff.mp hb).1
    have hfront : front b = .wait := hnil ▸ hl.nil_wait
    rw [drainAll_wait hfront]
    exact ⟨by simp, [], [], .nil, hb⟩
  | @cons f m fs ms hf hfs ih =>
    have hacc : front (b ++ x) = .accept m f.length := by
      rw [hb, List.flatten_cons]
      exact hl.accept_append _ hf
    cases hfront : front b with
    | wait =>
      rw [drainAll_wait hfront]
      exact ⟨by simp, f :: fs, m :: ms, .cons hf hfs, hb⟩
    | reject e =>
      -- a rejection would persist, but the whole stream starts with a frame
      obtain ⟨e', he'⟩ := hl.reject_append x hfront
      rw [he'] at hacc
      cases hacc
    | accept m' n =>
      obtain ⟨hn, hle⟩ := hl.accept_pos hfront
      have hsame := hl.accept_append x hfront
      rw [hacc] at hsame
      obtain ⟨rfl, rfl⟩ := Verdict.accept.inj hsame
      have htail : b.drop f.length ++ x = fs.flatten := by
        rw [← List.drop_append_of_le_length hle, hb, List.flatten_cons, List.drop_left]
      obtain ⟨herr, hgs⟩ := ih htail
      rw [hl.drainAll_accept hfront]
      refine ⟨fun e he => ?_, hgs⟩
      rcases List.mem_cons.mp he with h | h
      · cases h
      · exact herr e h

/-- A stream of frames is fed without an error, whatever the chunking. -/
theorem feed_clean (cs : List (List α)) {fs : List (List α)} {ms : List μ}
    (h : List.Forall₂ (IsFrame front) fs ms) {b : List α} (hb : b ++ cs.flatten = fs.flatten) :
    ∀ e, Report.error e ∉ (feed front b cs).1 := by
  induction cs generalizing b fs ms with
  | nil => simp [feed]
  | cons c cs ih =>
    rw [List.flatten_cons, ← List.append_assoc] at hb
    obtain ⟨herr, gs, ns, hgs, hrest⟩ := hl.drainAll_clean h hb
    intro e he
    rw [feed] at he
    rcases List.mem_append.mp he with hin | hin
    · exact herr e hin
    · exact ih hgs hrest e hin

/-- **A stream of frames is delivered as it was sent**, whatever the chunking. -/
theorem feed_frames {cs fs : List (List α)} {ms : List μ}
    (h : List.Forall₂ (IsFrame front) fs ms) (hcs : cs.flatten = fs.flatten) :
    feed front [] cs = (ms.map .deliver, []) := by
  have hwait := drainAll_wait hl.nil_wait
  have hfeed := hl.feed_eq cs (b := []) (by simp [hl.nil_wait])
  have hdrain := hl.drain_frames h []
  rw [List.nil_append, hcs] at hfeed
  rw [List.append_nil, hwait] at hdrain
  have hclean := eq_deliver_of_no_error (hl.feed_clean cs h (b := []) hcs)
  rw [hfeed.1, hdrain.1] at hclean
  refine Prod.ext ?_ ?_
  · simpa using hclean
  · rw [hfeed.2, hdrain.2]

end Lawful

end Decoder

end Taotu.Lib
