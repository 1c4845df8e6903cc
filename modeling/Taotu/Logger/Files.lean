import Taotu.Logger.Stopping
import Mathlib.Algebra.Ring.Nat
import Mathlib.Data.List.Infix
import Mathlib.Logic.Function.Basic

/-!
# Taotu.Logger.Files — the log files (`logger.cc`)

`WriteDownLogs` writes to one file until 512 MiB of records are in it, and then opens
the next one. The first file has the name that was given; the others are called
`n1_` and `n0_` and the name, in turn, and opening one of them empties it.

1. **Files.** `startLogger` opens the first file, `writeDown` is the body of the inner
   loop of `WriteDownLogs`. `fopen` is taken to succeed there, as the code does not
   test it; `fflush` is left out.
2. **What is kept.** The open file has the newest records and the one before it those
   before them (`Keeps`). Nothing older is promised: the files in circulation are
   emptied in turn.
3. **Logger.** The files of a run of the logger are those of the records written. A
   record is on disk as a whole as long as less than 512 MiB have been written since
   (`last_records_on_disk`).
-/

namespace Taotu.Log

open Lib

/-! ## Files -/

def kStandardLogFileByte : ℕ := 536870912

def kLogName : String := "log.txt"

structure LogFiles where
  logFileName : String
  /-- The name of the file that is open. -/
  logFile : String
  disk : String → Option String
  curLogFileByte : ℕ
  curLogFileSeq : ℕ

namespace LogFiles

/-- The name of the file with a sequence number. -/
def fileName (seq : ℕ) (base : String) : String := "n" ++ (toString (seq &&& 1) ++ ("_" ++ base))

def fileHeader (seq : ℕ) : String := "Current file sequence: " ++ (toString seq ++ "\n")

/-- Open a file with mode `wb`, which empties it. -/
def fopen (name : String) (f : LogFiles) : LogFiles :=
  { f with logFile := name, disk := Function.update f.disk name (some "") }

def fwrite (text : String) (f : LogFiles) : LogFiles :=
  { f with disk := Function.update f.disk f.logFile ((f.disk f.logFile).map (· ++ text)) }

/-- `StartLogger`; `opens` is whether the file can be opened. -/
def startLogger (logFileName : String) (opens : Bool) (disk : String → Option String) : LogFiles :=
  if logFileName = "" ∨ opens = false then
    fwrite (fileHeader 0) (fopen (fileName 0 kLogName) ⟨kLogName, "", disk, 0, 0⟩)
  else fwrite (fileHeader 0) (fopen logFileName ⟨logFileName, "", disk, 0, 0⟩)

/-- Change to the next file. -/
def rotate (f : LogFiles) : LogFiles :=
  let f := { f with curLogFileSeq := f.curLogFileSeq + 1 }
  fwrite (fileHeader f.curLogFileSeq)
    { fopen (fileName f.curLogFileSeq f.logFileName) f with curLogFileByte := 0 }

/-- One record that was dequeued. -/
def writeDown (f : LogFiles) (record : String) : LogFiles :=
  let f := if kStandardLogFileByte ≤ f.curLogFileByte then f.rotate else f
  { f.fwrite record with curLogFileByte := f.curLogFileByte + record.utf8ByteSize }

section Disk

variable (f : LogFiles) (text : String) (name : String)

theorem fwrite_same : (f.fwrite text).disk f.logFile = (f.disk f.logFile).map (· ++ text) :=
  Function.update_self ..

theorem fwrite_ne {name : String} (h : name ≠ f.logFile) :
    (f.fwrite text).disk name = f.disk name := Function.update_of_ne h ..

/-- What is written to a file that was just opened is all that is in it. -/
theorem fopen_fwrite : ((f.fopen name).fwrite text).disk name = some text := by
  have hopen : (f.fopen name).disk name = some "" := Function.update_self ..
  have hwrite := fwrite_same (f.fopen name) text
  change ((f.fopen name).fwrite text).disk name = ((f.fopen name).disk name).map _ at hwrite
  rw [hwrite, hopen, Option.map_some, String.empty_append]

theorem fopen_ne {name name' : String} (h : name' ≠ name) :
    (f.fopen name).disk name' = f.disk name' := Function.update_of_ne h ..

end Disk

/-! ## What is kept -/

/-- The number of bytes of some records. -/
def size (records : List String) : ℕ := (records.map String.utf8ByteSize).sum

theorem size_append (rs rs' : List String) : size (rs ++ rs') = size rs + size rs' := by
  rw [size, List.map_append, List.sum_append]
  rfl

/-- The text of some records. -/
def text (records : List String) : String := records.foldr (· ++ ·) ""

theorem text_concat (rs : List String) (r : String) : text (rs ++ [r]) = text rs ++ r := by
  induction rs with
  | nil =>
    rw [List.nil_append, text, text, List.foldr_cons, List.foldr_nil, String.append_empty,
      String.empty_append]
  | cons r' rs ih =>
    rw [List.cons_append, text, List.foldr_cons]
    change r' ++ text (rs ++ [r]) = r' ++ text rs ++ r
    rw [ih, String.append_assoc]

/-- The file of a sequence number, the first one being `first`. -/
def nameAt (first base : String) : ℕ → String
  | 0 => first
  | seq + 1 => fileName (seq + 1) base

/-- The two names alternate. -/
theorem fileName_ne (seq : ℕ) (base : String) : fileName (seq + 1) base ≠ fileName seq base := by
  intro h
  rw [fileName, fileName, String.append_right_inj, String.append_left_inj, Nat.and_one_is_mod,
    Nat.and_one_is_mod] at h
  rcases Nat.mod_two_eq_zero_or_one seq with hs | hs
  · rw [hs, show (seq + 1) % 2 = 1 by omega] at h
    exact absurd h (by decide)
  · rw [hs, show (seq + 1) % 2 = 0 by omega] at h
    exact absurd h (by decide)

theorem fileName_ne_base (seq : ℕ) (base : String) : fileName seq base ≠ base := by
  intro h
  have hlen := congrArg String.utf8ByteSize h
  rw [fileName, String.utf8ByteSize_append] at hlen
  rw [String.utf8ByteSize_append, String.utf8ByteSize_append] at hlen
  have hn : "n".utf8ByteSize = 1 := by decide
  omega

/-- The records are split into those that were given up, those of the file before and those
of the open one. -/
structure Keeps (first : String) (lost old recent : List String) (f : LogFiles) : Prop where
  first_ne : fileName 1 f.logFileName ≠ first
  logFile : f.logFile = nameAt first f.logFileName f.curLogFileSeq
  newest : f.disk f.logFile = some (fileHeader f.curLogFileSeq ++ text recent)
  bytes : f.curLogFileByte = size recent
  /-- A file is changed as soon as it is full. -/
  recent_lt : recent ≠ [] → size recent.dropLast < kStandardLogFileByte
  old_lt : old ≠ [] → size old.dropLast < kStandardLogFileByte
  zero : f.curLogFileSeq = 0 → old = []
  one : f.curLogFileSeq ≤ 1 → lost = []
  before : ∀ seq, f.curLogFileSeq = seq + 1 →
    f.disk (nameAt first f.logFileName seq) = some (fileHeader seq ++ text old) ∧
      kStandardLogFileByte ≤ size old

section Keeps

variable {first : String} {lost old recent : List String} {f : LogFiles} {r : String}

theorem nameAt_ne (h : fileName 1 f.logFileName ≠ first) (seq : ℕ) :
    nameAt first f.logFileName (seq + 1) ≠ nameAt first f.logFileName seq := by
  cases seq with
  | zero => exact h
  | succ seq => exact fileName_ne (seq + 1) _

theorem keeps_start (logFileName : String) (opens : Bool) (disk : String → Option String) :
    ∃ first, Keeps first [] [] [] (startLogger logFileName opens disk) := by
  have htext : fileHeader 0 = fileHeader 0 ++ text [] := (String.append_empty).symm
  rw [startLogger]
  split
  · refine ⟨fileName 0 kLogName, ⟨fileName_ne 0 _, rfl, ?_, rfl, ?_, ?_, fun _ => rfl,
      fun _ => rfl, ?_⟩⟩
    · exact (fopen_fwrite _ _ _).trans (congrArg some htext)
    · exact fun h => absurd rfl h
    · exact fun h => absurd rfl h
    · intro seq hseq
      cases hseq
  · refine ⟨logFileName, ⟨fileName_ne_base 1 _, rfl, ?_, rfl, ?_, ?_, fun _ => rfl,
      fun _ => rfl, ?_⟩⟩
    · exact (fopen_fwrite _ _ _).trans (congrArg some htext)
    · exact fun h => absurd rfl h
    · exact fun h => absurd rfl h
    · intro seq hseq
      cases hseq

/-- A record is added to the open file. -/
theorem Keeps.write (h : Keeps first lost old recent f)
    (hroom : f.curLogFileByte < kStandardLogFileByte) :
    Keeps first lost old (recent ++ [r])
      { f.fwrite r with curLogFileByte := f.curLogFileByte + r.utf8ByteSize } := by
  refine ⟨h.first_ne, h.logFile, ?_, ?_, ?_, h.old_lt, h.zero, h.one, ?_⟩
  · show (f.fwrite r).disk f.logFile = some (fileHeader f.curLogFileSeq ++ text (recent ++ [r]))
    rw [fwrite_same, h.newest, Option.map_some, text_concat, String.append_assoc]
  · show f.curLogFileByte + r.utf8ByteSize = _
    rw [size_append, h.bytes]
    simp [size]
  · intro _
    rw [List.dropLast_concat, ← h.bytes]
    exact hroom
  · intro seq hseq
    have hseq' : f.curLogFileSeq = seq + 1 := hseq
    have hne : nameAt first f.logFileName seq ≠ f.logFile := by
      rw [h.logFile, hseq']
      exact (nameAt_ne h.first_ne seq).symm
    obtain ⟨hdisk, hsize⟩ := h.before seq hseq'
    refine ⟨?_, hsize⟩
    show (f.fwrite r).disk (nameAt first f.logFileName seq) = _
    rw [fwrite_ne f r hne, hdisk]

/-- The next file is opened, and the one before the last is given up. -/
theorem Keeps.rotate (h : Keeps first lost old recent f)
    (hfull : kStandardLogFileByte ≤ f.curLogFileByte) :
    Keeps first (lost ++ old) recent [] f.rotate := by
  have hname : f.rotate.logFile = nameAt first f.logFileName (f.curLogFileSeq + 1) := rfl
  refine ⟨h.first_ne, hname, ?_, rfl, fun hne => absurd rfl hne, h.recent_lt, ?_, ?_, ?_⟩
  · rw [hname, text, List.foldr_nil, String.append_empty]
    exact fopen_fwrite { f with curLogFileSeq := f.curLogFileSeq + 1 } _ _
  · intro hzero
    cases hzero
  · intro hone
    have hseq : f.curLogFileSeq = 0 := by
      change f.curLogFileSeq + 1 ≤ 1 at hone
      omega
    rw [h.one (by omega), h.zero hseq]
    rfl
  · intro seq hseq
    have hseq' : f.curLogFileSeq = seq := Nat.succ.inj hseq
    subst hseq'
    refine ⟨?_, h.bytes ▸ hfull⟩
    have hne : nameAt first f.logFileName f.curLogFileSeq ≠
        fileName (f.curLogFileSeq + 1) f.logFileName := (nameAt_ne h.first_ne _).symm
    have hdisk : f.rotate.disk (nameAt first f.logFileName f.curLogFileSeq) =
        f.disk (nameAt first f.logFileName f.curLogFileSeq) :=
      (fwrite_ne _ _ hne).trans (fopen_ne _ hne)
    have hnow := h.newest
    rw [h.logFile] at hnow
    exact hdisk.trans hnow

theorem Keeps.writeDown (h : Keeps first lost old recent f) (r : String) :
    ∃ lost' old' recent', Keeps first lost' old' recent' (f.writeDown r) ∧
      lost' ++ old' ++ recent' = lost ++ old ++ recent ++ [r] := by
  rw [LogFiles.writeDown]
  by_cases hfull : kStandardLogFileByte ≤ f.curLogFileByte
  · simp only [if_pos hfull]
    refine ⟨_, _, _, (h.rotate hfull).write ?_, ?_⟩
    · show 0 < kStandardLogFileByte
      decide
    · rw [List.nil_append]
  · simp only [if_neg hfull]
    exact ⟨_, _, _, h.write (Nat.lt_of_not_le hfull), (List.append_assoc _ _ _).symm⟩

/-- The records written so far, split. -/
theorem keeps_foldl (h : Keeps first lost old recent f) (records : List String) :
    ∃ lost' old' recent', Keeps first lost' old' recent' (records.foldl LogFiles.writeDown f) ∧
      lost' ++ old' ++ recent' = lost ++ old ++ recent ++ records := by
  induction records generalizing lost old recent f with
  | nil => exact ⟨lost, old, recent, h, (List.append_nil _).symm⟩
  | cons r records ih =>
    obtain ⟨lost₁, old₁, recent₁, h₁, hsplit₁⟩ := h.writeDown r
    obtain ⟨lost₂, old₂, recent₂, h₂, hsplit₂⟩ := ih h₁
    refine ⟨lost₂, old₂, recent₂, h₂, ?_⟩
    rw [hsplit₂, hsplit₁, List.append_assoc]
    rfl

/-- Fewer bytes than a file takes are in the last two files. -/
theorem Keeps.suffix (h : Keeps first lost old recent f) {w : List String}
    (hw : w <:+ lost ++ old ++ recent) (hsize : size w < kStandardLogFileByte) :
    w <:+ old ++ recent := by
  rw [List.append_assoc] at hw
  rcases List.suffix_or_suffix_of_suffix hw (List.suffix_append lost (old ++ recent)) with h' | h'
  · exact h'
  · cases hseq : f.curLogFileSeq with
    | zero =>
      rw [h.one (by omega), List.nil_append] at hw
      exact hw
    | succ seq =>
      -- more than a file would be missing
      obtain ⟨pre, rfl⟩ := h'
      have hold := (h.before seq hseq).2
      rw [size_append, size_append] at hsize
      omega

end Keeps

end LogFiles

/-! ## Logger -/

namespace Logger

variable {τ : Type} [DecidableEq τ] {s : Logger τ}

/-- The files behind the records written. -/
def files (s : Logger τ) (logFileName : String) (opens : Bool) (disk : String → Option String) :
    LogFiles :=
  s.file.foldl LogFiles.writeDown (LogFiles.startLogger logFileName opens disk)

/-- The file has the records in the order of their tickets. -/
theorem file_prefix {ok : Logger τ → Label τ → Prop} (h : machine.Reachable ok s) :
    s.file <+: s.ring.claimed := by
  have hfifo := (Ring.inv (ring_reachable h)).fifo
  have hpre : s.ring.dequeued <+: s.ring.claimed := List.prefix_iff_eq_take.mpr hfifo
  have hw := written h
  have hfile : s.file <+: s.ring.dequeued := by
    unfold Written at hw
    split at hw
    · rcases hw with ⟨-, hd⟩ | ⟨-, hd⟩
      · rw [hd]
        exact List.prefix_append _ _
      · rw [hd]
    · rw [hw.2]
      exact List.prefix_append _ _
    · rw [hw.2]
  exact hfile.trans hpre

/-- **The last records are on disk.** In every run, whatever was on disk before: the records
written are, in the order of their tickets, those that were given up, those of the file
before the open one, and those of the open one. The two files have a header and their
records, nothing else and none of them cut. The last records of less than 512 MiB are not
given up, and behind its header no file has more than 512 MiB and one record. -/
theorem last_records_on_disk {ok : Logger τ → Label τ → Prop} (h : machine.Reachable ok s)
    (logFileName : String) (opens : Bool) (disk : String → Option String) :
    ∃ (f : LogFiles) (first : String) (lost old recent : List String),
      f = s.files logFileName opens disk ∧ s.file = lost ++ old ++ recent ∧
      s.file <+: s.ring.claimed ∧
      f.disk f.logFile = some (LogFiles.fileHeader f.curLogFileSeq ++ LogFiles.text recent) ∧
      (∀ seq, f.curLogFileSeq = seq + 1 →
        f.disk (LogFiles.nameAt first f.logFileName seq) =
          some (LogFiles.fileHeader seq ++ LogFiles.text old)) ∧
      (f.curLogFileSeq = 0 → old = []) ∧
      (∀ w, w <:+ s.file → LogFiles.size w < kStandardLogFileByte → w <:+ old ++ recent) ∧
      (recent ≠ [] → LogFiles.size recent.dropLast < kStandardLogFileByte) ∧
      (old ≠ [] → LogFiles.size old.dropLast < kStandardLogFileByte) := by
  obtain ⟨first, hstart⟩ := LogFiles.keeps_start logFileName opens disk
  obtain ⟨lost, old, recent, hkeeps, hsplit⟩ := LogFiles.keeps_foldl hstart s.file
  have hfile : s.file = lost ++ old ++ recent := by
    rw [hsplit]
    rfl
  refine ⟨_, first, lost, old, recent, rfl, hfile, file_prefix h, hkeeps.newest,
    fun seq hseq => (hkeeps.before seq hseq).1, hkeeps.zero, ?_, hkeeps.recent_lt, hkeeps.old_lt⟩
  intro w hw hsize
  exact hkeeps.suffix (hfile ▸ hw) hsize

/-- A record of any size. -/
theorem exists_record (n : ℕ) : ∃ r : String, r.utf8ByteSize = n := by
  induction n with
  | zero => exact ⟨"", rfl⟩
  | succ n ih =>
    obtain ⟨r, hr⟩ := ih
    refine ⟨r ++ "a", ?_⟩
    rw [String.utf8ByteSize_append, hr]
    rfl

/-- Two records of one thread are written. -/
def twoRecords (a b : String) : List (Label Unit) :=
  .enqueue () a :: List.replicate 7 (.producer () false) ++
    (.enqueue () b :: List.replicate 7 (.producer () false) ++
      List.replicate 22 (.writer false))

/-- The theorem at a run in which the first record fills its file. -/
theorem last_record_in_second_file :
    ∃ (s : Logger Unit) (a : String) (lost old recent : List String),
      machine.Reachable (fun _ _ => True) s ∧ s.file = [a, "b"] ∧
      (s.files "app.log" true fun _ => none).logFile = "n1_app.log" ∧
      s.file = lost ++ old ++ recent ∧ ["b"] <:+ old ++ recent := by
  obtain ⟨a, ha⟩ := exists_record kStandardLogFileByte
  obtain ⟨s, hs, hfile⟩ : ∃ s : Logger Unit, machine.Reachable (fun _ _ => True) s ∧
      s.file = [a, "b"] := by
    have hrun : ((machine.runIf (fun _ _ => True) start (twoRecords a "b")).map
        fun s : Logger Unit => s.file) = some [a, "b"] := by
      with_unfolding_all rfl
    obtain ⟨s, hs, hfile⟩ := Option.map_eq_some_iff.mp hrun
    exact ⟨s, (Machine.Reachable.init rfl).of_runIf hs, hfile⟩
  obtain ⟨f, first, lost, old, recent, hf, hsplit, -, -, -, -, hlast, -⟩ :=
    last_records_on_disk hs "app.log" true fun _ => none
  refine ⟨s, a, lost, old, recent, hs, hfile, ?_, hsplit, hlast _ ?_ (by decide)⟩
  · have hone : ((LogFiles.startLogger "app.log" true fun _ => none).writeDown a).curLogFileByte =
        kStandardLogFileByte := by
      show 0 + a.utf8ByteSize = _
      rw [ha, Nat.zero_add]
    rw [files, hfile]
    show (LogFiles.writeDown _ "b").logFile = "n1_app.log"
    rw [LogFiles.writeDown, hone, if_pos (Nat.le_refl _)]
    show LogFiles.fileName 1 "app.log" = "n1_app.log"
    decide
  · rw [hfile]
    exact List.suffix_cons _ _

end Logger

end Taotu.Log
