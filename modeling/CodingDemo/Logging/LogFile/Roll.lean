import CodingDemo.Datetime.Gmtime
import CodingDemo.Logging.LogFile.File
import Mathlib.Data.List.Induction
import Mathlib.Data.List.Nodup
import Mathlib.Order.Hom.Basic

/-!
# Rolling log files

When the open file has got more than `rollSize` bytes, or on the next day, the next file is opened.
Its name has the time in seconds, and a file that is there already is continued; the counter of the
bytes begins at zero in any case. A log file for several threads has a mutex, which `append` holds
when it calls `flush`, and which `flush` locks again.

## Main definitions

* `LogFile`: the members, and the files on disk
* `append`, `flush`, `append_unlocked`, `rollFile`, `getLogFileName`: the functions
* `LogFile.run`: a log file after some lines, for a clock
* `Respects`: the files have the lines, and no file is too large
* `Orderly`: files are opened in different seconds, and no mutex is locked twice

## Main results

* `getLogFileName_injective`: files that are opened in different seconds are different
* `Opened.file_write`: a line is written as `File.append` does it
* `append_eq_none_iff`: which calls do not return
* `respects_iff`: in which runs the files are not too large
-/

namespace CodingDemo.Libcpp

def kSecondsPerDay : ℕ := 60 * 60 * 24

/-- What does not change while a process logs. -/
structure LogFile.Params where
  basename : List UInt8
  hostname : List UInt8
  pid : ℕ
  rollSize : ℕ
  threadSafe : Bool
  flushInterval : ℤ

/-- A file on disk. -/
structure DiskFile where
  name : List UInt8
  /-- The lines that have been written to it, one after the other. -/
  lines : List (List UInt8)

namespace DiskFile

def bytes (f : DiskFile) : List UInt8 := f.lines.flatten

/-- A file is at most as large as it is allowed to be, plus one of its lines. -/
def Bounded (rollSize : ℕ) (f : DiskFile) : Prop :=
  f.bytes.length ≤ rollSize ∨ ∃ line ∈ f.lines, f.bytes.length ≤ rollSize + line.length

instance (rollSize : ℕ) (f : DiskFile) : Decidable (f.Bounded rollSize) :=
  inferInstanceAs (Decidable (_ ∨ _))

end DiskFile

structure LogFile where
  startDay : ℕ := 0
  lastFlushTime : ℕ := 0
  /-- The name of `file_`. -/
  name : List UInt8 := []
  /-- The counter of `file_`. -/
  writtenBytes : ℕ := 0
  /-- The files, in the order in which they have been opened for the first time. -/
  disk : List DiskFile := []
  /-- How often the clock has been read. -/
  reads : ℕ := 0
  /-- The times at which files have been opened. -/
  openedAt : List ℕ := []

namespace LogFile

variable (p : Params) (clock : ℕ →o ℕ)

/-- The process id is printed to an array of 32 bytes. -/
def Params.getLogFileName (now : ℕ) : List UInt8 :=
  p.basename ++ stamp now ++ (p.hostname ++ ([46] ++ decimal p.pid).take 31 ++ asciiBytes ".log")

/-- `file_->append`, when the whole line is written. -/
def write (s : LogFile) (line : List UInt8) : LogFile :=
  { s with
    writtenBytes := s.writtenBytes + line.length
    disk := s.disk.map fun f =>
      if f.name = s.name then { f with lines := f.lines ++ [line] } else f }

/-- The constructor of `File`, which opens a file for append. -/
def openFile (s : LogFile) (filename : List UInt8) : LogFile :=
  { s with
    name := filename
    writtenBytes := 0
    disk := if filename ∈ s.disk.map DiskFile.name then s.disk else s.disk ++ [⟨filename, []⟩] }

def rollFile (s : LogFile) : LogFile :=
  let now := clock s.reads
  let s := s.openFile (p.getLogFileName now)
  { s with
    startDay := now / kSecondsPerDay
    lastFlushTime := now
    reads := s.reads + 1
    openedAt := s.openedAt ++ [now] }

/-- `std::lock_guard` of `mutex_`, if there is one. A thread that holds the mutex already waits for
itself. -/
def lock (held : Bool) (f : Bool → Option LogFile) : Option LogFile :=
  if p.threadSafe then if held then none else f true else f held

/-- What is in the buffer of `file_` counts as written before, too. -/
def flush (held : Bool) (s : LogFile) : Option LogFile := lock p held fun _ => some s

def append_unlocked (held : Bool) (s : LogFile) (line : List UInt8) : Option LogFile :=
  let s := s.write line
  if p.rollSize < s.writtenBytes then some (s.rollFile p clock)
  else
    -- `rollFile` reads the clock once more
    let now := clock s.reads
    let s := { s with reads := s.reads + 1 }
    if now / kSecondsPerDay ≠ s.startDay then some (s.rollFile p clock)
    else if p.flushInterval < (now : ℤ) - s.lastFlushTime then
      { s with lastFlushTime := now }.flush p held
    else some s

/-- The state when the call has returned, if it does. -/
def append (s : LogFile) (line : List UInt8) : Option LogFile :=
  lock p false fun held => append_unlocked p clock held s line

/-- The constructor, and calls of `append`. -/
def run (lines : List (List UInt8)) : Option LogFile :=
  lines.foldlM (append p clock) (rollFile p clock {})

/-- No file is larger than `rollSize` and one of its lines, and the files have the lines. -/
structure Respects (s : LogFile) (lines : List (List UInt8)) : Prop where
  bounded : ∀ f ∈ s.disk, f.Bounded p.rollSize
  bytes : s.disk.flatMap DiskFile.bytes = lines.flatten

/-- The calls return, and the files are as they should be. -/
def RespectsAfter (lines : List (List UInt8)) : Prop :=
  ∃ s, run p clock lines = some s ∧ Respects p s lines

/-- If the clock is read next, the open file is not due to be flushed. -/
def InTime (s : LogFile) : Prop :=
  clock s.reads / kSecondsPerDay = s.startDay →
    (clock s.reads : ℤ) - s.lastFlushTime ≤ p.flushInterval

/-- All files have been opened in different seconds; and if there is a mutex, no call has found the
open file due to be flushed. -/
structure Orderly (lines : List (List UInt8)) : Prop where
  nodup : ∀ s ∈ run p clock lines, s.openedAt.Nodup
  inTime : p.threadSafe = true → ∀ before, before <+: lines →
    ∀ s ∈ run p clock before, s.InTime p clock

/-- `file_`: the bytes in the open file, and the counter. -/
def file (s : LogFile) : File where
  data := (s.disk.filter fun f => f.name = s.name).flatMap DiskFile.bytes
  writtenBytes := s.writtenBytes

variable {p : Params} {clock : ℕ →o ℕ} {s s' : LogFile} {line : List UInt8}
  {front : List DiskFile} {lines : List (List UInt8)} {times : List ℕ} {t : ℕ}

theorem getLogFileName_injective (p : Params) : Function.Injective p.getLogFileName := by
  intro now now' heq
  obtain ⟨heq, -⟩ := List.append_inj' heq rfl
  exact stamp_injective (List.append_cancel_left heq)

/-! ## The functions -/

theorem disk_rollFile_of_mem (h : p.getLogFileName (clock s.reads) ∈ s.disk.map DiskFile.name) :
    (s.rollFile p clock).disk = s.disk := if_pos h

theorem disk_rollFile_of_not_mem
    (h : p.getLogFileName (clock s.reads) ∉ s.disk.map DiskFile.name) :
    (s.rollFile p clock).disk = s.disk ++ [⟨p.getLogFileName (clock s.reads), []⟩] := if_neg h

theorem nodup_openedAt_rollFile : (s.rollFile p clock).openedAt.Nodup ↔
    clock s.reads ∉ s.openedAt ∧ s.openedAt.Nodup := by
  rw [← List.nodup_concat, List.concat_eq_append]
  rfl

theorem append_eq (p : Params) (clock : ℕ →o ℕ) (s : LogFile) (line : List UInt8) :
    s.append p clock line = s.append_unlocked p clock p.threadSafe line := by
  unfold append lock
  cases p.threadSafe with
  | false => rfl
  | true => rfl

/-- What a call does after the line has been written. -/
theorem append_unlocked_cases (s : LogFile) (p : Params) (clock : ℕ →o ℕ) (held : Bool)
    (line : List UInt8) : (p.rollSize < (s.write line).writtenBytes ∧
        s.append_unlocked p clock held line = some ((s.write line).rollFile p clock)) ∨
      ((s.write line).writtenBytes ≤ p.rollSize ∧ clock s.reads / kSecondsPerDay ≠ s.startDay ∧
        s.append_unlocked p clock held line =
          some ({ s.write line with reads := s.reads + 1 }.rollFile p clock)) ∨
      ((s.write line).writtenBytes ≤ p.rollSize ∧ ¬s.InTime p clock ∧
        s.append_unlocked p clock held line =
          { s.write line with
            reads := s.reads + 1, lastFlushTime := clock s.reads }.flush p held) ∨
      ((s.write line).writtenBytes ≤ p.rollSize ∧ s.InTime p clock ∧
        s.append_unlocked p clock held line = some { s.write line with reads := s.reads + 1 }) := by
  by_cases hsize : p.rollSize < (s.write line).writtenBytes
  · exact .inl ⟨hsize, if_pos hsize⟩
  have hle := not_lt.mp hsize
  have hclock : s.append_unlocked p clock held line = if _ then _ else _ := if_neg hsize
  by_cases hday : clock s.reads / kSecondsPerDay ≠ s.startDay
  · exact .inr (.inl ⟨hle, hday, hclock.trans (if_pos hday)⟩)
  by_cases hflush : p.flushInterval < (clock s.reads : ℤ) - s.lastFlushTime
  · exact .inr (.inr (.inl ⟨hle, fun h => absurd (h (not_not.mp hday)) (not_le.mpr hflush),
      hclock.trans ((if_neg hday).trans (if_pos hflush))⟩))
  · exact .inr (.inr (.inr ⟨hle, fun _ => not_lt.mp hflush,
      hclock.trans ((if_neg hday).trans (if_neg hflush))⟩))

/-- The mutex is held when `append` calls `flush`. -/
theorem flush_eq (p : Params) (s : LogFile) :
    s.flush p p.threadSafe = if p.threadSafe then none else some s := by
  unfold flush lock
  cases p.threadSafe with
  | false => rfl
  | true => rfl

/-- **A call does not return** if it flushes a file that has a mutex. -/
theorem append_eq_none_iff : s.append p clock line = none ↔ p.threadSafe = true ∧
    (s.write line).writtenBytes ≤ p.rollSize ∧ ¬s.InTime p clock := by
  rw [append_eq]
  rcases s.append_unlocked_cases p clock p.threadSafe line with
    ⟨hsize, heq⟩ | ⟨-, hday, heq⟩ | ⟨hle, hlate, heq⟩ | ⟨-, htime, heq⟩ <;> rw [heq]
  · exact iff_of_false (Option.some_ne_none _) fun h => absurd h.2.1 (not_le.mpr hsize)
  · exact iff_of_false (Option.some_ne_none _) fun h => h.2.2 fun hsame => absurd hsame hday
  · rw [flush_eq, and_iff_left ⟨hle, hlate⟩]
    cases p.threadSafe with
    | false => exact iff_of_false (Option.some_ne_none _) Bool.false_ne_true
    | true => exact iff_of_true rfl rfl
  · exact iff_of_false (Option.some_ne_none _) fun h => h.2.2 htime

/-- What a call that returns does after the line has been written. -/
theorem append_cases (hs : s.append p clock line = some s') :
    (p.rollSize < (s.write line).writtenBytes ∧ s' = (s.write line).rollFile p clock) ∨
      ((s.write line).writtenBytes ≤ p.rollSize ∧ clock s.reads / kSecondsPerDay ≠ s.startDay ∧
        s' = { s.write line with reads := s.reads + 1 }.rollFile p clock) ∨
      ((s.write line).writtenBytes ≤ p.rollSize ∧ ∃ flushed,
        s' = { s.write line with reads := s.reads + 1, lastFlushTime := flushed }) := by
  rw [append_eq] at hs
  rcases s.append_unlocked_cases p clock p.threadSafe line with
    ⟨hsize, heq⟩ | ⟨hle, hday, heq⟩ | ⟨hle, -, heq⟩ | ⟨hle, -, heq⟩ <;> rw [heq] at hs
  · exact .inl ⟨hsize, (Option.some.inj hs).symm⟩
  · exact .inr (.inl ⟨hle, hday, (Option.some.inj hs).symm⟩)
  · rw [flush_eq] at hs
    split_ifs at hs
    exact .inr (.inr ⟨hle, _, (Option.some.inj hs).symm⟩)
  · exact .inr (.inr ⟨hle, _, (Option.some.inj hs).symm⟩)

/-! ## The open file -/

/-- The file opened at `t` is the last one on disk, and has `lines`; the files in `front` have been
opened before it. -/
structure Opened (p : Params) (clock : ℕ →o ℕ) (s : LogFile) (front : List DiskFile)
    (lines : List (List UInt8)) (times : List ℕ) (t : ℕ) : Prop where
  disk : s.disk = front ++ [⟨s.name, lines⟩]
  openedAt : s.openedAt = times ++ [t]
  name : s.name = p.getLogFileName t
  startDay : s.startDay = t / kSecondsPerDay
  le_clock : t ≤ clock s.reads
  le_times : ∀ t' ∈ times, t' ≤ t
  front_names : ∀ f ∈ front, ∃ t' < t, f.name = p.getLogFileName t'

theorem Opened.name_ne (h : Opened p clock s front lines times t) :
    ∀ f ∈ front, f.name ≠ s.name := by
  intro f hf heq
  obtain ⟨t', hlt, hname⟩ := h.front_names f hf
  rw [hname, h.name] at heq
  exact hlt.ne (getLogFileName_injective p heq)

theorem Opened.write (h : Opened p clock s front lines times t) (line : List UInt8) :
    Opened p clock (s.write line) front (lines ++ [line]) times t := by
  refine { h with disk := ?_ }
  have hfront : front.map (fun f => if f.name = s.name then { f with lines := f.lines ++ [line] }
      else f) = front :=
    (List.map_congr_left fun f hf => if_neg (h.name_ne f hf)).trans (List.map_id front)
  simp only [LogFile.write, h.disk, List.map_append, hfront, List.map_singleton, if_true]

theorem Opened.mem_openedAt (h : Opened p clock s front lines times t) {t' : ℕ}
    (hmem : t' ∈ s.openedAt) : t' ≤ t := by
  rw [h.openedAt] at hmem
  rcases List.mem_append.mp hmem with hmem | hmem
  · exact h.le_times t' hmem
  · exact (List.mem_singleton.mp hmem).le

theorem Opened.file_eq (h : Opened p clock s front lines times t) :
    s.file = { data := lines.flatten, writtenBytes := s.writtenBytes } := by
  have hfront : front.filter (fun f => f.name = s.name) = [] :=
    List.filter_eq_nil_iff.mpr fun f hf heq => h.name_ne f hf (of_decide_eq_true heq)
  rw [file, h.disk, List.filter_append, hfront]
  simp [DiskFile.bytes]

/-- A line is written as `File.append` does it, when the file takes the whole line at once. -/
theorem Opened.file_write (h : Opened p clock s front lines times t) {w : Fwrite} {line : Line}
    (hw : w.result 0 line.len = line.len) (rounds : ℕ) :
    (s.write line.bytes).file = (s.file.append w line rounds).1 := by
  rw [File.append_of_whole hw, (h.write line.bytes).file_eq, h.file_eq, List.flatten_append,
    List.flatten_singleton]
  simp only [LogFile.write, line.length_bytes]

/-- A roll in the second in which the open file has been opened continues it. -/
theorem Opened.disk_rollFile_same (h : Opened p clock s front lines times t)
    (hnow : clock s.reads = t) : (s.rollFile p clock).disk = s.disk := by
  refine disk_rollFile_of_mem ?_
  rw [hnow, ← h.name, h.disk]
  exact List.mem_map.mpr ⟨_, List.mem_append_right _ List.mem_cons_self, rfl⟩

theorem Opened.rollFile_same (h : Opened p clock s front lines times t)
    (hnow : clock s.reads = t) :
    Opened p clock (s.rollFile p clock) front lines (times ++ [t]) t := by
  refine ⟨?_, ?_, ?_, ?_, ?_, ?_, h.front_names⟩
  · rw [h.disk_rollFile_same hnow, h.disk, h.name]
    simp only [rollFile, openFile, hnow]
  · simp only [rollFile, openFile, hnow, h.openedAt]
  · simp only [rollFile, openFile, hnow]
  · simp only [rollFile, openFile, hnow]
  · exact h.le_clock.trans (clock.monotone (Nat.le_succ _))
  · exact List.forall_mem_append.mpr ⟨h.le_times, List.forall_mem_singleton.mpr le_rfl⟩

/-- A roll in a later second opens a new file. -/
theorem Opened.rollFile_later (h : Opened p clock s front lines times t)
    (hnow : t < clock s.reads) :
    Opened p clock (s.rollFile p clock) (front ++ [⟨s.name, lines⟩]) [] (times ++ [t])
      (clock s.reads) := by
  have hnames : ∀ f ∈ s.disk, ∃ t' < clock s.reads, f.name = p.getLogFileName t' := by
    rw [h.disk]
    refine List.forall_mem_append.mpr ⟨fun f hf => ?_, List.forall_mem_singleton.mpr ?_⟩
    · obtain ⟨t', hlt, hname⟩ := h.front_names f hf
      exact ⟨t', hlt.trans hnow, hname⟩
    · exact ⟨t, hnow, h.name⟩
  have hnew : p.getLogFileName (clock s.reads) ∉ s.disk.map DiskFile.name := by
    intro hmem
    obtain ⟨f, hf, heq⟩ := List.mem_map.mp hmem
    obtain ⟨t', hlt, hname⟩ := hnames f hf
    exact hlt.ne (getLogFileName_injective p (hname.symm.trans heq))
  refine ⟨?_, ?_, rfl, rfl, ?_, ?_, ?_⟩
  · rw [disk_rollFile_of_not_mem hnew, h.disk]
    rfl
  · simp only [rollFile, openFile, h.openedAt]
  · exact clock.monotone (Nat.le_succ _)
  · exact List.forall_mem_append.mpr ⟨fun t' ht' => (h.le_times t' ht').trans hnow.le,
      List.forall_mem_singleton.mpr hnow.le⟩
  · rw [← h.disk]
    exact hnames

/-- The first file. -/
theorem opened_init (p : Params) (clock : ℕ →o ℕ) :
    Opened p clock (rollFile p clock {}) [] [] [] (clock 0) where
  disk := rfl
  openedAt := rfl
  name := rfl
  startDay := rfl
  le_clock := clock.monotone (Nat.zero_le 1)
  le_times := List.forall_mem_nil _
  front_names := List.forall_mem_nil _

/-! ## Sizes -/

theorem bounded_concat {name : List UInt8} {rollSize : ℕ} (h : lines.flatten.length ≤ rollSize) :
    DiskFile.Bounded rollSize ⟨name, lines ++ [line]⟩ := by
  refine .inr ⟨line, List.mem_append_right _ List.mem_cons_self, ?_⟩
  rw [DiskFile.bytes, List.flatten_append, List.length_append, List.flatten_singleton]
  exact Nat.add_le_add_right h _

/-- After a line that is as long as all others the file had room for it, or is too large. -/
theorem le_of_bounded_concat {name : List UInt8} {rollSize : ℕ}
    (hlong : lines.flatten.length ≤ line.length)
    (h : DiskFile.Bounded rollSize ⟨name, lines ++ [line]⟩) : lines.flatten.length ≤ rollSize := by
  have hlength : (DiskFile.mk name (lines ++ [line])).bytes.length =
      lines.flatten.length + line.length := by
    rw [DiskFile.bytes, List.flatten_append, List.length_append, List.flatten_singleton]
  rcases h with h | ⟨line', hmem, h⟩
  · omega
  · have hle : line'.length ≤ line.length := by
      rcases List.mem_append.mp hmem with hmem | hmem
      · exact (List.sublist_flatten_of_mem hmem).length_le.trans hlong
      · rw [List.mem_singleton.mp hmem]
    omega

/-- The counter is right, there is room in the open file, and no file is too large. -/
structure Sized (p : Params) (s : LogFile) (lines : List (List UInt8)) : Prop where
  length : lines.flatten.length = s.writtenBytes
  le : s.writtenBytes ≤ p.rollSize
  bounded : ∀ f ∈ s.disk, f.Bounded p.rollSize

/-- After a line has been written there may be no room any more. -/
theorem Sized.write (h : Sized p s lines) (ho : Opened p clock s front lines times t)
    (line : List UInt8) : (lines ++ [line]).flatten.length = (s.write line).writtenBytes ∧
      ∀ f ∈ (s.write line).disk, f.Bounded p.rollSize := by
  have hbounded := h.bounded
  rw [ho.disk] at hbounded
  constructor
  · rw [List.flatten_append, List.length_append, h.length, List.flatten_singleton]
    rfl
  · rw [(ho.write line).disk]
    exact List.forall_mem_append.mpr ⟨(List.forall_mem_append.mp hbounded).1,
      List.forall_mem_singleton.mpr (bounded_concat (h.length.trans_le h.le))⟩

/-- A roll in a later second. -/
theorem Opened.sized_rollFile (ho : Opened p clock s front lines times t)
    (hnow : t < clock s.reads) (hnodup : s.openedAt.Nodup)
    (hbounded : ∀ f ∈ s.disk, f.Bounded p.rollSize) :
    (s.rollFile p clock).openedAt.Nodup ∧ Sized p (s.rollFile p clock) [] := by
  have hdisk : (s.rollFile p clock).disk = s.disk ++ [⟨(s.rollFile p clock).name, []⟩] := by
    rw [(ho.rollFile_later hnow).disk, ho.disk]
  constructor
  · exact nodup_openedAt_rollFile.mpr
      ⟨fun hmem => absurd (ho.mem_openedAt hmem) (not_le.mpr hnow), hnodup⟩
  · refine ⟨rfl, Nat.zero_le _, ?_⟩
    rw [hdisk]
    exact List.forall_mem_append.mpr ⟨hbounded,
      List.forall_mem_singleton.mpr (.inl (Nat.zero_le _))⟩

/-! ## Calls -/

/-- A call may add an empty file after it has written the line. -/
theorem disk_append (hs : s.append p clock line = some s') :
    ∃ extra : List DiskFile, (∀ f ∈ extra, f.lines = []) ∧
      s'.disk = (s.write line).disk ++ extra := by
  have hroll : ∀ s' : LogFile, ∃ extra : List DiskFile, (∀ f ∈ extra, f.lines = []) ∧
      (s'.rollFile p clock).disk = s'.disk ++ extra := by
    intro s'
    by_cases hmem : p.getLogFileName (clock s'.reads) ∈ s'.disk.map DiskFile.name
    · refine ⟨[], List.forall_mem_nil _, ?_⟩
      rw [disk_rollFile_of_mem hmem, List.append_nil]
    · exact ⟨_, List.forall_mem_singleton.mpr rfl, disk_rollFile_of_not_mem hmem⟩
  rcases append_cases hs with ⟨-, rfl⟩ | ⟨-, -, rfl⟩ | ⟨-, flushed, rfl⟩
  · exact hroll _
  · exact hroll { s.write line with reads := s.reads + 1 }
  · exact ⟨[], List.forall_mem_nil _, (List.append_nil _).symm⟩

/-- A call adds the line to the bytes on disk. -/
theorem Opened.bytes_append (ho : Opened p clock s front lines times t)
    (hs : s.append p clock line = some s') :
    s'.disk.flatMap DiskFile.bytes = s.disk.flatMap DiskFile.bytes ++ line := by
  obtain ⟨extra, hextra, hdisk⟩ := disk_append hs
  have hempty : extra.flatMap DiskFile.bytes = [] := by
    refine List.flatMap_eq_nil_iff.mpr fun f hf => ?_
    rw [DiskFile.bytes, hextra f hf]
    rfl
  rw [hdisk, List.flatMap_append, hempty, List.append_nil, (ho.write line).disk, ho.disk]
  simp [DiskFile.bytes]

/-- No file is too large after a call if the counter was right before it. -/
theorem Sized.bounded_append (h : Sized p s lines) (ho : Opened p clock s front lines times t)
    (hs : s.append p clock line = some s') : ∀ f ∈ s'.disk, f.Bounded p.rollSize := by
  obtain ⟨extra, hextra, hdisk⟩ := disk_append hs
  rw [hdisk]
  refine List.forall_mem_append.mpr ⟨(h.write ho line).2, fun f hf => .inl ?_⟩
  rw [DiskFile.bytes, hextra f hf]
  exact Nat.zero_le _

theorem openedAt_append (hs : s.append p clock line = some s') : s.openedAt <+: s'.openedAt := by
  rcases append_cases hs with ⟨-, rfl⟩ | ⟨-, -, rfl⟩ | ⟨-, flushed, rfl⟩
  · exact List.prefix_append _ _
  · exact List.prefix_append _ _
  · exact List.prefix_rfl

/-- What a call does to the open file. The counter is wrong only after a roll in the second in which
the open file has been opened; then the file has no room. -/
theorem Opened.append (ho : Opened p clock s front lines times t)
    (hs : s.append p clock line = some s') : ∃ front' lines' times' t',
      Opened p clock s' front' lines' times' t' ∧
        (s.openedAt.Nodup → Sized p s lines →
          s'.openedAt.Nodup ∧ Sized p s' lines' ∨
            ¬s'.openedAt.Nodup ∧ p.rollSize < lines'.flatten.length) := by
  have ho' := ho.write line
  rcases append_cases hs with ⟨hsize, rfl⟩ | ⟨hle, hday, rfl⟩ | ⟨hle, flushed, rfl⟩
  · rcases ho'.le_clock.eq_or_lt with hnow | hnow
    · refine ⟨_, _, _, _, ho'.rollFile_same hnow.symm, fun _ h => .inr ⟨fun hnodup => ?_, ?_⟩⟩
      · refine absurd ?_ (nodup_openedAt_rollFile.mp hnodup).1
        rw [← hnow, ho'.openedAt]
        exact List.mem_append_right _ List.mem_cons_self
      · exact hsize.trans_eq (h.write ho line).1.symm
    · exact ⟨_, _, _, _, ho'.rollFile_later hnow, fun hnodup h =>
        .inl (ho'.sized_rollFile hnow hnodup (h.write ho line).2)⟩
  · -- another day is a later second
    have hread : t < clock s.reads := by
      refine ho.le_clock.lt_of_ne fun hnow => hday ?_
      rw [ho.startDay, hnow]
    have hnow : t < clock (s.reads + 1) := hread.trans_le (clock.monotone (Nat.le_succ _))
    have hread' : Opened p clock { s.write line with reads := s.reads + 1 } front (lines ++ [line])
        times t := { ho' with le_clock := hnow.le }
    exact ⟨_, _, _, _, hread'.rollFile_later hnow, fun hnodup h =>
      .inl (hread'.sized_rollFile hnow hnodup (h.write ho line).2)⟩
  · have hread : t ≤ clock (s.reads + 1) :=
      ho.le_clock.trans (clock.monotone (Nat.le_succ _))
    refine ⟨front, lines ++ [line], times, t, { ho' with le_clock := hread }, fun hnodup h =>
      .inl ⟨hnodup, ?_⟩⟩
    obtain ⟨hlength, hbounded⟩ := h.write ho line
    exact ⟨hlength, hle, hbounded⟩

/-! ## Runs -/

theorem run_concat (p : Params) (clock : ℕ →o ℕ) (lines : List (List UInt8)) (line : List UInt8) :
    run p clock (lines ++ [line]) = (run p clock lines).bind (append p clock · line) := by
  rw [run, List.foldlM_append]
  simp [run]

/-- The open file of a run, and the bytes on disk. -/
theorem run_spec (hs : run p clock lines = some s) :
    (∃ front last times t, Opened p clock s front last times t ∧
        (s.openedAt.Nodup → Sized p s last)) ∧
      s.disk.flatMap DiskFile.bytes = lines.flatten := by
  induction lines using List.reverseRecOn generalizing s with
  | nil =>
    obtain rfl := Option.some.inj hs
    refine ⟨⟨[], [], [], clock 0, opened_init p clock, fun _ => ⟨rfl, Nat.zero_le _, ?_⟩⟩, rfl⟩
    exact List.forall_mem_singleton.mpr (.inl (Nat.zero_le _))
  | append_singleton lines line ih =>
    rw [run_concat] at hs
    obtain ⟨s₀, hs₀, hs⟩ := Option.bind_eq_some_iff.mp hs
    obtain ⟨⟨front, last, times, t, ho, h⟩, hbytes⟩ := ih hs₀
    obtain ⟨front', last', times', t', ho', h'⟩ := ho.append hs
    refine ⟨⟨front', last', times', t', ho', fun hnodup => ?_⟩, ?_⟩
    · have hnodup₀ := hnodup.sublist (openedAt_append hs).sublist
      exact ((h' hnodup₀ (h hnodup₀)).resolve_right fun hdup => hdup.1 hnodup).2
    · rw [ho.bytes_append hs, hbytes, List.flatten_append, List.flatten_singleton]

/-- While all files have been opened in different seconds, the files are as they should be after the
next call, if it returns. -/
theorem respects_concat (hs : run p clock lines = some s) (hnodup : s.openedAt.Nodup)
    (hs' : s.append p clock line = some s') : Respects p s' (lines ++ [line]) := by
  obtain ⟨⟨front, last, times, t, ho, h⟩, hbytes⟩ := run_spec hs
  refine ⟨(h hnodup).bounded_append ho hs', ?_⟩
  rw [ho.bytes_append hs', hbytes, List.flatten_append, List.flatten_singleton]

/-- A file that has been opened twice in a second gets too large by a line that is long enough. -/
theorem exists_not_bounded (hs : run p clock lines = some s) (hnodup : s.openedAt.Nodup)
    (hs' : s.append p clock line = some s') (hdup : ¬s'.openedAt.Nodup) :
    ∃ long, ∀ s'', s'.append p clock long = some s'' → ∃ f ∈ s''.disk, ¬f.Bounded p.rollSize := by
  obtain ⟨⟨front, last, times, t, ho, h⟩, -⟩ := run_spec hs
  obtain ⟨front', last', times', t', ho', h'⟩ := ho.append hs'
  have hlarge : p.rollSize < last'.flatten.length :=
    ((h' hnodup (h hnodup)).resolve_left fun hok => hdup hok.1).2
  refine ⟨last'.flatten, fun s'' hs'' => ?_⟩
  obtain ⟨extra, -, hdisk⟩ := disk_append hs''
  refine ⟨⟨s'.name, last' ++ [last'.flatten]⟩, ?_, fun hbounded => ?_⟩
  · rw [hdisk, (ho'.write last'.flatten).disk]
    exact List.mem_append_left _ (List.mem_append_right _ List.mem_cons_self)
  · exact absurd (le_of_bounded_concat le_rfl hbounded) (not_le.mpr hlarge)

/-- The run of some lines is the begin of that of more lines. -/
theorem exists_run_of_prefix {before : List (List UInt8)} (hpre : before <+: lines)
    (hs : run p clock lines = some s) :
    ∃ s₀, run p clock before = some s₀ ∧ s₀.openedAt <+: s.openedAt := by
  obtain ⟨after, rfl⟩ := hpre
  induction after using List.reverseRecOn generalizing s with
  | nil =>
    rw [List.append_nil] at hs
    exact ⟨s, hs, List.prefix_rfl⟩
  | append_singleton after line ih =>
    rw [← List.append_assoc, run_concat] at hs
    obtain ⟨s₁, hs₁, hs⟩ := Option.bind_eq_some_iff.mp hs
    obtain ⟨s₀, hs₀, hopened⟩ := ih hs₁
    exact ⟨s₀, hs₀, hopened.trans (openedAt_append hs)⟩

/-- If whatever is appended next keeps to the roll size, files are opened in different seconds. -/
theorem nodup_of_respects
    (h : ∀ before, before <+: lines → ∀ line, RespectsAfter p clock (before ++ [line])) :
    ∀ s ∈ run p clock lines, s.openedAt.Nodup := by
  induction lines using List.reverseRecOn with
  | nil =>
    intro s hs
    obtain rfl := Option.some.inj hs
    exact List.nodup_singleton _
  | append_singleton lines line ih =>
    intro s' hs'
    have hrun := hs'
    rw [Option.mem_def, run_concat] at hs'
    obtain ⟨s, hs, hs'⟩ := Option.bind_eq_some_iff.mp hs'
    have hnodup : s.openedAt.Nodup :=
      ih (fun before hpre => h before (hpre.trans (List.prefix_append _ _))) s hs
    by_contra hdup
    obtain ⟨long, hlong⟩ := exists_not_bounded hs hnodup hs' hdup
    obtain ⟨s'', hs'', hrespects⟩ := h _ List.prefix_rfl long
    rw [run_concat, Option.mem_def.mp hrun, Option.bind_some] at hs''
    obtain ⟨f, hf, hnot⟩ := hlong s'' hs''
    exact hnot (hrespects.bounded f hf)

/-- If the next call returns with an empty line, too, the open file is not due to be flushed. -/
theorem inTime_of_respects {before : List (List UInt8)} (hsafe : p.threadSafe = true)
    (h : RespectsAfter p clock (before ++ [[]])) (hs : run p clock before = some s)
    (hnodup : s.openedAt.Nodup) : s.InTime p clock := by
  obtain ⟨⟨front, last, times, t, ho, hsized⟩, -⟩ := run_spec hs
  obtain ⟨s', hs', -⟩ := h
  rw [run_concat, hs, Option.bind_some] at hs'
  by_contra hlate
  have hnone : s.append p clock [] = none :=
    append_eq_none_iff.mpr ⟨hsafe, (hsized hnodup).le, hlate⟩
  rw [hnone] at hs'
  cases hs'

theorem exists_append_of_inTime (h : p.threadSafe = true → s.InTime p clock)
    (line : List UInt8) : ∃ s', s.append p clock line = some s' := by
  refine Option.ne_none_iff_exists'.mp fun hnone => ?_
  obtain ⟨hsafe, -, hlate⟩ := append_eq_none_iff.mp hnone
  exact hlate (h hsafe)

/-- All calls return if no mutex is locked twice. -/
theorem exists_run_of_inTime (h : p.threadSafe = true → ∀ before, before <+: lines →
    ∀ s ∈ run p clock before, s.InTime p clock) : ∃ s, run p clock lines = some s := by
  induction lines using List.reverseRecOn with
  | nil => exact ⟨_, rfl⟩
  | append_singleton lines line ih =>
    have hpre : lines <+: lines ++ [line] := List.prefix_append _ _
    obtain ⟨s, hs⟩ := ih fun hsafe before hbefore => h hsafe before (hbefore.trans hpre)
    obtain ⟨s', hs'⟩ := exists_append_of_inTime (fun hsafe => h hsafe lines hpre s hs) line
    exact ⟨s', by rw [run_concat, hs, Option.bind_some, hs']⟩

/-- **Log files respect the roll size**, whatever is appended next, exactly if all files have been
opened in different seconds, and no call of `append` has to flush a file that has a mutex. -/
theorem respects_iff (p : Params) (clock : ℕ →o ℕ) (lines : List (List UInt8)) :
    (∀ before, before <+: lines → ∀ line, RespectsAfter p clock (before ++ [line])) ↔
      Orderly p clock lines := by
  constructor
  · intro h
    refine ⟨nodup_of_respects h, fun hsafe before hpre s hs => ?_⟩
    have hnodup := nodup_of_respects (fun b hb => h b (hb.trans hpre)) s hs
    exact inTime_of_respects hsafe (h before hpre []) hs hnodup
  · intro h before hpre line
    obtain ⟨s, hs⟩ := exists_run_of_inTime h.inTime
    obtain ⟨s₀, hs₀, hopened⟩ := exists_run_of_prefix hpre hs
    have hnodup : s₀.openedAt.Nodup := (h.nodup s hs).sublist hopened.sublist
    obtain ⟨s', hs'⟩ :=
      exists_append_of_inTime (fun hsafe => h.inTime hsafe before hpre s₀ hs₀) line
    exact ⟨s', by rw [run_concat, hs₀, Option.bind_some, hs'], respects_concat hs₀ hnodup hs'⟩

/-- Two lines of two bytes in one second, when a file is full with two bytes; and a line four
seconds after the file has been opened, when there is a mutex. -/
theorem exists_not_respects :
    (∃ (p : Params) (clock : ℕ →o ℕ) (lines : List (List UInt8)), p.threadSafe = false ∧
      ¬RespectsAfter p clock lines) ∧
    ∃ (p : Params) (clock : ℕ →o ℕ) (lines : List (List UInt8)), p.threadSafe = true ∧
      run p clock lines = none := by
  constructor
  · let p : Params := ⟨asciiBytes "log", asciiBytes "host", 1, 1, false, 3⟩
    refine ⟨p, OrderHom.const ℕ 0, [asciiBytes "a\n", asciiBytes "b\n"], rfl, ?_⟩
    rintro ⟨s, hs, hrespects⟩
    have hlarge : (run p (OrderHom.const ℕ 0) [asciiBytes "a\n", asciiBytes "b\n"]).map
        (fun s => decide (∀ f ∈ s.disk, f.Bounded p.rollSize)) = some false := by decide +kernel
    rw [hs, Option.map_some, Option.some_inj] at hlarge
    exact of_decide_eq_false hlarge hrespects.bounded
  · exact ⟨⟨asciiBytes "log", asciiBytes "host", 1, 1000, true, 3⟩,
      ⟨fun reads => 4 * reads, fun _ _ h => Nat.mul_le_mul_left 4 h⟩, [asciiBytes "a\n"], rfl,
      by decide +kernel⟩

end LogFile

end CodingDemo.Libcpp
