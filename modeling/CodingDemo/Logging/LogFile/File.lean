import CodingDemo.Machine.SizeT
import Mathlib.Data.List.TakeDrop

/-!
# Writing a line to a log file

`fwrite_unlocked` may write less than it is asked to. The loop that follows asks for the bytes from
where the last call has stopped, but for as many as the whole line has.

## Main definitions

* `Line`: the memory from the begin of a line on, and the length of the line
* `Fwrite`, `Call`: what the calls of `fwrite_unlocked` return, and a call
* `writeLine`: the calls for a line
* `LogFile.File.append`, `file_append`: a line is appended to a log file
* `Tolerates`: short writes do no harm

## Main results

* `tolerates_iff`: which results of the calls do no harm
-/

namespace CodingDemo

/-! ## The calls for a line -/

structure Line where
  /-- The memory from the line on, also after its end. -/
  mem : ℕ → UInt8
  len : ℕ
  len_lt : len < 2 ^ 64

def Line.bytes (line : Line) : List UInt8 := (List.range line.len).map line.mem

theorem Line.length_bytes (line : Line) : line.bytes.length = line.len := by
  rw [bytes, List.length_map, List.length_range]

/-- What `fwrite_unlocked` returns when it is called after a number of calls, for a count. -/
structure Fwrite where
  result : ℕ → ℕ → ℕ
  result_le : ∀ k count, result k count ≤ count

/-- A call of `fwrite_unlocked`. The offset is the one from the begin of the line. -/
structure Call where
  offset : ℕ
  count : ℕ
  result : ℕ

/-- The bytes that a call has added to the file. -/
def Call.bytes (mem : ℕ → UInt8) (c : Call) : List UInt8 :=
  (List.range c.result).map fun i => mem (c.offset + i)

def Fwrite.call (w : Fwrite) (calls : List Call) (offset count : ℕ) : Call where
  offset := offset
  count := count
  result := w.result calls.length count

/-- The calls for a line. -/
structure Writes where
  calls : List Call
  /-- The loop has ended. -/
  ended : Bool

/-- The loop, for a number of rounds. -/
def retry (w : Fwrite) (len : ℕ) : ℕ → List Call → ℕ → ℕ → Writes
  | 0, calls, _, remain => ⟨calls, remain = 0⟩
  | rounds + 1, calls, n, remain =>
    if remain = 0 then ⟨calls, true⟩
    else
      -- `len`, although only `remain` bytes are left
      let c := w.call calls n len
      if c.result = 0 then ⟨calls ++ [c], true⟩
      else retry w len rounds (calls ++ [c]) (sizeT (n + c.result)) (sizeT (remain - c.result))

def writeLine (w : Fwrite) (len rounds : ℕ) : Writes :=
  let c := w.call [] 0 len
  retry w len rounds [c] c.result (sizeT (len - c.result))

/-- The bytes that the calls have added to the file. -/
def Writes.bytes (ws : Writes) (mem : ℕ → UInt8) : List UInt8 := ws.calls.flatMap (Call.bytes mem)

/-- However many rounds the loop is given, it asks for bytes of the line only; it ends, and then the
file, which had `data`, has got the line or, if a call has written nothing, the begin of it. -/
structure Tolerates (line : Line) (data : List UInt8) (run : ℕ → List UInt8 × Writes) : Prop where
  ends : ∃ rounds, (run rounds).2.ended = true
  inside : ∀ rounds, ∀ c ∈ (run rounds).2.calls, c.offset + c.count ≤ line.len
  added : ∀ rounds, (run rounds).2.ended = true →
    ∃ n, (run rounds).1 = data ++ line.bytes.take n ∧
      (n = line.len ∨ ∃ c ∈ (run rounds).2.calls, c.result = 0)

namespace Libcpp

/-- A log file: the bytes in it, and the counter of the object. -/
structure LogFile.File where
  data : List UInt8 := []
  writtenBytes : ℕ := 0

def LogFile.File.append (f : LogFile.File) (w : Fwrite) (line : Line) (rounds : ℕ) :
    LogFile.File × Writes :=
  let ws := writeLine w line.len rounds
  ({ data := f.data ++ ws.bytes line.mem, writtenBytes := f.writtenBytes + line.len }, ws)

end Libcpp

namespace Libc

/-- The log file of the process: the bytes in it, and the counter. -/
structure LogFile where
  data : List UInt8 := []
  written_bytes : ℕ := 0

def file_append (f : LogFile) (w : Fwrite) (line : Line) (rounds : ℕ) : LogFile × Writes :=
  let ws := writeLine w line.len rounds
  ({ data := f.data ++ ws.bytes line.mem, written_bytes := f.written_bytes + line.len }, ws)

end Libc

/-! ## The first calls -/

/-- The first call takes the whole line; or it takes nothing, and the second one takes nothing or
the whole line. -/
def Fwrite.NeverShort (w : Fwrite) (len : ℕ) : Prop :=
  w.result 0 len = len ∨ w.result 0 len = 0 ∧ (w.result 1 len = 0 ∨ w.result 1 len = len)

variable {w : Fwrite} {line : Line} {data : List UInt8} {len rounds n remain : ℕ}
  {calls : List Call}

theorem retry_zero : retry w len rounds calls n 0 = ⟨calls, true⟩ := by
  cases rounds with
  | zero => rfl
  | succ rounds => exact if_pos rfl

/-- As long as something remains there is another call. -/
theorem retry_succ (h : remain ≠ 0) : retry w len (rounds + 1) calls n remain =
    if w.result calls.length len = 0 then ⟨calls ++ [w.call calls n len], true⟩
    else
      retry w len rounds (calls ++ [w.call calls n len]) (sizeT (n + w.result calls.length len))
        (sizeT (remain - w.result calls.length len)) :=
  if_neg h

theorem subset_calls_retry : calls ⊆ (retry w len rounds calls n remain).calls := by
  induction rounds generalizing calls n remain with
  | zero => exact List.Subset.refl calls
  | succ rounds ih =>
    by_cases hremain : remain = 0
    · rw [hremain, retry_zero]
      exact List.Subset.refl calls
    · rw [retry_succ hremain]
      split_ifs
      · exact List.subset_append_left _ _
      · exact List.Subset.trans (List.subset_append_left _ _) ih

theorem call_mem_retry (h : remain ≠ 0) :
    w.call calls n len ∈ (retry w len (rounds + 1) calls n remain).calls := by
  rw [retry_succ h]
  split_ifs
  · exact List.mem_append_right _ List.mem_cons_self
  · exact subset_calls_retry (List.mem_append_right _ List.mem_cons_self)

theorem writeLine_eq (hlen : len < 2 ^ 64) : writeLine w len rounds =
    retry w len rounds [w.call [] 0 len] (w.result 0 len) (len - w.result 0 len) := by
  rw [← sizeT_sub (w.result_le 0 len) hlen]
  rfl

/-- The calls when the first one takes the whole line. -/
theorem writeLine_of_whole (hlen : len < 2 ^ 64) (h : w.result 0 len = len) :
    writeLine w len rounds = ⟨[⟨0, len, len⟩], true⟩ := by
  rw [writeLine_eq hlen, h, Nat.sub_self, retry_zero, Fwrite.call, List.length_nil, h]

/-- The calls when the first one takes nothing. -/
theorem writeLine_of_none (hlen : len < 2 ^ 64) (hpos : len ≠ 0) (h : w.result 0 len = 0)
    (h' : w.result 1 len = 0 ∨ w.result 1 len = len) :
    writeLine w len (rounds + 1) = ⟨[⟨0, len, 0⟩, ⟨0, len, w.result 1 len⟩], true⟩ := by
  have hfirst : w.call [] 0 len = ⟨0, len, 0⟩ := congrArg (Call.mk 0 len) h
  have hsecond : w.call [⟨0, len, 0⟩] 0 len = ⟨0, len, w.result 1 len⟩ := rfl
  rw [writeLine_eq hlen, h, Nat.sub_zero, hfirst, retry_succ hpos, hsecond, List.length_singleton]
  by_cases hzero : w.result 1 len = 0
  · exact if_pos hzero
  · rw [if_neg hzero, h'.resolve_left hzero, Int.sub_self]
    exact retry_zero

/-! ## Short writes -/

theorem neverShort_of_inside (hlen : len < 2 ^ 64)
    (h : ∀ c ∈ (writeLine w len 2).calls, c.offset + c.count ≤ len) : w.NeverShort len := by
  rw [writeLine_eq hlen] at h
  by_cases hwhole : w.result 0 len = len
  · exact .inl hwhole
  have hle := w.result_le 0 len
  have hremain : len - w.result 0 len ≠ 0 := by omega
  -- the second call asks for the bytes from where the first one has stopped
  have hsecond : w.result 0 len + len ≤ len := h _ (call_mem_retry hremain)
  have hnone : w.result 0 len = 0 := by omega
  refine .inr ⟨hnone, ?_⟩
  by_contra hshort
  obtain ⟨hzero, hpart⟩ := not_or.mp hshort
  have hle' := w.result_le 1 len
  have hthird : sizeT ((0 : ℕ) + w.result 1 len) + len ≤ len := by
    have hremain' : sizeT (len - w.result 1 len) ≠ 0 := by
      rw [sizeT_sub hle' hlen]
      omega
    have hrounds : retry w len 2 [w.call [] 0 len] (w.result 0 len) (len - w.result 0 len) =
        retry w len 1 [w.call [] 0 len, w.call [w.call [] 0 len] 0 len]
          (sizeT ((0 : ℕ) + w.result 1 len)) (sizeT (len - w.result 1 len)) := by
      rw [hnone, Nat.sub_zero, retry_succ (by omega), List.length_singleton, if_neg hzero]
      rfl
    rw [hrounds] at h
    exact h _ (call_mem_retry hremain')
  have hoffset : (sizeT ((0 : ℕ) + w.result 1 len) : ℤ) = w.result 1 len := by
    rw [Nat.cast_zero, Int.zero_add, sizeT_natCast (by omega)]
  omega

theorem bytes_call {count result : ℕ} (h : result ≤ line.len) :
    Call.bytes line.mem ⟨0, count, result⟩ = line.bytes.take result := by
  rw [Call.bytes, Line.bytes, ← List.map_take, List.take_range, min_eq_left h]
  simp only [Nat.zero_add]

theorem tolerates_of_neverShort (h : w.NeverShort line.len) :
    Tolerates line data fun rounds =>
      (data ++ (writeLine w line.len rounds).bytes line.mem, writeLine w line.len rounds) := by
  by_cases hwhole : w.result 0 line.len = line.len
  · have hcalls : ∀ rounds, writeLine w line.len rounds = ⟨[⟨0, line.len, line.len⟩], true⟩ :=
      fun _ => writeLine_of_whole line.len_lt hwhole
    refine ⟨⟨0, ?_⟩, fun rounds => ?_, fun rounds _ => ⟨line.len, ?_, .inl rfl⟩⟩
    · rw [hcalls]
    · simp only [hcalls, List.forall_mem_singleton]
      omega
    · simp only [hcalls, Writes.bytes, List.flatMap_singleton, bytes_call le_rfl]
  · obtain ⟨hnone, hsecond⟩ := h.resolve_left hwhole
    have hpos : line.len ≠ 0 := fun hzero => hwhole (hnone.trans hzero.symm)
    have hcalls : ∀ rounds, writeLine w line.len (rounds + 1) =
        ⟨[⟨0, line.len, 0⟩, ⟨0, line.len, w.result 1 line.len⟩], true⟩ :=
      fun _ => writeLine_of_none line.len_lt hpos hnone hsecond
    have hfirst : writeLine w line.len 0 = ⟨[⟨0, line.len, 0⟩], false⟩ := by
      rw [writeLine_eq line.len_lt, retry, Fwrite.call, List.length_nil, hnone, Nat.sub_zero,
        decide_eq_false hpos]
    refine ⟨⟨1, ?_⟩, fun rounds => ?_, fun rounds hended => ⟨w.result 1 line.len, ?_, ?_⟩⟩
    · rw [hcalls]
    · cases rounds with
      | zero => simp [hfirst]
      | succ rounds => simp [hcalls]
    · cases rounds with
      | zero => simp [hfirst] at hended
      | succ rounds =>
        simp [hcalls, Writes.bytes, bytes_call (Nat.zero_le _),
          bytes_call (w.result_le 1 line.len)]
    · cases rounds with
      | zero => simp [hfirst] at hended
      | succ rounds =>
        refine .inr ⟨⟨0, line.len, 0⟩, ?_, rfl⟩
        simp [hcalls]

theorem tolerates_iff_neverShort :
    (Tolerates line data fun rounds =>
      (data ++ (writeLine w line.len rounds).bytes line.mem, writeLine w line.len rounds)) ↔
      w.NeverShort line.len :=
  ⟨fun h => neverShort_of_inside line.len_lt (h.inside 2), tolerates_of_neverShort⟩

/-- **Writing a line tolerates short writes** only if there are none: the counts that
`fwrite_unlocked` returns are all or nothing, until it returns everything, or nothing twice. -/
theorem tolerates_iff (w : Fwrite) (line : Line) (f : Libcpp.LogFile.File) (g : Libc.LogFile) :
    ((Tolerates line f.data fun rounds =>
        ((f.append w line rounds).1.data, (f.append w line rounds).2)) ↔ w.NeverShort line.len) ∧
      ((Tolerates line g.data fun rounds =>
        ((Libc.file_append g w line rounds).1.data, (Libc.file_append g w line rounds).2)) ↔
        w.NeverShort line.len) :=
  ⟨tolerates_iff_neverShort, tolerates_iff_neverShort⟩

/-- After a short write the bytes after the line are asked for, too. -/
theorem exists_not_tolerates : ∃ (w : Fwrite) (line : Line) (f : Libcpp.LogFile.File),
    ¬Tolerates line f.data fun rounds =>
      ((f.append w line rounds).1.data, (f.append w line rounds).2) := by
  refine ⟨⟨fun _ count => min 1 count, fun _ count => min_le_right 1 count⟩,
    ⟨fun _ => 65, 2, by decide⟩, {}, fun h => ?_⟩
  have hshort := tolerates_iff_neverShort.mp h
  revert hshort
  unfold Fwrite.NeverShort
  decide

/-- A line is appended as a whole when the first call takes it. -/
theorem Libcpp.LogFile.File.append_of_whole {f : Libcpp.LogFile.File}
    (h : w.result 0 line.len = line.len) : (f.append w line rounds).1 =
      { data := f.data ++ line.bytes, writtenBytes := f.writtenBytes + line.len } := by
  have hall : line.bytes.take line.len = line.bytes :=
    List.take_of_length_le line.length_bytes.le
  simp [append, writeLine_of_whole line.len_lt h, Writes.bytes, bytes_call le_rfl, hall]

end CodingDemo
