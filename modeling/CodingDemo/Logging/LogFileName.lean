import CodingDemo.Datetime.Gmtime
import CodingDemo.Text.Snprintf

/-!
# The name of the log file

The name of the log file is put together in an array of 128 bytes: the prefix that the user has set,
the date and the time, the name of the host and the process id. The prefix itself is in an array of
the same size.

## Main definitions

* `var_file_params`: the prefix is set
* `get_log_file_name`: the name is put together
* `InsideBuffers`: all that is written is in the arrays, and the name is terminated

## Main results

* `cString_var_file_params`: a prefix that fits is the prefix that has been set
* `insideBuffers_iff`: for which prefixes and hosts this is so
-/

namespace CodingDemo.Libc

/-- The size of `filename`, and of `basename`. -/
def FILENAME_SIZE : ℕ := 128

/-- A string without a zero. -/
structure CString where
  bytes : List UInt8
  zero_not_mem : 0 ∉ bytes

/-- What `gethostname` finds: the array for it has room for the zero. -/
structure HostName where
  bytes : List UInt8
  length_lt : bytes.length < 128

/-- The string in an array. -/
def cString (mem : Written) (size : ℕ) : List UInt8 :=
  ((List.range size).map fun i => (mem i).getD 0).takeWhile fun b => b ≠ 0

/-- The prefix is printed to `basename`, and a zero is written after it. -/
def var_file_params (basename : Written) (init : CString) : Written :=
  let n := sizeT (printed init.bytes)
  store (snprintf basename 0 FILENAME_SIZE init.bytes) n [0]

/-- The text `.%d`, in an array of 32 bytes. -/
def pidbuf (pid : ℕ) : List UInt8 := ([46] ++ decimal pid).take 31

/-- The pieces of the name, all but the last one. -/
def nameTexts (basename : List UInt8) (now : UtcTime) (hostname : HostName) (pid : ℕ) :
    List (List UInt8) :=
  [basename, stamp now.seconds, hostname.bytes, pidbuf pid]

/-- An array of zeros. -/
def zeros (size : ℕ) : Written := store (fun _ => none) 0 (List.replicate size 0)

/-- `filename` after `memset`. -/
def blankName : Printing where
  mem := zeros FILENAME_SIZE

def get_log_file_name (basename : List UInt8) (now : UtcTime) (hostname : HostName) (pid : ℕ) :
    Printing :=
  (blankName.printAll FILENAME_SIZE (nameTexts basename now hostname pid)).print FILENAME_SIZE
    (asciiBytes ".log")

/-- `basename` before it is set. -/
def initialBasename : Written :=
  store (zeros FILENAME_SIZE) 0 (asciiBytes "libc-logfile")

theorem mem_blankName : blankName.mem = zeros FILENAME_SIZE := by simp only [blankName]

/-- Only the two arrays are written, no size that `snprintf` gets is negative, and there is a zero
after the name. -/
structure InsideBuffers (basename : Written) (filename : Printing) : Prop where
  basename_inside : ∀ i, basename i ≠ none → i < FILENAME_SIZE
  filename_inside : ∀ i, filename.mem i ≠ none → i < FILENAME_SIZE
  sizes : ∀ start ∈ filename.starts, start ≤ FILENAME_SIZE
  terminated : ∃ i < FILENAME_SIZE, filename.mem i = some 0

variable {size i : ℕ} {init : CString} {now : UtcTime} {hostname : HostName} {pid : ℕ}
  {basename : List UInt8}

theorem zeros_ne_none_iff : zeros size i ≠ none ↔ i < size := by
  rw [zeros, store_ne_none_iff, List.length_replicate, Nat.zero_add, or_iff_left (not_not.mpr rfl)]
  exact and_iff_right (Nat.zero_le i)

theorem zeros_of_lt (h : i < size) : zeros size i = some 0 := by
  have hcell : 0 ≤ i ∧ i < 0 + (List.replicate size (0 : UInt8)).length := by
    rw [List.length_replicate]
    omega
  refine (if_pos hcell).trans ?_
  rw [List.getElem?_replicate, Nat.sub_zero, if_pos h]

/-! ## The prefix -/

/-- The prefix is written to its array exactly if it fits. -/
theorem basename_inside_iff :
    (∀ i, var_file_params initialBasename init i ≠ none → i < FILENAME_SIZE) ↔
      init.bytes.length < FILENAME_SIZE := by
  have hinitial : ∀ i, initialBasename i ≠ none → i < FILENAME_SIZE := by
    intro i hi
    have hname : (asciiBytes "libc-logfile").length ≤ FILENAME_SIZE := by decide
    rcases store_ne_none_iff.mp hi with hcell | hi
    · omega
    · exact zeros_ne_none_iff.mp hi
  have hsize : FILENAME_SIZE < 2 ^ 31 := by decide
  constructor
  · intro h
    have hzero : sizeT (printed init.bytes) < FILENAME_SIZE :=
      h _ (store_ne_none_iff.mpr (.inl ⟨le_rfl, Nat.lt_succ_self _⟩))
    by_contra hlength
    have hcast := natCast_sizeT (printed init.bytes)
    unfold printed at hcast hzero
    split_ifs at hcast hzero <;> omega
  · intro hlength i hi
    have hn : sizeT (printed init.bytes) = init.bytes.length := by
      rw [printed_eq_length (by omega), sizeT_natCast (by omega)]
    rcases store_ne_none_iff.mp hi with hcell | hprinted
    · rw [hn, List.length_singleton] at hcell
      omega
    · rcases snprintf_ne_none_iff.mp hprinted with hcell | hold
      · omega
      · exact hinitial i hold

/-- The string that begins an array. -/
theorem takeWhile_map_range {f : ℕ → UInt8} {l : List UInt8} {size : ℕ} (hlt : l.length < size)
    (hbytes : ∀ i (hi : i < l.length), f i = l[i]) (hzero : f l.length = 0) (hno : 0 ∉ l) :
    ((List.range size).map f).takeWhile (fun b => b ≠ 0) = l := by
  obtain ⟨rest, rfl⟩ := Nat.exists_eq_add_of_lt hlt
  have hfront : (List.range l.length).map f = l := by
    refine List.ext_getElem (by rw [List.length_map, List.length_range]) fun i _ hi => ?_
    rw [List.getElem_map, List.getElem_range, hbytes i hi]
  have hall : ∀ b ∈ l, decide (b ≠ 0) = true :=
    fun b hb => decide_eq_true fun heq => hno (heq ▸ hb)
  rw [Nat.add_assoc, List.range_add, List.map_append, hfront, List.takeWhile_append_of_pos hall,
    List.range_succ_eq_map, List.map_cons, List.map_cons, Nat.add_zero, hzero]
  exact List.append_nil l

/-- A prefix that fits is the prefix that has been set. -/
theorem cString_var_file_params (h : init.bytes.length < FILENAME_SIZE) :
    cString (var_file_params initialBasename init) FILENAME_SIZE = init.bytes := by
  have hsize : FILENAME_SIZE < 2 ^ 31 := by decide
  have hn : sizeT (printed init.bytes) = init.bytes.length := by
    rw [printed_eq_length (by omega), sizeT_natCast (by omega)]
  have hbytes : ∀ i, i < init.bytes.length →
      var_file_params initialBasename init i = init.bytes[i]? := by
    intro i hi
    have htake : init.bytes.take (FILENAME_SIZE - 1) = init.bytes :=
      List.take_of_length_le (by omega)
    rw [var_file_params, hn, store, if_neg (by omega), snprintf, if_neg (by decide), store, htake,
      if_pos ⟨Nat.zero_le i, by rw [List.length_append]; omega⟩, Nat.sub_zero,
      List.getElem?_append_left hi]
  have hzero : var_file_params initialBasename init init.bytes.length = some 0 := by
    rw [var_file_params, hn, store, if_pos ⟨le_rfl, Nat.lt_succ_self _⟩, Nat.sub_self]
    rfl
  refine takeWhile_map_range h (fun i hi => ?_) ?_ init.zero_not_mem
  · rw [hbytes i hi, List.getElem?_eq_getElem hi, Option.getD_some]
  · rw [hzero, Option.getD_some]

/-! ## The name -/

theorem inside_blankName : blankName.Inside FILENAME_SIZE := by
  refine ⟨fun i hi => ?_, fun i hi => absurd hi (Nat.not_lt_zero i)⟩
  rw [mem_blankName] at hi
  exact zeros_ne_none_iff.mp hi

/-- The pieces fit exactly if they are not too long together. -/
theorem sound_nameTexts_iff (h : basename.length < FILENAME_SIZE) :
    (blankName.printAll FILENAME_SIZE (nameTexts basename now hostname pid)).Sound FILENAME_SIZE ↔
      basename.length + (stamp now.seconds).length + hostname.bytes.length +
        (pidbuf pid).length ≤ FILENAME_SIZE := by
  have hblank : blankName.Sound FILENAME_SIZE := ⟨List.forall_mem_nil _, Nat.zero_le _⟩
  have hpid : (pidbuf pid).length ≤ 31 := List.length_take_le _ _
  have hsize : FILENAME_SIZE < 2 ^ 31 := by decide
  have htexts : ∀ text ∈ nameTexts basename now hostname pid, text.length < 2 ^ 31 := by
    have hstamp := length_stamp now
    have hhost := hostname.length_lt
    simp only [nameTexts, List.forall_mem_cons]
    exact ⟨by omega, by omega, by omega, by omega, List.forall_mem_nil _⟩
  have hsum : ((nameTexts basename now hostname pid).map List.length).sum = basename.length +
      (stamp now.seconds).length + hostname.bytes.length + (pidbuf pid).length := by
    simp only [nameTexts, List.map_cons, List.map_nil, List.sum_cons, List.sum_nil]
    omega
  have hpos : ((blankName.pos : ℕ) : ℤ) = 0 := rfl
  rw [sound_iff_fits hsize hblank, hpos, fits_iff_sum_le le_rfl htexts, hsum]
  omega

theorem sum_le_of_insideBuffers
    (h : InsideBuffers (var_file_params initialBasename init)
      (get_log_file_name (cString (var_file_params initialBasename init) FILENAME_SIZE) now
        hostname pid)) :
    init.bytes.length + (stamp now.seconds).length + hostname.bytes.length +
      (pidbuf pid).length ≤ FILENAME_SIZE := by
  obtain ⟨hbasename, -, hsizes, -⟩ := h
  have hlength := basename_inside_iff.mp hbasename
  rw [cString_var_file_params hlength] at hsizes
  obtain ⟨hstarts, hpos⟩ := List.forall_mem_append.mp hsizes
  exact (sound_nameTexts_iff hlength).mp ⟨hstarts, hpos _ List.mem_cons_self⟩

/-- **The name of the log file is put together inside of its arrays** exactly if the prefix, the
date and the time, the name of the host and the process id have at most 128 bytes together. -/
theorem insideBuffers_iff (init : CString) (now : UtcTime) (hostname : HostName) (pid : ℕ) :
    InsideBuffers (var_file_params initialBasename init)
        (get_log_file_name (cString (var_file_params initialBasename init) FILENAME_SIZE) now
          hostname pid) ↔
      init.bytes.length + (stamp now.seconds).length + hostname.bytes.length +
        (pidbuf pid).length ≤ FILENAME_SIZE := by
  have hN : FILENAME_SIZE < 2 ^ 31 := by decide
  constructor
  · exact sum_le_of_insideBuffers
  · intro hsum
    have hlength : init.bytes.length < FILENAME_SIZE := by
      have hstamp := length_stamp now
      omega
    rw [cString_var_file_params hlength]
    have hsound := (sound_nameTexts_iff hlength).mpr hsum
    have hlast : blankName.mem (FILENAME_SIZE - 1) = some 0 := by
      rw [mem_blankName]
      exact zeros_of_lt (by decide)
    refine ⟨basename_inside_iff.mpr hlength,
      inside_mem_print hN hsound.pos (inside_blankName.printAll hN hsound).inside,
      List.forall_mem_append.mpr ⟨hsound.starts, List.forall_mem_singleton.mpr hsound.pos⟩,
      FILENAME_SIZE - 1, by decide, last_snprintf ?_ (last_printAll hN hsound hlast)⟩
    rw [sizeT_sub hsound.pos (by omega)]
    exact Nat.add_sub_cancel' hsound.pos

/-- A prefix of 100 bytes on a host whose name has 20. -/
theorem exists_not_insideBuffers :
    ∃ (init : CString) (now : UtcTime) (hostname : HostName) (pid : ℕ),
      ¬InsideBuffers (var_file_params initialBasename init)
        (get_log_file_name (cString (var_file_params initialBasename init) FILENAME_SIZE) now
          hostname pid) := by
  refine ⟨⟨List.replicate 100 97, fun h => ?_⟩, ⟨0, by decide⟩, ⟨List.replicate 20 98, ?_⟩, 1,
    fun h => ?_⟩
  · exact absurd (List.eq_of_mem_replicate h) (by decide)
  · rw [List.length_replicate]
    decide
  · have hsum := sum_le_of_insideBuffers h
    have hinit : (List.replicate 100 (97 : UInt8)).length = 100 := List.length_replicate
    have hhost : (List.replicate 20 (98 : UInt8)).length = 20 := List.length_replicate
    have hstamp : (stamp 0).length = 17 := length_stamp ⟨0, by decide⟩
    simp only [hinit, hhost] at hsum
    have hsize : FILENAME_SIZE = 128 := rfl
    omega

end CodingDemo.Libc
