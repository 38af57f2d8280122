import CodingDemo.Machine.Checked
import CodingDemo.Text.Ascii

/-!
# The scanners of picohttpparser

The parser walks through a buffer with a pointer that it compares with the end of the buffer before
it reads. In a build with SSE 4.2 it first looks through whole blocks of 16 bytes.

## Main definitions

* `Ptr`, `Halt`: a pointer into the buffer, and how the parser can end early
* `CHECK_EOF`, `EXPECT_CHAR`: the macros for one character
* `findchar_fast`: the search in blocks
* `advance`, `scanFrom`: the loops that read up to a character
* `ADVANCE_TO_SPACE`, `ADVANCE_TOKEN`, `get_token_to_eol`: the pieces of a line
* `is_complete`: the search for an empty line

## Main results

* `ADVANCE_TOKEN_eq`, `get_token_to_eol_eq`: the search in blocks changes nothing
-/

namespace CodingDemo.Dpdk.PicoHttp

/-- A pointer into the buffer: the bytes from there to the end of the buffer. -/
abbrev Ptr := List UInt8

inductive Halt
  /-- `*ret = -1` -/
  | failed
  /-- `*ret = -2` -/
  | incomplete
  /-- A read at or behind the end of the buffer. -/
  | outOfBounds
  deriving DecidableEq

/-- A string in the buffer. -/
structure Slice where
  start : Ptr
  len : ℕ
  deriving DecidableEq

/-! ## Single characters -/

def rejectIf (p : Prop) [Decidable p] (ret : Halt) : Except Halt Unit :=
  if p then .error ret else .ok ()

def CHECK_EOF (buf : Ptr) : Except Halt Unit := rejectIf (buf = []) .incomplete

def EXPECT_CHAR_NO_CHECK (ch : UInt8) : Ptr → Except Halt Ptr
  | [] => .error .outOfBounds
  | c :: buf => if c ≠ ch then .error .failed else .ok buf

def EXPECT_CHAR (ch : UInt8) (buf : Ptr) : Except Halt Ptr := do
  CHECK_EOF buf
  EXPECT_CHAR_NO_CHECK ch buf

def IS_PRINTABLE_ASCII (c : UInt8) : Bool := c - 32 < 95

def isBlank (c : UInt8) : Bool := c = 32 || c = 9

/-- The characters that a token must not have: control characters, but not those with the most
significant bit. -/
def isTokenCtl (c : UInt8) : Bool := !IS_PRINTABLE_ASCII c && (c < 32 || c = 127)

/-- The characters that end a line or must not be in it. -/
def isLineCtl (c : UInt8) : Bool := !IS_PRINTABLE_ASCII c && (c < 32 && c ≠ 9 || c = 127)

def token_char_map (c : UInt8) : Bool :=
  [0,0,0,0,0,0,0,0,0,0,0,0,0,0,0,0,0,0,0,0,0,0,0,0,0,0,0,0,0,0,0,0,
   0,1,0,1,1,1,1,1,0,0,1,1,0,1,1,0,1,1,1,1,1,1,1,1,1,1,0,0,0,0,0,0,
   0,1,1,1,1,1,1,1,1,1,1,1,1,1,1,1,1,1,1,1,1,1,1,1,1,1,1,0,0,0,1,1,
   1,1,1,1,1,1,1,1,1,1,1,1,1,1,1,1,1,1,1,1,1,1,1,1,1,1,1,0,1,0,1,0].getD c.toNat 0 = 1

/-! ## Loops -/

/-- A loop that reads a character without a check, and checks before the next one. -/
def advance (stop bad : UInt8 → Bool) : Ptr → Except Halt Ptr
  -- Only the first character can be missing.
  | [] => .error .outOfBounds
  | c :: buf =>
    if stop c then .ok (c :: buf)
    else if bad c then .error .failed
    else if buf = [] then .error .incomplete
    else advance stop bad buf

/-- A loop that checks before it reads a character. -/
def scanFrom (stop : UInt8 → Bool) : Ptr → Except Halt Ptr
  | [] => .error .incomplete
  | c :: buf => if stop c then .ok (c :: buf) else scanFrom stop buf

def inRanges (ranges : List (UInt8 × UInt8)) (c : UInt8) : Bool :=
  ranges.any fun r => r.1 ≤ c && c ≤ r.2

/-- The search in `n` blocks, each of which is read as a whole. -/
def findInBlocks (ranges : List (UInt8 × UInt8)) : ℕ → Ptr → Except Halt (Ptr × Bool)
  | 0, buf => .ok (buf, false)
  | n + 1, buf =>
    if buf.length < 16 then .error .outOfBounds
    else
      match (buf.take 16).findIdx? (inRanges ranges) with
      | some r => .ok (buf.drop r, true)
      | none => findInBlocks ranges n (buf.drop 16)

/-- The search for a character in the ranges, and whether one is found. -/
def findchar_fast (sse42 : Bool) (ranges : List (UInt8 × UInt8)) (buf : Ptr) :
    Except Halt (Ptr × Bool) :=
  -- What is left behind the last whole block is not looked at.
  if sse42 then findInBlocks ranges (buf.length / 16) buf else .ok (buf, false)

def ADVANCE_TO_SPACE (buf : Ptr) : Except Halt Ptr := advance (· = 32) (fun _ => false) buf

/-- A loop of `advance` after a search in blocks. -/
def findAndAdvance (sse42 : Bool) (ranges : List (UInt8 × UInt8)) (stop bad : UInt8 → Bool)
    (buf : Ptr) : Except Halt Ptr := do
  let (buf, found) ← findchar_fast sse42 ranges buf
  if !found then CHECK_EOF buf
  advance stop bad buf

def ADVANCE_TOKEN (sse42 : Bool) (buf : Ptr) : Except Halt (Slice × Ptr) := do
  let tok_start := buf
  let buf ← findAndAdvance sse42 [(0, 32), (127, 127)] (· = 32) isTokenCtl buf
  return (⟨tok_start, tok_start.length - buf.length⟩, buf)

/-! ## The rest of a line -/

/-- The loop over eight characters at a time, which are read without a check. The number is how
many of the eight are left. The result says whether a control character was found. -/
def skipPrintable : ℕ → Ptr → Except Halt (Ptr × Bool)
  | 0, [] => .ok ([], false)
  | _ + 1, [] => .error .outOfBounds
  | 0, c :: buf =>
    -- The loop ends when fewer than eight characters are left.
    if (c :: buf).length < 8 then .ok (c :: buf, false)
    else if IS_PRINTABLE_ASCII c then skipPrintable 7 buf
    else if isLineCtl c then .ok (c :: buf, true)
    else skipPrintable 0 buf
  | left + 1, c :: buf =>
    if IS_PRINTABLE_ASCII c then skipPrintable left buf
    else if isLineCtl c then .ok (c :: buf, true)
    -- After a tab, or a byte with the most significant bit, the loop starts again.
    else skipPrintable 0 buf

/-- The fast part of the search for the control character at which the text of a line ends. -/
def skipText (sse42 : Bool) (buf : Ptr) : Except Halt (Ptr × Bool) :=
  if sse42 then findchar_fast sse42 [(0, 8), (10, 31), (127, 127)] buf else skipPrintable 0 buf

def findLineCtl (sse42 : Bool) (buf : Ptr) : Except Halt Ptr := do
  let (buf, found) ← skipText sse42 buf
  if found then return buf else scanFrom isLineCtl buf

def get_token_to_eol (sse42 : Bool) (buf : Ptr) : Except Halt (Slice × Ptr) := do
  let token_start := buf
  match ← findLineCtl sse42 buf with
  | [] => throw .outOfBounds
  | c :: buf =>
    if c = 13 then
      -- The text ends before both characters of the line end.
      let buf ← EXPECT_CHAR 10 buf
      return (⟨token_start, token_start.length - buf.length - 2⟩, buf)
    else if c = 10 then return (⟨token_start, token_start.length - (c :: buf).length⟩, buf)
    else throw .failed

/-! ## The search for an empty line -/

/-- The loop of `is_complete`; `ret_cnt` is how many line ends came one after the other. -/
def completeFrom : ℕ → Ptr → Except Halt Ptr
  | _, [] => .error .incomplete
  | ret_cnt, c :: buf =>
    if c = 13 then
      match buf with
      | [] => .error .incomplete
      | d :: buf =>
        if d ≠ 10 then .error .failed
        else if ret_cnt + 1 = 2 then .ok buf
        else completeFrom (ret_cnt + 1) buf
    else if c = 10 then if ret_cnt + 1 = 2 then .ok buf else completeFrom (ret_cnt + 1) buf
    else completeFrom 0 buf

def is_complete (buf : Ptr) (last_len : ℕ) : Except Halt Ptr :=
  if buf.length < last_len - 3 then .error .outOfBounds
  else completeFrom 0 (buf.drop (last_len - 3))

/-! ## Checks -/

section Checks

variable {p : Prop} [Decidable p] {ret : Halt}

theorem rejectIf_eq_ok_iff {a : Unit} : rejectIf p ret = .ok a ↔ ¬p := by
  rw [rejectIf]
  split_ifs with hp
  · exact ⟨nofun, fun hn => absurd hp hn⟩
  · exact ⟨fun _ => hp, fun _ => rfl⟩

theorem rejectIf_avoids {e : Halt} (h : ret ≠ e) : Avoids (rejectIf p ret) e := by
  rw [rejectIf]
  split_ifs
  · exact avoids_error h
  · exact avoids_ok _

end Checks

/-! ## The loops stop at the first character they look for -/

section Loops

variable {stop bad : UInt8 → Bool} {s t w : Ptr}

theorem advance_append_cons (hw : ∀ b ∈ w, stop b = false ∧ bad b = false) (c : UInt8) (u : Ptr) :
    advance stop bad (w ++ c :: u) = advance stop bad (c :: u) := by
  induction w with
  | nil => rfl
  | cons b w ih =>
    obtain ⟨hstop, hbad⟩ := hw b List.mem_cons_self
    have hne : w ++ c :: u ≠ [] := List.append_ne_nil_of_right_ne_nil _ (List.cons_ne_nil _ _)
    rw [List.cons_append, advance, if_neg (by simp [hstop]), if_neg (by simp [hbad]), if_neg hne]
    exact ih fun b hb => hw b (List.mem_cons_of_mem _ hb)

theorem advance_eq_ok_iff :
    advance stop bad s = .ok t ↔ ∃ w c u, s = w ++ c :: u ∧ t = c :: u ∧ stop c = true ∧
      ∀ b ∈ w, stop b = false ∧ bad b = false := by
  constructor
  · intro h
    induction s with
    | nil => cases h
    | cons c s ih =>
      rw [advance] at h
      split_ifs at h with hstop hbad
      · cases h
        exact ⟨[], c, s, rfl, rfl, hstop, by simp⟩
      · obtain ⟨w, d, u, rfl, rfl, hd, hw⟩ := ih h
        refine ⟨c :: w, d, u, rfl, rfl, hd, ?_⟩
        rintro b hb
        rcases List.mem_cons.mp hb with rfl | hb
        · exact ⟨by simpa using hstop, by simpa using hbad⟩
        · exact hw b hb
  · rintro ⟨w, c, u, rfl, rfl, hc, hw⟩
    rw [advance_append_cons hw, advance, if_pos hc]

theorem advance_avoids (hs : s ≠ []) : Avoids (advance stop bad s) .outOfBounds := by
  induction s with
  | nil => exact absurd rfl hs
  | cons c s ih =>
    rw [advance]
    split_ifs with hstop hbad hnil
    · exact avoids_ok _
    · exact avoids_error (by decide)
    · exact avoids_error (by decide)
    · exact ih hnil

/-- The loop with a check before each read is the one with a check before the first read. -/
theorem scanFrom_eq :
    scanFrom stop s = CHECK_EOF s >>= fun _ => advance stop (fun _ => false) s := by
  induction s with
  | nil => rfl
  | cons c s ih =>
    rw [scanFrom, ih]
    by_cases hs : s = []
    · simp [CHECK_EOF, rejectIf, advance, hs, bind, Except.bind]
    · simp [CHECK_EOF, rejectIf, advance, hs, bind, Except.bind]

theorem checked_eq_ok_iff :
    (CHECK_EOF s >>= fun _ => advance stop bad s) = .ok t ↔ advance stop bad s = .ok t := by
  cases s with
  | nil => exact ⟨nofun, nofun⟩
  | cons c s => rfl

theorem checked_avoids :
    Avoids (CHECK_EOF s >>= fun _ => advance stop bad s) .outOfBounds := by
  cases s with
  | nil => exact avoids_error (by decide)
  | cons c s => exact advance_avoids (List.cons_ne_nil c s)

theorem scanFrom_eq_ok_iff :
    scanFrom stop s = .ok t ↔ ∃ w c u, s = w ++ c :: u ∧ t = c :: u ∧ stop c = true ∧
      ∀ b ∈ w, stop b = false := by
  rw [scanFrom_eq, checked_eq_ok_iff, advance_eq_ok_iff]
  simp only [and_true]

theorem checked_append (hw : ∀ b ∈ w, stop b = false ∧ bad b = false) :
    (CHECK_EOF (w ++ t) >>= fun _ => advance stop bad (w ++ t)) =
      CHECK_EOF t >>= fun _ => advance stop bad t := by
  induction w with
  | nil => rfl
  | cons b w ih =>
    obtain ⟨hstop, hbad⟩ := hw b List.mem_cons_self
    rw [← ih fun b hb => hw b (List.mem_cons_of_mem _ hb), List.cons_append]
    by_cases hnil : w ++ t = []
    · simp [CHECK_EOF, rejectIf, advance, hstop, hbad, hnil, bind, Except.bind]
    · simp [CHECK_EOF, rejectIf, advance, hstop, hbad, hnil, bind, Except.bind]

end Loops

/-! ## The search in blocks changes nothing -/

section Blocks

variable {ranges : List (UInt8 × UInt8)} {stop bad : UInt8 → Bool} {s : Ptr} (sse42 : Bool)

/-- A search skipped characters for which `p` does not hold, up to one for which it holds or to
some place before the end. -/
inductive Skips (p : UInt8 → Bool) (s : Ptr) : Except Halt (Ptr × Bool) → Prop
  | found (w : Ptr) (c : UInt8) (u : Ptr) : s = w ++ c :: u → (∀ b ∈ w, p b = false) →
      p c = true → Skips p s (.ok (c :: u, true))
  | notFound (w t : Ptr) : s = w ++ t → (∀ b ∈ w, p b = false) → Skips p s (.ok (t, false))

theorem Skips.append {p : UInt8 → Bool} {w t : Ptr} {r : Except Halt (Ptr × Bool)}
    (h : Skips p t r) (hw : ∀ b ∈ w, p b = false) : Skips p (w ++ t) r := by
  cases h with
  | found w' c u ht hw' hc =>
    refine .found (w ++ w') c u (by rw [ht, List.append_assoc]) ?_ hc
    exact fun b hb => (List.mem_append.mp hb).elim (hw b) (hw' b)
  | notFound w' u ht hw' =>
    refine .notFound (w ++ w') u (by rw [ht, List.append_assoc]) ?_
    exact fun b hb => (List.mem_append.mp hb).elim (hw b) (hw' b)

theorem findInBlocks_skips {n : ℕ} (hn : 16 * n ≤ s.length) :
    Skips (inRanges ranges) s (findInBlocks ranges n s) := by
  induction n generalizing s with
  | zero => exact .notFound [] s rfl (by simp)
  | succ n ih =>
    rw [findInBlocks, if_neg (by omega)]
    split
    · next r hr =>
      obtain ⟨hlt, hc, hw⟩ := List.findIdx?_eq_some_iff_getElem.mp hr
      rw [List.length_take] at hlt
      rw [List.getElem_take] at hc
      rw [List.drop_eq_getElem_cons (by omega)]
      refine .found (s.take r) _ _ ?_ ?_ hc
      · rw [List.getElem_cons_drop, List.take_append_drop]
      · rintro b hb
        obtain ⟨j, hj, rfl⟩ := List.mem_take_iff_getElem.mp hb
        have := hw j (by omega)
        rw [List.getElem_take] at this
        exact eq_false_of_ne_true this
    · next hr =>
      have hskip := ih (by rw [List.length_drop]; omega : 16 * n ≤ (s.drop 16).length)
      have := hskip.append (List.findIdx?_eq_none_iff.mp hr)
      rwa [List.take_append_drop] at this

theorem findchar_fast_skips : Skips (inRanges ranges) s (findchar_fast sse42 ranges s) := by
  cases sse42 with
  | false => exact .notFound [] s rfl (by simp)
  | true => exact findInBlocks_skips (Nat.mul_div_le s.length 16)

theorem findAndAdvance_eq
    (hranges : ∀ c, inRanges ranges c = false → stop c = false ∧ bad c = false) :
    findAndAdvance sse42 ranges stop bad s = CHECK_EOF s >>= fun _ => advance stop bad s := by
  have hskip : Skips (inRanges ranges) s _ := findchar_fast_skips sse42
  rw [findAndAdvance]
  -- Both loops agree from the place where the search ended, and so from the start.
  cases hr : findchar_fast sse42 ranges s with
  | error e =>
    rw [hr] at hskip
    cases hskip
  | ok r =>
    rw [hr] at hskip
    cases hskip with
    | found w c u hs hw hc =>
      rw [hs, checked_append fun b hb => hranges b (hw b hb)]
      rfl
    | notFound w t hs hw =>
      rw [hs, checked_append fun b hb => hranges b (hw b hb)]
      rfl

theorem findAndAdvance_eq_ok_iff {t : Ptr}
    (hranges : ∀ c, inRanges ranges c = false → stop c = false ∧ bad c = false) :
    findAndAdvance sse42 ranges stop bad s = .ok t ↔ ∃ w c u, s = w ++ c :: u ∧ t = c :: u ∧
      stop c = true ∧ ∀ b ∈ w, stop b = false ∧ bad b = false := by
  rw [findAndAdvance_eq sse42 hranges, checked_eq_ok_iff, advance_eq_ok_iff]

theorem skipPrintable_skips {left : ℕ} (hleft : left ≤ s.length) :
    Skips isLineCtl s (skipPrintable left s) := by
  induction s generalizing left with
  | nil =>
    obtain rfl : left = 0 := Nat.le_zero.mp hleft
    exact .notFound [] [] rfl (by simp)
  | cons c s ih =>
    -- The invariant is that as many characters are left as the round still reads.
    have hskip {left : ℕ} (hctl : isLineCtl c = false) (hle : left ≤ s.length) :
        Skips isLineCtl (c :: s) (skipPrintable left s) :=
      (ih hle).append (w := [c]) (by simpa using hctl)
    have hprintable (hc : IS_PRINTABLE_ASCII c = true) : isLineCtl c = false := by
      simp [isLineCtl, hc]
    rw [List.length_cons] at hleft
    cases left with
    | zero =>
      rw [skipPrintable]
      split_ifs with hlen hc hctl
      · exact .notFound [] _ rfl (by simp)
      · exact hskip (hprintable hc) (by rw [List.length_cons] at hlen; omega)
      · exact .found [] c s rfl (by simp) hctl
      · exact hskip (by simpa using hctl) (Nat.zero_le _)
    | succ left =>
      rw [skipPrintable]
      split_ifs with hc hctl
      · exact hskip (hprintable hc) (by omega)
      · exact .found [] c s rfl (by simp) hctl
      · exact hskip (by simpa using hctl) (Nat.zero_le _)

/-- The ranges are those of the characters that end a line. -/
theorem inRanges_eq_isLineCtl (c : UInt8) :
    inRanges [(0, 8), (10, 31), (127, 127)] c = isLineCtl c := by
  revert c
  exact forall_byte (by decide +kernel)

theorem skipText_skips : Skips isLineCtl s (skipText sse42 s) := by
  rw [skipText]
  split_ifs
  · rw [← funext inRanges_eq_isLineCtl]
    exact findchar_fast_skips sse42
  · exact skipPrintable_skips (Nat.zero_le _)

theorem findLineCtl_eq : findLineCtl sse42 s = scanFrom isLineCtl s := by
  have hskip : Skips isLineCtl s _ := skipText_skips sse42
  rw [findLineCtl]
  cases hr : skipText sse42 s with
  | error e =>
    rw [hr] at hskip
    cases hskip
  | ok r =>
    rw [hr] at hskip
    cases hskip with
    | found w c u hs hw hc =>
      rw [hs, scanFrom_eq, checked_append fun b hb => ⟨hw b hb, rfl⟩]
      change _ = advance _ _ _
      rw [advance, if_pos hc]
      rfl
    | notFound w t hs hw =>
      rw [hs, scanFrom_eq, checked_append fun b hb => ⟨hw b hb, rfl⟩, ← scanFrom_eq]
      rfl

end Blocks

/-! ## The pieces of a line -/

/-- A line end, with or without a carriage return, and what comes after it. -/
inductive LineEnd : Ptr → Ptr → Prop
  | lf (t : Ptr) : LineEnd (10 :: t) t
  | crlf (t : Ptr) : LineEnd (13 :: 10 :: t) t

section Lines

variable {s t u : Ptr} (sse42 : Bool)

theorem ADVANCE_TO_SPACE_eq_ok_iff :
    ADVANCE_TO_SPACE s = .ok t ↔ ∃ tok u, s = tok ++ 32 :: u ∧ t = 32 :: u ∧ 32 ∉ tok := by
  rw [ADVANCE_TO_SPACE, advance_eq_ok_iff]
  constructor
  · rintro ⟨w, c, u, rfl, rfl, hc, hw⟩
    obtain rfl : c = 32 := by simpa using hc
    exact ⟨w, u, rfl, rfl, fun h => by simpa using (hw 32 h).1⟩
  · rintro ⟨w, u, rfl, rfl, hw⟩
    refine ⟨w, 32, u, rfl, rfl, by simp, fun b hb => ⟨?_, rfl⟩⟩
    exact decide_eq_false fun h => hw (h ▸ hb)

/-- The ranges are those of the space and of the characters that a token must not have. -/
theorem inRanges_of_token (c : UInt8) (h : inRanges [(0, 32), (127, 127)] c = false) :
    decide (c = 32) = false ∧ isTokenCtl c = false := by
  revert c
  exact forall_byte (by decide +kernel)

theorem ADVANCE_TOKEN_eq : ADVANCE_TOKEN sse42 s = do
    let t ← CHECK_EOF s >>= fun _ => advance (· = 32) isTokenCtl s
    return (⟨s, s.length - t.length⟩, t) := by
  rw [ADVANCE_TOKEN, findAndAdvance_eq sse42 inRanges_of_token]

theorem ADVANCE_TOKEN_eq_ok_iff {tok : Slice} :
    ADVANCE_TOKEN sse42 s = .ok (tok, t) ↔ ∃ w u, s = w ++ 32 :: u ∧ t = 32 :: u ∧
      (∀ b ∈ w, b ≠ 32 ∧ isTokenCtl b = false) ∧ tok = ⟨s, w.length⟩ := by
  simp only [ADVANCE_TOKEN, bind_eq_ok_iff, findAndAdvance_eq_ok_iff sse42 inRanges_of_token]
  constructor
  · rintro ⟨_, ⟨w, c, u, rfl, rfl, hc, hw⟩, h⟩
    cases h
    obtain rfl : c = 32 := by simpa using hc
    refine ⟨w, u, rfl, rfl, fun b hb => ⟨by simpa using (hw b hb).1, (hw b hb).2⟩, ?_⟩
    rw [List.length_append, Nat.add_sub_cancel]
  · rintro ⟨w, u, rfl, rfl, hw, rfl⟩
    refine ⟨_, ⟨w, 32, u, rfl, rfl, by simp, fun b hb => ⟨by simpa using (hw b hb).1, (hw b hb).2⟩⟩,
      ?_⟩
    rw [List.length_append, Nat.add_sub_cancel]
    rfl

theorem ADVANCE_TOKEN_avoids : Avoids (ADVANCE_TOKEN sse42 s) .outOfBounds := by
  rw [ADVANCE_TOKEN_eq]
  exact checked_avoids.bind fun _ _ => avoids_ok _

theorem EXPECT_CHAR_eq_ok_iff {ch : UInt8} : EXPECT_CHAR ch s = .ok t ↔ s = ch :: t := by
  cases s with
  | nil => exact ⟨nofun, nofun⟩
  | cons c s =>
    change (if c ≠ ch then Except.error Halt.failed else .ok s) = _ ↔ _
    rw [List.cons.injEq]
    split_ifs with hc
    · exact ⟨nofun, fun h => absurd h.1 hc⟩
    · rw [Except.ok.injEq, and_iff_right (not_not.mp hc)]

theorem EXPECT_CHAR_avoids {ch : UInt8} : Avoids (EXPECT_CHAR ch s) .outOfBounds := by
  cases s with
  | nil => exact avoids_error (by decide)
  | cons c s =>
    change Avoids (if c ≠ ch then Except.error Halt.failed else .ok s) _
    split_ifs
    · exact avoids_error (by decide)
    · exact avoids_ok _

theorem get_token_to_eol_eq : get_token_to_eol sse42 s = get_token_to_eol false s := by
  rw [get_token_to_eol, get_token_to_eol, findLineCtl_eq, findLineCtl_eq]

theorem get_token_to_eol_eq_ok_iff {tok : Slice} :
    get_token_to_eol sse42 s = .ok (tok, t) ↔ ∃ w u, s = w ++ u ∧ LineEnd u t ∧
      (∀ b ∈ w, isLineCtl b = false) ∧ tok = ⟨s, w.length⟩ := by
  rw [get_token_to_eol, findLineCtl_eq, bind_eq_ok_iff]
  simp only [scanFrom_eq_ok_iff]
  constructor
  · rintro ⟨_, ⟨w, c, u, rfl, rfl, hc, hw⟩, h⟩
    dsimp only at h
    split_ifs at h with hcr hlf
    · obtain ⟨v, hv, h⟩ := bind_eq_ok_iff.mp h
      rw [EXPECT_CHAR_eq_ok_iff] at hv
      cases h
      subst hcr hv
      refine ⟨w, _, rfl, .crlf t, hw, ?_⟩
      simp
      omega
    · cases h
      subst hlf
      refine ⟨w, _, rfl, .lf t, hw, ?_⟩
      rw [List.length_append, Nat.add_sub_cancel]
  · rintro ⟨w, u, rfl, hu, hw, rfl⟩
    cases hu with
    | lf =>
      refine ⟨_, ⟨w, 10, t, rfl, rfl, rfl, hw⟩, ?_⟩
      change Except.ok (Slice.mk _ _, t) = _
      rw [List.length_append, Nat.add_sub_cancel]
    | crlf =>
      refine ⟨_, ⟨w, 13, 10 :: t, rfl, rfl, rfl, hw⟩, ?_⟩
      change Except.ok (Slice.mk _ _, t) = _
      rw [List.length_append, List.length_cons, List.length_cons]
      congr 3
      omega

theorem get_token_to_eol_avoids : Avoids (get_token_to_eol sse42 s) .outOfBounds := by
  rw [get_token_to_eol, findLineCtl_eq, scanFrom_eq]
  refine checked_avoids.bind fun t ht => ?_
  obtain ⟨w, c, u, -, rfl, -⟩ := advance_eq_ok_iff.mp (checked_eq_ok_iff.mp ht)
  dsimp only
  split_ifs
  · exact EXPECT_CHAR_avoids.bind fun _ _ => avoids_ok _
  · exact avoids_ok _
  · exact avoids_error (by decide)

end Lines

end CodingDemo.Dpdk.PicoHttp
