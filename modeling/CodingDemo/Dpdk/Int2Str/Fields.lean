import CodingDemo.Io.Writer
import CodingDemo.Text.Decimal
import Mathlib.Tactic.IntervalCases

/-!
# Records of fields

The fields of a record are written one after the other, each with a delimiter behind it. Numbers are
looked up in a table of texts and are stored as whole words, whatever is behind the text in the
word; short strings are stored by pieces of 1, 2, 4 and 8 bytes.

## Main definitions

* `InitU16StrMap`: the table of the numerals
* `APPFMT_CharToBuf`, `APPFMT_StrToBuf`, `APPFMT_ShortStrToBuf`, `APPFMT_U8ToBuf`,
  `APPFMT_U16ToBuf`: what writes a field
* `Field`, `toBuf`: a field of a record, and what writes it

## Main results

* `holds_InitU16StrMap`: each entry of the table starts with its numeral
* `emits_toBuf`: a field is written as its text
* `foldlM_toBuf`: a record is written as the texts of its fields
-/

namespace CodingDemo.Int2Str

def APPFMT_DELIMITER : UInt8 := 124

def APPFMT_U16MAP_MAX : ℕ := 65536

/-! ## The table -/

/-- A `uint64_t`: its bytes in memory. -/
structure Word where
  bytes : List UInt8
  length_bytes : bytes.length = 8

structure APPFMT_U16MAP where
  StrLen : UInt8
  Str : Word

def strlen (buf : List UInt8) : ℕ := (buf.takeWhile (· ≠ 0)).length

/-- `snprintf(buf, 8, "%u", i)`. The bytes behind the zero stay as they are. -/
def Word.printU (buf : Word) (i : ℕ) : Word where
  bytes := overwrite buf.bytes 0 ((decimal i).take 7 ++ [0])
  length_bytes := by
    rw [length_overwrite, buf.length_bytes]
    rw [buf.length_bytes, List.length_append, List.length_take, List.length_singleton]
    omega

/-- The buffer and the table after `n` rounds of the loop. -/
def fillU16StrMap (stack : Word) : ℕ → Word × (ℕ → APPFMT_U16MAP)
  | 0 => (stack, fun _ => ⟨0, List.replicate 8 0, rfl⟩)
  | i + 1 =>
    let s := fillU16StrMap stack i
    let buf := s.1.printU i
    (buf, Function.update s.2 i ⟨(strlen buf.bytes).toUInt8, buf⟩)

/-- The buffer is on the stack, and has any contents at first. -/
def InitU16StrMap (stack : Word) : ℕ → APPFMT_U16MAP := (fillU16StrMap stack APPFMT_U16MAP_MAX).2

/-! ## The fields -/

/-- `*(dst)++ = (src); *(dst)++ = APPFMT_DELIMITER`. -/
def APPFMT_CharToBuf (src : UInt8) (w : Writer UInt8) : Option (Writer UInt8) :=
  w.push src >>= fun w => w.push APPFMT_DELIMITER

/-- A read outside of the string is a fault. -/
def load (src : List UInt8) (srcu n : ℕ) : Option (List UInt8) :=
  if srcu + n ≤ src.length then some (slice src srcu (srcu + n)) else none

def APPFMT_StrToBuf (src : List UInt8) (srcLen : ℕ) (w : Writer UInt8) : Option (Writer UInt8) := do
  let bytes ← load src 0 srcLen
  let w ← w.store bytes
  (w.skip srcLen).push APPFMT_DELIMITER

/-- If the bit of `k` is set, `k` bytes are copied and both pointers move on. -/
def copyPiece (src : List UInt8) (n k : ℕ) (p : ℕ × Writer UInt8) : Option (ℕ × Writer UInt8) :=
  if n &&& k ≠ 0 then do
    let bytes ← load src p.1 k
    let dstu ← p.2.store bytes
    some (p.1 + k, dstu.skip k)
  else some p

/-- Pieces of 1, 2, 4 and 8 bytes. Only the copies of the pointers move. -/
def _APPFMT_ShortStrToBufNoDelim (src : List UInt8) (n : ℕ) (w : Writer UInt8) :
    Option (Writer UInt8) :=
  ([0x01, 0x02, 0x04, 0x08].foldlM (fun p k => copyPiece src n k p) (0, w)).map
    fun p => { p.2 with dst := w.dst }

def APPFMT_ShortStrToBufNoDelim (src : List UInt8) (srcLen : ℕ) (w : Writer UInt8) :
    Option (Writer UInt8) :=
  (_APPFMT_ShortStrToBufNoDelim src srcLen w).map fun w => w.skip srcLen

def APPFMT_ShortStrToBuf (src : List UInt8) (srcLen : ℕ) (w : Writer UInt8) :
    Option (Writer UInt8) :=
  APPFMT_ShortStrToBufNoDelim src srcLen w >>= fun w => w.push APPFMT_DELIMITER

/-- The whole word is stored, and the position moves by the length of the text. -/
def numToBuf (u16Map : ℕ → APPFMT_U16MAP) (n : ℕ) (w : Writer UInt8) : Option (Writer UInt8) :=
  (w.store (u16Map n).Str.bytes).map (fun w => w.skip (u16Map n).StrLen.toNat) >>=
    fun w => w.push APPFMT_DELIMITER

def APPFMT_U8ToBuf (u16Map : ℕ → APPFMT_U16MAP) (u8 : UInt8) :
    Writer UInt8 → Option (Writer UInt8) :=
  numToBuf u16Map u8.toNat

def APPFMT_U16ToBuf (u16Map : ℕ → APPFMT_U16MAP) (u16 : UInt16) :
    Writer UInt8 → Option (Writer UInt8) :=
  numToBuf u16Map u16.toNat

/-- A field, with what it is written from. -/
inductive Field where
  | char (src : UInt8)
  | str (src : List UInt8) (srcLen : ℕ)
  | shortStr (src : List UInt8) (srcLen : ℕ)
  | u8 (n : UInt8)
  | u16 (n : UInt16)

def toBuf (u16Map : ℕ → APPFMT_U16MAP) (w : Writer UInt8) : Field → Option (Writer UInt8)
  | .char src => APPFMT_CharToBuf src w
  | .str src srcLen => APPFMT_StrToBuf src srcLen w
  | .shortStr src srcLen => APPFMT_ShortStrToBuf src srcLen w
  | .u8 n => APPFMT_U8ToBuf u16Map n w
  | .u16 n => APPFMT_U16ToBuf u16Map n w

/-! ## What a record should be -/

/-- The strings are as long as their lengths say, and the short ones have at most 15 bytes. -/
def Field.Valid : Field → Prop
  | .str src srcLen => srcLen ≤ src.length
  | .shortStr src srcLen => srcLen ≤ src.length ∧ srcLen ≤ 15
  | _ => True

instance : DecidablePred Field.Valid
  | .str src srcLen => inferInstanceAs (Decidable (srcLen ≤ src.length))
  | .shortStr src srcLen => inferInstanceAs (Decidable (srcLen ≤ src.length ∧ srcLen ≤ 15))
  | .char _ | .u8 _ | .u16 _ => inferInstanceAs (Decidable True)

/-- The text of a field, and the delimiter. -/
def Field.text : Field → List UInt8
  | .char src => [src] ++ [APPFMT_DELIMITER]
  | .str src srcLen => src.take srcLen ++ [APPFMT_DELIMITER]
  | .shortStr src srcLen => src.take srcLen ++ [APPFMT_DELIMITER]
  | .u8 n => decimal n.toNat ++ [APPFMT_DELIMITER]
  | .u16 n => decimal n.toNat ++ [APPFMT_DELIMITER]

/-! ## The entries of the table -/

section Table

variable {stack : Word} {i n : ℕ}

/-- The word starts with the numeral, and the length is that of the numeral. -/
def APPFMT_U16MAP.Holds (entry : APPFMT_U16MAP) (i : ℕ) : Prop :=
  entry.StrLen.toNat = (decimal i).length ∧ entry.Str.bytes.take entry.StrLen.toNat = decimal i

/-- No digit is a zero byte. -/
theorem ne_zero_of_mem_decimal {b : UInt8} (h : b ∈ decimal i) : b ≠ 0 := by
  rintro rfl
  exact absurd (isDigit_of_mem_decimal h) (by decide)

theorem length_decimal_le_seven (hi : i < APPFMT_U16MAP_MAX) : (decimal i).length ≤ 7 :=
  length_decimal_le (by decide) (hi.trans (by decide))

/-- What is printed ends at the first zero, whatever is left behind it. -/
theorem holds_printU (buf : Word) (hi : i < APPFMT_U16MAP_MAX) :
    APPFMT_U16MAP.Holds ⟨(strlen (buf.printU i).bytes).toUInt8, buf.printU i⟩ i := by
  have hlen := length_decimal_le_seven hi
  have hbytes : (buf.printU i).bytes =
      decimal i ++ 0 :: buf.bytes.drop ((decimal i ++ [0]).length) := by
    change overwrite buf.bytes 0 ((decimal i).take 7 ++ [0]) = _
    rw [List.take_of_length_le hlen, overwrite, List.take_zero, List.nil_append, Nat.zero_add,
      List.append_assoc, List.singleton_append]
  have htake : (buf.printU i).bytes.takeWhile (· ≠ 0) = decimal i := by
    rw [hbytes, List.takeWhile_append_of_pos, List.takeWhile_cons_of_neg (by simp),
      List.append_nil]
    exact fun b hb => decide_eq_true (ne_zero_of_mem_decimal hb)
  have hstr : (strlen (buf.printU i).bytes).toUInt8.toNat = (decimal i).length := by
    rw [strlen, htake, Nat.toUInt8_eq, UInt8.toNat_ofNat']
    omega
  refine ⟨hstr, ?_⟩
  dsimp only
  rw [hstr, hbytes, List.take_left]

theorem holds_fillU16StrMap (hn : n ≤ APPFMT_U16MAP_MAX) (hi : i < n) :
    ((fillU16StrMap stack n).2 i).Holds i := by
  induction n with
  | zero => exact absurd hi (Nat.not_lt_zero i)
  | succ n ih =>
    simp only [fillU16StrMap]
    rcases Nat.lt_succ_iff_lt_or_eq.mp hi with hlt | rfl
    · -- The entry is from an earlier round.
      rw [Function.update_of_ne hlt.ne]
      exact ih (by omega) hlt
    · rw [Function.update_self]
      exact holds_printU _ hn

/-- **The table** holds the numerals of all numbers of 16 bits. -/
theorem holds_InitU16StrMap (stack : Word) (hi : i < APPFMT_U16MAP_MAX) :
    (InitU16StrMap stack i).Holds i := by
  rw [InitU16StrMap]
  exact holds_fillU16StrMap le_rfl hi

end Table

/-! ## The text of a field -/

section Text

variable {src : List UInt8} {n k s srcLen : ℕ} {w : Writer UInt8} {p : ℕ × Writer UInt8}
  {stack : Word}

theorem emits_delimiter (s : ℕ) :
    Emits s (fun w : Writer UInt8 => w.push APPFMT_DELIMITER) [APPFMT_DELIMITER] :=
  emits_push s APPFMT_DELIMITER

theorem load_eq_some (h : k + n ≤ src.length) : load src k n = some (slice src k (k + n)) :=
  if_pos h

theorem emits_str (s : ℕ) (h : srcLen ≤ src.length) :
    Emits s (APPFMT_StrToBuf src srcLen) (src.take srcLen ++ [APPFMT_DELIMITER]) := by
  have hload : load src 0 srcLen = some (src.take srcLen) := by
    rw [load_eq_some (by omega), Nat.zero_add]
    rfl
  have hlen : (src.take srcLen).length = srcLen := List.length_take_of_le h
  have hstr := emits_store (s := s) _ hlen.ge (hlen.le.trans (Nat.le_add_right srcLen s))
  rw [List.take_take, min_self] at hstr
  have hemits := hstr.bind (emits_delimiter s)
  have heq : APPFMT_StrToBuf src srcLen = fun w =>
      (w.store (src.take srcLen)).map (fun w => w.skip srcLen) >>=
        fun w => w.push APPFMT_DELIMITER := by
    funext w
    rw [APPFMT_StrToBuf, hload, Option.bind_eq_bind, Option.bind_some]
    cases w.store (src.take srcLen) <;> rfl
  rwa [heq]

/-- What has been copied of a short string that is written from `w` on. -/
structure Copied (s : ℕ) (src : List UInt8) (w : Writer UInt8) (p : ℕ × Writer UInt8) : Prop where
  appends : Writer.Appends s w (src.take p.1) p.2
  le : p.1 ≤ src.length

/-- A piece is copied behind the earlier ones: as many bytes as the bit of its size is worth. -/
theorem Copied.copyPiece (h : Copied s src w p) (hbit : n &&& k = 0 ∨ n &&& k = k)
    (hsrc : p.1 + (n &&& k) ≤ src.length)
    (hroom : w.dst + (p.1 + (n &&& k)) ≤ w.buf.length) :
    ∃ p', Int2Str.copyPiece src n k p = some p' ∧ p'.1 = p.1 + (n &&& k) ∧ Copied s src w p' := by
  rw [Int2Str.copyPiece]
  split_ifs with hset
  · rcases hbit with hzero | hk
    · exact absurd hzero hset
    rw [hk] at hsrc hroom ⊢
    have hpiece : (slice src p.1 (p.1 + k)).length = k := by
      rw [length_slice hsrc, Nat.add_sub_cancel_left]
    have hdst : p.2.dst = w.dst + p.1 := by
      rw [h.appends.dst, List.length_take_of_le h.le]
    obtain ⟨dstu, hdstu, happ⟩ := Writer.appends_store (w := p.2) (s := s) (k := k)
      (slice src p.1 (p.1 + k))
      (by rw [hpiece, hdst, h.appends.length]; omega) hpiece.ge (by omega)
    rw [List.take_of_length_le hpiece.le] at happ
    have htext : src.take p.1 ++ slice src p.1 (p.1 + k) = src.take (p.1 + k) :=
      slice_append_slice (Nat.zero_le _) (Nat.le_add_right _ _)
    refine ⟨(p.1 + k, dstu.skip k), ?_, rfl, ?_, hsrc⟩
    · rw [load_eq_some hsrc, Option.bind_eq_bind, Option.bind_some, hdstu]
      rfl
    · rw [← htext]
      exact h.appends.trans happ
  · rw [not_not.mp hset]
    exact ⟨p, rfl, rfl, h⟩

/-- Pieces of any sizes, one behind the other. -/
theorem Copied.foldlM (h : Copied s src w p) {ks : List ℕ}
    (hbit : ∀ k ∈ ks, n &&& k = 0 ∨ n &&& k = k)
    (hsrc : p.1 + (ks.map (n &&& ·)).sum ≤ src.length)
    (hroom : w.dst + (p.1 + (ks.map (n &&& ·)).sum) ≤ w.buf.length) :
    ∃ p', ks.foldlM (fun p k => Int2Str.copyPiece src n k p) p = some p' ∧
      p'.1 = p.1 + (ks.map (n &&& ·)).sum ∧ Copied s src w p' := by
  induction ks generalizing p with
  | nil => exact ⟨p, rfl, rfl, h⟩
  | cons k ks ih =>
    obtain ⟨hk, hks⟩ := List.forall_mem_cons.mp hbit
    rw [List.map_cons, List.sum_cons, ← Nat.add_assoc p.1] at hsrc hroom ⊢
    obtain ⟨p', hp', hp'1, hc'⟩ := h.copyPiece hk (by omega) (by omega)
    rw [← hp'1] at hsrc hroom ⊢
    obtain ⟨p'', hp'', hp''1, hc''⟩ := ih hc' hks hsrc hroom
    refine ⟨p'', ?_, hp''1, hc''⟩
    rw [List.foldlM_cons, hp', Option.bind_eq_bind, Option.bind_some, hp'']

/-- The sizes of the pieces of a length of at most 15 bytes. -/
theorem pieces_eq (h : n ≤ 15) :
    (∀ k ∈ [0x01, 0x02, 0x04, 0x08], n &&& k = 0 ∨ n &&& k = k) ∧
      ([0x01, 0x02, 0x04, 0x08].map (n &&& ·)).sum = n := by
  interval_cases n <;> decide

theorem emits_shortStrNoDelim (s : ℕ) (h : srcLen ≤ src.length) (hshort : srcLen ≤ 15) :
    Emits s (APPFMT_ShortStrToBufNoDelim src srcLen) (src.take srcLen) := by
  intro w hroom
  rw [List.length_take_of_le h] at hroom
  obtain ⟨hbit, hsum⟩ := pieces_eq hshort
  have hstart : Copied s src w (0, w) := ⟨.refl s w, Nat.zero_le _⟩
  obtain ⟨p, hp, hall, hcopied⟩ := hstart.foldlM hbit
    (by rw [hsum]; omega) (by rw [hsum]; omega)
  rw [hsum, Nat.zero_add] at hall
  have happ := hcopied.appends
  rw [hall] at happ
  -- The position moves by the whole length, to where the copy of the pointer has got.
  have hdst : p.2.dst = w.dst + srcLen := by rw [happ.dst, List.length_take_of_le h]
  refine ⟨p.2, ?_, happ⟩
  rw [APPFMT_ShortStrToBufNoDelim, _APPFMT_ShortStrToBufNoDelim, hp, Option.map_some,
    Option.map_some, Writer.skip, ← hdst]

theorem emits_num (hn : n < APPFMT_U16MAP_MAX) :
    Emits 8 (numToBuf (InitU16StrMap stack) n) (decimal n ++ [APPFMT_DELIMITER]) := by
  obtain ⟨hlen, htext⟩ := holds_InitU16StrMap stack hn
  have hword := (InitU16StrMap stack n).Str.length_bytes
  have hle := length_decimal_le_seven hn
  have hnum := emits_store (s := 8) (k := (InitU16StrMap stack n).StrLen.toNat)
    (InitU16StrMap stack n).Str.bytes (by omega) (by omega)
  rw [htext] at hnum
  exact hnum.bind (emits_delimiter 8)

/-- Each field is written as its text. -/
theorem emits_toBuf (stack : Word) {f : Field} (h : f.Valid) :
    Emits 8 (fun w => toBuf (InitU16StrMap stack) w f) f.text := by
  cases f with
  | char src => exact (emits_push 8 src).bind (emits_delimiter 8)
  | str src srcLen => exact emits_str 8 h
  | shortStr src srcLen => exact (emits_shortStrNoDelim 8 h.1 h.2).bind (emits_delimiter 8)
  | u8 n => exact emits_num (n.toNat_lt.trans (by decide))
  | u16 n => exact emits_num n.toNat_lt

/-- **A record** of any fields in a buffer with 8 bytes of slack: up to the final position it is the
texts of the fields, and what is more than 8 bytes behind that is not written. -/
theorem foldlM_toBuf (stack : Word) (fields : List Field) (w : Writer UInt8)
    (hvalid : ∀ f ∈ fields, f.Valid)
    (hslack : w.dst + (fields.flatMap Field.text).length + 8 ≤ w.buf.length) :
    ∃ w', fields.foldlM (toBuf (InitU16StrMap stack)) w = some w' ∧
      w'.dst = w.dst + (fields.flatMap Field.text).length ∧
      w'.buf.take w'.dst = w.buf.take w.dst ++ fields.flatMap Field.text ∧
      w'.buf.length = w.buf.length ∧ w'.buf.drop (w'.dst + 8) = w.buf.drop (w'.dst + 8) := by
  obtain ⟨w', hw', happ⟩ := emits_foldlM (fun f hf => emits_toBuf stack (hvalid f hf)) w hslack
  exact ⟨w', hw', happ.dst, happ.take, happ.length, happ.drop⟩

/-- `3|12345|a1b2c3d|`, at the start of a buffer that just has the slack. -/
theorem foldlM_toBuf_three :
    ∃ w', [.char 51, .u16 12345, .shortStr [97, 49, 98, 50, 99, 51, 100, 0] 7].foldlM
        (toBuf (InitU16StrMap ⟨List.replicate 8 255, rfl⟩)) ⟨List.replicate 24 1, 0⟩ = some w' ∧
      w'.dst = 16 ∧ w'.buf.take w'.dst =
        [51, 124, 49, 50, 51, 52, 53, 124, 97, 49, 98, 50, 99, 51, 100, 124] := by
  have htext : [Field.char 51, .u16 12345, .shortStr [97, 49, 98, 50, 99, 51, 100, 0] 7].flatMap
      Field.text = [51, 124, 49, 50, 51, 52, 53, 124, 97, 49, 98, 50, 99, 51, 100, 124] := by
    decide +kernel
  obtain ⟨w', hw', hdst, htake, -, -⟩ := foldlM_toBuf ⟨List.replicate 8 255, rfl⟩
    [.char 51, .u16 12345, .shortStr [97, 49, 98, 50, 99, 51, 100, 0] 7]
    ⟨List.replicate 24 1, 0⟩ (by decide) (by rw [htext]; decide)
  rw [htext] at hdst htake
  exact ⟨w', hw', hdst, htake⟩

end Text

end CodingDemo.Int2Str
