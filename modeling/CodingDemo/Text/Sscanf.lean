import CodingDemo.Text.Decimal
import Mathlib.Data.List.TakeWhile

/-!
# Reading numbers with `sscanf`

A format is a list of directives. `%u` skips blanks, takes a sign and as many digits as there are,
and leaves the rest of the text; other characters have to be next in the text. The first directive
that fails ends the call. The numbers are read by `strtoul`, which reads too large ones as the
greatest one of 64 bits and negates the ones with a minus sign, and are then cut to 32 bits.

## Main definitions

* `strtoul`: the value of a sign and of digits
* `scanUnsigned`: the directive `%u`
* `sscanf`: the numbers that a format reads from a text
* `Figure`: a number as `%u` takes it, with blanks and a sign

## Main results

* `Figure.scanUnsigned_eq`, `exists_figure_of_scanUnsigned`: which texts `%u` reads, and as what
-/

namespace CodingDemo

def isSpace (b : UInt8) : Bool := b = 32 ∨ (9 ≤ b ∧ b ≤ 13)

/-- The digits as a number of 64 bits, negated modulo `2 ^ 64` after a minus sign. -/
def strtoul (negative : Bool) (digits : List UInt8) : ℕ :=
  if 2 ^ 64 ≤ decimalValue digits then 2 ^ 64 - 1
  else if negative then (2 ^ 64 - decimalValue digits) % 2 ^ 64
  else decimalValue digits

/-- The sign at the beginning, if there is one, and the rest. -/
def scanSign : List UInt8 → Bool × List UInt8
  | [] => (false, [])
  | b :: s => if b = 43 then (false, s) else if b = 45 then (true, s) else (false, b :: s)

/-- `%u`: the number, cut to `unsigned int`, and the rest of the text. -/
def scanUnsigned (s : List UInt8) : Option (ℕ × List UInt8) :=
  let (negative, s) := scanSign (s.dropWhile isSpace)
  let digits := s.takeWhile isDigit
  if digits = [] then none
  else some (strtoul negative digits % 2 ^ 32, s.dropWhile isDigit)

inductive Directive
  /-- `%u` -/
  | unsigned
  /-- A character of the format that is not part of a conversion. -/
  | literal (b : UInt8)

/-- The numbers read from the text. The result of the call is how many there are. -/
def sscanf : List Directive → List UInt8 → List ℕ
  | [], _ => []
  | .unsigned :: format, s =>
    match scanUnsigned s with
    | none => []
    | some (n, s) => n :: sscanf format s
  | .literal _ :: _, [] => []
  | .literal b :: format, c :: s => if c = b then sscanf format s else []

variable {s rest : List UInt8} {n : ℕ}

theorem strtoul_false (s : List UInt8) : strtoul false s = min (decimalValue s) (2 ^ 64 - 1) := by
  rw [strtoul, if_neg Bool.false_ne_true]
  split_ifs <;> omega

theorem isSpace_of_isDigit {b : UInt8} (h : isDigit b = true) : isSpace b = false := by
  simp only [isDigit, isSpace, decide_eq_true_eq, decide_eq_false_iff_not, UInt8.le_iff_toNat_le,
    ← UInt8.toNat_inj] at h ⊢
  simp only [UInt8.reduceToNat] at h ⊢
  omega

theorem scanSign_of_isDigit {b : UInt8} (h : isDigit b = true) (s : List UInt8) :
    scanSign (b :: s) = (false, b :: s) := by
  have hplus : b ≠ 43 := fun hb => by simp [hb, isDigit] at h
  have hminus : b ≠ 45 := fun hb => by simp [hb, isDigit] at h
  rw [scanSign, if_neg hplus, if_neg hminus]

/-! ## How a number is written -/

/-- A sign, and whether it is a minus. -/
inductive Sign : List UInt8 → Bool → Prop
  | none : Sign [] false
  | plus : Sign [43] false
  | minus : Sign [45] true

/-- A number as `%u` takes it: blanks, a sign and digits. -/
structure Figure (s : List UInt8) (negative : Bool) (digits : List UInt8) : Prop where
  ne_nil : digits ≠ []
  isDigit_of_mem : ∀ b ∈ digits, isDigit b = true
  exists_sign : ∃ blanks sign, (∀ b ∈ blanks, isSpace b = true) ∧ Sign sign negative ∧
    s = blanks ++ (sign ++ digits)

variable {negative : Bool} {digits : List UInt8}

theorem exists_sign_scanSign (s : List UInt8) :
    ∃ sign, Sign sign (scanSign s).1 ∧ s = sign ++ (scanSign s).2 := by
  cases s with
  | nil => exact ⟨[], .none, rfl⟩
  | cons b s =>
    rw [scanSign]
    split_ifs with hplus hminus
    · exact ⟨[43], .plus, by rw [hplus]; rfl⟩
    · exact ⟨[45], .minus, by rw [hminus]; rfl⟩
    · exact ⟨[], .none, rfl⟩

theorem Sign.scanSign_eq {sign : List UInt8} (h : Sign sign negative) (hne : digits ≠ [])
    (hdigits : ∀ b ∈ digits, isDigit b = true) (rest : List UInt8) :
    scanSign (sign ++ (digits ++ rest)) = (negative, digits ++ rest) := by
  cases h with
  | none =>
    obtain ⟨b, t, rfl⟩ := List.exists_cons_of_ne_nil hne
    exact scanSign_of_isDigit (hdigits b List.mem_cons_self) _
  | plus => rfl
  | minus => rfl

/-- The blanks end where the sign or the digits begin. -/
theorem Sign.dropWhile_isSpace {sign : List UInt8} (h : Sign sign negative) (hne : digits ≠ [])
    (hdigits : ∀ b ∈ digits, isDigit b = true) (rest : List UInt8) :
    (sign ++ (digits ++ rest)).dropWhile isSpace = sign ++ (digits ++ rest) := by
  cases h with
  | none =>
    obtain ⟨b, t, rfl⟩ := List.exists_cons_of_ne_nil hne
    have hb : ¬isSpace b = true := by
      simp [isSpace_of_isDigit (hdigits b List.mem_cons_self)]
    exact List.dropWhile_cons_of_neg hb
  | plus => rfl
  | minus => rfl

/-- A number is read in front of any text that does not continue it. -/
theorem Figure.scanUnsigned_eq (h : Figure s negative digits)
    (hrest : ∀ b ∈ rest.head?, isDigit b = false) :
    scanUnsigned (s ++ rest) = some (strtoul negative digits % 2 ^ 32, rest) := by
  obtain ⟨blanks, sign, hblanks, hsign, rfl⟩ := h.exists_sign
  have hend : rest.takeWhile isDigit = [] ∧ rest.dropWhile isDigit = rest := by
    cases rest with
    | nil => exact ⟨rfl, rfl⟩
    | cons c rest =>
      have hc : ¬isDigit c = true := by simp [hrest c rfl]
      exact ⟨List.takeWhile_cons_of_neg hc, List.dropWhile_cons_of_neg hc⟩
  rw [scanUnsigned, List.append_assoc, List.append_assoc, List.dropWhile_append_of_pos hblanks,
    hsign.dropWhile_isSpace h.ne_nil h.isDigit_of_mem, hsign.scanSign_eq h.ne_nil h.isDigit_of_mem]
  dsimp only
  rw [List.takeWhile_append_of_pos h.isDigit_of_mem, List.dropWhile_append_of_pos h.isDigit_of_mem,
    hend.1, hend.2, List.append_nil, if_neg h.ne_nil]

/-- Nothing else is read. -/
theorem exists_figure_of_scanUnsigned (h : scanUnsigned s = some (n, rest)) :
    ∃ t negative digits, s = t ++ rest ∧ Figure t negative digits ∧
      (∀ b ∈ rest.head?, isDigit b = false) ∧ n = strtoul negative digits % 2 ^ 32 := by
  obtain ⟨sign, hsign, hsplit⟩ := exists_sign_scanSign (s.dropWhile isSpace)
  rw [scanUnsigned] at h
  generalize scanSign (s.dropWhile isSpace) = scanned at h hsign hsplit
  obtain ⟨negative, u⟩ := scanned
  dsimp only at h hsign hsplit
  split_ifs at h with hne
  obtain ⟨rfl, rfl⟩ := Prod.mk.inj (Option.some.inj h)
  refine ⟨s.takeWhile isSpace ++ (sign ++ u.takeWhile isDigit), negative, _, ?_,
    ⟨hne, fun b hb => List.mem_takeWhile_imp hb, _, sign, fun b hb => List.mem_takeWhile_imp hb,
      hsign, rfl⟩, fun b hb => ?_, rfl⟩
  · rw [List.append_assoc, List.append_assoc, List.takeWhile_append_dropWhile, ← hsplit,
      List.takeWhile_append_dropWhile]
  · have hhead := List.head?_dropWhile_not isDigit u
    rw [Option.mem_def.mp hb] at hhead
    simpa using hhead

end CodingDemo
