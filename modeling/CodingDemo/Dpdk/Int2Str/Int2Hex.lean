import CodingDemo.Machine.IntT
import CodingDemo.Text.Ascii
import Mathlib.Data.Nat.Digits.Lemmas

/-!
# Hexadecimal numerals

`Int2Hex` divides as long as the number is positive and writes the remainders backwards; `Int2Hex2`
prints with `%X`, which takes the bits of an `int` as an `unsigned int`.

## Main definitions

* `Int2Hex`, `Int2Hex2`: the two converters
* `Agree`: both write the same text and return the same length

## Main results

* `Int2Hex_eq`: what `Int2Hex` writes
* `agree_iff`: they agree on the positive numbers only
-/

namespace CodingDemo.Int2Str

def hexArray : List UInt8 := asciiBytes "0123456789ABCDEF"

/-- The remainders, the last digit first. The array has room for `room` more of them; it is a fault
to leave it. -/
def remainders : ℕ → ℤ → Option (List ℤ)
  | 0, num => if num > 0 then none else some []
  | room + 1, num =>
    if num > 0 then (remainders room (num.tdiv 16)).map (num.tmod 16 :: ·) else some []

def hexAt (hex : List UInt8) (m : ℤ) : Option UInt8 := if 0 ≤ m then hex[m.toNat]? else none

/-- What is written to `dest`, and its length. -/
def Int2Hex (hex : List UInt8) (num : ℤ) : Option (List UInt8 × ℕ) := do
  let a ← remainders 16 num
  let dest ← a.reverse.mapM (hexAt hex)
  some (dest, dest.length)

def upperDigit (d : ℕ) : UInt8 := if d < 10 then (48 + d).toUInt8 else (55 + d).toUInt8

/-- The text of `%X`. -/
def formatX (n : ℕ) : List UInt8 :=
  if n = 0 then [upperDigit 0] else (Nat.digits 16 n).reverse.map upperDigit

/-- What `sprintf` writes, with the zero behind it, and the length of the text. -/
def Int2Hex2 (num : ℤ) : List UInt8 × ℕ :=
  let text := formatX (num % 2 ^ 32).toNat
  (text ++ [0], text.length)

/-- Both write the same characters, the zero behind them apart, and return the same length. -/
def Agree (num : ℤ) : Prop :=
  Int2Hex hexArray num = some ((Int2Hex2 num).1.take (Int2Hex2 num).2, (Int2Hex2 num).2)

instance (num : ℤ) : Decidable (Agree num) := inferInstanceAs (Decidable (_ = _))

variable {num : ℤ} {room n d : ℕ} {ds : List ℕ}

/-- The remainders of the loop are the digits of the number. A number that is not positive has
none. -/
theorem remainders_eq (h : num < 16 ^ room) :
    remainders room num = some ((Nat.digits 16 num.toNat).map Int.ofNat) := by
  induction room generalizing num with
  | zero =>
    have hneg : ¬num > 0 := by
      rw [pow_zero] at h
      omega
    rw [remainders, if_neg hneg, Int.toNat_eq_zero.mpr (not_lt.mp hneg), Nat.digits_zero]
    rfl
  | succ room ih =>
    rw [remainders]
    split_ifs with hpos
    · lift num to ℕ using hpos.le
      have hdiv : (num : ℤ).tdiv 16 = (num / 16 : ℕ) := (Int.ofNat_tdiv num 16).symm
      have hmod : (num : ℤ).tmod 16 = (num % 16 : ℕ) := (Int.ofNat_tmod num 16).symm
      have hlt : ((num / 16 : ℕ) : ℤ) < 16 ^ room := by
        rw [pow_succ] at h
        omega
      rw [hdiv, ih hlt, hmod, Int.toNat_natCast, Int.toNat_natCast,
        Nat.digits_def' (by decide) (Int.natCast_pos.mp hpos)]
      rfl
    · rw [Int.toNat_eq_zero.mpr (not_lt.mp hpos), Nat.digits_zero]
      rfl

theorem hexAt_hexArray (hd : d < 16) : hexAt hexArray (Int.ofNat d) = some (upperDigit d) := by
  have hall : ∀ d < 16, hexAt hexArray (Int.ofNat d) = some (upperDigit d) := by decide
  exact hall d hd

theorem mapM_hexAt (h : ∀ d ∈ ds, d < 16) :
    (ds.map Int.ofNat).mapM (hexAt hexArray) = some (ds.map upperDigit) := by
  induction ds with
  | nil => rfl
  | cons d ds ih =>
    obtain ⟨hd, hds⟩ := List.forall_mem_cons.mp h
    rw [List.map_cons, List.mapM_cons, hexAt_hexArray hd, ih hds]
    rfl

/-- **What `Int2Hex` writes**: the digits of a positive number, and nothing otherwise. -/
theorem Int2Hex_eq (h : IsInt num) :
    Int2Hex hexArray num = some ((Nat.digits 16 num.toNat).reverse.map upperDigit,
      (Nat.digits 16 num.toNat).length) := by
  have hlt : num < 16 ^ 16 := h.2.trans_lt (by decide)
  have hdigits : ∀ d ∈ (Nat.digits 16 num.toNat).reverse, d < 16 := fun d hd =>
    Nat.digits_lt_base (by decide) (List.mem_reverse.mp hd)
  rw [Int2Hex, remainders_eq hlt, Option.bind_eq_bind, Option.bind_some, ← List.map_reverse,
    mapM_hexAt hdigits, Option.bind_eq_bind, Option.bind_some, List.length_map,
    List.length_reverse]

theorem take_Int2Hex2 (num : ℤ) :
    (Int2Hex2 num).1.take (Int2Hex2 num).2 = formatX (num % 2 ^ 32).toNat := List.take_left

theorem length_formatX_pos (n : ℕ) : 0 < (formatX n).length := by
  rw [formatX]
  split_ifs with hn
  · exact Nat.one_pos
  · rw [List.length_map, List.length_reverse]
    exact List.length_pos_iff.mpr (Nat.digits_ne_nil_iff_ne_zero.mpr hn)

/-- **The two converters** agree on the positive numbers and on no others: nothing is written for 0
and the negative numbers. -/
theorem agree_iff (h : IsInt num) : Agree num ↔ 0 < num := by
  rw [Agree, Int2Hex_eq h, take_Int2Hex2]
  have hlen : (Int2Hex2 num).2 = (formatX (num % 2 ^ 32).toNat).length := rfl
  constructor
  · intro heq
    have hsnd := (Prod.mk.inj (Option.some.inj heq)).2
    have hpos := length_formatX_pos (num % 2 ^ 32).toNat
    rw [← hlen, ← hsnd] at hpos
    by_contra hneg
    rw [Int.toNat_eq_zero.mpr (not_lt.mp hneg), Nat.digits_zero] at hpos
    exact absurd hpos (Nat.lt_irrefl 0)
  · intro hpos
    -- The bits of a positive number are those of the number itself.
    have hmod : num % 2 ^ 32 = num := Int.emod_eq_of_lt hpos.le (h.2.trans_lt (by decide))
    have hne : num.toNat ≠ 0 := by omega
    rw [hlen, hmod, formatX, if_neg hne, List.length_map, List.length_reverse]

/-- The greatest `int`. -/
theorem agree_INT_MAX : IsInt INT_MAX ∧ Agree INT_MAX :=
  ⟨by decide, (agree_iff (by decide : IsInt INT_MAX)).mpr (by decide)⟩

/-- `%X` prints a 0, and `Int2Hex` nothing. -/
theorem not_forall_agree : ¬∀ num, IsInt num → Agree num := by
  intro h
  exact absurd (h 0 (by decide)) (by decide)

end CodingDemo.Int2Str
