import Mathlib.Data.Nat.Digits.Lemmas

/-!
# Decimal numerals

The decimal numeral of a number as a string of bytes, its value, and the numeral at the end of a
text.

## Main definitions

* `decimal`: the numeral of a number
* `decimalValue`: the value of a string of digits
* `trailingDigits`: the digits at the end of a text

## Main results

* `decimalValue_decimal`: the value of the numeral of a number
* `trailingDigits_append`: the numeral that follows a text is found again
-/

namespace CodingDemo

def isDigit (b : UInt8) : Bool := 48 ≤ b ∧ b ≤ 57

/-- The digit of a number below ten. -/
def digitByte (d : ℕ) : UInt8 := (48 + d).toUInt8

/-- The numeral of a number, the most significant digit first. -/
def decimal (n : ℕ) : List UInt8 :=
  if n = 0 then [digitByte 0] else (Nat.digits 10 n).reverse.map digitByte

/-- The value of a string of digits. -/
def decimalValue (s : List UInt8) : ℕ := s.foldl (fun n b => 10 * n + (b.toNat - 48)) 0

/-- The digits after the last byte that is none. -/
def trailingDigits (s : List UInt8) : List UInt8 := (s.reverse.takeWhile isDigit).reverse

variable {n d : ℕ} {s t : List UInt8} {b : UInt8}

theorem toNat_digitByte (hd : d < 10) : (digitByte d).toNat = 48 + d := by
  unfold digitByte
  rw [Nat.toUInt8_eq, UInt8.toNat_ofNat']
  omega

theorem isDigit_digitByte (hd : d < 10) : isDigit (digitByte d) = true := by
  have h := toNat_digitByte hd
  unfold isDigit
  rw [decide_eq_true_iff, UInt8.le_iff_toNat_le, UInt8.le_iff_toNat_le, h]
  show 48 ≤ 48 + d ∧ 48 + d ≤ 57
  omega

theorem decimal_ne_nil (n : ℕ) : decimal n ≠ [] := by
  unfold decimal
  split_ifs with hn
  · exact List.cons_ne_nil _ _
  · simpa [Nat.digits_eq_nil_iff_eq_zero] using hn

theorem isDigit_of_mem_decimal (h : b ∈ decimal n) : isDigit b = true := by
  unfold decimal at h
  split_ifs at h with hn
  · rw [List.mem_singleton.mp h]
    exact isDigit_digitByte (by decide)
  · obtain ⟨d, hd, rfl⟩ := List.mem_map.mp h
    exact isDigit_digitByte (Nat.digits_lt_base (by decide) (List.mem_reverse.mp hd))

/-- The value of the numeral of a number. -/
theorem decimalValue_decimal (n : ℕ) : decimalValue (decimal n) = n := by
  unfold decimal
  split_ifs with hn
  · rw [hn]
    rfl
  -- the fold over the digits is that of `Nat.ofDigits`
  · have hfold : ∀ l : List ℕ, (∀ d ∈ l, d < 10) →
        decimalValue (l.reverse.map digitByte) = Nat.ofDigits 10 l := by
      intro l hl
      induction l with
      | nil => rfl
      | cons d l ih =>
        have hd := toNat_digitByte (hl d List.mem_cons_self)
        have ih := ih fun d hd => hl d (List.mem_cons_of_mem _ hd)
        unfold decimalValue at ih ⊢
        rw [List.reverse_cons, List.map_append, List.foldl_append, ih, Nat.ofDigits_cons]
        simp only [List.map_cons, List.map_nil, List.foldl_cons, List.foldl_nil, hd]
        omega
    rw [hfold _ fun d hd => Nat.digits_lt_base (by decide) hd, Nat.ofDigits_digits]

theorem length_decimal_le {k : ℕ} (hk : 0 < k) (hn : n < 10 ^ k) : (decimal n).length ≤ k := by
  unfold decimal
  split_ifs with hzero
  · exact hk
  · rw [List.length_map, List.length_reverse]
    exact (Nat.digits_length_le_iff (by decide) n).mpr hn

/-- The numeral that follows a text is found again. -/
theorem trailingDigits_append (hb : isDigit b = false) (n : ℕ) :
    trailingDigits (s ++ b :: decimal n) = decimal n := by
  have hall : ∀ a ∈ (decimal n).reverse, isDigit a = true :=
    fun a ha => isDigit_of_mem_decimal (List.mem_reverse.mp ha)
  unfold trailingDigits
  rw [List.reverse_append, List.reverse_cons, List.append_assoc,
    List.takeWhile_append_of_pos hall, List.singleton_append,
    List.takeWhile_cons_of_neg (by simp [hb]), List.append_nil, List.reverse_reverse]

end CodingDemo
