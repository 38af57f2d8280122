import Mathlib.Algebra.Order.Group.Int
import Mathlib.Data.Int.Init
import Mathlib.Tactic.Linarith

/-!
# Signed integers

The values of `int` are those of 32 bits in two's complement. An increment of the greatest one has
no result; a conversion reduces modulo `2 ^ 32`. Division and remainder round towards zero.

## Main definitions

* `INT_MIN`, `INT_MAX`, `IsInt`: the range of `int`
* `intSucc`: `i + 1`, if it does not overflow
* `intT`: the conversion of an integer to `int`

## Main results

* `intT_eq_self`: the values of `int` stay as they are
* `tmod_nonneg_iff`: when a remainder can be an index
-/

namespace CodingDemo

def INT_MIN : ℤ := -2 ^ 31

def INT_MAX : ℤ := 2 ^ 31 - 1

def IsInt (z : ℤ) : Prop := INT_MIN ≤ z ∧ z ≤ INT_MAX

instance (z : ℤ) : Decidable (IsInt z) := inferInstanceAs (Decidable (_ ∧ _))

/-- `i + 1`. Nothing is known about a program after it has overflowed. -/
def intSucc (i : ℤ) : Option ℤ := if i < INT_MAX then some (i + 1) else none

/-- The conversion of an integer to `int`. -/
def intT (z : ℤ) : ℤ := z.bmod (2 ^ 32)

variable {z i : ℤ}

theorem intSucc_of_lt (h : i < INT_MAX) : intSucc i = some (i + 1) := if_pos h

theorem intSucc_INT_MAX : intSucc INT_MAX = none := if_neg (lt_irrefl _)

theorem isInt_intT (z : ℤ) : IsInt (intT z) := by
  have hmin : -(2 ^ 31 : ℤ) ≤ z.bmod (2 ^ 32) := Int.le_bmod (by decide)
  have hmax : z.bmod (2 ^ 32) < 2 ^ 31 := Int.bmod_lt (by decide)
  exact ⟨hmin, Int.le_sub_one_of_lt hmax⟩

theorem intT_eq_self (h : IsInt z) : intT z = z := by
  have hmax : z < 2 ^ 31 := Int.lt_of_le_sub_one h.2
  exact Int.bmod_eq_of_le h.1 hmax

/-- A remainder is not negative if the dividend is not, or is a multiple of the divisor. -/
theorem tmod_nonneg_iff (key n : ℤ) : 0 ≤ key.tmod n ↔ 0 ≤ key ∨ n ∣ key := by
  constructor
  · intro h
    refine or_iff_not_imp_left.mpr fun hneg => Int.dvd_of_tmod_eq_zero ?_
    have hneg' : 0 ≤ (-key).tmod n := Int.tmod_nonneg n (by omega)
    rw [Int.neg_tmod] at hneg'
    omega
  · rintro (h | h)
    · exact Int.tmod_nonneg n h
    · exact ge_of_eq (Int.tmod_eq_zero_of_dvd h)

end CodingDemo
