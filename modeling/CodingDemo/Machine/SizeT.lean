import Mathlib.Tactic.Common
import Mathlib.Tactic.Linarith

/-!
# Unsigned sizes

Arithmetic on values of `size_t` is modulo `2 ^ 64`, also when an `int` is one of the operands.

## Main definitions

* `sizeT`: the conversion of an integer to `size_t`
-/

namespace CodingDemo

/-- The conversion of an integer to `size_t`. -/
def sizeT (z : ℤ) : ℕ := (z % 2 ^ 64).toNat

variable {z : ℤ} {n m : ℕ}

theorem natCast_sizeT (z : ℤ) : (sizeT z : ℤ) = z % 2 ^ 64 :=
  Int.toNat_of_nonneg (Int.emod_nonneg z (by decide))

theorem natCast_sizeT_of_nonneg (hnonneg : 0 ≤ z) (hlt : z < 2 ^ 64) : (sizeT z : ℤ) = z := by
  rw [natCast_sizeT, Int.emod_eq_of_lt hnonneg hlt]

theorem sizeT_natCast (h : n < 2 ^ 64) : sizeT n = n := by
  have hcast : (sizeT n : ℤ) = n := natCast_sizeT_of_nonneg (Int.natCast_nonneg n) (by omega)
  exact_mod_cast hcast

theorem sizeT_sub (hle : m ≤ n) (h : n < 2 ^ 64) : sizeT (n - m) = n - m := by
  rw [← Nat.cast_sub hle, sizeT_natCast (by omega)]

end CodingDemo
