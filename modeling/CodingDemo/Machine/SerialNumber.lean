import Mathlib.Data.BitVec
import Mathlib.Tactic.Common

/-!
# Serial numbers

A counter of `w` bits wraps around. Two of its values are compared by their difference as a signed
number, which is right as long as the counts themselves are less than half of the range apart.

## Main definitions

* `serialDiff`: the signed difference of two serial numbers

## Main results

* `serialDiff_ofNat`: the difference of two counts that are close
* `ofNat_inj_of_close`: close counts have different serial numbers
* `exists_ofNat_of_serialDiff_nonneg`: a serial number that is not behind a count is that of a
  later one
-/

namespace CodingDemo

variable {w m n : ℕ}

def serialDiff (later earlier : BitVec w) : ℤ := (later - earlier).toInt

theorem serialDiff_self (x : BitVec w) : serialDiff x x = 0 := by
  rw [serialDiff, BitVec.sub_self, BitVec.toInt_zero]

/-- The counts are less than half of the range apart. -/
theorem serialDiff_ofNat (hle : -(2 ^ w : ℤ) ≤ (m : ℤ) - n) (hlt : (m : ℤ) - n < 2 ^ w) :
    serialDiff (BitVec.ofNat (w + 1) m) (BitVec.ofNat (w + 1) n) = (m : ℤ) - n := by
  have hpow : ((2 ^ (w + 1) : ℕ) : ℤ) = 2 * 2 ^ w := by
    rw [Nat.pow_succ, Nat.mul_comm]
    push_cast
    rfl
  rw [serialDiff, BitVec.toInt_sub, BitVec.toInt_ofNat', BitVec.toInt_ofNat', Int.sub_bmod_bmod,
    Int.bmod_sub_bmod]
  apply Int.bmod_eq_of_le_mul_two
  · rw [hpow]
    omega
  · rw [hpow]
    omega

theorem ofNat_inj_of_close (hle : -(2 ^ w : ℤ) ≤ (m : ℤ) - n) (hlt : (m : ℤ) - n < 2 ^ w)
    (h : BitVec.ofNat (w + 1) m = BitVec.ofNat (w + 1) n) : m = n := by
  have hdiff := serialDiff_ofNat hle hlt
  rw [h, serialDiff, BitVec.sub_self, BitVec.toInt_zero] at hdiff
  omega

/-- A serial number that is not behind a count is that of a count which is not behind it. -/
theorem exists_ofNat_of_serialDiff_nonneg {x : BitVec (w + 1)}
    (h : 0 ≤ serialDiff x (BitVec.ofNat (w + 1) n)) :
    ∃ m, x = BitVec.ofNat (w + 1) m ∧ n ≤ m ∧ m < n + 2 ^ w := by
  refine ⟨n + (x - BitVec.ofNat (w + 1) n).toNat, ?_, Nat.le_add_right _ _, ?_⟩
  · rw [BitVec.ofNat_add, BitVec.ofNat_toNat, BitVec.setWidth_eq, BitVec.add_comm,
      BitVec.sub_add_cancel]
  · -- The sign bit of the difference is not set.
    have hpos : 2 * (x - BitVec.ofNat (w + 1) n).toNat < 2 ^ (w + 1) :=
      BitVec.toInt_pos_iff.mp h
    rw [Nat.pow_succ] at hpos
    omega

end CodingDemo
