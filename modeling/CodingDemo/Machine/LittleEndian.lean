import Mathlib.Data.Nat.Digits.Defs
import Mathlib.Tactic.Common

/-!
# Numbers in little-endian memory

## Main definitions

* `littleEndian`: a number in a given count of bytes, the lowest byte first
* `ofLittleEndian`: the number in some bytes

## Main results

* `ofLittleEndian_littleEndian`: a number that fits is read back
-/

namespace CodingDemo

variable {k n : ℕ} {bytes : List UInt8}

def littleEndian : ℕ → ℕ → List UInt8
  | 0, _ => []
  | k + 1, n => n.toUInt8 :: littleEndian k (n / 256)

def ofLittleEndian : List UInt8 → ℕ
  | [] => 0
  | b :: bytes => b.toNat + 256 * ofLittleEndian bytes

@[simp] theorem length_littleEndian (k n : ℕ) : (littleEndian k n).length = k := by
  induction k generalizing n with
  | zero => rfl
  | succ k ih => rw [littleEndian, List.length_cons, ih]

theorem ofLittleEndian_littleEndian (h : n < 256 ^ k) :
    ofLittleEndian (littleEndian k n) = n := by
  induction k generalizing n with
  | zero =>
    rw [Nat.pow_zero] at h
    rw [littleEndian, ofLittleEndian]
    omega
  | succ k ih =>
    have hdiv : n / 256 < 256 ^ k := by
      rw [Nat.pow_succ, Nat.mul_comm] at h
      exact Nat.div_lt_of_lt_mul h
    rw [littleEndian, ofLittleEndian, ih hdiv, Nat.toUInt8_eq, UInt8.toNat_ofNat']
    omega

end CodingDemo
