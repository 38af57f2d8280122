import Mathlib.Data.Int.Log
import Mathlib.Data.Rat.Floor

/-!
# Floating point numbers

The numbers of type `double` have 53 binary digits. An operation rounds its exact result to the
nearest number, and to the one whose last digit is even if there are two.

## Main definitions

* `Double`: the finite numbers
* `Double.ofRat`: the nearest number
* `Double.toInt`: the conversion to an integer

## Main results

* `Double.toInt_mul_nonneg`: a product of numbers that are not negative
-/

namespace CodingDemo

/-- The nearest integer, and the even one if there are two. -/
def roundEven (x : ℚ) : ℤ :=
  if x - ⌊x⌋ < 1 / 2 ∨ x - ⌊x⌋ = 1 / 2 ∧ Even ⌊x⌋ then ⌊x⌋ else ⌊x⌋ + 1

/-- The exponent of the last digit of the numbers near `x`. -/
def lastPlace (x : ℚ) : ℤ := max (Int.log 2 |x| - 52) (-1074)

variable {x y : ℚ}

theorem roundEven_nonneg (h : 0 ≤ x) : 0 ≤ roundEven x := by
  have hfloor : 0 ≤ ⌊x⌋ := Int.floor_nonneg.mpr h
  unfold roundEven
  split_ifs
  · exact hfloor
  · exact hfloor.trans (lt_add_one _).le

theorem abs_roundEven_le {n : ℤ} (h : |x| < n) : |roundEven x| ≤ n := by
  obtain ⟨hlow, hhigh⟩ := abs_lt.mp h
  have hle : -n ≤ ⌊x⌋ := by
    apply Int.le_floor.mpr
    rw [Int.cast_neg]
    exact hlow.le
  have hlt : ⌊x⌋ < n := Int.floor_lt.mpr hhigh
  unfold roundEven
  apply abs_le.mpr
  split_ifs
  · exact ⟨hle, hlt.le⟩
  · exact ⟨hle.trans (lt_add_one _).le, hlt⟩

/-- Counted in last places, there are 53 digits. -/
theorem abs_div_lastPlace_lt (x : ℚ) : |x / 2 ^ lastPlace x| < 2 ^ 53 := by
  have hpos : (0 : ℚ) < 2 ^ lastPlace x := zpow_pos two_pos _
  have hlog : |x| < 2 ^ (Int.log 2 |x| + 1) := by
    have h := Int.lt_zpow_succ_log_self (b := 2) one_lt_two |x|
    rwa [Nat.cast_ofNat] at h
  have hle : Int.log 2 |x| + 1 ≤ 53 + lastPlace x := by
    unfold lastPlace
    omega
  rw [abs_div, abs_of_pos hpos, div_lt_iff₀ hpos]
  calc |x| < 2 ^ (Int.log 2 |x| + 1) := hlog
    _ ≤ 2 ^ (53 + lastPlace x) := zpow_le_zpow_right₀ one_le_two hle
    _ = 2 ^ 53 * 2 ^ lastPlace x := zpow_add₀ two_ne_zero 53 _

/-- A finite number of type `double`. There is no greatest exponent: an infinite result has no
conversion to an integer. -/
structure Double where
  value : ℚ
  digits : ∃ m e : ℤ, |m| ≤ 2 ^ 53 ∧ -1074 ≤ e ∧ value = m * 2 ^ e
  deriving DecidableEq

namespace Double

/-- The number that `x` is rounded to. -/
def ofRat (x : ℚ) : Double where
  value := roundEven (x / 2 ^ lastPlace x) * 2 ^ lastPlace x
  digits := by
    refine ⟨_, _, abs_roundEven_le ?_, le_max_right _ _, rfl⟩
    exact_mod_cast abs_div_lastPlace_lt x

instance (n : ℕ) : OfNat Double n := ⟨ofRat n⟩

instance : OfScientific Double := ⟨fun m s e => ofRat (OfScientific.ofScientific m s e)⟩

instance : Mul Double := ⟨fun x y => ofRat (x.value * y.value)⟩

instance : LT Double := ⟨fun x y => x.value < y.value⟩

instance (x y : Double) : Decidable (x < y) := inferInstanceAs (Decidable (x.value < y.value))

/-- The conversion to an integer rounds towards zero. -/
def toInt (x : Double) : ℤ := x.value.num.tdiv x.value.den

theorem value_ofRat_nonneg (h : 0 ≤ x) : 0 ≤ (ofRat x).value := by
  have hpos : (0 : ℚ) < 2 ^ lastPlace x := zpow_pos two_pos _
  apply mul_nonneg _ hpos.le
  exact Int.cast_nonneg (roundEven_nonneg (div_nonneg h hpos.le))

@[simp] theorem value_zero : (0 : Double).value = 0 := by
  have hzero : roundEven 0 = 0 := by
    unfold roundEven
    rw [Int.floor_zero, if_pos (.inl (by norm_num))]
  show (roundEven (((0 : ℕ) : ℚ) / 2 ^ lastPlace ((0 : ℕ) : ℚ)) : ℚ) * _ = 0
  rw [Nat.cast_zero, zero_div, hzero, Int.cast_zero, zero_mul]

theorem zero_lt_iff {x : Double} : 0 < x ↔ 0 < x.value := by
  rw [← value_zero]
  rfl

theorem toInt_nonneg {x : Double} (h : 0 ≤ x.value) : 0 ≤ x.toInt :=
  Int.tdiv_nonneg (Rat.num_nonneg.mpr h) (Int.natCast_nonneg _)

theorem toInt_mul_nonneg {x y : Double} (hx : 0 ≤ x.value) (hy : 0 ≤ y.value) :
    0 ≤ (x * y).toInt :=
  toInt_nonneg (value_ofRat_nonneg (mul_nonneg hx hy))

/-- A number that is close to 249 millionths, times a million, is less than 249. -/
example : ((0.000249 : Double) * 1000000).toInt = 248 := by decide +kernel

end Double

end CodingDemo
