import CodingDemo.Hash.CuckooHash
import CodingDemo.Machine.IntT
import Mathlib.NumberTheory.LucasLehmer

/-!
# The size of a new cuckoo hash table

The arrays of a new table get a prime size. The loops that look for it count in `int`, and end
before they overflow because `INT_MAX` is prime.

## Main definitions

* `Signed.isPrime`, `Signed.getMinPrime`: the loops of `isPrime` and `getMinPrime`; an overflow has
  no result

## Main results

* `isPrime_iff_prime`: the test is right from 2 on
* `Signed.getMinPrime_eq`: the loop ends without an overflow
* `Signed.getMinPrime_isLeast_iff`: from which values the least prime is found
-/

namespace CodingDemo.Cuckoo

/-- The square root is compared by squares. -/
theorem isPrime_natCast_iff {n : ℕ} (hn : 0 < n) :
    isPrime n = true ↔ ∀ i, 2 ≤ i → i * i ≤ n → ¬i ∣ n := by
  simp only [isPrime, Bool.and_eq_true, decide_eq_true_eq, List.all_eq_true, List.mem_range'_1,
    Int.toNat_natCast, Int.natCast_pos.mpr hn, true_and]
  refine forall_congr' fun i => ?_
  have hdvd : (n : ℤ) % i ≠ 0 ↔ ¬i ∣ n := by
    rw [ne_eq, ← Int.dvd_iff_emod_eq_zero, Int.natCast_dvd_natCast]
  have hrange : 2 ≤ i ∧ i < 2 + (Nat.sqrt n - 1) ↔ 2 ≤ i ∧ i * i ≤ n := by
    rw [← Nat.le_sqrt]
    omega
  rw [hdvd, hrange, and_imp]

theorem isPrime_iff_prime {p : ℕ} (hp : 2 ≤ p) : isPrime p = true ↔ p.Prime := by
  simp only [isPrime_natCast_iff (Nat.zero_lt_of_lt hp), Nat.prime_def_le_sqrt, hp, true_and,
    Nat.le_sqrt]

namespace Signed

/-- The rest of the loop of `isPrime`. -/
def noDivisorFrom (value i : ℤ) : Option Bool :=
  if i * i ≤ value then
    if value.tmod i = 0 then some false
    else if h : i < INT_MAX then noDivisorFrom value (i + 1)
    else none
  else some true
termination_by (INT_MAX - i).toNat
decreasing_by omega

def isPrime (value : ℤ) : Option Bool :=
  if value ≤ 0 then some false else noDivisorFrom value 2

def getMinPrime (value : ℤ) : Option ℤ := do
  if ← isPrime value then return value
  if h : value < INT_MAX then getMinPrime (value + 1) else none
termination_by (INT_MAX - value).toNat
decreasing_by omega

variable {value : ℤ}

theorem exists_noDivisorFrom {i : ℤ} (hvalue : value ≤ INT_MAX) (hi : 2 ≤ i) :
    ∃ b, noDivisorFrom value i = some b ∧
      (b = true ↔ ∀ j, i ≤ j → j * j ≤ value → ¬j ∣ value) := by
  fun_induction noDivisorFrom value i with
  | case1 i hle hmod =>
    refine ⟨false, rfl, iff_of_false Bool.false_ne_true fun h => ?_⟩
    exact h i le_rfl hle (Int.dvd_of_tmod_eq_zero hmod)
  | case2 i hle hmod hlt ih =>
    obtain ⟨b, heq, hiff⟩ := ih (by omega)
    refine ⟨b, heq, hiff.trans ⟨fun h j hj hsq => ?_, fun h j hj => h j (by omega)⟩⟩
    rcases hj.eq_or_lt with rfl | hj
    · exact fun hdvd => hmod (Int.tmod_eq_zero_of_dvd hdvd)
    · exact h j (by omega) hsq
  | case3 i hle hmod hlt =>
    -- the square of the counter is at most the value
    have hsq : 2 * i ≤ i * i := by gcongr
    omega
  | case4 i hle =>
    refine ⟨true, rfl, iff_of_true rfl fun j hj hsq => absurd hsq ?_⟩
    have hsq : i * i ≤ j * j := mul_self_le_mul_self (by omega) hj
    omega

/-- The two loops test the same. -/
theorem isPrime_eq (hvalue : value ≤ INT_MAX) : isPrime value = some (Cuckoo.isPrime value) := by
  rw [isPrime]
  split_ifs with hpos
  · rw [Cuckoo.isPrime, decide_eq_false (by omega), Bool.false_and]
  · obtain ⟨n, rfl⟩ := Int.eq_ofNat_of_zero_le (le_of_not_ge hpos)
    obtain ⟨b, heq, hiff⟩ := exists_noDivisorFrom hvalue le_rfl
    rw [heq, Option.some_inj, Bool.eq_iff_iff, hiff, isPrime_natCast_iff (by omega)]
    constructor
    · exact fun h i hi hsq hdvd =>
        h i (by omega) (by exact_mod_cast hsq) (Int.natCast_dvd_natCast.mpr hdvd)
    · intro h j hj hsq
      obtain ⟨i, rfl⟩ := Int.eq_ofNat_of_zero_le (by omega : 0 ≤ j)
      exact fun hdvd =>
        h i (by omega) (by exact_mod_cast hsq) (Int.natCast_dvd_natCast.mp hdvd)

theorem isPrime_INT_MAX : Cuckoo.isPrime INT_MAX = true :=
  isPrime_of_prime (lucas_lehmer_sufficiency 31 (by decide) (by norm_num))

theorem getMinPrime_of_isPrime (hvalue : value ≤ INT_MAX) (h : Cuckoo.isPrime value = true) :
    getMinPrime value = some value := by
  rw [getMinPrime, isPrime_eq hvalue, h]
  rfl

/-- The loop ends at the first value that passes the test. It does not overflow, as `INT_MAX` is
prime. -/
theorem exists_getMinPrime (hvalue : value ≤ INT_MAX) :
    ∃ r, getMinPrime value = some r ∧ value ≤ r ∧ Cuckoo.isPrime r = true ∧
      ∀ v, value ≤ v → v < r → Cuckoo.isPrime v = false := by
  induction hn : (INT_MAX - value).toNat generalizing value with
  | zero =>
    obtain rfl : value = INT_MAX := by omega
    exact ⟨INT_MAX, getMinPrime_of_isPrime hvalue isPrime_INT_MAX, le_rfl, isPrime_INT_MAX,
      fun v hv hlt => by omega⟩
  | succ n ih =>
    cases hp : Cuckoo.isPrime value with
    | true =>
      exact ⟨value, getMinPrime_of_isPrime hvalue hp, le_rfl, hp, fun v hv hlt => by omega⟩
    | false =>
      have hlt : value < INT_MAX := by omega
      obtain ⟨r, hr, hle, hprime, hmin⟩ := ih (Int.add_one_le_of_lt hlt) (by omega)
      refine ⟨r, ?_, by omega, hprime, fun v hv hvr => ?_⟩
      · rw [getMinPrime, isPrime_eq hvalue, hp]
        simp [hlt, hr]
      · rcases hv.eq_or_lt with rfl | hv
        · exact hp
        · exact hmin v hv hvr

/-- The arrays have the size that the loop finds. -/
theorem getMinPrime_eq (hvalue : value ≤ INT_MAX) :
    getMinPrime value = some (Cuckoo.getMinPrime value : ℤ) := by
  obtain ⟨r, hr, hle, hprime, hmin⟩ := exists_getMinPrime hvalue
  have hfind : Nat.find (exists_isPrime value) = (r - value).toNat := by
    refine (Nat.find_eq_iff _).mpr ⟨?_, fun k hk => ?_⟩
    · rwa [Int.toNat_of_nonneg (Int.sub_nonneg_of_le hle), add_sub_cancel]
    · rw [hmin (value + k) (by omega) (by omega)]
      exact Bool.false_ne_true
  rw [hr, Option.some_inj, Cuckoo.getMinPrime, hfind]
  rw [Cuckoo.isPrime, Bool.and_eq_true, decide_eq_true_eq] at hprime
  omega

/-- **`getMinPrime` finds the least prime** from a value on exactly if the value is at least 2. -/
theorem getMinPrime_isLeast_iff (hvalue : IsInt value) :
    (∃ p : ℕ, getMinPrime value = some (p : ℤ) ∧ IsLeast {q : ℕ | q.Prime ∧ value ≤ q} p) ↔
      2 ≤ value := by
  obtain ⟨r, hr, hle, hprime, hmin⟩ := exists_getMinPrime hvalue.2
  constructor
  · rintro ⟨p, heq, ⟨hp, -⟩, -⟩
    obtain rfl : r = p := Option.some_inj.mp (hr.symm.trans heq)
    -- 1 passes the test
    by_contra hlt
    have hone := hmin 1 (by omega) (by exact_mod_cast hp.one_lt)
    exact absurd hone (by decide)
  · intro hvalue
    obtain ⟨p, rfl⟩ := Int.eq_ofNat_of_zero_le (by omega : 0 ≤ r)
    have hp : 2 ≤ p := by omega
    refine ⟨p, hr, ⟨(isPrime_iff_prime hp).mp hprime, hle⟩, fun q hq => ?_⟩
    by_contra hlt
    have hq' := hmin q hq.2 (by omega)
    rw [isPrime_of_prime hq.1] at hq'
    cases hq'

/-- 1 passes the test, and is not prime. -/
theorem not_isLeast_getMinPrime_one :
    IsInt 1 ∧
      ¬∃ p : ℕ, getMinPrime 1 = some (p : ℤ) ∧ IsLeast {q : ℕ | q.Prime ∧ 1 ≤ (q : ℤ)} p := by
  refine ⟨by decide, ?_⟩
  rintro ⟨p, heq, ⟨hp, -⟩, -⟩
  rw [getMinPrime_of_isPrime (by decide) (by decide), Option.some_inj] at heq
  exact hp.ne_one (by exact_mod_cast heq.symm)

/-- The size of the table of the example in `main`. -/
theorem getMinPrime_isLeast_twelve :
    ∃ p : ℕ, getMinPrime 12 = some (p : ℤ) ∧ IsLeast {q : ℕ | q.Prime ∧ 12 ≤ (q : ℤ)} p :=
  (getMinPrime_isLeast_iff (by decide)).mpr (by decide)

end Signed

end CodingDemo.Cuckoo
