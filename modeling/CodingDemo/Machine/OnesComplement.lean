import Mathlib.Algebra.BigOperators.Group.List.Basic
import Mathlib.Algebra.Order.BigOperators.Group.List
import Mathlib.Data.List.Induction
import Mathlib.Data.Nat.ModEq
import Mathlib.Tactic.Common

/-!
# Ones-complement sums

In ones-complement arithmetic with the greatest number `m`, a carry out of the top is added at the
bottom again. A sum of many numbers is what is left of the plain sum modulo `m`, except that only a
sum of zeros is 0 and every other multiple of `m` is `m`.

## Main definitions

* `onesAdd`, `onesSum`: the sum of two and of many numbers
* `onesRep`: the number that stands for a plain sum
* `leWords`: the 16-bit words of a text of bytes, padded with a zero

## Main results

* `onesSum_eq`: the ones-complement sum depends on the plain sum
* `onesRep_eq_iff`: which plain sums have the same ones-complement sum
* `onesRep_add_complement`: the sum with its own complement is `m`
* `fold_eq_onesRep`: two folds reduce a sum of 32 bits to 16
-/

namespace CodingDemo

section Sums

variable {m n k w : ℕ}

/-- Addition with an end-around carry. -/
def onesAdd (m a b : ℕ) : ℕ := if a + b ≤ m then a + b else a + b - m

def onesSum (m : ℕ) (ws : List ℕ) : ℕ := ws.foldl (onesAdd m) 0

def onesRep (m n : ℕ) : ℕ := if n = 0 then 0 else (n - 1) % m + 1

@[simp] theorem onesRep_zero : onesRep m 0 = 0 := if_pos rfl

theorem onesRep_of_pos (h : 0 < n) : onesRep m n = (n - 1) % m + 1 := if_neg h.ne'

theorem onesRep_le (hm : 0 < m) : onesRep m n ≤ m := by
  rw [onesRep]
  split_ifs
  · exact Nat.zero_le _
  · exact Nat.mod_lt _ hm

theorem onesRep_mod : onesRep m n % m = n % m := by
  rw [onesRep]
  split_ifs with hn
  · rw [hn]
  · rw [Nat.mod_add_mod, Nat.sub_add_cancel (Nat.one_le_iff_ne_zero.mpr hn)]

theorem onesRep_eq_self (hle : n ≤ m) : onesRep m n = n := by
  rw [onesRep]
  split_ifs with hn
  · exact hn.symm
  · rw [Nat.mod_eq_of_lt (by omega)]
    omega

theorem onesRep_eq_zero_iff : onesRep m n = 0 ↔ n = 0 := by
  constructor
  · intro h
    by_contra hn
    rw [onesRep_of_pos (Nat.pos_of_ne_zero hn)] at h
    cases h
  · rintro rfl
    exact onesRep_zero

theorem onesRep_eq_iff :
    onesRep m n = onesRep m k ↔ (n = 0 ↔ k = 0) ∧ n % m = k % m := by
  constructor
  · intro h
    refine ⟨?_, ?_⟩
    · rw [← onesRep_eq_zero_iff (m := m), h, onesRep_eq_zero_iff]
    · rw [← onesRep_mod, h, onesRep_mod]
  · rintro ⟨hzero, hmod⟩
    rcases Nat.eq_zero_or_pos n with rfl | hn
    · rw [hzero.mp rfl]
    · have hk : 0 < k := Nat.pos_of_ne_zero fun hk => hn.ne' (hzero.mpr hk)
      rw [onesRep_of_pos hn, onesRep_of_pos hk]
      congr 1
      refine Nat.ModEq.add_right_cancel' 1 ?_
      rw [Nat.sub_add_cancel hn, Nat.sub_add_cancel hk]
      exact hmod

theorem onesAdd_onesRep (hm : 0 < m) (hw : w ≤ m) :
    onesAdd m (onesRep m n) w = onesRep m (n + w) := by
  rcases Nat.eq_zero_or_pos n with rfl | hn
  · rw [onesRep_zero, zero_add, onesRep_eq_self hw, onesAdd, zero_add, if_pos hw]
  have hsplit : (n + w - 1) % m = ((n - 1) % m + w) % m := by
    rw [Nat.mod_add_mod]
    congr 1
    omega
  -- With the 1 that both representatives have, the sum passes `m` when the remainder wraps.
  rw [onesRep_of_pos hn, onesRep_of_pos (Nat.add_pos_left hn w), onesAdd, hsplit]
  have hlt := Nat.mod_lt (n - 1) hm
  generalize (n - 1) % m = r at hlt
  split_ifs with hle
  · rw [Nat.mod_eq_of_lt (by omega)]
    omega
  · rw [Nat.mod_eq_sub_mod (by omega), Nat.mod_eq_of_lt (by omega)]
    omega

theorem onesSum_eq (hm : 0 < m) {ws : List ℕ} (h : ∀ w ∈ ws, w ≤ m) :
    onesSum m ws = onesRep m ws.sum := by
  induction ws using List.reverseRecOn with
  | nil => exact onesRep_zero.symm
  | append_singleton ws w ih =>
    have hws : ∀ w ∈ ws, w ≤ m := fun v hv => h v (List.mem_append_left _ hv)
    have hw : w ≤ m := h w (List.mem_append_right _ List.mem_cons_self)
    rw [onesSum, List.foldl_append, List.sum_append, List.sum_singleton,
      ← onesAdd_onesRep hm hw, ← ih hws]
    rfl

/-- **The sum with its own complement** is the greatest number. -/
theorem onesRep_add_complement (hm : 0 < m) : onesRep m (n + (m - onesRep m n)) = m := by
  have hle := onesRep_le (n := n) hm
  rw [← onesAdd_onesRep hm (Nat.sub_le _ _), onesAdd, Nat.add_sub_cancel' hle, if_pos le_rfl]

theorem complement_eq_iff (hm : 0 < m) :
    m - onesRep m n = m - onesRep m k ↔ onesRep m n = onesRep m k := by
  have hn := onesRep_le (n := n) hm
  have hk := onesRep_le (n := k) hm
  omega

/-- The complement of a sum is 0 if the sum is a multiple of the greatest number. -/
theorem complement_eq_zero_iff (hm : 0 < m) (hn : 0 < n) : m - onesRep m n = 0 ↔ n % m = 0 := by
  have hle := onesRep_le (n := n) hm
  have hrep : onesRep m n = onesRep m m ↔ n % m = 0 := by
    rw [onesRep_eq_iff, Nat.mod_self, and_iff_right (iff_of_false hn.ne' hm.ne')]
  rw [← hrep, onesRep_eq_self le_rfl]
  omega

/-! ## Sums in a machine word -/

/-- Two folds reduce a sum of 32 bits to 16. -/
theorem fold_eq_onesRep {t : ℕ} (hn : n < 2 ^ 32) (ht : t = n / 2 ^ 16 + n % 2 ^ 16) :
    (t + t / 2 ^ 16) % 2 ^ 16 = onesRep 65535 n := by
  have hrep : onesRep 65535 n = onesRep 65535 t := onesRep_eq_iff.mpr ⟨by omega, by omega⟩
  -- A second fold is enough: the first one leaves at most one carry.
  have hle : t ≤ 2 * 65535 := by omega
  clear ht hn
  rw [hrep]
  by_cases hcarry : t ≤ 65535
  · rw [onesRep_eq_self hcarry]
    omega
  · have hone : t / 2 ^ 16 = 1 := by omega
    have hleft : (t + 1) % 2 ^ 16 = t + 1 - 2 ^ 16 := by omega
    have hright : (t - 1) % 65535 = t - 1 - 65535 := by omega
    rw [onesRep_of_pos (by omega), hone, hleft, hright]
    omega

end Sums

/-! ## Words -/

/-- The 16-bit words in memory, the least significant byte first; a last byte is padded with a
zero. -/
def leWords : List UInt8 → List ℕ
  | [] => []
  | [a] => [a.toNat]
  | a :: b :: bytes => (a.toNat + 2 ^ 8 * b.toNat) :: leWords bytes

theorem le_of_mem_leWords {bytes : List UInt8} : ∀ w ∈ leWords bytes, w ≤ 65535 := by
  fun_induction leWords bytes with
  | case1 => simp
  | case2 a =>
    have := a.toNat_lt
    simp only [List.mem_singleton, forall_eq]
    omega
  | case3 a b bytes ih =>
    have := a.toNat_lt
    have := b.toNat_lt
    refine List.forall_mem_cons.mpr ⟨by omega, ih⟩

theorem onesSum_leWords (bytes : List UInt8) :
    onesSum 65535 (leWords bytes) = onesRep 65535 (leWords bytes).sum :=
  onesSum_eq (by decide) le_of_mem_leWords

theorem sum_leWords_append {bytes : List UInt8} (heven : 2 ∣ bytes.length) (rest : List UInt8) :
    (leWords (bytes ++ rest)).sum = (leWords bytes).sum + (leWords rest).sum := by
  fun_induction leWords bytes with
  | case1 => simp
  | case2 a =>
    rw [List.length_singleton] at heven
    exact absurd heven (by decide)
  | case3 a b bytes ih =>
    rw [List.cons_append, List.cons_append, leWords, List.sum_cons, List.sum_cons,
      ih ((Nat.dvd_add_left (dvd_refl 2)).mp heven)]
    exact (Nat.add_assoc _ _ _).symm

/-- A sum of words is bounded by the number of bytes. -/
theorem sum_leWords_le (bytes : List UInt8) :
    (leWords bytes).sum ≤ 65535 * ((bytes.length + 1) / 2) := by
  fun_induction leWords bytes with
  | case1 => simp
  | case2 a =>
    have := a.toNat_lt
    simp only [List.sum_singleton, List.length_singleton]
    omega
  | case3 a b bytes ih =>
    have := a.toNat_lt
    have := b.toNat_lt
    simp only [List.sum_cons, List.length_cons]
    omega

end CodingDemo
