import Mathlib.Data.Fintype.BigOperators
import Mathlib.Tactic.Common

/-!
# Counting the parties in a phase

Finitely many parties are each in some phase. The number of parties whose phase has a property
changes by at most one when one party moves to another phase.

## Main definitions

* `number p phase`: how many parties are in a phase that satisfies `p`

## Main results

* `number_update`, `eq_number_update`: the number after one party has moved, and a counter that
  follows it
* `number_congr`: parties that keep the property keep the number
* `number_pos`, `number_eq_zero`, `number_le_card`, `exists_of_number_lt`: the number and the
  parties themselves
-/

namespace CodingDemo

variable {ι κ : Type*} [Fintype ι] {p : κ → Bool} {phase phase' : ι → κ}

/-- How many parties are in a phase that satisfies `p`. -/
def number (p : κ → Bool) (phase : ι → κ) : ℕ := (Finset.univ.filter fun i => p (phase i)).card

theorem number_eq_sum (p : κ → Bool) (phase : ι → κ) :
    number p phase = ∑ i, (p (phase i)).toNat := by
  rw [number, Finset.card_filter]
  refine Finset.sum_congr rfl fun i _ => ?_
  cases p (phase i) <;> rfl

theorem number_pos : 0 < number p phase ↔ ∃ i, p (phase i) = true := by
  simp [number, Finset.card_pos, Finset.filter_nonempty_iff]

theorem number_eq_zero : number p phase = 0 ↔ ∀ i, p (phase i) = false := by
  simp [number, Finset.card_eq_zero, Finset.filter_eq_empty_iff]

theorem number_le_card : number p phase ≤ Fintype.card ι := Finset.card_filter_le _ _

theorem exists_of_number_lt (h : number p phase < Fintype.card ι) : ∃ i, p (phase i) = false := by
  by_contra! hall
  simp [number, hall] at h

/-- Parties that keep the property keep the number. -/
theorem number_congr (h : ∀ i, p (phase i) = p (phase' i)) : number p phase = number p phase' := by
  simp only [number, h]

/-- The number after one party has moved. -/
theorem number_update [DecidableEq ι] (p : κ → Bool) (phase : ι → κ) (i : ι) (k : κ) :
    number p (Function.update phase i k) + (p (phase i)).toNat =
      number p phase + (p k).toNat := by
  have hrest : ∑ j ∈ Finset.univ.erase i, (p (Function.update phase i k j)).toNat =
      ∑ j ∈ Finset.univ.erase i, (p (phase j)).toNat := by
    refine Finset.sum_congr rfl fun j hj => ?_
    rw [Function.update_of_ne (Finset.ne_of_mem_erase hj)]
  have hnew := Finset.add_sum_erase Finset.univ
    (fun j => (p (Function.update phase i k j)).toNat) (Finset.mem_univ i)
  have hold := Finset.add_sum_erase Finset.univ (fun j => (p (phase j)).toNat) (Finset.mem_univ i)
  simp only [Function.update_self] at hnew
  rw [number_eq_sum, number_eq_sum, ← hnew, ← hold, hrest]
  omega

/-! ## Counters -/

/-- A counter of the parties is positive while one of them is counted. -/
theorem pos_of_eq_number {n : ℕ} (hn : n = number p phase) (i : ι) (hi : p (phase i) = true) :
    0 < n := by
  rw [hn]
  exact number_pos.mpr ⟨i, hi⟩

/-- A counter that follows the party that moves still counts the parties. -/
theorem eq_number_update [DecidableEq ι] {n m : ℕ} (hn : n = number p phase) {i : ι} {j k : κ}
    (hj : phase i = j) (hm : m + (p j).toNat = n + (p k).toNat) :
    m = number p (Function.update phase i k) := by
  have hnew := number_update p phase i k
  rw [hj, ← hn] at hnew
  exact Nat.add_right_cancel (hm.trans hnew.symm)

end CodingDemo
