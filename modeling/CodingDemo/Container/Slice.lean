import Mathlib.Data.List.Basic
import Mathlib.Order.Nat
import Mathlib.Tactic.Common

/-!
# Slices of a vector

A vector that is used as a buffer is read and written by ranges of indices. Overwriting a range
leaves the slices outside it as they are, and so does a change of the length beyond the slice.

## Main definitions

* `slice l i j`: the elements from index `i` on, before index `j`
* `overwrite l i data`: the vector with `data` copied to the indices from `i` on
* `resize l n a`: the vector with length `n`, filled up with `a`

## Main results

* `slice_append_slice`: neighbouring slices
* `slice_overwrite_before`, `slice_overwrite`: the slices of an overwritten vector
* `slice_resize`: the slices of a resized vector
-/

namespace CodingDemo

universe u

variable {α : Type u} {l data : List α} {i j k n : ℕ} {a : α}

/-- The elements with indices from `i` on, before `j`. -/
def slice (l : List α) (i j : ℕ) : List α := (l.take j).drop i

/-- Copy `data` to the indices from `i` on. -/
def overwrite (l : List α) (i : ℕ) (data : List α) : List α :=
  l.take i ++ data ++ l.drop (i + data.length)

/-- Make the length `n`; new elements are `a`. -/
def resize (l : List α) (n : ℕ) (a : α) : List α := l.take n ++ List.replicate (n - l.length) a

theorem length_slice (hj : j ≤ l.length) : (slice l i j).length = j - i := by
  simp [slice, hj]

@[simp] theorem slice_self (l : List α) (i : ℕ) : slice l i i = [] := by
  simp [slice]

theorem length_overwrite (h : i + data.length ≤ l.length) :
    (overwrite l i data).length = l.length := by
  simp only [overwrite, List.length_append, List.length_take, List.length_drop]
  omega

@[simp] theorem length_resize (l : List α) (n : ℕ) (a : α) : (resize l n a).length = n := by
  simp only [resize, List.length_append, List.length_take, List.length_replicate]
  omega

theorem slice_append_slice (hij : i ≤ j) (hjk : j ≤ k) :
    slice l i j ++ slice l j k = slice l i k := by
  have hsplit : l.take j ++ (l.take k).drop j = l.take k := by
    have h := List.take_append_drop j (l.take k)
    rwa [List.take_take, min_eq_left hjk] at h
  by_cases hj : j ≤ l.length
  · calc slice l i j ++ slice l j k
        = (l.take j ++ (l.take k).drop j).drop i := by
          rw [List.drop_append_of_le_length (by simp [hij, hj])]
          rfl
      _ = slice l i k := by rw [hsplit, slice]
  · -- nothing is left at `j`
    have hlen : l.length ≤ j := (not_le.mp hj).le
    unfold slice
    rw [List.take_of_length_le hlen, List.take_of_length_le (hlen.trans hjk),
      List.drop_of_length_le hlen, List.append_nil]

theorem drop_slice (l : List α) (i j k : ℕ) : (slice l i j).drop k = slice l (i + k) j := by
  simp [slice, List.drop_drop]

/-- A slice before the copied range. -/
theorem slice_overwrite_before (hi : i ≤ l.length) (hki : k ≤ i) :
    slice (overwrite l i data) j k = slice l j k := by
  unfold slice overwrite
  rw [List.append_assoc, List.take_append_of_le_length (by simpa [hi] using hki),
    List.take_take, min_eq_left hki]

/-- The copied range. -/
theorem slice_overwrite (hi : i ≤ l.length) :
    slice (overwrite l i data) i (i + data.length) = data := by
  have hlen : (l.take i).length = i := List.length_take_of_le hi
  unfold slice overwrite
  rw [List.take_append_of_le_length (by simp [hi]), List.take_of_length_le (by simp [hi]),
    List.drop_append_of_le_length hlen.ge]
  simp

theorem slice_resize (hj : j ≤ l.length) (hn : j ≤ n) :
    slice (resize l n a) i j = slice l i j := by
  unfold slice resize
  have hle : j ≤ (l.take n).length := by
    rw [List.length_take]
    exact le_min hn hj
  rw [List.take_append_of_le_length hle, List.take_take, min_eq_left hn]

end CodingDemo
