import Mathlib.Logic.Function.Basic

/-!
# Partial maps

A table is a function to `Option`, and an entry is set or erased by `Function.update`. What an
updated table has at a key is the new entry, or an old one at another key.

## Main results

* `update_some_eq_some`: the entries after one has been set
* `update_none_eq_some`: the entries after one has been erased
-/

namespace CodingDemo

variable {κ α : Type*} [DecidableEq κ] {f : κ → Option α} {k i : κ} {a b : α}

theorem update_some_eq_some :
    Function.update f k (some b) i = some a ↔ i = k ∧ a = b ∨ i ≠ k ∧ f i = some a := by
  by_cases hi : i = k
  · subst hi
    simp [eq_comm]
  · simp [hi]

theorem update_none_eq_some : Function.update f k none i = some a ↔ i ≠ k ∧ f i = some a := by
  by_cases hi : i = k
  · subst hi
    simp
  · simp [hi]

end CodingDemo
