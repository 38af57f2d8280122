import Mathlib.Tactic.Common

/-!
# Computations that can fail

A computation with checks ends with a result or at the first check that fails.

## Main definitions

* `Avoids x e`: the computation does not fail with `e`

## Main results

* `bind_eq_ok_iff`: a sequence has a result when both of its parts have one
* `Avoids.bind`: a sequence avoids what both of its parts avoid
-/

namespace CodingDemo

universe u v

variable {ε : Type u} {α β : Type v} {x : Except ε α} {f : α → Except ε β} {b : β} {e : ε}

theorem bind_eq_ok_iff : x >>= f = .ok b ↔ ∃ a, x = .ok a ∧ f a = .ok b := by
  constructor
  · intro h
    cases x with
    | error e => cases h
    | ok a => exact ⟨a, rfl, h⟩
  · rintro ⟨a, rfl, h⟩
    exact h

/-- The computation does not fail with `e`. -/
def Avoids (x : Except ε α) (e : ε) : Prop := x ≠ .error e

theorem avoids_ok (a : α) : Avoids (.ok a) e := fun h => by cases h

theorem avoids_error {e' : ε} (h : e' ≠ e) : Avoids (.error e' : Except ε α) e :=
  fun heq => h (Except.error.inj heq)

theorem Avoids.bind (hx : Avoids x e) (hf : ∀ a, x = .ok a → Avoids (f a) e) :
    Avoids (x >>= f) e := by
  cases x with
  | error e' => exact fun h => hx (congrArg Except.error (Except.error.inj h))
  | ok a => exact hf a rfl

end CodingDemo
