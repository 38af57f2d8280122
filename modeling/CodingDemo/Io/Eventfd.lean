import Mathlib.Algebra.Group.Nat.Defs
import Mathlib.Tactic.Common

/-!
# The counter of an eventfd

An eventfd that is neither blocking nor a semaphore is a counter of the kernel: a write adds to it,
a read returns it and makes it zero. A write that would make it too large, and a read of zero, fail
with `EAGAIN`.

## Main definitions

* `Eventfd`: the counter
* `write`, `read`: the two system calls
-/

namespace CodingDemo

/-- The largest value of the counter of an eventfd. -/
def Eventfd.max : ℕ := 2 ^ 64 - 2

structure Eventfd where
  counter : ℕ := 0
  deriving DecidableEq

namespace Eventfd

/-- Add to the counter; the call fails when there is no room. -/
def write (fd : Eventfd) (value : ℕ) : Eventfd :=
  if fd.counter + value ≤ max then { counter := fd.counter + value } else fd

/-- What a read returns; it fails when the counter is zero. -/
def read? (fd : Eventfd) : Option ℕ := if fd.counter = 0 then none else some fd.counter

/-- The counter after a read. -/
def cleared (_ : Eventfd) : Eventfd := { counter := 0 }

variable {fd : Eventfd} {value : ℕ}

@[simp] theorem counter_cleared (fd : Eventfd) : fd.cleared.counter = 0 := rfl

theorem counter_write (h : fd.counter + value ≤ max) :
    (fd.write value).counter = fd.counter + value := by
  rw [write, if_pos h]

/-- After a write of a positive value the counter is positive, even if the write has failed. -/
theorem counter_write_pos (hv : 0 < value) (hle : value ≤ max) : 0 < (fd.write value).counter := by
  unfold write
  split_ifs with h
  · exact Nat.add_pos_right _ hv
  · by_contra hzero
    exact h (by simpa [Nat.eq_zero_of_not_pos hzero] using hle)

theorem counter_write_eq_zero (hle : value ≤ max) :
    (fd.write value).counter = 0 ↔ fd.counter = 0 ∧ value = 0 := by
  by_cases hroom : fd.counter + value ≤ max
  · rw [counter_write hroom]
    exact Nat.add_eq_zero_iff
  · rw [write, if_neg hroom]
    omega

end Eventfd

end CodingDemo
