import Mathlib.Data.List.Basic

/-!
# The functors of an event loop

Functors are queued in one vector; `doPendingFunctors` swaps it with an empty one and runs the
functors of the batch one after the other, while new functors are queued.

## Main definitions

* `FunctorQueue`: the two vectors
* `todo`: the functors that have been queued and not run, in the order of their turns
* `queueInLoop`, `swap`, `pop`: queue a functor, start a batch, take the next functor of it

## Main results

* `todo_queueInLoop`, `todo_swap`, `todo_pop`: what the operations do to the functors to be run
-/

namespace CodingDemo.Libcpp

universe u

structure FunctorQueue (α : Type u) where
  pendingFunctors : List α := []
  /-- The functors of the batch that `doPendingFunctors` has still to run. -/
  functors : List α := []

namespace FunctorQueue

variable {α : Type u} {q : FunctorQueue α} {f : α} {rest : List α}

/-- The functors that have been queued and not run. -/
def todo (q : FunctorQueue α) : List α := q.functors ++ q.pendingFunctors

def queueInLoop (q : FunctorQueue α) (cb : α) : FunctorQueue α :=
  { q with pendingFunctors := q.pendingFunctors ++ [cb] }

/-- The swap of `doPendingFunctors`. -/
def swap (q : FunctorQueue α) : FunctorQueue α :=
  { pendingFunctors := [], functors := q.pendingFunctors }

/-- The batch without its first functor. -/
def pop (q : FunctorQueue α) : FunctorQueue α := { q with functors := q.functors.tail }

@[simp] theorem functors_queueInLoop (q : FunctorQueue α) (f : α) :
    (q.queueInLoop f).functors = q.functors := rfl

@[simp] theorem todo_queueInLoop (q : FunctorQueue α) (f : α) :
    (q.queueInLoop f).todo = q.todo ++ [f] :=
  (List.append_assoc _ _ _).symm

theorem todo_swap (h : q.functors = []) : q.swap.todo = q.todo := by
  rw [todo, todo, h]
  exact List.append_nil _

theorem todo_pop (h : q.functors = f :: rest) : q.todo = f :: q.pop.todo := by
  rw [todo, todo, pop, h]
  rfl

end FunctorQueue

end CodingDemo.Libcpp
