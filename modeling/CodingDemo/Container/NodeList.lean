import Mathlib.Data.List.Nodup
import Mathlib.Data.Prod.Basic

/-!
# Lists whose nodes have identities

An iterator of a linked list stays valid while its node is in the list, whatever happens to the
other nodes. A node is a number and the value it holds; an iterator is the number of its node.
Erasing at an iterator has no result when the node is not in the list.

## Main definitions

* `NodeList`: the nodes of a linked list, in order
* `values`: the values of the nodes
* `eraseNode`: the list without one node

## Main results

* `eraseNode_eq_some`: when `eraseNode` has a result, and what it is
* `mem_of_eraseNode`, `sublist_of_eraseNode`: the nodes that are left
-/

namespace CodingDemo

/-- The nodes of a linked list. -/
abbrev NodeList (α : Type*) := List (ℕ × α)

namespace NodeList

variable {α : Type*} {l l' : NodeList α} {n : ℕ}

def values (l : NodeList α) : List α := l.map Prod.snd

/-- The list without the node `n`. -/
def eraseNode (l : NodeList α) (n : ℕ) : Option (NodeList α) :=
  if n ∈ l.map Prod.fst then some (l.filter fun x => x.1 ≠ n) else none

theorem mem_values {a : α} : a ∈ l.values ↔ ∃ n, (n, a) ∈ l := by
  simp [values]

theorem eraseNode_eq_some :
    l.eraseNode n = some l' ↔ (∃ a, (n, a) ∈ l) ∧ l' = l.filter fun x => x.1 ≠ n := by
  have hmem : n ∈ l.map Prod.fst ↔ ∃ a, (n, a) ∈ l := by simp
  unfold eraseNode
  split_ifs with h
  · rw [Option.some_inj, ← hmem]
    exact ⟨fun heq => ⟨h, heq.symm⟩, fun heq => heq.2.symm⟩
  · rw [← hmem]
    exact ⟨(fun heq => nomatch heq), fun heq => absurd heq.1 h⟩

theorem exists_eraseNode {a : α} (h : (n, a) ∈ l) : ∃ l', l.eraseNode n = some l' :=
  ⟨_, eraseNode_eq_some.mpr ⟨⟨a, h⟩, rfl⟩⟩

theorem mem_of_eraseNode (h : l.eraseNode n = some l') {x : ℕ × α} :
    x ∈ l' ↔ x ∈ l ∧ x.1 ≠ n := by
  rw [(eraseNode_eq_some.mp h).2]
  simp

theorem sublist_of_eraseNode (h : l.eraseNode n = some l') : l'.Sublist l := by
  rw [(eraseNode_eq_some.mp h).2]
  exact List.filter_sublist

end NodeList

end CodingDemo
