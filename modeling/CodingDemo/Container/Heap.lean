import Mathlib.Data.List.Nodup
import Mathlib.Order.Nat

/-!
# A heap of objects with identities

Objects are created at an address that holds no object and live there until they are deleted;
the address may then be used again. Every object gets the next serial number when it is created,
so an object can be told apart from a later one at the same address, and the heap keeps the
serial numbers of the objects it has deleted. That no object is deleted twice is part of the
type: deleting at an address that holds no object has no result.

## Main definitions

* `Heap`: the objects by address, the count of objects created, and the deleted ones
* `alloc`, `modify`, `delete`: create an object, change it in place, delete it

## Main results

* `cell_alloc`, `cell_modify`, `cell_of_delete`: what each operation leaves at each address
* `isDead_of_delete`, `IsDead.alloc`, `IsDead.modify`, `IsDead.delete`: a dead object stays dead
-/

namespace CodingDemo

variable {α : Type*}

/-- Objects by address, each with its serial number. -/
structure Heap (α : Type*) where
  /-- The serial number and the value of the object at an address. -/
  cell : ℕ → Option (ℕ × α)
  /-- The number of objects created so far. -/
  next : ℕ
  /-- The serial numbers of the deleted objects, the first deleted first. -/
  deleted : List ℕ
  serial_lt : ∀ {p c}, cell p = some c → c.1 < next
  serial_inj : ∀ {p q c d}, cell p = some c → cell q = some d → c.1 = d.1 → p = q
  deleted_lt : ∀ {n}, n ∈ deleted → n < next
  deleted_dead : ∀ {p c}, cell p = some c → c.1 ∉ deleted
  deleted_nodup : deleted.Nodup

namespace Heap

/-- The heap with no object. -/
def empty : Heap α where
  cell _ := none
  next := 0
  deleted := []
  serial_lt h := by cases h
  serial_inj h := by cases h
  deleted_lt h := by cases h
  deleted_dead h := by cases h
  deleted_nodup := List.nodup_nil

/-- The object at an address. -/
def get? (h : Heap α) (p : ℕ) : Option α := (h.cell p).map Prod.snd

/-- The object with this serial number was created and does not live any more. -/
def IsDead (h : Heap α) (n : ℕ) : Prop := n < h.next ∧ ∀ p c, h.cell p = some c → c.1 ≠ n

theorem get?_eq_some {h : Heap α} {p : ℕ} {a : α} :
    h.get? p = some a ↔ ∃ n, h.cell p = some (n, a) := by
  simp [get?]

theorem get?_eq_none {h : Heap α} {p : ℕ} : h.get? p = none ↔ h.cell p = none := by
  simp [get?]

/-! ## Creation -/

/-- Create an object at a free address. -/
def alloc (h : Heap α) (p : ℕ) (a : α) (_hp : h.cell p = none) : Heap α where
  cell := Function.update h.cell p (some (h.next, a))
  next := h.next + 1
  deleted := h.deleted
  serial_lt {q c} hq := by
    by_cases hqp : q = p
    · subst hqp
      obtain rfl : (h.next, a) = c := by simpa using hq
      exact Nat.lt_succ_self _
    · rw [Function.update_of_ne hqp] at hq
      exact (h.serial_lt hq).trans (Nat.lt_succ_self _)
  serial_inj {q r c d} hq hr hcd := by
    by_cases hqp : q = p <;> by_cases hrp : r = p
    · rw [hqp, hrp]
    · subst hqp
      obtain rfl : (h.next, a) = c := by simpa using hq
      rw [Function.update_of_ne hrp] at hr
      exact absurd hcd (h.serial_lt hr).ne'
    · subst hrp
      obtain rfl : (h.next, a) = d := by simpa using hr
      rw [Function.update_of_ne hqp] at hq
      exact absurd hcd (h.serial_lt hq).ne
    · rw [Function.update_of_ne hqp] at hq
      rw [Function.update_of_ne hrp] at hr
      exact h.serial_inj hq hr hcd
  deleted_lt hn := (h.deleted_lt hn).trans (Nat.lt_succ_self _)
  deleted_dead {q c} hq hn := by
    by_cases hqp : q = p
    · subst hqp
      obtain rfl : (h.next, a) = c := by simpa using hq
      exact (h.deleted_lt hn).ne rfl
    · rw [Function.update_of_ne hqp] at hq
      exact h.deleted_dead hq hn
  deleted_nodup := h.deleted_nodup

theorem cell_alloc (h : Heap α) {p : ℕ} (a : α) (hp : h.cell p = none) (q : ℕ) :
    (h.alloc p a hp).cell q = if q = p then some (h.next, a) else h.cell q := by
  simp [alloc, Function.update_apply]

@[simp] theorem next_alloc (h : Heap α) {p : ℕ} (a : α) (hp : h.cell p = none) :
    (h.alloc p a hp).next = h.next + 1 := rfl

theorem get?_alloc (h : Heap α) {p : ℕ} (a : α) (hp : h.cell p = none) (q : ℕ) :
    (h.alloc p a hp).get? q = if q = p then some a else h.get? q := by
  unfold get?
  rw [cell_alloc]
  split <;> rfl

theorem IsDead.alloc {h : Heap α} {n p : ℕ} (hn : h.IsDead n) (a : α) (hp : h.cell p = none) :
    (h.alloc p a hp).IsDead n := by
  refine ⟨hn.1.trans (Nat.lt_succ_self _), fun q c hq => ?_⟩
  rw [cell_alloc] at hq
  split at hq
  · obtain rfl := Option.some.inj hq
    exact hn.1.ne'
  · exact hn.2 q c hq

/-! ## Change in place -/

/-- Change the object at an address, if there is one. -/
def modify (h : Heap α) (p : ℕ) (f : α → α) : Heap α where
  cell q := if q = p then (h.cell p).map fun c => (c.1, f c.2) else h.cell q
  next := h.next
  deleted := h.deleted
  serial_lt {q c} hq := by
    split at hq
    · obtain ⟨d, hd, rfl⟩ := Option.map_eq_some_iff.mp hq
      exact (h.serial_lt hd : d.1 < h.next)
    · exact h.serial_lt hq
  serial_inj {q r c d} hq hr hcd := by
    split at hq <;> split at hr
    · next hqp hrp => rw [hqp, hrp]
    · next hqp hrp =>
      obtain ⟨e, he, rfl⟩ := Option.map_eq_some_iff.mp hq
      exact hqp.trans (h.serial_inj he hr hcd)
    · next hqp hrp =>
      obtain ⟨e, he, rfl⟩ := Option.map_eq_some_iff.mp hr
      exact (h.serial_inj hq he hcd).trans hrp.symm
    · exact h.serial_inj hq hr hcd
  deleted_lt := h.deleted_lt
  deleted_dead {q c} hq := by
    split at hq
    · obtain ⟨d, hd, rfl⟩ := Option.map_eq_some_iff.mp hq
      exact (h.deleted_dead hd : d.1 ∉ h.deleted)
    · exact h.deleted_dead hq
  deleted_nodup := h.deleted_nodup

theorem cell_modify (h : Heap α) (p : ℕ) (f : α → α) (q : ℕ) :
    (h.modify p f).cell q = if q = p then (h.cell p).map fun c => (c.1, f c.2) else h.cell q :=
  rfl

theorem cell_modify_of_ne {h : Heap α} {p q : ℕ} {f : α → α} (hne : q ≠ p) :
    (h.modify p f).cell q = h.cell q := if_neg hne

theorem get?_modify (h : Heap α) (p : ℕ) (f : α → α) (q : ℕ) :
    (h.modify p f).get? q = if q = p then (h.get? p).map f else h.get? q := by
  unfold get?
  rw [cell_modify]
  split
  · cases h.cell p <;> rfl
  · rfl

theorem IsDead.modify {h : Heap α} {n : ℕ} (hn : h.IsDead n) (p : ℕ) (f : α → α) :
    (h.modify p f).IsDead n := by
  refine ⟨hn.1, fun q c hq => ?_⟩
  rw [cell_modify] at hq
  split at hq
  · obtain ⟨d, hd, rfl⟩ := Option.map_eq_some_iff.mp hq
    exact hn.2 p d hd
  · exact hn.2 q c hq

/-! ## Deletion -/

/-- Delete the object at an address; there is no result when the address holds none. -/
def delete (h : Heap α) (p : ℕ) : Option (Heap α) :=
  match hp : h.cell p with
  | none => none
  | some c => some
    { cell := Function.update h.cell p none
      next := h.next
      deleted := h.deleted ++ [c.1]
      serial_lt := fun {q d} hq => by
        by_cases hqp : q = p
        · simp [hqp] at hq
        · rw [Function.update_of_ne hqp] at hq
          exact h.serial_lt hq
      serial_inj := fun {q r d e} hq hr hde => by
        by_cases hqp : q = p
        · simp [hqp] at hq
        by_cases hrp : r = p
        · simp [hrp] at hr
        rw [Function.update_of_ne hqp] at hq
        rw [Function.update_of_ne hrp] at hr
        exact h.serial_inj hq hr hde
      deleted_lt := fun {n} hn => by
        rcases List.mem_append.mp hn with hn | hn
        · exact h.deleted_lt hn
        · rw [List.mem_singleton.mp hn]
          exact h.serial_lt hp
      deleted_dead := fun {q d} hq hn => by
        by_cases hqp : q = p
        · simp [hqp] at hq
        rw [Function.update_of_ne hqp] at hq
        rcases List.mem_append.mp hn with hn | hn
        · exact h.deleted_dead hq hn
        · exact hqp (h.serial_inj hq hp (List.mem_singleton.mp hn))
      deleted_nodup := by
        rw [List.nodup_append]
        refine ⟨h.deleted_nodup, List.nodup_singleton _, ?_⟩
        rintro n hn m hm rfl
        rw [List.mem_singleton.mp hm] at hn
        exact h.deleted_dead hp hn }

theorem delete_eq_none {h : Heap α} {p : ℕ} : h.delete p = none ↔ h.cell p = none := by
  unfold delete
  split
  · next hp => simp [hp]
  · next c hp => simp [hp]

theorem exists_delete {h : Heap α} {p : ℕ} (hp : h.cell p ≠ none) : ∃ h', h.delete p = some h' :=
  Option.ne_none_iff_exists'.mp fun hn => hp (delete_eq_none.mp hn)

theorem cell_of_delete {h h' : Heap α} {p : ℕ} (hd : h.delete p = some h') (q : ℕ) :
    h'.cell q = if q = p then none else h.cell q := by
  unfold delete at hd
  split at hd
  · cases hd
  · obtain rfl := Option.some.inj hd
    simp [Function.update_apply]

theorem next_of_delete {h h' : Heap α} {p : ℕ} (hd : h.delete p = some h') :
    h'.next = h.next := by
  unfold delete at hd
  split at hd
  · cases hd
  · obtain rfl := Option.some.inj hd
    rfl

theorem deleted_of_delete {h h' : Heap α} {p : ℕ} {c : ℕ × α} (hp : h.cell p = some c)
    (hd : h.delete p = some h') : h'.deleted = h.deleted ++ [c.1] := by
  unfold delete at hd
  split at hd
  · cases hd
  · next c' hc' =>
    obtain rfl := Option.some.inj (hp.symm.trans hc')
    obtain rfl := Option.some.inj hd
    rfl

theorem cell_of_delete_of_ne {h h' : Heap α} {p q : ℕ} (hd : h.delete p = some h') (hne : q ≠ p) :
    h'.cell q = h.cell q := (cell_of_delete hd q).trans (if_neg hne)

theorem get?_of_delete {h h' : Heap α} {p : ℕ} (hd : h.delete p = some h') (q : ℕ) :
    h'.get? q = if q = p then none else h.get? q := by
  unfold get?
  rw [cell_of_delete hd]
  split <;> rfl

theorem get?_eq_some_of_delete {h h' : Heap α} {p : ℕ} (hd : h.delete p = some h') {q : ℕ}
    {a : α} : h'.get? q = some a ↔ q ≠ p ∧ h.get? q = some a := by
  rw [get?_of_delete hd]
  by_cases hqp : q = p <;> simp [hqp]

theorem IsDead.delete {h h' : Heap α} {n p : ℕ} (hn : h.IsDead n) (hd : h.delete p = some h') :
    h'.IsDead n := by
  refine ⟨by rw [next_of_delete hd]; exact hn.1, fun q c hq => ?_⟩
  rw [cell_of_delete hd] at hq
  split at hq
  · cases hq
  · exact hn.2 q c hq

/-- The object that is deleted is dead. -/
theorem isDead_of_delete {h h' : Heap α} {p : ℕ} {c : ℕ × α} (hp : h.cell p = some c)
    (hd : h.delete p = some h') : h'.IsDead c.1 := by
  refine ⟨by rw [next_of_delete hd]; exact h.serial_lt hp, fun q d hq hdc => ?_⟩
  rw [cell_of_delete hd] at hq
  split at hq
  · cases hq
  · next hqp => exact hqp (h.serial_inj hq hp hdc)

end Heap

end CodingDemo
