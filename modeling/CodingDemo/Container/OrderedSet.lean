import Mathlib.Data.List.Sort

/-!
# Ordered sets

An ordered set is a strictly increasing list: what iterating over a `std::set` visits. The order
is part of the type, so the first element is the least one and a lower bound cuts the set in two.

## Main definitions

* `OrderedSet`: a strictly increasing list
* `insert`, `erase`: the set operations
* `first?`, `before`, `since`: the first element, and the two sides of a lower bound

## Main results

* `mem_insert`, `mem_erase`, `mem_before`, `mem_since`: membership after each operation
* `first?_le`: the first element is the least
* `size_eq_of_mem_iff`: sets whose elements correspond one to one have the same size
-/

namespace CodingDemo

variable {α β γ : Type*} [LinearOrder α] [LinearOrder β]

/-- A strictly increasing list. -/
structure OrderedSet (α : Type*) [LinearOrder α] where
  /-- The elements, in increasing order. -/
  toList : List α
  sorted : toList.Pairwise (· < ·)

namespace OrderedSet

instance : Membership α (OrderedSet α) := ⟨fun s a => a ∈ s.toList⟩

theorem mem_def {s : OrderedSet α} {a : α} : a ∈ s ↔ a ∈ s.toList := Iff.rfl

instance (a : α) (s : OrderedSet α) : Decidable (a ∈ s) :=
  inferInstanceAs (Decidable (a ∈ s.toList))

/-- The empty set. -/
def empty : OrderedSet α := ⟨[], List.Pairwise.nil⟩

/-- The number of elements. -/
def size (s : OrderedSet α) : ℕ := s.toList.length

theorem nodup (s : OrderedSet α) : s.toList.Nodup := s.sorted.imp ne_of_lt

@[simp] theorem notMem_empty (a : α) : a ∉ (empty : OrderedSet α) := by simp [mem_def, empty]

/-! ## Insertion and removal -/

private theorem pairwise_lt_orderedInsert {l : List α} (hl : l.Pairwise (· < ·)) {a : α}
    (ha : a ∉ l) : (l.orderedInsert (· ≤ ·) a).Pairwise (· < ·) := by
  have hle : (l.orderedInsert (· ≤ ·) a).Pairwise (· ≤ ·) :=
    (hl.imp le_of_lt).orderedInsert a l
  have hnd : (l.orderedInsert (· ≤ ·) a).Nodup :=
    (List.perm_orderedInsert (· ≤ ·) a l).nodup_iff.mpr
      (List.nodup_cons.mpr ⟨ha, hl.imp ne_of_lt⟩)
  exact (hle.and hnd).imp fun h => lt_of_le_of_ne h.1 h.2

/-- Insert an element; an element that is already there is left alone. -/
def insert (s : OrderedSet α) (a : α) : OrderedSet α :=
  if h : a ∈ s then s
  else ⟨s.toList.orderedInsert (· ≤ ·) a, pairwise_lt_orderedInsert s.sorted h⟩

@[simp] theorem mem_insert {s : OrderedSet α} {a b : α} : b ∈ s.insert a ↔ b = a ∨ b ∈ s := by
  unfold insert
  split
  · next h => exact ⟨Or.inr, fun hb => hb.elim (fun e => e ▸ h) id⟩
  · exact List.mem_orderedInsert (· ≤ ·)

/-- Remove an element, if it is there. -/
def erase (s : OrderedSet α) (a : α) : OrderedSet α :=
  ⟨s.toList.erase a, s.sorted.sublist List.erase_sublist⟩

@[simp] theorem mem_erase {s : OrderedSet α} {a b : α} : b ∈ s.erase a ↔ b ≠ a ∧ b ∈ s :=
  s.nodup.mem_erase_iff

/-! ## The first element and lower bounds -/

/-- The first element. -/
def first? (s : OrderedSet α) : Option α := s.toList.head?

theorem first?_eq_none {s : OrderedSet α} : s.first? = none ↔ ∀ a, a ∉ s := by
  rw [first?, List.head?_eq_none_iff, List.eq_nil_iff_forall_not_mem]
  rfl

theorem first?_mem {s : OrderedSet α} {a : α} (h : s.first? = some a) : a ∈ s :=
  List.mem_of_head? h

/-- The first element is the least. -/
theorem first?_le {s : OrderedSet α} {a b : α} (h : s.first? = some a) (hb : b ∈ s) : a ≤ b := by
  obtain ⟨l, hl⟩ := List.head?_eq_some_iff.mp h
  have hs := s.sorted
  rw [mem_def, hl] at hb
  rw [hl] at hs
  rcases List.mem_cons.mp hb with rfl | hb
  · exact le_rfl
  · exact (List.rel_of_pairwise_cons hs hb).le

/-- The elements before the lower bound of `x`, in order. -/
def before (s : OrderedSet α) (x : α) : List α := s.toList.takeWhile (· < x)

/-- The set from the lower bound of `x` on. -/
def since (s : OrderedSet α) (x : α) : OrderedSet α :=
  ⟨s.toList.dropWhile (· < x), s.sorted.sublist (List.dropWhile_sublist _)⟩

private theorem mem_takeWhile_lt {l : List α} (hl : l.Pairwise (· < ·)) {x a : α} :
    a ∈ l.takeWhile (· < x) ↔ a < x ∧ a ∈ l := by
  induction l with
  | nil => simp
  | cons b l ih =>
    obtain ⟨hb, hl⟩ := List.pairwise_cons.mp hl
    by_cases hbx : b < x
    · simp only [List.takeWhile_cons, hbx, decide_true, if_true, List.mem_cons, ih hl]
      grind
    · have hno : ¬ (a < x ∧ a ∈ l) := fun h => hbx ((hb a h.2).trans h.1)
      simp only [List.takeWhile_cons, hbx, decide_false, Bool.false_eq_true, if_false,
        List.not_mem_nil, List.mem_cons, false_iff]
      rintro ⟨hax, rfl | ha⟩
      · exact hbx hax
      · exact hno ⟨hax, ha⟩

private theorem mem_dropWhile_lt {l : List α} (hl : l.Pairwise (· < ·)) {x a : α} :
    a ∈ l.dropWhile (· < x) ↔ x ≤ a ∧ a ∈ l := by
  induction l with
  | nil => simp
  | cons b l ih =>
    obtain ⟨hb, hl⟩ := List.pairwise_cons.mp hl
    by_cases hbx : b < x
    · simp only [List.dropWhile_cons, hbx, decide_true, if_true, List.mem_cons, ih hl]
      grind
    · simp only [List.dropWhile_cons, hbx, decide_false, Bool.false_eq_true, if_false,
        List.mem_cons]
      refine ⟨fun h => ⟨?_, h⟩, fun h => h.2⟩
      rcases h with rfl | h
      · exact not_lt.mp hbx
      · exact (not_lt.mp hbx).trans (hb a h).le

@[simp] theorem mem_before {s : OrderedSet α} {x a : α} : a ∈ s.before x ↔ a < x ∧ a ∈ s :=
  mem_takeWhile_lt s.sorted

@[simp] theorem mem_since {s : OrderedSet α} {x a : α} : a ∈ s.since x ↔ x ≤ a ∧ a ∈ s :=
  mem_dropWhile_lt s.sorted

theorem sorted_before (s : OrderedSet α) (x : α) : (s.before x).Pairwise (· < ·) :=
  s.sorted.sublist (List.takeWhile_sublist _)

theorem nodup_before (s : OrderedSet α) (x : α) : (s.before x).Nodup :=
  s.nodup.sublist (List.takeWhile_sublist _)

/-! ## Sizes -/

/-- Two sets whose elements correspond one to one, through keys, have the same size. -/
theorem size_eq_of_mem_iff {s : OrderedSet α} {t : OrderedSet β} (f : α → γ) (g : β → γ)
    (hf : ∀ a ∈ s, ∀ b ∈ s, f a = f b → a = b) (hg : ∀ a ∈ t, ∀ b ∈ t, g a = g b → a = b)
    (h : ∀ c, (∃ a ∈ s, f a = c) ↔ ∃ b ∈ t, g b = c) : s.size = t.size := by
  have hs : (s.toList.map f).Nodup := List.Nodup.map_on hf s.nodup
  have ht : (t.toList.map g).Nodup := List.Nodup.map_on hg t.nodup
  have hp : (s.toList.map f).Perm (t.toList.map g) := by
    refine (List.perm_ext_iff_of_nodup hs ht).mpr fun c => ?_
    rw [List.mem_map, List.mem_map]
    exact h c
  simpa [size] using hp.length_eq

end OrderedSet

end CodingDemo
