import Mathlib.Data.List.Induction
import Mathlib.Order.Lattice
import Mathlib.Tactic.Common

/-!
# Ordered maps

An ordered map is a list of keys with their values in which the keys increase: what iterating over a
`std::map` visits. Two maps are equal if they have the same value for each key.

## Main definitions

* `OrderedMap`: a list with increasing keys
* `find?`, `insert`: the value of a key, and a new value for a key
* `ofList`: the values that are inserted one after the other
* `LastOfKey`: an entry decides the value of its key

## Main results

* `find?_insert`: the values after an insertion
* `find?_ofList_eq_some_iff`: the last entry of a key is found
* `ext_find?`: maps with the same values are equal
* `ofList_toList`: a map is what inserting its own entries leads to
-/

namespace CodingDemo

variable {α β : Type*} [LinearOrder α]

/-- A list in which the keys increase. -/
structure OrderedMap (α β : Type*) [LinearOrder α] where
  /-- The keys with their values, in increasing order. -/
  toList : List (α × β)
  sorted : toList.Pairwise fun a b => a.1 < b.1

namespace OrderedMap

/-- The empty map. -/
def empty : OrderedMap α β := ⟨[], List.Pairwise.nil⟩

/-- The value of a key in a list. -/
def lookup (k : α) : List (α × β) → Option β
  | [] => none
  | (k', v) :: l => if k = k' then some v else lookup k l

/-- A new value for a key, in the place of the old one. -/
def insertEntry (k : α) (v : β) : List (α × β) → List (α × β)
  | [] => [(k, v)]
  | (k', v') :: l =>
    if k < k' then (k, v) :: (k', v') :: l
    else if k = k' then (k, v) :: l
    else (k', v') :: insertEntry k v l

variable {k k' : α} {v : β} {l : List (α × β)} {m m' : OrderedMap α β}

theorem mem_insertEntry {e : α × β} (h : e ∈ insertEntry k v l) : e = (k, v) ∨ e ∈ l := by
  induction l with
  | nil => exact .inl (List.mem_singleton.mp h)
  | cons e' l ih =>
    obtain ⟨k', v'⟩ := e'
    rw [insertEntry] at h
    split_ifs at h
    · exact List.mem_cons.mp h
    · exact (List.mem_cons.mp h).imp_right (List.mem_cons_of_mem _)
    · rcases List.mem_cons.mp h with rfl | h
      · exact .inr List.mem_cons_self
      · exact (ih h).imp_right (List.mem_cons_of_mem _)

theorem pairwise_insertEntry (h : l.Pairwise fun a b => a.1 < b.1) :
    (insertEntry k v l).Pairwise fun a b => a.1 < b.1 := by
  induction l with
  | nil => exact List.pairwise_singleton _ _
  | cons e l ih =>
    obtain ⟨k', v'⟩ := e
    obtain ⟨hlt, hl⟩ := List.pairwise_cons.mp h
    rw [insertEntry]
    split_ifs with hk heq
    · refine List.pairwise_cons.mpr ⟨fun e he => ?_, h⟩
      rcases List.mem_cons.mp he with rfl | he
      · exact hk
      · exact hk.trans (hlt e he)
    · obtain rfl := heq
      exact List.pairwise_cons.mpr ⟨hlt, hl⟩
    · refine List.pairwise_cons.mpr ⟨fun e he => ?_, ih hl⟩
      rcases mem_insertEntry he with rfl | he
      · exact lt_of_le_of_ne (not_lt.mp hk) (Ne.symm heq)
      · exact hlt e he

theorem lookup_insertEntry : lookup k' (insertEntry k v l) =
    if k' = k then some v else lookup k' l := by
  induction l with
  | nil => rfl
  | cons e l ih =>
    obtain ⟨k₁, v₁⟩ := e
    rw [insertEntry]
    by_cases hlt : k < k₁
    · rw [if_pos hlt]
      rfl
    · rw [if_neg hlt]
      by_cases heq : k = k₁
      · obtain rfl := heq
        rw [if_pos rfl, lookup, lookup]
        split_ifs <;> rfl
      · rw [if_neg heq, lookup, lookup, ih]
        by_cases hk' : k' = k₁
        · rw [if_pos hk', if_neg fun h => heq (h.symm.trans hk'), if_pos hk']
        · rw [if_neg hk', if_neg hk']

/-- The value of a key. -/
def find? (m : OrderedMap α β) (k : α) : Option β := lookup k m.toList

/-- `m[k] = v`. -/
def insert (m : OrderedMap α β) (k : α) (v : β) : OrderedMap α β :=
  ⟨insertEntry k v m.toList, pairwise_insertEntry m.sorted⟩

/-- The entries are inserted one after the other; the last value of a key remains. -/
def ofList (l : List (α × β)) : OrderedMap α β := l.foldl (fun m e => m.insert e.1 e.2) empty

theorem find?_insert : (m.insert k v).find? k' = if k' = k then some v else m.find? k' :=
  lookup_insertEntry

theorem ofList_append_singleton (e : α × β) : ofList (l ++ [e]) = (ofList l).insert e.1 e.2 := by
  rw [ofList, List.foldl_append]
  rfl

/-! ## The entries -/

theorem mem_of_lookup (h : lookup k l = some v) : (k, v) ∈ l := by
  induction l with
  | nil => cases h
  | cons e l ih =>
    obtain ⟨k', v'⟩ := e
    rw [lookup] at h
    split_ifs at h with hk
    · obtain rfl := Option.some.inj h
      exact hk ▸ List.mem_cons_self
    · exact List.mem_cons_of_mem _ (ih h)

theorem lookup_of_mem (hl : l.Pairwise fun a b => a.1 < b.1) (h : (k, v) ∈ l) :
    lookup k l = some v := by
  induction l with
  | nil => cases h
  | cons e l ih =>
    obtain ⟨hlt, hl⟩ := List.pairwise_cons.mp hl
    rcases List.mem_cons.mp h with rfl | h
    · exact if_pos rfl
    · rw [lookup, if_neg (hlt _ h).ne']
      exact ih hl h

theorem mem_toList_iff : (k, v) ∈ m.toList ↔ m.find? k = some v :=
  ⟨lookup_of_mem m.sorted, mem_of_lookup⟩

theorem mem_of_mem_ofList {e : α × β} (h : e ∈ (ofList l).toList) : e ∈ l := by
  induction l using List.reverseRecOn with
  | nil => exact absurd h List.not_mem_nil
  | append_singleton l e' ih =>
    rw [ofList_append_singleton] at h
    rcases mem_insertEntry h with rfl | h
    · exact List.mem_append_right l List.mem_cons_self
    · exact List.mem_append_left _ (ih h)

/-- Lists with increasing keys and the same values are equal. -/
theorem eq_of_lookup_eq {l l' : List (α × β)} (hl : l.Pairwise fun a b => a.1 < b.1)
    (hl' : l'.Pairwise fun a b => a.1 < b.1) (h : ∀ k, lookup k l = lookup k l') : l = l' := by
  have hperm : l.Perm l' := by
    refine (List.perm_ext_iff_of_nodup ?_ ?_).mpr fun e => ?_
    · exact hl.imp fun hlt heq => absurd (congrArg Prod.fst heq) hlt.ne
    · exact hl'.imp fun hlt heq => absurd (congrArg Prod.fst heq) hlt.ne
    · exact ⟨fun he => mem_of_lookup ((h _).symm.trans (lookup_of_mem hl he)),
        fun he => mem_of_lookup ((h _).trans (lookup_of_mem hl' he))⟩
  exact hperm.eq_of_pairwise (fun _ _ _ _ hab hba => absurd hab hba.asymm) hl hl'

/-- Maps with the same values are equal. -/
theorem ext_find? (h : ∀ k, m.find? k = m'.find? k) : m = m' := by
  obtain ⟨l, hl⟩ := m
  obtain ⟨l', hl'⟩ := m'
  obtain rfl := eq_of_lookup_eq hl hl' h
  rfl

/-- The last entry of a key decides. -/
theorem find?_ofList_append_singleton (e : α × β) :
    (ofList (l ++ [e])).find? k = if k = e.1 then some e.2 else (ofList l).find? k := by
  rw [ofList_append_singleton, find?_insert]

theorem find?_ofList_eq_none : (ofList l).find? k = none ↔ ∀ e ∈ l, k ≠ e.1 := by
  induction l using List.reverseRecOn with
  | nil => exact iff_of_true rfl fun _ he => absurd he List.not_mem_nil
  | append_singleton l e ih =>
    rw [find?_ofList_append_singleton, List.forall_mem_append, List.forall_mem_singleton, ← ih]
    by_cases hk : k = e.1
    · rw [if_pos hk]
      exact iff_of_false (Option.some_ne_none _) fun h => h.2 hk
    · rw [if_neg hk]
      exact (and_iff_left hk).symm

/-- The entry is the last one of its key. -/
def LastOfKey (l : List (α × β)) (e : α × β) : Prop :=
  (l.filter fun f => f.1 = e.1).getLast? = some e

theorem find?_ofList_eq_some_iff {e : α × β} :
    (ofList l).find? e.1 = some e.2 ↔ LastOfKey l e := by
  unfold LastOfKey
  induction l using List.reverseRecOn with
  | nil => exact iff_of_false (Option.some_ne_none _).symm (Option.some_ne_none _).symm
  | append_singleton l f ih =>
    rw [find?_ofList_append_singleton, List.filter_append]
    by_cases hkey : e.1 = f.1
    · have hlast : [f].filter (fun g => g.1 = e.1) = [f] :=
        List.filter_cons_of_pos (decide_eq_true hkey.symm)
      rw [if_pos hkey, hlast, List.getLast?_concat, Option.some.injEq, Option.some.injEq,
        Prod.ext_iff]
      exact ⟨fun hvalue => ⟨hkey.symm, hvalue⟩, And.right⟩
    · have hother : [f].filter (fun g => g.1 = e.1) = [] :=
        List.filter_cons_of_neg (by simpa using Ne.symm hkey)
      rw [if_neg hkey, hother, List.append_nil, ih]

theorem lookup_append {l' : List (α × β)} :
    lookup k (l ++ l') = (lookup k l).or (lookup k l') := by
  induction l with
  | nil => rfl
  | cons e l ih =>
    rw [List.cons_append, lookup, lookup]
    split_ifs
    · rfl
    · exact ih

theorem find?_ofList_of_pairwise (hl : l.Pairwise fun a b => a.1 < b.1) :
    (ofList l).find? k = lookup k l := by
  induction l using List.reverseRecOn with
  | nil => rfl
  | append_singleton l e ih =>
    obtain ⟨hl, -, hlt⟩ := List.pairwise_append.mp hl
    rw [find?_ofList_append_singleton, ih hl, lookup_append, lookup]
    split_ifs with hk
    · -- no other entry has the last key
      have hnone : lookup k l = none := by
        by_contra hsome
        obtain ⟨v, hv⟩ := Option.ne_none_iff_exists'.mp hsome
        exact absurd hk (hlt _ (mem_of_lookup hv) e (List.mem_singleton_self e)).ne
      rw [hnone]
      rfl
    · exact (Option.or_none).symm

/-- A map is what inserting its own entries leads to. -/
theorem ofList_toList : ofList m.toList = m :=
  ext_find? fun _ => find?_ofList_of_pairwise m.sorted

end OrderedMap

end CodingDemo
