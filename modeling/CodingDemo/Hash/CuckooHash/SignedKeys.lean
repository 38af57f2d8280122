import CodingDemo.Hash.CuckooHash
import CodingDemo.Machine.IntT
import Mathlib.Tactic.Linarith

/-!
# Keys of any sign in the cuckoo hash table

The keys are of type `int`, and so are the indices computed from them. The remainder of a negative
key can be negative, and the key 0 is the one that marks an empty place.

## Main definitions

* `Signed.Entry`, `Signed.Table`: the table with keys of type `int`
* `Signed.Table.reHash`, `insertHashTable`, `findValueByKey`: an index out of range has no result
* `Signed.Table.InRange`: both indices of a key are in range
* `Signed.Table.insertAll`: entries are inserted one after the other

## Main results

* `Signed.Table.inRange_iff`: which keys have indices in range
* `Signed.Table.insertHashTable_ofNat`: keys that are not negative are inserted as in the table
  over the natural numbers
* `Signed.Table.absent_iff`: which absent keys are looked up in range, and not found
-/

namespace CodingDemo.Cuckoo.Signed

structure Entry where
  key : ℤ
  value : ℤ
  deriving DecidableEq

structure Table (nCount : ℕ) where
  table1 : Fin nCount → Entry
  table2 : Fin nCount → Entry

/-- An entry of the table over the natural numbers. -/
def Entry.ofNat (e : Cuckoo.Entry) : Entry := ⟨e.key, e.value⟩

/-- A table over the natural numbers. -/
def Table.ofNat {n : ℕ} (t : Cuckoo.Table n) : Table n where
  table1 i := .ofNat (t.table1 i)
  table2 i := .ofNat (t.table2 i)

def initHashTable (nSize : ℤ) : Table (Cuckoo.getMinPrime nSize) where
  table1 _ := ⟨0, 0⟩
  table2 _ := ⟨0, 0⟩

namespace Table

variable {n : ℕ}

def hashFunc1 (n : ℕ) (key : ℤ) : ℤ := key.tmod n

def hashFunc2 (n : ℕ) (key : ℤ) : ℤ := (key.tdiv n).tmod n

/-- The place with this index, if the array has one. -/
def index (n : ℕ) (i : ℤ) : Option (Fin n) :=
  if h : 0 ≤ i ∧ i < n then some ⟨i.toNat, by omega⟩ else none

def set1 (t : Table n) (i : Fin n) (e : Entry) : Table n :=
  { t with table1 := Function.update t.table1 i e }

def set2 (t : Table n) (i : Fin n) (e : Entry) : Table n :=
  { t with table2 := Function.update t.table2 i e }

def reHash (t : Table n) (e : Entry) : ℕ → Option (Bool × Table n)
  | 0 => some (false, t)
  | deeps + 1 => do
    -- both arrays are read, whichever holds the entry
    let i ← index n (hashFunc1 n e.key)
    let j ← index n (hashFunc2 n e.key)
    if e.key = (t.table1 i).key then
      if (t.table2 j).key = 0 then return (true, t.set2 j e)
      else
        match ← reHash t (t.table2 j) deeps with
        | (true, t) => return (true, t.set2 j e)
        | (false, t) => return (false, t)
    else if e.key = (t.table2 j).key then
      if (t.table1 i).key = 0 then return (true, t.set1 i e)
      else
        match ← reHash t (t.table1 i) deeps with
        | (true, t) => return (true, t.set1 i e)
        | (false, t) => return (false, t)
    else return (false, t)

def insertHashTable (t : Table n) (e : Entry) : Option (Bool × Table n) := do
  let i ← index n (hashFunc1 n e.key)
  if (t.table1 i).key = 0 then return (true, t.set1 i e)
  let j ← index n (hashFunc2 n e.key)
  if (t.table2 j).key = 0 then return (true, t.set2 j e)
  match ← reHash t (t.table1 i) MaxLoop with
  | (true, t) => return (true, t.set1 i e)
  | (false, t) =>
    match ← reHash t (t.table2 j) MaxLoop with
    | (true, t) => return (true, t.set2 j e)
    | (false, t) => return (false, t)

def findValueByKey (t : Table n) (key : ℤ) : Option Bool := do
  let i ← index n (hashFunc1 n key)
  if (t.table1 i).key = key then return true
  let j ← index n (hashFunc2 n key)
  return (t.table2 j).key = key

/-- The entries are inserted one after the other. -/
def insertAll (t : Table n) : List Entry → Option (Table n)
  | [] => some t
  | e :: es => do
    let (_, t) ← t.insertHashTable e
    t.insertAll es

/-! ## Indices in range -/

/-- Both indices of the key are in range. -/
def InRange (n : ℕ) (key : ℤ) : Prop := 0 ≤ hashFunc1 n key ∧ 0 ≤ hashFunc2 n key

instance (n : ℕ) (key : ℤ) : Decidable (InRange n key) := inferInstanceAs (Decidable (_ ∧ _))

/-- A negative key is in range only if it is a multiple of the square of the size. -/
theorem inRange_iff [NeZero n] (key : ℤ) : InRange n key ↔ 0 ≤ key ∨ (n * n : ℤ) ∣ key := by
  have hn : 0 < (n : ℤ) := Int.natCast_pos.mpr (Nat.pos_of_neZero n)
  simp only [InRange, hashFunc1, hashFunc2, tmod_nonneg_iff]
  constructor
  · rintro ⟨h | ⟨c, rfl⟩, h'⟩
    · exact .inl h
    · rw [Int.mul_tdiv_cancel_left c hn.ne'] at h'
      exact h'.imp (Int.mul_nonneg hn.le) (Int.mul_dvd_mul_left (n : ℤ))
  · rintro (h | ⟨c, rfl⟩)
    · exact ⟨.inl h, .inl (Int.tdiv_nonneg h hn.le)⟩
    · rw [Int.mul_assoc, Int.mul_tdiv_cancel_left _ hn.ne']
      exact ⟨.inr ⟨_, rfl⟩, .inr ⟨_, rfl⟩⟩

theorem exists_index [NeZero n] {i : ℤ} (h : 0 ≤ i.tmod n) :
    ∃ j : Fin n, index n (i.tmod n) = some j :=
  ⟨_, dif_pos ⟨h, Int.tmod_lt_of_pos i (Int.natCast_pos.mpr (Nat.pos_of_neZero n))⟩⟩

theorem nonneg_of_index {i : ℤ} {j : Fin n} (h : index n i = some j) : 0 ≤ i := by
  by_contra hneg
  rw [index, dif_neg fun h => hneg h.1] at h
  cases h

/-- A key that is in range has a place in each array. -/
theorem InRange.exists_index [NeZero n] {key : ℤ} (h : InRange n key) :
    ∃ i j : Fin n, index n (hashFunc1 n key) = some i ∧ index n (hashFunc2 n key) = some j := by
  obtain ⟨i, hi⟩ := Table.exists_index h.1
  obtain ⟨j, hj⟩ := Table.exists_index h.2
  exact ⟨i, j, hi, hj⟩

theorem index_zero [NeZero n] : index n 0 = some 0 :=
  dif_pos ⟨le_rfl, Int.natCast_pos.mpr (Nat.pos_of_neZero n)⟩

theorem index_hashFunc1_zero [NeZero n] : index n (hashFunc1 n 0) = some 0 := by
  rw [hashFunc1, Int.zero_tmod, index_zero]

theorem index_hashFunc2_zero [NeZero n] : index n (hashFunc2 n 0) = some 0 := by
  rw [hashFunc2, Int.zero_tdiv, Int.zero_tmod, index_zero]

/-! ## The keys of a table -/

/-- All keys in the arrays have the property, the 0 of the empty places included. -/
def Holds (P : ℤ → Prop) (t : Table n) : Prop :=
  (∀ i, P (t.table1 i).key) ∧ ∀ i, P (t.table2 i).key

variable {P : ℤ → Prop} {t : Table n} {e : Entry}

theorem Holds.set1 (h : t.Holds P) (he : P e.key) (i : Fin n) : (t.set1 i e).Holds P := by
  refine ⟨fun i' => ?_, h.2⟩
  simp only [Table.set1, Function.update_apply]
  split_ifs
  · exact he
  · exact h.1 i'

theorem Holds.set2 (h : t.Holds P) (he : P e.key) (i : Fin n) : (t.set2 i e).Holds P := by
  refine ⟨h.1, fun i' => ?_⟩
  simp only [Table.set2, Function.update_apply]
  split_ifs
  · exact he
  · exact h.2 i'

section InRange

variable [NeZero n] (hP : ∀ key, P key → InRange n key)
include hP

/-- Moving entries only reads places in range, and brings no other keys. -/
theorem Holds.exists_reHash (h : t.Holds P) (he : P e.key) (deeps : ℕ) :
    ∃ r t', t.reHash e deeps = some (r, t') ∧ t'.Holds P := by
  induction deeps generalizing e with
  | zero => exact ⟨false, t, rfl, h⟩
  | succ deeps ih =>
    obtain ⟨i, j, hi, hj⟩ := (hP _ he).exists_index
    simp only [reHash, hi, hj, Option.bind_eq_bind, Option.bind_some]
    split_ifs
    · exact ⟨_, _, rfl, h.set2 he j⟩
    · obtain ⟨r, t', heq, h'⟩ := ih (h.2 j)
      cases r with
      | true => exact ⟨_, _, by rw [heq]; rfl, h'.set2 he j⟩
      | false => exact ⟨_, _, by rw [heq]; rfl, h'⟩
    · exact ⟨_, _, rfl, h.set1 he i⟩
    · obtain ⟨r, t', heq, h'⟩ := ih (h.1 i)
      cases r with
      | true => exact ⟨_, _, by rw [heq]; rfl, h'.set1 he i⟩
      | false => exact ⟨_, _, by rw [heq]; rfl, h'⟩
    · exact ⟨_, _, rfl, h⟩

theorem Holds.exists_insertHashTable (h : t.Holds P) (he : P e.key) :
    ∃ r t', t.insertHashTable e = some (r, t') ∧ t'.Holds P := by
  obtain ⟨i, j, hi, hj⟩ := (hP _ he).exists_index
  simp only [insertHashTable, hi, hj, Option.bind_eq_bind, Option.bind_some]
  split_ifs
  · exact ⟨_, _, rfl, h.set1 he i⟩
  · exact ⟨_, _, rfl, h.set2 he j⟩
  · obtain ⟨r, t', heq, h'⟩ := h.exists_reHash hP (h.1 i) MaxLoop
    cases r with
    | true => exact ⟨_, _, by rw [heq]; rfl, h'.set1 he i⟩
    | false =>
      obtain ⟨r', t'', heq', h''⟩ := h'.exists_reHash hP (h'.2 j) MaxLoop
      rw [heq, Option.bind_some]
      dsimp only
      rw [heq', Option.bind_some]
      cases r' with
      | true => exact ⟨_, _, rfl, h''.set2 he j⟩
      | false => exact ⟨_, _, rfl, h''⟩

theorem Holds.exists_insertAll {es : List Entry} (h : t.Holds P) (hes : ∀ e ∈ es, P e.key) :
    ∃ t', t.insertAll es = some t' ∧ t'.Holds P := by
  induction es generalizing t with
  | nil => exact ⟨t, rfl, h⟩
  | cons e es ih =>
    obtain ⟨he, hes⟩ := List.forall_mem_cons.mp hes
    obtain ⟨r, t₁, heq, h₁⟩ := h.exists_insertHashTable hP he
    obtain ⟨t₂, heq₂, h₂⟩ := ih h₁ hes
    exact ⟨t₂, by rw [insertAll, heq]; exact heq₂, h₂⟩

end InRange

/-! ## Keys that are not negative -/

section OfNat

variable [NeZero n] (t : Cuckoo.Table n) (e : Cuckoo.Entry)

omit [NeZero n] in
@[simp] theorem table1_ofNat (i : Fin n) : (ofNat t).table1 i = .ofNat (t.table1 i) := rfl

omit [NeZero n] in
@[simp] theorem table2_ofNat (i : Fin n) : (ofNat t).table2 i = .ofNat (t.table2 i) := rfl

@[simp] theorem key_ofNat : (Entry.ofNat e).key = e.key := rfl

theorem index_hashFunc1 (key : ℕ) :
    index n (hashFunc1 n key) = some (Cuckoo.Table.hashFunc1 n key) := by
  rw [hashFunc1, ← Int.ofNat_tmod]
  exact dif_pos ⟨Int.natCast_nonneg _, Int.ofNat_lt.mpr (Nat.mod_lt _ (Nat.pos_of_neZero n))⟩

theorem index_hashFunc2 (key : ℕ) :
    index n (hashFunc2 n key) = some (Cuckoo.Table.hashFunc2 n key) := by
  rw [hashFunc2, ← Int.ofNat_tdiv, ← Int.ofNat_tmod]
  exact dif_pos ⟨Int.natCast_nonneg _, Int.ofNat_lt.mpr (Nat.mod_lt _ (Nat.pos_of_neZero n))⟩

omit [NeZero n] in
theorem set1_ofNat (i : Fin n) : (ofNat t).set1 i (.ofNat e) = ofNat (t.set1 i e) := by
  simp only [ofNat, set1, Cuckoo.Table.set1, mk.injEq, and_true]
  exact (Function.comp_update Entry.ofNat t.table1 i e).symm

omit [NeZero n] in
theorem set2_ofNat (i : Fin n) : (ofNat t).set2 i (.ofNat e) = ofNat (t.set2 i e) := by
  simp only [ofNat, set2, Cuckoo.Table.set2, mk.injEq, true_and]
  exact (Function.comp_update Entry.ofNat t.table2 i e).symm

theorem reHash_ofNat (deeps : ℕ) :
    (ofNat t).reHash (.ofNat e) deeps = some ((t.reHash e deeps).map id ofNat) := by
  induction deeps generalizing t e with
  | zero => rfl
  | succ deeps ih =>
    simp only [reHash, Cuckoo.Table.reHash, table1_ofNat, table2_ofNat, key_ofNat,
      index_hashFunc1, index_hashFunc2, Option.bind_eq_bind, Option.bind_some, Nat.cast_inj,
      Nat.cast_eq_zero, ih]
    split_ifs
    · rw [set2_ofNat]
      rfl
    · rcases t.reHash (t.table2 _) deeps with ⟨_ | _, t'⟩
      · rfl
      · exact congrArg (fun t => some (true, t)) (set2_ofNat t' e _)
    · rw [set1_ofNat]
      rfl
    · rcases t.reHash (t.table1 _) deeps with ⟨_ | _, t'⟩
      · rfl
      · exact congrArg (fun t => some (true, t)) (set1_ofNat t' e _)
    · rfl

/-- An entry is inserted as in the table over the natural numbers. -/
theorem insertHashTable_ofNat :
    (ofNat t).insertHashTable (.ofNat e) = some ((t.insertHashTable e).map id ofNat) := by
  simp only [insertHashTable, Cuckoo.Table.insertHashTable, table1_ofNat, table2_ofNat, key_ofNat,
    index_hashFunc1, index_hashFunc2, Option.bind_eq_bind, Option.bind_some, Nat.cast_eq_zero,
    reHash_ofNat]
  split_ifs
  · rw [set1_ofNat]
    rfl
  · rw [set2_ofNat]
    rfl
  · rcases t.reHash (t.table1 _) MaxLoop with ⟨_ | _, t'⟩
    · simp only [Option.bind_some, Prod.map_apply, id_eq, table2_ofNat, reHash_ofNat]
      rcases t'.reHash (t'.table2 _) MaxLoop with ⟨_ | _, t''⟩
      · rfl
      · exact congrArg (fun t => some (true, t)) (set2_ofNat t'' e _)
    · exact congrArg (fun t => some (true, t)) (set1_ofNat t' e _)

theorem findValueByKey_ofNat (key : ℕ) :
    (ofNat t).findValueByKey key = some (t.findValueByKey key) := by
  simp only [findValueByKey, Cuckoo.Table.findValueByKey, table1_ofNat, table2_ofNat, key_ofNat,
    index_hashFunc1, index_hashFunc2, Option.bind_eq_bind, Option.bind_some, Nat.cast_inj]
  split_ifs <;> rfl

end OfNat

/-! ## Absent keys -/

variable {k : ℤ}

theorem findValueByKey_eq_false_iff : t.findValueByKey k = some false ↔
    ∃ i j, index n (hashFunc1 n k) = some i ∧ index n (hashFunc2 n k) = some j ∧
      (t.table1 i).key ≠ k ∧ (t.table2 j).key ≠ k := by
  unfold findValueByKey
  cases index n (hashFunc1 n k) with
  | none => simp
  | some i =>
    by_cases hi : (t.table1 i).key = k
    · simp [hi]
    · cases index n (hashFunc2 n k) with
      | none => simp [hi]
      | some j => simp [hi]

variable [NeZero n]

/-- An insertion of the key stays in range, and so does a search, which does not find it. -/
def SafelyAbsent (t : Table n) (k : ℤ) : Prop :=
  (∀ value, ∃ r, t.insertHashTable ⟨k, value⟩ = some r) ∧ t.findValueByKey k = some false

/-- The key is in range and, if it is 0, no place where it could be is empty. -/
def Addressable (t : Table n) (k : ℤ) : Prop :=
  InRange n k ∧ (k = 0 → (t.table1 0).key ≠ 0 ∧ (t.table2 0).key ≠ 0)

/-- A search for a key that no entry has fails if the key is addressable. -/
theorem findValueByKey_iff_addressable (h : t.Holds fun key => key = k → key = 0) :
    t.findValueByKey k = some false ↔ t.Addressable k := by
  rw [findValueByKey_eq_false_iff]
  constructor
  · rintro ⟨i, j, hi, hj, hki, hkj⟩
    refine ⟨⟨nonneg_of_index hi, nonneg_of_index hj⟩, ?_⟩
    rintro rfl
    obtain rfl : 0 = i := Option.some.inj (index_hashFunc1_zero.symm.trans hi)
    obtain rfl : 0 = j := Option.some.inj (index_hashFunc2_zero.symm.trans hj)
    exact ⟨hki, hkj⟩
  · rintro ⟨hrange, hzero⟩
    obtain ⟨i, j, hi, hj⟩ := hrange.exists_index
    refine ⟨i, j, hi, hj, fun hk => ?_, fun hk => ?_⟩
    · -- only the key 0 can be equal to that of a place
      obtain rfl := hk.symm.trans (h.1 i hk)
      obtain rfl : 0 = i := Option.some.inj (index_hashFunc1_zero.symm.trans hi)
      exact (hzero rfl).1 hk
    · obtain rfl := hk.symm.trans (h.2 j hk)
      obtain rfl : 0 = j := Option.some.inj (index_hashFunc2_zero.symm.trans hj)
      exact (hzero rfl).2 hk

theorem safelyAbsent_iff_addressable (h : t.Holds fun key => InRange n key ∧ (key = k → key = 0)) :
    t.SafelyAbsent k ↔ t.Addressable k := by
  have hfind := findValueByKey_iff_addressable ⟨fun i => (h.1 i).2, fun i => (h.2 i).2⟩
  rw [SafelyAbsent, hfind]
  refine and_iff_right_of_imp fun haddr value => ?_
  obtain ⟨r, t', heq, -⟩ := Holds.exists_insertHashTable (e := ⟨k, value⟩) (fun _ hkey => hkey)
    ⟨fun i => (h.1 i).1, fun i => (h.2 i).1⟩ haddr.1
  exact ⟨_, heq⟩

/-- **An absent key is looked up in range, and not found**, after keys in range have been inserted,
exactly if it is addressable. -/
theorem absent_iff_addressable {nSize : ℤ} {es : List Entry} (habsent : ∀ e ∈ es, e.key ≠ k)
    (hrange : ∀ e ∈ es, InRange (Cuckoo.getMinPrime nSize) e.key) :
    ∃ t, (initHashTable nSize).insertAll es = some t ∧ (t.SafelyAbsent k ↔ t.Addressable k) := by
  have hzero : InRange (Cuckoo.getMinPrime nSize) 0 := (inRange_iff 0).mpr (.inl le_rfl)
  obtain ⟨t, heq, ht⟩ := Holds.exists_insertAll (t := initHashTable nSize)
    (P := fun key => InRange _ key ∧ (key = k → key = 0)) (fun _ hkey => hkey.1)
    ⟨fun _ => ⟨hzero, fun _ => rfl⟩, fun _ => ⟨hzero, fun _ => rfl⟩⟩
    fun e he => ⟨hrange e he, fun hk => absurd hk (habsent e he)⟩
  exact ⟨t, heq, safelyAbsent_iff_addressable ht⟩

/-- A negative key is not in range, and 0 is found in an empty place. -/
theorem not_safelyAbsent_initHashTable :
    ¬(initHashTable 12).SafelyAbsent (-1) ∧ ¬(initHashTable 12).SafelyAbsent 0 := by
  have hblank : ∀ k, (initHashTable 12).Holds fun key => key = k → key = 0 :=
    fun k => ⟨fun _ _ => rfl, fun _ _ => rfl⟩
  constructor
  · rintro ⟨-, hfind⟩
    obtain ⟨hrange, -⟩ := (findValueByKey_iff_addressable (hblank (-1))).mp hfind
    rcases (inRange_iff (-1)).mp hrange with h | h
    · omega
    · have hle := Int.le_of_dvd one_pos (Int.dvd_neg.mp h)
      have hsize := Cuckoo.le_getMinPrime 12
      nlinarith
  · rintro ⟨-, hfind⟩
    obtain ⟨-, hzero⟩ := (findValueByKey_iff_addressable (hblank 0)).mp hfind
    exact (hzero rfl).1 rfl

/-- The square of the size of the arrays. -/
def square : ℤ := Cuckoo.getMinPrime 12 * Cuckoo.getMinPrime 12

/-- A negative multiple of the square is looked up after another one has been inserted. -/
theorem absent_iff_addressable_neg :
    ∃ t, (initHashTable 12).insertAll [⟨1, 20⟩, ⟨-2 * square, 30⟩] = some t ∧
      t.SafelyAbsent (-1 * square) := by
  have hpos : 0 < square := by
    have hn : 0 < (Cuckoo.getMinPrime 12 : ℤ) := Int.natCast_pos.mpr (Cuckoo.getMinPrime_pos 12)
    exact Int.mul_pos hn hn
  have hmultiple (c : ℤ) : InRange (Cuckoo.getMinPrime 12) (c * square) :=
    (inRange_iff _).mpr (.inr (Int.dvd_mul_left c square))
  have hone : InRange (Cuckoo.getMinPrime 12) 1 := (inRange_iff 1).mpr (.inl Int.one_nonneg)
  obtain ⟨t, heq, hiff⟩ := @absent_iff_addressable (-1 * square) 12 [⟨1, 20⟩, ⟨-2 * square, 30⟩]
    (List.forall_mem_cons.mpr ⟨by dsimp; omega, List.forall_mem_singleton.mpr (by dsimp; omega)⟩)
    (List.forall_mem_cons.mpr ⟨hone, List.forall_mem_singleton.mpr (hmultiple (-2))⟩)
  exact ⟨t, heq, hiff.mpr ⟨hmultiple (-1), fun hzero => by omega⟩⟩

end Table

end CodingDemo.Cuckoo.Signed
