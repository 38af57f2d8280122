import CodingDemo.Container.Displacement
import CodingDemo.Machine.Run
import Mathlib.Data.Fintype.Sum
import Mathlib.Data.Nat.Prime.Infinite
import Mathlib.Data.Nat.Sqrt

/-!
# The cuckoo hash table

The table has two arrays, and each key a place in both. An entry whose two places are taken is
put into one of them, and the entry that was there moves to its other place, which may displace
the next entry.

## Main definitions

* `Entry`, `Table`: the entries, and the two arrays; the key 0 marks an empty place
* `isPrime`, `getMinPrime`, `initHashTable`: a new table
* `reHash`: move an entry to its other place
* `insertHashTable`, `findValueByKey`: insert an entry, look a key up
* `Room`: there is a route along which an entry can be inserted
* `CuckooHash.machine`: the runs of insertions

## Main results

* `reHash_eq`, `insertHashTable_eq`: both succeed exactly when there is a short route
* `CuckooHash.holds_accepted`: the table holds the entries that have been accepted
* `CuckooHash.unique_iff`: in which runs a key is stored only once
* `CuckooHash.unchanged_of_failed`: a failed insertion changes nothing
-/

namespace CodingDemo.Cuckoo

def MaxLoop : ℕ := 1000

structure Entry where
  key : ℕ
  value : ℤ
  deriving DecidableEq

/-- An empty place, as `memset` leaves it. -/
def Entry.zero : Entry := ⟨0, 0⟩

/-- The two arrays of `nCount` places. -/
structure Table (nCount : ℕ) where
  table1 : Fin nCount → Entry
  table2 : Fin nCount → Entry

/-! ## A new table -/

/-- No number from 2 to the square root divides the value. -/
def isPrime (value : ℤ) : Bool :=
  0 < value && (List.range' 2 (Nat.sqrt value.toNat - 1)).all fun i => value % i ≠ 0

theorem isPrime_of_prime {p : ℕ} (hp : p.Prime) : isPrime p = true := by
  simp only [isPrime, Bool.and_eq_true, decide_eq_true_eq, List.all_eq_true, List.mem_range'_1,
    Int.toNat_natCast]
  refine ⟨Int.natCast_pos.mpr hp.pos, fun i hi hmod => ?_⟩
  have hdvd : i ∣ p := Int.natCast_dvd_natCast.mp (Int.dvd_of_emod_eq_zero hmod)
  have hsqrt : i ≤ Nat.sqrt p := by omega
  obtain rfl | rfl := (Nat.dvd_prime hp).mp hdvd
  · omega
  · exact absurd (Nat.sqrt_lt_self hp.one_lt) (by omega)

theorem exists_isPrime (value : ℤ) : ∃ k : ℕ, isPrime (value + k) = true := by
  obtain ⟨p, hle, hp⟩ := Nat.exists_infinite_primes value.toNat
  refine ⟨(p - value).toNat, ?_⟩
  have hsum : value + ((p - value).toNat : ℕ) = p := by omega
  rw [hsum]
  exact isPrime_of_prime hp

/-- The first value from `value` on that passes `isPrime`. -/
def getMinPrime (value : ℤ) : ℕ := (value + Nat.find (exists_isPrime value)).toNat

theorem getMinPrime_pos (value : ℤ) : 0 < getMinPrime value := by
  have h := Nat.find_spec (exists_isPrime value)
  rw [isPrime, Bool.and_eq_true, decide_eq_true_eq] at h
  unfold getMinPrime
  omega

theorem le_getMinPrime (value : ℤ) : value ≤ getMinPrime value := by
  unfold getMinPrime
  omega

instance (value : ℤ) : NeZero (getMinPrime value) := ⟨(getMinPrime_pos value).ne'⟩

def initHashTable (nSize : ℤ) : Table (getMinPrime nSize) where
  table1 _ := .zero
  table2 _ := .zero

namespace Table

variable {n : ℕ} [NeZero n]

/-! ## The functions of the table -/

def hashFunc1 (n : ℕ) [NeZero n] (key : ℕ) : Fin n :=
  ⟨key % n, Nat.mod_lt _ (Nat.pos_of_neZero n)⟩

def hashFunc2 (n : ℕ) [NeZero n] (key : ℕ) : Fin n :=
  ⟨key / n % n, Nat.mod_lt _ (Nat.pos_of_neZero n)⟩

/-- `t->table1[i] = e` -/
def set1 (t : Table n) (i : Fin n) (e : Entry) : Table n :=
  { t with table1 := Function.update t.table1 i e }

/-- `t->table2[i] = e` -/
def set2 (t : Table n) (i : Fin n) (e : Entry) : Table n :=
  { t with table2 := Function.update t.table2 i e }

/-- Move `e` to its other place, at most `deeps` entries deep; the result is 1 or 0, and the table
after the call. -/
def reHash (t : Table n) (e : Entry) : ℕ → Bool × Table n
  | 0 => (false, t)
  | deeps + 1 =>
    let hashKey1 := hashFunc1 n e.key
    let hashKey2 := hashFunc2 n e.key
    -- the key, and not the array that the caller looks at, decides where the entry is
    if e.key = (t.table1 hashKey1).key then
      if (t.table2 hashKey2).key = 0 then (true, t.set2 hashKey2 e)
      else
        match reHash t (t.table2 hashKey2) deeps with
        | (true, t) => (true, t.set2 hashKey2 e)
        | (false, t) => (false, t)
    else if e.key = (t.table2 hashKey2).key then
      if (t.table1 hashKey1).key = 0 then (true, t.set1 hashKey1 e)
      else
        match reHash t (t.table1 hashKey1) deeps with
        | (true, t) => (true, t.set1 hashKey1 e)
        | (false, t) => (false, t)
    else (false, t)

def insertHashTable (t : Table n) (e : Entry) : Bool × Table n :=
  let hashKey1 := hashFunc1 n e.key
  let hashKey2 := hashFunc2 n e.key
  if (t.table1 hashKey1).key = 0 then (true, t.set1 hashKey1 e)
  else if (t.table2 hashKey2).key = 0 then (true, t.set2 hashKey2 e)
  else
    match reHash t (t.table1 hashKey1) MaxLoop with
    | (true, t) => (true, t.set1 hashKey1 e)
    | (false, t) =>
      match reHash t (t.table2 hashKey2) MaxLoop with
      | (true, t) => (true, t.set2 hashKey2 e)
      -- the table is full
      | (false, t) => (false, t)

def findValueByKey (t : Table n) (key : ℕ) : Bool :=
  if (t.table1 (hashFunc1 n key)).key = key then true
  else (t.table2 (hashFunc2 n key)).key = key

/-! ## Places, and the routes between them -/

/-- The places of the two arrays. -/
abbrev Slot (n : ℕ) := Fin n ⊕ Fin n

def slots (t : Table n) : Slot n → Entry := Sum.elim t.table1 t.table2

/-- The table with these entries. -/
def ofSlots (f : Slot n → Entry) : Table n := ⟨f ∘ Sum.inl, f ∘ Sum.inr⟩

def set (t : Table n) (s : Slot n) (e : Entry) : Table n :=
  match s with
  | .inl i => t.set1 i e
  | .inr i => t.set2 i e

/-- An empty place. -/
def Vacant (e : Entry) : Prop := e.key = 0

instance : DecidablePred Vacant := fun e => inferInstanceAs (Decidable (e.key = 0))

/-- The place of a key in the first array. -/
def place1 (n : ℕ) [NeZero n] (key : ℕ) : Slot n := .inl (hashFunc1 n key)

/-- The place of a key in the second array. -/
def place2 (n : ℕ) [NeZero n] (key : ℕ) : Slot n := .inr (hashFunc2 n key)

def Home (s : Slot n) (key : ℕ) : Prop := s = place1 n key ∨ s = place2 n key

/-- The place to which `reHash` moves an entry. -/
def next (t : Table n) (e : Entry) : Option (Slot n) :=
  if e.key = (t.table1 (hashFunc1 n e.key)).key then some (.inr (hashFunc2 n e.key))
  else if e.key = (t.table2 (hashFunc2 n e.key)).key then some (.inl (hashFunc1 n e.key))
  else none

variable {t t' : Table n} {e : Entry} {s : Slot n} {l : List (Slot n)} {deeps : ℕ}

omit [NeZero n] in
@[simp] theorem slots_ofSlots (f : Slot n → Entry) : (ofSlots f).slots = f := by
  funext s
  cases s <;> rfl

omit [NeZero n] in
@[simp] theorem ofSlots_slots (t : Table n) : ofSlots t.slots = t := rfl

omit [NeZero n] in
theorem set_ofSlots (f : Slot n → Entry) (s : Slot n) (e : Entry) :
    (ofSlots f).set s e = ofSlots (Function.update f s e) := by
  cases s with
  | inl i =>
    simp only [set, set1, ofSlots, Table.mk.injEq]
    exact ⟨(Function.update_comp_eq_of_injective f Sum.inl_injective i e).symm,
      (Function.update_comp_eq_of_forall_ne f e fun _ => Sum.inr_ne_inl).symm⟩
  | inr i =>
    simp only [set, set2, ofSlots, Table.mk.injEq]
    exact ⟨(Function.update_comp_eq_of_forall_ne f e fun _ => Sum.inl_ne_inr).symm,
      (Function.update_comp_eq_of_injective f Sum.inr_injective i e).symm⟩

omit [NeZero n] in
theorem slots_set (t : Table n) (s : Slot n) (e : Entry) :
    (t.set s e).slots = Function.update t.slots s e :=
  (congrArg slots (set_ofSlots t.slots s e)).trans (slots_ofSlots _)

theorem place1_ne_place2 {key key' : ℕ} : place1 n key ≠ place2 n key' := Sum.inl_ne_inr

theorem home_of_next (h : t.next e = some s) : Home s e.key := by
  unfold next at h
  split_ifs at h
  · exact .inr (Option.some.inj h).symm
  · exact .inl (Option.some.inj h).symm

/-- One call of `reHash`: the place is vacant, or its entry is moved first. -/
theorem reHash_succ (t : Table n) (e : Entry) (deeps : ℕ) :
    t.reHash e (deeps + 1) =
      match t.next e with
      | none => (false, t)
      | some s =>
        if Vacant (t.slots s) then (true, t.set s e)
        else
          match t.reHash (t.slots s) deeps with
          | (true, t) => (true, t.set s e)
          | (false, t) => (false, t) := by
  rw [reHash, next]
  by_cases h₁ : e.key = (t.table1 (hashFunc1 n e.key)).key
  · simp only [if_pos h₁]
    rfl
  · simp only [if_neg h₁]
    by_cases h₂ : e.key = (t.table2 (hashFunc2 n e.key)).key
    · simp only [if_pos h₂]
      rfl
    · simp only [if_neg h₂]

/-- The entries move along the route to the place freed for `e`. -/
def Moves (t : Table n) (s : Slot n) (l : List (Slot n)) : Prop := Route t.next Vacant t.slots s l

/-- **`reHash` succeeds** exactly if the other place of the entry can be freed by at most `deeps`
moves, and then moves the entries. Otherwise it leaves the table as it is. -/
theorem reHash_eq (t : Table n) (e : Entry) (deeps : ℕ) :
    (∃ s l, t.next e = some s ∧ t.Moves s l ∧ l.length ≤ deeps ∧
      t.reHash e deeps = (true, ofSlots (shift t.slots e l))) ∨
    ((∀ s l, t.next e = some s → t.Moves s l → deeps < l.length) ∧
      t.reHash e deeps = (false, t)) := by
  induction deeps generalizing e with
  | zero => exact .inr ⟨fun s l _ hm => List.length_pos_of_ne_nil hm.ne_nil, rfl⟩
  | succ deeps ih =>
    rw [reHash_succ]
    cases hnext : t.next e with
    | none => exact .inr ⟨fun s l h => (nomatch h), rfl⟩
    | some s =>
      dsimp only
      split_ifs with hv
      · -- the other place is free, and the route ends there
        refine .inl ⟨s, [s], rfl, .vacant hv, Nat.succ_le_succ (Nat.zero_le _), ?_⟩
        have hset := set_ofSlots t.slots s e
        rw [ofSlots_slots] at hset
        rw [hset]
        rfl
      · -- the entry there has to move first
        obtain ⟨s', l, hs', hm, hlen, heq⟩ | ⟨hlong, heq⟩ := ih (t.slots s)
        · refine .inl ⟨s, s :: l, rfl, .move hv hs' hm, Nat.succ_le_succ hlen, ?_⟩
          rw [heq, shift_cons, ← set_ofSlots]
        · refine .inr ⟨fun s₁ l h hm => ?_, by rw [heq]⟩
          obtain rfl := Option.some.inj h
          cases hm with
          | vacant hv' => exact absurd hv' hv
          | move _ hs' hrest => exact Nat.succ_lt_succ (hlong _ _ hs' hrest)

/-- A call of `insertHashTable`: a vacant place is taken, or else the entry of one is moved. -/
theorem insertHashTable_def (t : Table n) (e : Entry) :
    t.insertHashTable e =
      if Vacant (t.slots (place1 n e.key)) then (true, t.set (place1 n e.key) e)
      else if Vacant (t.slots (place2 n e.key)) then (true, t.set (place2 n e.key) e)
      else
        match t.reHash (t.slots (place1 n e.key)) MaxLoop with
        | (true, t) => (true, t.set (place1 n e.key) e)
        | (false, t) =>
          match t.reHash (t.slots (place2 n e.key)) MaxLoop with
          | (true, t) => (true, t.set (place2 n e.key) e)
          | (false, t) => (false, t) := rfl

/-- One of the two places of the entry can be freed by at most `MaxLoop` moves. -/
def Room (t : Table n) (e : Entry) : Prop :=
  ∃ s l, Home s e.key ∧ t.Moves s l ∧ l.length ≤ MaxLoop + 1

/-- The entry has been put into the place `s` along a route. -/
def Inserts (t : Table n) (e : Entry) (s : Slot n) (t' : Table n) : Prop :=
  ∃ l, t.Moves s l ∧ l.length ≤ MaxLoop + 1 ∧ t' = ofSlots (shift t.slots e l)

/-- A vacant place is taken at once. -/
theorem inserts_of_vacant (hv : Vacant (t.slots s)) : t.Inserts e s (t.set s e) :=
  ⟨[s], .vacant hv, Nat.succ_le_succ (Nat.zero_le _), set_ofSlots t.slots s e⟩

/-- A place that is taken is freed by moving its entry. -/
theorem reHash_slots (e : Entry) (hv : ¬Vacant (t.slots s)) :
    (∃ t', t.reHash (t.slots s) MaxLoop = (true, t') ∧ t.Inserts e s (t'.set s e)) ∨
    (t.reHash (t.slots s) MaxLoop = (false, t) ∧ ∀ l, t.Moves s l → MaxLoop + 1 < l.length) := by
  obtain ⟨s', l, hs', hm, hlen, heq⟩ | ⟨hlong, heq⟩ := reHash_eq t (t.slots s) MaxLoop
  · exact .inl ⟨_, heq, s :: l, .move hv hs' hm, Nat.succ_le_succ hlen, set_ofSlots _ _ _⟩
  · refine .inr ⟨heq, fun l hm => ?_⟩
    cases hm with
    | vacant hv' => exact absurd hv' hv
    | move _ hs' hrest => exact Nat.succ_lt_succ (hlong _ _ hs' hrest)

/-- **`insertHashTable` succeeds** exactly if there is room, and then moves the entries along a
route that starts at a place of the new one. Otherwise it leaves the table as it is. -/
theorem insertHashTable_eq (t : Table n) (e : Entry) :
    (∃ s t', t.insertHashTable e = (true, t') ∧ Home s e.key ∧ t.Inserts e s t') ∨
    (t.insertHashTable e = (false, t) ∧ ¬t.Room e) := by
  rw [insertHashTable_def]
  by_cases hv₁ : Vacant (t.slots (place1 n e.key))
  · exact .inl ⟨_, _, if_pos hv₁, .inl rfl, inserts_of_vacant hv₁⟩
  by_cases hv₂ : Vacant (t.slots (place2 n e.key))
  · rw [if_neg hv₁]
    exact .inl ⟨_, _, if_pos hv₂, .inr rfl, inserts_of_vacant hv₂⟩
  rw [if_neg hv₁, if_neg hv₂]
  obtain ⟨t', heq₁, hins⟩ | ⟨heq₁, hlong₁⟩ := reHash_slots e hv₁
  · rw [heq₁]
    exact .inl ⟨_, _, rfl, .inl rfl, hins⟩
  obtain ⟨t', heq₂, hins⟩ | ⟨heq₂, hlong₂⟩ := reHash_slots e hv₂
  · simp only [heq₁, heq₂]
    exact .inl ⟨_, _, rfl, .inr rfl, hins⟩
  · simp only [heq₁, heq₂]
    -- the routes from both places are too long
    refine .inr ⟨trivial, ?_⟩
    rintro ⟨s, l, rfl | rfl, hm, hlen⟩
    · exact absurd hlen (hlong₁ l hm).not_ge
    · exact absurd hlen (hlong₂ l hm).not_ge

/-! ## What an insertion keeps -/

/-- The entries of both arrays. -/
def entries (t : Table n) : Multiset Entry := CodingDemo.entries Vacant t.slots

/-- Every entry is in one of its two places. -/
def Placed (t : Table n) : Prop := ∀ s, ¬Vacant (t.slots s) → Home s (t.slots s).key

theorem Inserts.entries_eq (h : t.Inserts e s t') (he : 0 < e.key) :
    t'.entries = e ::ₘ t.entries := by
  obtain ⟨l, hm, -, rfl⟩ := h
  rw [entries, slots_ofSlots]
  exact hm.entries_shift (Nat.pos_iff_ne_zero.mp he)

theorem Inserts.placed (h : t.Inserts e s t') (hs : Home s e.key) (hp : t.Placed) : t'.Placed := by
  obtain ⟨l, hm, -, rfl⟩ := h
  rw [Placed, slots_ofSlots]
  exact hm.shift_of (R := fun x e => ¬Vacant e → Home x e.key) hp
    (fun _ _ _ hnext _ => home_of_next hnext) fun _ => hs

theorem Inserts.room (h : t.Inserts e s t') (hs : Home s e.key) : t.Room e := by
  obtain ⟨l, hm, hlen, -⟩ := h
  exact ⟨s, l, hs, hm, hlen⟩

/-- A key is found exactly if an entry with this key is in the table. -/
theorem findValueByKey_iff (hp : t.Placed) {key : ℕ} (hkey : 0 < key) :
    t.findValueByKey key = true ↔ ∃ e ∈ t.entries, e.key = key := by
  have hfind : t.findValueByKey key = true ↔
      (t.slots (place1 n key)).key = key ∨ (t.slots (place2 n key)).key = key := by
    unfold findValueByKey
    split_ifs with h
    · exact iff_of_true rfl (.inl h)
    · rw [decide_eq_true_iff]
      exact (or_iff_right h).symm
  rw [hfind]
  constructor
  · rintro (h | h)
    · exact ⟨_, mem_entries.mpr ⟨⟨_, rfl⟩, (hkey.trans_eq h.symm).ne'⟩, h⟩
    · exact ⟨_, mem_entries.mpr ⟨⟨_, rfl⟩, (hkey.trans_eq h.symm).ne'⟩, h⟩
  · rintro ⟨e, he, rfl⟩
    obtain ⟨⟨s, rfl⟩, hv⟩ := mem_entries.mp he
    obtain hs | hs := hp s hv
    · rw [← hs]
      exact .inl rfl
    · rw [← hs]
      exact .inr rfl

/-- Each key is in at most one place. -/
def Unique (t : Table n) : Prop :=
  ∀ s s', 0 < (t.slots s).key → (t.slots s).key = (t.slots s').key → s = s'

omit [NeZero n] in
theorem unique_iff_nodup : t.Unique ↔ (t.entries.map Entry.key).Nodup := by
  refine Iff.trans ?_ nodup_map_entries.symm
  constructor
  · exact fun h s s' hs _ heq => h s s' (Nat.pos_of_ne_zero hs) heq
  · exact fun h s s' hs heq => h s s' hs.ne' (hs.trans_eq heq).ne' heq

omit [NeZero n] in
theorem mem_map_key (he : 0 < e.key) :
    e.key ∈ t.entries.map Entry.key ↔ ∃ s, (t.slots s).key = e.key := by
  rw [Multiset.mem_map]
  constructor
  · rintro ⟨e', he', heq⟩
    obtain ⟨⟨s, rfl⟩, -⟩ := mem_entries.mp he'
    exact ⟨s, heq⟩
  · rintro ⟨s, hs⟩
    exact ⟨_, mem_entries.mpr ⟨⟨s, rfl⟩, (he.trans_eq hs.symm).ne'⟩, hs⟩

/-- An insertion keeps the keys unique exactly if the key is new. -/
theorem Inserts.unique_iff_new (h : t.Inserts e s t') (he : 0 < e.key) (hu : t.Unique) :
    t'.Unique ↔ ∀ s, (t.slots s).key ≠ e.key := by
  rw [unique_iff_nodup, h.entries_eq he, Multiset.map_cons, Multiset.nodup_cons,
    and_iff_left (unique_iff_nodup.mp hu), mem_map_key he, not_exists]

end Table

/-! ## Runs of insertions -/

/-- The table, and the entries whose insertion has returned 1. -/
structure CuckooHash (n : ℕ) where
  table : Table n
  accepted : Multiset Entry

namespace CuckooHash

variable {nSize : ℤ}

def insert {n : ℕ} [NeZero n] (q : CuckooHash n) (e : Entry) : CuckooHash n :=
  match q.table.insertHashTable e with
  | (true, table) => ⟨table, e ::ₘ q.accepted⟩
  | (false, table) => ⟨table, q.accepted⟩

/-- A new table into which entries with positive keys are inserted. -/
def machine (nSize : ℤ) : Machine (CuckooHash (getMinPrime nSize)) Entry Empty where
  init q := q = ⟨initHashTable nSize, 0⟩
  enabled _ e := 0 < e.key
  step q e := .ok (q.insert e)

variable {q q' : CuckooHash (getMinPrime nSize)} {e : Entry}

/-- An insertion is accepted exactly if there is room. -/
theorem insert_cases {n : ℕ} [NeZero n] (q : CuckooHash n) (e : Entry) :
    (∃ s t', Table.Home s e.key ∧ q.table.Inserts e s t' ∧ q.insert e = ⟨t', e ::ₘ q.accepted⟩) ∨
    (¬q.table.Room e ∧ q.insert e = q) := by
  obtain ⟨s, t', heq, hs, hins⟩ | ⟨heq, hroom⟩ := q.table.insertHashTable_eq e
  · exact .inl ⟨s, t', hs, hins, by rw [insert, heq]⟩
  · exact .inr ⟨hroom, by rw [insert, heq]⟩

theorem insert_table {n : ℕ} [NeZero n] {q : CuckooHash n} {e : Entry} {t : Table n}
    (h : q.table.insertHashTable e = (true, t)) : (q.insert e).table = t := by
  rw [insert, h]

theorem slots_initHashTable (s : Table.Slot (getMinPrime nSize)) :
    (initHashTable nSize).slots s = .zero := by
  cases s <;> rfl

/-- The first entry is put into the first array. -/
theorem insert_initHashTable (e : Entry) :
    (initHashTable nSize).insertHashTable e =
      (true, (initHashTable nSize).set (Table.place1 _ e.key) e) := by
  rw [Table.insertHashTable_def]
  refine if_pos ?_
  rw [slots_initHashTable]
  rfl

/-- The table holds the accepted entries, each in one of its places. -/
structure Inv {n : ℕ} [NeZero n] (q : CuckooHash n) : Prop where
  entries : q.table.entries = q.accepted
  placed : q.table.Placed

theorem Inv.preserved : (machine nSize).Preserves Inv := by
  intro q e q' h he hs
  obtain rfl := Except.ok.inj hs
  obtain ⟨s, t', hhome, hins, heq⟩ | ⟨-, heq⟩ := q.insert_cases e
  · rw [heq]
    exact ⟨(hins.entries_eq he).trans (congrArg _ h.entries), hins.placed hhome h.placed⟩
  · rwa [heq]

theorem Inv.of_reachable (h : (machine nSize).Reachable q) : q.Inv := by
  refine h.invariant Inv.preserved ?_
  rintro _ rfl
  refine ⟨Multiset.eq_zero_of_forall_notMem fun e he => ?_, fun s hv => ?_⟩
  · obtain ⟨⟨s, rfl⟩, hv⟩ := mem_entries.mp he
    exact hv (by rw [slots_initHashTable]; rfl)
  · exact absurd (by rw [slots_initHashTable]; rfl) hv

/-- **The table loses no entry**: its entries are those that have been accepted, each is where its
array's hash function says, and a key is found exactly if an entry with this key was accepted. -/
theorem holds_accepted (h : (machine nSize).Reachable q) :
    q.table.entries = q.accepted ∧
      (∀ i, (q.table.table1 i).key ≠ 0 → i = Table.hashFunc1 _ (q.table.table1 i).key) ∧
      (∀ i, (q.table.table2 i).key ≠ 0 → i = Table.hashFunc2 _ (q.table.table2 i).key) ∧
      ∀ key, 0 < key → (q.table.findValueByKey key = true ↔ ∃ e ∈ q.accepted, e.key = key) := by
  have hinv : q.Inv := Inv.of_reachable h
  refine ⟨hinv.entries, fun i hi => ?_, fun i hi => ?_, fun key hkey => ?_⟩
  · obtain hs | hs := hinv.placed (.inl i) hi
    · exact Sum.inl_injective hs
    · cases hs
  · obtain hs | hs := hinv.placed (.inr i) hi
    · cases hs
    · exact Sum.inr_injective hs
  · rw [← hinv.entries]
    exact Table.findValueByKey_iff hinv.placed hkey

theorem getMinPrime_two : getMinPrime 2 = 2 := by
  have hfind : Nat.find (exists_isPrime 2) = 0 :=
    (Nat.find_eq_zero _).mpr (isPrime_of_prime Nat.prime_two)
  rw [getMinPrime, hfind]
  rfl

/-- Three entries, of which the last one is put into the place of the first. -/
def evicting : List Entry := [⟨2, 20⟩, ⟨4, 40⟩, ⟨8, 80⟩]

/-- In arrays of two places, each entry is new, and the first one is moved to its other place. -/
theorem foldl_evicting {n : ℕ} [hne : NeZero n] (hn : n = 2) {q : CuckooHash n}
    (hq : q = ⟨⟨fun _ => .zero, fun _ => .zero⟩, 0⟩) :
    (∀ s, (q.table.slots s).key ≠ 2) ∧
      (∀ s, ((q.insert ⟨2, 20⟩).table.slots s).key ≠ 4) ∧
      (∀ s, (((q.insert ⟨2, 20⟩).insert ⟨4, 40⟩).table.slots s).key ≠ 8) ∧
      ((evicting.foldl insert q).table.slots (Table.place1 n 2)).key = 8 ∧
      ⟨2, 20⟩ ∈ (evicting.foldl insert q).accepted := by
  subst hn hq
  obtain rfl : hne = ⟨Nat.succ_ne_zero 1⟩ := rfl
  decide +kernel

theorem run_evicting : (machine 2).Run ⟨initHashTable 2, 0⟩ evicting
    (evicting.foldl insert ⟨initHashTable 2, 0⟩) :=
  .cons (Nat.succ_pos _) rfl (.cons (Nat.succ_pos _) rfl (.cons (Nat.succ_pos _) rfl (.nil _)))

/-- The entry that has been moved is found. -/
theorem holds_accepted_evicting :
    (evicting.foldl insert ⟨initHashTable 2, 0⟩).table.findValueByKey 2 = true := by
  obtain ⟨-, -, -, -, hmem⟩ := foldl_evicting getMinPrime_two (q := ⟨initHashTable 2, 0⟩) rfl
  obtain ⟨-, -, -, hfound⟩ := holds_accepted ⟨_, _, rfl, run_evicting⟩
  exact (hfound 2 (by decide)).mpr ⟨_, hmem, rfl⟩

/-- The key is not stored yet, or there is no room for it. -/
def New {n : ℕ} [NeZero n] (q : CuckooHash n) (e : Entry) : Prop :=
  (∀ s, (q.table.slots s).key ≠ e.key) ∨ ¬q.table.Room e

/-- **A key is stored only once** along exactly those runs in which a key that is stored is only
inserted again while there is no room for it. -/
theorem unique_iff {es : List Entry} (hr : (machine nSize).Run ⟨initHashTable nSize, 0⟩ es q) :
    (machine nSize).Along (fun q => q.table.Unique) ⟨initHashTable nSize, 0⟩ es ↔
      ((machine nSize).guard New).Run ⟨initHashTable nSize, 0⟩ es q := by
  refine Machine.along_iff_run_guard (I := fun _ => True) (fun _ _ _ _ _ _ => trivial) ?_ hr
    trivial ?_
  · intro q e q' _ hu he hs
    obtain rfl := Except.ok.inj hs
    obtain ⟨s, t', hhome, hins, heq⟩ | ⟨hroom, heq⟩ := q.insert_cases e
    · have hroom := hins.room hhome
      rw [heq, hins.unique_iff_new he hu, New, or_iff_left (not_not.mpr hroom)]
    · -- without room the table stays as it is
      rw [heq]
      exact iff_of_true hu (.inr hroom)
  · intro s s' hs
    rw [slots_initHashTable] at hs
    cases hs

/-- The key 1 is inserted twice, and is in both arrays afterwards. -/
theorem run_twice (nSize : ℤ) : ∃ q,
    (machine nSize).Run ⟨initHashTable nSize, 0⟩ [⟨1, 10⟩, ⟨1, 20⟩] q ∧
    q.table.slots (Table.place1 _ 1) = ⟨1, 10⟩ ∧ q.table.slots (Table.place2 _ 1) = ⟨1, 20⟩ := by
  let t₁ := (initHashTable nSize).set (Table.place1 _ 1) ⟨1, 10⟩
  have hone : (initHashTable nSize).insertHashTable ⟨1, 10⟩ = (true, t₁) := insert_initHashTable _
  have hself : t₁.slots (Table.place1 _ 1) = ⟨1, 10⟩ := by
    rw [Table.slots_set, Function.update_self]
  have hother : t₁.slots (Table.place2 _ 1) = .zero := by
    rw [Table.slots_set, Function.update_of_ne Table.place1_ne_place2.symm]
    rfl
  have htwo : t₁.insertHashTable ⟨1, 20⟩ = (true, t₁.set (Table.place2 _ 1) ⟨1, 20⟩) := by
    rw [Table.insertHashTable_def]
    have htaken : ¬Table.Vacant (t₁.slots (Table.place1 _ 1)) := by
      rw [hself]
      exact Nat.one_ne_zero
    have hvacant : Table.Vacant (t₁.slots (Table.place2 _ 1)) := by
      rw [hother]
      rfl
    rw [if_neg htaken, if_pos hvacant]
  refine ⟨_, .cons Nat.one_pos rfl (.cons Nat.one_pos rfl (.nil _)), ?_, ?_⟩
  all_goals rw [insert_table (by rw [insert_table hone]; exact htwo), Table.slots_set]
  · rw [Function.update_of_ne Table.place1_ne_place2, hself]
  · rw [Function.update_self]

/-- A key that is inserted twice is in two places. -/
theorem exists_not_unique : ∃ q, (machine 12).Run ⟨initHashTable 12, 0⟩ [⟨1, 10⟩, ⟨1, 20⟩] q ∧
    ¬q.table.Unique := by
  obtain ⟨q, hr, hfirst, hsecond⟩ := run_twice 12
  refine ⟨q, hr, fun hu => Table.place1_ne_place2 (hu (Table.place1 _ 1) (Table.place2 _ 1) ?_ ?_)⟩
  · rw [hfirst]
    exact Nat.one_pos
  · rw [hfirst, hsecond]

/-- The entry that is moved is stored only once. -/
theorem unique_iff_evicting :
    (machine 2).Along (fun q => q.table.Unique) ⟨initHashTable 2, 0⟩ evicting := by
  obtain ⟨htwo, hfour, height, -⟩ :=
    foldl_evicting getMinPrime_two (q := ⟨initHashTable 2, 0⟩) rfl
  exact (unique_iff run_evicting).mpr (.cons ⟨Nat.succ_pos _, .inl htwo⟩ rfl
    (.cons ⟨Nat.succ_pos _, .inl hfour⟩ rfl (.cons ⟨Nat.succ_pos _, .inl height⟩ rfl (.nil _))))

/-! ## Insertions that fail -/

/-- **A failed insertion changes nothing**: when `reHash` returns 0, whatever the budget, or
`insertHashTable` does, both arrays are as they were. A budget that is not positive is none. -/
theorem unchanged_of_failed (q : CuckooHash (getMinPrime nSize)) (e : Entry) :
    (∀ deeps : ℤ, (q.table.reHash e deeps.toNat).1 = false →
      (q.table.reHash e deeps.toNat).2 = q.table) ∧
    ((q.table.insertHashTable e).1 = false → (q.table.insertHashTable e).2 = q.table) := by
  constructor
  · intro deeps hfailed
    obtain ⟨s, l, -, -, -, heq⟩ | ⟨-, heq⟩ := Table.reHash_eq q.table e deeps.toNat
    · rw [heq] at hfailed
      cases hfailed
    · rw [heq]
  · intro hfailed
    obtain ⟨s, t', heq, -⟩ | ⟨heq, -⟩ := q.table.insertHashTable_eq e
    · rw [heq] at hfailed
      cases hfailed
    · rw [heq]

theorem getMinPrime_one : getMinPrime 1 = 1 := by
  have hfind : Nat.find (exists_isPrime 1) = 0 := (Nat.find_eq_zero _).mpr (by decide)
  rw [getMinPrime, hfind]
  rfl

/-- The arrays have one place each, and both are taken. -/
theorem unchanged_of_failed_full : ∃ q, (machine 1).Reachable q ∧
    (q.table.insertHashTable ⟨2, 30⟩).1 = false ∧
    (q.table.insertHashTable ⟨2, 30⟩).2 = q.table := by
  obtain ⟨q, hr, hfirst, hsecond⟩ := run_twice 1
  have hone : ∀ i j : Fin (getMinPrime 1), i = j := by
    intro i j
    have hi := i.isLt.trans_eq getMinPrime_one
    have hj := j.isLt.trans_eq getMinPrime_one
    exact Fin.ext (by omega)
  have hfull : ∀ s, ¬Table.Vacant (q.table.slots s) := by
    rintro (i | i)
    · rw [hone i (Table.hashFunc1 _ 1)]
      exact fun hv => Nat.one_ne_zero ((congrArg Entry.key hfirst).symm.trans hv)
    · rw [hone i (Table.hashFunc2 _ 1)]
      exact fun hv => Nat.one_ne_zero ((congrArg Entry.key hsecond).symm.trans hv)
  have hfailed : (q.table.insertHashTable ⟨2, 30⟩).1 = false := by
    obtain ⟨s, t', -, -, l, hm, -⟩ | ⟨heq, -⟩ := q.table.insertHashTable_eq ⟨2, 30⟩
    · exact absurd hm.vacant_getLast (hfull _)
    · rw [heq]
  exact ⟨q, ⟨_, _, rfl, hr⟩, hfailed, (unchanged_of_failed q ⟨2, 30⟩).2 hfailed⟩

end CuckooHash

end CodingDemo.Cuckoo
