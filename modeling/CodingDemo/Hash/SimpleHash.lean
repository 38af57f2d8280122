import CodingDemo.Container.Slice
import CodingDemo.Machine.Parties
import CodingDemo.Machine.Run

/-!
# The hash table with linear probing

An entry is put into the slot of its hash value or, if that is taken, into the next free slot. A
key that is found in the slot of its hash value is rejected; the other slots are not looked at.

## Main definitions

* `Entry`, `Table`: the slots, and the buffers of the values
* `probe`: the next free slot
* `insert_hash_table`: insert an entry; the result is 1 or 0
* `machine`: the runs of insertions
* `Inv`: free slots are blank, and the slots between a key and its hash value are not free
* `RejectsDuplicates`: what an insertion should do
* `AtHome`: the condition on the key

## Main results

* `probe_eq_some`, `exists_probe`: probing ends at a free slot if there is one
* `rejects_iff_atHome`: in which runs each insertion rejects exactly the duplicates
-/

namespace CodingDemo.SimpleHash

def MAX_ENTRY_NUMS : ℕ := 11

def MAX_STR_LEN : ℕ := 10

/-- The number of a slot. -/
abbrev Pos := Fin MAX_ENTRY_NUMS

structure Entry where
  key : ℕ
  /-- The buffer of `data_table` the pointer points to. -/
  value : Option Pos
  flag : Bool
  deriving DecidableEq

structure Table where
  count : ℕ
  cap : ℕ
  table : Pos → Entry
  /-- The global array of buffers. -/
  data_table : Pos → List UInt8

def init_hash_table : Table where
  count := 0
  cap := MAX_ENTRY_NUMS
  table _ := { key := 0, value := none, flag := false }
  data_table _ := List.replicate MAX_STR_LEN 0

def hash_key (key : ℕ) : Pos := ⟨key % MAX_ENTRY_NUMS, Nat.mod_lt _ (by decide)⟩

/-- `(++ pos) % MAX_ENTRY_NUMS` -/
def next (pos : Pos) : Pos := ⟨(pos + 1) % MAX_ENTRY_NUMS, Nat.mod_lt _ (by decide)⟩

inductive Fault
  /-- All flags are set, and the loop does not end. -/
  | endless
  /-- The value is longer than the buffer. -/
  | overflow
  deriving DecidableEq

namespace Table

/-- The first free slot from `pos` on, within `fuel` slots. -/
def probe (t : Table) : ℕ → Pos → Option Pos
  | 0, _ => none
  | fuel + 1, pos => if (t.table pos).flag then probe t fuel (next pos) else some pos

/-- Fill the slot, and copy the value into its buffer. -/
def store (t : Table) (pos : Pos) (key : ℕ) (value : List UInt8) : Table where
  count := t.count + 1
  cap := t.cap
  table := Function.update t.table pos { key, value := some pos, flag := true }
  data_table := Function.update t.data_table pos (overwrite (t.data_table pos) 0 value)

def insert_hash_table (t : Table) (key : ℕ) (value : List UInt8) : Except Fault (ℤ × Table) :=
  if t.count ≥ MAX_ENTRY_NUMS then .ok (0, t)
  else
    let index := hash_key key
    -- only the key of this slot is compared, whether it is in use or not
    if (t.table index).key = key then .ok (0, t)
    else
      match t.probe MAX_ENTRY_NUMS index with
      | none => .error .endless
      | some pos =>
        -- `memcpy` does not know the length of the buffer
        if value.length ≤ MAX_STR_LEN then .ok (1, t.store pos key value)
        else .error .overflow

/-! ## Probing -/

variable {t t' : Table} {pos : Pos} {fuel : ℕ}

theorem probe_eq_some {index : Pos} (h : t.probe fuel index = some pos) :
    (t.table pos).flag = false ∧ (pos ≠ index → (t.table index).flag = true) := by
  induction fuel generalizing index with
  | zero => cases h
  | succ fuel ih =>
    rw [probe] at h
    split_ifs at h with hflag
    · exact ⟨(ih h).1, fun _ => hflag⟩
    · obtain rfl := Option.some.inj h
      exact ⟨Bool.eq_false_iff.mpr hflag, fun hne => absurd rfl hne⟩

/-- A free slot within `fuel` slots ends the loop. -/
theorem exists_probe_of_iterate {k : ℕ} (hk : k < fuel)
    (hfree : (t.table (next^[k] pos)).flag = false) : ∃ pos', t.probe fuel pos = some pos' := by
  induction fuel generalizing k pos with
  | zero => omega
  | succ fuel ih =>
    rw [probe]
    split_ifs with hflag
    · cases k with
      | zero => exact absurd hflag (Bool.eq_false_iff.mp hfree)
      | succ k => exact ih (Nat.lt_of_succ_lt_succ hk) hfree
    · exact ⟨pos, rfl⟩

theorem val_iterate_next (k : ℕ) (pos : Pos) :
    (next^[k] pos).val = (pos.val + k) % MAX_ENTRY_NUMS := by
  induction k generalizing pos with
  | zero => exact (Nat.mod_eq_of_lt pos.isLt).symm
  | succ k ih =>
    rw [Function.iterate_succ_apply, ih, next]
    simp only [Nat.mod_add_mod]
    congr 1
    omega

/-- Every slot is reached. -/
theorem exists_iterate_next (pos pos' : Pos) : ∃ k < MAX_ENTRY_NUMS, next^[k] pos = pos' := by
  refine ⟨(pos' + (MAX_ENTRY_NUMS - pos)) % MAX_ENTRY_NUMS, Nat.mod_lt _ (by decide), Fin.ext ?_⟩
  rw [val_iterate_next, Nat.add_mod_mod]
  have hsum : pos.val + (pos'.val + (MAX_ENTRY_NUMS - pos.val)) = pos'.val + MAX_ENTRY_NUMS := by
    have := pos.isLt
    omega
  rw [hsum, Nat.add_mod_right, Nat.mod_eq_of_lt pos'.isLt]

/-- The loop ends if some slot is free. -/
theorem exists_probe (index : Pos) (h : (t.table pos).flag = false) :
    ∃ pos', t.probe MAX_ENTRY_NUMS index = some pos' := by
  obtain ⟨k, hk, rfl⟩ := exists_iterate_next index pos
  exact exists_probe_of_iterate hk h

/-! ## What one insertion does -/

/-- Some slot that is in use has the key. -/
def Stored (t : Table) (key : ℕ) : Prop := ∃ pos, (t.table pos).flag ∧ (t.table pos).key = key

/-- No two slots in use have the same key. -/
def Distinct (t : Table) : Prop :=
  ∀ pos pos', (t.table pos).flag → (t.table pos').flag →
    (t.table pos).key = (t.table pos').key → pos = pos'

/-- The slots in use are counted, a free slot is blank, and a key that is not in the slot of its
hash value has found that slot in use. -/
structure Inv (t : Table) : Prop where
  count : t.count = number Entry.flag t.table
  blank : ∀ pos, (t.table pos).flag = false → (t.table pos).key = 0
  probed : ∀ pos, (t.table pos).flag → (t.table (hash_key (t.table pos).key)).flag

theorem Inv.init : init_hash_table.Inv where
  count := (number_eq_zero.mpr fun _ => rfl).symm
  blank _ _ := rfl
  probed _ h := h

/-- The cases of an insertion. -/
inductive Inserted (t : Table) (key : ℕ) (value : List UInt8) : ℤ → Table → Prop
  | full : MAX_ENTRY_NUMS ≤ t.count → Inserted t key value 0 t
  | seen : t.count < MAX_ENTRY_NUMS → (t.table (hash_key key)).key = key →
      Inserted t key value 0 t
  | stored {pos : Pos} : t.count < MAX_ENTRY_NUMS → (t.table (hash_key key)).key ≠ key →
      (t.table pos).flag = false → (pos ≠ hash_key key → (t.table (hash_key key)).flag = true) →
      Inserted t key value 1 (t.store pos key value)

variable {key : ℕ} {value : List UInt8} {ret : ℤ}

theorem inserted_of_ok (h : t.insert_hash_table key value = .ok (ret, t')) :
    Inserted t key value ret t' := by
  unfold insert_hash_table at h
  dsimp only at h
  split at h
  · next hfull =>
    cases h
    exact .full hfull
  · next hfull =>
    split at h
    · next hseen =>
      cases h
      exact .seen (not_le.mp hfull) hseen
    · next hseen =>
      split at h
      · cases h
      · next pos hprobe =>
        split at h
        · cases h
          obtain ⟨hfree, hprobed⟩ := probe_eq_some hprobe
          exact .stored (not_le.mp hfull) hseen hfree hprobed
        · cases h

/-- The loop ends, since fewer slots are in use than there are. -/
theorem Inv.exists_probe (h : t.Inv) (hlt : t.count < MAX_ENTRY_NUMS) (index : Pos) :
    ∃ pos, t.probe MAX_ENTRY_NUMS index = some pos := by
  have hfree : number Entry.flag t.table < Fintype.card Pos := by
    rwa [← h.count, Fintype.card_fin]
  obtain ⟨pos, hpos⟩ := exists_of_number_lt hfree
  exact Table.exists_probe index hpos

@[simp] theorem table_store_self (t : Table) (pos : Pos) (key : ℕ) (value : List UInt8) :
    (t.store pos key value).table pos = ⟨key, some pos, true⟩ := Function.update_self ..

theorem table_store_of_ne {pos' : Pos} (h : pos' ≠ pos) :
    (t.store pos key value).table pos' = t.table pos' := Function.update_of_ne h ..

/-- A slot in use stays in use. -/
theorem flag_store (h : (t.table pos').flag) : ((t.store pos key value).table pos').flag := by
  by_cases hpos : pos' = pos
  · rw [hpos, table_store_self]
  · rwa [table_store_of_ne hpos]

theorem Inv.store (h : t.Inv) (hfree : (t.table pos).flag = false)
    (hprobed : pos ≠ hash_key key → (t.table (hash_key key)).flag = true) :
    (t.store pos key value).Inv where
  count := eq_number_update h.count rfl (by rw [hfree]; rfl)
  blank pos' hflag := by
    by_cases hpos : pos' = pos
    · rw [hpos, table_store_self] at hflag
      cases hflag
    · rw [table_store_of_ne hpos] at hflag ⊢
      exact h.blank pos' hflag
  probed pos' hflag := by
    by_cases hpos : pos' = pos
    · subst hpos
      rw [table_store_self]
      -- the new key is at home, or was put elsewhere because its home is in use
      by_cases hhome : pos' = hash_key key
      · rw [← hhome, table_store_self]
      · exact flag_store (hprobed hhome)
    · rw [table_store_of_ne hpos] at hflag ⊢
      exact flag_store (h.probed pos' hflag)

theorem Inv.inserted (h : t.Inv) (hi : Inserted t key value ret t') : t'.Inv := by
  cases hi with
  | full => exact h
  | seen => exact h
  | stored _ _ hfree hprobed => exact h.store hfree hprobed

/-- A key that is put into a free slot must be new. -/
theorem distinct_store (h : t.Distinct) (hfree : (t.table pos).flag = false) :
    (t.store pos key value).Distinct ↔ ¬t.Stored key := by
  constructor
  · rintro hd ⟨pos', hflag, hkey⟩
    have hne : pos' ≠ pos := by
      rintro rfl
      exact absurd hflag (Bool.eq_false_iff.mp hfree)
    refine hne (hd pos' pos (flag_store hflag) (by rw [table_store_self]) ?_)
    rw [table_store_self, table_store_of_ne hne, hkey]
  · intro hnew pos₁ pos₂ hflag₁ hflag₂ hkey
    -- two old slots differ already, and an old one differs from the new one
    by_cases h₁ : pos₁ = pos <;> by_cases h₂ : pos₂ = pos
    · rw [h₁, h₂]
    · rw [h₁, table_store_self, table_store_of_ne h₂] at hkey
      rw [table_store_of_ne h₂] at hflag₂
      exact absurd ⟨pos₂, hflag₂, hkey.symm⟩ hnew
    · rw [h₂, table_store_self, table_store_of_ne h₁] at hkey
      rw [table_store_of_ne h₁] at hflag₁
      exact absurd ⟨pos₁, hflag₁, hkey⟩ hnew
    · rw [table_store_of_ne h₁, table_store_of_ne h₂] at hkey
      rw [table_store_of_ne h₁] at hflag₁
      rw [table_store_of_ne h₂] at hflag₂
      exact h pos₁ pos₂ hflag₁ hflag₂ hkey

/-! ## Runs of insertions -/

/-- An insertion: the key, and the bytes of the value. -/
abbrev Event := ℕ × List UInt8

def machine : Machine Table Event Fault where
  init t := t = init_hash_table
  enabled _ _ := True
  step t e := (t.insert_hash_table e.1 e.2).map Prod.snd

instance (t : Table) (e : Event) : Decidable (machine.enabled t e) := isTrue trivial

/-- The insertion returns 1 exactly if the key is not stored, unless the table is full, and no key
is stored twice after it. -/
def RejectsDuplicates (t : Table) (e : Event) (t' : Table) : Prop :=
  (t.count < MAX_ENTRY_NUMS →
    (t.insert_hash_table e.1 e.2 = .ok (1, t') ↔ ¬t.Stored e.1)) ∧ t'.Distinct

/-- If the table is not full, the key is stored in the slot of its hash value or nowhere; and the
key 0 is only inserted when that slot is in use. -/
def AtHome (t : Table) (e : Event) : Prop :=
  t.count < MAX_ENTRY_NUMS →
    (∀ pos, (t.table pos).flag → (t.table pos).key = e.1 → pos = hash_key e.1) ∧
      (e.1 = 0 → (t.table (hash_key 0)).flag)

theorem ok_of_step {e : Event} (hs : machine.step t e = .ok t') :
    ∃ ret, t.insert_hash_table e.1 e.2 = .ok (ret, t') := by
  change (t.insert_hash_table e.1 e.2).map Prod.snd = .ok t' at hs
  cases hret : t.insert_hash_table e.1 e.2 with
  | error f => rw [hret] at hs; cases hs
  | ok r =>
    rw [hret] at hs
    obtain rfl := Except.ok.inj hs
    exact ⟨r.1, rfl⟩

/-- A key that is stored, and can be stored nowhere else, is in the slot of its hash value. -/
theorem Inv.flag_home (h : t.Inv) (hk : t.Stored key) : (t.table (hash_key key)).flag := by
  obtain ⟨pos, hflag, rfl⟩ := hk
  exact h.probed pos hflag

/-- A key is rejected as it should be exactly if it is at home. -/
theorem Inv.stored_iff_atHome {e : Event} (h : t.Inv) (hd : t.Distinct)
    (hlt : t.count < MAX_ENTRY_NUMS) (hseen : (t.table (hash_key e.1)).key = e.1) :
    t.Stored e.1 ↔ AtHome t e := by
  constructor
  · intro hk _
    have hhome := h.flag_home hk
    refine ⟨fun pos hflag hkey => hd pos _ hflag hhome (hkey.trans hseen.symm), fun hzero => ?_⟩
    rwa [hzero] at hhome
  · intro hc
    refine ⟨hash_key e.1, ?_, hseen⟩
    by_contra hflag
    -- a free slot holds the key 0, and only that key can be taken for a duplicate there
    have hzero : e.1 = 0 := hseen.symm.trans (h.blank _ (Bool.eq_false_iff.mpr hflag))
    have hused := (hc hlt).2 hzero
    rw [hzero] at hflag
    exact hflag hused

/-- A key is stored as it should be exactly if it is at home. -/
theorem Inv.not_stored_iff_atHome {e : Event} (h : t.Inv) (hlt : t.count < MAX_ENTRY_NUMS)
    (hseen : (t.table (hash_key e.1)).key ≠ e.1) : ¬t.Stored e.1 ↔ AtHome t e := by
  constructor
  · intro hnew _
    refine ⟨fun pos hflag hkey => absurd ⟨pos, hflag, hkey⟩ hnew, fun hzero => ?_⟩
    rw [hzero] at hseen
    by_contra hflag
    exact hseen (h.blank _ (Bool.eq_false_iff.mpr hflag))
  · rintro hc ⟨pos, hflag, hkey⟩
    obtain rfl := (hc hlt).1 pos hflag hkey
    exact hseen hkey

theorem rejects_iff {e : Event} (h : t.Inv) (hd : t.Distinct) (hs : machine.step t e = .ok t') :
    RejectsDuplicates t e t' ↔ AtHome t e := by
  obtain ⟨ret, hret⟩ := ok_of_step hs
  unfold RejectsDuplicates
  cases inserted_of_ok hret with
  | full hfull =>
    exact iff_of_true ⟨fun hlt => absurd hfull hlt.not_ge, hd⟩
      fun hlt => absurd hfull hlt.not_ge
  | seen hlt hseen =>
    have hne : ¬t.insert_hash_table e.1 e.2 = .ok (1, t) := by
      rw [hret]
      simp
    rw [and_iff_left hd, forall_prop_of_true hlt, ← h.stored_iff_atHome hd hlt hseen]
    simp only [hne, false_iff, not_not]
  | stored hlt hseen hfree =>
    rw [forall_prop_of_true hlt, distinct_store hd hfree, ← h.not_stored_iff_atHome hlt hseen]
    simp only [hret, true_iff, and_self]

/-- **Exactly the duplicates are rejected** along those runs in which every key is at home when it
is inserted. -/
theorem rejects_iff_atHome {es : List Event} (hr : machine.Run init_hash_table es t) :
    machine.Each RejectsDuplicates init_hash_table es ↔
      (machine.guard AtHome).Run init_hash_table es t := by
  refine Machine.each_iff_run_guard (Q := fun t => t.Inv ∧ t.Distinct) ?_ ?_ hr ⟨Inv.init, ?_⟩
  · rintro t e t' ⟨h, hd⟩ _ hs hc
    obtain ⟨ret, hret⟩ := ok_of_step hs
    exact ⟨h.inserted (inserted_of_ok hret), ((rejects_iff h hd hs).mpr hc).2⟩
  · rintro t e t' ⟨h, hd⟩ _ hs
    exact rejects_iff h hd hs
  · intro pos pos' hflag
    cases hflag

/-- The key 12 finds its slot taken by the key 1, twice. -/
theorem exists_not_distinct :
    ∃ t, machine.Run init_hash_table [(1, []), (12, []), (12, [])] t ∧ ¬t.Distinct :=
  ⟨_, Machine.run_of_exec rfl, fun hd =>
    absurd (hd (hash_key 2) (hash_key 3) rfl rfl rfl) (by decide)⟩

/-- Two keys with the same hash value. -/
theorem rejects_iff_atHome_two :
    machine.Each RejectsDuplicates init_hash_table [(1, [97]), (12, [98])] := by
  have hr : machine.Run init_hash_table [(1, [97]), (12, [98])] _ := Machine.run_of_exec rfl
  refine (rejects_iff_atHome hr).mpr (.cons ⟨trivial, ?_⟩ rfl (.cons ⟨trivial, ?_⟩ rfl (.nil _)))
  · exact fun _ => ⟨by decide, by decide⟩
  · exact fun _ => ⟨by decide, by decide⟩

end Table

end CodingDemo.SimpleHash
