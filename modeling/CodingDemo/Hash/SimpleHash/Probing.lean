import CodingDemo.Hash.SimpleHash

/-!
# What an insertion with linear probing writes

An insertion ends because `count` is the number of the slots in use, and it writes to a slot that
is not in use. The value goes to the buffer of this slot, whose length is not looked at.

## Main definitions

* `Keeps`: what an insertion should do to the table
* `Fits`: the value fits into its buffer, if the insertion gets there

## Main results

* `Inv.step_ok_iff`: the only fault of an insertion is a value that does not fit
* `keeps_iff_fits`: in which sequences of insertions all of them do what they should
-/

namespace CodingDemo.SimpleHash.Table

variable {t t' : Table} {e : Event}

/-- The slots in use are counted, the loop has ended if it was reached, and at most one slot and
its buffer have changed. -/
structure Keeps (t : Table) (e : Event) (t' : Table) : Prop where
  count : t'.count = number Entry.flag t'.table
  ends : t.count < MAX_ENTRY_NUMS → (t.table (hash_key e.1)).key ≠ e.1 →
    ∃ pos, t.probe MAX_ENTRY_NUMS (hash_key e.1) = some pos
  rejected : t.insert_hash_table e.1 e.2 = .ok (0, t') → t' = t
  stored : t.insert_hash_table e.1 e.2 = .ok (1, t') → ∃ pos, (t.table pos).flag = false ∧
    t'.table pos = ⟨e.1, some pos, true⟩ ∧ e.2 <+: t'.data_table pos ∧
    ∀ pos' ≠ pos, t'.table pos' = t.table pos' ∧ t'.data_table pos' = t.data_table pos'

/-- The value fits into its buffer, if the insertion gets there. -/
def Fits (t : Table) (e : Event) : Prop :=
  t.count < MAX_ENTRY_NUMS → (t.table (hash_key e.1)).key ≠ e.1 → e.2.length ≤ MAX_STR_LEN

/-- The only fault of an insertion is a value that does not fit. -/
theorem Inv.step_ok_iff (h : t.Inv) : (∃ t', machine.step t e = .ok t') ↔ Fits t e := by
  have hstep : (∃ t', machine.step t e = .ok t') ↔ ∃ r, t.insert_hash_table e.1 e.2 = .ok r := by
    constructor
    · rintro ⟨t', hs⟩
      obtain ⟨ret, hret⟩ := ok_of_step hs
      exact ⟨_, hret⟩
    · rintro ⟨r, hr⟩
      exact ⟨r.2, congrArg (Except.map Prod.snd) hr⟩
  rw [hstep, Fits, insert_hash_table]
  dsimp only
  split_ifs with hfull hseen hlen
  · exact iff_of_true ⟨_, rfl⟩ fun hlt => absurd hfull hlt.not_ge
  · exact iff_of_true ⟨_, rfl⟩ fun _ hne => absurd hseen hne
  · obtain ⟨pos, hprobe⟩ := h.exists_probe (not_le.mp hfull) (hash_key e.1)
    rw [hprobe]
    exact iff_of_true ⟨_, rfl⟩ fun _ _ => hlen
  · obtain ⟨pos, hprobe⟩ := h.exists_probe (not_le.mp hfull) (hash_key e.1)
    rw [hprobe]
    exact iff_of_false (fun ⟨_, hr⟩ => nomatch hr) fun hfits => hlen (hfits (not_le.mp hfull) hseen)

theorem Inv.keeps (h : t.Inv) (hs : machine.step t e = .ok t') : t'.Inv ∧ Keeps t e t' := by
  obtain ⟨ret, hret⟩ := ok_of_step hs
  have h' := h.inserted (inserted_of_ok hret)
  refine ⟨h', h'.count, fun hlt _ => h.exists_probe hlt _, fun hrejected => ?_, fun hstored => ?_⟩
  · cases inserted_of_ok hrejected with
    | full => rfl
    | seen => rfl
  · cases inserted_of_ok hstored with
    | @stored pos _ _ hfree _ =>
      refine ⟨pos, hfree, table_store_self .., ?_, fun pos' hne => ?_⟩
      · simp only [Table.store, Function.update_self, overwrite]
        exact List.prefix_append ..
      · exact ⟨table_store_of_ne hne, Function.update_of_ne hne ..⟩

/-- **Every insertion keeps what is stored** exactly if each value that is copied fits into its
buffer. -/
theorem keeps_iff_fits (es : List Event) :
    ((∃ t, machine.Run init_hash_table es t) ∧ machine.Each Keeps init_hash_table es) ↔
      machine.Meets Fits init_hash_table es := by
  have hruns : (∃ t, machine.Run init_hash_table es t) ↔ machine.Meets Fits init_hash_table es :=
    Machine.exists_run_iff_meets (fun _ _ => trivial) (fun _ _ _ h _ hs => (h.keeps hs).1)
      (fun _ _ h => h.step_ok_iff) Inv.init es
  rw [← hruns]
  refine and_iff_left_of_imp ?_
  rintro ⟨t, hr⟩
  exact hr.each (fun _ _ _ h _ hs => h.keeps hs) Inv.init

/-- A value of 11 bytes is copied to a buffer of 10. -/
theorem not_run_long :
    ¬((∃ t, machine.Run init_hash_table [(1, List.replicate 11 97)] t) ∧
      machine.Each Keeps init_hash_table [(1, List.replicate 11 97)]) := by
  rintro ⟨⟨t, hr⟩, -⟩
  cases hr with
  | cons _ hs _ => cases hs

end CodingDemo.SimpleHash.Table
