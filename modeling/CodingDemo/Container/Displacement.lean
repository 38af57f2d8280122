import Mathlib.Algebra.Order.Group.Multiset
import Mathlib.Data.Fintype.Defs
import Mathlib.Tactic.Common

/-!
# Displacement of entries

Slots hold entries. To free a slot, its entry moves to the slot that `next` gives it; that slot has
to be freed first, and so on until a vacant slot is reached. Where an entry moves does not depend
on anything else, so a route that comes back to a slot never ends: the slots of a route are
different, and when the entries have moved along it none is lost.

## Main definitions

* `shift f e l`: the slots after `e` has been put into the first slot of `l`, and each entry of `l`
  into the slot after its own
* `Route next vacant f s l`: the slots to which entries move when `s` is freed, with `s` itself
* `entries vacant f`: the entries of the slots that are not vacant

## Main results

* `Route.unique`: there is at most one route
* `Route.nodup`: no slot is visited twice
* `Route.entries_shift`: a shift along a route adds the new entry, and loses none
* `nodup_map_entries`: the entries differ in a property exactly if no two slots share it
* `Route.shift_of`: a relation between slots and entries that `next` respects is kept
-/

namespace CodingDemo

variable {S E : Type*}

/-! ## Shifting along a list of slots -/

section Shift

variable [DecidableEq S]

/-- Put `e` into the first slot, its entry into the second slot, and so on; the last entry is
dropped. -/
def shift (f : S → E) : E → List S → S → E
  | _, [] => f
  | e, s :: l => Function.update (shift f (f s) l) s e

variable {f : S → E} {e : E} {s : S} {l : List S}

@[simp] theorem shift_nil (f : S → E) (e : E) : shift f e [] = f := rfl

@[simp] theorem shift_cons (f : S → E) (e : E) (s : S) (l : List S) :
    shift f e (s :: l) = Function.update (shift f (f s) l) s e := rfl

theorem shift_of_notMem (h : s ∉ l) : shift f e l s = f s := by
  induction l generalizing e with
  | nil => rfl
  | cons s' l ih =>
    rw [List.mem_cons, not_or] at h
    rw [shift_cons, Function.update_of_ne h.1, ih h.2]

variable [Fintype S]

/-- One entry is replaced by another one. -/
theorem map_update (f : S → E) (s : S) (e : E) :
    Finset.univ.val.map (Function.update f s e) + {f s} = Finset.univ.val.map f + {e} := by
  have hsplit := Multiset.cons_erase (Finset.mem_univ_val s)
  have hnot : s ∉ Finset.univ.val.erase s := Finset.univ.nodup.notMem_erase
  have hsame : (Finset.univ.val.erase s).map (Function.update f s e) =
      (Finset.univ.val.erase s).map f :=
    Multiset.map_congr rfl fun x hx => Function.update_of_ne (ne_of_mem_of_not_mem hx hnot) ..
  rw [← hsplit, Multiset.map_cons, Multiset.map_cons, hsame, Function.update_self]
  rw [Multiset.add_comm, Multiset.singleton_add, Multiset.add_comm, Multiset.singleton_add,
    Multiset.cons_swap]

/-- The entries after a shift: the entry of the last slot has gone, and `e` has come. -/
theorem map_shift (hl : (s :: l).Nodup) :
    Finset.univ.val.map (shift f e (s :: l)) + {f ((s :: l).getLast (List.cons_ne_nil s l))} =
      Finset.univ.val.map f + {e} := by
  induction l generalizing e s with
  | nil => exact map_update f s e
  | cons s' l ih =>
    obtain ⟨hs, hl⟩ := List.nodup_cons.mp hl
    -- the rest of the route is shifted first, and leaves the entry of `s` where it is
    have hfirst := map_update (shift f (f s) (s' :: l)) s e
    rw [shift_of_notMem hs, ← shift_cons] at hfirst
    have hrest := ih (e := f s) hl
    refine add_right_cancel (b := {f s}) ?_
    rw [List.getLast_cons_cons, add_right_comm, hfirst, add_right_comm, hrest, add_right_comm]

end Shift

/-! ## Routes -/

section Route

variable {next : E → Option S} {vacant : E → Prop} {f : S → E}

/-- The slots to which entries move when `s` is freed, with `s` itself. -/
inductive Route (next : E → Option S) (vacant : E → Prop) (f : S → E) : S → List S → Prop
  | vacant {s : S} : vacant (f s) → Route next vacant f s [s]
  | move {s s' : S} {l : List S} : ¬vacant (f s) → next (f s) = some s' →
      Route next vacant f s' l → Route next vacant f s (s :: l)

variable {s s' : S} {l l' : List S} {e : E}

theorem Route.ne_nil (h : Route next vacant f s l) : l ≠ [] := by
  cases h <;> exact List.cons_ne_nil _ _

/-- There is at most one route. -/
theorem Route.unique (h : Route next vacant f s l) (h' : Route next vacant f s l') : l = l' := by
  induction h generalizing l' with
  | vacant hv =>
    cases h' with
    | vacant => rfl
    | move hv' => exact absurd hv hv'
  | move hv hnext _ ih =>
    cases h' with
    | vacant hv' => exact absurd hv' hv
    | move _ hnext' hrest =>
      obtain rfl := Option.some.inj (hnext.symm.trans hnext')
      rw [ih hrest]

/-- The route from a slot on the way is what is left of the route. -/
theorem Route.exists_suffix (h : Route next vacant f s l) (hs : s' ∈ l) :
    ∃ l', Route next vacant f s' l' ∧ l' <:+ l := by
  induction h with
  | vacant hv =>
    obtain rfl := List.mem_singleton.mp hs
    exact ⟨_, .vacant hv, List.suffix_rfl⟩
  | move hv hnext hrest ih =>
    obtain rfl | hs := List.mem_cons.mp hs
    · exact ⟨_, .move hv hnext hrest, List.suffix_rfl⟩
    · obtain ⟨l', hroute, hsuffix⟩ := ih hs
      exact ⟨l', hroute, hsuffix.trans (List.suffix_cons _ _)⟩

/-- No slot is visited twice: the route from its second visit would be shorter than the one from
its first. -/
theorem Route.nodup (h : Route next vacant f s l) : l.Nodup := by
  induction h with
  | vacant => exact List.nodup_singleton _
  | move hv hnext hrest ih =>
    refine List.nodup_cons.mpr ⟨fun hs => ?_, ih⟩
    -- from the second visit on, the whole route would have to be followed once more
    obtain ⟨l', hroute, hsuffix⟩ := hrest.exists_suffix hs
    have heq := hroute.unique (.move hv hnext hrest)
    have hlen := hsuffix.length_le
    rw [heq, List.length_cons] at hlen
    omega

theorem Route.vacant_getLast (h : Route next vacant f s l) : vacant (f (l.getLast h.ne_nil)) := by
  induction h with
  | vacant hv => exact hv
  | move _ _ hrest ih => rwa [List.getLast_cons hrest.ne_nil]

theorem Route.exists_cons (h : Route next vacant f s l) : ∃ l', l = s :: l' := by
  cases h with
  | vacant => exact ⟨[], rfl⟩
  | move => exact ⟨_, rfl⟩

variable [DecidableEq S]

/-- A relation between the slots and their entries is kept, if an entry that moves has it to the
slot it moves to. -/
theorem Route.shift_of {R : S → E → Prop} (h : Route next vacant f s l)
    (hf : ∀ x, R x (f x)) (hnext : ∀ x x', ¬vacant (f x) → next (f x) = some x' → R x' (f x))
    (he : R s e) (x : S) : R x (shift f e l x) := by
  induction h generalizing e with
  | @vacant s _ =>
    by_cases hx : x = s
    · subst hx
      rwa [shift_cons, Function.update_self]
    · rw [shift_cons, Function.update_of_ne hx]
      exact hf x
  | @move s s' l hv hmove _ ih =>
    by_cases hx : x = s
    · subst hx
      rwa [shift_cons, Function.update_self]
    · rw [shift_cons, Function.update_of_ne hx]
      exact ih (hnext s s' hv hmove)

variable [Fintype S] [DecidablePred vacant]

/-- The entries of the slots that are not vacant. -/
def entries (vacant : E → Prop) [DecidablePred vacant] (f : S → E) : Multiset E :=
  (Finset.univ.val.map f).filter fun e => ¬vacant e

omit [DecidableEq S] in
theorem mem_entries : e ∈ entries vacant f ↔ (∃ s, f s = e) ∧ ¬vacant e := by
  simp [entries]

omit [DecidableEq S] in
theorem nodup_map_entries {K : Type*} {g : E → K} :
    ((entries vacant f).map g).Nodup ↔
      ∀ s s', ¬vacant (f s) → ¬vacant (f s') → g (f s) = g (f s') → s = s' := by
  have hnodup := (Finset.univ : Finset S).nodup.filter fun s => ¬vacant (f s)
  rw [entries, Multiset.filter_map, Multiset.map_map]
  refine (Multiset.nodup_map_iff_inj_on hnodup).trans ?_
  simp only [Multiset.mem_filter, Finset.mem_val, Finset.mem_univ, true_and, Function.comp_apply]
  exact ⟨fun h s s' hs hs' => h s hs s' hs', fun h s hs s' hs' => h s s' hs hs'⟩

/-- A shift along a route adds the new entry, and loses none. -/
theorem Route.entries_shift (h : Route next vacant f s l) (he : ¬vacant e) :
    entries vacant (shift f e l) = e ::ₘ entries vacant f := by
  obtain ⟨l, rfl⟩ := h.exists_cons
  -- the entry that goes is the vacant one at the end of the route
  have hmap := congrArg (Multiset.filter fun e => ¬vacant e) (map_shift (e := e) (f := f) h.nodup)
  rw [Multiset.filter_add, Multiset.filter_add, Multiset.filter_singleton,
    Multiset.filter_singleton, if_pos he, if_neg (not_not.mpr h.vacant_getLast)] at hmap
  calc entries vacant (shift f e (s :: l))
      = entries vacant (shift f e (s :: l)) + ∅ := (Multiset.add_zero _).symm
    _ = entries vacant f + {e} := hmap
    _ = e ::ₘ entries vacant f := (Multiset.add_comm _ _).trans (Multiset.singleton_add _ _)

end Route

end CodingDemo
