import CodingDemo.Container.ListOps
import CodingDemo.Container.PartialMap
import CodingDemo.Machine.Run
import Mathlib.Data.Fintype.Basic

/-!
# Several linked lists in one heap

The nodes of a heap are heads of lists, elements of lists, or spare. The operations are applied to
heads, to elements that are in a list when they are deleted, and to spare elements when they are
inserted. Next to the memory stand the lists as sequences, changed by the operations on sequences.

## Main definitions

* `ListHeap`: the memory, and the sequences by their heads
* `Event`, `Enabled`: the operations, and when they may be called
* `run`, `apply`: what an operation does to the memory, and to the sequences
* `Inv`: each sequence is a ring in the memory, and no two of them share a node

## Main results

* `Inv.update`: an operation that stays within one list keeps the others
* `implements_sequences`: after every run, the loops over a list visit its sequence
-/

namespace CodingDemo.Libc

variable {α : Type*}

structure ListHeap (α : Type*) where
  nodes : Nodes α
  /-- The sequence of each head. -/
  lists : α → Option (List α)

namespace ListHeap

inductive Event (α : Type*)
  | malloc (a : α) (node : ListNode α)
  | free (a : α)
  | list_init (head : α)
  | list_push_front (head elem : α)
  | list_push_back (head elem : α)
  | list_del (elem : α)
  | list_del_init (elem : α)

/-- A node that is not there is read or written. -/
inductive Fault
  | dangling
  deriving DecidableEq

/-- A node that is neither a head nor in a list. -/
structure Spare (q : ListHeap α) (a : α) : Prop where
  live : q.nodes a ≠ none
  not_head : q.lists a = none
  not_mem : ∀ head l, q.lists head = some l → a ∉ l

/-- A head may be initialised again; its elements are spare afterwards. -/
def Enabled (NULL : α) (q : ListHeap α) : Event α → Prop
  | .malloc a _ => q.nodes a = none ∧ a ≠ NULL
  | .free a => q.Spare a
  | .list_init head => q.nodes head ≠ none ∧ ∀ head' l, q.lists head' = some l → head ∉ l
  | .list_push_front head elem => q.lists head ≠ none ∧ q.Spare elem
  | .list_push_back head elem => q.lists head ≠ none ∧ q.Spare elem
  | .list_del elem => ∃ head l, q.lists head = some l ∧ elem ∈ l
  | .list_del_init elem => ∃ head l, q.lists head = some l ∧ elem ∈ l

variable [DecidableEq α]

instance [Fintype α] (q : ListHeap α) (a : α) : Decidable (q.Spare a) :=
  decidable_of_iff (q.nodes a ≠ none ∧ q.lists a = none ∧ ∀ head, ∀ l ∈ q.lists head, a ∉ l)
    ⟨fun ⟨hlive, hhead, hmem⟩ => ⟨hlive, hhead, hmem⟩,
      fun ⟨hlive, hhead, hmem⟩ => ⟨hlive, hhead, hmem⟩⟩

instance [Fintype α] (NULL : α) (q : ListHeap α) (e : Event α) : Decidable (Enabled NULL q e) :=
  match e with
  | .malloc a _ => inferInstanceAs (Decidable (q.nodes a = none ∧ a ≠ NULL))
  | .free a => inferInstanceAs (Decidable (q.Spare a))
  | .list_init head =>
    inferInstanceAs (Decidable (q.nodes head ≠ none ∧ ∀ head', ∀ l ∈ q.lists head', head ∉ l))
  | .list_push_front head elem =>
    inferInstanceAs (Decidable (q.lists head ≠ none ∧ q.Spare elem))
  | .list_push_back head elem => inferInstanceAs (Decidable (q.lists head ≠ none ∧ q.Spare elem))
  | .list_del elem => inferInstanceAs (Decidable (∃ head, ∃ l ∈ q.lists head, elem ∈ l))
  | .list_del_init elem => inferInstanceAs (Decidable (∃ head, ∃ l ∈ q.lists head, elem ∈ l))

/-- The operation on the memory. -/
def run (NULL : α) (m : Nodes α) : Event α → Option (Nodes α)
  | .malloc a node => some (Function.update m a (some node))
  | .free a => m.free a
  | .list_init head => m.list_init head
  | .list_push_front head elem => m.list_push_front head elem
  | .list_push_back head elem => m.list_push_back head elem
  | .list_del elem => m.list_del NULL elem
  | .list_del_init elem => m.list_del_init elem

/-- The operation on the sequences. -/
def apply (lists : α → Option (List α)) : Event α → α → Option (List α)
  | .malloc _ _ => lists
  | .free _ => lists
  | .list_init head => Function.update lists head (some [])
  | .list_push_front head elem => Function.update lists head ((lists head).map (elem :: ·))
  | .list_push_back head elem => Function.update lists head ((lists head).map (· ++ [elem]))
  | .list_del elem => fun head => (lists head).map (·.erase elem)
  | .list_del_init elem => fun head => (lists head).map (·.erase elem)

def step (NULL : α) (q : ListHeap α) (e : Event α) : Except Fault (ListHeap α) :=
  match run NULL q.nodes e with
  | some nodes => .ok ⟨nodes, apply q.lists e⟩
  | none => .error .dangling

/-- The heap is empty at first. -/
def machine (NULL : α) : Machine (ListHeap α) (Event α) Fault where
  init q := q = ⟨fun _ => none, fun _ => none⟩
  enabled := Enabled NULL
  step := step NULL

instance [Fintype α] (NULL : α) (q : ListHeap α) (e : Event α) :
    Decidable ((machine NULL).enabled q e) :=
  inferInstanceAs (Decidable (Enabled NULL q e))

variable {NULL : α} {q q' : ListHeap α} {m : Nodes α} {e : Event α} {head elem : α}
  {l s : List α}

/-- Each sequence is a ring in the memory, and no two of them share a node. -/
structure Inv (q : ListHeap α) : Prop where
  ring : ∀ head l, q.lists head = some l → Nodes.Ring q.nodes head l
  apart : ∀ head l head' l', q.lists head = some l → q.lists head' = some l' → head ≠ head' →
    (head :: l).Disjoint (head' :: l')

/-- An operation that stays within one list, and what is in no other list, keeps the others. -/
theorem Inv.update (h : q.Inv) (hring : Nodes.Ring m head l) (hframe : Nodes.Frame q.nodes m s)
    (hsub : head :: l ⊆ s)
    (hs : ∀ head' l', q.lists head' = some l' → head' ≠ head → s.Disjoint (head' :: l')) :
    Inv ⟨m, Function.update q.lists head (some l)⟩ := by
  constructor
  · -- the list that was changed, or one that the operation has not touched
    intro x k hx
    obtain ⟨rfl, rfl⟩ | ⟨hne, hx⟩ := update_some_eq_some.mp hx
    · exact hring
    · exact (h.ring x k hx).congr fun y hy =>
        hframe.same y fun hmem => hs x k hx hne hmem hy
  · intro x k y k' hx hy hxy
    obtain ⟨rfl, rfl⟩ | ⟨hnex, hx'⟩ := update_some_eq_some.mp hx
    · obtain ⟨rfl, rfl⟩ | ⟨hney, hy'⟩ := update_some_eq_some.mp hy
      · exact absurd rfl hxy
      · exact List.disjoint_of_subset_left hsub (hs y k' hy' hney)
    · obtain ⟨rfl, rfl⟩ | ⟨hney, hy'⟩ := update_some_eq_some.mp hy
      · exact fun z hz hz' => hs x k hx' hnex (hsub hz') hz
      · exact h.apart x k y k' hx' hy' hxy

omit [DecidableEq α] in
/-- A spare node is in none of the rings. -/
theorem Spare.not_mem_cons (h : q.Spare elem) (hl : q.lists head = some l) : elem ∉ head :: l := by
  intro hmem
  obtain rfl | hmem := List.mem_cons.mp hmem
  · rw [h.not_head] at hl
    cases hl
  · exact h.not_mem head l hl hmem

omit [DecidableEq α] in
/-- The memory outside of the rings may change. -/
theorem Inv.congr (h : q.Inv) (hsame : ∀ head l, q.lists head = some l → ∀ x ∈ head :: l,
    m x = q.nodes x) : Inv ⟨m, q.lists⟩ where
  ring head l hl := (h.ring head l hl).congr (hsame head l hl)
  apart := h.apart

theorem Inv.exists_malloc (h : q.Inv) (ha : q.nodes elem = none) (node : ListNode α) :
    Inv ⟨Function.update q.nodes elem (some node), q.lists⟩ := by
  refine h.congr fun head l hl x hx => Function.update_of_ne ?_ ..
  rintro rfl
  exact (h.ring head l hl).path.ne_none x hx ha

theorem Inv.exists_free (h : q.Inv) (hs : q.Spare elem) :
    ∃ m, q.nodes.free elem = some m ∧ Inv ⟨m, q.lists⟩ := by
  obtain ⟨node, hnode⟩ := Option.ne_none_iff_exists'.mp hs.live
  refine ⟨_, by rw [Nodes.free, hnode, Option.map_some], h.congr fun head l hl x hx => ?_⟩
  exact Function.update_of_ne (ne_of_mem_of_not_mem hx (hs.not_mem_cons hl)) ..

theorem Inv.exists_list_init (h : q.Inv) (hlive : q.nodes head ≠ none)
    (hnot : ∀ head' l, q.lists head' = some l → head ∉ l) :
    ∃ m, q.nodes.list_init head = some m ∧ Inv ⟨m, Function.update q.lists head (some [])⟩ := by
  obtain ⟨m, hm, hnext, hprev, hframe⟩ := Nodes.exists_list_init hlive
  refine ⟨m, hm, h.update ⟨List.nodup_singleton head, ?_, ?_⟩ hframe (List.Subset.refl _) ?_⟩
  · rw [hnext, if_pos rfl]
  · rw [hprev, if_pos rfl]
  · intro head' l' hl' hne
    refine List.singleton_disjoint.mpr ?_
    rw [List.mem_cons, not_or]
    exact ⟨hne.symm, hnot head' l' hl'⟩

/-- An inserted element is in no other list. -/
theorem Inv.push (h : q.Inv) (hl : q.lists head = some l) (hs : q.Spare elem) {l' : List α}
    (hring : Nodes.Ring m head l') (hframe : Nodes.Frame q.nodes m (elem :: head :: l))
    (hsub : l' ⊆ elem :: l) : Inv ⟨m, Function.update q.lists head (some l')⟩ := by
  refine h.update hring hframe ?_ fun head' l₁ hl₁ hne => ?_
  · intro x hx
    obtain rfl | hx := List.mem_cons.mp hx
    · simp
    · have hmem := hsub hx
      simp only [List.mem_cons] at hmem ⊢
      tauto
  · rw [List.disjoint_cons_left]
    exact ⟨hs.not_mem_cons hl₁, h.apart head l head' l₁ hl hl₁ hne.symm⟩

/-- Only the list that has the element changes. -/
theorem Inv.map_erase (h : q.Inv) (hl : q.lists head = some l) (hmem : elem ∈ l) :
    (fun x => (q.lists x).map (·.erase elem)) =
      Function.update q.lists head (some (l.erase elem)) := by
  funext x
  by_cases hx : x = head
  · rw [hx, Function.update_self, hl, Option.map_some]
  · rw [Function.update_of_ne hx]
    cases hlx : q.lists x with
    | none => rfl
    | some k =>
      -- the element is in one list only, so erasing it elsewhere changes nothing
      have hnot : elem ∉ k := fun hk => h.apart head l x k hl hlx (Ne.symm hx)
        (List.mem_cons_of_mem head hmem) (List.mem_cons_of_mem x hk)
      rw [Option.map_some, List.erase_of_not_mem hnot]

theorem Inv.exists_unlink (h : q.Inv) (hl : q.lists head = some l) (hmem : elem ∈ l) (v : α) :
    ∃ m, q.nodes.unlink elem v = some m ∧
      Inv ⟨m, fun x => (q.lists x).map (·.erase elem)⟩ := by
  obtain ⟨m, hm, hring, hframe⟩ := Nodes.ring_unlink_mem (h.ring head l hl) hmem v
  rw [h.map_erase hl hmem]
  refine ⟨m, hm, h.update hring hframe ?_ fun head' l' hl' hne => ?_⟩
  · exact List.cons_subset_cons head (List.erase_subset)
  · exact h.apart head l head' l' hl hl' hne.symm

/-- No operation faults, and the sequences stay rings. -/
theorem Inv.exists_step (h : q.Inv) (he : q.Enabled NULL e) :
    ∃ q', step NULL q e = .ok q' ∧ q'.Inv ∧ q'.lists = apply q.lists e := by
  -- the sequences change as they should whatever the memory is
  have hstep : ∀ m, run NULL q.nodes e = some m → Inv ⟨m, apply q.lists e⟩ →
      ∃ q', step NULL q e = .ok q' ∧ q'.Inv ∧ q'.lists = apply q.lists e := by
    intro m hm hinv
    exact ⟨⟨m, apply q.lists e⟩, by rw [step, hm], hinv, rfl⟩
  cases e with
  | malloc a node => exact hstep _ rfl (h.exists_malloc he.1 node)
  | free a =>
    obtain ⟨m, hm, hinv⟩ := h.exists_free he
    exact hstep m hm hinv
  | list_init head =>
    obtain ⟨m, hm, hinv⟩ := h.exists_list_init he.1 he.2
    exact hstep m hm hinv
  | list_push_front head elem =>
    obtain ⟨hhead, hs⟩ := he
    obtain ⟨l, hl⟩ := Option.ne_none_iff_exists'.mp hhead
    obtain ⟨m, hm, hring, hframe⟩ :=
      Nodes.ring_push_front (h.ring head l hl) (hs.not_mem_cons hl) hs.live
    refine hstep m hm ?_
    rw [apply, hl, Option.map_some]
    exact h.push hl hs hring hframe (List.Subset.refl _)
  | list_push_back head elem =>
    obtain ⟨hhead, hs⟩ := he
    obtain ⟨l, hl⟩ := Option.ne_none_iff_exists'.mp hhead
    obtain ⟨m, hm, hring, hframe⟩ :=
      Nodes.ring_push_back (h.ring head l hl) (hs.not_mem_cons hl) hs.live
    refine hstep m hm ?_
    rw [apply, hl, Option.map_some]
    -- at the end, the elements are the same ones in another order
    refine h.push hl hs hring hframe fun x hx => ?_
    simpa [or_comm] using hx
  | list_del elem =>
    obtain ⟨head, l, hl, hmem⟩ := he
    obtain ⟨m, hm, hinv⟩ := h.exists_unlink hl hmem NULL
    exact hstep m ((Nodes.list_del_eq NULL q.nodes elem).trans hm) hinv
  | list_del_init elem =>
    obtain ⟨head, l, hl, hmem⟩ := he
    obtain ⟨m, hm, hinv⟩ := h.exists_unlink hl hmem elem
    exact hstep m ((Nodes.list_del_init_eq q.nodes elem).trans hm) hinv

theorem Inv.preserved : (machine NULL).Preserves (Inv (α := α)) := by
  intro q e q' h he hs
  obtain ⟨q₁, hs₁, hinv, -⟩ := h.exists_step he
  obtain rfl := Except.ok.inj (hs.symm.trans hs₁)
  exact hinv

theorem Inv.of_reachable (h : (machine NULL).Reachable q) : q.Inv := by
  refine h.invariant Inv.preserved ?_
  rintro _ rfl
  exact ⟨fun _ _ h => (nomatch h), fun _ _ _ _ h => (nomatch h)⟩

/-- **The lists implement sequences**: the operations do not fault and do to the sequences what they
should. After every run each list is a ring, a loop forward visits its sequence and a loop backward
the reverse, and a loop that may delete and free what it visits visits each element once. -/
theorem implements_sequences (h : (machine NULL).Reachable q) :
    (∀ e, (machine NULL).enabled q e →
      ∃ q', (machine NULL).step q e = .ok q' ∧ q'.lists = apply q.lists e) ∧
    ∀ head l, q.lists head = some l →
      q.nodes.Ring head l ∧
      ∀ fuel, l.length < fuel →
        q.nodes.list_for_each head fuel = some l ∧
        Nodes.visited q.nodes.prev head fuel = some l.reverse ∧
        ∀ visit : α → Nodes.Visit, ∃ m,
          Nodes.list_for_each_safe (fun m p => (visit p).run NULL m p) head fuel q.nodes =
            some (l, m) ∧
          Nodes.Ring m head (l.filter fun p => (visit p).kept) := by
  have hinv : q.Inv := Inv.of_reachable h
  refine ⟨fun e he => ?_, fun head l hl => ?_⟩
  · obtain ⟨q', hs, -, hlists⟩ := hinv.exists_step he
    exact ⟨q', hs, hlists⟩
  · have hring := hinv.ring head l hl
    exact ⟨hring, fun fuel hfuel => ⟨hring.list_for_each hfuel, hring.visited_prev hfuel,
      fun visit => hring.list_for_each_safe NULL visit hfuel⟩⟩

/-- Two heads, three elements, and one of them that goes from the first list to the second. -/
def twoLists : List (Event (Fin 6)) :=
  [.malloc 1 ⟨0, 0⟩, .malloc 2 ⟨0, 0⟩, .malloc 3 ⟨0, 0⟩, .malloc 4 ⟨0, 0⟩, .malloc 5 ⟨0, 0⟩,
    .list_init 1, .list_init 2, .list_push_front 1 3, .list_push_front 1 4, .list_push_back 2 5,
    .list_del 3, .list_push_back 2 3]

theorem implements_sequences_twoLists :
    ∃ q : ListHeap (Fin 6), q.nodes.list_for_each 1 2 = some [4] ∧
      q.nodes.list_for_each 2 3 = some [5, 3] ∧
      Nodes.visited q.nodes.prev 2 3 = some [3, 5] := by
  have hexec : ((machine (0 : Fin 6)).exec ⟨fun _ => none, fun _ => none⟩ twoLists).map
      (fun q => (q.lists 1, q.lists 2)) = some (some [4], some [5, 3]) := by decide +kernel
  obtain ⟨q, hq, hlists⟩ := Option.map_eq_some_iff.mp hexec
  obtain ⟨hfirst, hsecond⟩ := Prod.mk.inj hlists
  have hr : (machine (0 : Fin 6)).Reachable q := ⟨_, _, rfl, Machine.run_of_exec hq⟩
  obtain ⟨-, hloops⟩ := (implements_sequences hr).2 1 [4] hfirst
  obtain ⟨-, hloops'⟩ := (implements_sequences hr).2 2 [5, 3] hsecond
  obtain ⟨hnext, hprev, -⟩ := hloops' 3 (by decide)
  exact ⟨q, (hloops 2 (by decide)).1, hnext, hprev⟩

end ListHeap

end CodingDemo.Libc
