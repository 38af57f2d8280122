import Mathlib.Data.List.Nodup
import Mathlib.Logic.Function.Basic

/-!
# Linked lists through nodes

A list goes in a ring from its head through nodes that are parts of the elements. The memory has a
node at some addresses only; to read or write a node that is not there has no result.

## Main definitions

* `ListNode`, `Nodes`: a node, and the memory
* `list_init`, `list_push_back`, `list_swap`: the operations
* `Ring`: a list with its head
* `Walk`: the nodes that a loop over a list visits

## Main results

* `ring_push_back`, `ring_swap`: the lists after the operations
* `list_swap_iff`: which lists `list_swap` moves
* `Ring.walk`: a loop visits the nodes of a list in order
* `Walk.unique`: no other nodes are visited
-/

namespace CodingDemo.Libc

variable {α : Type*}

structure ListNode (α : Type*) where
  next : α
  prev : α

/-- The nodes by address. -/
abbrev Nodes (α : Type*) := α → Option (ListNode α)

namespace Nodes

def next (m : Nodes α) (a : α) : Option α := (m a).map ListNode.next

def prev (m : Nodes α) (a : α) : Option α := (m a).map ListNode.prev

/-- The nodes outside of `s` are the same, and nodes are at the same addresses. -/
structure Frame (m m' : Nodes α) (s : List α) : Prop where
  same : ∀ a, a ∉ s → m' a = m a
  live : ∀ a, m' a = none ↔ m a = none

variable {m m' m'' : Nodes α} {a b c head elem : α} {l s s' : List α}

theorem Frame.trans (h : Frame m m' s) (h' : Frame m' m'' s') (hs : s ⊆ l) (hs' : s' ⊆ l) :
    Frame m m'' l where
  same a ha := (h'.same a fun hmem => ha (hs' hmem)).trans (h.same a fun hmem => ha (hs hmem))
  live a := (h'.live a).trans (h.live a)

theorem next_congr (h : m' a = m a) : m'.next a = m.next a := by rw [next, next, h]

theorem Frame.next (h : Frame m m' s) (ha : a ∉ s) : m'.next a = m.next a :=
  next_congr (h.same a ha)

theorem next_ne_none : m.next a ≠ none ↔ m a ≠ none := by
  rw [next, ne_eq, Option.map_eq_none_iff]

theorem ne_none_of_next (h : m.next a = some b) : m a ≠ none :=
  next_ne_none.mp (h ▸ Option.some_ne_none b)

/-! ## Lists -/

/-- A node is followed by another one. -/
def Linked (m : Nodes α) (a b : α) : Prop := m.next a = some b ∧ m.prev b = some a

/-- The nodes of `l` lead from `a` to `b`. -/
def Path (m : Nodes α) : α → List α → α → Prop
  | a, [], b => Linked m a b
  | a, c :: l, b => Linked m a c ∧ Path m c l b

/-- The list with this head has the nodes of `l`. -/
structure Ring (m : Nodes α) (head : α) (l : List α) : Prop where
  nodup : (head :: l).Nodup
  path : Path m head l head

/-- From `a` on, a loop that ends at `b` visits the nodes of `l`. -/
def Walk (m : Nodes α) (b : α) : α → List α → Prop
  | a, [] => a = b
  | a, c :: l => a = c ∧ ∃ a', m.next c = some a' ∧ Walk m b a' l

theorem path_append_cons {l' : List α} :
    Path m a (l ++ c :: l') b ↔ Path m a l c ∧ Path m c l' b := by
  induction l generalizing a with
  | nil => exact Iff.rfl
  | cons d l ih => rw [List.cons_append, Path, Path, ih, and_assoc]

theorem path_append_singleton :
    Path m a (l ++ [c]) b ↔ Path m a l c ∧ Linked m c b := path_append_cons

/-- A path depends on what its nodes are followed by, and preceded by. -/
theorem Path.congr (h : Path m a l b) (hnext : ∀ x ∈ a :: l, m'.next x = m.next x)
    (hprev : ∀ x ∈ l ++ [b], m'.prev x = m.prev x) : Path m' a l b := by
  induction l generalizing a with
  | nil =>
    exact ⟨(hnext a List.mem_cons_self).trans h.1, (hprev b List.mem_cons_self).trans h.2⟩
  | cons c l ih =>
    rw [List.cons_append] at hprev
    obtain ⟨hprevc, hprev⟩ := List.forall_mem_cons.mp hprev
    obtain ⟨hnexta, hnext⟩ := List.forall_mem_cons.mp hnext
    exact ⟨⟨hnexta.trans h.1.1, hprevc.trans h.1.2⟩, ih h.2 hnext hprev⟩

theorem Ring.congr (h : Ring m head l) (hsame : ∀ x ∈ head :: l, m' x = m x) : Ring m' head l := by
  refine ⟨h.nodup, h.path.congr (fun x hx => ?_) fun x hx => ?_⟩
  · exact next_congr (hsame x hx)
  · have hmem : x ∈ head :: l := by
      rcases List.mem_append.mp hx with hx | hx
      · exact List.mem_cons_of_mem head hx
      · exact List.mem_singleton.mp hx ▸ List.mem_cons_self
    rw [prev, prev, hsame x hmem]

theorem Path.ne_none (h : Path m a l b) : ∀ x ∈ a :: l, m x ≠ none := by
  induction l generalizing a with
  | nil =>
    intro x hx
    rw [List.mem_singleton.mp hx]
    exact ne_none_of_next h.1
  | cons c l ih =>
    intro x hx
    rcases List.mem_cons.mp hx with rfl | hx
    · exact ne_none_of_next h.1.1
    · exact ih h.2 x hx

theorem Path.walk (h : Path m a l b) : ∃ first, m.next a = some first ∧ Walk m b first l := by
  induction l generalizing a with
  | nil => exact ⟨b, h.1, rfl⟩
  | cons c l ih =>
    obtain ⟨first, hfirst, hwalk⟩ := ih h.2
    exact ⟨c, h.1.1, rfl, first, hfirst, hwalk⟩

theorem Ring.walk (h : Ring m head l) : ∃ first, m.next head = some first ∧ Walk m head first l :=
  h.path.walk

theorem Walk.congr (h : Walk m b a l) (hnext : ∀ x ∈ l, m'.next x = m.next x) :
    Walk m' b a l := by
  induction l generalizing a with
  | nil => exact h
  | cons c l ih =>
    obtain ⟨rfl, a', ha', hwalk⟩ := h
    obtain ⟨hnextc, hnext⟩ := List.forall_mem_cons.mp hnext
    exact ⟨rfl, a', hnextc.trans ha', ih hwalk hnext⟩

/-- A loop can always read where to go next. -/
theorem Walk.exists_next (h : Walk m b a l) (hb : m b ≠ none) : ∃ a', m.next a = some a' := by
  cases l with
  | nil =>
    obtain rfl := h
    exact Option.ne_none_iff_exists'.mp (next_ne_none.mpr hb)
  | cons c l =>
    obtain ⟨rfl, a', ha', -⟩ := h
    exact ⟨a', ha'⟩

/-- A loop visits the same nodes whenever it is run. -/
theorem Walk.unique {l' : List α} (h : Walk m b a l) (h' : Walk m b a l') (hb : b ∉ l)
    (hb' : b ∉ l') : l = l' := by
  induction l generalizing a l' with
  | nil =>
    obtain rfl := h
    cases l' with
    | nil => rfl
    | cons c l' => exact absurd h'.1 (List.ne_of_not_mem_cons hb')
  | cons c l ih =>
    obtain ⟨rfl, a₁, hnext, hwalk⟩ := h
    cases l' with
    | nil => exact absurd h'.symm (List.ne_of_not_mem_cons hb)
    | cons c' l' =>
      obtain ⟨rfl, a₂, hnext', hwalk'⟩ := h'
      obtain rfl := Option.some.inj (hnext.symm.trans hnext')
      rw [ih hwalk hwalk' (List.not_mem_of_not_mem_cons hb) (List.not_mem_of_not_mem_cons hb')]

/-- A path has a last node. It leads elsewhere if the last node does. -/
theorem Path.last (h : Path m a l b) (hnodup : (a :: l).Nodup) :
    ∃ last ∈ a :: l, m.prev b = some last ∧
      ∀ m' : Nodes α, ∀ elem, Linked m' last elem →
        (∀ x ∈ a :: l, x ≠ last → m'.next x = m.next x) →
        (∀ x ∈ l, m'.prev x = m.prev x) → Path m' a l elem := by
  rcases List.eq_nil_or_concat l with rfl | ⟨l, last, rfl⟩
  · exact ⟨a, List.mem_cons_self, h.2, fun _ _ hlink _ _ => hlink⟩
  · rw [List.concat_eq_append] at h hnodup ⊢
    obtain ⟨hpath, hlink⟩ := path_append_singleton.mp h
    refine ⟨last, by simp, hlink.2, fun m' elem hlink' hnext hprev => ?_⟩
    refine path_append_singleton.mpr ⟨hpath.congr (fun x hx => hnext x ?_ ?_) hprev, hlink'⟩
    · exact List.mem_cons.mpr ((List.mem_cons.mp hx).imp_right (List.mem_append_left _))
    · rintro rfl
      rw [← List.cons_append] at hnodup
      exact List.disjoint_of_nodup_append hnodup hx List.mem_cons_self

/-! ## The operations -/

variable [DecidableEq α]

/-- A node is written. -/
def modify (m : Nodes α) (a : α) (f : ListNode α → ListNode α) : Option (Nodes α) :=
  (m a).map fun node => Function.update m a (some (f node))

def setNext (m : Nodes α) (a v : α) : Option (Nodes α) :=
  m.modify a fun node => { node with next := v }

def setPrev (m : Nodes α) (a v : α) : Option (Nodes α) :=
  m.modify a fun node => { node with prev := v }

def list_init (m : Nodes α) (head : α) : Option (Nodes α) := do
  let m ← m.setNext head head
  m.setPrev head head

def list_push_back (m : Nodes α) (head elem : α) : Option (Nodes α) := do
  let last ← m.prev head
  let m ← m.setNext last elem
  let last ← m.prev head
  let m ← m.setPrev elem last
  let m ← m.setNext elem head
  m.setPrev head elem

def list_swap (m : Nodes α) (new_head old_head : α) : Option (Nodes α) := do
  let first ← m.next old_head
  let m ← m.setNext new_head first
  let last ← m.prev old_head
  let m ← m.setPrev new_head last
  let first ← m.next old_head
  let m ← m.setPrev first new_head
  let last ← m.prev old_head
  let m ← m.setNext last new_head
  m.list_init old_head

theorem exists_modify (h : m a ≠ none) (f : ListNode α → ListNode α) :
    ∃ m', m.modify a f = some m' ∧ ∀ x, m' x = if x = a then (m a).map f else m x := by
  obtain ⟨node, hnode⟩ := Option.ne_none_iff_exists'.mp h
  refine ⟨_, by rw [modify, hnode, Option.map_some], fun x => ?_⟩
  rw [Function.update_apply, hnode]
  rfl

theorem frame_of_modify {f : ListNode α → ListNode α}
    (h : ∀ x, m' x = if x = a then (m a).map f else m x) : Frame m m' [a] where
  same x hx := (h x).trans (if_neg fun heq => hx (List.mem_singleton.mpr heq))
  live x := by
    rw [h]
    split_ifs with hx
    · rw [hx, Option.map_eq_none_iff]
    · exact Iff.rfl

theorem exists_setNext (h : m a ≠ none) (v : α) : ∃ m', m.setNext a v = some m' ∧
    (∀ x, m'.next x = if x = a then some v else m.next x) ∧ (∀ x, m'.prev x = m.prev x) ∧
    Frame m m' [a] := by
  obtain ⟨m', hm', hmodify⟩ := exists_modify h fun node => { node with next := v }
  obtain ⟨node, hnode⟩ := Option.ne_none_iff_exists'.mp h
  refine ⟨m', hm', fun x => ?_, fun x => ?_, frame_of_modify hmodify⟩
  · rw [next, hmodify, hnode]
    split_ifs <;> rfl
  · rw [prev, hmodify]
    split_ifs with hx
    · rw [prev, hx, hnode]
      rfl
    · rfl

theorem exists_setPrev (h : m a ≠ none) (v : α) : ∃ m', m.setPrev a v = some m' ∧
    (∀ x, m'.prev x = if x = a then some v else m.prev x) ∧ (∀ x, m'.next x = m.next x) ∧
    Frame m m' [a] := by
  obtain ⟨m', hm', hmodify⟩ := exists_modify h fun node => { node with prev := v }
  obtain ⟨node, hnode⟩ := Option.ne_none_iff_exists'.mp h
  refine ⟨m', hm', fun x => ?_, fun x => ?_, frame_of_modify hmodify⟩
  · rw [prev, hmodify, hnode]
    split_ifs <;> rfl
  · rw [next, hmodify]
    split_ifs with hx
    · rw [next, hx, hnode]
      rfl
    · rfl

theorem exists_list_init (h : m head ≠ none) : ∃ m', m.list_init head = some m' ∧
    (∀ x, m'.next x = if x = head then some head else m.next x) ∧
    (∀ x, m'.prev x = if x = head then some head else m.prev x) ∧ Frame m m' [head] := by
  obtain ⟨m₁, h₁, hnext₁, hprev₁, hframe₁⟩ := exists_setNext h head
  obtain ⟨m₂, h₂, hprev₂, hnext₂, hframe₂⟩ :=
    exists_setPrev (fun hnone => h ((hframe₁.live head).mp hnone)) head
  refine ⟨m₂, by simp [list_init, h₁, h₂], fun x => (hnext₂ x).trans (hnext₁ x), fun x => ?_,
    hframe₁.trans hframe₂ (List.Subset.refl _) (List.Subset.refl _)⟩
  rw [hprev₂, hprev₁]

/-- An element is added at the end. -/
theorem ring_push_back (h : Ring m head l) (helem : elem ∉ head :: l) (hsome : m elem ≠ none) :
    ∃ m', m.list_push_back head elem = some m' ∧ Ring m' head (l ++ [elem]) ∧
      Frame m m' (elem :: head :: l) := by
  obtain ⟨last, hlast, hprev, hpath⟩ := h.path.last h.nodup
  have hlive := h.path.ne_none
  obtain ⟨m₁, h₁, hnext₁, hprev₁, hframe₁⟩ := exists_setNext (hlive last hlast) elem
  obtain ⟨m₂, h₂, hprev₂, hnext₂, hframe₂⟩ :=
    exists_setPrev (fun hnone => hsome ((hframe₁.live elem).mp hnone)) last
  have hframe₁₂ : Frame m m₂ (elem :: head :: l) :=
    hframe₁.trans hframe₂ (by simpa using .inr (List.mem_cons.mp hlast)) (by simp)
  obtain ⟨m₃, h₃, hnext₃, hprev₃, hframe₃⟩ :=
    exists_setNext (fun hnone => hsome ((hframe₁₂.live elem).mp hnone)) head
  have hframe₁₃ : Frame m m₃ (elem :: head :: l) :=
    hframe₁₂.trans hframe₃ (List.Subset.refl _) (by simp)
  obtain ⟨m₄, h₄, hprev₄, hnext₄, hframe₄⟩ := exists_setPrev
    (fun hnone => hlive head List.mem_cons_self ((hframe₁₃.live head).mp hnone)) elem
  have hne : head ≠ elem := ne_of_mem_of_not_mem List.mem_cons_self helem
  have hnext : ∀ x, m₄.next x =
      if x = elem then some head else if x = last then some elem else m.next x := fun x => by
    rw [hnext₄, hnext₃, hnext₂, hnext₁]
  have hprev' : ∀ x, m₄.prev x =
      if x = head then some elem else if x = elem then some last else m.prev x := fun x => by
    rw [hprev₄, hprev₃, hprev₂, hprev₁]
  refine ⟨m₄, ?_, ⟨?_, path_append_singleton.mpr ⟨hpath m₄ elem ⟨?_, ?_⟩ ?_ ?_, ?_, ?_⟩⟩,
    hframe₁₃.trans hframe₄ (List.Subset.refl _) (by simp)⟩
  · simp [list_push_back, hprev, h₁, hprev₁, h₂, h₃, h₄]
  · rw [← List.cons_append]
    exact List.nodup_append'.mpr ⟨h.nodup, List.nodup_singleton elem,
      List.disjoint_singleton.mpr helem⟩
  · rw [hnext, if_neg (ne_of_mem_of_not_mem hlast helem), if_pos rfl]
  · rw [hprev', if_neg hne.symm, if_pos rfl]
  · intro x hx hxlast
    rw [hnext, if_neg (ne_of_mem_of_not_mem hx helem), if_neg hxlast]
  · intro x hx
    have hxhead : x ≠ head := ne_of_mem_of_not_mem hx (List.nodup_cons.mp h.nodup).1
    have hxelem : x ≠ elem := ne_of_mem_of_not_mem (List.mem_cons_of_mem head hx) helem
    rw [hprev', if_neg hxhead, if_neg hxelem]
  · rw [hnext, if_pos rfl]
  · rw [hprev', if_pos rfl]

/-- The elements get another head, and the old one is left with none. -/
theorem ring_swap {new_head old_head : α} (h : Ring m old_head l) (hl : l ≠ [])
    (hnew : new_head ∉ old_head :: l) (hsome : m new_head ≠ none) :
    ∃ m', m.list_swap new_head old_head = some m' ∧ Ring m' new_head l ∧ Ring m' old_head [] ∧
      Frame m m' (new_head :: old_head :: l) := by
  obtain ⟨first, t, rfl⟩ := List.exists_cons_of_ne_nil hl
  obtain ⟨hlink, hpath₀⟩ := h.path
  obtain ⟨hold, hnodup⟩ := List.nodup_cons.mp h.nodup
  obtain ⟨last, hlast, hprev, hpath⟩ := hpath₀.last hnodup
  have hlive := h.path.ne_none
  have hne : old_head ≠ new_head := ne_of_mem_of_not_mem List.mem_cons_self hnew
  have hnewl : new_head ∉ first :: t := fun hmem => hnew (List.mem_cons_of_mem _ hmem)
  have hfirst : first ∈ first :: t := List.mem_cons_self
  obtain ⟨m₁, h₁, hnext₁, hprev₁, hframe₁⟩ := exists_setNext hsome first
  obtain ⟨m₂, h₂, hprev₂, hnext₂, hframe₂⟩ :=
    exists_setPrev (fun hnone => hsome ((hframe₁.live new_head).mp hnone)) last
  have hframe₁₂ : Frame m m₂ (new_head :: old_head :: first :: t) :=
    hframe₁.trans hframe₂ (by simp) (by simp)
  obtain ⟨m₃, h₃, hprev₃, hnext₃, hframe₃⟩ := exists_setPrev
    (fun hnone => hlive first (by simp) ((hframe₁₂.live first).mp hnone)) new_head
  have hframe₁₃ : Frame m m₃ (new_head :: old_head :: first :: t) :=
    hframe₁₂.trans hframe₃ (List.Subset.refl _) (by simp)
  obtain ⟨m₄, h₄, hnext₄, hprev₄, hframe₄⟩ := exists_setNext
    (fun hnone => hlive last (List.mem_cons_of_mem _ hlast) ((hframe₁₃.live last).mp hnone))
    new_head
  have hframe₁₄ : Frame m m₄ (new_head :: old_head :: first :: t) :=
    hframe₁₃.trans hframe₄ (List.Subset.refl _)
      (by simpa using .inr (.inr (List.mem_cons.mp hlast)))
  obtain ⟨m₅, h₅, hnext₅, hprev₅, hframe₅⟩ := exists_list_init
    (fun hnone => hlive old_head List.mem_cons_self ((hframe₁₄.live old_head).mp hnone))
  have hnext : ∀ x, m₅.next x = if x = old_head then some old_head else
      if x = last then some new_head else if x = new_head then some first else m.next x := by
    intro x
    rw [hnext₅, hnext₄, hnext₃, hnext₂, hnext₁]
  have hprev' : ∀ x, m₅.prev x = if x = old_head then some old_head else
      if x = first then some new_head else if x = new_head then some last else m.prev x := by
    intro x
    rw [hprev₅, hprev₄, hprev₃, hprev₂, hprev₁]
  have hoff : ∀ x ∈ first :: t, x ≠ old_head ∧ x ≠ new_head := fun x hx =>
    ⟨ne_of_mem_of_not_mem hx hold, ne_of_mem_of_not_mem hx hnewl⟩
  refine ⟨m₅, ?_, ⟨List.nodup_cons.mpr ⟨hnewl, hnodup⟩, ⟨?_, ?_⟩,
      hpath m₅ new_head ⟨?_, ?_⟩ ?_ ?_⟩, ⟨List.nodup_singleton _, ?_, ?_⟩,
    hframe₁₄.trans hframe₅ (List.Subset.refl _) (by simp)⟩
  · have hnextold : m₂.next old_head = some first := by
      rw [hnext₂, hnext₁, if_neg hne, hlink.1]
    have hprevold₁ : m₁.prev old_head = some last := (hprev₁ _).trans hprev
    have hprevold₃ : m₃.prev old_head = some last := by
      rw [hprev₃, if_neg (hoff first hfirst).1.symm, hprev₂, if_neg hne, hprevold₁]
    simp [list_swap, hlink.1, h₁, hprevold₁, h₂, hnextold, h₃, hprevold₃, h₄, h₅]
  · rw [hnext, if_neg hne.symm, if_neg (hoff last hlast).2.symm, if_pos rfl]
  · rw [hprev', if_neg (hoff first hfirst).1, if_pos rfl]
  · rw [hnext, if_neg (hoff last hlast).1, if_pos rfl]
  · rw [hprev', if_neg hne.symm, if_neg (hoff first hfirst).2.symm, if_pos rfl]
  · intro x hx hxlast
    rw [hnext, if_neg (hoff x hx).1, if_neg hxlast, if_neg (hoff x hx).2]
  · intro x hx
    have hxfirst : x ≠ first := ne_of_mem_of_not_mem hx (List.nodup_cons.mp hnodup).1
    obtain ⟨hxold, hxnew⟩ := hoff x (List.mem_cons_of_mem first hx)
    rw [hprev', if_neg hxold, if_neg hxfirst, if_neg hxnew]
  · rw [hnext, if_pos rfl]
  · rw [hprev', if_pos rfl]

/-- The last node of an empty list is its head, and is overwritten before it is read again. -/
theorem exists_list_swap_nil {new_head old_head : α} (h : Ring m old_head [])
    (hne : new_head ≠ old_head) (hsome : m new_head ≠ none) :
    ∃ m', m.list_swap new_head old_head = some m' ∧ m'.prev new_head = some old_head := by
  obtain ⟨hfirst, hlast⟩ := h.path
  have hlive : m old_head ≠ none := h.path.ne_none old_head List.mem_cons_self
  obtain ⟨m₁, h₁, hnext₁, hprev₁, hframe₁⟩ := exists_setNext hsome old_head
  obtain ⟨m₂, h₂, hprev₂, hnext₂, hframe₂⟩ :=
    exists_setPrev (fun hnone => hsome ((hframe₁.live new_head).mp hnone)) old_head
  have hframe₁₂ : Frame m m₂ [new_head] :=
    hframe₁.trans hframe₂ (List.Subset.refl _) (List.Subset.refl _)
  obtain ⟨m₃, h₃, hprev₃, hnext₃, hframe₃⟩ :=
    exists_setPrev (fun hnone => hlive ((hframe₁₂.live old_head).mp hnone)) new_head
  have hframe₁₃ : Frame m m₃ [new_head, old_head] := hframe₁₂.trans hframe₃ (by simp) (by simp)
  obtain ⟨m₄, h₄, hnext₄, hprev₄, hframe₄⟩ :=
    exists_setNext (fun hnone => hsome ((hframe₁₃.live new_head).mp hnone)) new_head
  have hframe₁₄ : Frame m m₄ [new_head, old_head] :=
    hframe₁₃.trans hframe₄ (List.Subset.refl _) (by simp)
  obtain ⟨m₅, h₅, hnext₅, hprev₅, hframe₅⟩ :=
    exists_list_init (fun hnone => hlive ((hframe₁₄.live old_head).mp hnone))
  refine ⟨m₅, ?_, ?_⟩
  · have hprevold₁ : m₁.prev old_head = some old_head := (hprev₁ _).trans hlast
    have hnextold₂ : m₂.next old_head = some old_head := by
      rw [hnext₂, hnext₁, if_neg hne.symm, hfirst]
    have hprevold₃ : m₃.prev old_head = some new_head := by rw [hprev₃, if_pos rfl]
    simp [list_swap, hfirst, h₁, hprevold₁, h₂, hnextold₂, h₃, hprevold₃, h₄, h₅]
  · rw [hprev₅, if_neg hne, hprev₄, hprev₃, if_neg hne, hprev₂, if_pos rfl]

/-- **`list_swap` moves the whole list** to the new head exactly if the list is not empty and the
new head is not one of its elements. -/
theorem list_swap_iff {new_head old_head : α} (h : Ring m old_head l) (hne : new_head ≠ old_head)
    (hsome : m new_head ≠ none) :
    (∃ m', m.list_swap new_head old_head = some m' ∧ Ring m' new_head l ∧ Ring m' old_head [] ∧
        List.Disjoint (new_head :: l) [old_head]) ↔
      l ≠ [] ∧ new_head ∉ l := by
  have hold : old_head ∉ l := (List.nodup_cons.mp h.nodup).1
  constructor
  · rintro ⟨m', hm', hring, -, -⟩
    refine ⟨?_, (List.nodup_cons.mp hring.nodup).1⟩
    rintro rfl
    obtain ⟨m'', hm'', hprev⟩ := exists_list_swap_nil h hne hsome
    obtain rfl := Option.some.inj (hm'.symm.trans hm'')
    exact hne (Option.some.inj (hring.path.2.symm.trans hprev))
  · rintro ⟨hl, hnew⟩
    obtain ⟨m', hm', hring, hempty, -⟩ :=
      ring_swap h hl (List.not_mem_cons_of_ne_of_not_mem hne hnew) hsome
    refine ⟨m', hm', hring, hempty, List.disjoint_singleton.mpr ?_⟩
    exact List.not_mem_cons_of_ne_of_not_mem hne.symm hold

/-- Two heads of empty lists. -/
def twoHeads : Nodes Bool := fun a => some ⟨a, a⟩

/-- The new head leads back to the old one. -/
theorem not_list_swap_empty :
    Ring twoHeads false [] ∧ ¬∃ m', twoHeads.list_swap true false = some m' ∧ Ring m' true [] ∧
      Ring m' false [] ∧ List.Disjoint [true] [false] := by
  have hring : Ring twoHeads false [] := ⟨List.nodup_singleton _, rfl, rfl⟩
  refine ⟨hring, ?_⟩
  rintro ⟨m', hm', hring', -, -⟩
  obtain ⟨m'', hm'', hprev⟩ :=
    exists_list_swap_nil hring Bool.false_ne_true.symm (Option.some_ne_none _)
  obtain rfl := Option.some.inj (hm'.symm.trans hm'')
  cases Option.some.inj (hring'.path.2.symm.trans hprev)

/-- A head, its list with three elements, and another node. -/
def threeElements : Nodes (Fin 5) := fun a =>
  if a = 4 then some ⟨4, 4⟩ else some ⟨if a = 3 then 0 else a + 1, if a = 0 then 3 else a - 1⟩

theorem list_swap_threeElements :
    ∃ m', threeElements.list_swap 4 0 = some m' ∧ Ring m' 4 [1, 2, 3] ∧ Ring m' 0 [] ∧
      List.Disjoint [4, 1, 2, 3] [(0 : Fin 5)] := by
  have hring : Ring threeElements 0 [1, 2, 3] :=
    ⟨by decide, ⟨rfl, rfl⟩, ⟨rfl, rfl⟩, ⟨rfl, rfl⟩, rfl, rfl⟩
  exact (list_swap_iff hring (by decide) (by decide)).mpr ⟨by decide, by decide⟩

end Nodes

end CodingDemo.Libc
