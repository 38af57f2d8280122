import CodingDemo.Container.ListNode
import Mathlib.Data.List.Basic

/-!
# More operations on linked lists, and loops over them

To insert at the front is to insert at the end of the list read backwards. A node is deleted by
linking its neighbours, whose addresses may be the same, or that of the head.

## Main definitions

* `list_push_front`, `list_del`, `list_del_init`: the operations
* `free`: the memory of a node is given back
* `flip`: the same memory with the two members of every node exchanged
* `traverse`: a loop that follows one of the members of the nodes
* `list_for_each_safe`: a loop whose body may delete the node it visits

## Main results

* `ring_push_front`, `ring_unlink_mem`: the lists after the operations
* `Ring.list_for_each`, `Ring.visited_prev`: the nodes of a list, and the same in reverse
* `Ring.list_for_each_safe`: the loop visits each node once, whatever its body deletes
-/

namespace CodingDemo.Libc

variable {α : Type*}

namespace Nodes

/-! ## Lists read backwards -/

/-- The two members of every node are exchanged. -/
def flip (m : Nodes α) : Nodes α := fun a => (m a).map fun node => ⟨node.prev, node.next⟩

variable {m m' : Nodes α} {a b c head elem : α} {l l₁ l₂ s : List α}

@[simp] theorem next_flip (m : Nodes α) (a : α) : m.flip.next a = m.prev a := by
  simp [next, prev, flip, Function.comp_def]

@[simp] theorem prev_flip (m : Nodes α) (a : α) : m.flip.prev a = m.next a := by
  simp [next, prev, flip, Function.comp_def]

@[simp] theorem flip_flip (m : Nodes α) : m.flip.flip = m := by
  funext a
  simp [flip, Function.comp_def]

theorem flip_eq_none : m.flip a = none ↔ m a = none := Option.map_eq_none_iff

theorem linked_flip : Linked m.flip a b ↔ Linked m b a := by
  rw [Linked, Linked, next_flip, prev_flip, and_comm]

theorem Path.flip (h : Path m a l b) : Path m.flip b l.reverse a := by
  induction l generalizing a with
  | nil => exact linked_flip.mpr h
  | cons c l ih =>
    rw [List.reverse_cons]
    exact path_append_singleton.mpr ⟨ih h.2, linked_flip.mpr h.1⟩

theorem Ring.flip (h : Ring m head l) : Ring m.flip head l.reverse where
  nodup := by
    have hnodup := h.nodup
    rw [List.nodup_cons] at hnodup ⊢
    rwa [List.mem_reverse, List.nodup_reverse]
  path := h.path.flip

theorem Frame.flip (h : Frame m.flip m' s) : Frame m m'.flip s where
  same a ha := by
    show (m' a).map _ = m a
    rw [h.same a ha]
    exact congrFun (flip_flip m) a
  live a := flip_eq_none.trans ((h.live a).trans flip_eq_none)

/-! ## The operations -/

variable [DecidableEq α]

def list_push_front (m : Nodes α) (head elem : α) : Option (Nodes α) := do
  let first ← m.next head
  let m ← m.setPrev first elem
  let first ← m.next head
  let m ← m.setNext elem first
  let m ← m.setPrev elem head
  m.setNext head elem

def _list_del (m : Nodes α) (prev next : α) : Option (Nodes α) := do
  let m ← m.setNext prev next
  m.setPrev next prev

def list_del (NULL : α) (m : Nodes α) (elem : α) : Option (Nodes α) := do
  let m ← m._list_del (← m.prev elem) (← m.next elem)
  let m ← m.setPrev elem NULL
  m.setNext elem NULL

def list_del_init (m : Nodes α) (elem : α) : Option (Nodes α) := do
  let m ← m._list_del (← m.prev elem) (← m.next elem)
  let m ← m.setPrev elem elem
  m.setNext elem elem

/-- The memory of a node is given back. -/
def free (m : Nodes α) (a : α) : Option (Nodes α) :=
  (m a).map fun _ => Function.update m a none

/-! ## Inserting at the front -/

theorem flip_update (m : Nodes α) (a : α) (node : ListNode α) :
    flip (Function.update m a (some node)) =
      Function.update m.flip a (some ⟨node.prev, node.next⟩) := by
  funext x
  by_cases hx : x = a
  · rw [hx, flip, Function.update_self, Function.update_self]
    rfl
  · rw [flip, Function.update_of_ne hx, Function.update_of_ne hx]
    rfl

theorem setPrev_flip (m : Nodes α) (a v : α) : m.flip.setPrev a v = (m.setNext a v).map flip := by
  unfold setPrev setNext modify
  cases hnode : m a with
  | none => simp [flip, hnode]
  | some node => simp [flip_update, flip, hnode]

theorem setNext_flip (m : Nodes α) (a v : α) : m.flip.setNext a v = (m.setPrev a v).map flip := by
  have hflip := congrArg (Option.map flip) (setPrev_flip m.flip a v)
  rw [flip_flip, Option.map_map] at hflip
  rw [hflip]
  simp [Function.comp_def]

/-- To insert at the front is to insert at the end of the list read backwards. -/
theorem list_push_front_eq (m : Nodes α) (head elem : α) :
    m.list_push_front head elem = (m.flip.list_push_back head elem).map flip := by
  simp [list_push_front, list_push_back, setNext_flip, setPrev_flip, Option.bind_map,
    Function.comp_def]

theorem ring_push_front (h : Ring m head l) (helem : elem ∉ head :: l) (hsome : m elem ≠ none) :
    ∃ m', m.list_push_front head elem = some m' ∧ Ring m' head (elem :: l) ∧
      Frame m m' (elem :: head :: l) := by
  have hnew : elem ∉ head :: l.reverse := by
    rwa [List.mem_cons, List.mem_reverse, ← List.mem_cons]
  obtain ⟨m', hm', hring, hframe⟩ :=
    ring_push_back h.flip hnew fun hnone => hsome (flip_eq_none.mp hnone)
  refine ⟨m'.flip, by rw [list_push_front_eq, hm', Option.map_some], ?_, ?_⟩
  · have hflip := hring.flip
    rwa [List.reverse_append, List.reverse_reverse] at hflip
  · have hflip := hframe.flip
    refine ⟨fun a ha => hflip.same a ?_, hflip.live⟩
    simpa using ha

/-! ## Deleting -/

/-- The neighbours of the node are linked, and its own members become `v`. -/
def unlink (m : Nodes α) (elem v : α) : Option (Nodes α) := do
  let m ← m._list_del (← m.prev elem) (← m.next elem)
  let m ← m.setPrev elem v
  m.setNext elem v

theorem list_del_eq (NULL : α) (m : Nodes α) (elem : α) :
    m.list_del NULL elem = m.unlink elem NULL := rfl

theorem list_del_init_eq (m : Nodes α) (elem : α) : m.list_del_init elem = m.unlink elem elem := rfl

omit [DecidableEq α] in
theorem Path.next_eq (h : Path m a l b) : m.next a = some (l.headD b) := by
  cases l with
  | nil => exact h.1
  | cons c l => exact h.1.1

omit [DecidableEq α] in
theorem headD_mem (a : α) (l : List α) : l.headD a ∈ a :: l := by
  cases l with
  | nil => exact List.mem_cons_self
  | cons c l => exact List.mem_cons_of_mem a List.mem_cons_self

omit [DecidableEq α] in
theorem Path.append (h : Path m a l (l₁.headD b)) (h₁ : l₁ ≠ [] → Path m (l₁.headD b) l₁.tail b) :
    Path m a (l ++ l₁) b := by
  cases l₁ with
  | nil => rwa [List.append_nil]
  | cons c l₁ => exact path_append_cons.mpr ⟨h, h₁ (List.cons_ne_nil c l₁)⟩

omit [DecidableEq α] in
/-- A node of a list is between what comes before it and what comes after it. -/
theorem Ring.split (h : Ring m head (l₁ ++ elem :: l₂)) :
    Path m head l₁ elem ∧ Path m elem l₂ head ∧ (head :: l₁).Nodup ∧ (head :: (l₁ ++ l₂)).Nodup ∧
      elem ∉ head :: (l₁ ++ l₂) := by
  obtain ⟨hpath₁, hpath₂⟩ := path_append_cons.mp h.path
  have hnodup := h.nodup
  rw [← List.cons_append, List.nodup_middle, List.nodup_cons, List.cons_append] at hnodup
  refine ⟨hpath₁, hpath₂, ?_, hnodup.2, hnodup.1⟩
  rw [← List.cons_append] at hnodup
  exact hnodup.2.of_append_left

/-- What is written when the node between `a` and `b` is unlinked. -/
theorem exists_unlink (hprev : m.prev elem = some a) (hnext : m.next elem = some b)
    (ha : m a ≠ none) (hb : m b ≠ none) (v : α) : ∃ m', m.unlink elem v = some m' ∧
      (∀ x ≠ elem, m'.next x = if x = a then some b else m.next x) ∧
      (∀ x ≠ elem, m'.prev x = if x = b then some a else m.prev x) ∧ Frame m m' [a, b, elem] := by
  have helem : m elem ≠ none := ne_none_of_next hnext
  obtain ⟨m₁, h₁, hnext₁, hprev₁, hframe₁⟩ := exists_setNext ha b
  obtain ⟨m₂, h₂, hprev₂, hnext₂, hframe₂⟩ :=
    exists_setPrev (fun hnone => hb ((hframe₁.live b).mp hnone)) a
  have hframe₁₂ : Frame m m₂ [a, b, elem] := hframe₁.trans hframe₂ (by simp) (by simp)
  obtain ⟨m₃, h₃, hprev₃, hnext₃, hframe₃⟩ :=
    exists_setPrev (fun hnone => helem ((hframe₁₂.live elem).mp hnone)) v
  have hframe₁₃ : Frame m m₃ [a, b, elem] :=
    hframe₁₂.trans hframe₃ (List.Subset.refl _) (by simp)
  obtain ⟨m₄, h₄, hnext₄, hprev₄, hframe₄⟩ :=
    exists_setNext (fun hnone => helem ((hframe₁₃.live elem).mp hnone)) v
  refine ⟨m₄, ?_, fun x hx => ?_, fun x hx => ?_,
    hframe₁₃.trans hframe₄ (List.Subset.refl _) (by simp)⟩
  · simp [unlink, _list_del, hprev, hnext, h₁, h₂, h₃, h₄]
  · rw [hnext₄, if_neg hx, hnext₃, hnext₂, hnext₁]
  · rw [hprev₄, hprev₃, if_neg hx, hprev₂, hprev₁]

/-- The nodes behind the deleted one, of which `c` is the first, follow each other as before. -/
theorem Path.behind {t : List α} {p : α} (h : Path m c t b) (hnodup : (b :: c :: t).Nodup)
    (hp : p ∉ c :: t) (hnext : ∀ x ∈ c :: t, m'.next x = if x = p then some c else m.next x)
    (hprev : ∀ x ∈ b :: t, m'.prev x = if x = c then some p else m.prev x) :
    Path m' c t b := by
  obtain ⟨hb, hnodup⟩ := List.nodup_cons.mp hnodup
  obtain ⟨hct, -⟩ := List.nodup_cons.mp hnodup
  refine h.congr (fun x hx => ?_) fun x hx => ?_
  · have hxp : x ≠ p := ne_of_mem_of_not_mem hx hp
    rw [hnext x hx, if_neg hxp]
  · have hxt : x ∈ b :: t := List.mem_cons.mpr (by simpa [or_comm] using hx)
    have hxc : x ≠ c := by
      rintro rfl
      obtain rfl | hxt := List.mem_cons.mp hxt
      · exact hb List.mem_cons_self
      · exact hct hxt
    rw [hprev x hxt, if_neg hxc]

/-- The neighbours of a deleted node follow each other, and it may be written again. -/
theorem ring_unlink (h : Ring m head (l₁ ++ elem :: l₂)) (v : α) :
    ∃ m', m.unlink elem v = some m' ∧ Ring m' head (l₁ ++ l₂) ∧
      Frame m m' (head :: (l₁ ++ elem :: l₂)) := by
  obtain ⟨hpath₁, hpath₂, hnodup₁, hnodup, helem⟩ := h.split
  obtain ⟨hheadl, hl⟩ := List.nodup_cons.mp hnodup
  obtain ⟨-, hnodup₂, hdisj⟩ := List.nodup_append'.mp hl
  obtain ⟨p, hp, hprevelem, hjoin⟩ := hpath₁.last hnodup₁
  have hnextelem := hpath₂.next_eq
  have hq : l₂.headD head ∈ head :: l₂ := headD_mem head l₂
  have hsub₁ : head :: l₁ ⊆ head :: (l₁ ++ l₂) :=
    List.cons_subset_cons head (List.subset_append_left l₁ l₂)
  have hsub₂ : head :: l₂ ⊆ head :: (l₁ ++ l₂) :=
    List.cons_subset_cons head (List.subset_append_right l₁ l₂)
  have hsub : head :: (l₁ ++ l₂) ⊆ head :: (l₁ ++ elem :: l₂) := by
    refine List.cons_subset_cons head (List.append_subset_of_subset_of_subset ?_ ?_)
    · exact List.subset_append_left l₁ _
    · exact List.Subset.trans (List.subset_cons_self elem l₂) (List.subset_append_right l₁ _)
  have hlive := h.path.ne_none
  obtain ⟨m', hm', hnext, hprev, hframe⟩ := exists_unlink hprevelem hnextelem
    (hlive p (hsub (hsub₁ hp))) (hlive _ (hsub (hsub₂ hq))) v
  have hoff : ∀ x ∈ head :: (l₁ ++ l₂), x ≠ elem := fun x hx => ne_of_mem_of_not_mem hx helem
  have hlink : Linked m' p (l₂.headD head) := by
    constructor
    · rw [hnext p (hoff p (hsub₁ hp)), if_pos rfl]
    · rw [hprev _ (hoff _ (hsub₂ hq)), if_pos rfl]
  refine ⟨m', hm', ⟨hnodup, Path.append (hjoin m' _ hlink ?_ ?_) ?_⟩, ?_⟩
  · -- no other node before the deleted one gets another successor
    intro x hx hxp
    rw [hnext x (hoff x (hsub₁ hx)), if_neg hxp]
  · -- nor does one get another predecessor, since the next node is not among them
    intro x hx
    have hxq : x ≠ l₂.headD head := by
      intro heq
      obtain hhead | hmem := List.mem_cons.mp hq
      · exact hheadl (hhead ▸ heq ▸ List.mem_append_left l₂ hx)
      · exact hdisj (heq ▸ hx) hmem
    rw [hprev x (hoff x (hsub₁ (List.mem_cons_of_mem head hx))), if_neg hxq]
  · -- behind the deleted node, only the first one gets another predecessor
    intro hne
    obtain ⟨c, t, rfl⟩ := List.exists_cons_of_ne_nil hne
    have hhead : head ∉ c :: t := fun hmem => hheadl (List.mem_append_right l₁ hmem)
    have hpt : p ∉ c :: t := by
      intro hmem
      obtain rfl | hpl := List.mem_cons.mp hp
      · exact hhead hmem
      · exact hdisj hpl hmem
    have hsubt : head :: t ⊆ head :: c :: t :=
      List.cons_subset_cons head (List.subset_cons_self c t)
    exact hpath₂.2.behind (List.nodup_cons.mpr ⟨hhead, hnodup₂⟩) hpt
      (fun x hx => hnext x (hoff x (hsub₂ (List.mem_cons_of_mem head hx))))
      fun x hx => hprev x (hoff x (hsub₂ (hsubt hx)))
  · refine ⟨fun x hx => hframe.same x fun hmem => hx ?_, hframe.live⟩
    simp only [List.mem_cons, List.not_mem_nil, or_false] at hmem
    obtain rfl | rfl | rfl := hmem
    · exact hsub (hsub₁ hp)
    · exact hsub (hsub₂ hq)
    · simp

/-- A deleted node is erased from the list. -/
theorem ring_unlink_mem (h : Ring m head l) (helem : elem ∈ l) (v : α) :
    ∃ m', m.unlink elem v = some m' ∧ Ring m' head (l.erase elem) ∧ Frame m m' (head :: l) := by
  obtain ⟨l₁, l₂, rfl⟩ := List.append_of_mem helem
  have hnot : elem ∉ l₁ := fun hmem =>
    h.split.2.2.2.2 (List.mem_cons_of_mem head (List.mem_append_left l₂ hmem))
  rw [List.erase_append_right _ hnot, List.erase_cons_head]
  exact ring_unlink h v

/-! ## Loops -/

/-- Follow `link` from `pos` to `head`, and note the nodes on the way. -/
def traverse (link : α → Option α) (head : α) : ℕ → α → Option (List α)
  | 0, _ => none
  | fuel + 1, pos =>
    if pos = head then some []
    else do
      let l ← traverse link head fuel (← link pos)
      return pos :: l

/-- The nodes that a loop visits which starts behind `head`. -/
def visited (link : α → Option α) (head : α) (fuel : ℕ) : Option (List α) := do
  traverse link head fuel (← link head)

/-- `list_for_each(pos, head)` -/
def list_for_each (m : Nodes α) (head : α) (fuel : ℕ) : Option (List α) := visited m.next head fuel

theorem Walk.traverse {fuel : ℕ} (h : Walk m b a l) (hb : b ∉ l) (hfuel : l.length < fuel) :
    traverse m.next b fuel a = some l := by
  induction l generalizing a fuel with
  | nil =>
    obtain rfl := h
    obtain ⟨fuel, rfl⟩ : ∃ n, fuel = n + 1 := ⟨fuel - 1, by omega⟩
    exact if_pos rfl
  | cons c l ih =>
    obtain ⟨rfl, a', hnext, hwalk⟩ := h
    obtain ⟨fuel, rfl⟩ : ∃ n, fuel = n + 1 := ⟨fuel - 1, by omega⟩
    have hrest := ih hwalk (List.not_mem_of_not_mem_cons hb) (Nat.lt_of_succ_lt_succ hfuel)
    rw [Nodes.traverse, if_neg (List.ne_of_not_mem_cons hb).symm]
    simp [hnext, hrest]

/-- A loop forward visits the nodes of the list in order. -/
theorem Ring.list_for_each {fuel : ℕ} (h : Ring m head l) (hfuel : l.length < fuel) :
    m.list_for_each head fuel = some l := by
  obtain ⟨first, hfirst, hwalk⟩ := h.walk
  have htraverse := hwalk.traverse (List.nodup_cons.mp h.nodup).1 hfuel
  simp [Nodes.list_for_each, visited, hfirst, htraverse]

/-- A loop backward visits them in reverse. -/
theorem Ring.visited_prev {fuel : ℕ} (h : Ring m head l) (hfuel : l.length < fuel) :
    visited m.prev head fuel = some l.reverse := by
  have hlength : l.reverse.length < fuel := by rwa [List.length_reverse]
  have hflip := h.flip.list_for_each hlength
  have hnext : m.flip.next = m.prev := funext (next_flip m)
  rwa [Nodes.list_for_each, hnext] at hflip

/-- The loop of `list_for_each_safe(p, q, head)`: the next node has been read before the body is
run. The result is the nodes that are visited, and the memory. -/
def forSafe (body : Nodes α → α → Option (Nodes α)) (head : α) :
    ℕ → Nodes α → α → α → Option (List α × Nodes α)
  | 0, _, _, _ => none
  | fuel + 1, m, p, q =>
    if p = head then some ([], m)
    else do
      let m ← body m p
      let (l, m) ← forSafe body head fuel m q (← m.next q)
      return (p :: l, m)

def list_for_each_safe (body : Nodes α → α → Option (Nodes α)) (head : α) (fuel : ℕ)
    (m : Nodes α) : Option (List α × Nodes α) := do
  let p ← m.next head
  forSafe body head fuel m p (← m.next p)

/-- What the body does with the node it visits. -/
inductive Visit
  | keep
  | list_del
  | list_del_init
  | list_del_free
  | list_del_init_free
  deriving DecidableEq

namespace Visit

def kept : Visit → Bool
  | .keep => true
  | _ => false

def run (NULL : α) (v : Visit) (m : Nodes α) (p : α) : Option (Nodes α) :=
  match v with
  | .keep => some m
  | .list_del => m.list_del NULL p
  | .list_del_init => m.list_del_init p
  | .list_del_free => do (← m.list_del NULL p).free p
  | .list_del_init_free => do (← m.list_del_init p).free p

end Visit

/-- Memory that is not part of a list may be given back. -/
theorem Ring.exists_free (h : Ring m head l) (hoff : a ∉ head :: l) (ha : m a ≠ none) :
    ∃ m', m.free a = some m' ∧ Ring m' head l := by
  obtain ⟨node, hnode⟩ := Option.ne_none_iff_exists'.mp ha
  refine ⟨_, by rw [free, hnode, Option.map_some], h.congr fun x hx => ?_⟩
  exact Function.update_of_ne (ne_of_mem_of_not_mem hx hoff) ..

/-- The body leaves the list with or without the node. -/
theorem Ring.exists_run (h : Ring m head (l₁ ++ elem :: l₂)) (NULL : α) (v : Visit) :
    ∃ m', v.run NULL m elem = some m' ∧
      Ring m' head ((if v.kept then l₁ ++ [elem] else l₁) ++ l₂) := by
  -- a node that has been unlinked is not part of the list any more
  have hfree : ∀ w, ∃ m', (m.unlink elem w).bind (fun m => m.free elem) = some m' ∧
      Ring m' head (l₁ ++ l₂) := by
    intro w
    obtain ⟨m₁, h₁, hring, hframe⟩ := ring_unlink h w
    have hlive : m₁ elem ≠ none := fun hnone =>
      h.path.ne_none elem (by simp) ((hframe.live elem).mp hnone)
    obtain ⟨m', hm', hring'⟩ := hring.exists_free h.split.2.2.2.2 hlive
    exact ⟨m', by rw [h₁]; exact hm', hring'⟩
  cases v with
  | keep => exact ⟨m, rfl, by simpa [Visit.kept] using h⟩
  | list_del =>
    obtain ⟨m', hm', hring, -⟩ := ring_unlink h NULL
    exact ⟨m', (list_del_eq NULL m elem).trans hm', hring⟩
  | list_del_init =>
    obtain ⟨m', hm', hring, -⟩ := ring_unlink h elem
    exact ⟨m', (list_del_init_eq m elem).trans hm', hring⟩
  | list_del_free => exact hfree NULL
  | list_del_init_free => exact hfree elem

omit [DecidableEq α] in
/-- The node behind the first of `rest`, which is `head` if `rest` ends there. -/
theorem Ring.exists_next {rest : List α} (h : Ring m head (l ++ rest)) :
    ∃ q, m.next (rest.headD head) = some q ∧ ∀ c t, rest = c :: t → q = t.headD head := by
  cases rest with
  | nil => exact ⟨_, h.path.next_eq, fun _ _ h => nomatch h⟩
  | cons c t =>
    refine ⟨_, h.split.2.1.next_eq, ?_⟩
    rintro _ _ ⟨rfl, rfl⟩
    rfl

/-- The next node has been read before the body is run, so the loop can go on. -/
theorem Ring.forSafe (NULL : α) (visit : α → Visit) {rest : List α} {q : α} {fuel : ℕ}
    (h : Ring m head (l ++ rest)) (hq : ∀ c t, rest = c :: t → q = t.headD head)
    (hfuel : rest.length < fuel) :
    ∃ m', forSafe (fun m p => (visit p).run NULL m p) head fuel m (rest.headD head) q =
        some (rest, m') ∧ Ring m' head (l ++ rest.filter fun p => (visit p).kept) := by
  induction rest generalizing m l q fuel with
  | nil =>
    obtain ⟨fuel, rfl⟩ : ∃ n, fuel = n + 1 := ⟨fuel - 1, by omega⟩
    exact ⟨m, if_pos rfl, h⟩
  | cons c t ih =>
    obtain ⟨fuel, rfl⟩ : ∃ n, fuel = n + 1 := ⟨fuel - 1, by omega⟩
    obtain rfl := hq c t rfl
    have hne : c ≠ head := by
      rintro rfl
      exact (List.nodup_cons.mp h.nodup).1 (by simp)
    obtain ⟨m₁, hrun, hring⟩ := h.exists_run NULL (visit c)
    obtain ⟨q', hnext, hq'⟩ := hring.exists_next
    obtain ⟨m', hloop, hring'⟩ := ih hring hq' (Nat.lt_of_succ_lt_succ hfuel)
    refine ⟨m', ?_, ?_⟩
    · rw [Nodes.forSafe, List.headD_cons, if_neg hne]
      simp [-List.headD_eq_head?_getD, hrun, hnext, hloop]
    · -- a node that is kept belongs to the part of the list that the loop leaves behind
      cases hkept : (visit c).kept with
      | true => simpa [hkept] using hring'
      | false => simpa [hkept] using hring'

/-- The loop visits each node once, and leaves those that its body has kept. -/
theorem Ring.list_for_each_safe {fuel : ℕ} (h : Ring m head l) (NULL : α) (visit : α → Visit)
    (hfuel : l.length < fuel) :
    ∃ m', list_for_each_safe (fun m p => (visit p).run NULL m p) head fuel m = some (l, m') ∧
      Ring m' head (l.filter fun p => (visit p).kept) := by
  have hfirst := h.path.next_eq
  obtain ⟨q, hnext, hq⟩ := Ring.exists_next (l := []) h
  obtain ⟨m', hloop, hring⟩ := Ring.forSafe NULL visit (l := []) h hq hfuel
  refine ⟨m', ?_, hring⟩
  simp [-List.headD_eq_head?_getD, Nodes.list_for_each_safe, hfirst, hnext, hloop]

end Nodes

end CodingDemo.Libc
