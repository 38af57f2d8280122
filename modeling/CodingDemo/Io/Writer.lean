import CodingDemo.Container.Slice

/-!
# Writing with overlaps

A program appends to a buffer by stores of whole words: a store may go further than the position
moves, and what it leaves there is overwritten by the next one.

## Main definitions

* `Writer`: a buffer and a position in it
* `Writer.Appends s w t w'`: `t` has been appended, and nothing is changed further than `s` behind
  it
* `Emits s f t`: `f` appends `t` wherever there is room for it and `s` more

## Main results

* `Writer.appends_store`: a store of which a part is kept
* `Emits.bind`: one text after the other
* `emits_foldlM`: a list of texts
-/

namespace CodingDemo

universe u v

variable {α : Type u} {β : Type v} {l data t t' : List α} {i k s : ℕ}

/-- What a write leaves up to a place in it. -/
theorem take_overwrite (hi : i ≤ l.length) (hk : k ≤ data.length) :
    (overwrite l i data).take (i + k) = l.take i ++ data.take k := by
  have hlen : (l.take i).length = i := List.length_take_of_le hi
  have hfront : (l.take i ++ data.take k).length = i + k := by
    rw [List.length_append, hlen, List.length_take_of_le hk]
  have hsplit : data = data.take k ++ data.drop k := (List.take_append_drop k data).symm
  rw [overwrite]
  nth_rewrite 1 [hsplit]
  rw [← List.append_assoc, List.append_assoc _ (data.drop k), List.take_left' hfront]

/-- What a write leaves behind it. -/
theorem drop_overwrite (h : i + data.length ≤ l.length) (hk : i + data.length ≤ k) :
    (overwrite l i data).drop k = l.drop k := by
  have hlen : (l.take i ++ data).length = i + data.length := by
    rw [List.length_append, List.length_take_of_le (by omega)]
  obtain ⟨m, rfl⟩ := Nat.exists_eq_add_of_le hk
  rw [overwrite, ← List.drop_drop, List.drop_left' hlen, List.drop_drop]

/-- A buffer, and the position of the next write. -/
structure Writer (α : Type u) where
  buf : List α
  dst : ℕ

namespace Writer

variable {w w' w'' : Writer α}

/-- Write at the position. A write outside of the buffer is a fault. -/
def store (w : Writer α) (data : List α) : Option (Writer α) :=
  if w.dst + data.length ≤ w.buf.length then some { w with buf := overwrite w.buf w.dst data }
  else none

def skip (w : Writer α) (n : ℕ) : Writer α := { w with dst := w.dst + n }

/-- Write one element and move on. -/
def push (w : Writer α) (a : α) : Option (Writer α) := (w.store [a]).map fun w => w.skip 1

/-- The text has been appended, and the elements from `s` behind it on are as before. -/
structure Appends (s : ℕ) (w : Writer α) (t : List α) (w' : Writer α) : Prop where
  dst : w'.dst = w.dst + t.length
  take : w'.buf.take w'.dst = w.buf.take w.dst ++ t
  drop : w'.buf.drop (w'.dst + s) = w.buf.drop (w'.dst + s)
  length : w'.buf.length = w.buf.length

theorem Appends.refl (s : ℕ) (w : Writer α) : Appends s w [] w :=
  ⟨rfl, (List.append_nil _).symm, rfl, rfl⟩

/-- What the first text leaves behind it is where the second one is, or as it was. -/
theorem Appends.trans (h : Appends s w t w') (h' : Appends s w' t' w'') :
    Appends s w (t ++ t') w'' := by
  refine ⟨?_, ?_, ?_, h'.length.trans h.length⟩
  · rw [h'.dst, h.dst, List.length_append, Nat.add_assoc]
  · rw [h'.take, h.take, List.append_assoc]
  · have hsplit : w''.dst + s = w'.dst + s + t'.length := by
      rw [h'.dst]
      omega
    rw [h'.drop, hsplit, ← List.drop_drop, h.drop, List.drop_drop]

/-- **A store that goes further than the position**: only the part up to the new position is
kept. -/
theorem appends_store (data : List α) (hfits : w.dst + data.length ≤ w.buf.length)
    (hk : k ≤ data.length) (hs : data.length ≤ k + s) :
    ∃ w', w.store data = some w' ∧ Appends s w (data.take k) (w'.skip k) := by
  have hlen : (data.take k).length = k := List.length_take_of_le hk
  have hdst : w.dst ≤ w.buf.length := by omega
  refine ⟨{ w with buf := overwrite w.buf w.dst data }, if_pos hfits, ?_, ?_, ?_, ?_⟩
  · rw [hlen]
    rfl
  · exact take_overwrite hdst hk
  · exact drop_overwrite hfits (by rw [skip, Nat.add_assoc]; exact Nat.add_le_add_left hs _)
  · exact length_overwrite hfits

end Writer

/-- The text is appended to every buffer that has room for it and `s` elements more. -/
def Emits (s : ℕ) (f : Writer α → Option (Writer α)) (t : List α) : Prop :=
  ∀ w : Writer α, w.dst + t.length + s ≤ w.buf.length →
    ∃ w', f w = some w' ∧ Writer.Appends s w t w'

variable {f g : Writer α → Option (Writer α)}

theorem emits_some (s : ℕ) : Emits s (some : Writer α → Option (Writer α)) [] :=
  fun w _ => ⟨w, rfl, .refl s w⟩

theorem Emits.bind (hf : Emits s f t) (hg : Emits s g t') :
    Emits s (fun w => f w >>= g) (t ++ t') := by
  intro w hroom
  rw [List.length_append] at hroom
  obtain ⟨w', hw', happ⟩ := hf w (by omega)
  obtain ⟨w'', hw'', happ'⟩ := hg w' (by
    rw [happ.dst, happ.length]
    omega)
  refine ⟨w'', ?_, happ.trans happ'⟩
  dsimp only
  rw [hw', Option.bind_eq_bind, Option.bind_some, hw'']

theorem emits_store (data : List α) (hk : k ≤ data.length) (hs : data.length ≤ k + s) :
    Emits s (fun w => (w.store data).map fun w => w.skip k) (data.take k) := by
  intro w hroom
  rw [List.length_take_of_le hk] at hroom
  obtain ⟨w', hw', happ⟩ := Writer.appends_store (w := w) data (by omega) hk hs
  refine ⟨w'.skip k, ?_, happ⟩
  dsimp only
  rw [hw', Option.map_some]

theorem emits_push (s : ℕ) (a : α) : Emits s (fun w => w.push a) [a] :=
  emits_store [a] le_rfl (Nat.le_add_right 1 s)

/-- The texts of a list, one after the other. -/
theorem emits_foldlM {step : Writer α → β → Option (Writer α)} {text : β → List α} {bs : List β}
    (h : ∀ b ∈ bs, Emits s (fun w => step w b) (text b)) :
    Emits s (fun w => bs.foldlM step w) (bs.flatMap text) := by
  induction bs with
  | nil => exact emits_some s
  | cons b bs ih =>
    obtain ⟨hb, hbs⟩ := List.forall_mem_cons.mp h
    exact hb.bind (ih hbs)

end CodingDemo
