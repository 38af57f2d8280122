import CodingDemo.Machine.SizeT
import Mathlib.Data.List.Basic

/-!
# Printing into a buffer

`snprintf` writes no more than it is allowed to, but returns the length of the whole text. Texts
that are printed one after the other into a buffer of `N` bytes, each at the sum of the lengths
before it and with what that leaves of `N`, stay inside as long as the sums do.

## Main definitions

* `Written`: the bytes that have been written to memory
* `snprintf`, `printed`: what a call writes, and what it returns
* `Printing`: texts that are printed one after the other
* `Fits`: the sums of the lengths stay in a buffer

## Main results

* `sound_iff_fits`: the sizes are right exactly as long as the texts fit
* `Printing.Inside.printAll`: if they fit, all bytes are written to the buffer
-/

namespace CodingDemo

/-- Memory as it has been written: nothing where no byte has been written. -/
abbrev Written := ℕ → Option UInt8

def store (mem : Written) (offset : ℕ) (bytes : List UInt8) : Written := fun i =>
  if offset ≤ i ∧ i < offset + bytes.length then bytes[i - offset]? else mem i

/-- The bytes that fit, with a zero after them. -/
def snprintf (mem : Written) (offset size : ℕ) (text : List UInt8) : Written :=
  if size = 0 then mem else store mem offset (text.take (size - 1) ++ [0])

/-- The result of `snprintf`: the length of the text, unless it is larger than an `int`. -/
def printed (text : List UInt8) : ℤ := if text.length < 2 ^ 31 then text.length else -1

/-- Texts are printed one after the other. -/
structure Printing where
  mem : Written := fun _ => none
  /-- The sum of the results. -/
  pos : ℕ := 0
  /-- The sums at the calls so far. -/
  starts : List ℕ := []

/-- One more text is printed into the buffer of `N` bytes. -/
def Printing.print (N : ℕ) (p : Printing) (text : List UInt8) : Printing where
  mem := snprintf p.mem p.pos (sizeT (N - p.pos)) text
  pos := sizeT (p.pos + printed text)
  starts := p.starts ++ [p.pos]

def Printing.printAll (N : ℕ) (p : Printing) (texts : List (List UInt8)) : Printing :=
  texts.foldl (print N) p

/-- All sums are between 0 and `N`. -/
def Fits (N : ℕ) (pos : ℤ) : List (List UInt8) → Prop
  | [] => 0 ≤ pos ∧ pos ≤ N
  | text :: texts => (0 ≤ pos ∧ pos ≤ N) ∧ Fits N (pos + printed text) texts

instance Fits.decidable (N : ℕ) :
    ∀ (pos : ℤ) (texts : List (List UInt8)), Decidable (Fits N pos texts)
  | pos, [] => inferInstanceAs (Decidable (0 ≤ pos ∧ pos ≤ N))
  | pos, text :: texts =>
    have := Fits.decidable N (pos + printed text) texts
    inferInstanceAs (Decidable ((0 ≤ pos ∧ pos ≤ N) ∧ Fits N (pos + printed text) texts))

/-- The size that a call is given has never become negative, and neither has the one that is
left. -/
structure Printing.Sound (N : ℕ) (p : Printing) : Prop where
  starts : ∀ start ∈ p.starts, start ≤ N
  pos : p.pos ≤ N

/-- All bytes have been written to the buffer, and there is none before the position that has not
been written. -/
structure Printing.Inside (N : ℕ) (p : Printing) : Prop where
  inside : ∀ i, p.mem i ≠ none → i < N
  covered : ∀ i < p.pos, p.mem i ≠ none

variable {N offset size i : ℕ} {pos : ℤ} {mem : Written} {p : Printing} {text bytes : List UInt8}
  {texts : List (List UInt8)}

/-! ## One call -/

theorem store_ne_none_iff : store mem offset bytes i ≠ none ↔
    (offset ≤ i ∧ i < offset + bytes.length) ∨ mem i ≠ none := by
  unfold store
  split_ifs with h
  · refine iff_of_true ?_ (.inl h)
    rw [Ne, List.getElem?_eq_none_iff]
    omega
  · exact (or_iff_right h).symm

theorem length_stored (size : ℕ) (text : List UInt8) :
    (text.take (size - 1) ++ [0]).length = min (size - 1) text.length + 1 := by
  rw [List.length_append, List.length_take, List.length_singleton]

/-- The cells that a call writes. -/
theorem snprintf_ne_none_iff : snprintf mem offset size text i ≠ none ↔
    (offset ≤ i ∧ i < offset + min size (text.length + 1)) ∨ mem i ≠ none := by
  unfold snprintf
  split_ifs with hzero
  · rw [hzero, Nat.zero_min, Nat.add_zero]
    exact (or_iff_right fun h => absurd h.1 (not_le.mpr h.2)).symm
  · have hmin : min (size - 1) text.length + 1 = min size (text.length + 1) := by omega
    rw [store_ne_none_iff, length_stored, hmin]

theorem printed_bounds (text : List UInt8) :
    -1 ≤ printed text ∧ printed text ≤ text.length ∧ printed text < 2 ^ 31 := by
  unfold printed
  split_ifs <;> omega

theorem printed_eq_length (h : text.length < 2 ^ 31) : printed text = text.length := if_pos h

/-- The next position is in the buffer exactly when the sum is. -/
theorem pos_print (hN : N < 2 ^ 31) (hpos : p.pos ≤ N) :
    ((p.print N text).pos ≤ N ↔ 0 ≤ p.pos + printed text ∧ p.pos + printed text ≤ N) ∧
      ((p.print N text).pos ≤ N → ((p.print N text).pos : ℤ) = p.pos + printed text) := by
  obtain ⟨hmin, -, hmax⟩ := printed_bounds text
  have hcast : ((p.print N text).pos : ℤ) = (p.pos + printed text) % 2 ^ 64 := natCast_sizeT _
  omega

theorem mem_print_ne_none_iff (hN : N < 2 ^ 31) (hpos : p.pos ≤ N) :
    (p.print N text).mem i ≠ none ↔
      (p.pos ≤ i ∧ i < p.pos + min (N - p.pos) (text.length + 1)) ∨ p.mem i ≠ none := by
  have hsize : sizeT (N - p.pos) = N - p.pos := sizeT_sub hpos (by omega)
  rw [← hsize]
  exact snprintf_ne_none_iff

/-- No call writes after the buffer as long as the position is in it. -/
theorem inside_mem_print (hN : N < 2 ^ 31) (hpos : p.pos ≤ N)
    (h : ∀ i, p.mem i ≠ none → i < N) : ∀ i, (p.print N text).mem i ≠ none → i < N := by
  intro i hi
  rcases (mem_print_ne_none_iff hN hpos).mp hi with hcell | hold
  · omega
  · exact h i hold

/-- A text that fits is written to the buffer, without a gap. -/
theorem Printing.Inside.print (h : p.Inside N) (hN : N < 2 ^ 31) (hpos : p.pos ≤ N)
    (hpos' : (p.print N text).pos ≤ N) : (p.print N text).Inside N := by
  have hsum := (pos_print hN hpos).2 hpos'
  obtain ⟨-, hlength, -⟩ := printed_bounds text
  refine ⟨inside_mem_print hN hpos h.inside, fun i hi => (mem_print_ne_none_iff hN hpos).mpr ?_⟩
  by_cases hlt : i < p.pos
  · exact .inr (h.covered i hlt)
  · exact .inl (by omega)

/-- A byte is stored at the position. -/
theorem Printing.Inside.store (h : p.Inside N) (hroom : p.pos < N) (b : UInt8) {pos : ℕ}
    (hpos : pos ≤ p.pos + 1) : Printing.Inside N
      { p with mem := CodingDemo.store p.mem p.pos [b], pos := pos } := by
  refine ⟨fun i hi => ?_, fun i hi => store_ne_none_iff.mpr ?_⟩
  · rcases store_ne_none_iff.mp hi with hcell | hold
    · rw [List.length_singleton] at hcell
      omega
    · exact h.inside i hold
  · by_cases hlt : i < p.pos
    · exact .inr (h.covered i hlt)
    · rw [List.length_singleton]
      exact .inl ⟨not_lt.mp hlt, hi.trans_le hpos⟩

/-- The last byte of the buffer stays zero. -/
theorem last_snprintf (hsize : offset + size = N) (h : mem (N - 1) = some 0) :
    snprintf mem offset size text (N - 1) = some 0 := by
  unfold snprintf
  split_ifs with hzero
  · exact h
  unfold store
  rw [length_stored]
  split_ifs with hcell
  · -- the text is cut, and the zero comes last
    have hlength : (text.take (size - 1)).length = N - 1 - offset := by
      rw [List.length_take]
      omega
    rw [← hlength, List.getElem?_concat_length]
  · exact h

/-! ## All calls -/

theorem printAll_cons : p.printAll N (text :: texts) = (p.print N text).printAll N texts := rfl

theorem subset_starts_printAll : p.starts ⊆ (p.printAll N texts).starts := by
  induction texts generalizing p with
  | nil => exact List.Subset.refl _
  | cons text texts ih =>
    rw [printAll_cons]
    exact List.Subset.trans (List.subset_append_left _ [p.pos]) (ih (p := p.print N text))

theorem Printing.Sound.of_printAll (h : (p.printAll N texts).Sound N) : p.Sound N := by
  refine ⟨fun start hstart => h.starts start (subset_starts_printAll hstart), ?_⟩
  cases texts with
  | nil => exact h.pos
  | cons text texts =>
    refine h.starts p.pos ?_
    rw [printAll_cons]
    exact subset_starts_printAll (List.mem_append_right _ List.mem_cons_self)

/-- The sizes are right exactly as long as the texts fit. -/
theorem sound_iff_fits (hN : N < 2 ^ 31) (h : p.Sound N) :
    (p.printAll N texts).Sound N ↔ Fits N p.pos texts := by
  induction texts generalizing p with
  | nil => exact iff_of_true h ⟨Int.natCast_nonneg _, Int.ofNat_le.mpr h.pos⟩
  | cons text texts ih =>
    have hhead : (0 : ℤ) ≤ p.pos ∧ (p.pos : ℤ) ≤ N :=
      ⟨Int.natCast_nonneg _, Int.ofNat_le.mpr h.pos⟩
    obtain ⟨hiff, hsum⟩ := @pos_print N p text hN h.pos
    rw [printAll_cons, Fits, and_iff_right hhead]
    by_cases hpos : (p.print N text).pos ≤ N
    · have hsound : (p.print N text).Sound N :=
        ⟨List.forall_mem_append.mpr ⟨h.starts, List.forall_mem_singleton.mpr h.pos⟩, hpos⟩
      rw [ih hsound, hsum hpos]
    · refine iff_of_false (fun hsound => hpos hsound.of_printAll.pos) fun hfits => ?_
      cases texts with
      | nil => exact hpos (hiff.mpr hfits)
      | cons text' texts => exact hpos (hiff.mpr hfits.1)

/-- If the texts fit, all bytes are written to the buffer. -/
theorem Printing.Inside.printAll (h : p.Inside N) (hN : N < 2 ^ 31)
    (hsound : (p.printAll N texts).Sound N) : (p.printAll N texts).Inside N := by
  induction texts generalizing p with
  | nil => exact h
  | cons text texts ih =>
    have hpos := hsound.of_printAll.pos
    rw [printAll_cons] at hsound ⊢
    exact ih (h.print hN hpos hsound.of_printAll.pos) hsound

theorem last_printAll (hN : N < 2 ^ 31) (hsound : (p.printAll N texts).Sound N)
    (h : p.mem (N - 1) = some 0) : (p.printAll N texts).mem (N - 1) = some 0 := by
  induction texts generalizing p with
  | nil => exact h
  | cons text texts ih =>
    have hpos := hsound.of_printAll.pos
    rw [printAll_cons] at hsound ⊢
    refine ih hsound (last_snprintf ?_ h)
    rw [sizeT_sub hpos (by omega)]
    omega

theorem Fits.le (h : Fits N pos texts) : pos ≤ N := by
  cases texts with
  | nil => exact h.2
  | cons text texts => exact h.1.2

/-- Texts that are not too large for an `int` fit if all of them together do. -/
theorem fits_iff_sum_le (hpos : 0 ≤ pos) (htexts : ∀ text ∈ texts, text.length < 2 ^ 31) :
    Fits N pos texts ↔ pos + (texts.map List.length).sum ≤ N := by
  induction texts generalizing pos with
  | nil => simp [Fits, hpos]
  | cons text texts ih =>
    obtain ⟨htext, htexts⟩ := List.forall_mem_cons.mp htexts
    rw [Fits, printed_eq_length htext, ih (by omega) htexts, List.map_cons, List.sum_cons]
    omega

end CodingDemo
