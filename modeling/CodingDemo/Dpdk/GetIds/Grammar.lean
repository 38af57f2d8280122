import CodingDemo.Dpdk.GetIds.Model

/-!
# How the items of a list are written

An item is a number or a range. `sscanf` lets more texts through than these: blanks and a plus in
front of a number, numbers of any size, and whatever comes behind the last number that it needs.

## Main definitions

* `Denotes`: a token is written as a number or a range should be
* `Reads`: a token is taken for a number or a range
* `Plain`: a token has no character and no number that should not be there

## Main results

* `scanItem_eq_some_iff`: what is read from a token is what it is taken for
* `denotes_iff`: the tokens that are written as they should be, among those that are read
-/

namespace CodingDemo.Dpdk

/-- The text is a decimal numeral, and its value is one of `int`. -/
structure Numeral (s : List UInt8) (n : ℤ) : Prop where
  ne_nil : s ≠ []
  digits : ∀ b ∈ s, isDigit b = true
  value : (decimalValue s : ℤ) = n
  le : n ≤ INT_MAX

inductive Denotes : List UInt8 → Item → Prop
  | number {s : List UInt8} {n : ℤ} : Numeral s n → Denotes s (.number n)
  | range {s t : List UInt8} {lo hi : ℤ} : Numeral s lo → Numeral t hi → lo < hi →
      Denotes (s ++ 45 :: t) (.range lo hi)

/-- Digits, with blanks and a plus in front of them. A value that is too large for 64 bits is taken
for the greatest one, and only its lowest 32 bits are kept. -/
inductive Loose : List UInt8 → ℤ → Prop
  | mk {s digits : List UInt8} : Figure s false digits →
      Loose s (intT (min (decimalValue digits) (2 ^ 64 - 1) : ℕ))

/-- A text that may stand behind a number. -/
structure Ignored (s : List UInt8) : Prop where
  head : ∀ b ∈ s.head?, isDigit b = false
  minus_notMem : 45 ∉ s

inductive Reads : List UInt8 → Item → Prop
  | number {s junk : List UInt8} {n : ℤ} : Loose s n → Ignored junk → Reads (s ++ junk) (.number n)
  | range {s t junk : List UInt8} {lo hi : ℤ} : Loose s lo → Loose t hi → lo < hi → Ignored junk →
      Reads (s ++ 45 :: (t ++ junk)) (.range lo hi)

/-- There are only digits and minus signs, and no number is too large for `int`. -/
structure Plain (c : List UInt8) : Prop where
  chars : ∀ b ∈ c, isDigit b = true ∨ b = 45
  le : ∀ s ∈ tokens 45 c, (decimalValue s : ℤ) ≤ INT_MAX

variable {s t c rest : List UInt8} {n : ℤ} {it : Item}

/-! ## Numbers -/

theorem intT_emod (k : ℕ) : intT (k % 2 ^ 32 : ℕ) = intT k := by
  rw [intT, intT, Int.natCast_mod]
  exact Int.emod_bmod _ _

theorem Loose.exists_scanUnsigned_eq (h : Loose s n) (hrest : ∀ b ∈ rest.head?, isDigit b = false) :
    ∃ k : ℕ, scanUnsigned (s ++ rest) = some (k, rest) ∧ intT k = n := by
  obtain ⟨hfigure⟩ := h
  refine ⟨_, hfigure.scanUnsigned_eq hrest, ?_⟩
  rw [intT_emod, strtoul_false]

theorem Loose.minus_notMem (h : Loose s n) : 45 ∉ s := by
  obtain @⟨digits, hfigure⟩ := h
  obtain ⟨blanks, sign, hblanks, hsign, rfl⟩ := hfigure.exists_sign
  have hblank : 45 ∉ blanks := fun hmem => absurd (hblanks 45 hmem) (by decide)
  have hdigit : 45 ∉ digits := fun hmem => absurd (hfigure.isDigit_of_mem 45 hmem) (by decide)
  cases hsign with
  | none => simpa [hblank] using hdigit
  | plus => simpa [hblank] using hdigit

/-- What is read from a text without a minus. -/
theorem exists_loose_of_scanUnsigned {k : ℕ} (h : scanUnsigned c = some (k, rest))
    (hminus : ∀ s, c = s ++ rest → 45 ∉ s) :
    ∃ s, c = s ++ rest ∧ Loose s (intT k) ∧ ∀ b ∈ rest.head?, isDigit b = false := by
  obtain ⟨s, negative, digits, hsplit, hfigure, hrest, rfl⟩ := exists_figure_of_scanUnsigned h
  have hneg : negative = false := by
    obtain ⟨blanks, sign, -, hsign, heq⟩ := hfigure.exists_sign
    cases hsign with
    | none => rfl
    | plus => rfl
    | minus => exact absurd (by rw [heq]; simp) (hminus s hsplit)
  subst hneg
  refine ⟨s, hsplit, ?_, hrest⟩
  rw [intT_emod, strtoul_false]
  exact .mk hfigure

/-- A value of `int` is kept. -/
theorem intT_min_of_le {k : ℕ} (h : (k : ℤ) ≤ INT_MAX) : intT (min k (2 ^ 64 - 1) : ℕ) = k := by
  have hmin : min k (2 ^ 64 - 1) = k := by
    rw [INT_MAX] at h
    omega
  rw [hmin]
  refine intT_eq_self ⟨?_, h⟩
  rw [INT_MIN]
  omega

theorem Numeral.loose (h : Numeral s n) : Loose s n := by
  have hfigure : Figure s false s := ⟨h.ne_nil, h.digits, [], [], by simp, .none, rfl⟩
  have hloose := Loose.mk hfigure
  rwa [intT_min_of_le (h.value.trans_le h.le), h.value] at hloose

/-- A number with digits only, and with a value of `int`, is written as it should be. -/
theorem Loose.numeral (h : Loose s n) (hs : ∀ b ∈ s, isDigit b = true)
    (hle : (decimalValue s : ℤ) ≤ INT_MAX) : Numeral s n := by
  cases h with
  | @mk digits hfigure =>
    obtain ⟨blanks, sign, hblanks, hsign, heq⟩ := hfigure.exists_sign
    have hblanks_nil : blanks = [] := by
      refine List.eq_nil_iff_forall_not_mem.mpr fun b hb => ?_
      have hdigit := isSpace_of_isDigit (hs b (by simp [heq, hb]))
      rw [hblanks b hb] at hdigit
      cases hdigit
    obtain rfl : s = digits := by
      cases hsign with
      | none => rw [heq, hblanks_nil]; rfl
      | plus => exact absurd (hs 43 (by simp [heq])) (by decide)
    exact ⟨hfigure.ne_nil, hs, (intT_min_of_le hle).symm, by rwa [intT_min_of_le hle]⟩

/-! ## Items -/

/-- What a token is taken for is read from it. -/
theorem Reads.scanItem_eq (h : Reads c it) : scanItem c = some it := by
  cases h with
  | @number s junk n hn hjunk =>
    obtain ⟨k, hscan, rfl⟩ := hn.exists_scanUnsigned_eq hjunk.head
    have hminus : 45 ∉ s ++ junk := by
      rw [List.mem_append, not_or]
      exact ⟨hn.minus_notMem, hjunk.minus_notMem⟩
    rw [scanItem, strchr_eq_none hminus]
    simp [sscanf, hscan]
  | @range s t junk lo hi hlo hhi hlt hjunk =>
    have hhead : ∀ b ∈ (45 :: (t ++ junk)).head?, isDigit b = false := by simp [isDigit]
    obtain ⟨k, hscan, rfl⟩ := hlo.exists_scanUnsigned_eq hhead
    obtain ⟨k', hscan', rfl⟩ := hhi.exists_scanUnsigned_eq hjunk.head
    have hminus : 45 ∉ t ++ junk := by
      rw [List.mem_append, not_or]
      exact ⟨hhi.minus_notMem, hjunk.minus_notMem⟩
    rw [scanItem, strchr_append_cons hlo.minus_notMem, strrchr_append_cons hminus]
    simp [sscanf, hscan, hscan', hlt]

theorem reads_of_scan_number {k : ℕ} (hminus : 45 ∉ c) (h : sscanf [.unsigned] c = [k]) :
    Reads c (.number (intT k)) := by
  rw [sscanf] at h
  cases hscan : scanUnsigned c with
  | none => simp [hscan] at h
  | some r =>
    obtain ⟨k', rest⟩ := r
    obtain rfl : k' = k := by simpa [hscan, sscanf] using h
    obtain ⟨s, rfl, hn, hrest⟩ := exists_loose_of_scanUnsigned hscan fun s hs hmem =>
      hminus (by simp [hs, hmem])
    exact .number hn ⟨hrest, fun hmem => hminus (by simp [hmem])⟩

theorem reads_of_scan_range {k k' : ℕ} (hcount : c.count 45 = 1)
    (h : sscanf [.unsigned, .literal 45, .unsigned] c = [k, k']) (hlt : intT k < intT k') :
    Reads c (.range (intT k) (intT k')) := by
  rw [sscanf] at h
  cases hscan : scanUnsigned c with
  | none => simp [hscan] at h
  | some r =>
    obtain ⟨k₁, _ | ⟨b, u⟩⟩ := r
    · simp [hscan, sscanf] at h
    · simp only [hscan, sscanf, List.cons.injEq] at h
      obtain ⟨rfl, h⟩ := h
      split_ifs at h with hb
      · subst hb
        cases hscan' : scanUnsigned u with
        | none => simp [hscan'] at h
        | some r =>
          obtain ⟨k₂, rest⟩ := r
          obtain rfl : k₂ = k' := by simpa [hscan'] using h
          -- the minus between the numbers is the only one
          have hcount' : ∀ s, c = s ++ 45 :: u → s.count 45 = 0 ∧ u.count 45 = 0 := by
            rintro s rfl
            rw [List.count_append, List.count_cons_self] at hcount
            omega
          obtain ⟨s, rfl, hlo, -⟩ := exists_loose_of_scanUnsigned hscan fun s hs =>
            List.count_eq_zero.mp (hcount' s hs).1
          have hu := List.count_eq_zero.mp (hcount' s rfl).2
          obtain ⟨t, rfl, hhi, hrest⟩ := exists_loose_of_scanUnsigned hscan' fun t ht hmem =>
            hu (by simp [ht, hmem])
          exact .range hlo hhi hlt ⟨hrest, fun hmem => hu (by simp [hmem])⟩

/-- A token is read as what it is taken for, and no other token is read. -/
theorem scanItem_eq_some_iff : scanItem c = some it ↔ Reads c it := by
  refine ⟨fun h => ?_, Reads.scanItem_eq⟩
  unfold scanItem at h
  split_ifs at h with hminus hone
  · have hcount := count_of_strrchr_eq (isSome_strchr.mp hminus) (not_not.mp hone)
    split at h
    next k k' hscan =>
      split_ifs at h with hlt
      obtain rfl := Option.some.inj h
      exact reads_of_scan_range hcount hscan hlt
    next => cases h
  · split at h
    next k hscan =>
      obtain rfl := Option.some.inj h
      exact reads_of_scan_number (fun hmem => hminus (isSome_strchr.mpr hmem)) hscan
    next => cases h

/-! ## What should not be there -/

theorem ignored_nil : Ignored [] := ⟨by simp, List.not_mem_nil⟩

theorem Denotes.reads (h : Denotes c it) : Reads c it := by
  cases h with
  | @number _ n hn =>
    have hreads := Reads.number hn.loose ignored_nil
    rwa [List.append_nil] at hreads
  | @range s t _ _ hlo hhi hlt =>
    have hreads := Reads.range hlo.loose hhi.loose hlt ignored_nil
    rwa [List.append_nil] at hreads

theorem Ignored.eq_nil (h : Ignored s) (hchars : ∀ b ∈ s, isDigit b = true ∨ b = 45) : s = [] := by
  cases s with
  | nil => rfl
  | cons b s =>
    rcases hchars b List.mem_cons_self with hdigit | rfl
    · rw [h.head b rfl] at hdigit
      cases hdigit
    · exact absurd List.mem_cons_self h.minus_notMem

theorem Loose.ne_nil (h : Loose s n) : s ≠ [] := by
  obtain @⟨digits, hfigure⟩ := h
  obtain ⟨blanks, sign, -, -, rfl⟩ := hfigure.exists_sign
  simp [hfigure.ne_nil]

theorem Loose.isDigit_of_mem (h : Loose s n) (hchars : ∀ b ∈ s, isDigit b = true ∨ b = 45) :
    ∀ b ∈ s, isDigit b = true := fun b hb =>
  (hchars b hb).resolve_right fun heq => h.minus_notMem (heq ▸ hb)

theorem tokens_minus_range (hs : s ≠ []) (hs' : 45 ∉ s) (ht : t ≠ []) (ht' : 45 ∉ t) :
    tokens 45 (s ++ 45 :: t) = [s, t] := by
  rw [tokens_append_cons hs hs', tokens_eq_singleton ht ht']

theorem Denotes.plain (h : Denotes c it) : Plain c := by
  cases h with
  | number hn =>
    refine ⟨fun b hb => .inl (hn.digits b hb), ?_⟩
    rw [tokens_eq_singleton hn.ne_nil hn.loose.minus_notMem, List.forall_mem_singleton]
    exact hn.value.trans_le hn.le
  | range hlo hhi =>
    constructor
    · intro b hb
      rcases List.mem_append.mp hb with hb | hb
      · exact .inl (hlo.digits b hb)
      · rcases List.mem_cons.mp hb with rfl | hb
        · exact .inr rfl
        · exact .inl (hhi.digits b hb)
    · rw [tokens_minus_range hlo.ne_nil hlo.loose.minus_notMem hhi.ne_nil hhi.loose.minus_notMem]
      rintro u hu
      rcases List.mem_pair.mp hu with rfl | rfl
      · exact hlo.value.trans_le hlo.le
      · exact hhi.value.trans_le hhi.le

/-- A token is written as it should be if it is read and nothing is in it that should not be. -/
theorem denotes_iff : Denotes c it ↔ Reads c it ∧ Plain c := by
  refine ⟨fun h => ⟨h.reads, h.plain⟩, ?_⟩
  rintro ⟨hreads, hchars, hle⟩
  cases hreads with
  | @number s junk n hn hjunk =>
    obtain rfl := hjunk.eq_nil fun b hb => hchars b (List.mem_append_right _ hb)
    rw [List.append_nil] at hchars hle ⊢
    rw [tokens_eq_singleton hn.ne_nil hn.minus_notMem, List.forall_mem_singleton] at hle
    exact .number (hn.numeral (hn.isDigit_of_mem hchars) hle)
  | @range s t junk lo hi hlo hhi hlt hjunk =>
    obtain rfl := hjunk.eq_nil fun b hb => hchars b (by simp [hb])
    rw [List.append_nil] at hchars hle ⊢
    rw [tokens_minus_range hlo.ne_nil hlo.minus_notMem hhi.ne_nil hhi.minus_notMem] at hle
    have hs := hlo.isDigit_of_mem fun b hb => hchars b (by simp [hb])
    have ht := hhi.isDigit_of_mem fun b hb => hchars b (by simp [hb])
    exact .range (hlo.numeral hs (hle s (by simp))) (hhi.numeral ht (hle t (by simp))) hlt

end CodingDemo.Dpdk
