import CodingDemo.Dpdk.GetIds.Grammar

/-!
# The lists that `get_ids` accepts

A list is written as numbers and ranges, with commas between them. All items that `sscanf` reads are
accepted, and the counters may go beyond `INT_MAX`.

## Main definitions

* `Counts`: no counter goes beyond `INT_MAX`
* `render`: a list of items as a text
* `Expands`, `RejectsMalformed`: what the function should do

## Main results

* `expands_iff`: which lists of items are expanded
* `rejectsMalformed_iff`: which texts are treated as they should be
-/

namespace CodingDemo.Dpdk

variable {n : ℤ} {s : List UInt8} {it : Item} {items : List Item} {arr : List ℤ}

theorem Denotes.ne_nil {c : List UInt8} (h : Denotes c it) : c ≠ [] := by
  cases h with
  | number hn => exact hn.ne_nil
  | range hlo => exact List.append_ne_nil_of_left_ne_nil hlo.ne_nil _

theorem Denotes.comma_notMem {c : List UInt8} (h : Denotes c it) : 44 ∉ c := by
  have hdigits : ∀ {s : List UInt8} {n : ℤ}, Numeral s n → 44 ∉ s := fun hn hmem =>
    absurd (hn.digits 44 hmem) (by decide)
  cases h with
  | number hn => exact hdigits hn
  | range hlo hhi =>
    simp only [List.mem_append, List.mem_cons, not_or]
    exact ⟨hdigits hlo, by decide, hdigits hhi⟩

theorem scanAll_of_reads {cs : List (List UInt8)} (h : List.Forall₂ Reads cs items) :
    scanAll cs = some (items.flatMap Item.expansion) := by
  induction h with
  | nil => rfl
  | cons hc _ ih =>
    rw [scanAll_cons hc.scanItem_eq, ih]
    rfl

/-- The tokens that are all read are taken for items. -/
theorem exists_reads_of_scanAll {cs : List (List UInt8)} {ids : List ℤ}
    (h : scanAll cs = some ids) :
    ∃ items, List.Forall₂ Reads cs items ∧ ids = items.flatMap Item.expansion := by
  induction cs generalizing ids with
  | nil =>
    obtain rfl := Option.some.inj h
    exact ⟨[], .nil, rfl⟩
  | cons c cs ih =>
    cases hc : scanItem c with
    | none => simp [scanAll, hc] at h
    | some it =>
      rw [scanAll_cons hc] at h
      obtain ⟨ids', hids', rfl⟩ := Option.map_eq_some_iff.mp h
      obtain ⟨items, hitems, rfl⟩ := ih hids'
      exact ⟨it :: items, .cons (scanItem_eq_some_iff.mp hc) hitems, rfl⟩

theorem scanAll_of_denotes {cs : List (List UInt8)} (h : List.Forall₂ Denotes cs items) :
    scanAll cs = some (items.flatMap Item.expansion) :=
  scanAll_of_reads (h.imp fun _ _ => Denotes.reads)

/-! ## Counters -/

/-- The token asks for this many places. A token without a minus asks for its place before it is
read. -/
inductive Asks : List UInt8 → ℕ → Prop
  | number {c : List UInt8} : 45 ∉ c → Asks c 1
  | range {c : List UInt8} {lo hi : ℤ} : Reads c (.range lo hi) → Asks c (numbers lo hi).length

/-- No counter goes beyond `INT_MAX`, up to the first token that is not read. -/
def Counts (cap : ℕ) (cs : List (List UInt8)) : Prop :=
  ∀ before c items n, before ++ [c] <+: cs → List.Forall₂ Reads before items → Asks c n →
    NoOverflow cap (items.flatMap Item.expansion).length n (∃ lo, Reads c (.range lo INT_MAX))

theorem Reads.eq_number {c : List UInt8} (h : Reads c it) (hminus : 45 ∉ c) :
    ∃ n, it = .number n := by
  cases h with
  | number => exact ⟨_, rfl⟩
  | range => simp at hminus

theorem Asks.demand_eq {c : List UInt8} {k : ℕ} (h : Asks c k) : demand c = k := by
  cases h with
  | number hminus =>
    cases hc : scanItem c with
    | none =>
      rw [demand, hc, strchr_eq_none hminus]
      rfl
    | some it =>
      obtain ⟨n, rfl⟩ := (scanItem_eq_some_iff.mp hc).eq_number hminus
      rw [demand_of_scanItem hc]
      rfl
  | range hreads => exact demand_of_scanItem hreads.scanItem_eq

/-- A token that does not ask for places cannot be read. -/
theorem asks_or_not_reads (c : List UInt8) :
    Asks c (demand c) ∨ demand c = 0 ∧ ∀ it, ¬Reads c it := by
  by_cases hminus : 45 ∈ c
  · cases hc : scanItem c with
    | none =>
      refine .inr ⟨?_, fun it hreads => ?_⟩
      · rw [demand, hc]
        exact if_pos (isSome_strchr.mpr hminus)
      · rw [hreads.scanItem_eq] at hc
        cases hc
    | some it =>
      have hreads := scanItem_eq_some_iff.mp hc
      rw [demand_of_scanItem hc]
      cases hreads with
      | @number s junk n hn hjunk =>
        rcases List.mem_append.mp hminus with hmem | hmem
        · exact absurd hmem hn.minus_notMem
        · exact absurd hmem hjunk.minus_notMem
      | range hlo hhi hlt hjunk => exact .inl (.range (.range hlo hhi hlt hjunk))
  · have hasks := Asks.number hminus
    rw [← hasks.demand_eq] at hasks
    exact .inl hasks

theorem endsAtMax_iff {c : List UInt8} : EndsAtMax c ↔ ∃ lo, Reads c (.range lo INT_MAX) :=
  exists_congr fun _ => scanItem_eq_some_iff

/-- The counters, when `d` ids have been stored already. -/
theorem within_iff_forall {cap d : ℕ} (hd : (cap : ℤ) = INT_MAX → d ≤ cap)
    (cs : List (List UInt8)) :
    Within cap d cs ↔
      ∀ before c items n, before ++ [c] <+: cs → List.Forall₂ Reads before items → Asks c n →
        NoOverflow cap (d + (items.flatMap Item.expansion).length) n
          (∃ lo, Reads c (.range lo INT_MAX)) := by
  induction cs generalizing d with
  | nil => exact iff_of_true trivial fun before c _ _ hpre => by simp at hpre
  | cons c cs ih =>
    rw [Within, endsAtMax_iff]
    constructor
    · rintro ⟨hno, hrest⟩ before c' items k hpre hbefore hasks
      cases hbefore with
      | nil =>
        obtain rfl : c' = c := by simpa using hpre
        rwa [← hasks.demand_eq]
      | @cons b it before items hb hbefore =>
        obtain ⟨rfl, hpre'⟩ := List.cons_prefix_cons.mp hpre
        have hscan := hb.scanItem_eq
        rw [demand_of_scanItem hscan] at hno hrest
        rw [List.flatMap_cons, List.length_append, ← Nat.add_assoc]
        have hw := hrest (by rw [hscan]; rfl)
        exact (ih hno.1).mp hw before c' items k hpre' hbefore hasks
    · intro hall
      have hno : NoOverflow cap d (demand c) (∃ lo, Reads c (.range lo INT_MAX)) := by
        rcases asks_or_not_reads c with hasks | ⟨hzero, hnot⟩
        · exact hall [] c [] _ (by simp) .nil hasks
        · rw [hzero]
          exact ⟨hd, fun hends => hends.elim fun _ hreads => absurd hreads (hnot _)⟩
      refine ⟨hno, fun hsome => (ih hno.1).mpr fun before c' items k hpre hbefore hasks => ?_⟩
      obtain ⟨it, hit⟩ := Option.isSome_iff_exists.mp hsome
      have hnext := hall (c :: before) c' (it :: items) k (List.cons_prefix_cons.mpr ⟨rfl, hpre⟩)
        (.cons (scanItem_eq_some_iff.mp hit) hbefore) hasks
      rwa [List.flatMap_cons, List.length_append, ← Nat.add_assoc, ← demand_of_scanItem hit]
        at hnext

theorem counts_iff {cap : ℕ} {cs : List (List UInt8)} : Counts cap cs ↔ Within cap 0 cs := by
  rw [within_iff_forall fun _ => Nat.zero_le cap]
  simp only [Counts, Nat.zero_add]

theorem forall₂_denotes_iff {cs : List (List UInt8)} :
    List.Forall₂ Denotes cs items ↔ (∀ c ∈ cs, Plain c) ∧ List.Forall₂ Reads cs items := by
  have hdenotes : Denotes = fun c it => Plain c ∧ Reads c it := by
    ext c it
    rw [denotes_iff, and_comm]
  rw [hdenotes, List.forall₂_and_left]

/-! ## Every text -/

/-- The function returns 0 for a list of items that are written as they should be, with their
expansion, or -1 and no ids. -/
def RejectsMalformed (s : List UInt8) (arr : List ℤ) : Prop :=
  ∃ ret arr' len, get_ids s arr arr.length = .ok (ret, arr', len) ∧
    ((ret = 0 ∧ ∃ items, List.Forall₂ Denotes (tokens 44 s) items ∧
        len = (items.flatMap Item.expansion).length ∧ items.flatMap Item.expansion <+: arr') ∨
      (ret = -1 ∧ len = 0))

/-- A list that is read and stored is written as it should be. -/
theorem RejectsMalformed.exists_denotes (h : RejectsMalformed s arr)
    (harr : (arr.length : ℤ) ≤ INT_MAX) {ids : List ℤ} (hids : scanAll (tokens 44 s) = some ids)
    (hle : ids.length ≤ arr.length) : ∃ items, List.Forall₂ Denotes (tokens 44 s) items := by
  obtain ⟨ret, arr', len, hok, ⟨-, items, hitems, -⟩ | ⟨rfl, -⟩⟩ := h
  · exact ⟨items, hitems⟩
  · rcases get_ids_cases s harr with ⟨-, heq⟩ | ⟨-, hlong, -⟩ | ⟨-, _, -, -, arr', heq, -⟩
    · rw [heq] at hok
      cases hok
    · exact absurd hle (hlong ids hids).not_ge
    · rw [heq] at hok
      cases hok

theorem RejectsMalformed.within (h : RejectsMalformed s arr) (harr : (arr.length : ℤ) ≤ INT_MAX) :
    Within arr.length 0 (tokens 44 s) := by
  obtain ⟨_, _, _, hok, -⟩ := h
  rcases get_ids_cases s harr with ⟨-, heq⟩ | ⟨hw, -⟩ | ⟨hw, -⟩
  · rw [heq] at hok
    cases hok
  · exact hw
  · exact hw

/-- **Malformed texts are rejected** exactly if no counter goes beyond `INT_MAX` and, in a list of
which all items are read and their ids fit into the array, there is no blank, no plus, nothing
behind an item and no number that is too large. -/
theorem rejectsMalformed_iff (s : List UInt8) (harr : (arr.length : ℤ) ≤ INT_MAX) :
    RejectsMalformed s arr ↔
      Counts arr.length (tokens 44 s) ∧
        ∀ items, List.Forall₂ Reads (tokens 44 s) items →
          (items.flatMap Item.expansion).length ≤ arr.length → ∀ c ∈ tokens 44 s, Plain c := by
  rw [counts_iff]
  constructor
  · intro h
    refine ⟨h.within harr, fun items hreads hle => ?_⟩
    obtain ⟨_, hdenotes⟩ := h.exists_denotes harr (scanAll_of_reads hreads) hle
    exact (forall₂_denotes_iff.mp hdenotes).1
  · rintro ⟨hw, hall⟩
    obtain ⟨hnot, -⟩ | ⟨-, -, arr', heq⟩ | ⟨-, ids, hids, hle, arr', heq, hstored⟩ :=
      get_ids_cases s harr
    · exact absurd hw hnot
    · exact ⟨-1, arr', 0, heq, .inr ⟨rfl, rfl⟩⟩
    · obtain ⟨items, hreads, rfl⟩ := exists_reads_of_scanAll hids
      have hitems := forall₂_denotes_iff.mpr ⟨hall items hreads hle, hreads⟩
      exact ⟨0, arr', _, heq, .inl ⟨rfl, items, hitems, rfl, hstored⟩⟩

/-- A character behind a number is not looked at. -/
theorem not_rejectsMalformed_junk : ¬RejectsMalformed (asciiBytes "2x") [0] := by
  intro h
  have htokens : tokens 44 (asciiBytes "2x") = [asciiBytes "2x"] :=
    tokens_eq_singleton (by decide) (by decide)
  have hids : scanAll (tokens 44 (asciiBytes "2x")) = some [2] := by
    rw [htokens]
    decide
  obtain ⟨items, hitems⟩ := h.exists_denotes (by decide) hids (by decide)
  have hplain := (forall₂_denotes_iff.mp hitems).1
  rw [htokens, List.forall_mem_singleton] at hplain
  exact absurd (hplain.chars 120 (by decide)) (by decide)

/-- The condition for items that are written as they should be. -/
theorem within_iff {cap : ℕ} {cs : List (List UInt8)} (h : List.Forall₂ Denotes cs items) (d : ℕ)
    (hd : (cap : ℤ) = INT_MAX → d ≤ cap) :
    Within cap d cs ↔
      ((cap : ℤ) = INT_MAX → d + (items.flatMap Item.expansion).length ≤ cap) ∧
        ∀ before lo after, items = before ++ .range lo INT_MAX :: after →
          cap < d + ((before ++ [.range lo INT_MAX]).flatMap Item.expansion).length := by
  induction h generalizing d with
  | nil => exact iff_of_true trivial ⟨by simpa using hd, by simp⟩
  | @cons c it cs items hc _ ih =>
    have hscan := hc.reads.scanItem_eq
    rw [Within, NoOverflow, demand_of_scanItem hscan, EndsAtMax, hscan]
    simp only [Option.isSome_some, forall_const, Option.some.injEq, List.flatMap_cons,
      List.length_append]
    constructor
    · rintro ⟨⟨hroom, hmax⟩, hw⟩
      obtain ⟨hroom', hmax'⟩ := (ih _ hroom).mp hw
      refine ⟨fun hcap => by have := hroom' hcap; omega, fun before lo after heq => ?_⟩
      cases before with
      | nil =>
        obtain ⟨rfl, -⟩ := List.cons.inj heq
        simpa using hmax ⟨lo, rfl⟩
      | cons _ before =>
        obtain ⟨rfl, hrest⟩ := List.cons.inj heq
        have hlt := hmax' before lo after hrest
        rw [List.cons_append, List.flatMap_cons, List.length_append]
        omega
    · rintro ⟨hroom, hmax⟩
      have hroom' : (cap : ℤ) = INT_MAX → d + it.expansion.length ≤ cap := fun hcap => by
        have := hroom hcap
        omega
      refine ⟨⟨hroom', ?_⟩, (ih _ hroom').mpr ⟨fun hcap => ?_, fun before lo after heq => ?_⟩⟩
      · rintro ⟨lo, rfl⟩
        simpa using hmax [] lo items rfl
      · have := hroom hcap
        omega
      · have hlt := hmax (it :: before) lo after (by rw [heq, List.cons_append])
        rw [List.cons_append, List.flatMap_cons, List.length_append] at hlt
        omega

/-- A number and a range, with an empty item. -/
theorem rejectsMalformed_two : RejectsMalformed (asciiBytes "2,,3-5") [0, 0, 0, 0] := by
  have htokens : tokens 44 (asciiBytes "2,,3-5") = [asciiBytes "2", asciiBytes "3-5"] := by
    have hlast : tokens 44 (asciiBytes "3-5") = [asciiBytes "3-5"] :=
      tokens_eq_singleton (by decide) (by decide)
    rw [← hlast, ← tokens_cons_self 44 (asciiBytes "3-5"),
      ← tokens_append_cons (by decide : asciiBytes "2" ≠ []) (by decide)]
    rfl
  have hitems : List.Forall₂ Denotes (tokens 44 (asciiBytes "2,,3-5")) [.number 2, .range 3 5] := by
    rw [htokens]
    have hdigit (b : UInt8) (n : ℤ) (hb : isDigit b = true) (hvalue : (decimalValue [b] : ℤ) = n)
        (hle : n ≤ INT_MAX) : Numeral [b] n :=
      ⟨List.cons_ne_nil _ _, List.forall_mem_singleton.mpr hb, hvalue, hle⟩
    have hnumber : Numeral [50] 2 := hdigit 50 2 rfl rfl (by decide)
    have hlo : Numeral [51] 3 := hdigit 51 3 rfl rfl (by decide)
    have hhi : Numeral [53] 5 := hdigit 53 5 rfl rfl (by decide)
    have htext : asciiBytes "2" = [50] ∧ asciiBytes "3-5" = [51] ++ 45 :: [53] := by decide
    rw [htext.1, htext.2]
    exact .cons (.number hnumber) (.cons (.range hlo hhi (by decide)) .nil)
  have hplain := (forall₂_denotes_iff.mp hitems).1
  refine (rejectsMalformed_iff _ (by decide)).mpr ⟨counts_iff.mpr ?_, fun _ _ _ => hplain⟩
  refine (within_iff hitems 0 (by simp)).mpr ⟨fun hmax => absurd hmax (by decide), ?_⟩
  intro before lo after heq
  have hmem : Item.range lo INT_MAX ∈ [Item.number 2, .range 3 5] := heq ▸ by simp
  simp [INT_MAX] at hmem

/-! ## Lists of items -/

/-- The numbers are values of `int`, and the range is not empty. -/
def Item.WellFormed : Item → Prop
  | .number n => 0 ≤ n ∧ n ≤ INT_MAX
  | .range lo hi => 0 ≤ lo ∧ lo < hi ∧ hi ≤ INT_MAX

def Item.render : Item → List UInt8
  | .number n => decimal n.toNat
  | .range lo hi => decimal lo.toNat ++ 45 :: decimal hi.toNat

def render (items : List Item) : List UInt8 := [44].intercalate (items.map Item.render)

theorem numeral_decimal (hn : 0 ≤ n) (hmax : n ≤ INT_MAX) : Numeral (decimal n.toNat) n where
  ne_nil := decimal_ne_nil _
  digits _ := isDigit_of_mem_decimal
  value := by rw [decimalValue_decimal, Int.toNat_of_nonneg hn]
  le := hmax

theorem denotes_render (h : it.WellFormed) : Denotes it.render it := by
  cases it with
  | number n => exact .number (numeral_decimal h.1 h.2)
  | range lo hi =>
    obtain ⟨hlo, hlt, hhi⟩ := h
    exact .range (numeral_decimal hlo (by omega)) (numeral_decimal (by omega) hhi) hlt

theorem tokens_render (h : ∀ it ∈ items, it.WellFormed) :
    tokens 44 (render items) = items.map Item.render := by
  refine tokens_intercalate (fun t ht => ?_) fun t ht => ?_
  · obtain ⟨it, hit, rfl⟩ := List.mem_map.mp ht
    exact (denotes_render (h it hit)).ne_nil
  · obtain ⟨it, hit, rfl⟩ := List.mem_map.mp ht
    exact (denotes_render (h it hit)).comma_notMem

theorem forall₂_denotes_render (h : ∀ it ∈ items, it.WellFormed) :
    List.Forall₂ Denotes (tokens 44 (render items)) items := by
  rw [tokens_render h, List.forall₂_map_left_iff, List.forall₂_same]
  exact fun it hit => denotes_render (h it hit)

/-- The ids are stored if they fit into the array, and the function fails if not. -/
def Expands (items : List Item) (arr : List ℤ) : Prop :=
  ∃ arr', if (items.flatMap Item.expansion).length ≤ arr.length then
      get_ids (render items) arr arr.length = .ok (0, arr', (items.flatMap Item.expansion).length) ∧
        items.flatMap Item.expansion <+: arr'
    else get_ids (render items) arr arr.length = .ok (-1, arr', 0)

theorem expands_iff_within (hitems : ∀ it ∈ items, it.WellFormed)
    (harr : (arr.length : ℤ) ≤ INT_MAX) :
    Expands items arr ↔ Within arr.length 0 (tokens 44 (render items)) := by
  have hids := scanAll_of_denotes (forall₂_denotes_render hitems)
  obtain ⟨hnot, heq⟩ | ⟨hw, hlong, arr', heq⟩ | ⟨hw, ids, hids', hle, arr', heq, hstored⟩ :=
    get_ids_cases (render items) harr
  · refine iff_of_false ?_ hnot
    rintro ⟨arr', h⟩
    split_ifs at h
    · rw [heq] at h
      cases h.1
    · rw [heq] at h
      cases h
  · refine iff_of_true ⟨arr', ?_⟩ hw
    rwa [if_neg (hlong _ hids).not_ge]
  · obtain rfl := Option.some.inj (hids.symm.trans hids')
    refine iff_of_true ⟨arr', ?_⟩ hw
    rw [if_pos hle]
    exact ⟨heq, hstored⟩

/-- **A list of items is expanded** exactly if no range that ends at `INT_MAX` fits into the array,
and all ids fit if the array has `INT_MAX` places. -/
theorem expands_iff (hitems : ∀ it ∈ items, it.WellFormed) (harr : (arr.length : ℤ) ≤ INT_MAX) :
    Expands items arr ↔
      ((arr.length : ℤ) = INT_MAX → (items.flatMap Item.expansion).length ≤ arr.length) ∧
        ∀ before lo after, items = before ++ .range lo INT_MAX :: after →
          arr.length < ((before ++ [.range lo INT_MAX]).flatMap Item.expansion).length := by
  have hwithin := within_iff (forall₂_denotes_render hitems) 0 fun _ => Nat.zero_le arr.length
  simp only [Nat.zero_add] at hwithin
  rw [expands_iff_within hitems harr, hwithin]

/-- The counter of the loop goes beyond `INT_MAX`. -/
theorem not_expands_max : ¬Expands [.range (INT_MAX - 1) INT_MAX] [0, 0] := by
  have hitems : ∀ it ∈ [Item.range (INT_MAX - 1) INT_MAX], it.WellFormed := by
    intro it hit
    rw [List.mem_singleton.mp hit]
    exact ⟨by decide, by decide, le_rfl⟩
  rw [expands_iff_within hitems (by decide),
    within_iff (forall₂_denotes_render hitems) 0 fun _ => Nat.zero_le _]
  rintro ⟨-, hmax⟩
  have hlt := hmax [] (INT_MAX - 1) [] rfl
  simp [Item.expansion, length_numbers] at hlt

/-- A number and a range, in an array that is large enough. -/
theorem expands_two : Expands [.number 2, .range 3 8] (List.replicate 32 0) := by
  have hitems : ∀ it ∈ [Item.number 2, .range 3 8], it.WellFormed := by
    intro it hit
    rcases List.mem_pair.mp hit with rfl | rfl
    · exact ⟨by decide, by decide⟩
    · exact ⟨by decide, by decide, by decide⟩
  refine (expands_iff hitems (by decide)).mpr ⟨fun hmax => absurd hmax (by decide), ?_⟩
  intro before lo after heq
  have hmem : Item.range lo INT_MAX ∈ [Item.number 2, .range 3 8] := heq ▸ by simp
  simp [INT_MAX] at hmem

end CodingDemo.Dpdk
