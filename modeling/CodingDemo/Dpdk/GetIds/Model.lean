import CodingDemo.Machine.IntT
import CodingDemo.Text.Ascii
import CodingDemo.Text.Sscanf
import CodingDemo.Text.Strtok
import Mathlib.Algebra.Order.Ring.Int

/-!
# Lists of ids

`get_ids` reads a text such as `2,3-8,9` and stores the numbers in an array.

## Main definitions

* `get_ids`: the function, with `Ids.expand` for the loop over a range, `Ids.item` for one token and
  `Ids.loop` for the tokens
* `scanItem`, `scanAll`: what the function reads from one token, and from all of them
* `Within`: no operation overflows
* `Ids.Outcome`: a part of the function overflows, gives up or goes on

## Main results

* `Ids.Filled.outcome_expand`, `outcome_item`, `outcome_loop`: when a part does what
* `get_ids_cases`: when the function overflows, fails or stores ids
-/

namespace CodingDemo.Dpdk

/-- The array, and the index of the next place. -/
structure Ids where
  arr : List ℤ
  index : ℤ

inductive Fault
  /-- An operation on `int` has no result. -/
  | overflow
  /-- A write outside of the array. -/
  | outOfRange
  deriving DecidableEq

namespace Ids

/-- `(index+1) > arr_len` -/
def full (q : Ids) (arr_len : ℤ) : Except Fault Bool :=
  match intSucc q.index with
  | none => .error .overflow
  | some next => .ok (next > arr_len)

/-- `arr[index++] = id` -/
def store (q : Ids) (id : ℤ) : Except Fault Ids :=
  if 0 ≤ q.index ∧ q.index < q.arr.length then
    .ok { arr := q.arr.set q.index.toNat id, index := q.index + 1 }
  else .error .outOfRange

/-- The loop from `i` to `max`. The result is false after `goto fail`. -/
def expand (arr_len max i : ℤ) (q : Ids) : Except Fault (Bool × Ids) :=
  if i ≤ max then do
    if ← q.full arr_len then return (false, q)
    let q ← q.store i
    if h : i < INT_MAX then expand arr_len max (i + 1) q else throw .overflow
  else return (true, q)
termination_by (INT_MAX - i).toNat
decreasing_by omega

/-- The body of the loop over the tokens. -/
def item (arr_len : ℤ) (c : List UInt8) (q : Ids) : Except Fault (Bool × Ids) :=
  if (strchr c 45).isSome then
    if strrchr c 45 ≠ strchr c 45 then return (false, q)
    else
      match sscanf [.unsigned, .literal 45, .unsigned] c with
      | [min, max] =>
        if intT min ≥ intT max then return (false, q) else expand arr_len (intT max) (intT min) q
      | _ => return (false, q)
  else do
    if ← q.full arr_len then return (false, q)
    match sscanf [.unsigned] c with
    | [id] => return (true, ← q.store (intT id))
    | _ => return (false, { q with index := q.index + 1 })

def loop (arr_len : ℤ) (s : List UInt8) (q : Ids) : Except Fault (Bool × Ids) :=
  match _h : strtok 44 s with
  | none => return (true, q)
  | some (c, rest) => do
    let (goesOn, q) ← item arr_len c q
    if goesOn then loop arr_len rest q else return (false, q)
termination_by s.length
decreasing_by exact length_of_strtok ‹_›

end Ids

/-- The text is given without its terminating zero. The result is the return value, the array, and
`*len`. -/
def get_ids (s : List UInt8) (arr : List ℤ) (arr_len : ℤ) : Except Fault (ℤ × List ℤ × ℤ) := do
  let (goesOn, q) ← Ids.loop arr_len s { arr, index := 0 }
  if goesOn then return (0, q.arr, q.index) else return (-1, q.arr, 0)

/-! ## Items -/

inductive Item
  | number (n : ℤ)
  | range (lo hi : ℤ)
  deriving DecidableEq

/-- The numbers from `lo` to `hi`. -/
def numbers (lo hi : ℤ) : List ℤ := (List.range (hi + 1 - lo).toNat).map fun k : ℕ => lo + k

theorem numbers_of_lt {lo hi : ℤ} (h : hi < lo) : numbers lo hi = [] := by
  rw [numbers, Int.toNat_of_nonpos (by omega)]
  rfl

theorem numbers_cons {lo hi : ℤ} (h : lo ≤ hi) : numbers lo hi = lo :: numbers (lo + 1) hi := by
  have hsucc : (hi + 1 - lo).toNat = (hi + 1 - (lo + 1)).toNat + 1 := by omega
  rw [numbers, hsucc, List.range_succ_eq_map, List.map_cons, List.map_map, numbers]
  simp only [Nat.cast_zero, add_zero, List.cons.injEq, true_and]
  refine List.map_congr_left fun k _ => ?_
  simp only [Function.comp_apply, Nat.cast_succ]
  omega

theorem length_numbers (lo hi : ℤ) : (numbers lo hi).length = (hi + 1 - lo).toNat := by
  rw [numbers, List.length_map, List.length_range]

def Item.expansion : Item → List ℤ
  | .number n => [n]
  | .range lo hi => numbers lo hi

/-- What is read from a token. -/
def scanItem (c : List UInt8) : Option Item :=
  if (strchr c 45).isSome then
    if strrchr c 45 ≠ strchr c 45 then none
    else
      match sscanf [.unsigned, .literal 45, .unsigned] c with
      | [min, max] => if intT min < intT max then some (.range (intT min) (intT max)) else none
      | _ => none
  else
    match sscanf [.unsigned] c with
    | [id] => some (.number (intT id))
    | _ => none

/-- The ids that are read from the tokens, if all can be read. -/
def scanAll : List (List UInt8) → Option (List ℤ)
  | [] => some []
  | c :: cs => do
    let it ← scanItem c
    let ids ← scanAll cs
    return it.expansion ++ ids

/-- How many places a token asks for. A token without a minus asks for its place before it is
read. -/
def demand (c : List UInt8) : ℕ :=
  match scanItem c with
  | some it => it.expansion.length
  | none => if (strchr c 45).isSome then 0 else 1

/-- Storing `n` ids when `d` are stored does not overflow. The index is compared as `index + 1`, and
the counter of a loop over a range goes one beyond its end. -/
def NoOverflow (cap d n : ℕ) (endsAtMax : Prop) : Prop :=
  ((cap : ℤ) = INT_MAX → d + n ≤ cap) ∧ (endsAtMax → cap < d + n)

/-- The token is a range that ends at `INT_MAX`. -/
def EndsAtMax (c : List UInt8) : Prop := ∃ lo, scanItem c = some (.range lo INT_MAX)

/-- No token overflows, up to the first one that cannot be read. -/
def Within (cap : ℕ) : ℕ → List (List UInt8) → Prop
  | _, [] => True
  | d, c :: cs => NoOverflow cap d (demand c) (EndsAtMax c) ∧
      ((scanItem c).isSome → Within cap (d + demand c) cs)

theorem scanAll_cons {c : List UInt8} {it : Item} (h : scanItem c = some it)
    (cs : List (List UInt8)) : scanAll (c :: cs) = (scanAll cs).map (it.expansion ++ ·) := by
  rw [scanAll, h]
  cases scanAll cs <;> rfl

theorem demand_of_scanItem {c : List UInt8} {it : Item} (h : scanItem c = some it) :
    demand c = it.expansion.length := by
  rw [demand, h]

/-- The array is full already, and is not so large that the index could overflow. -/
theorem within_of_lt {cap d : ℕ} (hcap : (cap : ℤ) ≠ INT_MAX) (hlt : cap < d)
    (cs : List (List UInt8)) : Within cap d cs := by
  induction cs generalizing d with
  | nil => trivial
  | cons c cs ih =>
    exact ⟨⟨fun hmax => absurd hmax hcap, fun _ => Nat.lt_add_right _ hlt⟩,
      fun _ => ih (Nat.lt_add_right _ hlt)⟩

namespace Ids

variable {cap d n : ℕ} {arr_len i max id : ℤ} {out : List ℤ} {q q' : Ids} {c : List UInt8}

/-- The ids in `out` have been stored, in an array of length `cap`. -/
structure Filled (cap : ℕ) (out : List ℤ) (q : Ids) : Prop where
  index : q.index = out.length
  stored : out <+: q.arr
  length : q.arr.length = cap

/-- What a part of the function can do. It overflows unless it is `defined`, and it goes on if its
ids can be read and fit into the array. -/
inductive Outcome (cap : ℕ) (out : List ℤ) (defined : Prop) (ids : Option (List ℤ)) :
    Except Fault (Bool × Ids) → Prop
  | overflow : ¬defined → Outcome cap out defined ids (.error .overflow)
  | fail (q : Ids) : defined → (∀ l, ids = some l → cap < out.length + l.length) →
      Outcome cap out defined ids (.ok (false, q))
  | goOn {q : Ids} {l : List ℤ} : defined → ids = some l → out.length + l.length ≤ cap →
      Filled cap (out ++ l) q → Outcome cap out defined ids (.ok (true, q))

/-- What a later part does, seen from before an earlier one that went on. -/
theorem Outcome.of_append {l₁ : List ℤ} {ids : Option (List ℤ)} {defined defined' : Prop}
    {r : Except Fault (Bool × Ids)} (h : Outcome cap (out ++ l₁) defined ids r)
    (hdefined : defined ↔ defined') : Outcome cap out defined' (ids.map (l₁ ++ ·)) r := by
  cases h with
  | overflow hnot => exact .overflow (hdefined.not.mp hnot)
  | fail q hd hlong =>
    refine .fail q (hdefined.mp hd) fun l hl => ?_
    obtain ⟨l', hl', rfl⟩ := Option.map_eq_some_iff.mp hl
    have hlt := hlong l' hl'
    rw [List.length_append] at hlt ⊢
    omega
  | @goOn q l hd hl hle hstored =>
    refine .goOn (hdefined.mp hd) (Option.map_eq_some_iff.mpr ⟨l, hl, rfl⟩) ?_ ?_
    · rw [List.length_append] at hle ⊢
      omega
    · rwa [← List.append_assoc]

theorem Filled.length_le (h : Filled cap out q) : out.length ≤ cap :=
  h.length ▸ h.stored.length_le

theorem Filled.full_eq (h : Filled cap out q) (hlt : (out.length : ℤ) < INT_MAX) :
    q.full cap = .ok (decide (cap < out.length + 1)) := by
  rw [full, h.index, intSucc_of_lt hlt]
  simp only [gt_iff_lt, Except.ok.injEq, decide_eq_decide]
  omega

theorem Filled.full_eq_overflow (h : Filled cap out q) (hmax : (out.length : ℤ) = INT_MAX) :
    q.full arr_len = .error .overflow := by
  rw [full, h.index, hmax, intSucc_INT_MAX]

theorem Filled.exists_store (h : Filled cap out q) (hlt : out.length < cap) (id : ℤ) :
    ∃ q', q.store id = .ok q' ∧ Filled cap (out ++ [id]) q' := by
  obtain ⟨rest, hrest⟩ := h.stored
  have hlen := h.length
  rw [← hrest, List.length_append] at hlen
  obtain ⟨a, rest, rfl⟩ := List.exists_cons_of_length_pos (by omega : 0 < rest.length)
  refine ⟨_, if_pos ?_, ?_, ?_, ?_⟩
  · rw [h.index, h.length]
    omega
  · simp [h.index]
  · rw [h.index, Int.toNat_natCast, ← hrest, List.set_append_right _ _ le_rfl, Nat.sub_self]
    exact ⟨rest, by simp⟩
  · rw [List.length_set, h.length]

theorem Filled.outcome_expand (h : Filled cap out q) (hcap : (cap : ℤ) ≤ INT_MAX)
    (hi : i ≤ max + 1) (hi' : i ≤ INT_MAX) (hmax : max ≤ INT_MAX) :
    Outcome cap out (NoOverflow cap out.length (numbers i max).length (max = INT_MAX))
      (some (numbers i max)) (expand cap max i q) := by
  induction hn : (max + 1 - i).toNat generalizing i out q with
  | zero =>
    have hlt : max < i := by omega
    rw [expand, if_neg hlt.not_ge, numbers_of_lt hlt]
    refine .goOn ⟨fun _ => h.length_le, fun hmax => by omega⟩ rfl h.length_le ?_
    rwa [List.append_nil]
  | succ n ih =>
    have hle : i ≤ max := by omega
    rw [expand, if_pos hle, numbers_cons hle]
    by_cases hfull : (out.length : ℤ) = INT_MAX
    · rw [h.full_eq_overflow hfull]
      refine .overflow fun hno => ?_
      have hle' := h.length_le
      have := hno.1 (by omega)
      rw [List.length_cons] at this
      omega
    · have hlt : (out.length : ℤ) < INT_MAX := by
        have hle' := h.length_le
        omega
      rw [h.full_eq hlt]
      by_cases hroom : cap < out.length + 1
      · simp only [hroom, decide_true]
        refine .fail q ⟨fun hmax => by omega, fun _ => by rw [List.length_cons]; omega⟩ ?_
        rintro l hl
        obtain rfl := Option.some.inj hl
        rw [List.length_cons]
        omega
      · obtain ⟨q', hq', hstored⟩ := h.exists_store (by omega : out.length < cap) i
        simp only [hroom, decide_false, Bool.false_eq_true, if_false, bind, Except.bind, hq']
        split_ifs with hmax'
        · have hrest : Outcome cap (out ++ [i]) _ (some (numbers (i + 1) max)) _ :=
            ih hstored (by omega) (by omega) (by omega)
          refine hrest.of_append ?_
          simp only [NoOverflow, List.length_append, List.length_cons, List.length_nil]
          omega
        · refine .overflow fun hno => ?_
          have := hno.2 (by omega)
          rw [List.length_cons, length_numbers] at this
          omega

theorem Filled.outcome_rejected (h : Filled cap out q) {endsAtMax : Prop} (hnot : ¬endsAtMax)
    (q' : Ids) :
    Outcome cap out (NoOverflow cap out.length 0 endsAtMax) none (.ok (false, q')) :=
  .fail q' ⟨fun _ => h.length_le, fun hmax => absurd hmax hnot⟩ fun _ hl => nomatch hl

theorem Filled.outcome_range (h : Filled cap out q) (hcap : (cap : ℤ) ≤ INT_MAX)
    (hminus : (strchr c 45).isSome) :
    Outcome cap out (NoOverflow cap out.length (demand c) (EndsAtMax c))
      ((scanItem c).map Item.expansion) (item cap c q) := by
  unfold item demand EndsAtMax scanItem
  rw [if_pos hminus, if_pos hminus]
  split_ifs with hone
  · exact h.outcome_rejected (fun hmax => nomatch hmax) q
  · generalize sscanf [.unsigned, .literal 45, .unsigned] c = read
    rcases read with _ | ⟨min, _ | ⟨max, _ | ⟨_, _⟩⟩⟩
    · exact h.outcome_rejected (fun hmax => nomatch hmax) q
    · exact h.outcome_rejected (fun hmax => nomatch hmax) q
    · dsimp only
      by_cases hlt : intT min < intT max
      · have hmax : (∃ lo, some (Item.range (intT min) (intT max)) = some (.range lo INT_MAX)) ↔
            intT max = INT_MAX := by simp
        simp only [hlt, hlt.not_ge, if_true, if_false, hmax]
        have hint := (isInt_intT max).2
        exact h.outcome_expand hcap (by omega) (by omega) hint
      · simp only [hlt, not_lt.mp hlt, if_true, if_false]
        exact h.outcome_rejected (fun hmax => nomatch hmax) q
    · exact h.outcome_rejected (fun hmax => nomatch hmax) q

/-- There is a place for one more id, or the function overflows or gives up. -/
theorem Filled.outcome_full (h : Filled cap out q) (hcap : (cap : ℤ) ≤ INT_MAX) {endsAtMax : Prop}
    (hnot : ¬endsAtMax) {ids : Option (List ℤ)} (hids : ∀ l, ids = some l → l.length = 1)
    {rest : Except Fault (Bool × Ids)}
    (hrest : out.length < cap →
      Outcome cap out (NoOverflow cap out.length 1 endsAtMax) ids rest) :
    Outcome cap out (NoOverflow cap out.length 1 endsAtMax) ids
      (do if ← q.full cap then return (false, q) else rest) := by
  have hle := h.length_le
  by_cases hfull : (out.length : ℤ) = INT_MAX
  · rw [h.full_eq_overflow hfull]
    refine .overflow fun hno => ?_
    have := hno.1 (by omega)
    omega
  · rw [h.full_eq (by omega)]
    by_cases hroom : cap < out.length + 1
    · simp only [hroom, decide_true]
      refine .fail q ⟨fun hmax => by omega, fun hmax => absurd hmax hnot⟩ fun l hl => ?_
      rwa [hids l hl]
    · simp only [hroom, decide_false]
      exact hrest (by omega)

theorem Filled.outcome_number (h : Filled cap out q) (hcap : (cap : ℤ) ≤ INT_MAX)
    (hminus : ¬(strchr c 45).isSome) :
    Outcome cap out (NoOverflow cap out.length (demand c) (EndsAtMax c))
      ((scanItem c).map Item.expansion) (item cap c q) := by
  have hno : ∀ {endsAtMax : Prop}, ¬endsAtMax → out.length < cap →
      NoOverflow cap out.length 1 endsAtMax :=
    fun hnot hlt => ⟨fun _ => hlt, fun hmax => absurd hmax hnot⟩
  unfold item demand EndsAtMax scanItem
  simp only [if_neg hminus]
  generalize sscanf [.unsigned] c = read
  have hnone : ¬∃ lo, (none : Option Item) = some (.range lo INT_MAX) := by simp
  rcases read with _ | ⟨id, _ | _⟩
  · refine h.outcome_full hcap hnone (by simp) fun hlt => ?_
    exact .fail _ (hno hnone hlt) (by simp)
  · have hnumber : ¬∃ lo, some (Item.number (intT id)) = some (.range lo INT_MAX) := by simp
    refine h.outcome_full hcap hnumber ?_ fun hlt => ?_
    · rintro l hl
      obtain rfl := Option.some.inj hl
      rfl
    · obtain ⟨q', hq', hstored⟩ := h.exists_store hlt (intT id)
      simp only [hq']
      exact .goOn (hno hnumber hlt) rfl hlt hstored
  · refine h.outcome_full hcap hnone (by simp) fun hlt => ?_
    exact .fail _ (hno hnone hlt) (by simp)

/-- What is done with one token. -/
theorem Filled.outcome_item (h : Filled cap out q) (hcap : (cap : ℤ) ≤ INT_MAX) (c : List UInt8) :
    Outcome cap out (NoOverflow cap out.length (demand c) (EndsAtMax c))
      ((scanItem c).map Item.expansion) (item cap c q) := by
  by_cases hminus : (strchr c 45).isSome
  · exact h.outcome_range hcap hminus
  · exact h.outcome_number hcap hminus

theorem loop_eq (arr_len : ℤ) (s : List UInt8) (q : Ids) :
    loop arr_len s q =
      match strtok 44 s with
      | none => .ok (true, q)
      | some (c, rest) => do
        let (goesOn, q) ← item arr_len c q
        if goesOn then loop arr_len rest q else return (false, q) := by
  rw [loop]
  split <;> simp only [*]
  rfl

/-- The tokens are read one after the other. -/
theorem Filled.outcome_loop (h : Filled cap out q) (hcap : (cap : ℤ) ≤ INT_MAX) (s : List UInt8) :
    Outcome cap out (Within cap out.length (tokens 44 s)) (scanAll (tokens 44 s))
      (loop cap s q) := by
  induction hn : s.length using Nat.strong_induction_on generalizing s out q with
  | _ n ih =>
    rw [loop_eq]
    rcases strtok_cases 44 s with ⟨hnone, htokens⟩ | ⟨c, rest, hsome, htokens, hlt⟩
    · rw [hnone, htokens]
      refine .goOn (l := []) trivial rfl h.length_le ?_
      rwa [List.append_nil]
    · rw [hsome, htokens]
      dsimp only
      have hitem := h.outcome_item hcap c
      generalize item cap c q = r at hitem
      cases hitem with
      | overflow hnot => exact .overflow fun hw => hnot hw.1
      | fail q' hno hlong =>
        -- the tokens behind this one are not reached
        refine .fail q' ⟨hno, fun hsome => ?_⟩ fun l hl => ?_
        · obtain ⟨it, hit⟩ := Option.isSome_iff_exists.mp hsome
          have hlt := hlong it.expansion (by rw [hit]; rfl)
          rw [← demand_of_scanItem hit] at hlt
          exact within_of_lt (fun hmax => absurd (hno.1 hmax) (not_le.mpr hlt)) hlt _
        · cases hit : scanItem c with
          | none =>
            rw [scanAll, hit] at hl
            cases hl
          | some it =>
            rw [scanAll_cons hit] at hl
            obtain ⟨l', -, rfl⟩ := Option.map_eq_some_iff.mp hl
            have hlt := hlong it.expansion (by rw [hit]; rfl)
            rw [List.length_append]
            omega
      | @goOn q' l hno hl hle hstored =>
        obtain ⟨it, hit, rfl⟩ := Option.map_eq_some_iff.mp hl
        rw [scanAll_cons hit]
        refine (ih rest.length (hn ▸ hlt) hstored rest rfl).of_append ?_
        rw [demand_of_scanItem hit] at hno
        rw [Within, List.length_append, demand_of_scanItem hit, and_iff_right hno, hit]
        simp only [Option.isSome_some, forall_const]

end Ids

/-- What the function does: it overflows, it fails, or it stores the ids of all tokens. -/
theorem get_ids_cases (s : List UInt8) {arr : List ℤ} (harr : (arr.length : ℤ) ≤ INT_MAX) :
    (¬Within arr.length 0 (tokens 44 s) ∧ get_ids s arr arr.length = .error .overflow) ∨
    (Within arr.length 0 (tokens 44 s) ∧
      (∀ ids, scanAll (tokens 44 s) = some ids → arr.length < ids.length) ∧
      ∃ arr', get_ids s arr arr.length = .ok (-1, arr', 0)) ∨
    (Within arr.length 0 (tokens 44 s) ∧ ∃ ids, scanAll (tokens 44 s) = some ids ∧
      ids.length ≤ arr.length ∧
      ∃ arr', get_ids s arr arr.length = .ok (0, arr', ids.length) ∧ ids <+: arr') := by
  have hempty : Ids.Filled arr.length [] { arr, index := 0 } := ⟨rfl, List.nil_prefix, rfl⟩
  have hloop := hempty.outcome_loop harr s
  unfold get_ids
  generalize Ids.loop arr.length s { arr, index := 0 } = r at hloop ⊢
  cases hloop with
  | overflow hnot => exact .inl ⟨hnot, rfl⟩
  | fail q hw hlong =>
    exact .inr (.inl ⟨hw, fun ids hids => by simpa using hlong ids hids, q.arr, rfl⟩)
  | @goOn q ids hw hids hle hstored =>
    refine .inr (.inr ⟨hw, ids, hids, by simpa using hle, q.arr, ?_, by simpa using hstored.stored⟩)
    have hindex : q.index = ids.length := by simpa using hstored.index
    rw [← hindex]
    rfl

end CodingDemo.Dpdk
