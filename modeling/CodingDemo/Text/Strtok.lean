import Mathlib.Data.List.TakeWhile
import Mathlib.Tactic.Common

/-!
# Characters and tokens of a text

`strchr` and `strrchr` look for a character from the beginning and from the end. `strtok` skips
delimiters, and returns what comes before the next one; the next call goes on behind that delimiter.

## Main definitions

* `strchr`, `strrchr`: the first and the last index of a character
* `strtok`: the next token, and the rest of the text
* `tokens`: the pieces between the delimiters that are not empty

## Main results

* `strchr_append_cons`, `strrchr_append_cons`, `count_of_strrchr_eq`: a character that occurs once
* `strtok_cases`: the calls return the tokens one after the other
* `tokens_intercalate`: texts that are joined are the tokens
-/

namespace CodingDemo

variable {α : Type*} [DecidableEq α] {delim : α} {s t rest : List α}

/-! ## Looking for a character -/

def strchr (s : List α) (c : α) : Option ℕ := s.idxOf? c

def strrchr (s : List α) (c : α) : Option ℕ := (s.reverse.idxOf? c).map (s.length - 1 - ·)

theorem strchr_eq_none (h : delim ∉ s) : strchr s delim = none := List.idxOf?_eq_none_iff.mpr h

theorem strchr_append_cons (h : delim ∉ s) (t : List α) :
    strchr (s ++ delim :: t) delim = some s.length := by
  unfold strchr
  induction s with
  | nil => simp [List.idxOf?_cons]
  | cons c s ih =>
    obtain ⟨hc, hs⟩ := List.ne_and_not_mem_of_not_mem_cons h
    rw [List.cons_append, List.idxOf?_cons, if_neg (by simpa using hc.symm), ih hs]
    rfl

theorem strrchr_append_cons (h : delim ∉ t) (s : List α) :
    strrchr (s ++ delim :: t) delim = some s.length := by
  have hfind := strchr_append_cons (s := t.reverse) (by simpa using h) s.reverse
  unfold strchr at hfind
  simp [strrchr, hfind]

theorem isSome_strchr : (strchr s delim).isSome ↔ delim ∈ s := by
  rw [Option.isSome_iff_ne_none, strchr, ne_eq, List.idxOf?_eq_none_iff, not_not]

/-- If the first and the last index are the same, then the character occurs once. -/
theorem count_of_strrchr_eq (h : delim ∈ s) (heq : strrchr s delim = strchr s delim) :
    s.count delim = 1 := by
  obtain ⟨u, v, rfl, hu⟩ := List.eq_append_cons_of_mem h
  have hv : delim ∉ v := by
    intro hv
    obtain ⟨u', v', hrev, hu'⟩ := List.eq_append_cons_of_mem (List.mem_reverse.mpr hv)
    obtain rfl : v = v'.reverse ++ delim :: u'.reverse := by
      rw [← List.reverse_reverse v, hrev]
      simp
    rw [strchr_append_cons hu, ← List.cons_append, ← List.append_assoc,
      strrchr_append_cons (by simpa using hu')] at heq
    simp at heq
  rw [List.count_append, List.count_cons_self, List.count_eq_zero.mpr hu, List.count_eq_zero.mpr hv]

/-! ## Tokens -/

/-- The next token of the text, and the text behind it. -/
def strtok (delim : α) (s : List α) : Option (List α × List α) :=
  match s.dropWhile (· == delim) with
  | [] => none
  | c :: s => some ((c :: s).takeWhile (· != delim), ((c :: s).dropWhile (· != delim)).tail)

/-- The pieces between the delimiters that are not empty. -/
def tokens (delim : α) (s : List α) : List (List α) := (s.splitOn delim).filter (· ≠ [])

@[simp] theorem tokens_nil (delim : α) : tokens delim [] = [] := by
  simp [tokens]

theorem tokens_cons_self (delim : α) (s : List α) : tokens delim (delim :: s) = tokens delim s := by
  simp [tokens, List.splitOn_cons_eq_if_modifyHead]

/-- A piece that is not empty is a token. -/
theorem tokens_append_cons (ht : t ≠ []) (hdelim : delim ∉ t) (s : List α) :
    tokens delim (t ++ delim :: s) = t :: tokens delim s := by
  rw [tokens, List.splitOn_append_cons_self, List.splitOn_eq_singleton hdelim,
    List.singleton_append, List.filter_cons_of_pos (by simpa using ht), tokens]

theorem tokens_eq_singleton (ht : t ≠ []) (hdelim : delim ∉ t) : tokens delim t = [t] := by
  rw [tokens, List.splitOn_eq_singleton hdelim, List.filter_cons_of_pos (by simpa using ht),
    List.filter_nil]

theorem tokens_dropWhile (delim : α) (s : List α) :
    tokens delim (s.dropWhile (· == delim)) = tokens delim s := by
  induction s with
  | nil => rfl
  | cons c s ih =>
    rw [List.dropWhile_cons]
    split_ifs with hc
    · rw [ih, ← tokens_cons_self delim s, ← beq_iff_eq.mp hc]
    · rfl

/-- A call of `strtok` returns the first token, and what is left has the others. -/
theorem strtok_cases (delim : α) (s : List α) :
    (strtok delim s = none ∧ tokens delim s = []) ∨
    ∃ t rest, strtok delim s = some (t, rest) ∧ tokens delim s = t :: tokens delim rest ∧
      rest.length < s.length := by
  have hlen : (s.dropWhile (· == delim)).length ≤ s.length := (List.dropWhile_suffix _).length_le
  rw [strtok, ← tokens_dropWhile]
  cases hs : s.dropWhile (· == delim) with
  | nil => exact .inl ⟨rfl, tokens_nil delim⟩
  | cons c s' =>
    rw [hs] at hlen
    have hc : c ≠ delim := by
      have hhead := List.head_dropWhile_not (· == delim) (hs ▸ List.cons_ne_nil c s')
      simpa [hs] using hhead
    refine .inr ⟨_, _, rfl, ?_, ?_⟩
    · have hsplit := List.takeWhile_append_dropWhile (p := (· != delim)) (l := c :: s')
      have ht : (c :: s').takeWhile (· != delim) ≠ [] := by simp [hc]
      have hdelim : delim ∉ (c :: s').takeWhile (· != delim) :=
        fun hmem => by simpa using List.mem_takeWhile_imp hmem
      cases hu : (c :: s').dropWhile (· != delim) with
      | nil =>
        rw [hu, List.append_nil] at hsplit
        rw [List.tail_nil, tokens_nil]
        nth_rewrite 1 [← hsplit]
        exact tokens_eq_singleton ht hdelim
      | cons d u =>
        -- the token ends at a delimiter
        have hd : d = delim := by
          have hhead := List.head_dropWhile_not (· != delim) (hu ▸ List.cons_ne_nil d u)
          simpa [hu] using hhead
        rw [hu, hd] at hsplit
        rw [List.tail_cons]
        nth_rewrite 1 [← hsplit]
        exact tokens_append_cons ht hdelim u
    · have hle := (List.dropWhile_suffix (· != delim) (l := s')).length_le
      rw [List.dropWhile_cons_of_pos (by simpa using hc), List.length_tail]
      rw [List.length_cons] at hlen
      omega

theorem length_of_strtok (h : strtok delim s = some (t, rest)) : rest.length < s.length := by
  rcases strtok_cases delim s with ⟨hnone, -⟩ | ⟨t', rest', hsome, -, hlt⟩
  · rw [hnone] at h
    cases h
  · rw [hsome] at h
    cases h
    exact hlt

/-- Texts that are joined are the tokens. -/
theorem tokens_intercalate {ts : List (List α)} (hne : ∀ t ∈ ts, t ≠ [])
    (hdelim : ∀ t ∈ ts, delim ∉ t) : tokens delim ([delim].intercalate ts) = ts := by
  rcases eq_or_ne ts [] with rfl | hts
  · simp
  · rw [tokens, List.splitOn_intercalate delim hdelim hts, List.filter_eq_self]
    simpa using hne

end CodingDemo
