import CodingDemo.Dpdk.PicoHttp.Grammar

/-!
# The trimmed parser and the end of its input

After an empty first line the trimmed parser looks for a space without a check, so it reads behind a
buffer that ends there. Otherwise it stays inside its input, and what it returns is one of its error
codes or the end of a request, as far as `int` can hold that.

## Main definitions

* `StaysInside`: what the parser is meant to do with any input
* `FitsInt`: the ends of requests that are right as an `int`

## Main results

* `Zzq.parse_request_eq_outOfBounds_iff`: where the parser reads behind the buffer
* `Zzq.staysInside_iff`: when the parser stays inside its input
-/

namespace CodingDemo.Dpdk.PicoHttp

/-- What a parser returns, if it reads nothing outside of the buffer. -/
def returned {α : Type} : Except Halt (ℤ × α) → Option ℤ
  | .ok (r, _) => some r
  | .error .failed => some (-1)
  | .error .incomplete => some (-2)
  | .error .outOfBounds => none

/-- The parser reads nothing outside of a buffer of length `len`, and returns an error code or a
part of the length. -/
def StaysInside {α : Type} (result : Except Halt (ℤ × α)) (len : ℕ) : Prop :=
  ∃ r ∈ returned result, r = -1 ∨ r = -2 ∨ 0 < r ∧ r ≤ len

/-- The number is positive as an `int`, or one of the error codes. -/
def FitsInt (n : ℕ) : Prop := 0 < n % 2 ^ 32 ∧ n % 2 ^ 32 < 2 ^ 31 ∨ 2 ^ 32 - 2 ≤ n % 2 ^ 32

theorem intT_iff_fitsInt {n len : ℕ} (hle : n ≤ len) :
    (intT n = -1 ∨ intT n = -2 ∨ 0 < intT n ∧ intT n ≤ len) ↔ FitsInt n := by
  rw [intT, FitsInt, Int.bmod_def]
  split_ifs <;> omega

theorem fitsInt_of_le {n : ℕ} (hpos : 0 < n) (hle : n < 2 ^ 31) : FitsInt n := by
  rw [FitsInt]
  omega

/-! ## Nothing else reads behind the buffer -/

section Avoids

variable {s t : Ptr} (sse42 : Bool)

theorem scanFrom_avoids {stop : UInt8 → Bool} : Avoids (scanFrom stop s) .outOfBounds := by
  rw [scanFrom_eq]
  exact checked_avoids

theorem parse_name_avoids : Avoids (parse_name sse42 s) .outOfBounds := by
  rw [parse_name, findAndAdvance_eq sse42 inRanges_of_name]
  refine checked_avoids.bind fun t _ => ?_
  refine (rejectIf_avoids (by decide)).bind fun _ _ => ?_
  exact scanFrom_avoids.bind fun _ _ => avoids_ok _

theorem parse_value_avoids : Avoids (parse_value sse42 s) .outOfBounds := by
  refine (get_token_to_eol_avoids sse42).bind ?_
  rintro ⟨tok, t⟩ htok
  obtain ⟨w, u, rfl, -, -, rfl⟩ := (get_token_to_eol_eq_ok_iff sse42).mp htok
  have hle : w.length ≤ (w ++ u).length := by
    rw [List.length_append]
    exact Nat.le_add_right _ _
  -- The blanks are looked for in the text of the line only.
  obtain ⟨len, hlen⟩ := exists_trimEnd hle
  dsimp only
  rw [hlen]
  exact avoids_ok _

theorem parse_header_avoids (n : ℕ) (c : UInt8) :
    Avoids (parse_header sse42 n c s) .outOfBounds := by
  rw [parse_header]
  split_ifs
  · exact (parse_value_avoids sse42).bind fun _ _ => avoids_ok _
  · refine (parse_name_avoids sse42).bind fun _ _ => ?_
    exact (parse_value_avoids sse42).bind fun _ _ => avoids_ok _

theorem parse_headers_avoids (n room : ℕ) : Avoids (parse_headers sse42 n room s) .outOfBounds := by
  induction room generalizing s n with
  | zero =>
    cases s with
    | nil => exact avoids_error (by decide)
    | cons c s =>
      rw [parse_headers]
      split_ifs
      · exact EXPECT_CHAR_avoids.bind fun _ _ => avoids_ok _
      · exact avoids_ok _
      · exact avoids_error (by decide)
  | succ room ih =>
    cases s with
    | nil => exact avoids_error (by decide)
    | cons c s =>
      rw [parse_headers]
      split_ifs
      · exact EXPECT_CHAR_avoids.bind fun _ _ => avoids_ok _
      · exact avoids_ok _
      · refine (parse_header_avoids sse42 n c).bind fun r _ => ?_
        exact (ih (n + 1)).bind fun _ _ => avoids_ok _

theorem skipEmptyLine_avoids : Avoids (skipEmptyLine s) .outOfBounds := by
  cases s with
  | nil => exact avoids_error (by decide)
  | cons c s =>
    change Avoids (if c = 13 then EXPECT_CHAR 10 s else if c = 10 then .ok s else .ok (c :: s)) _
    split_ifs
    · exact EXPECT_CHAR_avoids
    · exact avoids_ok _
    · exact avoids_ok _

theorem endLine_avoids (hs : s ≠ []) : Avoids (endLine s) .outOfBounds := by
  cases s with
  | nil => exact absurd rfl hs
  | cons c s =>
    rw [endLine]
    split_ifs
    · exact EXPECT_CHAR_avoids
    · exact avoids_ok _
    · exact avoids_error (by decide)

theorem checkComplete_avoids {last_len : ℕ} (hlast : last_len ≤ s.length) :
    Avoids (checkComplete s last_len) .outOfBounds := by
  rw [checkComplete]
  split_ifs
  · rw [is_complete, if_neg (by omega)]
    exact completeFrom_avoids.bind fun _ _ => avoids_ok _
  · exact avoids_ok _

theorem emptyLine_nil_iff : EmptyLine s [] ↔ s = [10] ∨ s = [13, 10] := by
  constructor
  · rintro ((_ | _) | ⟨rfl, c, hc, -⟩)
    · exact .inl rfl
    · exact .inr rfl
    · cases hc
  · rintro (rfl | rfl)
    · exact .inl (.lf [])
    · exact .inl (.crlf [])

/-- The trimmed parser reads behind a buffer that is an empty line. -/
theorem Zzq.parse_request_eq_outOfBounds_iff {max_headers : ℕ} :
    parse_request sse42 max_headers s = .error .outOfBounds ↔ s = [10] ∨ s = [13, 10] := by
  constructor
  · intro h
    by_contra hs
    -- Only the search for the space reads without a check.
    refine skipEmptyLine_avoids.bind (fun u hu => ?_) h
    have hne : u ≠ [] := by
      rintro rfl
      exact hs (emptyLine_nil_iff.mp (skipEmptyLine_eq_ok_iff.mp hu))
    refine (advance_avoids hne).bind fun v _ => ?_
    refine (ADVANCE_TOKEN_avoids sse42).bind fun w _ => ?_
    refine (rejectIf_avoids (by decide)).bind fun _ _ => ?_
    refine (rejectIf_avoids (by decide)).bind fun _ hlen => ?_
    -- Behind the eight characters of the version there is one more.
    rw [rejectIf_eq_ok_iff] at hlen
    refine (endLine_avoids ?_).bind fun _ _ => ?_
    · refine List.ne_nil_of_length_pos ?_
      rw [List.length_drop]
      omega
    · exact (parse_headers_avoids sse42 0 max_headers).bind fun _ _ => avoids_ok _
  · rintro (rfl | rfl)
    · rfl
    · rfl

end Avoids

/-! ## When the parser stays inside its input -/

section Stays

variable {s t buf : Ptr} {max_headers last_len : ℕ}

theorem HeaderLine.length_lt {folds : Prop} (h : HeaderLine folds s t) : t.length < s.length := by
  cases h with
  | folded _ _ hline => exact hline.length_lt
  | named _ _ hline =>
    rw [List.length_append, List.length_cons]
    have := hline.length_lt
    omega

theorem Headers.length_lt {n room : ℕ} (h : Headers n room s t) : t.length < s.length := by
  induction h with
  | done hend => exact hend.length_lt
  | more hline _ ih => exact ih.trans hline.length_lt

theorem EmptyLine.length_le (h : EmptyLine s t) : t.length ≤ s.length := by
  rcases h with h | ⟨rfl, -⟩
  · exact h.length_lt.le
  · exact le_rfl

theorem Zzq.IsRequest.length_lt (h : IsRequest max_headers s t) : t.length < s.length := by
  obtain ⟨hs, -, -, -, -, hend, hheaders⟩ := h
  have hle := hs.length_le
  simp only [List.length_append, List.length_cons] at hle
  have := hend.length_lt
  have := hheaders.length_lt
  omega

theorem not_complete_of_emptyLine (h : s = [10] ∨ s = [13, 10]) : ¬Complete s := by
  intro hcomplete
  obtain ⟨t, ht⟩ := exists_completeFrom_iff.mpr hcomplete
  rcases h with rfl | rfl
  · cases ht
  · cases ht

theorem checkComplete_eq_ok_iff (hlast : last_len ≤ s.length) {a : Unit} :
    checkComplete s last_len = .ok a ↔ (last_len ≠ 0 → Complete (s.drop (last_len - 3))) := by
  rw [checkComplete, ← exists_completeFrom_iff]
  split_ifs with h
  · rw [is_complete, if_neg (by omega), bind_eq_ok_iff]
    constructor
    · rintro ⟨t, ht, -⟩ -
      exact ⟨t, ht⟩
    · intro hc
      obtain ⟨t, ht⟩ := hc h
      exact ⟨t, ht, rfl⟩
  · exact ⟨fun _ hne => absurd hne h, fun _ => rfl⟩

theorem staysInside_error {α : Type} {e : Halt} (he : e ≠ .outOfBounds) (len : ℕ) :
    StaysInside (.error e : Except Halt (ℤ × α)) len := by
  cases e with
  | failed => exact ⟨-1, rfl, .inl rfl⟩
  | incomplete => exact ⟨-2, rfl, .inr (.inl rfl)⟩
  | outOfBounds => exact absurd rfl he

theorem not_staysInside_outOfBounds {α : Type} (len : ℕ) :
    ¬StaysInside (.error .outOfBounds : Except Halt (ℤ × α)) len := by
  rintro ⟨_, hr, -⟩
  cases hr

theorem staysInside_ok_iff {α : Type} {n len : ℕ} (hle : n ≤ len) (a : α) :
    StaysInside (.ok (intT n, a)) len ↔ FitsInt n := by
  rw [StaysInside, returned, ← intT_iff_fitsInt hle]
  simp only [Option.mem_some_iff, exists_eq_left']

/-- With an earlier length the search for an empty line comes first, and stops at the end. -/
theorem last_len_eq_zero_of_emptyLine (hbuf : buf = [10] ∨ buf = [13, 10])
    (hlast : last_len ≤ buf.length)
    (hcomplete : last_len ≠ 0 → Complete (buf.drop (last_len - 3))) : last_len = 0 := by
  by_contra hlen
  have hstart : last_len - 3 = 0 := by
    rcases hbuf with rfl | rfl
    · exact Nat.sub_eq_zero_of_le (hlast.trans (by decide))
    · exact Nat.sub_eq_zero_of_le (hlast.trans (by decide))
  have hfound := hcomplete hlen
  rw [hstart, List.drop_zero] at hfound
  exact not_complete_of_emptyLine hbuf hfound

/-- What the parser does with a request in the buffer, after the check for an empty line. -/
theorem Zzq.staysInside_parse_iff (sse42 : Bool) :
    StaysInside (do
        let (request, rest) ← parse_request sse42 max_headers buf
        return (intT (buf.length - rest.length : ℕ), request)) buf.length ↔
      ¬(buf = [10] ∨ buf = [13, 10]) ∧
        ∀ rest, IsRequest max_headers buf rest → FitsInt (buf.length - rest.length) := by
  rw [← parse_request_eq_outOfBounds_iff sse42]
  simp only [← exists_parse_request_iff sse42]
  cases hparse : parse_request sse42 max_headers buf with
  | error e =>
    by_cases he : e = .outOfBounds
    · subst he
      exact iff_of_false (not_staysInside_outOfBounds _) fun h => h.1 rfl
    · refine iff_of_true (staysInside_error he _) ⟨fun h => he (Except.error.inj h), ?_⟩
      rintro rest ⟨q, hq⟩
      cases hq
  | ok r =>
    obtain ⟨q, rest⟩ := r
    refine (staysInside_ok_iff (Nat.sub_le _ _) q).trans ⟨fun h => ⟨?_, ?_⟩, fun h => ?_⟩
    · intro hout
      cases hout
    · rintro rest' ⟨q', hq'⟩
      cases hq'
      exact h
    · exact h.2 rest ⟨q, rfl⟩

/-- **The bounds of the trimmed parser**: it stays inside its input if and only if the input is not
an empty line with `last_len = 0`, and the request that it accepts does not end at an offset that
`int` cannot hold. -/
theorem Zzq.staysInside_iff (sse42 : Bool) (hlast : last_len ≤ buf.length) :
    StaysInside (phr_parse_request sse42 buf max_headers last_len) buf.length ↔
      ¬(last_len = 0 ∧ (buf = [10] ∨ buf = [13, 10])) ∧
        ∀ rest, IsRequest max_headers buf rest →
          (last_len ≠ 0 → Complete (buf.drop (last_len - 3))) →
          FitsInt (buf.length - rest.length) := by
  rw [phr_parse_request]
  cases hcheck : checkComplete buf last_len with
  | error e =>
    have hnot : ¬(last_len ≠ 0 → Complete (buf.drop (last_len - 3))) := fun hc => by
      rw [(checkComplete_eq_ok_iff hlast (a := ())).mpr hc] at hcheck
      cases hcheck
    have hne : e ≠ .outOfBounds := by
      rintro rfl
      exact checkComplete_avoids hlast hcheck
    refine iff_of_true (staysInside_error hne _) ⟨fun h => ?_, fun _ _ hc => absurd hc hnot⟩
    exact hnot fun hlen => absurd h.1 hlen
  | ok a =>
    -- The check was passed, so the condition on the empty line holds.
    have hcomplete := (checkComplete_eq_ok_iff hlast).mp hcheck
    refine (staysInside_parse_iff sse42).trans (and_congr ?_ ?_)
    · refine not_congr ⟨fun hbuf => ⟨?_, hbuf⟩, fun h => h.2⟩
      exact last_len_eq_zero_of_emptyLine hbuf hlast hcomplete
    · exact forall₂_congr fun _ _ => ⟨fun h _ => h, fun h => h hcomplete⟩

/-- A buffer that is an empty line is read behind its end. -/
theorem Zzq.not_staysInside_lf :
    ¬StaysInside (phr_parse_request false [10] 10 0) ([10] : Ptr).length := by
  rintro ⟨_, hr, -⟩
  cases hr

/-- A request with one header. -/
theorem Zzq.staysInside_get :
    StaysInside (phr_parse_request true
      [71, 32, 47, 32, 72, 84, 84, 80, 47, 49, 46, 49, 10, 65, 58, 98, 10, 10] 1 0) 18 := by
  refine (staysInside_iff true (by decide)).mpr ⟨by decide, fun rest hrequest _ => ?_⟩
  have hlt := hrequest.length_lt
  rw [List.length_cons] at hlt ⊢
  exact fitsInt_of_le (by omega) (by simp only [List.length_cons, List.length_nil]; omega)

end Stays

end CodingDemo.Dpdk.PicoHttp
