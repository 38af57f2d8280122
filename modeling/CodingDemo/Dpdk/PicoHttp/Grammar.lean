import CodingDemo.Dpdk.PicoHttp.Request

/-!
# The requests that the trimmed parser accepts

## Main definitions

* `Line`, `HeaderLine`, `Headers`: lines of text, and headers up to an empty line
* `Zzq.IsRequest`: a request of the trimmed parser
* `Complete`: a text with an empty line

## Main results

* `exists_parse_headers_iff`: the header parser accepts exactly the headers
* `Zzq.exists_parse_request_iff`: the trimmed parser accepts exactly the requests
* `exists_is_complete_iff`: the search finds exactly the texts with an empty line
-/

namespace CodingDemo.Dpdk.PicoHttp

/-! ## The grammar

Each relation is between the text from the start of a thing and the text after its end. -/

/-- Text without control characters, and a line end. -/
def Line (s t : Ptr) : Prop := ∃ w u, s = w ++ u ∧ LineEnd u t ∧ ∀ b ∈ w, isLineCtl b = false

/-- A header with a name, or a line that goes on with the last header. -/
inductive HeaderLine (folds : Prop) : Ptr → Ptr → Prop
  | folded {c : UInt8} {s t : Ptr} : folds → isBlank c = true → Line (c :: s) t →
      HeaderLine folds (c :: s) t
  | named {name s t : Ptr} : name ≠ [] → (∀ b ∈ name, token_char_map b = true) → Line s t →
      HeaderLine folds (name ++ 58 :: s) t

/-- Headers after `n` others, with room for `room`, and an empty line. -/
inductive Headers : ℕ → ℕ → Ptr → Ptr → Prop
  | done {n room : ℕ} {s t : Ptr} : LineEnd s t → Headers n room s t
  | more {n room : ℕ} {s t u : Ptr} : HeaderLine (n ≠ 0) s t → Headers (n + 1) room t u →
      Headers n (room + 1) s u

/-- An empty line at the start, if there is one. -/
def EmptyLine (s t : Ptr) : Prop := LineEnd s t ∨ s = t ∧ ∃ c ∈ s.head?, c ≠ 13 ∧ c ≠ 10

/-- A text with an empty line, in which each carriage return before it is part of a line end. -/
inductive Complete : Ptr → Prop
  | empty {s t u : Ptr} : LineEnd s t → LineEnd t u → Complete s
  | line {s t : Ptr} : LineEnd s t → Complete t → Complete s
  | char {c : UInt8} {s : Ptr} : c ≠ 13 → c ≠ 10 → Complete s → Complete (c :: s)

/-- A request: anything up to a space, a path, eight characters for the version, and headers. -/
inductive Zzq.IsRequest (max_headers : ℕ) : Ptr → Ptr → Prop
  | mk {s t u v method path version : Ptr} :
      EmptyLine s (method ++ 32 :: (path ++ 32 :: (version ++ t))) →
      32 ∉ method → path ≠ [] → (∀ b ∈ path, b ≠ 32 ∧ isTokenCtl b = false) → version.length = 8 →
      LineEnd t u → Headers 0 max_headers u v → IsRequest max_headers s v

section Lines

variable {s t u w : Ptr}

theorem LineEnd.length_lt (h : LineEnd s t) : t.length < s.length := by
  cases h <;> simp only [List.length_cons] <;> omega

theorem LineEnd.head (h : LineEnd s t) : ∃ c ∈ s.head?, isLineCtl c = true ∧ isBlank c = false := by
  cases h with
  | lf => exact ⟨10, rfl, rfl, rfl⟩
  | crlf => exact ⟨13, rfl, rfl, rfl⟩

theorem Line.append (h : Line s t) (hw : ∀ b ∈ w, isLineCtl b = false) : Line (w ++ s) t := by
  obtain ⟨x, u, rfl, hu, hx⟩ := h
  refine ⟨w ++ x, u, (List.append_assoc w x u).symm, hu, fun b hb => ?_⟩
  exact (List.mem_append.mp hb).elim (hw b) (hx b)

theorem Line.of_append (h : Line (w ++ s) t) (hw : ∀ b ∈ w, isLineCtl b = false) : Line s t := by
  obtain ⟨x, u, hs, hu, hx⟩ := h
  -- The line end cannot start in the text that is taken off.
  rcases List.append_eq_append_iff.mp hs with ⟨y, rfl, rfl⟩ | ⟨y, rfl, rfl⟩
  · exact ⟨y, u, rfl, hu, fun b hb => hx b (List.mem_append_right _ hb)⟩
  · cases y with
    | nil => exact ⟨[], s, rfl, hu, by simp⟩
    | cons c y =>
      obtain ⟨c', hc', hctl, -⟩ := hu.head
      obtain rfl : c = c' := by simpa using hc'
      rw [hw c (List.mem_append_right _ List.mem_cons_self)] at hctl
      cases hctl

theorem Line.length_lt (h : Line s t) : t.length < s.length := by
  obtain ⟨w, u, rfl, hu, -⟩ := h
  rw [List.length_append]
  exact Nat.lt_add_left _ hu.length_lt

theorem exists_trimEnd {n : ℕ} (h : n ≤ s.length) : ∃ len, trimEnd s n = .ok len := by
  induction n with
  | zero => exact ⟨0, rfl⟩
  | succ n ih =>
    rw [trimEnd, List.getElem?_eq_getElem h]
    dsimp only
    split_ifs
    · exact ih (Nat.le_of_succ_le h)
    · exact ⟨n + 1, rfl⟩

theorem exists_parse_value_iff (sse42 : Bool) :
    (∃ value, parse_value sse42 s = .ok (value, t)) ↔ Line s t := by
  simp only [parse_value, bind_eq_ok_iff, get_token_to_eol_eq_ok_iff, Prod.exists]
  constructor
  · rintro ⟨_, _, _, ⟨w, u, hs, hu, hw, -⟩, _, -, h⟩
    cases h
    exact ⟨w, u, hs, hu, hw⟩
  · rintro ⟨w, u, rfl, hu, hw⟩
    have hle : w.length ≤ (w ++ u).length := by
      rw [List.length_append]
      exact Nat.le_add_right _ _
    obtain ⟨len, hlen⟩ := exists_trimEnd hle
    exact ⟨_, _, _, ⟨w, u, rfl, hu, hw, rfl⟩, len, hlen, rfl⟩

end Lines

/-! ## Headers -/

section Headers

variable {s t : Ptr} (sse42 : Bool)

theorem isLineCtl_of_isBlank {c : UInt8} (h : isBlank c = true) : isLineCtl c = false := by
  have hc : c = 32 ∨ c = 9 := by simpa [isBlank] using h
  rcases hc with rfl | rfl
  · rfl
  · rfl

theorem ne_of_token {c : UInt8} (h : token_char_map c = true) :
    c ≠ 9 ∧ c ≠ 10 ∧ c ≠ 13 ∧ c ≠ 32 ∧ c ≠ 58 := by
  refine ⟨?_, ?_, ?_, ?_, ?_⟩ <;> (rintro rfl; exact absurd h (by decide))

theorem not_isBlank_of_token {c : UInt8} (h : token_char_map c = true) : isBlank c = false := by
  obtain ⟨htab, -, -, hsp, -⟩ := ne_of_token h
  simp [isBlank, htab, hsp]

theorem parse_name_eq_ok_iff {tok : Slice} :
    parse_name sse42 s = .ok (tok, t) ↔ ∃ name blanks c u, s = name ++ 58 :: (blanks ++ c :: u) ∧
      t = c :: u ∧ isBlank c = false ∧ (∀ b ∈ blanks, isBlank b = true) ∧ name ≠ [] ∧
      (∀ b ∈ name, token_char_map b = true) ∧ tok = ⟨s, name.length⟩ := by
  simp only [parse_name, bind_eq_ok_iff, findAndAdvance_eq_ok_iff sse42 inRanges_of_name,
    rejectIf_eq_ok_iff, scanFrom_eq_ok_iff]
  constructor
  · rintro ⟨_, ⟨name, c, u, rfl, rfl, hc, hname⟩, _, hlen, _, ⟨blanks, d, v, hu, rfl, hd, hbl⟩, h⟩
    cases h
    obtain rfl : c = 58 := by simpa using hc
    obtain rfl : u = blanks ++ d :: v := hu
    rw [List.length_append, Nat.add_sub_cancel] at hlen ⊢
    refine ⟨name, blanks, d, v, rfl, rfl, by simpa using hd, fun b hb => by simpa using hbl b hb,
      List.length_eq_zero_iff.not.mp hlen, fun b hb => by simpa using (hname b hb).2, rfl⟩
  · rintro ⟨name, blanks, c, u, rfl, rfl, hc, hbl, hne, hname, rfl⟩
    refine ⟨_, ⟨name, 58, blanks ++ c :: u, rfl, rfl, rfl, fun b hb => ⟨?_, ?_⟩⟩, (), ?_, _,
      ⟨blanks, c, u, rfl, rfl, ?_, fun b hb => ?_⟩, ?_⟩
    · exact decide_eq_false (ne_of_token (hname b hb)).2.2.2.2
    · rw [hname b hb]
      rfl
    · rw [List.length_append, Nat.add_sub_cancel]
      exact List.length_eq_zero_iff.not.mpr hne
    · rw [hc]
      rfl
    · simp [hbl b hb]
    · rw [List.length_append, Nat.add_sub_cancel]
      rfl

/-- A line has a first character that is not blank. -/
theorem Line.exists_blanks (h : Line s t) : ∃ blanks c u, s = blanks ++ c :: u ∧
    isBlank c = false ∧ ∀ b ∈ blanks, isBlank b = true := by
  obtain ⟨w, u, rfl, hu, -⟩ := h
  obtain ⟨c, hc, -, hblank⟩ := hu.head
  have hfind : ((w ++ u).find? fun b => !isBlank b).isSome := by
    refine List.find?_isSome.mpr ⟨c, List.mem_append_right _ (List.mem_of_mem_head? hc), ?_⟩
    rw [hblank]
    rfl
  obtain ⟨d, hd⟩ := Option.isSome_iff_exists.mp hfind
  obtain ⟨hd, blanks, v, hs, hblanks⟩ := List.find?_eq_some_iff_append.mp hd
  exact ⟨blanks, d, v, hs, by simpa using hd, fun b hb => by simpa using hblanks b hb⟩

theorem exists_parse_header_iff {n : ℕ} {c : UInt8} :
    (∃ header, parse_header sse42 n c s = .ok (header, t)) ↔ HeaderLine (n ≠ 0) (c :: s) t := by
  rw [parse_header]
  split_ifs with hfold
  · simp only [bind_eq_ok_iff, Prod.exists]
    constructor
    · rintro ⟨_, tok, u, htok, h⟩
      cases h
      exact .folded hfold.1 hfold.2 ((exists_parse_value_iff sse42).mp ⟨tok, htok⟩)
    · intro h
      generalize hcs : c :: s = x at h
      cases h with
      | folded _ _ hline =>
        obtain ⟨rfl, rfl⟩ := List.cons.inj hcs
        obtain ⟨tok, htok⟩ := (exists_parse_value_iff sse42).mpr hline
        exact ⟨_, tok, t, htok, rfl⟩
      | named hne hname _ =>
        -- A name does not start with a blank.
        obtain ⟨d, name, rfl⟩ := List.exists_cons_of_ne_nil hne
        obtain ⟨rfl, -⟩ := List.cons.inj hcs
        have hblank := not_isBlank_of_token (hname c List.mem_cons_self)
        exact absurd hfold.2 (ne_true_of_eq_false hblank)
  · simp only [bind_eq_ok_iff, Prod.exists]
    constructor
    · rintro ⟨_, tok, u, htok, value, v, hvalue, h⟩
      cases h
      obtain ⟨name, blanks, d, v, hs, rfl, -, hblanks, hne, hname, -⟩ :=
        (parse_name_eq_ok_iff sse42).mp htok
      rw [hs]
      have hline := (exists_parse_value_iff sse42).mp ⟨value, hvalue⟩
      exact .named hne hname (hline.append fun b hb => isLineCtl_of_isBlank (hblanks b hb))
    · intro h
      generalize hcs : c :: s = x at h
      cases h with
      | folded hn hblank _ =>
        obtain ⟨rfl, -⟩ := List.cons.inj hcs
        exact absurd ⟨hn, hblank⟩ hfold
      | @named name u _ hne hname hline =>
        -- The blanks after the colon are in the line of the grammar, but not in the value.
        obtain ⟨blanks, d, v, rfl, hd, hblanks⟩ := hline.exists_blanks
        have hv := hline.of_append fun b hb => isLineCtl_of_isBlank (hblanks b hb)
        obtain ⟨value, hvalue⟩ := (exists_parse_value_iff sse42).mpr hv
        refine ⟨_, _, d :: v, (parse_name_eq_ok_iff sse42).mpr
          ⟨name, blanks, d, v, rfl, rfl, hd, hblanks, hne, hname, rfl⟩, value, t, hvalue, rfl⟩

theorem parse_headers_cons {n room : ℕ} {c : UInt8} (hcr : c ≠ 13) (hlf : c ≠ 10) :
    parse_headers sse42 n (room + 1) (c :: s) = do
      let (header, buf) ← parse_header sse42 n c s
      let (headers, buf) ← parse_headers sse42 (n + 1) room buf
      return (header :: headers, buf) := by
  rw [parse_headers, if_neg hcr, if_neg hlf]

theorem HeaderLine.head_ne {folds : Prop} (h : HeaderLine folds s t) :
    ∃ c u, s = c :: u ∧ c ≠ 13 ∧ c ≠ 10 := by
  cases h with
  | @folded c s _ _ hblank _ =>
    refine ⟨c, s, rfl, ?_, ?_⟩ <;> (rintro rfl; cases hblank)
  | @named name s _ hne hname _ =>
    obtain ⟨c, name, rfl⟩ := List.exists_cons_of_ne_nil hne
    obtain ⟨-, hlf, hcr, -⟩ := ne_of_token (hname c List.mem_cons_self)
    exact ⟨c, _, rfl, hcr, hlf⟩

/-- The empty line after the headers. -/
theorem parse_headers_of_lineEnd {n room : ℕ} (h : LineEnd s t) :
    parse_headers sse42 n room s = .ok ([], t) := by
  cases room <;> cases h <;> rfl

/-- The header parser ends at an empty line or reads a header. -/
theorem parse_headers_cases {n room : ℕ} {headers : List PhrHeader}
    (h : parse_headers sse42 n room s = .ok (headers, t)) : LineEnd s t ∨
      ∃ room' c u header v headers', room = room' + 1 ∧ s = c :: u ∧
        parse_header sse42 n c u = .ok (header, v) ∧
        parse_headers sse42 (n + 1) room' v = .ok (headers', t) := by
  cases s with
  | nil => cases room <;> cases h
  | cons c s =>
    by_cases hcr : c = 13
    · subst hcr
      have h' : (do let buf ← EXPECT_CHAR 10 s; return (([] : List PhrHeader), buf)) =
          Except.ok (headers, t) := by
        cases room <;> exact h
      obtain ⟨u, hu, hret⟩ := bind_eq_ok_iff.mp h'
      cases hret
      rw [EXPECT_CHAR_eq_ok_iff.mp hu]
      exact .inl (.crlf t)
    · by_cases hlf : c = 10
      · subst hlf
        have h' : (Except.ok ([], s) : Except Halt _) = .ok (headers, t) := by
          cases room <;> exact h
        cases h'
        exact .inl (.lf t)
      · cases room with
        | zero =>
          rw [parse_headers, if_neg hcr, if_neg hlf] at h
          cases h
        | succ room =>
          rw [parse_headers_cons sse42 hcr hlf] at h
          simp only [bind_eq_ok_iff, Prod.exists] at h
          obtain ⟨header, v, hv, headers', t, ht, hret⟩ := h
          cases hret
          exact .inr ⟨room, c, s, header, v, headers', rfl, rfl, hv, ht⟩

/-- **The header parser accepts exactly the headers.** -/
theorem exists_parse_headers_iff {n room : ℕ} :
    (∃ headers, parse_headers sse42 n room s = .ok (headers, t)) ↔ Headers n room s t := by
  constructor
  · rintro ⟨headers, h⟩
    induction room generalizing s n headers with
    | zero =>
      rcases parse_headers_cases sse42 h with hend | ⟨room', -, -, -, -, -, hroom, -⟩
      · exact .done hend
      · cases hroom
    | succ room ih =>
      obtain hend | ⟨room', c, u, header, v, headers', hroom, rfl, hheader, hrest⟩ :=
        parse_headers_cases sse42 h
      · exact .done hend
      · cases hroom
        exact .more ((exists_parse_header_iff sse42).mp ⟨header, hheader⟩) (ih _ hrest)
  · intro h
    induction h with
    | done hend => exact ⟨[], parse_headers_of_lineEnd sse42 hend⟩
    | more hheader _ ih =>
      obtain ⟨headers, hrest⟩ := ih
      obtain ⟨c, u, rfl, hcr, hlf⟩ := hheader.head_ne
      obtain ⟨header, hheader⟩ := (exists_parse_header_iff sse42).mpr hheader
      rw [parse_headers_cons sse42 hcr hlf, hheader]
      refine ⟨header :: headers, ?_⟩
      change (parse_headers sse42 _ _ _ >>= fun r => .ok (header :: r.1, r.2)) = _
      rw [hrest]
      rfl

end Headers

/-! ## Requests -/

section Requests

variable {s t : Ptr} (sse42 : Bool)

theorem endLine_eq_ok_iff : endLine s = .ok t ↔ LineEnd s t := by
  constructor
  · intro h
    cases s with
    | nil => cases h
    | cons c s =>
      rw [endLine] at h
      split_ifs at h with hcr hlf
      · rw [hcr, EXPECT_CHAR_eq_ok_iff.mp h]
        exact .crlf t
      · cases h
        rw [hlf]
        exact .lf t
  · rintro (_ | _)
    · rfl
    · rfl

theorem skipEmptyLine_eq_ok_iff : skipEmptyLine s = .ok t ↔ EmptyLine s t := by
  constructor
  · intro h
    cases s with
    | nil => cases h
    | cons c s =>
      change (if c = 13 then EXPECT_CHAR 10 s else if c = 10 then .ok s else .ok (c :: s)) = _ at h
      split_ifs at h with hcr hlf
      · rw [hcr, EXPECT_CHAR_eq_ok_iff.mp h]
        exact .inl (.crlf t)
      · cases h
        rw [hlf]
        exact .inl (.lf t)
      · cases h
        exact .inr ⟨rfl, c, rfl, hcr, hlf⟩
  · rintro ((_ | _) | ⟨rfl, c, hc, hcr, hlf⟩)
    · rfl
    · rfl
    · obtain ⟨u, rfl⟩ := List.head?_eq_some_iff.mp hc
      change (if c = 13 then EXPECT_CHAR 10 u else if c = 10 then .ok u else .ok (c :: u)) = _
      rw [if_neg hcr, if_neg hlf]

/-- **The trimmed parser accepts exactly the requests.** -/
theorem Zzq.exists_parse_request_iff {max_headers : ℕ} :
    (∃ q, parse_request sse42 max_headers s = .ok (q, t)) ↔ IsRequest max_headers s t := by
  simp only [parse_request_eq_ok_iff, skipEmptyLine_eq_ok_iff, ADVANCE_TO_SPACE_eq_ok_iff,
    ADVANCE_TOKEN_eq_ok_iff, endLine_eq_ok_iff]
  constructor
  · rintro ⟨q, u, _, _, x, hs, ⟨method, v, rfl, rfl, hm⟩, ⟨path, w, hv, rfl, hpath, hq⟩, hne, hlen,
      hx, hheaders⟩
    obtain rfl : v = path ++ 32 :: w := hv
    rw [hq] at hne
    have hlen' : (w.take 8).length = 8 := by
      rw [List.drop_one, List.tail_cons] at hlen
      rw [List.length_take]
      omega
    rw [← List.take_append_drop 8 w] at hs
    exact .mk hs hm (List.length_eq_zero_iff.not.mp hne) hpath hlen' hx
      ((exists_parse_headers_iff sse42).mp ⟨q.headers, hheaders⟩)
  · rintro ⟨hs, hm, hne, hpath, hlen, hend, hheaders⟩
    rename_i t' u method path version
    obtain ⟨headers, hheaders⟩ := (exists_parse_headers_iff sse42).mpr hheaders
    have hlt := hend.length_lt
    refine ⟨⟨⟨_, path.length⟩, headers⟩, _, _, _, u, hs, ⟨method, _, rfl, rfl, hm⟩,
      ⟨path, version ++ t', rfl, rfl, hpath, rfl⟩, List.length_eq_zero_iff.not.mpr hne, ?_, ?_,
      hheaders⟩
    · rw [List.drop_one, List.tail_cons, List.length_append]
      omega
    · rw [List.drop_one, List.tail_cons, ← hlen, List.drop_left]
      exact hend

end Requests

/-! ## Texts with an empty line -/

section Complete

variable {s t : Ptr} {cnt : ℕ}

theorem completeFrom_of_lineEnd (h : LineEnd s t) :
    completeFrom cnt s = if cnt + 1 = 2 then .ok t else completeFrom (cnt + 1) t := by
  rw [completeFrom.eq_def]
  cases h with
  | lf => rfl
  | crlf => rfl

theorem completeFrom_cons {c : UInt8} (hcr : c ≠ 13) (hlf : c ≠ 10) :
    completeFrom cnt (c :: s) = completeFrom 0 s := by
  rw [completeFrom.eq_def]
  dsimp only
  rw [if_neg hcr, if_neg hlf]

theorem completeFrom_avoids : Avoids (completeFrom cnt s) .outOfBounds := by
  fun_induction completeFrom cnt s with
  | case1 => exact avoids_error (by decide)
  | case2 => exact avoids_error (by decide)
  | case3 => exact avoids_error (by decide)
  | case4 => exact avoids_ok _
  | case5 _ _ _ _ _ ih => exact ih
  | case6 => exact avoids_ok _
  | case7 _ _ _ _ ih => exact ih
  | case8 _ _ _ _ _ ih => exact ih

/-- A line end is the second of two in a row, or the search goes on after it. -/
theorem complete_of_lineEnd (hend : LineEnd s t)
    (hrest : cnt + 1 = 1 → (∃ u, LineEnd t u) ∨ Complete t) :
    (cnt = 0 → Complete s) ∧ (cnt = 1 → (∃ u, LineEnd s u) ∨ Complete s) := by
  refine ⟨fun hcnt => ?_, fun _ => .inl ⟨t, hend⟩⟩
  rcases hrest (by rw [hcnt]) with ⟨u, hu⟩ | hcomplete
  · exact .empty hend hu
  · exact .line hend hcomplete

theorem complete_of_completeFrom (h : completeFrom cnt s = .ok t) :
    (cnt = 0 → Complete s) ∧ (cnt = 1 → (∃ u, LineEnd s u) ∨ Complete s) := by
  fun_induction completeFrom cnt s with
  | case1 => cases h
  | case2 => cases h
  | case3 => cases h
  | case4 cnt d buf hd hsecond =>
    rw [not_not.mp hd]
    exact complete_of_lineEnd (.crlf buf) fun hcnt => by omega
  | case5 cnt d buf hd _ ih =>
    rw [not_not.mp hd]
    exact complete_of_lineEnd (.crlf buf) (ih h).2
  | case6 cnt buf hsecond => exact complete_of_lineEnd (.lf buf) fun hcnt => by omega
  | case7 cnt buf _ _ ih => exact complete_of_lineEnd (.lf buf) (ih h).2
  | case8 cnt c buf hcr hlf ih =>
    have hcomplete : Complete (c :: buf) := .char hcr hlf ((ih h).1 rfl)
    exact ⟨fun _ => hcomplete, fun _ => .inr hcomplete⟩

/-- An empty line is found whatever stands before it. -/
theorem exists_completeFrom_of_complete (h : Complete s) (hcnt : cnt ≤ 1) :
    ∃ t, completeFrom cnt s = .ok t := by
  induction h generalizing cnt with
  | @empty s t u hst htu =>
    rw [completeFrom_of_lineEnd hst]
    split_ifs with hsecond
    · exact ⟨t, rfl⟩
    · obtain rfl : cnt = 0 := by omega
      rw [completeFrom_of_lineEnd htu]
      exact ⟨u, rfl⟩
  | @line s t hst _ ih =>
    rw [completeFrom_of_lineEnd hst]
    split_ifs with hsecond
    · exact ⟨t, rfl⟩
    · exact ih (by omega)
  | char hcr hlf _ ih =>
    rw [completeFrom_cons hcr hlf]
    exact ih zero_le_one

theorem exists_completeFrom_iff : (∃ t, completeFrom 0 s = .ok t) ↔ Complete s := by
  constructor
  · rintro ⟨t, ht⟩
    exact (complete_of_completeFrom ht).1 rfl
  · intro h
    exact exists_completeFrom_of_complete h zero_le_one

end Complete

end CodingDemo.Dpdk.PicoHttp
