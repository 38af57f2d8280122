import CodingDemo.Dpdk.PicoHttp.Scan
import CodingDemo.Machine.IntT

/-!
# The request parser of picohttpparser and its trimmed version

The trimmed version of the benchmark has the same header parser, but it does not return the method
and the version. It goes to the first space without a look at the characters, and skips the eight
characters of the version.

## Main definitions

* `parse_headers`: the header parser of both
* `parse_request`, `phr_parse_request`: the request parser
* `Zzq.parse_request`, `Zzq.phr_parse_request`: the trimmed version

## Main results

* `parse_headers_eq`: the header parser does not depend on the build
* `Zzq.phr_parse_request_of_full`: the trimmed parser agrees with a parser that accepts
-/

namespace CodingDemo.Dpdk.PicoHttp

/-! ## Headers -/

structure PhrHeader where
  name : Option Ptr
  name_len : ℕ
  value : Ptr
  value_len : ℕ
  deriving DecidableEq

/-- The length without the spaces and tabs at the end. -/
def trimEnd (value : Ptr) : ℕ → Except Halt ℕ
  | 0 => .ok 0
  | n + 1 =>
    match value[n]? with
    | none => .error .outOfBounds
    | some c => if isBlank c then trimEnd value n else .ok (n + 1)

/-- The value of a header: the rest of the line without the blanks at its end. -/
def parse_value (sse42 : Bool) (buf : Ptr) : Except Halt (Slice × Ptr) := do
  let (value, buf) ← get_token_to_eol sse42 buf
  let value_len ← trimEnd value.start value.len
  return (⟨value.start, value_len⟩, buf)

/-- The name of a header and the blanks after its colon. -/
def parse_name (sse42 : Bool) (buf : Ptr) : Except Halt (Slice × Ptr) := do
  let name := buf
  let buf ← findAndAdvance sse42
    [(0, 32), (34, 34), (40, 41), (44, 44), (47, 47), (58, 64), (91, 93), (123, 255)] (· = 58)
    (fun c => !token_char_map c) buf
  let name_len := name.length - buf.length
  rejectIf (name_len = 0) .failed
  let buf ← scanFrom (fun c => !isBlank c) (buf.drop 1)
  return (⟨name, name_len⟩, buf)

/-- One round of the loop of `parse_headers`, after the checks for the end. -/
def parse_header (sse42 : Bool) (num_headers : ℕ) (c : UInt8) (buf : Ptr) :
    Except Halt (PhrHeader × Ptr) :=
  -- A line that starts with a blank goes on with the value of the last header.
  if num_headers ≠ 0 ∧ isBlank c then do
    let (value, buf) ← parse_value sse42 (c :: buf)
    return (⟨none, 0, value.start, value.len⟩, buf)
  else do
    let (name, buf) ← parse_name sse42 (c :: buf)
    let (value, buf) ← parse_value sse42 buf
    return (⟨name.start, name.len, value.start, value.len⟩, buf)

/-- The header parser; `room` is how many more headers there is room for. -/
def parse_headers (sse42 : Bool) (num_headers : ℕ) : ℕ → Ptr → Except Halt (List PhrHeader × Ptr)
  | _, [] => .error .incomplete
  | room, c :: buf =>
    -- An empty line ends the headers, also when there is room for more.
    if c = 13 then do
      let buf ← EXPECT_CHAR 10 buf
      return ([], buf)
    else if c = 10 then .ok ([], buf)
    else
      match room with
      | 0 => .error .failed
      | room + 1 => do
        let (header, buf) ← parse_header sse42 num_headers c buf
        let (headers, buf) ← parse_headers sse42 (num_headers + 1) room buf
        return (header :: headers, buf)

/-! ## Requests -/

/-- The first line is skipped if it is empty. -/
def skipEmptyLine (buf : Ptr) : Except Halt Ptr := do
  CHECK_EOF buf
  match buf with
  | [] => throw .outOfBounds
  | c :: buf =>
    if c = 13 then EXPECT_CHAR 10 buf
    else if c = 10 then return buf
    else return c :: buf

/-- The end of the request line. -/
def endLine : Ptr → Except Halt Ptr
  | [] => .error .outOfBounds
  | c :: buf => if c = 13 then EXPECT_CHAR 10 buf else if c = 10 then .ok buf else .error .failed

def PARSE_INT (mul : ℕ) : Ptr → Except Halt (ℕ × Ptr)
  | [] => .error .outOfBounds
  | c :: buf => if c < 48 || 57 < c then .error .failed else .ok (mul * (c.toNat - 48), buf)

def parse_http_version (buf : Ptr) : Except Halt (ℕ × Ptr) := do
  rejectIf (buf.length < 9) .incomplete
  let buf ← EXPECT_CHAR_NO_CHECK 72 buf
  let buf ← EXPECT_CHAR_NO_CHECK 84 buf
  let buf ← EXPECT_CHAR_NO_CHECK 84 buf
  let buf ← EXPECT_CHAR_NO_CHECK 80 buf
  let buf ← EXPECT_CHAR_NO_CHECK 47 buf
  let buf ← EXPECT_CHAR_NO_CHECK 49 buf
  let buf ← EXPECT_CHAR_NO_CHECK 46 buf
  PARSE_INT 1 buf

/-- What a request consists of. -/
structure Request where
  method : Slice
  path : Slice
  minor_version : ℕ
  headers : List PhrHeader
  deriving DecidableEq

def parse_request (sse42 : Bool) (max_headers : ℕ) (buf : Ptr) : Except Halt (Request × Ptr) := do
  let buf ← skipEmptyLine buf
  let (method, buf) ← ADVANCE_TOKEN sse42 buf
  let (path, buf) ← ADVANCE_TOKEN sse42 (buf.drop 1)
  rejectIf (method.len = 0 ∨ path.len = 0) .failed
  let (minor_version, buf) ← parse_http_version (buf.drop 1)
  let buf ← endLine buf
  let (headers, buf) ← parse_headers sse42 0 max_headers buf
  return (⟨method, path, minor_version, headers⟩, buf)

/-- The check with which an attacker cannot slow the parser down. -/
def checkComplete (buf : Ptr) (last_len : ℕ) : Except Halt Unit :=
  if last_len ≠ 0 then do
    let _ ← is_complete buf last_len
    return ()
  else return ()

/-- The result is the number of characters that were parsed, as an `int`. -/
def phr_parse_request (sse42 : Bool) (buf : Ptr) (max_headers last_len : ℕ) :
    Except Halt (ℤ × Request) := do
  checkComplete buf last_len
  let (request, rest) ← parse_request sse42 max_headers buf
  return (intT (buf.length - rest.length : ℕ), request)

namespace Zzq

/-- What the trimmed version returns of a request. -/
structure Request where
  path : Slice
  headers : List PhrHeader
  deriving DecidableEq

def parse_request (sse42 : Bool) (max_headers : ℕ) (buf : Ptr) : Except Halt (Request × Ptr) := do
  let buf ← skipEmptyLine buf
  let buf ← ADVANCE_TO_SPACE buf
  let (path, buf) ← ADVANCE_TOKEN sse42 (buf.drop 1)
  let buf := buf.drop 1
  rejectIf (path.len = 0) .failed
  rejectIf (buf.length < 9) .incomplete
  -- The version is skipped, whatever it is.
  let buf ← endLine (buf.drop 8)
  let (headers, buf) ← parse_headers sse42 0 max_headers buf
  return (⟨path, headers⟩, buf)

def phr_parse_request (sse42 : Bool) (buf : Ptr) (max_headers last_len : ℕ) :
    Except Halt (ℤ × Request) := do
  checkComplete buf last_len
  let (request, rest) ← parse_request sse42 max_headers buf
  return (intT (buf.length - rest.length : ℕ), request)

end Zzq

/-- What the trimmed version returns of a request. -/
def Request.trim (r : Request) : Zzq.Request := ⟨r.path, r.headers⟩

/-! ## The build changes nothing -/

section Build

variable {s t : Ptr} (sse42 : Bool)

/-- The ranges are those of the colon and of the characters that a name must not have, and some
more. -/
theorem inRanges_of_name (c : UInt8)
    (h : inRanges [(0, 32), (34, 34), (40, 41), (44, 44), (47, 47), (58, 64), (91, 93), (123, 255)]
      c = false) : decide (c = 58) = false ∧ (!token_char_map c) = false := by
  revert c
  exact forall_byte (by decide +kernel)

theorem parse_name_eq : parse_name sse42 s = parse_name false s := by
  rw [parse_name, parse_name, findAndAdvance_eq sse42 inRanges_of_name,
    findAndAdvance_eq false inRanges_of_name]

theorem parse_value_eq : parse_value sse42 s = parse_value false s := by
  rw [parse_value, parse_value, get_token_to_eol_eq sse42]

theorem parse_header_eq (num_headers : ℕ) (c : UInt8) :
    parse_header sse42 num_headers c s = parse_header false num_headers c s := by
  rw [parse_header, parse_header, parse_name_eq sse42]
  simp only [parse_value_eq sse42]

theorem parse_headers_eq (num_headers room : ℕ) :
    parse_headers sse42 num_headers room s = parse_headers false num_headers room s := by
  induction room generalizing s num_headers with
  | zero =>
    cases s with
    | nil => rfl
    | cons c s => rfl
  | succ room ih =>
    cases s with
    | nil => rfl
    | cons c s =>
      rw [parse_headers, parse_headers, parse_header_eq]
      simp only [ih]

theorem ADVANCE_TO_SPACE_of_ADVANCE_TOKEN {tok : Slice} (h : ADVANCE_TOKEN sse42 s = .ok (tok, t)) :
    ADVANCE_TO_SPACE s = .ok t := by
  obtain ⟨w, u, hs, ht, hw, -⟩ := (ADVANCE_TOKEN_eq_ok_iff sse42).mp h
  exact ADVANCE_TO_SPACE_eq_ok_iff.mpr ⟨w, u, hs, ht, fun hmem => (hw 32 hmem).1 rfl⟩

end Build

/-! ## The trimmed parser agrees -/

section Agrees

variable {sse42 : Bool} {s t buf : Ptr} {m n : ℕ}

theorem EXPECT_CHAR_NO_CHECK_eq_ok_iff {ch : UInt8} :
    EXPECT_CHAR_NO_CHECK ch s = .ok t ↔ s = ch :: t := by
  cases s with
  | nil => exact ⟨nofun, nofun⟩
  | cons c s =>
    rw [EXPECT_CHAR_NO_CHECK, List.cons.injEq]
    split_ifs with hc
    · exact ⟨nofun, fun h => absurd h.1 hc⟩
    · rw [Except.ok.injEq, and_iff_right (not_not.mp hc)]

/-- The version is skipped by the trimmed parser. -/
theorem drop_of_parse_http_version (h : parse_http_version s = .ok (m, t)) :
    9 ≤ s.length ∧ s.drop 8 = t := by
  simp only [parse_http_version, bind_eq_ok_iff, rejectIf_eq_ok_iff,
    EXPECT_CHAR_NO_CHECK_eq_ok_iff] at h
  obtain ⟨_, hlen, _, rfl, _, rfl, _, rfl, _, rfl, _, rfl, _, rfl, u, rfl, h⟩ := h
  refine ⟨not_lt.mp hlen, ?_⟩
  cases u with
  | nil => cases h
  | cons c u =>
    rw [PARSE_INT] at h
    split_ifs at h
    cases h
    rfl

/-- What the trimmed parser does when it accepts. -/
theorem Zzq.parse_request_eq_ok_iff {q : Request} :
    parse_request sse42 n s = .ok (q, t) ↔ ∃ u v w x, skipEmptyLine s = .ok u ∧
      ADVANCE_TO_SPACE u = .ok v ∧ ADVANCE_TOKEN sse42 (v.drop 1) = .ok (q.path, w) ∧
      q.path.len ≠ 0 ∧ 9 ≤ (w.drop 1).length ∧ endLine ((w.drop 1).drop 8) = .ok x ∧
      parse_headers sse42 0 n x = .ok (q.headers, t) := by
  simp only [parse_request, bind_eq_ok_iff, rejectIf_eq_ok_iff, Prod.exists]
  constructor
  · rintro ⟨u, hu, v, hv, path, w, hw, _, hlen, _, hshort, x, hx, headers, t, ht, h⟩
    cases h
    exact ⟨u, v, w, x, hu, hv, hw, hlen, not_lt.mp hshort, hx, ht⟩
  · rintro ⟨u, v, w, x, hu, hv, hw, hlen, hshort, hx, ht⟩
    exact ⟨u, hu, v, hv, _, w, hw, (), hlen, (), not_lt.mpr hshort, x, hx, _, t, ht, rfl⟩

theorem Zzq.parse_request_of_full {q : PicoHttp.Request}
    (h : PicoHttp.parse_request sse42 n s = .ok (q, t)) (sse42' : Bool) :
    parse_request sse42' n s = .ok (q.trim, t) := by
  simp only [PicoHttp.parse_request, bind_eq_ok_iff, rejectIf_eq_ok_iff, Prod.exists] at h
  obtain ⟨u, hu, method, v, hv, path, w, hw, _, hlen, version, x, hx, y, hy, headers, t, ht, h⟩ := h
  cases h
  obtain ⟨hlong, rfl⟩ := drop_of_parse_http_version hx
  refine parse_request_eq_ok_iff.mpr ⟨u, v, w, y, hu, ADVANCE_TO_SPACE_of_ADVANCE_TOKEN sse42 hv,
    ?_, fun hpath => hlen (.inr hpath), hlong, hy, ?_⟩
  -- The path and the headers are read by the same code, in another build.
  · rw [ADVANCE_TOKEN_eq, ← ADVANCE_TOKEN_eq sse42]
    exact hw
  · rw [parse_headers_eq, ← parse_headers_eq sse42]
    exact ht

/-- **The trimmed parser agrees**: when the full parser accepts a request, the trimmed one returns
the same number, the same path and the same headers. -/
theorem Zzq.phr_parse_request_of_full {max_headers last_len : ℕ} {r : ℤ} {q : PicoHttp.Request}
    (h : PicoHttp.phr_parse_request sse42 buf max_headers last_len = .ok (r, q)) (sse42' : Bool) :
    phr_parse_request sse42' buf max_headers last_len = .ok (r, q.trim) := by
  simp only [PicoHttp.phr_parse_request, bind_eq_ok_iff, Prod.exists] at h
  obtain ⟨_, hcomplete, q, rest, hq, h⟩ := h
  obtain ⟨rfl, rfl⟩ := Prod.mk.inj (Except.ok.inj h)
  simp only [phr_parse_request, bind_eq_ok_iff, Prod.exists]
  exact ⟨_, hcomplete, q.trim, rest, parse_request_of_full hq sse42', rfl⟩

/-- A request with one header. -/
theorem Zzq.phr_parse_request_of_full_get :
    let buf : Ptr := [71, 32, 47, 32, 72, 84, 84, 80, 47, 49, 46, 49, 10, 65, 58, 98, 10, 10]
    phr_parse_request true buf 1 0 =
      .ok (18, ⟨⟨buf.drop 2, 1⟩, [⟨some (buf.drop 13), 1, buf.drop 15, 1⟩]⟩) := by
  intro buf
  have h : PicoHttp.phr_parse_request false buf 1 0 =
      .ok (18, ⟨⟨buf, 1⟩, ⟨buf.drop 2, 1⟩, 1, [⟨some (buf.drop 13), 1, buf.drop 15, 1⟩]⟩) := by
    decide +kernel
  exact phr_parse_request_of_full h true

end Agrees

end CodingDemo.Dpdk.PicoHttp
