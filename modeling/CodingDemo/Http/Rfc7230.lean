import CodingDemo.Text.Ascii
import CodingDemo.Text.Decimal
import Mathlib.Data.List.DropRight

/-!
# Message framing of HTTP/1.1

A request begins with a request line and a header; the header fields tell how long the body is. A
`Transfer-Encoding` comes before a `Content-Length`; a request with neither has no body.

## Main definitions

* `Head`, `encodeHead`, `parseHead`: the request line with the header fields
* `Field.Valid`, `Head.Valid`: the grammar
* `framing`: how the body is transferred
* `parseChunks`, `parseBody`: the body, and the bytes after it

## Main results

* `parseHead_encodeHead`: a request line and header fields are read back
* `valid_of_parseHead`: what is read is grammatical
* `length_lt_of_parseChunks`: chunks take more bytes than their data
-/

namespace CodingDemo.Rfc7230

/-! ## Lines -/

def crlf : List UInt8 := [13, 10]

/-- The first line, and what follows it. -/
def cutLine : List UInt8 → Option (List UInt8 × List UInt8)
  | [] => none
  | b :: rest =>
    if b = 13 ∧ rest.head? = some 10 then some ([], rest.tail)
    else (cutLine rest).map fun cut => (b :: cut.1, cut.2)

/-- What stands before and after the first separator. -/
def cutAt (sep : UInt8) : List UInt8 → Option (List UInt8 × List UInt8)
  | [] => none
  | b :: rest =>
    if b = sep then some ([], rest) else (cutAt sep rest).map fun cut => (b :: cut.1, cut.2)

variable {sep : UInt8} {bytes line rest s l r : List UInt8}

theorem cutLine_append (h : 13 ∉ line) (rest : List UInt8) :
    cutLine (line ++ crlf ++ rest) = some (line, rest) := by
  induction line with
  | nil => rfl
  | cons b line ih =>
    obtain ⟨hb, hline⟩ := List.ne_and_not_mem_of_not_mem_cons h
    rw [List.cons_append, List.cons_append, cutLine, if_neg fun hcr => hb hcr.1.symm, ih hline]
    rfl

theorem append_of_cutLine (h : cutLine bytes = some (line, rest)) :
    bytes = line ++ crlf ++ rest := by
  induction bytes generalizing line with
  | nil => cases h
  | cons b bytes ih =>
    rw [cutLine] at h
    split_ifs at h with hcr
    · obtain ⟨rfl, rfl⟩ := Prod.mk.inj (Option.some.inj h)
      obtain ⟨rfl, hlf⟩ := hcr
      obtain ⟨tail, rfl⟩ := List.head?_eq_some_iff.mp hlf
      rfl
    · obtain ⟨⟨line', rest'⟩, hcut, heq⟩ := Option.map_eq_some_iff.mp h
      obtain ⟨rfl, rfl⟩ := Prod.mk.inj heq
      rw [ih hcut]
      rfl

theorem cutAt_append (h : sep ∉ l) (r : List UInt8) :
    cutAt sep (l ++ sep :: r) = some (l, r) := by
  induction l with
  | nil => exact if_pos rfl
  | cons b l ih =>
    obtain ⟨hb, hl⟩ := List.ne_and_not_mem_of_not_mem_cons h
    rw [List.cons_append, cutAt, if_neg hb.symm, ih hl]
    rfl

/-! ## Header fields -/

/-- A name and a value. -/
abbrev Field := List UInt8 × List UInt8

def isTchar (b : UInt8) : Bool :=
  isDigit b || (65 ≤ b && b ≤ 90) || (97 ≤ b && b ≤ 122) ||
    b ∈ ([33, 35, 36, 37, 38, 39, 42, 43, 45, 46, 94, 95, 96, 124, 126] : List UInt8)

/-- A visible byte. -/
def isVchar (b : UInt8) : Bool := 33 ≤ b && b != 127

def isSpace (b : UInt8) : Bool := b == 32 || b == 9

/-- White space around a value does not belong to it. -/
def trim (s : List UInt8) : List UInt8 := (s.dropWhile isSpace).rdropWhile isSpace

def isToken (s : List UInt8) : Bool := s != [] && s.all isTchar

structure Field.Valid (e : Field) : Prop where
  name : isToken e.1 = true
  value : e.2.all (fun b => isVchar b || isSpace b) = true
  trimmed : trim e.2 = e.2

def parseField (line : List UInt8) : Option Field :=
  match cutAt 58 line with
  | none => none
  | some (name, value) =>
    let value := trim value
    if isToken name && value.all (fun b => isVchar b || isSpace b) then some (name, value) else none

/-- The header fields until an empty line, and what follows it; there are less than `n`. -/
def parseFields : ℕ → List UInt8 → Option (List Field × List UInt8)
  | 0, _ => none
  | n + 1, bytes =>
    match cutLine bytes with
    | none => none
    | some (line, rest) =>
      if line = [] then some ([], rest)
      else
        match parseField line, parseFields n rest with
        | some e, some (fields, rest) => some (e :: fields, rest)
        | _, _ => none

def encodeField (e : Field) : List UInt8 := e.1 ++ [58, 32] ++ e.2 ++ crlf

theorem trim_trim (s : List UInt8) : trim (trim s) = trim s := by
  unfold trim
  have hprefix := List.rdropWhile_prefix isSpace (l := s.dropWhile isSpace)
  cases htrim : (s.dropWhile isSpace).rdropWhile isSpace with
  | nil => rfl
  | cons b t =>
    -- the first byte is the one that ended the white space before it
    have hb : isSpace b = false := by
      obtain ⟨rest, hrest⟩ := htrim ▸ hprefix
      have hnot := List.head?_dropWhile_not isSpace s
      rw [← hrest] at hnot
      exact hnot
    rw [List.dropWhile_cons_of_neg (by simp [hb]), ← htrim, List.rdropWhile_idempotent]

theorem trim_cons_space (s : List UInt8) : trim (32 :: s) = trim s := by
  unfold trim
  rw [List.dropWhile_cons_of_pos (by decide)]

theorem not_mem_of_all {p : UInt8 → Bool} {b : UInt8} (h : s.all p = true) (hb : p b = false) :
    b ∉ s := fun hmem => by
  rw [List.all_eq_true.mp h b hmem] at hb
  cases hb

theorem Field.Valid.not_mem_name {e : Field} (h : e.Valid) {b : UInt8} (hb : isTchar b = false) :
    b ∉ e.1 :=
  not_mem_of_all (Bool.and_eq_true_iff.mp h.name).2 hb

theorem parseField_append {e : Field} (h : e.Valid) :
    parseField (e.1 ++ [58, 32] ++ e.2) = some e := by
  have hcut : cutAt 58 (e.1 ++ [58, 32] ++ e.2) = some (e.1, 32 :: e.2) := by
    rw [List.append_assoc]
    exact cutAt_append (h.not_mem_name (by decide)) _
  simp only [parseField, hcut, trim_cons_space, h.trimmed, h.name, h.value, Bool.and_self, if_true]

theorem valid_of_parseField {e : Field} (h : parseField line = some e) : e.Valid := by
  simp only [parseField] at h
  split at h
  · cases h
  · next name value _ =>
    split_ifs at h with hvalid
    obtain rfl := Option.some.inj h
    obtain ⟨hname, hvalue⟩ := Bool.and_eq_true_iff.mp hvalid
    exact ⟨hname, hvalue, trim_trim value⟩

theorem valid_of_parseFields {n : ℕ} {fields : List Field}
    (h : parseFields n bytes = some (fields, rest)) : ∀ e ∈ fields, e.Valid := by
  induction n generalizing bytes fields with
  | zero => cases h
  | succ n ih =>
    rw [parseFields] at h
    split at h
    · cases h
    · next line rest' _ =>
      split_ifs at h with hnil
      · obtain ⟨rfl, -⟩ := Prod.mk.inj (Option.some.inj h)
        exact fun e he => absurd he List.not_mem_nil
      · split at h
        · next e fields' rest'' he hfields =>
          obtain ⟨rfl, rfl⟩ := Prod.mk.inj (Option.some.inj h)
          exact List.forall_mem_cons.mpr ⟨valid_of_parseField he, ih hfields⟩
        · cases h

/-- Header fields are read back. -/
theorem parseFields_encodeField {fields : List Field} (h : ∀ e ∈ fields, e.Valid) {n : ℕ}
    (hn : fields.length < n) (body : List UInt8) :
    parseFields n (fields.flatMap encodeField ++ crlf ++ body) = some (fields, body) := by
  induction fields generalizing n with
  | nil =>
    obtain ⟨n, rfl⟩ := Nat.exists_eq_add_one_of_ne_zero (Nat.ne_of_gt hn)
    rfl
  | cons e fields ih =>
    obtain ⟨he, hfields⟩ := List.forall_mem_cons.mp h
    obtain ⟨n, rfl⟩ := Nat.exists_eq_add_one_of_ne_zero (Nat.ne_zero_of_lt hn)
    have hline : 13 ∉ e.1 ++ [58, 32] ++ e.2 := by
      have hname := he.not_mem_name (b := 13) (by decide)
      have hvalue := not_mem_of_all (b := 13) he.value (by decide)
      simp [hname, hvalue]
    have hcut := cutLine_append hline (fields.flatMap encodeField ++ crlf ++ body)
    have hne : e.1 ++ [58, 32] ++ e.2 ≠ [] := by simp
    have hsplit : (e :: fields).flatMap encodeField ++ crlf ++ body =
        e.1 ++ [58, 32] ++ e.2 ++ crlf ++ (fields.flatMap encodeField ++ crlf ++ body) := by
      simp [encodeField]
    rw [parseFields, hsplit, hcut]
    simp only [if_neg hne, parseField_append he,
      ih hfields (Nat.lt_of_succ_lt_succ hn)]

/-! ## The request line -/

/-- A request without its body. -/
structure Head where
  method : List UInt8
  target : List UInt8
  version : List UInt8
  fields : List Field

/-- `HTTP/` with two digits and a dot. -/
def isVersion (s : List UInt8) : Bool :=
  s.take 5 == asciiBytes "HTTP/" &&
    match s.drop 5 with
    | [major, dot, minor] => isDigit major && dot == 46 && isDigit minor
    | _ => false

structure Head.Valid (head : Head) : Prop where
  method : isToken head.method = true
  target : head.target ≠ [] ∧ head.target.all isVchar = true
  version : isVersion head.version = true
  fields : ∀ e ∈ head.fields, e.Valid

def parseHead (bytes : List UInt8) : Option (Head × List UInt8) :=
  match cutLine bytes with
  | none => none
  | some (line, rest) =>
    match cutAt 32 line with
    | none => none
    | some (method, line) =>
      match cutAt 32 line with
      | none => none
      | some (target, version) =>
        if isToken method ∧ (target ≠ [] ∧ target.all isVchar) ∧ isVersion version then
          (parseFields rest.length rest).map fun (fields, rest) =>
            ({ method := method, target := target, version := version, fields := fields }, rest)
        else none

def encodeHead (head : Head) : List UInt8 :=
  head.method ++ [32] ++ head.target ++ [32] ++ head.version ++ crlf ++
    head.fields.flatMap encodeField ++ crlf

theorem valid_of_parseHead {head : Head} (h : parseHead bytes = some (head, rest)) :
    head.Valid := by
  unfold parseHead at h
  split at h
  · cases h
  split at h
  · cases h
  split at h
  · cases h
  split_ifs at h with hvalid
  obtain ⟨⟨fields, rest'⟩, hfields, heq⟩ := Option.map_eq_some_iff.mp h
  obtain ⟨rfl, rfl⟩ := Prod.mk.inj heq
  exact ⟨hvalid.1, hvalid.2.1, hvalid.2.2, valid_of_parseFields hfields⟩

theorem not_mem_of_isVersion (h : isVersion s = true) : 13 ∉ s := by
  obtain ⟨htake, hdrop⟩ := Bool.and_eq_true_iff.mp h
  split at hdrop
  · next major dot minor heq =>
    obtain ⟨hdigits, hminor⟩ := Bool.and_eq_true_iff.mp hdrop
    obtain ⟨hmajor, hdot⟩ := Bool.and_eq_true_iff.mp hdigits
    have hdigit : isDigit 13 = false := by decide
    rw [← List.take_append_drop 5 s, heq, beq_iff_eq.mp htake, beq_iff_eq.mp hdot]
    intro hmem
    rcases List.mem_append.mp hmem with hmem | hmem
    · exact absurd hmem (by decide)
    · rw [List.mem_cons, List.mem_cons, List.mem_singleton] at hmem
      rcases hmem with rfl | heq | rfl
      · rw [hmajor] at hdigit
        cases hdigit
      · exact absurd heq (by decide)
      · rw [hminor] at hdigit
        cases hdigit
  · cases hdrop

theorem length_le_length_flatMap (fields : List Field) :
    fields.length ≤ (fields.flatMap encodeField).length := by
  induction fields with
  | nil => exact le_rfl
  | cons e fields ih =>
    have hpos : 0 < (encodeField e).length := by simp [encodeField, crlf]
    rw [List.flatMap_cons, List.length_append, List.length_cons]
    omega

/-- A request line and header fields are read back, and what follows them is left. -/
theorem parseHead_encodeHead {head : Head} (h : head.Valid) (body : List UInt8) :
    parseHead (encodeHead head ++ body) = some (head, body) := by
  have hsplit : encodeHead head ++ body =
      (head.method ++ 32 :: (head.target ++ 32 :: head.version)) ++ crlf ++
        (head.fields.flatMap encodeField ++ crlf ++ body) := by
    simp [encodeHead]
  have hmethod {b : UInt8} (hb : isTchar b = false) : b ∉ head.method :=
    not_mem_of_all (Bool.and_eq_true_iff.mp h.method).2 hb
  have htarget {b : UInt8} (hb : isVchar b = false) : b ∉ head.target :=
    not_mem_of_all h.target.2 hb
  have hline : 13 ∉ head.method ++ 32 :: (head.target ++ 32 :: head.version) := by
    have hcr := not_mem_of_isVersion h.version
    simp [hmethod (b := 13) (by decide), htarget (b := 13) (by decide), hcr]
  have hfields : parseFields (head.fields.flatMap encodeField ++ crlf ++ body).length
      (head.fields.flatMap encodeField ++ crlf ++ body) = some (head.fields, body) := by
    apply parseFields_encodeField h.fields
    have hle := length_le_length_flatMap head.fields
    simp only [List.length_append, crlf, List.length_cons, List.length_nil]
    omega
  rw [hsplit, parseHead, cutLine_append hline]
  simp only [cutAt_append (hmethod (b := 32) (by decide)),
    cutAt_append (htarget (b := 32) (by decide)), hfields]
  rw [if_pos ⟨h.method, h.target, h.version⟩]
  rfl

/-! ## The body -/

/-- How long a body is. -/
inductive Framing
  | length (n : ℕ)
  | chunked

/-- Names are compared without regard to case. -/
def lower (s : List UInt8) : List UInt8 :=
  s.map fun b => if 65 ≤ b ∧ b ≤ 90 then b + 32 else b

def Field.isTransferEncoding (e : Field) : Bool := lower e.1 == asciiBytes "transfer-encoding"

def Field.isContentLength (e : Field) : Bool := lower e.1 == asciiBytes "content-length"

/-- The last of the transfer codings. -/
def finalCoding (value : List UInt8) : List UInt8 := lower (trim (value.rtakeWhile (· ≠ 44)))

/-- The `Content-Length`; if there are several, they are the same. -/
def contentLength : List (List UInt8) → Option ℕ
  | [] => some 0
  | value :: values =>
    if value ≠ [] ∧ value.all isDigit ∧ ∀ v ∈ values, v = value then some (decimalValue value)
    else none

def framing (fields : List Field) : Option Framing :=
  match (fields.filter Field.isTransferEncoding).getLast? with
  | some e => if finalCoding e.2 = asciiBytes "chunked" then some .chunked else none
  | none => (contentLength ((fields.filter Field.isContentLength).map Prod.snd)).map Framing.length

def hexDigit (b : UInt8) : Option ℕ :=
  if isDigit b then some (b.toNat - 48)
  else if 65 ≤ b ∧ b ≤ 70 then some (b.toNat - 55)
  else if 97 ≤ b ∧ b ≤ 102 then some (b.toNat - 87)
  else none

/-- The size of a chunk stands before its extensions. -/
def chunkSize (line : List UInt8) : Option ℕ :=
  let digits := line.takeWhile (· ≠ 59)
  if digits = [] then none
  else (digits.mapM hexDigit).map fun ds => ds.foldl (fun n d => 16 * n + d) 0

/-- The data of the chunks, the trailer, and what follows it. -/
def parseChunks : ℕ → List UInt8 → Option (List UInt8 × List Field × List UInt8)
  | 0, _ => none
  | n + 1, bytes =>
    match cutLine bytes with
    | none => none
    | some (line, rest) =>
      match chunkSize line with
      | none => none
      | some 0 => (parseFields rest.length rest).map fun (trailer, rest) => ([], trailer, rest)
      | some size =>
        if (rest.drop size).take 2 = crlf then
          (parseChunks n (rest.drop (size + 2))).map fun (data, trailer, rest') =>
            (rest.take size ++ data, trailer, rest')
        else none

def parseBody : Framing → List UInt8 → Option (List UInt8 × List Field × List UInt8)
  | .length n, bytes => if n ≤ bytes.length then some (bytes.take n, [], bytes.drop n) else none
  | .chunked, bytes => parseChunks bytes.length bytes

theorem valid_of_parseChunks {n : ℕ} {data : List UInt8} {trailer : List Field}
    (h : parseChunks n bytes = some (data, trailer, rest)) : ∀ e ∈ trailer, e.Valid := by
  induction n generalizing bytes data with
  | zero => cases h
  | succ n ih =>
    rw [parseChunks] at h
    split at h
    · cases h
    split at h
    · cases h
    · obtain ⟨⟨trailer', rest'⟩, hfields, heq⟩ := Option.map_eq_some_iff.mp h
      obtain ⟨-, htail⟩ := Prod.mk.inj heq
      obtain ⟨rfl, -⟩ := Prod.mk.inj htail
      exact valid_of_parseFields hfields
    · split_ifs at h with hend
      obtain ⟨⟨data', trailer', rest'⟩, hchunks, heq⟩ := Option.map_eq_some_iff.mp h
      obtain ⟨-, htail⟩ := Prod.mk.inj heq
      obtain ⟨rfl, rfl⟩ := Prod.mk.inj htail
      exact ih hchunks

/-- Chunks take more bytes than their data. -/
theorem length_lt_of_parseChunks {n : ℕ} {data : List UInt8} {trailer : List Field}
    (h : parseChunks n bytes = some (data, trailer, rest)) : data.length < bytes.length := by
  induction n generalizing bytes data with
  | zero => cases h
  | succ n ih =>
    rw [parseChunks] at h
    split at h
    · cases h
    next line rest' hcut =>
    have hbytes := congrArg List.length (append_of_cutLine hcut)
    simp only [List.length_append, crlf, List.length_cons, List.length_nil] at hbytes
    split at h
    · cases h
    · obtain ⟨⟨trailer', rest''⟩, -, heq⟩ := Option.map_eq_some_iff.mp h
      obtain ⟨rfl, -⟩ := Prod.mk.inj heq
      rw [List.length_nil]
      omega
    · next size _ _ =>
      split_ifs at h with hend
      obtain ⟨⟨data', trailer', rest''⟩, hchunks, heq⟩ := Option.map_eq_some_iff.mp h
      obtain ⟨hdata, htail⟩ := Prod.mk.inj heq
      obtain ⟨rfl, rfl⟩ := Prod.mk.inj htail
      have hlt := ih hchunks
      rw [← hdata]
      simp only [List.length_append, List.length_take, List.length_drop] at hlt ⊢
      omega

/-- A body of a known length has no trailer. -/
theorem parseBody_length {n : ℕ} {data : List UInt8} {trailer : List Field}
    (h : parseBody (.length n) bytes = some (data, trailer, rest)) :
    data.length = n ∧ trailer = [] := by
  simp only [parseBody] at h
  split_ifs at h with hn
  obtain ⟨rfl, htail⟩ := Prod.mk.inj (Option.some.inj h)
  exact ⟨List.length_take_of_le hn, (Prod.mk.inj htail).1.symm⟩

theorem valid_of_parseBody {kind : Framing} {data : List UInt8} {trailer : List Field}
    (h : parseBody kind bytes = some (data, trailer, rest)) : ∀ e ∈ trailer, e.Valid := by
  cases kind with
  | length n =>
    rw [(parseBody_length h).2]
    exact fun e he => absurd he List.not_mem_nil
  | chunked => exact valid_of_parseChunks h

/-- A transfer coding comes before any length. -/
theorem framing_of_isTransferEncoding {fields : List Field} {kind : Framing} {e : Field}
    (he : e ∈ fields) (hcoding : e.isTransferEncoding = true)
    (h : framing fields = some kind) : kind = .chunked := by
  have hmem : e ∈ fields.filter Field.isTransferEncoding := List.mem_filter.mpr ⟨he, hcoding⟩
  have hne := List.ne_nil_of_mem hmem
  rw [framing, List.getLast?_eq_some_getLast hne] at h
  dsimp only at h
  split_ifs at h
  exact (Option.some.inj h).symm

theorem framing_of_no_transferEncoding {fields : List Field}
    (h : ∀ e ∈ fields, e.isTransferEncoding = false) : framing fields =
      (contentLength ((fields.filter Field.isContentLength).map Prod.snd)).map Framing.length := by
  have hnil : fields.filter Field.isTransferEncoding = [] :=
    List.filter_eq_nil_iff.mpr fun e he => by simp [h e he]
  rw [framing, hnil]
  rfl

/-- All the values are the same, so it does not matter how often one is there. -/
theorem contentLength_eq_some {values : List (List UInt8)} {n : ℕ} :
    contentLength values = some n ↔ values = [] ∧ n = 0 ∨ ∃ value, values ≠ [] ∧
      (∀ v ∈ values, v = value) ∧ value ≠ [] ∧ value.all isDigit = true ∧
        decimalValue value = n := by
  cases values with
  | nil =>
    constructor
    · intro h
      exact .inl ⟨rfl, (Option.some.inj h).symm⟩
    · rintro (⟨-, rfl⟩ | ⟨value, hne, -⟩)
      · rfl
      · exact absurd rfl hne
  | cons value values =>
    rw [contentLength]
    constructor
    · intro h
      split_ifs at h with hvalue
      exact .inr ⟨value, List.cons_ne_nil _ _, List.forall_mem_cons.mpr ⟨rfl, hvalue.2.2⟩,
        hvalue.1, hvalue.2.1, Option.some.inj h⟩
    · rintro (⟨hnil, -⟩ | ⟨value', -, hall, hne, hdigits, hn⟩)
      · cases hnil
      · obtain ⟨rfl, hvalues⟩ := List.forall_mem_cons.mp hall
        rw [if_pos ⟨hne, hdigits, hvalues⟩, hn]

/-- Fields that are left out do not change the length, as long as each name stays. -/
theorem framing_of_subset {fields fields' : List Field} {kind : Framing}
    (hno : ∀ e ∈ fields, e.isTransferEncoding = false) (hsub : fields' ⊆ fields)
    (hnames : ∀ e ∈ fields, ∃ e' ∈ fields', e'.1 = e.1) (h : framing fields = some kind) :
    framing fields' = some kind := by
  rw [framing_of_no_transferEncoding hno] at h
  rw [framing_of_no_transferEncoding fun e he => hno e (hsub he)]
  obtain ⟨n, hlength, rfl⟩ := Option.map_eq_some_iff.mp h
  refine Option.map_eq_some_iff.mpr ⟨n, contentLength_eq_some.mpr ?_, rfl⟩
  rcases contentLength_eq_some.mp hlength with ⟨hnil, rfl⟩ | ⟨value, hne, hall, hvalue⟩
  · refine .inl ⟨List.map_eq_nil_iff.mpr (List.filter_eq_nil_iff.mpr fun e he => ?_), rfl⟩
    exact List.filter_eq_nil_iff.mp (List.map_eq_nil_iff.mp hnil) e (hsub he)
  · refine .inr ⟨value, fun hnil => hne ?_, fun v hv => ?_, hvalue⟩
    · refine List.map_eq_nil_iff.mpr (List.filter_eq_nil_iff.mpr fun e he hlen => ?_)
      obtain ⟨e', he', hname⟩ := hnames e he
      refine List.filter_eq_nil_iff.mp (List.map_eq_nil_iff.mp hnil) e' he' ?_
      rwa [Field.isContentLength, hname]
    · obtain ⟨e, he, rfl⟩ := List.mem_map.mp hv
      obtain ⟨hmem, hlen⟩ := List.mem_filter.mp he
      exact hall e.2 (List.mem_map.mpr ⟨e, List.mem_filter.mpr ⟨hsub hmem, hlen⟩, rfl⟩)

end CodingDemo.Rfc7230
