import CodingDemo.Dpdk.PicoHttp.Chunked

/-!
# The language of the chunked decoder

The bodies that the decoder accepts, as a grammar. The decoder is more tolerant than the format
asks for: any count of carriage returns stands before the end of a line, and what follows the digits
of a size is skipped.

## Main definitions

* `SizeLine`: the line with the size of a chunk
* `Trailer`: the lines behind the last chunk
* `ChunkedBody`: a body, with the data that it stands for

## Main results

* `session_complete_iff`: which bodies are decoded, and to which data
-/

namespace CodingDemo.Dpdk.PicoHttp

open ChunkedState

/-! ## The grammar -/

def hexValue (n : ℕ) (digits : List UInt8) : ℕ :=
  digits.foldl (fun n b => n * 16 + (decode_hex b).getD 0) n

/-- At most 16 digits, and anything behind them up to the end of the line. -/
structure SizeLine (n : ℕ) (digits ext : List UInt8) : Prop where
  isHex : ∀ b ∈ digits, decode_hex b ≠ none
  ne_nil : digits ≠ []
  length_le : digits.length ≤ 16
  value : hexValue 0 digits = n
  ext_head : ∀ b ∈ ext.head?, decode_hex b = none
  lf_notMem : 10 ∉ ext

/-- Lines that are not empty, and an empty one. -/
inductive Trailer : List UInt8 → Prop
  | last : Trailer [10]
  | cr {text : List UInt8} (h : Trailer text) : Trailer (13 :: text)
  | line {b : UInt8} {line text : List UInt8} (hcr : b ≠ 13) (hlf : b ≠ 10) (hline : 10 ∉ line)
      (h : Trailer text) : Trailer (b :: (line ++ 10 :: text))

/-- The text of a body, and its data. -/
inductive ChunkedBody (trailer : Bool) : List UInt8 → List UInt8 → Prop
  | last {digits ext text : List UInt8} (hline : SizeLine 0 digits ext)
      (htext : if trailer then Trailer text else text = []) :
      ChunkedBody trailer (digits ++ (ext ++ 10 :: text)) []
  | chunk {digits ext data text body : List UInt8} (k : ℕ)
      (hline : SizeLine data.length digits ext) (hne : data ≠ [])
      (h : ChunkedBody trailer text body) :
      ChunkedBody trailer
        (digits ++ (ext ++ 10 :: (data ++ (List.replicate k 13 ++ 10 :: text)))) (data ++ body)

namespace ChunkedDecoder

variable {d : ChunkedDecoder} {trailer : Bool} {left hex n : ℕ} {b : UInt8}
  {bytes digits ext text rest : List UInt8}

/-! ## The line with the size -/

theorem decode_hex_lt {v : ℕ} (h : decode_hex b = some v) : v < 16 := by
  have hlt := b.toNat_lt
  simp only [decode_hex, UInt8.le_iff_toNat_le] at h
  split_ifs at h with h₁ h₂ h₃
  · obtain rfl := Option.some.inj h
    have hle : b.toNat ≤ 57 := h₁.2
    omega
  · obtain rfl := Option.some.inj h
    have hle : b.toNat ≤ 70 := h₂.2
    omega
  · obtain rfl := Option.some.inj h
    have hle : b.toNat ≤ 102 := h₃.2
    omega

/-- Sixteen digits fit into a `size_t`. -/
theorem shift_lt {v : ℕ} (hleft : left < 16 ^ hex) (hhex : hex < 16) (hv : v < 16) :
    left * 16 + v < 16 ^ (hex + 1) ∧ (left * 16 + v) % 2 ^ 64 = left * 16 + v := by
  have hlt : left * 16 + v < 16 ^ (hex + 1) := by
    rw [Nat.pow_succ]
    omega
  have hle : 16 ^ (hex + 1) ≤ 16 ^ 16 := Nat.pow_le_pow_right (by decide) hhex
  exact ⟨hlt, Nat.mod_eq_of_lt (hlt.trans_le (hle.trans (by decide)))⟩

/-- What the end of the line with the size leads to. -/
def afterLine (trailer : Bool) (n : ℕ) (rest : List UInt8) : Fed :=
  if n = 0 then
    if trailer then
      feed { consume_trailer := true, _state := CHUNKED_IN_TRAILERS_LINE_HEAD } rest
    else
      { decoder := { _state := CHUNKED_IN_CHUNK_EXT }, out := [], rest := rest, ret := .complete }
  else
    feed { bytes_left_in_chunk := n, consume_trailer := trailer, _state := CHUNKED_IN_CHUNK_DATA }
      rest

theorem feed_ext (hext : 10 ∉ ext) (rest : List UInt8) :
    feed ⟨n, trailer, 0, CHUNKED_IN_CHUNK_EXT⟩ (ext ++ 10 :: rest) = afterLine trailer n rest := by
  induction ext with
  | nil =>
    rw [List.nil_append, feed, byte_ext rfl, ChunkedDecoder.ext, if_pos rfl, afterLine]
    by_cases hzero : n = 0
    · subst hzero
      cases trailer <;> rfl
    · simp only [if_neg hzero]
      rfl
  | cons b ext ih =>
    have hb : b ≠ 10 := fun heq => hext (heq ▸ List.mem_cons_self)
    rw [List.cons_append, feed, byte_ext rfl, ChunkedDecoder.ext, if_neg hb]
    exact ih fun hmem => hext (List.mem_cons_of_mem b hmem)

theorem feed_digits (hdigits : ∀ b ∈ digits, decode_hex b ≠ none) (hleft : left < 16 ^ hex)
    (hlen : hex + digits.length ≤ 16) (rest : List UInt8) :
    feed ⟨left, trailer, hex, CHUNKED_IN_CHUNK_SIZE⟩ (digits ++ rest) =
      feed ⟨hexValue left digits, trailer, hex + digits.length, CHUNKED_IN_CHUNK_SIZE⟩ rest := by
  induction digits generalizing left hex with
  | nil => rfl
  | cons b digits ih =>
    rw [List.length_cons] at hlen
    obtain ⟨hb, hdigits⟩ := List.forall_mem_cons.mp hdigits
    obtain ⟨v, hv⟩ := Option.ne_none_iff_exists'.mp hb
    obtain ⟨hlt, hmod⟩ := shift_lt hleft (by omega) (decode_hex_lt hv)
    have hne : hex ≠ 16 := by omega
    rw [List.cons_append, feed, byte]
    simp only [hv, if_neg hne, hmod]
    rw [Fed.prepend_nil, ih hdigits hlt (by omega), hexValue, hexValue, List.foldl_cons, hv,
      List.length_cons, Nat.add_assoc, Nat.add_comm 1]
    rfl

theorem feed_line (h : SizeLine n digits ext) (rest : List UInt8) :
    feed { consume_trailer := trailer } (digits ++ (ext ++ 10 :: rest)) =
      afterLine trailer n rest := by
  have hne : 0 + digits.length ≠ 0 := by
    rw [Nat.zero_add]
    exact fun hzero => h.ne_nil (List.length_eq_zero_iff.mp hzero)
  rw [feed_digits h.isHex Nat.one_pos (by rw [Nat.zero_add]; exact h.length_le), h.value]
  -- The byte behind the digits is looked at again in the next state.
  have hstop : ∀ b bytes, decode_hex b = none →
      feed ⟨n, trailer, 0 + digits.length, CHUNKED_IN_CHUNK_SIZE⟩ (b :: bytes) =
        feed ⟨n, trailer, 0, CHUNKED_IN_CHUNK_EXT⟩ (b :: bytes) := fun b bytes hb => by
    rw [feed, feed, byte, byte_ext rfl]
    simp only [hb, if_neg hne]
  rw [← feed_ext h.lf_notMem]
  cases hext : ext with
  | nil => exact hstop 10 rest (by decide)
  | cons b ext' => exact hstop b _ (h.ext_head b (by rw [hext]; rfl))

/-! ## A body is decoded -/

theorem feed_crlf (k : ℕ) (rest : List UInt8) :
    feed ⟨left, trailer, hex, CHUNKED_IN_CHUNK_CRLF⟩ (List.replicate k 13 ++ 10 :: rest) =
      feed ⟨left, trailer, hex, CHUNKED_IN_CHUNK_SIZE⟩ rest := by
  induction k with
  | zero => rfl
  | succ k ih =>
    rw [List.replicate_succ, List.cons_append, feed, byte_crlf rfl, if_pos rfl]
    exact ih

theorem feed_trailerMiddle {line : List UInt8} (hline : 10 ∉ line) (rest : List UInt8) :
    feed ⟨left, trailer, hex, CHUNKED_IN_TRAILERS_LINE_MIDDLE⟩ (line ++ 10 :: rest) =
      feed ⟨left, trailer, hex, CHUNKED_IN_TRAILERS_LINE_HEAD⟩ rest := by
  induction line with
  | nil => rfl
  | cons b line ih =>
    have hb : b ≠ 10 := fun heq => hline (heq ▸ List.mem_cons_self)
    rw [List.cons_append, feed, byte_trailerMiddle rfl, if_neg hb]
    exact ih fun hmem => hline (List.mem_cons_of_mem b hmem)

theorem feed_trailer (h : Trailer text) (rest : List UInt8) :
    feed ⟨left, trailer, hex, CHUNKED_IN_TRAILERS_LINE_HEAD⟩ (text ++ rest) =
      ⟨⟨left, trailer, hex, CHUNKED_IN_TRAILERS_LINE_HEAD⟩, [], rest, .complete⟩ := by
  induction h with
  | last => rfl
  | cr _ ih => exact ih
  | @line b line text hcr hlf hline _ ih =>
    rw [List.cons_append, feed, byte_trailerHead rfl, if_neg hcr, if_neg hlf, List.append_assoc,
      List.cons_append]
    exact (Fed.prepend_nil _).trans ((feed_trailerMiddle hline _).trans ih)

theorem feed_body {data : List UInt8} (h : ChunkedBody trailer text data) (rest : List UInt8) :
    ∃ d', feed { consume_trailer := trailer } (text ++ rest) = ⟨d', data, rest, .complete⟩ := by
  induction h with
  | @last digits ext text hline htext =>
    rw [List.append_assoc, List.append_assoc, List.cons_append, feed_line hline, afterLine,
      if_pos rfl]
    cases trailer with
    | true => exact ⟨_, feed_trailer htext rest⟩
    | false =>
      obtain rfl : text = [] := htext
      exact ⟨_, rfl⟩
  | @chunk digits ext data text body k hline hne _ ih =>
    obtain ⟨d', ih⟩ := ih
    have hpos : 0 < data.length := List.length_pos_iff.mpr hne
    have hassoc : digits ++ (ext ++ 10 :: (data ++ (List.replicate k 13 ++ 10 :: text))) ++ rest =
        digits ++ (ext ++ 10 :: (data ++ (List.replicate k 13 ++ 10 :: (text ++ rest)))) := by
      simp only [List.append_assoc, List.cons_append]
    refine ⟨d', ?_⟩
    rw [hassoc, feed_line hline, afterLine, if_neg hpos.ne',
      feed_data_end rfl hpos (by rw [List.length_append]; exact Nat.le_add_right _ _)]
    simp only [List.take_left, List.drop_left, feed_crlf]
    rw [ih]
    rfl

/-! ## What is decoded is a body -/

theorem ext_of_complete
    (h : (feed ⟨n, trailer, 0, CHUNKED_IN_CHUNK_EXT⟩ bytes).ret = .complete) :
    ∃ ext rest, bytes = ext ++ 10 :: rest ∧ 10 ∉ ext := by
  induction bytes with
  | nil => cases h
  | cons b bytes ih =>
    by_cases hb : b = 10
    · exact ⟨[], bytes, by rw [hb]; rfl, List.not_mem_nil⟩
    · rw [feed, byte_ext rfl, ext, if_neg hb] at h
      obtain ⟨ext, rest, rfl, hext⟩ := ih h
      refine ⟨b :: ext, rest, rfl, fun hmem => ?_⟩
      rcases List.mem_cons.mp hmem with hmem | hmem
      · exact hb hmem.symm
      · exact hext hmem

theorem line_of_complete
    (h : (feed ⟨left, trailer, hex, CHUNKED_IN_CHUNK_SIZE⟩ bytes).ret = .complete)
    (hhex : hex ≤ 16) :
    ∃ digits ext rest, bytes = digits ++ (ext ++ 10 :: rest) ∧
      (∀ b ∈ digits, decode_hex b ≠ none) ∧ (hex = 0 → digits ≠ []) ∧ hex + digits.length ≤ 16 ∧
      (∀ b ∈ ext.head?, decode_hex b = none) ∧ 10 ∉ ext := by
  induction bytes generalizing left hex with
  | nil => cases h
  | cons b bytes ih =>
    rw [feed, byte] at h
    cases hv : decode_hex b with
    | none =>
      simp only [hv] at h
      by_cases hzero : hex = 0
      · rw [if_pos hzero] at h
        cases h
      rw [if_neg hzero] at h
      have hdigits : ∀ b ∈ ([] : List UInt8), decode_hex b ≠ none :=
        fun _ hmem => absurd hmem List.not_mem_nil
      by_cases hb : b = 10
      · exact ⟨[], [], bytes, by rw [hb]; rfl, hdigits, fun h => absurd h hzero, hhex,
          fun _ hmem => (by cases hmem), List.not_mem_nil⟩
      · rw [ext, if_neg hb] at h
        obtain ⟨ext, rest, rfl, hext⟩ := ext_of_complete h
        refine ⟨[], b :: ext, rest, rfl, hdigits, fun h => absurd h hzero, hhex, ?_, ?_⟩
        · rintro _ ⟨⟩
          exact hv
        · intro hmem
          rcases List.mem_cons.mp hmem with hmem | hmem
          · exact hb hmem.symm
          · exact hext hmem
    | some v =>
      simp only [hv] at h
      by_cases hfull : hex = 16
      · rw [if_pos hfull] at h
        cases h
      rw [if_neg hfull] at h
      obtain ⟨digits, ext, rest, rfl, hdigits, -, hlen, hhead, hext⟩ := ih h (by omega)
      refine ⟨b :: digits, ext, rest, rfl, ?_, fun _ => List.cons_ne_nil _ _, ?_, hhead, hext⟩
      · rw [List.forall_mem_cons]
        exact ⟨by rw [hv]; exact Option.some_ne_none v, hdigits⟩
      · rw [List.length_cons]
        omega

theorem crlf_of_complete
    (h : (feed ⟨left, trailer, hex, CHUNKED_IN_CHUNK_CRLF⟩ bytes).ret = .complete) :
    ∃ k rest, bytes = List.replicate k 13 ++ 10 :: rest := by
  induction bytes with
  | nil => cases h
  | cons b bytes ih =>
    rw [feed, byte_crlf rfl] at h
    by_cases hcr : b = 13
    · rw [if_pos hcr] at h
      obtain ⟨k, rest, rfl⟩ := ih h
      exact ⟨k + 1, rest, by rw [hcr]; rfl⟩
    · by_cases hlf : b = 10
      · exact ⟨0, bytes, by rw [hlf]; rfl⟩
      · rw [if_neg hcr, if_neg hlf] at h
        cases h

/-- At the beginning of a line, and within one. -/
theorem trailer_of_complete :
    ((feed ⟨left, trailer, hex, CHUNKED_IN_TRAILERS_LINE_HEAD⟩ bytes).ret = .complete →
      ∃ text rest, bytes = text ++ rest ∧ Trailer text) ∧
    ((feed ⟨left, trailer, hex, CHUNKED_IN_TRAILERS_LINE_MIDDLE⟩ bytes).ret = .complete →
      ∃ line text rest, bytes = line ++ 10 :: (text ++ rest) ∧ 10 ∉ line ∧ Trailer text) := by
  induction bytes with
  | nil => exact ⟨fun h => (by cases h), fun h => (by cases h)⟩
  | cons b bytes ih =>
    refine ⟨fun h => ?_, fun h => ?_⟩
    · rw [feed, byte_trailerHead rfl] at h
      by_cases hcr : b = 13
      · rw [if_pos hcr] at h
        obtain ⟨text, rest, rfl, htext⟩ := ih.1 h
        exact ⟨13 :: text, rest, by rw [hcr]; rfl, htext.cr⟩
      · by_cases hlf : b = 10
        · exact ⟨[10], bytes, by rw [hlf]; rfl, .last⟩
        · rw [if_neg hcr, if_neg hlf] at h
          obtain ⟨line, text, rest, rfl, hline, htext⟩ := ih.2 h
          refine ⟨b :: (line ++ 10 :: text), rest, ?_, .line hcr hlf hline htext⟩
          simp only [List.cons_append, List.append_assoc]
    · rw [feed, byte_trailerMiddle rfl] at h
      by_cases hlf : b = 10
      · rw [if_pos hlf] at h
        obtain ⟨text, rest, rfl, htext⟩ := ih.1 h
        exact ⟨[], text, rest, by rw [hlf]; rfl, List.not_mem_nil, htext⟩
      · rw [if_neg hlf] at h
        obtain ⟨line, text, rest, rfl, hline, htext⟩ := ih.2 h
        refine ⟨b :: line, text, rest, rfl, fun hmem => ?_, htext⟩
        rcases List.mem_cons.mp hmem with hmem | hmem
        · exact hlf hmem.symm
        · exact hline hmem

theorem data_of_complete
    (h : (feed ⟨n, trailer, hex, CHUNKED_IN_CHUNK_DATA⟩ bytes).ret = .complete) :
    n ≤ bytes.length := by
  by_contra hlt
  rw [feed_data rfl le_rfl (not_le.mp hlt), List.drop_length] at h
  cases h

theorem body_of_complete (h : (feed { consume_trailer := trailer } bytes).ret = .complete) :
    ∃ text data rest, bytes = text ++ rest ∧ ChunkedBody trailer text data := by
  induction hlen : bytes.length using Nat.strong_induction_on generalizing bytes with
  | _ m ih =>
    obtain ⟨digits, ext, rest, rfl, hdigits, hne, hle, hhead, hext⟩ :=
      line_of_complete h (Nat.zero_le _)
    have hline : SizeLine (hexValue 0 digits) digits ext :=
      ⟨hdigits, hne rfl, by omega, rfl, hhead, hext⟩
    rw [feed_line hline, afterLine] at h
    by_cases hzero : hexValue 0 digits = 0
    · -- The last chunk.
      rw [if_pos hzero] at h
      rw [hzero] at hline
      cases trailer with
      | true =>
        obtain ⟨text, rest, rfl, htext⟩ := trailer_of_complete.1 h
        refine ⟨digits ++ (ext ++ 10 :: text), [], rest, ?_, .last hline htext⟩
        simp only [List.append_assoc, List.cons_append]
      | false =>
        refine ⟨digits ++ (ext ++ [10]), [], rest, ?_, .last hline rfl⟩
        simp only [List.append_assoc, List.cons_append, List.nil_append]
    · -- The data and the end of its line; what follows is a body by induction.
      rw [if_neg hzero] at h
      have hn := data_of_complete h
      rw [feed_data_end rfl (Nat.pos_of_ne_zero hzero) hn] at h
      obtain ⟨k, rest', hrest⟩ := crlf_of_complete h
      have h' : (feed { consume_trailer := trailer } rest').ret = .complete := by
        rw [← feed_crlf k, ← hrest]
        exact h
      have hsplit := List.take_append_drop (hexValue 0 digits) rest
      have hrest'' : rest.drop (hexValue 0 digits) = List.replicate k 13 ++ 10 :: rest' := hrest
      rw [hrest''] at hsplit
      have hshort : rest'.length < m := by
        rw [← hlen, ← hsplit]
        simp only [List.length_append, List.length_cons]
        omega
      obtain ⟨text, data, tail, rfl, hbody⟩ := ih _ hshort h' rfl
      have htake : (rest.take (hexValue 0 digits)).length = hexValue 0 digits :=
        List.length_take_of_le hn
      refine ⟨digits ++ (ext ++ 10 :: (rest.take (hexValue 0 digits) ++
        (List.replicate k 13 ++ 10 :: text))), rest.take (hexValue 0 digits) ++ data, tail, ?_,
        .chunk k (by rw [htake]; exact hline) ?_ hbody⟩
      · conv_lhs => rw [← hsplit]
        simp only [List.append_assoc, List.cons_append]
      · rw [← List.length_pos_iff, htake]
        exact Nat.pos_of_ne_zero hzero

end ChunkedDecoder

/-- **A body is decoded**, however it is cut into pieces, if and only if the bytes begin with one.
The decoded data is what the body stands for, and the bytes behind it are left. -/
theorem session_complete_iff (trailer : Bool) (bufs : List (List UInt8)) (data tail : List UInt8) :
    (∃ d, session { consume_trailer := trailer } bufs = ⟨d, data, .complete, tail⟩) ↔
      ∃ text, bufs.flatten = text ++ tail ∧ ChunkedBody trailer text data := by
  have hready : ChunkedDecoder.Ready { consume_trailer := trailer } := by
    rintro ⟨⟩
  rw [session_eq hready]
  constructor
  · rintro ⟨d, h⟩
    have hret : (ChunkedDecoder.feed { consume_trailer := trailer } bufs.flatten).ret =
        .complete := congrArg Session.ret h
    obtain ⟨text, data', rest, heq, hbody⟩ := ChunkedDecoder.body_of_complete hret
    obtain ⟨d', hfeed⟩ := ChunkedDecoder.feed_body hbody rest
    rw [heq, hfeed] at h
    obtain rfl : data' = data := congrArg Session.decoded h
    obtain rfl : rest = tail := congrArg Session.tail h
    exact ⟨text, heq, hbody⟩
  · rintro ⟨text, heq, hbody⟩
    obtain ⟨d', hfeed⟩ := ChunkedDecoder.feed_body hbody tail
    exact ⟨d', by rw [heq, hfeed]; rfl⟩

end CodingDemo.Dpdk.PicoHttp
