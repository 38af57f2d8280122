import CodingDemo.Container.Slice
import Mathlib.Algebra.Group.Nat.Defs

/-!
# The decoder of chunked bodies

`phr_decode_chunked` decodes a body in the buffer that holds it. It is called for each piece of the
body that arrives, and keeps in the decoder how far it has come.

## Main definitions

* `ChunkedDecoder`: what is kept between two calls
* `phr_decode_chunked`: one call
* `ChunkedDecoder.feed`: the decoder as an automaton on single bytes
* `session`: the calls for the pieces of a body

## Main results

* `Chunked.Inside.follows_turn`: a turn of the loop is what the automaton does
* `decodes_phr_decode_chunked`: so is a call
* `session_flatten`: how a body is cut into pieces does not matter
-/

namespace CodingDemo.Dpdk.PicoHttp

/-! ## The decoder -/

inductive ChunkedState
  | CHUNKED_IN_CHUNK_SIZE
  | CHUNKED_IN_CHUNK_EXT
  | CHUNKED_IN_CHUNK_DATA
  | CHUNKED_IN_CHUNK_CRLF
  | CHUNKED_IN_TRAILERS_LINE_HEAD
  | CHUNKED_IN_TRAILERS_LINE_MIDDLE
  deriving DecidableEq

open ChunkedState

/-- The default values are those of a decoder that is filled with zeros. -/
structure ChunkedDecoder where
  /-- Of type `size_t`. -/
  bytes_left_in_chunk : ℕ := 0
  consume_trailer : Bool := false
  _hex_count : ℕ := 0
  _state : ChunkedState := CHUNKED_IN_CHUNK_SIZE
  deriving DecidableEq

def decode_hex (ch : UInt8) : Option ℕ :=
  if 48 ≤ ch ∧ ch ≤ 57 then some (ch.toNat - 48)
  else if 65 ≤ ch ∧ ch ≤ 70 then some (ch.toNat - 65 + 10)
  else if 97 ≤ ch ∧ ch ≤ 102 then some (ch.toNat - 97 + 10)
  else none

/-- How a call ends. -/
inductive Ret
  | complete
  | failed
  | incomplete
  deriving DecidableEq

/-- `memmove(buf + dst, buf + src, n)` -/
def memmove (buf : List UInt8) (dst src n : ℕ) : List UInt8 :=
  overwrite buf dst ((buf.drop src).take n)

/-- A call that is under way. -/
structure Chunked where
  decoder : ChunkedDecoder
  buf : List UInt8
  dst : ℕ
  src : ℕ

/-- A turn of the `while` loop. -/
inductive Turn
  | exit (ret : Ret) (c : Chunked)
  | again (c : Chunked)

/-- The digits, with the count of bytes that have been read. -/
def scanSize (d : ChunkedDecoder) : List UInt8 → ChunkedDecoder × ℕ × Option Ret
  | [] => (d, 0, some .incomplete)
  | b :: bytes =>
    match decode_hex b with
    | none => (d, 0, if d._hex_count = 0 then some .failed else none)
    | some v =>
      if d._hex_count = 16 then (d, 0, some .failed)
      else
        let r := scanSize { d with
          bytes_left_in_chunk := (d.bytes_left_in_chunk * 16 + v) % 2 ^ 64
          _hex_count := d._hex_count + 1 } bytes
        (r.1, r.2.1 + 1, r.2.2)

namespace Chunked

/-- The bytes that have not been read. -/
def rest (c : Chunked) : List UInt8 := c.buf.drop c.src

/-- The next `n` bytes are kept. -/
def move (c : Chunked) (n : ℕ) : Chunked :=
  { c with
    buf := if c.dst ≠ c.src then memmove c.buf c.dst c.src n else c.buf
    dst := c.dst + n
    src := c.src + n }

def setState (c : Chunked) (state : ChunkedState) : Chunked :=
  { c with decoder := { c.decoder with _state := state } }

def setLeft (c : Chunked) (left : ℕ) : Chunked :=
  { c with decoder := { c.decoder with bytes_left_in_chunk := left } }

def skip (c : Chunked) (n : ℕ) : Chunked := { c with src := c.src + n }

def inCrlf (c : Chunked) : Turn :=
  match c.rest.findIdx? (· ≠ 13) with
  | none => .exit .incomplete (c.skip c.rest.length)
  | some n =>
    let c := c.skip n
    if c.rest.head? ≠ some 10 then .exit .failed c
    else .again ((c.skip 1).setState CHUNKED_IN_CHUNK_SIZE)

def inData (c : Chunked) : Turn :=
  let avail := c.buf.length - c.src
  let left := c.decoder.bytes_left_in_chunk
  if avail < left then .exit .incomplete ((c.move avail).setLeft (left - avail))
  else inCrlf (((c.move left).setLeft 0).setState CHUNKED_IN_CHUNK_CRLF)

def inExt (c : Chunked) : Turn :=
  match c.rest.findIdx? (· = 10) with
  | none => .exit .incomplete (c.skip c.rest.length)
  | some n =>
    let c := c.skip (n + 1)
    if c.decoder.bytes_left_in_chunk = 0 then
      if c.decoder.consume_trailer then .again (c.setState CHUNKED_IN_TRAILERS_LINE_HEAD)
      else .exit .complete c
    else inData (c.setState CHUNKED_IN_CHUNK_DATA)

def inSize (c : Chunked) : Turn :=
  match scanSize c.decoder c.rest with
  | (d, n, some ret) => .exit ret { c.skip n with decoder := d }
  | (d, n, none) =>
    inExt { c.skip n with decoder := { d with _hex_count := 0, _state := CHUNKED_IN_CHUNK_EXT } }

def inTrailerMiddle (c : Chunked) : Turn :=
  match c.rest.findIdx? (· = 10) with
  | none => .exit .incomplete (c.skip c.rest.length)
  | some n => .again ((c.skip (n + 1)).setState CHUNKED_IN_TRAILERS_LINE_HEAD)

def inTrailerHead (c : Chunked) : Turn :=
  match c.rest.findIdx? (· ≠ 13) with
  | none => .exit .incomplete (c.skip c.rest.length)
  | some n =>
    let c := c.skip n
    if c.rest.head? = some 10 then .exit .complete (c.skip 1)
    else inTrailerMiddle ((c.skip 1).setState CHUNKED_IN_TRAILERS_LINE_MIDDLE)

def turn (c : Chunked) : Turn :=
  match c.decoder._state with
  | CHUNKED_IN_CHUNK_SIZE => c.inSize
  | CHUNKED_IN_CHUNK_EXT => c.inExt
  | CHUNKED_IN_CHUNK_DATA => c.inData
  | CHUNKED_IN_CHUNK_CRLF => c.inCrlf
  | CHUNKED_IN_TRAILERS_LINE_HEAD => c.inTrailerHead
  | CHUNKED_IN_TRAILERS_LINE_MIDDLE => c.inTrailerMiddle

/-- Each turn reads a byte, so `fuel` is enough if it is more than the bytes. -/
def loop : ℕ → Chunked → Ret × Chunked
  | 0, c => (.incomplete, c)
  | fuel + 1, c =>
    match c.turn with
    | .exit ret c => (ret, c)
    | .again c => loop fuel c

end Chunked

/-- What a call leaves behind. -/
structure DecodeResult where
  decoder : ChunkedDecoder
  buf : List UInt8
  /-- The length of the decoded data. -/
  bufsz : ℕ
  ret : ℤ

def phr_decode_chunked (decoder : ChunkedDecoder) (buf : List UInt8) : DecodeResult :=
  let (ret, c) := Chunked.loop (buf.length + 1)
    { decoder := decoder, buf := buf, dst := 0, src := 0 }
  { decoder := c.decoder
    buf := if c.dst ≠ c.src then memmove c.buf c.dst c.src (buf.length - c.src) else c.buf
    bufsz := c.dst
    ret := match ret with
      | .complete => buf.length - c.src
      | .failed => -1
      | .incomplete => -2 }

/-! ## The automaton -/

/-- What a byte does. -/
inductive Move
  | more (d : ChunkedDecoder) (out : List UInt8)
  | complete (d : ChunkedDecoder)
  /-- The byte is not read. -/
  | failed (d : ChunkedDecoder)

/-- What some bytes do. -/
structure Fed where
  decoder : ChunkedDecoder
  out : List UInt8
  rest : List UInt8
  ret : Ret

def Fed.prepend (out : List UInt8) (f : Fed) : Fed := { f with out := out ++ f.out }

namespace ChunkedDecoder

def ext (d : ChunkedDecoder) (b : UInt8) : Move :=
  if b = 10 then
    if d.bytes_left_in_chunk = 0 then
      if d.consume_trailer then .more { d with _state := CHUNKED_IN_TRAILERS_LINE_HEAD } []
      else .complete d
    else .more { d with _state := CHUNKED_IN_CHUNK_DATA } []
  else .more d []

def byte (d : ChunkedDecoder) (b : UInt8) : Move :=
  match d._state with
  | CHUNKED_IN_CHUNK_SIZE =>
    match decode_hex b with
    | none =>
      if d._hex_count = 0 then .failed d
      else ext { d with _hex_count := 0, _state := CHUNKED_IN_CHUNK_EXT } b
    | some v =>
      if d._hex_count = 16 then .failed d
      else .more { d with
        bytes_left_in_chunk := (d.bytes_left_in_chunk * 16 + v) % 2 ^ 64
        _hex_count := d._hex_count + 1 } []
  | CHUNKED_IN_CHUNK_EXT => ext d b
  | CHUNKED_IN_CHUNK_DATA =>
    .more { d with
      bytes_left_in_chunk := d.bytes_left_in_chunk - 1
      _state := if d.bytes_left_in_chunk = 1 then CHUNKED_IN_CHUNK_CRLF
        else CHUNKED_IN_CHUNK_DATA } [b]
  | CHUNKED_IN_CHUNK_CRLF =>
    if b = 13 then .more d []
    else if b = 10 then .more { d with _state := CHUNKED_IN_CHUNK_SIZE } []
    else .failed d
  | CHUNKED_IN_TRAILERS_LINE_HEAD =>
    if b = 13 then .more d []
    else if b = 10 then .complete d
    else .more { d with _state := CHUNKED_IN_TRAILERS_LINE_MIDDLE } []
  | CHUNKED_IN_TRAILERS_LINE_MIDDLE =>
    if b = 10 then .more { d with _state := CHUNKED_IN_TRAILERS_LINE_HEAD } []
    else .more d []

def feed (d : ChunkedDecoder) : List UInt8 → Fed
  | [] => { decoder := d, out := [], rest := [], ret := .incomplete }
  | b :: bytes =>
    match d.byte b with
    | .more d' out => (feed d' bytes).prepend out
    | .complete d' => { decoder := d', out := [], rest := bytes, ret := .complete }
    | .failed d' => { decoder := d', out := [], rest := b :: bytes, ret := .failed }

/-- In the data of a chunk, some of it is left. -/
def Ready (d : ChunkedDecoder) : Prop :=
  d._state = CHUNKED_IN_CHUNK_DATA → 0 < d.bytes_left_in_chunk

end ChunkedDecoder

variable {d : ChunkedDecoder} {c c' c'' : Chunked} {t : Turn} {n : ℕ} {b : UInt8}
  {buf bytes out out' : List UInt8}

/-! ## The buffer -/

theorem take_memmove {dst src : ℕ} (hle : dst ≤ src) (hn : src + n ≤ buf.length) :
    (memmove buf dst src n).take (dst + n) = buf.take dst ++ (buf.drop src).take n := by
  have hlen : (buf.take dst ++ (buf.drop src).take n).length = dst + n := by
    simp only [List.length_append, List.length_take, List.length_drop]
    omega
  rw [memmove, overwrite, List.take_left' hlen]

/-- The bytes that are read later stay where they are. -/
theorem drop_memmove {dst src : ℕ} (hle : dst ≤ src) (hn : src + n ≤ buf.length) :
    (memmove buf dst src n).drop (src + n) = buf.drop (src + n) := by
  have hlen : ((buf.drop src).take n).length = n := by
    simp only [List.length_take, List.length_drop]
    omega
  have hfront : (buf.take dst ++ (buf.drop src).take n).length = dst + n := by
    rw [List.length_append, hlen, List.length_take, min_eq_left (by omega)]
  rw [memmove, overwrite, hlen, show src + n = (dst + n) + (src - dst) by omega, ← List.drop_drop,
    List.drop_left' hfront, List.drop_drop]

theorem length_memmove {dst src : ℕ} (hle : dst ≤ src) (hn : src + n ≤ buf.length) :
    (memmove buf dst src n).length = buf.length := by
  apply length_overwrite
  simp only [List.length_take, List.length_drop]
  omega

namespace Chunked

/-- The decoded data does not reach beyond what has been read. -/
structure Inside (c : Chunked) : Prop where
  dst_le : c.dst ≤ c.src
  src_le : c.src ≤ c.buf.length

/-- Some bytes have been read, and `out` has been decoded. -/
structure Moved (c : Chunked) (out : List UInt8) (c' : Chunked) : Prop where
  inside : c'.Inside
  length : c'.buf.length = c.buf.length
  src_le : c.src ≤ c'.src
  dst : c'.dst = c.dst + out.length
  decoded : c'.buf.take c'.dst = c.buf.take c.dst ++ out

theorem Moved.trans (h : Moved c out c') (h' : Moved c' out' c'') : Moved c (out ++ out') c'' where
  inside := h'.inside
  length := h'.length.trans h.length
  src_le := h.src_le.trans h'.src_le
  dst := by rw [h'.dst, h.dst, List.length_append, Nat.add_assoc]
  decoded := by rw [h'.decoded, h.decoded, List.append_assoc]

theorem Moved.setDecoder (h : Moved c out c') (d : ChunkedDecoder) :
    Moved c out { c' with decoder := d } :=
  { h with inside := { h.inside with } }

theorem Inside.length_rest (h : c.Inside) : c.src + c.rest.length = c.buf.length := by
  have hle := h.src_le
  rw [rest, List.length_drop]
  omega

theorem rest_skip (c : Chunked) (n : ℕ) : (c.skip n).rest = c.rest.drop n :=
  (List.drop_drop ..).symm

theorem Inside.skip (h : c.Inside) (hn : n ≤ c.rest.length) : Moved c [] (c.skip n) where
  inside := ⟨h.dst_le.trans (Nat.le_add_right _ _), by
    have hlen := h.length_rest
    show c.src + n ≤ c.buf.length
    omega⟩
  length := rfl
  src_le := Nat.le_add_right _ _
  dst := rfl
  decoded := (List.append_nil _).symm

theorem Inside.rest_move (h : c.Inside) (hn : n ≤ c.rest.length) :
    (c.move n).rest = c.rest.drop n := by
  have hlen := h.length_rest
  have hdrop : c.rest.drop n = c.buf.drop (c.src + n) := List.drop_drop ..
  rw [hdrop, rest, move]
  split_ifs
  · exact drop_memmove h.dst_le (by omega)
  · rfl

theorem Inside.move (h : c.Inside) (hn : n ≤ c.rest.length) :
    Moved c (c.rest.take n) (c.move n) := by
  have hlen := h.length_rest
  have htake : (c.rest.take n).length = n := List.length_take_of_le hn
  have hdst := h.dst_le
  have hlength : (c.move n).buf.length = c.buf.length := by
    rw [Chunked.move]
    split_ifs
    · exact length_memmove h.dst_le (by omega)
    · rfl
  refine ⟨⟨?_, ?_⟩, hlength, Nat.le_add_right _ _, ?_, ?_⟩
  · exact Nat.add_le_add_right h.dst_le n
  · rw [hlength]
    show c.src + n ≤ c.buf.length
    omega
  · rw [htake]
    rfl
  · show (c.move n).buf.take (c.dst + n) = _
    rw [Chunked.move]
    split_ifs with heq
    · exact take_memmove h.dst_le (by omega)
    · -- The bytes are where they belong.
      rw [not_not] at heq
      rw [rest, ← heq, List.take_add]

end Chunked

/-! ## The automaton on some bytes -/

theorem Fed.prepend_nil (f : Fed) : f.prepend [] = f := rfl

theorem Fed.prepend_prepend (f : Fed) :
    (f.prepend out').prepend out = f.prepend (out ++ out') := by
  simp only [Fed.prepend, List.append_assoc]

namespace ChunkedDecoder

theorem byte_ext (hs : d._state = CHUNKED_IN_CHUNK_EXT) (b : UInt8) : d.byte b = d.ext b := by
  obtain ⟨left, trailer, hex, _⟩ := d
  obtain rfl := hs
  rfl

theorem byte_crlf (hs : d._state = CHUNKED_IN_CHUNK_CRLF) (b : UInt8) :
    d.byte b = if b = 13 then .more d []
      else if b = 10 then .more { d with _state := CHUNKED_IN_CHUNK_SIZE } [] else .failed d := by
  obtain ⟨left, trailer, hex, _⟩ := d
  obtain rfl := hs
  rfl

theorem byte_trailerHead (hs : d._state = CHUNKED_IN_TRAILERS_LINE_HEAD) (b : UInt8) :
    d.byte b = if b = 13 then .more d []
      else if b = 10 then .complete d
      else .more { d with _state := CHUNKED_IN_TRAILERS_LINE_MIDDLE } [] := by
  obtain ⟨left, trailer, hex, _⟩ := d
  obtain rfl := hs
  rfl

theorem byte_trailerMiddle (hs : d._state = CHUNKED_IN_TRAILERS_LINE_MIDDLE) (b : UInt8) :
    d.byte b = if b = 10 then .more { d with _state := CHUNKED_IN_TRAILERS_LINE_HEAD } []
      else .more d [] := by
  obtain ⟨left, trailer, hex, _⟩ := d
  obtain rfl := hs
  rfl

/-- A loop that reads up to a byte with `p`, and does nothing before it. -/
theorem feed_skip {p : UInt8 → Bool} (hskip : ∀ b, p b = false → d.byte b = .more d []) :
    (bytes.findIdx? p = none → d.feed bytes = ⟨d, [], [], .incomplete⟩) ∧
      ∀ n, bytes.findIdx? p = some n → ∃ b rest, bytes.drop n = b :: rest ∧
        n < bytes.length ∧ p b = true ∧ d.feed bytes = d.feed (b :: rest) := by
  induction bytes with
  | nil => exact ⟨fun _ => rfl, fun n h => by cases h⟩
  | cons b bytes ih =>
    rw [List.findIdx?_cons]
    cases hp : p b with
    | true =>
      refine ⟨fun h => (by cases h), fun n h => ?_⟩
      obtain rfl := Option.some.inj h
      exact ⟨b, bytes, rfl, Nat.succ_pos _, hp, rfl⟩
    | false =>
      have hfeed : d.feed (b :: bytes) = d.feed bytes := by
        rw [feed, hskip b hp]
        rfl
      rw [hfeed]
      refine ⟨fun h => ih.1 (by simpa using h), fun n h => ?_⟩
      obtain ⟨m, hm, rfl⟩ := Option.map_eq_some_iff.mp h
      obtain ⟨b', rest, hdrop, hlt, hb', hfeed'⟩ := ih.2 m hm
      exact ⟨b', rest, hdrop, Nat.succ_lt_succ hlt, hb', hfeed'⟩

theorem feed_scanSize (hs : d._state = CHUNKED_IN_CHUNK_SIZE) :
    (scanSize d bytes).2.1 ≤ bytes.length ∧
      match scanSize d bytes with
      | (d', n, some ret) => d.feed bytes = ⟨d', [], bytes.drop n, ret⟩
      | (d', n, none) => d.feed bytes =
          feed { d' with _hex_count := 0, _state := CHUNKED_IN_CHUNK_EXT } (bytes.drop n) := by
  induction bytes generalizing d with
  | nil => exact ⟨le_rfl, rfl⟩
  | cons b bytes ih =>
    obtain ⟨left, trailer, hex, _⟩ := d
    obtain rfl := hs
    rw [scanSize, feed, byte]
    cases hv : decode_hex b with
    | none =>
      by_cases hzero : hex = 0
      · simp only [if_pos hzero]
        exact ⟨Nat.zero_le _, rfl⟩
      · simp only [if_neg hzero]
        exact ⟨Nat.zero_le _, rfl⟩
    | some v =>
      by_cases hfull : hex = 16
      · simp only [if_pos hfull]
        exact ⟨Nat.zero_le _, rfl⟩
      · simp only [if_neg hfull]
        obtain ⟨hle, hscan⟩ := @ih ⟨(left * 16 + v) % 2 ^ 64, trailer, hex + 1, _⟩ rfl
        refine ⟨Nat.succ_le_succ hle, ?_⟩
        split at hscan
        · next heq =>
          rw [heq]
          exact (Fed.prepend_nil _).trans hscan
        · next heq =>
          rw [heq]
          exact (Fed.prepend_nil _).trans hscan

/-- The data of a chunk, as far as there are bytes. -/
theorem feed_data (hs : d._state = CHUNKED_IN_CHUNK_DATA) (hn : n ≤ bytes.length)
    (hle : n < d.bytes_left_in_chunk) :
    d.feed bytes = (feed { d with bytes_left_in_chunk := d.bytes_left_in_chunk - n }
      (bytes.drop n)).prepend (bytes.take n) := by
  induction n generalizing d bytes with
  | zero => rfl
  | succ n ih =>
    obtain ⟨b, bytes, rfl⟩ := List.exists_cons_of_length_pos (by omega : 0 < bytes.length)
    have hone : d.bytes_left_in_chunk ≠ 1 := by omega
    rw [feed, byte, hs]
    simp only [if_neg hone]
    rw [ih rfl (Nat.le_of_succ_le_succ hn) (show n < d.bytes_left_in_chunk - 1 by omega),
      Fed.prepend_prepend, List.drop_succ_cons, List.take_succ_cons]
    simp only [Nat.sub_sub, Nat.add_comm 1 n]
    rw [← hs]
    rfl

theorem feed_data_end (hs : d._state = CHUNKED_IN_CHUNK_DATA) (hpos : 0 < d.bytes_left_in_chunk)
    (hn : d.bytes_left_in_chunk ≤ bytes.length) :
    d.feed bytes = (feed { d with bytes_left_in_chunk := 0, _state := CHUNKED_IN_CHUNK_CRLF }
      (bytes.drop d.bytes_left_in_chunk)).prepend (bytes.take d.bytes_left_in_chunk) := by
  obtain ⟨n, hn'⟩ : ∃ n, d.bytes_left_in_chunk = n + 1 := ⟨_, (Nat.succ_pred_eq_of_pos hpos).symm⟩
  rw [feed_data hs (n := n) (by omega) (by omega), hn', show n + 1 - n = 1 by omega]
  obtain ⟨b, rest, hdrop⟩ := List.exists_cons_of_length_pos
    (show 0 < (bytes.drop n).length by rw [List.length_drop]; omega)
  have hlast : bytes.drop (n + 1) = rest := by
    rw [← List.drop_drop, hdrop, List.drop_succ_cons, List.drop_zero]
  have htake : bytes.take (n + 1) = bytes.take n ++ [b] := by
    rw [List.take_add, hdrop, List.take_succ_cons, List.take_zero]
  rw [hdrop, feed, byte, hs, hlast, htake]
  exact Fed.prepend_prepend _

end ChunkedDecoder

/-! ## The turns of the loop -/

namespace Chunked

open ChunkedDecoder

/-- A turn does what the automaton does on the bytes that it reads, and reads one at least if the
loop goes on. -/
def Follows (c : Chunked) : Turn → Prop
  | .exit ret c' => ∃ out, Moved c out c' ∧ c.decoder.feed c.rest = ⟨c'.decoder, out, c'.rest, ret⟩
  | .again c' => ∃ out, Moved c out c' ∧ c.src < c'.src ∧ c'.decoder.Ready ∧
      c.decoder.feed c.rest = (c'.decoder.feed c'.rest).prepend out

theorem Follows.of_moved (hm : Moved c out c')
    (hfeed : c.decoder.feed c.rest = (c'.decoder.feed c'.rest).prepend out) (h : Follows c' t) :
    Follows c t := by
  cases t with
  | exit ret c'' =>
    obtain ⟨out', hm', hfeed'⟩ := h
    exact ⟨out ++ out', hm.trans hm', by rw [hfeed, hfeed']; rfl⟩
  | again c'' =>
    obtain ⟨out', hm', hlt, hready, hfeed'⟩ := h
    refine ⟨out ++ out', hm.trans hm', hm.src_le.trans_lt hlt, hready, ?_⟩
    rw [hfeed, hfeed', Fed.prepend_prepend]

/-- The buffer ends in a loop that reads up to a byte. -/
theorem Inside.follows_end (h : c.Inside)
    (hfeed : c.decoder.feed c.rest = ⟨c.decoder, [], [], .incomplete⟩) :
    Follows c (.exit .incomplete (c.skip c.rest.length)) := by
  refine ⟨[], h.skip le_rfl, hfeed.trans ?_⟩
  rw [rest_skip, List.drop_length]
  rfl

/-- The byte at which a loop has stopped is read. -/
theorem rest_skip_one {rest : List UInt8} (h : c.rest = b :: rest) : (c.skip 1).rest = rest := by
  rw [rest_skip, h]
  rfl

theorem Inside.skip_one {rest : List UInt8} (h : c.Inside) (hrest : c.rest = b :: rest) :
    Moved c [] (c.skip 1) :=
  h.skip (by rw [hrest]; exact Nat.succ_pos _)

/-- A loop that reads up to a byte with `p` stops there, or at the end of the buffer. -/
theorem Inside.scan {p : UInt8 → Bool} (h : c.Inside)
    (hskip : ∀ b, p b = false → c.decoder.byte b = .more c.decoder []) :
    (c.rest.findIdx? p = none → Follows c (.exit .incomplete (c.skip c.rest.length))) ∧
      ∀ n, c.rest.findIdx? p = some n → ∃ b rest, (c.skip n).rest = b :: rest ∧ p b = true ∧
        Moved c [] (c.skip n) ∧ c.decoder.feed c.rest = c.decoder.feed (b :: rest) := by
  obtain ⟨hnone, hsome⟩ := @feed_skip c.decoder c.rest p hskip
  refine ⟨fun hfind => h.follows_end (hnone hfind), fun n hfind => ?_⟩
  obtain ⟨b, rest, hdrop, hlt, hb, hfeed⟩ := hsome n hfind
  exact ⟨b, rest, (rest_skip c n).trans hdrop, hb, h.skip hlt.le, hfeed⟩

theorem Inside.follows_inCrlf (h : c.Inside) (hs : c.decoder._state = CHUNKED_IN_CHUNK_CRLF) :
    Follows c c.inCrlf := by
  obtain ⟨hnone, hsome⟩ := @scan c (· ≠ 13) h fun b hb => by
    rw [byte_crlf hs, if_pos (by simpa using hb)]
  rw [inCrlf]
  cases hfind : c.rest.findIdx? (· ≠ 13) with
  | none => exact hnone hfind
  | some n =>
    obtain ⟨b, rest, hrest, hb, hm, hfeed⟩ := hsome n hfind
    have hcr : b ≠ 13 := by simpa using hb
    simp only [hrest, List.head?_cons, ne_eq, Option.some.injEq]
    refine .of_moved hm (by rw [hfeed, hrest]; rfl) ?_
    by_cases hlf : b = 10
    · rw [if_neg (not_not.mpr hlf)]
      refine ⟨[], (hm.inside.skip_one hrest).setDecoder _, Nat.lt_succ_self _, ?_, ?_⟩
      · rintro ⟨⟩
      · rw [hrest, feed, byte_crlf (by exact hs), if_neg hcr, if_pos hlf]
        exact congrArg (fun bytes => Fed.prepend [] (feed _ bytes)) (rest_skip_one hrest).symm
    · rw [if_pos hlf]
      refine ⟨[], hm.inside.skip (Nat.zero_le _), ?_⟩
      rw [hrest, feed, byte_crlf (by exact hs), if_neg hcr, if_neg hlf]

theorem Inside.follows_inData (h : c.Inside) (hs : c.decoder._state = CHUNKED_IN_CHUNK_DATA)
    (hready : c.decoder.Ready) : Follows c c.inData := by
  have havail : c.buf.length - c.src = c.rest.length := by
    have hlen := h.length_rest
    omega
  rw [inData, havail]
  split_ifs with hlt
  · have hm := h.move le_rfl
    have hrest := h.rest_move le_rfl
    rw [List.take_length] at hm
    refine ⟨c.rest, hm.setDecoder _, ?_⟩
    rw [feed_data hs le_rfl hlt, List.drop_length, List.take_length]
    rw [List.drop_length] at hrest
    simp only [feed, Fed.prepend, List.append_nil]
    exact congrArg (fun rest => Fed.mk _ _ rest _) hrest.symm
  · -- The chunk ends in this buffer, and the loop goes on behind it.
    have hle := not_lt.mp hlt
    have hm := h.move hle
    refine .of_moved ((hm.setDecoder _).setDecoder _) ?_
      (Inside.follows_inCrlf { hm.inside with } rfl)
    rw [feed_data_end hs (hready hs) hle]
    exact congrArg (fun bytes => Fed.prepend _ (feed _ bytes)) (h.rest_move hle).symm

theorem Inside.follows_inExt (h : c.Inside) (hs : c.decoder._state = CHUNKED_IN_CHUNK_EXT) :
    Follows c c.inExt := by
  obtain ⟨hnone, hsome⟩ := @scan c (· = 10) h fun b hb => by
    rw [byte_ext hs, ext, if_neg (by simpa using hb)]
  rw [inExt]
  cases hfind : c.rest.findIdx? (· = 10) with
  | none => exact hnone hfind
  | some n =>
    obtain ⟨b, rest, hstop, hb, hstopped, hfeed⟩ := hsome n hfind
    have hlf : b = 10 := by simpa using hb
    have hm : Moved c [] (c.skip (n + 1)) := hstopped.trans (hstopped.inside.skip_one hstop)
    have hrest : (c.skip (n + 1)).rest = rest := rest_skip_one hstop
    have hsrc : c.src < (c.skip (n + 1)).src := Nat.lt_add_of_pos_right (Nat.succ_pos n)
    simp only
    rw [feed, byte_ext hs, ext, if_pos hlf] at hfeed
    by_cases hzero : c.decoder.bytes_left_in_chunk = 0
    · rw [if_pos (by exact hzero)]
      rw [if_pos hzero] at hfeed
      cases htrailer : c.decoder.consume_trailer with
      | true =>
        rw [if_pos (by exact htrailer)]
        rw [if_pos htrailer] at hfeed
        refine ⟨[], hm.setDecoder _, hsrc, ?_, ?_⟩
        · rintro ⟨⟩
        · rw [hfeed]
          exact congrArg (fun bytes => Fed.prepend [] (feed _ bytes)) hrest.symm
      | false =>
        have hno : ¬(c.decoder.consume_trailer = true) := by
          rw [htrailer]
          exact Bool.false_ne_true
        rw [if_neg (by exact hno)]
        rw [if_neg hno] at hfeed
        exact ⟨[], hm, hfeed.trans (congrArg (fun rest => Fed.mk _ _ rest _) hrest.symm)⟩
    · rw [if_neg (by exact hzero)]
      rw [if_neg hzero] at hfeed
      refine .of_moved (hm.setDecoder _) ?_ (Inside.follows_inData { hm.inside with } rfl
        fun _ => Nat.pos_of_ne_zero hzero)
      rw [hfeed]
      exact congrArg (fun bytes => Fed.prepend [] (feed _ bytes)) hrest.symm

theorem Inside.follows_inSize (h : c.Inside) (hs : c.decoder._state = CHUNKED_IN_CHUNK_SIZE) :
    Follows c c.inSize := by
  obtain ⟨hle, hfeed⟩ := @feed_scanSize c.decoder c.rest hs
  rw [inSize]
  rcases hscan : scanSize c.decoder c.rest with ⟨d, n, _ | ret⟩
  all_goals
    rw [hscan] at hle hfeed
    have hm := h.skip hle
    have hrest := rest_skip c n
  · refine .of_moved (hm.setDecoder _) (hfeed.trans ?_)
      (Inside.follows_inExt { hm.inside with } rfl)
    exact congrArg (fun bytes => Fed.prepend [] (feed _ bytes)) hrest.symm
  · exact ⟨[], hm.setDecoder _, hfeed.trans (congrArg (fun rest => Fed.mk _ _ rest _) hrest.symm)⟩

theorem Inside.follows_inTrailerMiddle (h : c.Inside)
    (hs : c.decoder._state = CHUNKED_IN_TRAILERS_LINE_MIDDLE) : Follows c c.inTrailerMiddle := by
  obtain ⟨hnone, hsome⟩ := @scan c (· = 10) h fun b hb => by
    rw [byte_trailerMiddle hs, if_neg (by simpa using hb)]
  rw [inTrailerMiddle]
  cases hfind : c.rest.findIdx? (· = 10) with
  | none => exact hnone hfind
  | some n =>
    obtain ⟨b, rest, hstop, hb, hstopped, hfeed⟩ := hsome n hfind
    have hm : Moved c [] (c.skip (n + 1)) := hstopped.trans (hstopped.inside.skip_one hstop)
    have hrest : (c.skip (n + 1)).rest = rest := rest_skip_one hstop
    refine ⟨[], hm.setDecoder _, Nat.lt_add_of_pos_right (Nat.succ_pos n), ?_, ?_⟩
    · rintro ⟨⟩
    · rw [hfeed, feed, byte_trailerMiddle hs, if_pos (by simpa using hb)]
      exact congrArg (fun bytes => Fed.prepend [] (feed _ bytes)) hrest.symm

theorem Inside.follows_inTrailerHead (h : c.Inside)
    (hs : c.decoder._state = CHUNKED_IN_TRAILERS_LINE_HEAD) : Follows c c.inTrailerHead := by
  obtain ⟨hnone, hsome⟩ := @scan c (· ≠ 13) h fun b hb => by
    rw [byte_trailerHead hs, if_pos (by simpa using hb)]
  rw [inTrailerHead]
  cases hfind : c.rest.findIdx? (· ≠ 13) with
  | none => exact hnone hfind
  | some n =>
    obtain ⟨b, rest, hrest, hb, hm, hfeed⟩ := hsome n hfind
    have hcr : b ≠ 13 := by simpa using hb
    have hone := hm.inside.skip_one hrest
    have hrest' := rest_skip_one hrest
    simp only [hrest, List.head?_cons, Option.some.injEq]
    refine .of_moved hm (by rw [hfeed, hrest]; rfl) ?_
    by_cases hlf : b = 10
    · rw [if_pos hlf]
      refine ⟨[], hone, ?_⟩
      rw [hrest, feed, byte_trailerHead (by exact hs), if_neg hcr, if_pos hlf]
      exact congrArg (fun rest => Fed.mk _ _ rest _) hrest'.symm
    · rw [if_neg hlf]
      refine .of_moved (hone.setDecoder _) ?_
        (Inside.follows_inTrailerMiddle { hone.inside with } rfl)
      rw [hrest, feed, byte_trailerHead (by exact hs), if_neg hcr, if_neg hlf]
      exact congrArg (fun bytes => Fed.prepend [] (feed _ bytes)) hrest'.symm

theorem Inside.follows_turn (h : c.Inside) (hready : c.decoder.Ready) : Follows c c.turn := by
  rw [turn]
  split
  · next hs => exact h.follows_inSize hs
  · next hs => exact h.follows_inExt hs
  · next hs => exact h.follows_inData hs hready
  · next hs => exact h.follows_inCrlf hs
  · next hs => exact h.follows_inTrailerHead hs
  · next hs => exact h.follows_inTrailerMiddle hs

/-- The fuel is enough. -/
theorem Inside.loop (h : c.Inside) (hready : c.decoder.Ready) (fuel : ℕ)
    (hfuel : c.buf.length < c.src + fuel) :
    ∃ out ret c', loop fuel c = (ret, c') ∧ Moved c out c' ∧
      c.decoder.feed c.rest = ⟨c'.decoder, out, c'.rest, ret⟩ := by
  induction fuel generalizing c with
  | zero => exact absurd hfuel (not_lt.mpr h.src_le)
  | succ fuel ih =>
    have hturn := h.follows_turn hready
    rw [Chunked.loop]
    cases hc : c.turn with
    | exit ret c' =>
      rw [hc] at hturn
      obtain ⟨out, hm, hfeed⟩ := hturn
      exact ⟨out, ret, c', rfl, hm, hfeed⟩
    | again c' =>
      rw [hc] at hturn
      obtain ⟨out, hm, hlt, hready', hfeed⟩ := hturn
      have hlength := hm.length
      obtain ⟨out', ret, c'', hloop, hm', hfeed'⟩ := ih hm.inside hready' (by omega)
      exact ⟨out ++ out', ret, c'', hloop, hm.trans hm', by rw [hfeed, hfeed']; rfl⟩

end Chunked

/-! ## A call -/

/-- The value that is returned, with the bytes that are left. -/
def Ret.value (rest : List UInt8) : Ret → ℤ
  | .complete => rest.length
  | .failed => -1
  | .incomplete => -2

/-- The buffer starts with what has been decoded, and what has not been read is behind it. -/
structure Decodes (buf : List UInt8) (f : Fed) (r : DecodeResult) : Prop where
  decoder : r.decoder = f.decoder
  length : r.buf.length = buf.length
  decoded : r.buf.take r.bufsz = f.out
  rest : (r.buf.drop r.bufsz).take f.rest.length = f.rest
  ret : r.ret = f.ret.value f.rest

theorem decodes_phr_decode_chunked (hready : d.Ready) (buf : List UInt8) :
    Decodes buf (d.feed buf) (phr_decode_chunked d buf) := by
  have hinside : Chunked.Inside { decoder := d, buf := buf, dst := 0, src := 0 } :=
    ⟨le_rfl, Nat.zero_le _⟩
  obtain ⟨out, ret, c, hloop, hm, hfeed⟩ := hinside.loop hready (buf.length + 1)
    (by simp)
  have hfeed : d.feed buf = ⟨c.decoder, out, c.rest, ret⟩ := hfeed
  have hlen : c.buf.length = buf.length := hm.length
  have hrest := hm.inside.length_rest
  have hdst : c.dst ≤ c.src := hm.inside.dst_le
  have htake : c.rest.take (buf.length - c.src) = c.rest :=
    List.take_of_length_le (by omega)
  have hdecoded : c.buf.take c.dst = out := by
    rw [hm.decoded]
    rfl
  rw [phr_decode_chunked, hloop, hfeed]
  refine ⟨rfl, ?_, ?_, ?_, ?_⟩
  · simp only
    split_ifs
    · exact (length_memmove hdst (by omega)).trans hlen
    · exact hlen
  · simp only
    split_ifs
    · rw [← hdecoded, memmove, overwrite, List.append_assoc, List.take_left']
      exact List.length_take_of_le (by omega)
    · exact hdecoded
  · simp only
    split_ifs with heq
    · have hfront : (c.buf.take c.dst).length = c.dst := List.length_take_of_le (by omega)
      rw [memmove, overwrite, List.append_assoc, List.drop_left' hfront,
        show (c.buf.drop c.src).take (buf.length - c.src) = c.rest from htake, List.take_left]
    · rw [not_not] at heq
      rw [heq]
      exact List.take_length
  · cases ret with
    | complete =>
      simp only [Ret.value]
      omega
    | failed => rfl
    | incomplete => rfl

/-! ## The pieces of a body -/

namespace ChunkedDecoder

theorem ready_ext (hs : d._state = CHUNKED_IN_CHUNK_EXT) (b : UInt8) :
    match d.ext b with
    | .more d' _ => d'.Ready
    | .complete d' => d'.Ready
    | .failed d' => d'.Ready := by
  have hready : d.Ready := fun h => by
    rw [hs] at h
    cases h
  rw [ext]
  split_ifs with hlf hzero
  · rintro ⟨⟩
  · exact hready
  · exact fun _ => Nat.pos_of_ne_zero hzero
  · exact hready

theorem Ready.byte (h : d.Ready) (b : UInt8) :
    match d.byte b with
    | .more d' _ => d'.Ready
    | .complete d' => d'.Ready
    | .failed d' => d'.Ready := by
  obtain ⟨left, trailer, hex, state⟩ := d
  cases state with
  | CHUNKED_IN_CHUNK_SIZE =>
    rw [ChunkedDecoder.byte]
    cases decode_hex b with
    | none =>
      simp only
      split_ifs
      · exact h
      · -- The byte is looked at again behind the digits.
        exact ready_ext rfl b
    | some v =>
      simp only
      split_ifs
      · exact h
      · rintro ⟨⟩
  | CHUNKED_IN_CHUNK_EXT => exact ready_ext rfl b
  | CHUNKED_IN_CHUNK_DATA =>
    have hpos : 0 < left := h rfl
    intro hdata
    by_cases hone : left = 1
    · simp only [if_pos hone] at hdata
      cases hdata
    · show 0 < left - 1
      omega
  | CHUNKED_IN_CHUNK_CRLF =>
    rw [byte_crlf rfl]
    split_ifs
    · exact h
    · rintro ⟨⟩
    · exact h
  | CHUNKED_IN_TRAILERS_LINE_HEAD =>
    rw [byte_trailerHead rfl]
    split_ifs
    · exact h
    · exact h
    · rintro ⟨⟩
  | CHUNKED_IN_TRAILERS_LINE_MIDDLE =>
    rw [byte_trailerMiddle rfl]
    split_ifs
    · rintro ⟨⟩
    · exact h

theorem Ready.feed (h : d.Ready) (bytes : List UInt8) : (d.feed bytes).decoder.Ready := by
  induction bytes generalizing d with
  | nil => exact h
  | cons b bytes ih =>
    have hbyte := h.byte b
    rw [ChunkedDecoder.feed]
    cases hb : d.byte b with
    | more d' out =>
      rw [hb] at hbyte
      exact ih hbyte
    | complete d' =>
      rw [hb] at hbyte
      exact hbyte
    | failed d' =>
      rw [hb] at hbyte
      exact hbyte

/-- More bytes are read only if the body is not complete. -/
theorem feed_append (d : ChunkedDecoder) (bytes bytes' : List UInt8) :
    d.feed (bytes ++ bytes') = match (d.feed bytes).ret with
      | .incomplete => ((d.feed bytes).decoder.feed bytes').prepend (d.feed bytes).out
      | _ => { d.feed bytes with rest := (d.feed bytes).rest ++ bytes' } := by
  induction bytes generalizing d with
  | nil => rfl
  | cons b bytes ih =>
    rw [List.cons_append, feed, feed]
    cases d.byte b with
    | more d' out =>
      simp only
      rw [ih]
      simp only [Fed.prepend]
      cases (d'.feed bytes).ret with
      | complete => rfl
      | failed => rfl
      | incomplete => simp only [List.append_assoc]
    | complete d' => rfl
    | failed d' => rfl

end ChunkedDecoder

/-- What has become of a body. -/
structure Session where
  decoder : ChunkedDecoder
  decoded : List UInt8
  ret : Ret
  /-- The bytes behind the body. -/
  tail : List UInt8

/-- The function is called while it returns -2, each time with the data that has newly arrived. -/
def session (d : ChunkedDecoder) : List (List UInt8) → Session
  | [] => { decoder := d, decoded := [], ret := .incomplete, tail := [] }
  | buf :: bufs =>
    let r := phr_decode_chunked d buf
    let decoded := r.buf.take r.bufsz
    if r.ret = -2 then
      let s := session r.decoder bufs
      { s with decoded := decoded ++ s.decoded }
    else if r.ret = -1 then
      { decoder := r.decoder, decoded := decoded, ret := .failed, tail := [] }
    else
      { decoder := r.decoder, decoded := decoded, ret := .complete,
        tail := (r.buf.drop r.bufsz).take r.ret.toNat ++ bufs.flatten }

/-- A session for all bytes at once. -/
def Fed.session (f : Fed) : Session where
  decoder := f.decoder
  decoded := f.out
  ret := f.ret
  tail := if f.ret = .complete then f.rest else []

theorem session_eq (hready : d.Ready) (bufs : List (List UInt8)) :
    session d bufs = (d.feed bufs.flatten).session := by
  induction bufs generalizing d with
  | nil => rfl
  | cons buf bufs ih =>
    have hr := decodes_phr_decode_chunked hready buf
    have hret := hr.ret
    rw [session, List.flatten_cons, ChunkedDecoder.feed_append]
    simp only
    rw [hr.decoded, hr.decoder]
    cases hf : (d.feed buf).ret with
    | incomplete =>
      rw [hf] at hret
      have hvalue : (phr_decode_chunked d buf).ret = -2 := hret
      rw [if_pos hvalue, ih (hready.feed buf)]
      rfl
    | failed =>
      rw [hf] at hret
      have hvalue : (phr_decode_chunked d buf).ret = -1 := hret
      rw [if_neg (by omega), if_pos hvalue]
      rfl
    | complete =>
      -- The pieces that follow are not read.
      rw [hf] at hret
      have hvalue : (phr_decode_chunked d buf).ret = (d.feed buf).rest.length := hret
      rw [if_neg (by omega), if_neg (by omega), hvalue, Int.toNat_natCast, hr.rest]
      simp only [Fed.session, if_pos]

/-- **How a body is cut into pieces** does not matter: the calls for the pieces decode what one call
for the whole body decodes, and leave the same bytes behind it. -/
theorem session_flatten (trailer : Bool) (bufs : List (List UInt8)) :
    session { consume_trailer := trailer } bufs =
      session { consume_trailer := trailer } [bufs.flatten] := by
  have hready : ChunkedDecoder.Ready { consume_trailer := trailer } := by
    rintro ⟨⟩
  rw [session_eq hready, session_eq hready, List.flatten_singleton]

end CodingDemo.Dpdk.PicoHttp
