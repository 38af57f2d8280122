import CodingDemo.Machine.LittleEndian
import CodingDemo.Machine.SerialNumber

/-!
# The segments of KCP

A datagram of KCP is a sequence of segments. Each has a header of 24 bytes, with all numbers in
little-endian order, and the data behind it.

## Main definitions

* `IKCPSEG`: a segment, with what the sender remembers of it
* `Header`: what is read from a header
* `ikcp_encode_seg`, `decodeHeader`: the bytes of a header, and what is read back

## Main results

* `decodeHeader_ikcp_encode_seg`: the header of a segment is read back
-/

namespace CodingDemo.Kcp

def IKCP_CMD_PUSH : BitVec 32 := 81

def IKCP_CMD_ACK : BitVec 32 := 82

def IKCP_CMD_WASK : BitVec 32 := 83

def IKCP_CMD_WINS : BitVec 32 := 84

def IKCP_OVERHEAD : ℕ := 24

/-- What ends the process, or is undefined. -/
inductive Fault
  /-- A read outside of the datagram. -/
  | overread
  /-- A write outside of `buffer`. -/
  | overflow
  | divideByZero
  | assertFailed
  deriving DecidableEq

/-- The data comes last, and `len` is its length. -/
structure IKCPSEG where
  conv : BitVec 32
  cmd : BitVec 32
  frg : BitVec 32
  wnd : BitVec 32
  ts : BitVec 32
  sn : BitVec 32
  una : BitVec 32
  resendts : BitVec 32
  rto : BitVec 32
  fastack : BitVec 32
  xmit : BitVec 32
  data : List UInt8
  deriving DecidableEq

def IKCPSEG.len (seg : IKCPSEG) : BitVec 32 := BitVec.ofNat 32 seg.data.length

/-- The fields of a header. -/
structure Header where
  conv : BitVec 32
  cmd : BitVec 8
  frg : BitVec 8
  wnd : BitVec 16
  ts : BitVec 32
  sn : BitVec 32
  una : BitVec 32
  len : BitVec 32
  deriving DecidableEq

/-! ## Encoding and decoding -/

def ikcp_encode8u (c : BitVec 8) : List UInt8 := littleEndian 1 c.toNat

def ikcp_encode16u (w : BitVec 16) : List UInt8 := littleEndian 2 w.toNat

def ikcp_encode32u (l : BitVec 32) : List UInt8 := littleEndian 4 l.toNat

/-- The next `k` bytes, and the pointer behind them. -/
def decode (k : ℕ) (p : List UInt8) : Except Fault (ℕ × List UInt8) :=
  if k ≤ p.length then .ok (ofLittleEndian (p.take k), p.drop k) else .error .overread

def ikcp_decode8u (p : List UInt8) : Except Fault (BitVec 8 × List UInt8) := do
  let (c, p) ← decode 1 p
  .ok (BitVec.ofNat 8 c, p)

def ikcp_decode16u (p : List UInt8) : Except Fault (BitVec 16 × List UInt8) := do
  let (w, p) ← decode 2 p
  .ok (BitVec.ofNat 16 w, p)

def ikcp_decode32u (p : List UInt8) : Except Fault (BitVec 32 × List UInt8) := do
  let (l, p) ← decode 4 p
  .ok (BitVec.ofNat 32 l, p)

/-- The header only. -/
def ikcp_encode_seg (seg : IKCPSEG) : List UInt8 :=
  ikcp_encode32u seg.conv ++ ikcp_encode8u (seg.cmd.setWidth 8) ++
    ikcp_encode8u (seg.frg.setWidth 8) ++ ikcp_encode16u (seg.wnd.setWidth 16) ++
    ikcp_encode32u seg.ts ++ ikcp_encode32u seg.sn ++ ikcp_encode32u seg.una ++
    ikcp_encode32u seg.len

/-- What `ikcp_input` reads of a header, and the pointer behind it. -/
def decodeHeader (data : List UInt8) : Except Fault (Header × List UInt8) := do
  let (conv, data) ← ikcp_decode32u data
  let (cmd, data) ← ikcp_decode8u data
  let (frg, data) ← ikcp_decode8u data
  let (wnd, data) ← ikcp_decode16u data
  let (ts, data) ← ikcp_decode32u data
  let (sn, data) ← ikcp_decode32u data
  let (una, data) ← ikcp_decode32u data
  let (len, data) ← ikcp_decode32u data
  .ok (⟨conv, cmd, frg, wnd, ts, sn, una, len⟩, data)

/-- The header that is read back. -/
def IKCPSEG.header (seg : IKCPSEG) : Header where
  conv := seg.conv
  cmd := seg.cmd.setWidth 8
  frg := seg.frg.setWidth 8
  wnd := seg.wnd.setWidth 16
  ts := seg.ts
  sn := seg.sn
  una := seg.una
  len := seg.len

/-- A segment as it is sent. -/
def IKCPSEG.bytes (seg : IKCPSEG) : List UInt8 := ikcp_encode_seg seg ++ seg.data

variable {k n : ℕ} {p rest : List UInt8}

theorem decode_littleEndian (h : n < 256 ^ k) (rest : List UInt8) :
    decode k (littleEndian k n ++ rest) = .ok (n, rest) := by
  have hlen := length_littleEndian k n
  rw [decode, if_pos (by rw [List.length_append, hlen]; exact Nat.le_add_right _ _),
    List.take_left' hlen, List.drop_left' hlen, ofLittleEndian_littleEndian h]

theorem ofNat_toNat_self {w : ℕ} (x : BitVec w) : BitVec.ofNat w x.toNat = x := by
  rw [BitVec.ofNat_toNat, BitVec.setWidth_eq]

@[simp] theorem ikcp_decode8u_encode8u (c : BitVec 8) (rest : List UInt8) :
    ikcp_decode8u (ikcp_encode8u c ++ rest) = .ok (c, rest) := by
  rw [ikcp_decode8u, ikcp_encode8u, decode_littleEndian c.isLt]
  exact congrArg (fun c => Except.ok (c, rest)) (ofNat_toNat_self c)

@[simp] theorem ikcp_decode16u_encode16u (w : BitVec 16) (rest : List UInt8) :
    ikcp_decode16u (ikcp_encode16u w ++ rest) = .ok (w, rest) := by
  rw [ikcp_decode16u, ikcp_encode16u, decode_littleEndian w.isLt]
  exact congrArg (fun w => Except.ok (w, rest)) (ofNat_toNat_self w)

@[simp] theorem ikcp_decode32u_encode32u (l : BitVec 32) (rest : List UInt8) :
    ikcp_decode32u (ikcp_encode32u l ++ rest) = .ok (l, rest) := by
  rw [ikcp_decode32u, ikcp_encode32u, decode_littleEndian l.isLt]
  exact congrArg (fun l => Except.ok (l, rest)) (ofNat_toNat_self l)

/-- **The header of a segment** is read back, as far as its fields have room in it. -/
theorem decodeHeader_ikcp_encode_seg (seg : IKCPSEG) (rest : List UInt8) :
    decodeHeader (ikcp_encode_seg seg ++ rest) = .ok (seg.header, rest) := by
  simp only [decodeHeader, ikcp_encode_seg, List.append_assoc, ikcp_decode32u_encode32u,
    ikcp_decode8u_encode8u, ikcp_decode16u_encode16u, bind, Except.bind]
  rfl

@[simp] theorem length_ikcp_encode_seg (seg : IKCPSEG) :
    (ikcp_encode_seg seg).length = IKCP_OVERHEAD := by
  simp only [ikcp_encode_seg, ikcp_encode32u, ikcp_encode16u, ikcp_encode8u, List.length_append,
    length_littleEndian]
  rfl

@[simp] theorem length_bytes (seg : IKCPSEG) :
    seg.bytes.length = IKCP_OVERHEAD + seg.data.length := by
  rw [IKCPSEG.bytes, List.length_append, length_ikcp_encode_seg]

theorem decode_of_le (h : k ≤ p.length) :
    decode k p = .ok (ofLittleEndian (p.take k), p.drop k) :=
  if_pos h

/-- A header is read from as many bytes. -/
theorem exists_decodeHeader (h : IKCP_OVERHEAD ≤ p.length) :
    ∃ hdr, decodeHeader p = .ok (hdr, p.drop IKCP_OVERHEAD) := by
  have hlen : 24 ≤ p.length := h
  simp (disch := (try simp only [List.length_drop]); omega) only [decodeHeader, ikcp_decode32u,
    ikcp_decode16u, ikcp_decode8u, decode_of_le, List.drop_drop, bind, Except.bind]
  exact ⟨_, rfl⟩

end CodingDemo.Kcp
