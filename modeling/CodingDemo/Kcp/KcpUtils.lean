import CodingDemo.Text.Ascii
import CodingDemo.Text.Decimal

/-!
# The control messages of the KCP layer

A handshake message or a close message is told by the text it begins with. The acknowledgement of a
handshake ends with the conversation id.

## Main definitions

* `KCP_HANDSHAKE_SYN`, `KCP_CLOSE_MSG`, `KCP_HANDSHAKE_ACK`: the texts
* `isHandshakeSyn`, `isHandshakeAck`, `isClosePacket`: the tests of a payload
* `handshakeAck`, `stoul`, `ackConv`: the acknowledgement, and the conversation id in it
* `IsSegment`: a segment of the KCP stack

## Main results

* `ackConv_handshakeAck`: the conversation id of an acknowledgement is read back
* `IsSegment.not_isHandshakeSyn`, `IsSegment.not_isHandshakeAck`, `IsSegment.not_isClosePacket`: a
  segment is no control message
-/

namespace CodingDemo.Libcpp

def KCP_HANDSHAKE_SYN : List UInt8 := asciiBytes "This is a kcp handshake syn"

def KCP_CLOSE_MSG : List UInt8 := asciiBytes "I want to close the connection"

def KCP_HANDSHAKE_ACK : List UInt8 := asciiBytes "Your conv is "

/-- `memcmp` compares byte by byte; at the end of the message it finds a zero byte, which is in none
of the texts. -/
def isHandshakeSyn (msg : List UInt8) : Bool := KCP_HANDSHAKE_SYN.isPrefixOf msg

def isHandshakeAck (msg : List UInt8) : Bool := KCP_HANDSHAKE_ACK.isPrefixOf msg

def isClosePacket (msg : List UInt8) : Bool := KCP_CLOSE_MSG.isPrefixOf msg

/-- A KCP segment has its command after the conversation id. -/
def IsSegment (buf : List UInt8) : Prop := ∃ cmd, buf[4]? = some cmd ∧ 81 ≤ cmd ∧ cmd ≤ 84

/-- The text that acknowledges a handshake. -/
def handshakeAck (conv : BitVec 32) : List UInt8 := KCP_HANDSHAKE_ACK ++ decimal conv.toNat

/-- What `std::stoul` throws. -/
inductive StoulError
  | invalidArgument
  | outOfRange
  deriving DecidableEq

/-- `std::stoul` of a string of digits. -/
def stoul (s : List UInt8) : Except StoulError ℕ :=
  if s = [] then .error .invalidArgument
  else if decimalValue s < 2 ^ 64 then .ok (decimalValue s)
  else .error .outOfRange

/-- The conversation id at the end of an acknowledgement. -/
def ackConv (payload : List UInt8) : Except StoulError (BitVec 32) :=
  (stoul (trailingDigits payload)).map (BitVec.ofNat 32)

variable (conv : BitVec 32)

theorem isHandshakeAck_handshakeAck : isHandshakeAck (handshakeAck conv) = true :=
  List.isPrefixOf_iff_prefix.mpr (List.prefix_append _ _)

/-- The first byte tells an acknowledgement from the other texts. -/
theorem isHandshakeSyn_handshakeAck : isHandshakeSyn (handshakeAck conv) = false := rfl

theorem handshakeAck_ne_nil : handshakeAck conv ≠ [] := List.cons_ne_nil _ _

theorem length_handshakeAck_le : (handshakeAck conv).length ≤ 23 := by
  have hlt : conv.toNat < 10 ^ 10 := conv.isLt.trans (by decide)
  have hdecimal := length_decimal_le (by decide) hlt
  have hack : KCP_HANDSHAKE_ACK.length = 13 := by decide
  rw [handshakeAck, List.length_append, hack]
  omega

theorem isClosePacket_handshakeAck : isClosePacket (handshakeAck conv) = false := rfl

/-- The conversation id of an acknowledgement is read back. -/
theorem ackConv_handshakeAck : ackConv (handshakeAck conv) = .ok conv := by
  -- the text ends with a blank
  have hsplit : handshakeAck conv = asciiBytes "Your conv is" ++ 32 :: decimal conv.toNat := rfl
  have hlt : conv.toNat < 2 ^ 64 := conv.isLt.trans (by decide)
  rw [ackConv, hsplit, trailingDigits_append (by decide), stoul, if_neg (decimal_ne_nil _),
    decimalValue_decimal, if_pos hlt]
  show Except.ok (BitVec.ofNat 32 conv.toNat) = Except.ok conv
  rw [BitVec.ofNat_toNat, BitVec.setWidth_eq]

/-! ## A segment is no control message -/

variable {buf : List UInt8}

/-- The fifth byte of a control message is no command. -/
theorem not_isSegment_of_isPrefixOf {text : List UInt8} {b : UInt8} (htext : text[4]? = some b)
    (hb : ¬(81 ≤ b ∧ b ≤ 84)) (h : text.isPrefixOf buf = true) : ¬IsSegment buf := by
  rintro ⟨cmd, hcmd, hcommand⟩
  obtain ⟨rest, rfl⟩ := List.isPrefixOf_iff_prefix.mp h
  obtain ⟨hlt, -⟩ := List.getElem?_eq_some_iff.mp htext
  rw [List.getElem?_append_left hlt, htext] at hcmd
  obtain rfl := Option.some.inj hcmd
  exact hb hcommand

theorem IsSegment.not_isHandshakeSyn (h : IsSegment buf) : isHandshakeSyn buf = false :=
  have htext : KCP_HANDSHAKE_SYN[4]? = some 32 := by decide
  Bool.eq_false_iff.mpr fun hsyn => not_isSegment_of_isPrefixOf htext (by decide) hsyn h

theorem IsSegment.not_isHandshakeAck (h : IsSegment buf) : isHandshakeAck buf = false :=
  have htext : KCP_HANDSHAKE_ACK[4]? = some 32 := by decide
  Bool.eq_false_iff.mpr fun hack => not_isSegment_of_isPrefixOf htext (by decide) hack h

theorem IsSegment.not_isClosePacket (h : IsSegment buf) : isClosePacket buf = false :=
  have htext : KCP_CLOSE_MSG[4]? = some 110 := by decide
  Bool.eq_false_iff.mpr fun hclose => not_isSegment_of_isPrefixOf htext (by decide) hclose h

end CodingDemo.Libcpp
