import CodingDemo.Kcp.KcpLayer.Notify

/-!
# Control and data

Control messages and segments arrive at the same socket, and a layer tells them apart by the first
bytes only.

## Main results

* `handleRead_handshakeAck`: an acknowledgement is handled as one, for the conversation it is about
* `exists_handleRead_segment`: a segment is handled as data
* `control_apart`: control and data are never taken for each other
-/

namespace CodingDemo.Libcpp.KcpLayer

universe u

variable {κ : Type u} {K : Ikcp κ} {q : KcpLayer κ} {data : List UInt8}

theorem handleRead_handshakeAck (conv : BitVec 32) (peerAddr : SockaddrIn) (current : BitVec 32) :
    q.handleRead K (some { payload := handshakeAck conv, peerAddr := peerAddr }) current =
      .ok (q.handleAck K conv peerAddr current) := by
  have hsize : ¬datagramSize < (handshakeAck conv).length :=
    not_lt.mpr ((length_handshakeAck_le conv).trans (by decide))
  simp only [handleRead]
  rw [if_neg (handshakeAck_ne_nil conv), if_neg hsize, isHandshakeSyn_handshakeAck,
    if_neg Bool.false_ne_true, isHandshakeAck_handshakeAck, if_pos rfl, ackConv_handshakeAck]

/-- The conversation id of a segment can be read. -/
theorem exists_getconv (h : IsSegment data) : ∃ id, getconv data = .ok id := by
  obtain ⟨cmd, hcmd, -⟩ := h
  obtain ⟨hlt, -⟩ := List.getElem?_eq_some_iff.mp hcmd
  match data, hlt with
  | b₀ :: b₁ :: b₂ :: b₃ :: rest, _ => exact ⟨_, rfl⟩

theorem exists_handleRead_segment (h : IsSegment data) (hsize : data.length ≤ datagramSize)
    (peerAddr : SockaddrIn) (current : BitVec 32) :
    ∃ id, getconv data = .ok id ∧
      q.handleRead K (some { payload := data, peerAddr := peerAddr }) current =
        q.handleData K id data current := by
  obtain ⟨id, hid⟩ := exists_getconv h
  have hnil : data ≠ [] := by
    rintro rfl
    obtain ⟨cmd, hcmd, -⟩ := h
    cases hcmd
  refine ⟨id, hid, ?_⟩
  simp only [handleRead]
  rw [if_neg hnil, if_neg (not_lt.mpr hsize), h.not_isHandshakeSyn, if_neg Bool.false_ne_true,
    h.not_isHandshakeAck, if_neg Bool.false_ne_true, h.not_isClosePacket,
    if_neg Bool.false_ne_true, hid]

/-- **Control and data are told apart.** The acknowledgement of every conversation is handled as an
acknowledgement, and its conversation id is read back. A segment with a command matches none of the
texts, and is handled as data of its conversation. -/
theorem control_apart (K : Ikcp κ) (q : KcpLayer κ) :
    (∀ conv, isHandshakeSyn (handshakeAck conv) = false ∧
      isHandshakeAck (handshakeAck conv) = true ∧ isClosePacket (handshakeAck conv) = false ∧
      ackConv (handshakeAck conv) = .ok conv ∧ ∀ peerAddr current,
        q.handleRead K (some { payload := handshakeAck conv, peerAddr := peerAddr }) current =
          .ok (q.handleAck K conv peerAddr current)) ∧
    ∀ data, IsSegment data →
      isHandshakeSyn data = false ∧ isHandshakeAck data = false ∧ isClosePacket data = false ∧
      (data.length ≤ datagramSize → ∀ peerAddr current, ∃ id, getconv data = .ok id ∧
        q.handleRead K (some { payload := data, peerAddr := peerAddr }) current =
          q.handleData K id data current) :=
  ⟨fun conv => ⟨isHandshakeSyn_handshakeAck conv, isHandshakeAck_handshakeAck conv,
    isClosePacket_handshakeAck conv, ackConv_handshakeAck conv, handleRead_handshakeAck conv⟩,
  fun _ h => ⟨h.not_isHandshakeSyn, h.not_isHandshakeAck, h.not_isClosePacket,
    exists_handleRead_segment h⟩⟩

/-- An empty segment of the conversation 1. -/
theorem control_apart_push :
    isHandshakeAck ([1, 0, 0, 0, 81] ++ List.replicate 19 0) = false :=
  ((control_apart idleStack (init {})).2 _ ⟨81, rfl, by decide, by decide⟩).2.1

end CodingDemo.Libcpp.KcpLayer
