import CodingDemo.Kcp.KcpLayer.Control

/-!
# The peer of a connection

When its handshake is acknowledged, a client enters the control block under the conversation id of
the acknowledgement, but the address of the sender under its own next id, which counts the
connections it has itself accepted.

## Main definitions

* `SendsTo`: the datagrams of a conversation are sent to an address

## Main results

* `peerAddr_handleAck`: the addresses after an acknowledgement
* `sendsTo_handleAck_iff`: when the client sends to where the acknowledgement came from
* `nextConv_of_noSyn`: the next id of a client that accepts no connection
-/

namespace CodingDemo.Libcpp.KcpLayer

universe u

variable {κ : Type u} {K : Ikcp κ} {q q' : KcpLayer κ} {e : Event} {inetAddr : SockaddrIn}
  {es : List Event}

/-- The conversation has its peer at the address, and all datagrams that are output for it are sent
there. -/
def SendsTo (K : Ikcp κ) (q : KcpLayer κ) (conv : BitVec 32) (addr : SockaddrIn) : Prop :=
  (q.info conv).peerAddr = addr ∧ ∀ cb buf, K.conv cb = conv →
    (q.output K cb buf).sent = q.sent ++ [{ payload := buf, peerAddr := addr }]

/-- The second part follows from the first. -/
theorem sendsTo_iff {conv : BitVec 32} {addr : SockaddrIn} :
    SendsTo K q conv addr ↔ (q.info conv).peerAddr = addr := by
  refine ⟨fun h => h.1, fun h => ⟨h, fun cb buf hconv => ?_⟩⟩
  rw [output, hconv, ← h]
  rfl

theorem peerAddr_setPeerAddr {conv id : BitVec 32} {addr : SockaddrIn} :
    ((q.setPeerAddr conv addr).info id).peerAddr =
      if id = conv then addr else (q.info id).peerAddr := by
  unfold setPeerAddr
  split_ifs with h
  · rw [h, info_setInfo_self]
  · rw [info_setInfo_of_ne _ h]

theorem peerAddr_setKcpcb {conv id : BitVec 32} {cb : κ} :
    ((q.setKcpcb conv cb).info id).peerAddr = (q.info id).peerAddr := by
  unfold setKcpcb
  by_cases h : id = conv
  · rw [h, info_setInfo_self]
  · rw [info_setInfo_of_ne _ h]

/-- The address of the sender is entered under the next id of the client. -/
theorem peerAddr_handleAck (id conv : BitVec 32) (addr : SockaddrIn) (current : BitVec 32) :
    ((q.handleAck K id addr current).info conv).peerAddr =
      if conv = q.nextConv then addr else (q.info conv).peerAddr := by
  calc ((q.handleAck K id addr current).info conv).peerAddr
      = (((q.setKcpcb id (K.create id)).setPeerAddr q.nextConv addr).info conv).peerAddr :=
        peerAddr_kcpUpdate
    _ = if conv = q.nextConv then addr else (q.info conv).peerAddr := by
        rw [peerAddr_setPeerAddr, peerAddr_setKcpcb]

/-- A client that has processed the acknowledgement of a conversation sends to where it came from if
and only if the conversation id is its own next id, or it has had that address for the conversation
before. -/
theorem sendsTo_handleAck_iff (q : KcpLayer κ) (id : BitVec 32) (addr : SockaddrIn)
    (current : BitVec 32) : ∃ q',
    q.handleRead K (some { payload := handshakeAck id, peerAddr := addr }) current = .ok q' ∧
      (SendsTo K q' id addr ↔ id = q.nextConv ∨ (q.info id).peerAddr = addr) := by
  refine ⟨_, handleRead_handshakeAck id addr current, ?_⟩
  rw [sendsTo_iff, peerAddr_handleAck]
  split_ifs with h
  · exact iff_of_true rfl (.inl h)
  · exact ⟨.inr, fun hor => hor.resolve_left h⟩

/-! ## A client -/

/-- No handshake is received: the layer accepts no connection. -/
def NoSyn (_ : KcpLayer κ) : Event → Prop
  | .handleRead (some d) _ => isHandshakeSyn d.payload = false
  | _ => True

/-- Only an accepted connection takes the next id. -/
theorem nextConv_step (hs : q.step K e = .ok q') (he : q.NoSyn e) : q'.nextConv = q.nextConv := by
  cases e with
  | handleRead datagram current =>
    cases handled_of_handleRead hs with
    | failed | empty | close => rfl
    | syn hsyn => exact absurd hsyn (Bool.eq_false_iff.mp he)
    | ack hsyn hack hid => simp [handleAck, notifyConnection, setPeerAddr, setKcpcb, setInfo]
    | @data d id q' hsyn hack hclose hid hdata =>
      cases hcb : (q.info id).kcpcb with
      | none =>
        simp only [handleData, hcb] at hdata
        cases hdata
      | some cb =>
        simp only [handleData, hcb] at hdata
        obtain rfl := Except.ok.inj hdata
        split_ifs <;> simp [notifyData, setInfo]
  | connect | getConnectionConv =>
    obtain rfl := Except.ok.inj hs
    rfl
  | send conv msg current =>
    simp only [step, send] at hs
    split at hs
    · cases hs
    · obtain rfl := Except.ok.inj hs
      simp [setInfo]
  | receive len =>
    simp only [step, receive] at hs
    split at hs
    · cases hs
    · obtain rfl := Except.ok.inj hs
      rfl

/-- A client that accepts no connection has 1 as its next id. -/
theorem nextConv_of_noSyn (h : ((machine K).guard NoSyn).Reachable q) : q.nextConv = 1 := by
  apply h.invariant (I := fun q => q.nextConv = 1)
  · intro q e q' hone he hs
    exact (nextConv_step hs he.2).trans hone
  · rintro q ⟨inetAddr, rfl⟩
    rfl

/-- The acknowledgement of the second client of a server makes that client send nowhere. -/
theorem exists_lost_peer : ∃ server client : KcpLayer (BitVec 32),
    (machine idleStack).Run (init {}) [synFrom 1, synFrom 2] server ∧
    server.sent.getLast? = some
      { payload := handshakeAck 2
        peerAddr := { sin_family := 2, sin_port := 2, sin_addr := 0x7f000001 } } ∧
    (init { sin_family := 2, sin_port := 9 }).handleRead idleStack
      (some { payload := handshakeAck 2, peerAddr := { sin_family := 2, sin_port := 9 } }) 0 =
      .ok client ∧
    (client.info 2).peerAddr = {} ∧
    ¬SendsTo idleStack client 2 { sin_family := 2, sin_port := 9 } := by
  have hex : ((machine idleStack).exec (init {}) [synFrom 1, synFrom 2]).map
      (fun q => q.sent.getLast?) = some (some
        { payload := handshakeAck 2
          peerAddr := { sin_family := 2, sin_port := 2, sin_addr := 0x7f000001 } }) := by decide
  obtain ⟨server, hserver, hsent⟩ := Option.map_eq_some_iff.mp hex
  have hpeer : (((init { sin_family := 2, sin_port := 9 }).handleAck idleStack 2
      { sin_family := 2, sin_port := 9 } 0).info 2).peerAddr = {} := by
    rw [peerAddr_handleAck]
    rfl
  refine ⟨server, _, Machine.run_of_exec hserver, hsent, handleRead_handshakeAck 2 _ 0, hpeer,
    fun h => ?_⟩
  rw [sendsTo_iff, hpeer] at h
  exact absurd h (by decide)

end CodingDemo.Libcpp.KcpLayer
