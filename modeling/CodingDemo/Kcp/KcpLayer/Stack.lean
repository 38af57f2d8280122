import CodingDemo.Kcp.Ikcp.Conversation
import CodingDemo.Kcp.KcpLayer.Handshake
import CodingDemo.Kcp.KcpLayer.Live

/-!
# The KCP stack under the layer

The layer is modelled over any stack. The stack it uses is the control block of KCP, of which no
call faults: it is `stack`, and it has what the layer relies on.

## Main definitions

* `stack`: the calls of the layer on control blocks
* `KcpLayer.Says`: the payloads that a layer sends

## Main results

* `keepsConv_stack`, `outputsSegments_stack`: what the layer relies on, discharged
* `KcpLayer.stack_says`: what a layer over the stack has sent
-/

namespace CodingDemo.Libcpp

open CodingDemo.Kcp (IKCPCB IKCPSEG Sound OfConv IKCP_CMD_PUSH IKCP_CMD_ACK IKCP_CMD_WASK
  IKCP_CMD_WINS)

/-! ## The stack -/

/-- The value of a call that returns. -/
def returned {ε α : Type} {P : α → Prop} :
    (e : Except ε α) → (∃ a, e = .ok a ∧ P a) → {a // e = .ok a ∧ P a}
  | .ok a, h => ⟨a, rfl, by
    obtain ⟨a', heq, ha⟩ := h
    exact Except.ok.inj heq ▸ ha⟩
  | .error _, h => absurd h (by
    rintro ⟨a', heq, -⟩
    cases heq)

/-- A control block in a state that calls keep. -/
abbrev KcpStack : Type := {kcp : IKCPCB // Sound kcp}

namespace KcpStack

def update (cb : KcpStack) (current : BitVec 32) :
    {r : IKCPCB × List (List UInt8) // cb.1.ikcp_update current = .ok r ∧ Sound r.1} :=
  returned _ (by
    obtain ⟨kcp', datagrams, heq, h⟩ := cb.2.update current
    exact ⟨(kcp', datagrams), heq, h⟩)

def input (cb : KcpStack) (data : List UInt8) :
    {r : IKCPCB × ℤ // cb.1.ikcp_input data = .ok r ∧ Sound r.1} :=
  returned _ (by
    obtain ⟨kcp', n, heq, h⟩ := cb.2.input data
    exact ⟨(kcp', n), heq, h⟩)

def send (cb : KcpStack) (msg : List UInt8) :
    {r : IKCPCB × ℤ // cb.1.ikcp_send msg = .ok r ∧ Sound r.1} :=
  returned _ (by
    obtain ⟨kcp', n, heq, h⟩ := cb.2.send msg
    exact ⟨(kcp', n), heq, h⟩)

def recv (cb : KcpStack) (len : ℤ) :
    {r : IKCPCB × ℤ × List UInt8 // cb.1.ikcp_recv len = .ok r ∧ Sound r.1} :=
  returned _ (by
    obtain ⟨kcp', n, buffer, heq, h⟩ := cb.2.recv len
    exact ⟨(kcp', n, buffer), heq, h⟩)

end KcpStack

/-- The control block after a call. -/
def after {β : Type} {e : Except Kcp.Fault (IKCPCB × β)}
    (r : {r : IKCPCB × β // e = .ok r ∧ Sound r.1}) : KcpStack :=
  ⟨r.1.1, r.2.2⟩

def stack : Ikcp KcpStack where
  create conv := ⟨Kcp.ikcp_create conv, Kcp.sound_create conv 0⟩
  nodelay cb := ⟨cb.1.ikcp_nodelay 1 10 2 1, cb.2.nodelay 1 10 2 1⟩
  update cb current := (after (cb.update current), (cb.update current).1.2)
  input cb data := after (cb.input data)
  send cb msg := after (cb.send msg)
  recv cb len := (after (cb.recv len), (cb.recv len).1.2)
  conv cb := cb.1.conv

/-! ## What the layer relies on -/

/-- `r` is a variable, so that no call is unfolded. -/
theorem of_after {β : Type} {e : Except Kcp.Fault (IKCPCB × β)} {P : IKCPCB → Prop}
    (h : ∀ kcp' b, e = .ok (kcp', b) → P kcp') (r : {r : IKCPCB × β // e = .ok r ∧ Sound r.1}) :
    P (after r).1 :=
  h r.1.1 r.1.2 r.2.1

theorem conv_after {β : Type} {kcp : IKCPCB} {e : Except Kcp.Fault (IKCPCB × β)}
    (h : ∀ kcp' b, e = .ok (kcp', b) → kcp'.conv = kcp.conv)
    (r : {r : IKCPCB × β // e = .ok r ∧ Sound r.1}) : (after r).1.conv = kcp.conv :=
  of_after (P := fun kcp' => kcp'.conv = kcp.conv) h r

theorem stack_conv (cb : KcpStack) : stack.conv cb = cb.1.conv := rfl

theorem stack_create (conv : BitVec 32) :
    stack.create conv = ⟨Kcp.ikcp_create conv, Kcp.sound_create conv 0⟩ := rfl

theorem stack_nodelay (cb : KcpStack) :
    stack.nodelay cb = ⟨cb.1.ikcp_nodelay 1 10 2 1, cb.2.nodelay 1 10 2 1⟩ := rfl

theorem stack_update (cb : KcpStack) (current : BitVec 32) :
    stack.update cb current = (after (cb.update current), (cb.update current).1.2) := rfl

theorem stack_input (cb : KcpStack) (data : List UInt8) :
    stack.input cb data = after (cb.input data) := rfl

theorem stack_send (cb : KcpStack) (msg : List UInt8) :
    stack.send cb msg = after (cb.send msg) := rfl

theorem stack_recv (cb : KcpStack) (len : ℤ) :
    stack.recv cb len = (after (cb.recv len), (cb.recv len).1.2) := rfl

theorem keepsConv_stack : stack.KeepsConv := by
  constructor
  · intro conv
    rw [stack_conv, stack_create]
    rfl
  · intro cb
    rw [stack_conv, stack_conv, stack_nodelay]
    exact Kcp.nodelay_conv cb.1 1 10 2 1
  · intro cb current
    rw [stack_conv, stack_conv, stack_update]
    exact conv_after (fun _ _ h => (cb.2.update_conv h).1) (cb.update current)
  · intro cb data
    rw [stack_conv, stack_conv, stack_input]
    exact conv_after (fun _ _ h => cb.2.input_conv h) (cb.input data)
  · intro cb msg
    rw [stack_conv, stack_conv, stack_send]
    exact conv_after (fun _ _ h => Kcp.send_conv h) (cb.send msg)
  · intro cb len
    rw [stack_conv, stack_conv, stack_recv]
    exact conv_after (fun _ _ h => cb.2.recv_conv h) (cb.recv len)

theorem toNat_append_byte {w : ℕ} (x : BitVec w) (y : BitVec 8) :
    (x ++ y).toNat = 256 * x.toNat + y.toNat := by
  rw [BitVec.toNat_append, ← Nat.shiftLeft_add_eq_or_of_lt y.isLt, Nat.shiftLeft_eq]
  omega

/-- `ikcp_getconv` reads the conversation of the first segment. -/
theorem getconv_bytes (seg : IKCPSEG) (rest : List UInt8) :
    KcpLayer.getconv (seg.bytes ++ rest) = .ok seg.conv := by
  simp only [IKCPSEG.bytes, Kcp.ikcp_encode_seg, Kcp.ikcp_encode32u, littleEndian,
    List.cons_append, KcpLayer.getconv]
  refine congrArg Except.ok (BitVec.eq_of_toNat_eq ?_)
  have hlt := seg.conv.isLt
  simp only [toNat_append_byte, Nat.toUInt8_eq, UInt8.toBitVec_ofNat', BitVec.toNat_ofNat]
  omega

theorem isSegment_bytes {seg : IKCPSEG}
    (h : seg.cmd ∈ [IKCP_CMD_PUSH, IKCP_CMD_ACK, IKCP_CMD_WASK, IKCP_CMD_WINS])
    (rest : List UInt8) : IsSegment (seg.bytes ++ rest) := by
  refine ⟨(seg.cmd.setWidth 8).toNat.toUInt8, ?_, ?_⟩
  · simp [IKCPSEG.bytes, Kcp.ikcp_encode_seg, Kcp.ikcp_encode32u, Kcp.ikcp_encode8u, littleEndian]
  · simp only [List.mem_cons, List.not_mem_nil, or_false] at h
    rcases h with h | h | h | h <;> rw [h] <;> decide

/-- A datagram of a conversation names it, and is not taken for a text of a handshake. -/
theorem isSegment_and_getconv {conv : BitVec 32} {buf : List UInt8} (h : OfConv conv buf) :
    IsSegment buf ∧ KcpLayer.getconv buf = .ok conv := by
  obtain ⟨segs, hne, rfl, hsegs⟩ := h
  obtain ⟨seg, rest, rfl⟩ := List.exists_cons_of_ne_nil hne
  obtain ⟨rfl, hcmd⟩ := hsegs seg List.mem_cons_self
  rw [List.flatMap_cons]
  exact ⟨isSegment_bytes hcmd _, getconv_bytes seg _⟩

theorem ofConv_of_returned {kcp : IKCPCB} {current : BitVec 32} {buf : List UInt8}
    (hkcp : Sound kcp)
    (r : {r : IKCPCB × List (List UInt8) // kcp.ikcp_update current = .ok r ∧ Sound r.1})
    (h : buf ∈ r.1.2) : OfConv kcp.conv buf := by
  obtain ⟨⟨kcp', datagrams⟩, heq, _⟩ := r
  exact (hkcp.update_conv heq).2 buf h

theorem ofConv_update {cb : KcpStack} {current : BitVec 32} {buf : List UInt8}
    (h : buf ∈ (stack.update cb current).2) : OfConv (stack.conv cb) buf :=
  ofConv_of_returned cb.2 (cb.update current) h

theorem outputsSegments_stack : stack.OutputsSegments := fun _ _ _ hbuf =>
  (isSegment_and_getconv (ofConv_update hbuf)).1

/-! ## What a layer sends -/

namespace KcpLayer

section AnyStack

variable {κ : Type} {K : Ikcp κ} {q q' : KcpLayer κ}

theorem exists_of_send {conv current : BitVec 32} {msg : List UInt8}
    (hs : KcpLayer.step K q (.send conv msg current) = .ok q') :
    ∃ cb, (q.info conv).kcpcb = some cb ∧
      q' = (q.setInfo conv (q.info conv)).kcpUpdate K conv (K.send cb msg) current := by
  cases hcb : (q.info conv).kcpcb with
  | none =>
    simp only [KcpLayer.step, KcpLayer.send, hcb] at hs
    cases hs
  | some cb =>
    simp only [KcpLayer.step, KcpLayer.send, hcb] at hs
    exact ⟨cb, rfl, (Except.ok.inj hs).symm⟩

theorem exists_of_handleData {id current : BitVec 32} {payload : List UInt8}
    (hs : q.handleData K id payload current = .ok q') :
    ∃ cb, (q.info id).kcpcb = some cb ∧
      let read := (q.setInfo id (q.info id)).kcpUpdate K id (K.input cb payload) current
      q'.connections = read.connections ∧ q'.sent = read.sent := by
  cases hcb : (q.info id).kcpcb with
  | none =>
    simp only [KcpLayer.handleData, hcb] at hs
    cases hs
  | some cb =>
    simp only [KcpLayer.handleData, hcb] at hs
    obtain rfl := Except.ok.inj hs
    refine ⟨cb, rfl, ?_⟩
    split_ifs
    · exact ⟨rfl, rfl⟩
    · exact ⟨rfl, rfl⟩

/-- A message that is received changes only the entry. -/
theorem exists_of_receive {len : ℤ}
    (hs : KcpLayer.step K q (.receive len) = .ok q') :
    ∃ conv info info', q' =
      (({ q with dataFd := q.dataFd.take iuint32 } : KcpLayer κ).setInfo conv info).setInfo conv
        info' := by
  simp only [KcpLayer.step, KcpLayer.receive] at hs
  split at hs
  · cases hs
  · obtain rfl := Except.ok.inj hs
    exact ⟨_, _, _, rfl⟩

end AnyStack

variable {q q' q'' : KcpLayer KcpStack} {conv id current : BitVec 32} {cb : KcpStack}
  {payload : List UInt8} {peerAddr : SockaddrIn}

/-- A text of a handshake, or segments of a conversation that the layer has. -/
def Says (q : KcpLayer KcpStack) (payload : List UInt8) : Prop :=
  payload = KCP_HANDSHAKE_SYN ∨
    (∃ conv, payload = handshakeAck conv ∧ q.connections conv ≠ none) ∨
    ∃ conv, OfConv conv payload ∧ getconv payload = .ok conv ∧ q.connections conv ≠ none

/-- Entries are only added, and what is sent is said. -/
structure Goes (q q' : KcpLayer KcpStack) : Prop where
  connections : ∀ conv, q.connections conv ≠ none → q'.connections conv ≠ none
  sent : ∀ d ∈ q'.sent, d ∈ q.sent ∨ q'.Says d.payload

theorem Says.mono (h : q.Says payload)
    (hle : ∀ conv, q.connections conv ≠ none → q'.connections conv ≠ none) : q'.Says payload := by
  rcases h with h | ⟨conv, h, hsome⟩ | ⟨conv, h, hget, hsome⟩
  · exact .inl h
  · exact .inr (.inl ⟨conv, h, hle conv hsome⟩)
  · exact .inr (.inr ⟨conv, h, hget, hle conv hsome⟩)

namespace Goes

theorem refl (q : KcpLayer KcpStack) : Goes q q := ⟨fun _ h => h, fun _ h => .inl h⟩

theorem trans (h : Goes q q') (h' : Goes q' q'') : Goes q q'' where
  connections conv hsome := h'.connections conv (h.connections conv hsome)
  sent d hd := by
    rcases h'.sent d hd with hd | hd
    · exact (h.sent d hd).imp_right fun hsays => hsays.mono h'.connections
    · exact .inr hd

theorem setInfo (q : KcpLayer KcpStack) (conv : BitVec 32) (info : KcpConnInfo KcpStack) :
    Goes q (q.setInfo conv info) where
  connections id hsome := by
    rw [connections_setInfo]
    split_ifs
    · exact Option.some_ne_none info
    · exact hsome
  sent _ hd := .inl hd

theorem sendto {buf : List UInt8} (h : q.Says buf) (addr : SockaddrIn) :
    Goes q (q.sendto buf addr) where
  connections _ hsome := hsome
  sent d hd := by
    rcases List.mem_append.mp hd with hd | hd
    · exact .inl hd
    · obtain rfl := List.mem_singleton.mp hd
      exact .inr h

/-- The outputs of a control block name its conversation. -/
theorem kcpUpdate (hconv : stack.conv cb = conv) :
    Goes q (q.kcpUpdate stack conv cb current) ∧
      (q.kcpUpdate stack conv cb current).connections conv ≠ none := by
  apply kcpUpdate_output_induction
    (motive := fun q' => Goes q q' ∧ q'.connections conv ≠ none)
  · exact ⟨setInfo q conv _, connections_setInfo_ne_none _⟩
  · rintro q' buf hbuf ⟨hgoes, hsome⟩
    have hof : OfConv conv buf := hconv ▸ ofConv_update hbuf
    have hset := setInfo q' conv (q'.info conv)
    rw [output, (keepsConv_stack.update cb current).trans hconv]
    have hsend : Goes (q'.setInfo conv (q'.info conv)) (q'.sendUdpMsg conv buf) :=
      sendto (.inr (.inr ⟨conv, hof, (isSegment_and_getconv hof).2,
        connections_setInfo_ne_none _⟩)) _
    exact ⟨(hgoes.trans hset).trans hsend, connections_setInfo_ne_none _⟩

/-- The notifications are no part of it. -/
theorem congr (h : Goes q q') (hconnections : q''.connections = q'.connections)
    (hsent : q''.sent = q'.sent) : Goes q q'' where
  connections conv hsome := hconnections ▸ h.connections conv hsome
  sent d hd := by
    rw [Says, hconnections]
    exact h.sent d (hsent ▸ hd)

theorem handleSyn (q : KcpLayer KcpStack) (peerAddr : SockaddrIn) (current : BitVec 32) :
    Goes q (q.handleSyn stack peerAddr current) := by
  let entered := (q.setKcpcb q.nextConv (stack.create q.nextConv)).setPeerAddr q.nextConv peerAddr
  have hentered : Goes q entered := (setInfo ..).trans (setInfo ..)
  have hconv : stack.conv (stack.nodelay (stack.create q.nextConv)) = q.nextConv :=
    (keepsConv_stack.nodelay _).trans (keepsConv_stack.create q.nextConv)
  obtain ⟨hupdate, hsome⟩ : Goes entered (entered.kcpUpdate stack q.nextConv _ current) ∧ _ :=
    kcpUpdate hconv
  have hack := sendto (.inr (.inl ⟨q.nextConv, rfl, hsome⟩)) peerAddr
  exact ((hentered.trans hupdate).trans hack).congr rfl rfl

theorem handleAck (q : KcpLayer KcpStack) (id : BitVec 32) (peerAddr : SockaddrIn)
    (current : BitVec 32) : Goes q (q.handleAck stack id peerAddr current) := by
  have hentered : Goes q
      ((q.setKcpcb id (stack.create id)).setPeerAddr q.nextConv peerAddr) :=
    (setInfo ..).trans (setInfo ..)
  have hconv : stack.conv (stack.nodelay (stack.create id)) = id :=
    (keepsConv_stack.nodelay _).trans (keepsConv_stack.create id)
  exact (hentered.trans (kcpUpdate hconv).1).congr rfl rfl

/-- A control block stays in the conversation of its entry. -/
theorem conv_kcpcb (h : Live stack q) (hcb : (q.info id).kcpcb = some cb) : stack.conv cb = id := by
  have hsome : q.connections id ≠ none := fun hnone => by
    rw [kcpcb_of_connections_eq_none hnone] at hcb
    cases hcb
  obtain ⟨cb', hcb', hcreated⟩ := h.created hsome
  obtain rfl := Option.some.inj (hcb'.symm.trans hcb)
  exact keepsConv_stack.conv hcreated

theorem handleData (h : Live stack q)
    (hs : q.handleData stack id payload current = .ok q') : Goes q q' := by
  obtain ⟨cb, hcb, hconnections, hsent⟩ := exists_of_handleData hs
  have hconv : stack.conv (stack.input cb payload) = id :=
    (keepsConv_stack.input cb payload).trans (conv_kcpcb h hcb)
  exact ((setInfo ..).trans (kcpUpdate hconv).1).congr hconnections hsent

theorem step {e : Event} (h : Live stack q) (hs : KcpLayer.step stack q e = .ok q') :
    Goes q q' := by
  cases e with
  | handleRead datagram current =>
    cases handled_of_handleRead hs with
    | failed | empty | close => exact refl q
    | syn => exact handleSyn q _ current
    | ack => exact handleAck q _ _ current
    | data _ _ _ _ hdata => exact handleData h hdata
  | connect =>
    obtain rfl := Except.ok.inj hs
    exact sendto (.inl rfl) q.inetAddr
  | getConnectionConv =>
    obtain rfl := Except.ok.inj hs
    exact (refl q).congr rfl rfl
  | send conv msg current =>
    obtain ⟨cb, hcb, rfl⟩ := exists_of_send hs
    have hconv : stack.conv (stack.send cb msg) = conv :=
      (keepsConv_stack.send cb msg).trans (conv_kcpcb h hcb)
    exact (setInfo ..).trans (kcpUpdate hconv).1
  | receive len =>
    obtain ⟨conv, info, info', rfl⟩ := exists_of_receive hs
    have hread : Goes q { q with dataFd := q.dataFd.take iuint32 } := (refl q).congr rfl rfl
    exact (hread.trans (setInfo ..)).trans (setInfo ..)

end Goes

/-- **A layer over the stack**, whose events name conversations that it has, has no null entry. It
sends the texts of the handshake, and segments of conversations that it has. -/
theorem stack_says : stack.KeepsConv ∧ stack.OutputsSegments ∧
    ∀ q, ((machine stack).guard Named).Reachable q →
      Live stack q ∧ ∀ d ∈ q.sent, q.Says d.payload := by
  refine ⟨keepsConv_stack, outputsSegments_stack, fun q hr => hr.invariant
    (I := fun q => Live stack q ∧ ∀ d ∈ q.sent, q.Says d.payload) ?_ ?_⟩
  · -- What has been said before can still be said, since entries are only added.
    rintro q e q' ⟨hlive, hsent⟩ he hs
    have hgoes := Goes.step hlive hs
    refine ⟨hlive.step keepsConv_stack he.2 hs, fun d hd => ?_⟩
    rcases hgoes.sent d hd with hd | hsays
    · exact (hsent d hd).mono hgoes.connections
    · exact hsays
  · rintro q ⟨inetAddr, rfl⟩
    refine ⟨fun conv info hinfo => ?_, fun d hd => absurd hd List.not_mem_nil⟩
    cases hinfo

end KcpLayer

end CodingDemo.Libcpp
