import CodingDemo.Kcp.KcpLayer.Notify

/-!
# The handshake of the KCP layer over a network

A server and its clients, each a KCP layer at an address of its own. The network delivers what has
been sent, in any order, and any datagram any number of times or never. A handshake has no
identifier, and a layer does not remember the ones that it has answered.

## Main definitions

* `Net`: the layers, the datagrams that have been delivered, and the calls of `ikcp_create`
* `Net.machine`: the runs of the network
* `Net.Tolerant`: a call of `connect` makes one entry, and no control block is replaced
* `Net.Once`: no message of a handshake is delivered twice

## Main results

* `KcpLayer.Quiet`: what an event that is no handshake does
* `Net.tolerant_iff_once`: in which runs the handshake is tolerant
-/

namespace CodingDemo.Libcpp

universe u

/-- The stack outputs segments only. -/
def Ikcp.OutputsSegments {κ : Type u} (K : Ikcp κ) : Prop :=
  ∀ cb current, ∀ buf ∈ (K.update cb current).2, IsSegment buf

/-- A layer for each address. -/
structure Net (κ : Type u) where
  layers : SockaddrIn → KcpLayer κ
  /-- The datagrams that have been delivered: the sender, and the place among what it has sent. -/
  delivered : List (SockaddrIn × ℕ)
  /-- The calls of `ikcp_create`: the layer, and the conversation. -/
  created : List (SockaddrIn × BitVec 32)
  /-- The entries that handshakes have made: the datagram that a `connect` has sent, and the
  conversation. -/
  accepted : List ((SockaddrIn × ℕ) × BitVec 32)

namespace Net

variable {κ : Type u} (K : Ikcp κ) (server : SockaddrIn)

def init : Net κ where
  layers _ := KcpLayer.init server
  delivered := []
  created := []
  accepted := []

def datagram? (n : Net κ) (sender : SockaddrIn) (k : ℕ) : Option Datagram :=
  (n.layers sender).sent[k]?

def setLayer (n : Net κ) (addr : SockaddrIn) (q : KcpLayer κ) : Net κ :=
  { n with layers := Function.update n.layers addr q }

/-- The conversation for which a payload makes a layer call `ikcp_create`. -/
def createdConv (q : KcpLayer κ) (payload : List UInt8) : Option (BitVec 32) :=
  if isHandshakeSyn payload then some q.nextConv
  else if isHandshakeAck payload then (ackConv payload).toOption
  else none

/-- The conversation for which a payload makes a layer accept a connection. -/
def acceptedConv (q : KcpLayer κ) (payload : List UInt8) : Option (BitVec 32) :=
  if isHandshakeSyn payload then some q.nextConv else none

inductive Event
  /-- The network delivers a datagram that has been sent. -/
  | deliver (sender : SockaddrIn) (k : ℕ) (current : BitVec 32)
  /-- A layer is called, or finds no datagram. -/
  | call (addr : SockaddrIn) (e : KcpLayer.Event)
  deriving DecidableEq

/-- The handler of a datagram. -/
def readsDatagram : KcpLayer.Event → Bool
  | .handleRead (some _) _ => true
  | _ => false

/-- A client calls `connect`; datagrams come from the network. -/
def enabled (n : Net κ) : Event → Prop
  | .deliver sender k _ => (n.datagram? sender k).isSome
  | .call addr e => (e = .connect → addr ≠ server) ∧ readsDatagram e = false

instance (n : Net κ) : (e : Event) → Decidable (enabled server n e)
  | .deliver sender k _ => inferInstanceAs (Decidable ((n.datagram? sender k).isSome = true))
  | .call addr e =>
    inferInstanceAs (Decidable ((e = .connect → addr ≠ server) ∧ readsDatagram e = false))

def deliver (n : Net κ) (sender : SockaddrIn) (k : ℕ) (d : Datagram) (current : BitVec 32) :
    Except KcpFault (Net κ) :=
  let q := n.layers d.peerAddr
  match q.handleRead K (some { payload := d.payload, peerAddr := sender }) current with
  | .error fault => .error fault
  | .ok q' =>
    .ok { n.setLayer d.peerAddr q' with
      delivered := n.delivered ++ [(sender, k)]
      created := n.created ++ (createdConv q d.payload).toList.map fun conv => (d.peerAddr, conv)
      accepted := n.accepted ++
        (acceptedConv q d.payload).toList.map fun conv => ((sender, k), conv) }

def step (n : Net κ) : Event → Except KcpFault (Net κ)
  | .deliver sender k current =>
    match n.datagram? sender k with
    | none => .ok n
    | some d => n.deliver K sender k d current
  | .call addr e =>
    match (n.layers addr).step K e with
    | .error fault => .error fault
    | .ok q' => .ok (n.setLayer addr q')

/-- The runs of a server and its clients. -/
def machine : Machine (Net κ) Event KcpFault where
  init n := n = init server
  enabled := enabled server
  step := step K

instance (n : Net κ) (e : Event) : Decidable ((machine K server).enabled n e) :=
  inferInstanceAs (Decidable (enabled server n e))

/-- Each call of `connect` leads to at most one entry, and no control block is replaced by another
call of `ikcp_create`. -/
def Tolerant (n : Net κ) : Prop :=
  (∀ syn conv conv', (syn, conv) ∈ n.accepted → (syn, conv') ∈ n.accepted → conv = conv') ∧
    n.created.Nodup

/-- A message of a handshake is delivered for the first time, and the ids of conversations have not
all been used. -/
def Once (n : Net κ) : Event → Prop
  | .deliver sender k _ =>
    ∀ d ∈ n.datagram? sender k,
      (isHandshakeSyn d.payload ∨ isHandshakeAck d.payload → (sender, k) ∉ n.delivered) ∧
        (isHandshakeSyn d.payload → n.accepted.length < 2 ^ 32)
  | .call _ _ => True

instance (n : Net κ) : (e : Event) → Decidable (n.Once e)
  | .deliver sender k _ => inferInstanceAs (Decidable (∀ d ∈ n.datagram? sender k,
      (isHandshakeSyn d.payload ∨ isHandshakeAck d.payload → (sender, k) ∉ n.delivered) ∧
        (isHandshakeSyn d.payload → n.accepted.length < 2 ^ 32)))
  | .call _ _ => isTrue trivial

instance (n : Net κ) (e : Event) : Decidable (((machine K server).guard Once).enabled n e) :=
  inferInstanceAs (Decidable (enabled server n e ∧ n.Once e))

end Net

/-! ## A segment is no message of a handshake -/

section Segments

variable {buf : List UInt8} {conv conv' : BitVec 32}

theorem isHandshakeSyn_syn : isHandshakeSyn KCP_HANDSHAKE_SYN = true := by decide

theorem not_isSegment_syn : ¬IsSegment KCP_HANDSHAKE_SYN := fun h =>
  absurd h.not_isHandshakeSyn (by rw [isHandshakeSyn_syn]; exact Bool.noConfusion)

theorem not_isSegment_ack : ¬IsSegment (handshakeAck conv) := fun h =>
  absurd h.not_isHandshakeAck (by rw [isHandshakeAck_handshakeAck]; exact Bool.noConfusion)

theorem handshakeAck_injective (h : handshakeAck conv = handshakeAck conv') : conv = conv' := by
  have hconv := congrArg ackConv h
  rw [ackConv_handshakeAck, ackConv_handshakeAck] at hconv
  exact Except.ok.inj hconv

theorem handshakeAck_ne_syn : handshakeAck conv ≠ KCP_HANDSHAKE_SYN := fun h =>
  absurd isHandshakeSyn_syn (by rw [← h, isHandshakeSyn_handshakeAck]; exact Bool.noConfusion)

end Segments

/-! ## What a layer sends -/

namespace KcpLayer

variable {κ : Type u} {K : Ikcp κ} {q q' : KcpLayer κ} {conv id current : BitVec 32} {cb : κ}
  {payload : List UInt8} {peerAddr : SockaddrIn}

/-- A layer sends segments only, and accepts no connection. -/
structure Quiet (q q' : KcpLayer κ) : Prop where
  inetAddr : q'.inetAddr = q.inetAddr
  nextConv : q'.nextConv = q.nextConv
  sent : ∃ ds, q'.sent = q.sent ++ ds ∧ ∀ d ∈ ds, IsSegment d.payload

theorem Quiet.refl (q : KcpLayer κ) : Quiet q q where
  inetAddr := rfl
  nextConv := rfl
  sent := ⟨[], (List.append_nil _).symm, by simp⟩

theorem quiet_kcpUpdate (hK : K.OutputsSegments) (q : KcpLayer κ) (conv : BitVec 32) (cb : κ)
    (current : BitVec 32) : Quiet q (q.kcpUpdate K conv cb current) := by
  apply kcpUpdate_output_induction (motive := Quiet q)
  · exact ⟨rfl, rfl, [], (List.append_nil _).symm, by simp⟩
  · rintro q' buf hbuf ⟨hinet, hnext, ds, hsent, hds⟩
    let addr := (q'.info (K.conv (K.update cb current).1)).peerAddr
    refine ⟨hinet, hnext, ds ++ [{ payload := buf, peerAddr := addr }], ?_, ?_⟩
    · rw [← List.append_assoc, ← hsent]
      rfl
    · intro d hd
      rcases List.mem_append.mp hd with hd | hd
      · exact hds d hd
      · rw [List.mem_singleton.mp hd]
        exact hK cb current buf hbuf

theorem quiet_handleAck (hK : K.OutputsSegments) :
    Quiet q (q.handleAck K id peerAddr current) :=
  have h := quiet_kcpUpdate hK ((q.setKcpcb id (K.create id)).setPeerAddr q.nextConv peerAddr) id
    (K.nodelay (K.create id)) current
  ⟨h.inetAddr, h.nextConv, h.sent⟩

theorem quiet_handleData (hK : K.OutputsSegments)
    (hs : q.handleData K id payload current = .ok q') : Quiet q q' := by
  simp only [handleData] at hs
  split at hs
  · cases hs
  · next cb _ =>
    obtain rfl := Except.ok.inj hs
    have h := quiet_kcpUpdate hK (q.setInfo id (q.info id)) id (K.input cb payload) current
    split_ifs
    · exact ⟨h.inetAddr, h.nextConv, h.sent⟩
    · exact ⟨h.inetAddr, h.nextConv, h.sent⟩

/-- What a layer sends to accept a connection. -/
theorem sent_handleSyn (hK : K.OutputsSegments) (q : KcpLayer κ) (peerAddr : SockaddrIn)
    (current : BitVec 32) :
    (q.handleSyn K peerAddr current).inetAddr = q.inetAddr ∧
      (q.handleSyn K peerAddr current).nextConv = q.nextConv + 1 ∧
      ∃ ds, (q.handleSyn K peerAddr current).sent =
          q.sent ++ (ds ++ [{ payload := handshakeAck q.nextConv, peerAddr := peerAddr }]) ∧
        ∀ d ∈ ds, IsSegment d.payload := by
  obtain ⟨hinet, -, ds, hsent, hds⟩ := quiet_kcpUpdate hK
    ((q.setKcpcb q.nextConv (K.create q.nextConv)).setPeerAddr q.nextConv peerAddr)
    q.nextConv (K.nodelay (K.create q.nextConv)) current
  refine ⟨hinet, rfl, ds, ?_, hds⟩
  rw [← List.append_assoc]
  exact congrArg (· ++ [_]) hsent

/-- Only a handshake makes a layer accept a connection. -/
theorem quiet_handleRead {datagram : Option Datagram} (hK : K.OutputsSegments)
    (hsyn : ∀ d ∈ datagram, isHandshakeSyn d.payload = false)
    (hs : q.handleRead K datagram current = .ok q') : Quiet q q' := by
  cases handled_of_handleRead hs with
  | failed | empty | close => exact .refl q
  | syn h => exact absurd h (by rw [hsyn _ rfl]; exact Bool.noConfusion)
  | ack => exact quiet_handleAck hK
  | data _ _ _ _ hdata => exact quiet_handleData hK hdata

/-- Only `connect` sends a handshake. -/
theorem quiet_step {e : Event} (hK : K.OutputsSegments) (hconnect : e ≠ .connect)
    (hread : ∀ d current, e ≠ .handleRead (some d) current) (hs : q.step K e = .ok q') :
    Quiet q q' := by
  cases e with
  | handleRead datagram current =>
    refine quiet_handleRead hK (fun d hd => ?_) hs
    obtain rfl : datagram = some d := hd
    exact absurd rfl (hread d current)
  | connect => exact absurd rfl hconnect
  | getConnectionConv =>
    obtain rfl := Except.ok.inj hs
    exact ⟨rfl, rfl, [], (List.append_nil _).symm, by simp⟩
  | send conv msg current =>
    simp only [step, send] at hs
    split at hs
    · cases hs
    · next cb _ =>
      obtain rfl := Except.ok.inj hs
      have h := quiet_kcpUpdate hK (q.setInfo conv (q.info conv)) conv (K.send cb msg) current
      exact ⟨h.inetAddr, h.nextConv, h.sent⟩
  | receive len =>
    simp only [step, receive] at hs
    split at hs
    · cases hs
    · obtain rfl := Except.ok.inj hs
      exact ⟨rfl, rfl, [], (List.append_nil _).symm, by simp⟩

end KcpLayer

namespace Net

variable {κ : Type u} {K : Ikcp κ} {server : SockaddrIn} {n n' : Net κ} {q' : KcpLayer κ}
  {a b addr : SockaddrIn} {k : ℕ} {d : Datagram} {ds : List Datagram} {conv : BitVec 32}

/-! ## The datagrams of the network -/

/-- The datagrams that a party sends: a client its handshakes, the server their acknowledgements,
and both of them segments. -/
inductive SentBy (server a : SockaddrIn) : Datagram → Prop
  | syn (ha : a ≠ server) : SentBy server a { payload := KCP_HANDSHAKE_SYN, peerAddr := server }
  | ack {conv : BitVec 32} {addr : SockaddrIn} (ha : a = server) (haddr : addr ≠ server) :
      SentBy server a { payload := handshakeAck conv, peerAddr := addr }
  | segment {d : Datagram} (h : IsSegment d.payload) : SentBy server a d

/-- The state of the handshakes: the datagrams that have been sent, and what they have led to. -/
structure Consistent (server : SockaddrIn) (n : Net κ) : Prop where
  inetAddr : ∀ a, (n.layers a).inetAddr = server
  nextConv : (n.layers server).nextConv = BitVec.ofNat 32 (n.accepted.length + 1)
  sentBy : ∀ a k d, n.datagram? a k = some d → SentBy server a d
  isSent : ∀ a k, (a, k) ∈ n.delivered → n.datagram? a k ≠ none
  synAccepted : ∀ a k, (a, k) ∈ n.delivered →
    n.datagram? a k = some { payload := KCP_HANDSHAKE_SYN, peerAddr := server } →
    ∃ conv, ((a, k), conv) ∈ n.accepted
  acceptedDelivered : ∀ syn conv, (syn, conv) ∈ n.accepted →
    syn ∈ n.delivered ∧ (server, conv) ∈ n.created
  serverCreated : ∀ conv, (server, conv) ∈ n.created ↔
    ∃ i < n.accepted.length, conv = BitVec.ofNat 32 (i + 1)
  ackCreated : ∀ k conv addr,
    n.datagram? server k = some { payload := handshakeAck conv, peerAddr := addr } →
    (server, conv) ∈ n.created
  ackUnique : ∀ k k' conv addr addr',
    n.datagram? server k = some { payload := handshakeAck conv, peerAddr := addr } →
    n.datagram? server k' = some { payload := handshakeAck conv, peerAddr := addr' } → k = k'
  clientCreated : ∀ a ≠ server, ∀ conv, (a, conv) ∈ n.created ↔ ∃ k, (server, k) ∈ n.delivered ∧
    n.datagram? server k = some { payload := handshakeAck conv, peerAddr := a }

theorem layers_setLayer_self : (n.setLayer b q').layers b = q' := Function.update_self _ _ _

theorem layers_setLayer_of_ne (h : a ≠ b) : (n.setLayer b q').layers a = n.layers a :=
  Function.update_of_ne h _ _

theorem datagram?_setLayer_of_some (hsent : q'.sent = (n.layers b).sent ++ ds)
    (h : n.datagram? a k = some d) : (n.setLayer b q').datagram? a k = some d := by
  unfold datagram? at *
  by_cases hab : a = b
  · rw [hab] at h ⊢
    rw [layers_setLayer_self, hsent]
    obtain ⟨hlt, -⟩ := List.getElem?_eq_some_iff.mp h
    rw [List.getElem?_append_left hlt, h]
  · rwa [layers_setLayer_of_ne hab]

/-- A datagram has been sent before, or is one of those that the layer has just sent. -/
theorem datagram?_setLayer (hsent : q'.sent = (n.layers b).sent ++ ds)
    (h : (n.setLayer b q').datagram? a k = some d) : n.datagram? a k = some d ∨
      a = b ∧ (n.layers b).sent.length ≤ k ∧ ds[k - (n.layers b).sent.length]? = some d := by
  unfold datagram? at *
  by_cases hab : a = b
  · rw [hab, layers_setLayer_self, hsent, List.getElem?_append] at h
    split_ifs at h with hlt
    · exact .inl (by rw [hab, h])
    · exact .inr ⟨hab, not_lt.mp hlt, h⟩
  · rw [layers_setLayer_of_ne hab] at h
    exact .inl h

theorem datagram?_of_quiet (hq : (n.layers b).Quiet q') (hd : n.datagram? a k = some d) :
    (n.setLayer b q').datagram? a k = some d := by
  obtain ⟨ds, hsent, -⟩ := hq.sent
  exact datagram?_setLayer_of_some hsent hd

/-- The server has accepted the handshake `k` of a client. -/
structure Accepts (server : SockaddrIn) (n : Net κ) (a : SockaddrIn) (k : ℕ) (q' : KcpLayer κ) :
    Prop where
  client : a ≠ server
  datagram : n.datagram? a k = some { payload := KCP_HANDSHAKE_SYN, peerAddr := server }
  inetAddr : q'.inetAddr = server
  nextConv : q'.nextConv = (n.layers server).nextConv + 1
  sent : ∃ ds, q'.sent = (n.layers server).sent ++
      (ds ++ [{ payload := handshakeAck (n.layers server).nextConv, peerAddr := a }]) ∧
    ∀ d ∈ ds, IsSegment d.payload

namespace Accepts

theorem datagram?_of_some (h : Accepts server n a k q') (a' : SockaddrIn) (k' : ℕ) (d : Datagram)
    (hd : n.datagram? a' k' = some d) : (n.setLayer server q').datagram? a' k' = some d := by
  obtain ⟨ds, hsent, -⟩ := h.sent
  exact datagram?_setLayer_of_some hsent hd

/-- What the server has just sent is a segment, or the acknowledgement, which comes last. -/
theorem datagram? (h : Accepts server n a k q') : ∃ last, ∀ a' k' d,
    (n.setLayer server q').datagram? a' k' = some d →
      n.datagram? a' k' = some d ∨ IsSegment d.payload ∨ a' = server ∧ k' = last ∧
        d = { payload := handshakeAck (n.layers server).nextConv, peerAddr := a } := by
  obtain ⟨ds, hsent, hds⟩ := h.sent
  refine ⟨(n.layers server).sent.length + ds.length, fun a' k' d hd => ?_⟩
  rcases datagram?_setLayer hsent hd with hd | ⟨rfl, hle, hd⟩
  · exact .inl hd
  rw [List.getElem?_append] at hd
  split_ifs at hd with hlt
  · exact .inr (.inl (hds d (List.mem_of_getElem? hd)))
  · obtain ⟨hlast, heq⟩ := List.getElem?_eq_some_iff.mp hd
    rw [List.length_singleton] at hlast
    refine .inr (.inr ⟨rfl, by omega, ?_⟩)
    rw [← heq]
    exact List.getElem_singleton _

/-- The acknowledgements of the server: those that it has sent before, and the last one. -/
theorem datagram?_ack (h : Accepts server n a k q') : ∃ last, ∀ k' conv addr,
    (n.setLayer server q').datagram? server k' =
      some { payload := handshakeAck conv, peerAddr := addr } →
    n.datagram? server k' = some { payload := handshakeAck conv, peerAddr := addr } ∨
      k' = last ∧ conv = (n.layers server).nextConv := by
  obtain ⟨last, hlast⟩ := h.datagram?
  refine ⟨last, fun k' conv addr hd => ?_⟩
  rcases hlast _ _ _ hd with hd | hseg | ⟨-, hk, heq⟩
  · exact .inl hd
  · exact absurd hseg not_isSegment_ack
  · exact .inr ⟨hk, handshakeAck_injective (Datagram.mk.inj heq).1⟩

end Accepts

namespace Consistent

theorem inetAddr_setLayer (h : Consistent server n) (hinet : q'.inetAddr = server)
    (a : SockaddrIn) : ((n.setLayer b q').layers a).inetAddr = server := by
  by_cases hab : a = b
  · rw [hab, layers_setLayer_self, hinet]
  · rw [layers_setLayer_of_ne hab, h.inetAddr]

/-- What has been delivered has been sent, also when more has been sent since. -/
theorem isSent_of_sent (h : Consistent server n)
    (hold : ∀ a k d, n.datagram? a k = some d → n'.datagram? a k = some d)
    (hmem : (a, k) ∈ n.delivered) : n'.datagram? a k ≠ none := by
  obtain ⟨d, hd⟩ := Option.ne_none_iff_exists'.mp (h.isSent a k hmem)
  exact (hold a k d hd).trans_ne (Option.some_ne_none d)

/-- What has been delivered was sent before. -/
theorem datagram?_of_delivered (h : Consistent server n)
    (hold : ∀ a k d, n.datagram? a k = some d → n'.datagram? a k = some d)
    (hmem : (a, k) ∈ n.delivered) (hd : n'.datagram? a k = some d) :
    n.datagram? a k = some d := by
  obtain ⟨d', hd'⟩ := Option.ne_none_iff_exists'.mp (h.isSent a k hmem)
  rw [hd', ← hold a k d' hd', hd]

/-- What is delivered now has been sent. -/
theorem isSent_deliver (h : Consistent server n)
    (hold : ∀ a k d, n.datagram? a k = some d → n'.datagram? a k = some d)
    (hd : n.datagram? a k = some d) (a' : SockaddrIn) (k' : ℕ)
    (hmem : (a', k') ∈ n.delivered ++ [(a, k)]) : n'.datagram? a' k' ≠ none := by
  rcases List.mem_append.mp hmem with hmem | hmem
  · exact h.isSent_of_sent hold hmem
  · obtain ⟨rfl, rfl⟩ := Prod.mk.inj (List.mem_singleton.mp hmem)
    exact (hold a' k' d hd).trans_ne (Option.some_ne_none d)

/-- A delivery of something else than a handshake leaves none to accept. -/
theorem synAccepted_deliver (h : Consistent server n) (hd : n.datagram? a k = some d)
    (hne : d.payload ≠ KCP_HANDSHAKE_SYN) (a' : SockaddrIn) (k' : ℕ)
    (hmem : (a', k') ∈ n.delivered ++ [(a, k)])
    (hsyn : n.datagram? a' k' = some { payload := KCP_HANDSHAKE_SYN, peerAddr := server }) :
    ∃ conv, ((a', k'), conv) ∈ n.accepted := by
  rcases List.mem_append.mp hmem with hmem | hmem
  · exact h.synAccepted a' k' hmem hsyn
  · obtain ⟨rfl, rfl⟩ := Prod.mk.inj (List.mem_singleton.mp hmem)
    exact absurd (congrArg Datagram.payload (Option.some.inj (hd.symm.trans hsyn))) hne

/-- Only handshakes and their acknowledgements matter. -/
theorem of_segments (h : Consistent server n) (hinet : ∀ a, (n'.layers a).inetAddr = server)
    (hnext : (n'.layers server).nextConv = (n.layers server).nextConv)
    (hold : ∀ a k d, n.datagram? a k = some d → n'.datagram? a k = some d)
    (hnew : ∀ a k d, n'.datagram? a k = some d → n.datagram? a k = some d ∨ IsSegment d.payload)
    (hdelivered : n'.delivered = n.delivered) (hcreated : n'.created = n.created)
    (haccepted : n'.accepted = n.accepted) : Consistent server n' := by
  have hsyn : ∀ a k addr,
      n'.datagram? a k = some { payload := KCP_HANDSHAKE_SYN, peerAddr := addr } →
      n.datagram? a k = some { payload := KCP_HANDSHAKE_SYN, peerAddr := addr } :=
    fun a k addr hd => (hnew a k _ hd).resolve_right not_isSegment_syn
  have hack : ∀ k conv addr,
      n'.datagram? server k = some { payload := handshakeAck conv, peerAddr := addr } →
      n.datagram? server k = some { payload := handshakeAck conv, peerAddr := addr } :=
    fun k conv addr hd => (hnew server k _ hd).resolve_right not_isSegment_ack
  constructor
  case inetAddr => exact hinet
  case nextConv =>
    rw [hnext, haccepted]
    exact h.nextConv
  case sentBy =>
    intro a k d hd
    exact (hnew a k d hd).elim (h.sentBy a k d) .segment
  case isSent =>
    intro a k hmem
    exact h.isSent_of_sent hold (hdelivered ▸ hmem)
  case synAccepted =>
    intro a k hmem hd
    rw [hdelivered] at hmem
    rw [haccepted]
    exact h.synAccepted a k hmem (hsyn a k _ hd)
  case acceptedDelivered =>
    rw [haccepted, hdelivered, hcreated]
    exact h.acceptedDelivered
  case serverCreated =>
    rw [hcreated, haccepted]
    exact h.serverCreated
  case ackCreated =>
    intro k conv addr hd
    rw [hcreated]
    exact h.ackCreated k conv addr (hack k conv addr hd)
  case ackUnique =>
    intro k k' conv addr addr' hd hd'
    exact h.ackUnique k k' conv addr addr' (hack k conv addr hd) (hack k' conv addr' hd')
  case clientCreated =>
    intro a ha conv
    rw [hcreated, hdelivered, h.clientCreated a ha conv]
    exact exists_congr fun k => and_congr_right fun _ => ⟨hold _ _ _, hack k conv a⟩

/-- A layer that sends segments only. -/
theorem setLayer (h : Consistent server n) (hq : (n.layers b).Quiet q') :
    Consistent server (n.setLayer b q') := by
  obtain ⟨hinet, hnext, ds, hsent, hds⟩ := hq
  apply h.of_segments
  case hinet => exact h.inetAddr_setLayer (hinet.trans (h.inetAddr b))
  case hnext =>
    by_cases ha : server = b
    · rw [ha, layers_setLayer_self, hnext]
    · rw [layers_setLayer_of_ne ha]
  case hold => exact fun a k d hd => datagram?_setLayer_of_some hsent hd
  case hnew =>
    intro a k d hd
    refine (datagram?_setLayer hsent hd).imp_right fun ⟨_, _, hmem⟩ => ?_
    exact hds d (List.mem_of_getElem? hmem)
  case hdelivered | hcreated | haccepted => rfl

/-- A client calls `connect`. -/
theorem connect (h : Consistent server n) (ha : b ≠ server) :
    Consistent server (n.setLayer b (n.layers b).connect) := by
  have hsent : (n.layers b).connect.sent =
      (n.layers b).sent ++ [{ payload := KCP_HANDSHAKE_SYN, peerAddr := server }] := by
    rw [← h.inetAddr b]
    rfl
  have hold : ∀ a k d, n.datagram? a k = some d →
      (n.setLayer b (n.layers b).connect).datagram? a k = some d :=
    fun a k d hd => datagram?_setLayer_of_some hsent hd
  have hserver : ∀ k, (n.setLayer b (n.layers b).connect).datagram? server k =
      n.datagram? server k := by
    intro k
    unfold datagram?
    rw [layers_setLayer_of_ne ha.symm]
  constructor
  case inetAddr => exact h.inetAddr_setLayer (h.inetAddr b)
  case nextConv =>
    rw [layers_setLayer_of_ne ha.symm]
    exact h.nextConv
  case sentBy =>
    intro a k d hd
    rcases datagram?_setLayer hsent hd with hd | ⟨rfl, -, hd⟩
    · exact h.sentBy a k d hd
    · rw [List.mem_singleton.mp (List.mem_of_getElem? hd)]
      exact .syn ha
  case isSent => exact fun a k hmem => h.isSent_of_sent hold hmem
  case synAccepted =>
    exact fun a k hmem hd => h.synAccepted a k hmem (h.datagram?_of_delivered hold hmem hd)
  case acceptedDelivered => exact h.acceptedDelivered
  case serverCreated => exact h.serverCreated
  case ackCreated =>
    intro k conv addr hd
    rw [hserver] at hd
    exact h.ackCreated k conv addr hd
  case ackUnique =>
    intro k k' conv addr addr' hd hd'
    rw [hserver] at hd hd'
    exact h.ackUnique k k' conv addr addr' hd hd'
  case clientCreated =>
    intro a ha conv
    simp only [hserver]
    exact h.clientCreated a ha conv

theorem deliver_segment (h : Consistent server n) (hd : n.datagram? a k = some d)
    (hseg : IsSegment d.payload) :
    Consistent server { n with delivered := n.delivered ++ [(a, k)] } where
  __ := h
  isSent := h.isSent_deliver (fun _ _ _ hd => hd) hd
  synAccepted := h.synAccepted_deliver hd fun heq => not_isSegment_syn (heq ▸ hseg)
  acceptedDelivered := fun syn conv hmem =>
    (h.acceptedDelivered syn conv hmem).imp_left (List.mem_append_left _)
  clientCreated := by
    intro a' ha conv
    refine (h.clientCreated a' ha conv).trans (exists_congr fun k' => and_congr_left fun hack => ?_)
    have hne : (server, k') ≠ (a, k) := by
      rintro heq
      obtain ⟨rfl, rfl⟩ := Prod.mk.inj heq
      obtain rfl := Option.some.inj (hd.symm.trans hack)
      exact not_isSegment_ack hseg
    simp [hne]

theorem deliver_ack (h : Consistent server n) (hb : b ≠ server)
    (hd : n.datagram? server k = some { payload := handshakeAck conv, peerAddr := b }) :
    Consistent server { n with
      delivered := n.delivered ++ [(server, k)], created := n.created ++ [(b, conv)] } where
  __ := h
  isSent := h.isSent_deliver (fun _ _ _ hd => hd) hd
  synAccepted := h.synAccepted_deliver hd handshakeAck_ne_syn
  acceptedDelivered := fun syn conv' hmem =>
    (h.acceptedDelivered syn conv' hmem).imp (List.mem_append_left _) (List.mem_append_left _)
  serverCreated := by
    intro conv'
    rw [← h.serverCreated conv', List.mem_append, List.mem_singleton, Prod.mk.injEq]
    exact or_iff_left fun heq => hb heq.1.symm
  ackCreated := fun k' conv' addr hd' => List.mem_append_left _ (h.ackCreated k' conv' addr hd')
  clientCreated := by
    intro a' ha conv'
    simp only [List.mem_append, List.mem_singleton]
    constructor
    · rintro (hmem | heq)
      · obtain ⟨k', hk', hack⟩ := (h.clientCreated a' ha conv').mp hmem
        exact ⟨k', .inl hk', hack⟩
      · obtain ⟨rfl, rfl⟩ := Prod.mk.inj heq
        exact ⟨k, .inr rfl, hd⟩
    · rintro ⟨k', hk' | heq, hack⟩
      · exact .inl ((h.clientCreated a' ha conv').mpr ⟨k', hk', hack⟩)
      · obtain ⟨-, rfl⟩ := Prod.mk.inj heq
        obtain ⟨hpayload, rfl⟩ := Datagram.mk.inj (Option.some.inj (hd.symm.trans hack))
        exact .inr (Prod.ext rfl (handshakeAck_injective hpayload).symm)

/-- The next id has been used if and only if all ids have. -/
theorem nextConv_mem_created (h : Consistent server n) :
    (server, (n.layers server).nextConv) ∈ n.created ↔ 2 ^ 32 ≤ n.accepted.length := by
  rw [h.nextConv, h.serverCreated]
  constructor
  · rintro ⟨i, hi, heq⟩
    have heq := congrArg BitVec.toNat heq
    simp only [BitVec.toNat_ofNat] at heq
    omega
  · intro hle
    refine ⟨n.accepted.length - 2 ^ 32, by omega, BitVec.eq_of_toNat_eq ?_⟩
    simp only [BitVec.toNat_ofNat]
    omega

theorem deliver_syn (h : Consistent server n) (hacc : Accepts server n a k q')
    (hlt : n.accepted.length < 2 ^ 32) :
    Consistent server { n.setLayer server q' with
      delivered := n.delivered ++ [(a, k)]
      created := n.created ++ [(server, (n.layers server).nextConv)]
      accepted := n.accepted ++ [((a, k), (n.layers server).nextConv)] } where
  inetAddr := h.inetAddr_setLayer hacc.inetAddr
  nextConv := by
    refine (congrArg KcpLayer.nextConv layers_setLayer_self).trans ?_
    rw [hacc.nextConv, h.nextConv, List.length_append, List.length_singleton,
      BitVec.ofNat_add (n.accepted.length + 1) 1]
    rfl
  sentBy := by
    obtain ⟨last, hnew⟩ := hacc.datagram?
    intro a' k' d' hd'
    rcases hnew a' k' d' hd' with hd' | hseg | ⟨rfl, -, rfl⟩
    · exact h.sentBy a' k' d' hd'
    · exact .segment hseg
    · exact .ack rfl hacc.client
  isSent := h.isSent_deliver hacc.datagram?_of_some hacc.datagram
  synAccepted := by
    intro a' k' hmem hsyn
    rcases List.mem_append.mp hmem with hmem | hmem
    · obtain ⟨conv, hconv⟩ :=
        h.synAccepted a' k' hmem (h.datagram?_of_delivered hacc.datagram?_of_some hmem hsyn)
      exact ⟨conv, List.mem_append_left _ hconv⟩
    · obtain ⟨rfl, rfl⟩ := Prod.mk.inj (List.mem_singleton.mp hmem)
      exact ⟨_, List.mem_append_right _ (List.mem_singleton_self _)⟩
  acceptedDelivered := by
    intro syn conv hmem
    rcases List.mem_append.mp hmem with hmem | hmem
    · exact (h.acceptedDelivered syn conv hmem).imp
        (List.mem_append_left _) (List.mem_append_left _)
    · obtain ⟨rfl, rfl⟩ := Prod.mk.inj (List.mem_singleton.mp hmem)
      exact ⟨List.mem_append_right _ (List.mem_singleton_self _),
        List.mem_append_right _ (List.mem_singleton_self _)⟩
  serverCreated := by
    intro conv
    simp only [List.mem_append, List.mem_singleton, List.length_append, List.length_singleton,
      h.serverCreated, Prod.mk.injEq, true_and, h.nextConv]
    constructor
    · rintro (⟨i, hi, heq⟩ | heq)
      · exact ⟨i, by omega, heq⟩
      · exact ⟨_, by omega, heq⟩
    · rintro ⟨i, hi, heq⟩
      rcases Nat.lt_succ_iff_lt_or_eq.mp hi with hi | rfl
      · exact .inl ⟨i, hi, heq⟩
      · exact .inr heq
  ackCreated := by
    obtain ⟨last, hack⟩ := hacc.datagram?_ack
    intro k' conv addr hd'
    rcases hack k' conv addr hd' with hd' | ⟨-, rfl⟩
    · exact List.mem_append_left _ (h.ackCreated k' conv addr hd')
    · exact List.mem_append_right _ (List.mem_singleton_self _)
  ackUnique := by
    obtain ⟨last, hack⟩ := hacc.datagram?_ack
    have hunused : (server, (n.layers server).nextConv) ∉ n.created :=
      fun hmem => absurd (h.nextConv_mem_created.mp hmem) (by omega)
    intro k₁ k₂ conv addr addr' hd₁ hd₂
    rcases hack k₁ conv addr hd₁ with hd₁ | ⟨hk₁, hconv₁⟩
    · rcases hack k₂ conv addr' hd₂ with hd₂ | ⟨-, hconv₂⟩
      · exact h.ackUnique k₁ k₂ conv addr addr' hd₁ hd₂
      · exact absurd (hconv₂ ▸ h.ackCreated k₁ conv addr hd₁) hunused
    · rcases hack k₂ conv addr' hd₂ with hd₂ | ⟨hk₂, -⟩
      · exact absurd (hconv₁ ▸ h.ackCreated k₂ conv addr' hd₂) hunused
      · rw [hk₁, hk₂]
  clientCreated := by
    intro a' ha' conv
    have hne : (a', conv) ≠ (server, (n.layers server).nextConv) := fun heq =>
      ha' (Prod.mk.inj heq).1
    simp only [List.mem_append, List.mem_singleton, hne, or_false, h.clientCreated a' ha' conv]
    refine exists_congr fun k' => ⟨fun ⟨hmem, hd'⟩ => ?_, ?_⟩
    · exact ⟨.inl hmem, hacc.datagram?_of_some _ _ _ hd'⟩
    rintro ⟨hmem | heq, hd'⟩
    · exact ⟨hmem, h.datagram?_of_delivered hacc.datagram?_of_some hmem hd'⟩
    · exact absurd (Prod.mk.inj heq).1.symm hacc.client

end Consistent

/-! ## The steps -/

/-- What a delivery leads to. -/
inductive Delivers (server : SockaddrIn) (n : Net κ) : SockaddrIn → ℕ → Net κ → Prop
  | syn {a : SockaddrIn} {k : ℕ} {q' : KcpLayer κ} (hacc : Accepts server n a k q') :
      Delivers server n a k { n.setLayer server q' with
        delivered := n.delivered ++ [(a, k)]
        created := n.created ++ [(server, (n.layers server).nextConv)]
        accepted := n.accepted ++ [((a, k), (n.layers server).nextConv)] }
  | ack {k : ℕ} {conv : BitVec 32} {b : SockaddrIn} {q' : KcpLayer κ} (hb : b ≠ server)
      (hd : n.datagram? server k = some { payload := handshakeAck conv, peerAddr := b })
      (hq : (n.layers b).Quiet q') :
      Delivers server n server k { n.setLayer b q' with
        delivered := n.delivered ++ [(server, k)], created := n.created ++ [(b, conv)] }
  | segment {a : SockaddrIn} {k : ℕ} {d : Datagram} {q' : KcpLayer κ}
      (hd : n.datagram? a k = some d) (hseg : IsSegment d.payload)
      (hq : (n.layers d.peerAddr).Quiet q') :
      Delivers server n a k { n.setLayer d.peerAddr q' with delivered := n.delivered ++ [(a, k)] }

theorem delivers_of_deliver (hK : K.OutputsSegments) (h : Consistent server n) {current : BitVec 32}
    (hd : n.datagram? a k = some d) (hs : n.deliver K a k d current = .ok n') :
    Delivers server n a k n' := by
  simp only [deliver] at hs
  split at hs
  · cases hs
  next q' hq' =>
  obtain rfl := Except.ok.inj hs
  cases h.sentBy a k d hd with
  | syn ha =>
    have hok : (n.layers server).handleRead K
        (some { payload := KCP_HANDSHAKE_SYN, peerAddr := a }) current =
        .ok ((n.layers server).handleSyn K a current) := rfl
    obtain rfl := Except.ok.inj (hok.symm.trans hq')
    obtain ⟨hinet, hnext, hsent⟩ := KcpLayer.sent_handleSyn hK (n.layers server) a current
    exact .syn ⟨ha, hd, hinet.trans (h.inetAddr server), hnext, hsent⟩
  | @ack conv b ha hb =>
    obtain rfl := ha
    have hquiet := KcpLayer.quiet_handleRead hK (fun d hd => by
      obtain rfl := Option.some.inj hd
      exact isHandshakeSyn_handshakeAck conv) hq'
    simp only [createdConv, acceptedConv, isHandshakeSyn_handshakeAck, isHandshakeAck_handshakeAck,
      ackConv_handshakeAck, Except.toOption, Option.toList_some, Option.toList_none,
      List.map_cons, List.map_nil, List.append_nil, Bool.false_eq_true, if_false, if_true]
    exact .ack hb hd hquiet
  | segment hseg =>
    have hquiet := KcpLayer.quiet_handleRead hK (fun d' hd' => by
      obtain rfl := Option.some.inj hd'
      exact hseg.not_isHandshakeSyn) hq'
    simp only [createdConv, acceptedConv, hseg.not_isHandshakeSyn, hseg.not_isHandshakeAck,
      Option.toList_none, List.map_nil, List.append_nil, Bool.false_eq_true, if_false]
    exact .segment hd hseg hquiet

theorem Consistent.delivers (h : Consistent server n) (hd : Delivers server n a k n')
    (honce : ∀ current, n.Once (.deliver a k current)) : Consistent server n' := by
  cases hd with
  | syn hacc =>
    exact h.deliver_syn hacc ((honce 0 _ hacc.datagram).2 isHandshakeSyn_syn)
  | ack hb hd hq => exact (h.setLayer hq).deliver_ack hb (datagram?_of_quiet hq hd)
  | segment hd hseg hq => exact (h.setLayer hq).deliver_segment (datagram?_of_quiet hq hd) hseg

theorem nodup_created_append {x : SockaddrIn × BitVec 32} (ht : n.Tolerant) :
    (n.created ++ [x]).Nodup ↔ x ∉ n.created := by
  rw [← List.concat_eq_append, List.nodup_concat]
  exact and_iff_left ht.2

/-- A handshake is accepted without harm if and only if it is new, and the next id is unused. -/
theorem tolerant_syn_iff (h : Consistent server n) (ht : n.Tolerant)
    (hacc : Accepts server n a k q') :
    Tolerant { n.setLayer server q' with
      delivered := n.delivered ++ [(a, k)]
      created := n.created ++ [(server, (n.layers server).nextConv)]
      accepted := n.accepted ++ [((a, k), (n.layers server).nextConv)] } ↔
    (a, k) ∉ n.delivered ∧ n.accepted.length < 2 ^ 32 := by
  rw [← not_le, ← h.nextConv_mem_created]
  constructor
  · rintro ⟨hone, hnodup⟩
    have hunused := (nodup_created_append ht).mp hnodup
    refine ⟨fun hmem => ?_, hunused⟩
    obtain ⟨conv, hconv⟩ := h.synAccepted a k hmem hacc.datagram
    have heq : conv = (n.layers server).nextConv := hone _ _ _ (List.mem_append_left _ hconv)
      (List.mem_append_right _ (List.mem_singleton_self _))
    exact hunused (heq ▸ (h.acceptedDelivered _ _ hconv).2)
  · rintro ⟨hnew, hunused⟩
    refine ⟨fun syn conv conv' hconv hconv' => ?_, (nodup_created_append ht).mpr hunused⟩
    have hsyn : ∀ conv, ((a, k), conv) ∉ n.accepted :=
      fun conv hmem => hnew (h.acceptedDelivered _ _ hmem).1
    rcases List.mem_append.mp hconv with hconv | hconv <;>
      rcases List.mem_append.mp hconv' with hconv' | hconv'
    · exact ht.1 syn conv conv' hconv hconv'
    · obtain ⟨rfl, -⟩ := Prod.mk.inj (List.mem_singleton.mp hconv')
      exact absurd hconv (hsyn conv)
    · obtain ⟨rfl, -⟩ := Prod.mk.inj (List.mem_singleton.mp hconv)
      exact absurd hconv' (hsyn conv')
    · rw [(Prod.mk.inj (List.mem_singleton.mp hconv)).2,
        (Prod.mk.inj (List.mem_singleton.mp hconv')).2]

/-- An acknowledgement has made a control block if and only if it has been delivered. -/
theorem mem_created_iff_delivered (h : Consistent server n) (hb : b ≠ server)
    (hd : n.datagram? server k = some { payload := handshakeAck conv, peerAddr := b }) :
    (b, conv) ∈ n.created ↔ (server, k) ∈ n.delivered := by
  rw [h.clientCreated b hb conv]
  constructor
  · rintro ⟨k', hmem, hd'⟩
    rwa [h.ackUnique k k' conv b b hd hd']
  · exact fun hmem => ⟨k, hmem, hd⟩

/-- A delivery keeps the handshake tolerant if and only if no message of a handshake has been
delivered before, and the next id is unused. -/
theorem tolerant_iff_of_delivers (h : Consistent server n) (ht : n.Tolerant)
    (hd : Delivers server n a k n') (current : BitVec 32) :
    n'.Tolerant ↔ n.Once (.deliver a k current) := by
  cases hd with
  | syn hacc =>
    rw [tolerant_syn_iff h ht hacc]
    simp [Once, hacc.datagram, isHandshakeSyn_syn]
  | @ack k conv b q' hb hd hq =>
    have honce : n.Once (.deliver server k current) ↔ (server, k) ∉ n.delivered := by
      simp [Once, hd, isHandshakeSyn_handshakeAck, isHandshakeAck_handshakeAck]
    rw [honce, ← mem_created_iff_delivered h hb hd, ← nodup_created_append ht]
    exact and_iff_right ht.1
  | segment hd hseg hq =>
    have honce : n.Once (.deliver a k current) := by
      simp [Once, hd, hseg.not_isHandshakeSyn, hseg.not_isHandshakeAck]
    exact iff_of_true ht honce

/-- Only `connect` and segments are sent by a call. -/
theorem Consistent.call {e : KcpLayer.Event} (hK : K.OutputsSegments) (h : Consistent server n)
    (he : enabled server n (.call b e)) (hs : (n.layers b).step K e = .ok q') :
    Consistent server (n.setLayer b q') := by
  obtain ⟨hclient, hread⟩ := he
  by_cases hconnect : e = .connect
  · obtain rfl := hconnect
    obtain rfl := Except.ok.inj hs
    exact h.connect (hclient rfl)
  · refine h.setLayer (KcpLayer.quiet_step hK hconnect (fun d current heq => ?_) hs)
    rw [heq] at hread
    cases hread

theorem step_call {e : KcpLayer.Event} (hs : n.step K (.call b e) = .ok n') :
    ∃ q', (n.layers b).step K e = .ok q' ∧ n' = n.setLayer b q' := by
  simp only [step] at hs
  split at hs
  · cases hs
  · next q' hq' => exact ⟨q', hq', (Except.ok.inj hs).symm⟩

theorem step_deliver {current : BitVec 32} (hK : K.OutputsSegments) (h : Consistent server n)
    (he : enabled server n (.deliver a k current)) (hs : n.step K (.deliver a k current) = .ok n') :
    Delivers server n a k n' := by
  obtain ⟨d, hd⟩ := Option.isSome_iff_exists.mp he
  simp only [step, hd] at hs
  exact delivers_of_deliver hK h hd hs

theorem consistent_init : Consistent server (init server : Net κ) where
  inetAddr _ := rfl
  nextConv := rfl
  sentBy a k d hd := by cases hd
  isSent a k hmem := by cases hmem
  synAccepted a k hmem := by cases hmem
  acceptedDelivered syn conv hmem := by cases hmem
  serverCreated conv := iff_of_false (by simp [init]) (by simp [init])
  ackCreated k conv addr hd := by cases hd
  ackUnique k k' conv addr addr' hd := by cases hd
  clientCreated a ha conv := iff_of_false (by simp [init]) (by simp [init])

/-- In a run of the network each call of `connect` leads to at most one entry at the server, and no
control block is replaced, if and only if no message of a handshake is delivered twice, and the ids
of conversations last. -/
theorem tolerant_iff_once (hK : K.OutputsSegments) {es : List Event}
    (hr : (machine K server).Run (init server) es n) :
    (machine K server).Along Tolerant (init server) es ↔
      ((machine K server).guard Once).Run (init server) es n := by
  have hiff : ∀ ⦃n e n'⦄, Consistent server n → n.Tolerant → enabled server n e →
      n.step K e = .ok n' → (n'.Tolerant ↔ n.Once e) := by
    intro n e n' h ht he hs
    cases e with
    | deliver a k current => exact tolerant_iff_of_delivers h ht (step_deliver hK h he hs) current
    | call b e =>
      obtain ⟨q', -, rfl⟩ := step_call hs
      exact iff_of_true ht trivial
  apply Machine.along_iff_run_guard_of_invariant
    (Q := fun n => Consistent server n ∧ n.Tolerant) (fun _ h => h.2) _ _ hr
  · refine ⟨consistent_init, fun syn conv conv' hmem => ?_, List.nodup_nil⟩
    cases hmem
  · rintro n e n' ⟨h, ht⟩ he hs honce
    refine ⟨?_, (hiff h ht he hs).mpr honce⟩
    cases e with
    | deliver a k current => exact h.delivers (step_deliver hK h he hs) fun _ => honce
    | call b e =>
      obtain ⟨q', hq', rfl⟩ := step_call hs
      exact h.call hK he hq'
  · rintro n e n' ⟨h, ht⟩ he hs ht'
    exact (hiff h ht he hs).mp ht'

open KcpLayer (idleStack hostAt)

theorem outputsSegments_idleStack : idleStack.OutputsSegments :=
  fun _ _ _ hbuf => absurd hbuf List.not_mem_nil

/-- The handshake of the client at port 1 with the server at port 9. -/
theorem tolerant_iff_once_handshake : ∃ n : Net (BitVec 32),
    (machine idleStack (hostAt 9)).Along Tolerant (init (hostAt 9))
      [.call (hostAt 1) .connect, .deliver (hostAt 1) 0 0, .deliver (hostAt 9) 0 0] ∧
    n.created = [(hostAt 9, 1), (hostAt 1, 1)] := by
  have hex : (((machine idleStack (hostAt 9)).guard Once).exec (init (hostAt 9))
      [.call (hostAt 1) .connect, .deliver (hostAt 1) 0 0, .deliver (hostAt 9) 0 0]).map
      (fun n => n.created) = some [(hostAt 9, 1), (hostAt 1, 1)] := by decide
  obtain ⟨n, hn, hcreated⟩ := Option.map_eq_some_iff.mp hex
  have hrun := Machine.run_of_exec hn
  exact ⟨n, (tolerant_iff_once outputsSegments_idleStack hrun.of_guard).mpr hrun, hcreated⟩

/-- A handshake that is delivered twice makes two entries, and an acknowledgement that is delivered
twice replaces the control block of the client. -/
theorem exists_not_tolerant :
    (∃ n : Net (BitVec 32), (machine idleStack (hostAt 9)).Run (init (hostAt 9))
      [.call (hostAt 1) .connect, .deliver (hostAt 1) 0 0, .deliver (hostAt 1) 0 0] n ∧
      n.accepted = [((hostAt 1, 0), 1), ((hostAt 1, 0), 2)] ∧ ¬n.Tolerant) ∧
    ∃ n : Net (BitVec 32), (machine idleStack (hostAt 9)).Run (init (hostAt 9))
      [.call (hostAt 1) .connect, .deliver (hostAt 1) 0 0, .deliver (hostAt 9) 0 0,
        .deliver (hostAt 9) 0 0] n ∧
      n.created = [(hostAt 9, 1), (hostAt 1, 1), (hostAt 1, 1)] ∧ ¬n.Tolerant := by
  constructor
  · have hex : ((machine idleStack (hostAt 9)).exec (init (hostAt 9))
        [.call (hostAt 1) .connect, .deliver (hostAt 1) 0 0, .deliver (hostAt 1) 0 0]).map
        (fun n => n.accepted) = some [((hostAt 1, 0), 1), ((hostAt 1, 0), 2)] := by decide
    obtain ⟨n, hn, haccepted⟩ := Option.map_eq_some_iff.mp hex
    refine ⟨n, Machine.run_of_exec hn, haccepted, fun h => ?_⟩
    have heq := h.1 (hostAt 1, 0) 1 2 (by simp [haccepted]) (by simp [haccepted])
    exact absurd heq (by decide)
  · have hex : ((machine idleStack (hostAt 9)).exec (init (hostAt 9))
        [.call (hostAt 1) .connect, .deliver (hostAt 1) 0 0, .deliver (hostAt 9) 0 0,
          .deliver (hostAt 9) 0 0]).map
        (fun n => n.created) = some [(hostAt 9, 1), (hostAt 1, 1), (hostAt 1, 1)] := by decide
    obtain ⟨n, hn, hcreated⟩ := Option.map_eq_some_iff.mp hex
    refine ⟨n, Machine.run_of_exec hn, hcreated, fun h => ?_⟩
    have hnodup := h.2
    rw [hcreated] at hnodup
    exact absurd hnodup (by decide)

end Net

end CodingDemo.Libcpp
