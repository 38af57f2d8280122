import CodingDemo.Kcp.ConvFd
import CodingDemo.Kcp.KcpUtils
import CodingDemo.Machine.Run
import Mathlib.Logic.Function.Basic

/-!
# The KCP layer

A `KcpLayer` reads datagrams from a UDP socket and keeps a control block of the KCP stack, and the
address of the peer, for each conversation. It notifies its user of connections and data through
two eventfds.

## Main definitions

* `SockaddrIn`: an address
* `Ikcp`: the KCP stack
* `KcpLayer`: the members
* `handleRead`: the handler of a datagram
* `connect`, `send`, `receive`, `getConnectionConv`: the calls of the user
* `KcpLayer.machine`: the runs of a layer

## Main results

* `handled_of_handleRead`: the cases of `handleRead`
-/

namespace CodingDemo.Libcpp

universe u

structure SockaddrIn where
  sin_family : BitVec 16 := 0
  sin_port : BitVec 16 := 0
  sin_addr : BitVec 32 := 0
  deriving DecidableEq

/-- The functions of the KCP stack on its control blocks. -/
structure Ikcp (κ : Type u) where
  create (conv : BitVec 32) : κ
  /-- `ikcp_nodelay(cb, 1, 10, 2, 1)`. -/
  nodelay (cb : κ) : κ
  /-- The datagrams that are output, in order. -/
  update (cb : κ) (current : BitVec 32) : κ × List (List UInt8)
  input (cb : κ) (data : List UInt8) : κ
  send (cb : κ) (msg : List UInt8) : κ
  /-- The result and the bytes that are written to the buffer of the given length. -/
  recv (cb : κ) (len : ℤ) : κ × ℤ × List UInt8
  /-- The field `conv`. -/
  conv (cb : κ) : BitVec 32

structure KcpConnInfo (κ : Type u) where
  /-- A control block, or a null pointer. -/
  kcpcb : Option κ := none
  peerAddr : SockaddrIn := {}

/-- A datagram with its sender. -/
structure Datagram where
  payload : List UInt8
  peerAddr : SockaddrIn
  deriving DecidableEq

/-- What ends the process, or is undefined. -/
inductive KcpFault
  /-- A control block is used that is null. -/
  | nullKcpcb
  /-- Bytes are read beyond the end of a buffer or a payload. -/
  | overread
  /-- The conversation id of an acknowledgement is no number. -/
  | stoul (error : StoulError)
  deriving DecidableEq

structure KcpLayer (κ : Type u) where
  inetAddr : SockaddrIn
  connections : BitVec 32 → Option (KcpConnInfo κ)
  nextConv : BitVec 32
  dataFd : ConvFd
  connFd : ConvFd
  /-- The datagrams that have been sent. -/
  sent : List Datagram

namespace KcpLayer

variable {κ : Type u} (K : Ikcp κ)

def init (inetAddr : SockaddrIn) : KcpLayer κ where
  inetAddr := inetAddr
  connections _ := none
  nextConv := 1
  dataFd := {}
  connFd := {}
  sent := []

/-- The size of `datagram_`. -/
def datagramSize : ℕ := 1500

/-! ## The map of connections -/

/-- The value of `connections_[conv]`, which is zero if there is none yet. -/
def info (q : KcpLayer κ) (conv : BitVec 32) : KcpConnInfo κ := (q.connections conv).getD {}

/-- `connections_[conv]` makes an entry if there is none. -/
def setInfo (q : KcpLayer κ) (conv : BitVec 32) (info : KcpConnInfo κ) : KcpLayer κ :=
  { q with connections := Function.update q.connections conv (some info) }

def setKcpcb (q : KcpLayer κ) (conv : BitVec 32) (cb : κ) : KcpLayer κ :=
  q.setInfo conv { q.info conv with kcpcb := some cb }

def setPeerAddr (q : KcpLayer κ) (conv : BitVec 32) (peerAddr : SockaddrIn) : KcpLayer κ :=
  q.setInfo conv { q.info conv with peerAddr := peerAddr }

/-! ## Output -/

def sendto (q : KcpLayer κ) (buf : List UInt8) (addr : SockaddrIn) : KcpLayer κ :=
  { q with sent := q.sent ++ [{ payload := buf, peerAddr := addr }] }

def sendUdpMsg (q : KcpLayer κ) (conv : BitVec 32) (buf : List UInt8) : KcpLayer κ :=
  let destAddr := (q.info conv).peerAddr
  (q.setInfo conv (q.info conv)).sendto buf destAddr

/-- The callback of a control block. -/
def output (q : KcpLayer κ) (cb : κ) (buf : List UInt8) : KcpLayer κ := q.sendUdpMsg (K.conv cb) buf

/-- `kcpUpdate` of the control block `cb` of the conversation. -/
def kcpUpdate (q : KcpLayer κ) (conv : BitVec 32) (cb : κ) (current : BitVec 32) : KcpLayer κ :=
  let updated := K.update cb current
  updated.2.foldl (fun q buf => q.output K updated.1 buf) (q.setKcpcb conv updated.1)

/-! ## The handler of a datagram -/

def notifyConnection (q : KcpLayer κ) (conv : BitVec 32) : KcpLayer κ :=
  { q with connFd := q.connFd.notify conv }

def notifyData (q : KcpLayer κ) (conv : BitVec 32) : KcpLayer κ :=
  { q with dataFd := q.dataFd.notify conv }

/-- `ikcp_getconv` reads four bytes; a payload is followed by a zero byte. -/
def getconv (payload : List UInt8) : Except KcpFault (BitVec 32) :=
  match payload ++ [0] with
  | b₀ :: b₁ :: b₂ :: b₃ :: _ =>
    .ok (b₃.toBitVec ++ b₂.toBitVec ++ b₁.toBitVec ++ b₀.toBitVec)
  | _ => .error .overread

/-- The server creates a connection. -/
def handleSyn (q : KcpLayer κ) (peerAddr : SockaddrIn) (current : BitVec 32) : KcpLayer κ :=
  let conv := q.nextConv
  let cb := K.create conv
  let q := (q.setKcpcb conv cb).setPeerAddr conv peerAddr
  let q := q.kcpUpdate K conv (K.nodelay cb) current
  let q := q.sendto (handshakeAck conv) peerAddr
  let q := q.notifyConnection conv
  { q with nextConv := conv + 1 }

/-- The client creates the connection `id`. -/
def handleAck (q : KcpLayer κ) (id : BitVec 32) (peerAddr : SockaddrIn) (current : BitVec 32) :
    KcpLayer κ :=
  let cb := K.create id
  let q := (q.setKcpcb id cb).setPeerAddr q.nextConv peerAddr
  let q := q.kcpUpdate K id (K.nodelay cb) current
  q.notifyConnection id

/-- Data for the connection `id`. -/
def handleData (q : KcpLayer κ) (id : BitVec 32) (payload : List UInt8) (current : BitVec 32) :
    Except KcpFault (KcpLayer κ) :=
  let info := q.info id
  let q := q.setInfo id info
  match info.kcpcb with
  | none => .error .nullKcpcb
  | some cb =>
    let q := q.kcpUpdate K id (K.input cb payload) current
    .ok (if 24 < payload.length then q.notifyData id else q)

/-- `handleRead` of the datagram that `recvUdpMsg` has read, if any. A datagram that is larger than
`datagram_` is counted with its full length. -/
def handleRead (q : KcpLayer κ) (datagram : Option Datagram) (current : BitVec 32) :
    Except KcpFault (KcpLayer κ) :=
  match datagram with
  | none => .ok q
  | some { payload := payload, peerAddr := peerAddr } =>
    if payload = [] then .ok q
    else if datagramSize < payload.length then .error .overread
    else if isHandshakeSyn payload then .ok (q.handleSyn K peerAddr current)
    else if isHandshakeAck payload then
      match ackConv payload with
      | .ok id => .ok (q.handleAck K id peerAddr current)
      | .error error => .error (.stoul error)
    else if isClosePacket payload then .ok q
    else
      match getconv payload with
      | .ok id => q.handleData K id payload current
      | .error error => .error error

/-! ## The calls of the user -/

def connect (q : KcpLayer κ) : KcpLayer κ := q.sendto KCP_HANDSHAKE_SYN q.inetAddr

def send (q : KcpLayer κ) (conv : BitVec 32) (msg : List UInt8) (current : BitVec 32) :
    Except KcpFault (KcpLayer κ) :=
  let info := q.info conv
  let q := q.setInfo conv info
  match info.kcpcb with
  | none => .error .nullKcpcb
  | some cb => .ok (q.kcpUpdate K conv (K.send cb msg) current)

/-- The conversation, the result of `ikcp_recv`, and the bytes. -/
def receive (q : KcpLayer κ) (len : ℤ) :
    Except KcpFault (KcpLayer κ × BitVec 32 × ℤ × List UInt8) :=
  let conv := BitVec.ofNat 32 q.dataFd.id
  let q := { q with dataFd := q.dataFd.take iuint32 }
  let info := q.info conv
  let q := q.setInfo conv info
  match info.kcpcb with
  | none => .error .nullKcpcb
  | some cb =>
    let (cb, nrecv, buf) := K.recv cb len
    .ok (q.setKcpcb conv cb, conv, nrecv, buf)

def getConnectionConv (q : KcpLayer κ) : KcpLayer κ × ℤ :=
  ({ q with connFd := q.connFd.take int64 }, int64 q.connFd.id)

/-! ## The machine -/

inductive Event
  | handleRead (datagram : Option Datagram) (current : BitVec 32)
  | connect
  | send (conv : BitVec 32) (msg : List UInt8) (current : BitVec 32)
  | receive (len : ℤ)
  | getConnectionConv
  deriving DecidableEq

def step (q : KcpLayer κ) : Event → Except KcpFault (KcpLayer κ)
  | .handleRead datagram current => q.handleRead K datagram current
  | .connect => .ok q.connect
  | .send conv msg current => q.send K conv msg current
  | .receive len => (q.receive K len).map Prod.fst
  | .getConnectionConv => .ok q.getConnectionConv.1

/-- The runs of a layer that has just been constructed. -/
def machine : Machine (KcpLayer κ) Event KcpFault where
  init q := ∃ inetAddr, q = init inetAddr
  enabled _ _ := True
  step := step K

instance (q : KcpLayer κ) (e : Event) : Decidable ((machine K).enabled q e) := isTrue trivial

/-! ## The cases of a datagram -/

/-- What becomes of a datagram that has no fault. -/
inductive Handled (K : Ikcp κ) (q : KcpLayer κ) (current : BitVec 32) :
    Option Datagram → KcpLayer κ → Prop
  | failed : Handled K q current none q
  | empty {addr : SockaddrIn} : Handled K q current (some { payload := [], peerAddr := addr }) q
  | syn {d : Datagram} (hsyn : isHandshakeSyn d.payload = true) :
      Handled K q current (some d) (q.handleSyn K d.peerAddr current)
  | ack {d : Datagram} {id : BitVec 32} (hsyn : isHandshakeSyn d.payload = false)
      (hack : isHandshakeAck d.payload = true) (hid : ackConv d.payload = .ok id) :
      Handled K q current (some d) (q.handleAck K id d.peerAddr current)
  | close {d : Datagram} (hsyn : isHandshakeSyn d.payload = false)
      (hack : isHandshakeAck d.payload = false) (hclose : isClosePacket d.payload = true) :
      Handled K q current (some d) q
  | data {d : Datagram} {id : BitVec 32} {q' : KcpLayer κ}
      (hsyn : isHandshakeSyn d.payload = false) (hack : isHandshakeAck d.payload = false)
      (hclose : isClosePacket d.payload = false) (hid : getconv d.payload = .ok id)
      (hs : q.handleData K id d.payload current = .ok q') : Handled K q current (some d) q'

theorem handled_of_handleRead {K : Ikcp κ} {q q' : KcpLayer κ}
    {datagram : Option Datagram} {current : BitVec 32}
    (hs : q.handleRead K datagram current = .ok q') : Handled K q current datagram q' := by
  cases datagram with
  | none =>
    obtain rfl := Except.ok.inj hs
    exact .failed
  | some d =>
    simp only [handleRead] at hs
    by_cases hnil : d.payload = []
    · rw [if_pos hnil] at hs
      obtain rfl := Except.ok.inj hs
      obtain ⟨payload, addr⟩ := d
      obtain rfl : payload = [] := hnil
      exact .empty
    rw [if_neg hnil] at hs
    by_cases hlarge : datagramSize < d.payload.length
    · rw [if_pos hlarge] at hs
      cases hs
    rw [if_neg hlarge] at hs
    cases hsyn : isHandshakeSyn d.payload with
    | true =>
      rw [if_pos hsyn] at hs
      obtain rfl := Except.ok.inj hs
      exact .syn hsyn
    | false =>
    rw [if_neg (Bool.not_eq_true _ ▸ hsyn)] at hs
    cases hack : isHandshakeAck d.payload with
    | true =>
      rw [if_pos hack] at hs
      split at hs
      · next id hid =>
        obtain rfl := Except.ok.inj hs
        exact .ack hsyn hack hid
      · cases hs
    | false =>
    rw [if_neg (Bool.not_eq_true _ ▸ hack)] at hs
    cases hclose : isClosePacket d.payload with
    | true =>
      rw [if_pos hclose] at hs
      obtain rfl := Except.ok.inj hs
      exact .close hsyn hack hclose
    | false =>
    rw [if_neg (Bool.not_eq_true _ ▸ hclose)] at hs
    split at hs
    · next id hid => exact .data hsyn hack hclose hid hs
    · cases hs

/-! ## What sending leaves alone -/

variable {K} {q : KcpLayer κ} {conv id : BitVec 32} {cb : κ} {current : BitVec 32}
  {buf : List UInt8}

@[simp] theorem info_setInfo_self (info : KcpConnInfo κ) :
    (q.setInfo conv info).info conv = info := by
  simp [KcpLayer.info, setInfo]

theorem info_setInfo_of_ne (info : KcpConnInfo κ) (h : id ≠ conv) :
    (q.setInfo conv info).info id = q.info id := by
  simp [KcpLayer.info, setInfo, h]

/-- An entry that is only read stays as it is. -/
@[simp] theorem info_setInfo_info : (q.setInfo conv (q.info conv)).info id = q.info id := by
  by_cases h : id = conv
  · rw [h, info_setInfo_self]
  · rw [info_setInfo_of_ne _ h]

@[simp] theorem info_sendUdpMsg : (q.sendUdpMsg conv buf).info id = q.info id :=
  info_setInfo_info

/-- What holds when the control block has been entered, and is kept by its outputs, holds after all
outputs. -/
theorem kcpUpdate_output_induction {motive : KcpLayer κ → Prop}
    (hset : motive (q.setKcpcb conv (K.update cb current).1))
    (houtput : ∀ q, ∀ buf ∈ (K.update cb current).2, motive q →
      motive (q.output K (K.update cb current).1 buf)) :
    motive (q.kcpUpdate K conv cb current) := by
  have hfold : ∀ (bufs : List (List UInt8)) (q' : KcpLayer κ),
      (∀ buf ∈ bufs, buf ∈ (K.update cb current).2) → motive q' →
      motive (bufs.foldl (fun q buf => q.output K (K.update cb current).1 buf) q') := by
    intro bufs
    induction bufs with
    | nil => exact fun _ _ h => h
    | cons buf bufs ih =>
      intro q' hmem h
      rw [List.forall_mem_cons] at hmem
      exact ih _ hmem.2 (houtput q' buf hmem.1 h)
  exact hfold _ _ (fun _ h => h) hset

/-- What holds of the members and is kept by every output holds after all outputs. -/
theorem kcpUpdate_induction {motive : KcpLayer κ → Prop}
    (hset : ∀ cb, motive (q.setKcpcb conv cb))
    (houtput : ∀ q conv buf, motive q → motive (q.sendUdpMsg conv buf)) :
    motive (q.kcpUpdate K conv cb current) :=
  kcpUpdate_output_induction (hset _) fun _ _ _ h => houtput _ _ _ h

@[simp] theorem connFd_kcpUpdate : (q.kcpUpdate K conv cb current).connFd = q.connFd :=
  kcpUpdate_induction (motive := fun q' => q'.connFd = q.connFd) (fun _ => rfl) fun _ _ _ h => h

@[simp] theorem dataFd_kcpUpdate : (q.kcpUpdate K conv cb current).dataFd = q.dataFd :=
  kcpUpdate_induction (motive := fun q' => q'.dataFd = q.dataFd) (fun _ => rfl) fun _ _ _ h => h

@[simp] theorem nextConv_kcpUpdate : (q.kcpUpdate K conv cb current).nextConv = q.nextConv :=
  kcpUpdate_induction (motive := fun q' => q'.nextConv = q.nextConv) (fun _ => rfl) fun _ _ _ h => h

/-- Only the control block of the conversation changes. -/
@[simp] theorem peerAddr_kcpUpdate :
    ((q.kcpUpdate K conv cb current).info id).peerAddr = (q.info id).peerAddr := by
  apply kcpUpdate_induction (motive := fun q' => (q'.info id).peerAddr = (q.info id).peerAddr)
  · intro cb
    unfold setKcpcb
    by_cases h : id = conv
    · rw [h, info_setInfo_self]
    · rw [info_setInfo_of_ne _ h]
  · intro q' conv buf h
    rw [info_sendUdpMsg, h]

end KcpLayer

end CodingDemo.Libcpp
