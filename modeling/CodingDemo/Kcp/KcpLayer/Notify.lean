import CodingDemo.Kcp.KcpLayer.Model

/-!
# The notifications of the KCP layer

The ids of connections and of data that has come are written to two eventfds. A counter adds up what
is written to it, so that an id is handed over only if the one before has been read, and a zero not
at all.

## Main definitions

* `connAccess`, `dataAccess`: the accesses of an event to `connFd_` and `dataFd_`
* `Delivered`: the ids that have been notified are those that are returned
* `Alone`: the condition on the events

## Main results

* `convFds_step`: what an event does to the eventfds
* `delivered_iff_alone`: in which runs the notifications are delivered
-/

namespace CodingDemo.Libcpp.KcpLayer

universe u

variable {κ : Type u} {K : Ikcp κ} {q q' : KcpLayer κ} {e : Event} {inetAddr : SockaddrIn}
  {es : List Event}

/-- The access of an event to `connFd_`. -/
def connAccess (q : KcpLayer κ) : Event → Option FdAccess
  | .handleRead (some d) _ =>
    if isHandshakeSyn d.payload then some (.notify q.nextConv)
    else if isHandshakeAck d.payload then (ackConv d.payload).toOption.map FdAccess.notify
    else none
  | .getConnectionConv => some .take
  | _ => none

/-- The access of an event to `dataFd_`. -/
def dataAccess : Event → Option FdAccess
  | .handleRead (some d) _ =>
    if isHandshakeSyn d.payload ∨ isHandshakeAck d.payload ∨ isClosePacket d.payload then none
    else if 24 < d.payload.length then (getconv d.payload).toOption.map FdAccess.notify
    else none
  | .receive _ => some .take
  | _ => none

/-- The ids that the readers return are those that have been notified. -/
def Delivered (q : KcpLayer κ) : Prop := q.connFd.Delivered int64 ∧ q.dataFd.Delivered iuint32

/-- An event notifies an id other than zero when all ids that have been notified are read, and reads
one that has been notified. -/
def Alone (q : KcpLayer κ) (e : Event) : Prop :=
  (∀ a ∈ q.connAccess e, a.Alone q.connFd) ∧ ∀ a ∈ dataAccess e, a.Alone q.dataFd

instance (q : KcpLayer κ) (e : Event) : Decidable (q.Alone e) :=
  inferInstanceAs (Decidable
    ((∀ a ∈ q.connAccess e, a.Alone q.connFd) ∧ ∀ a ∈ dataAccess e, a.Alone q.dataFd))

instance (q : KcpLayer κ) (e : Event) : Decidable (((machine K).guard Alone).enabled q e) :=
  inferInstanceAs (Decidable (True ∧ q.Alone e))

/-- An eventfd after an access, if there is one. -/
def accessed (cast : ℕ → ℤ) (f : ConvFd) (a : Option FdAccess) : ConvFd :=
  a.elim f fun a => a.apply cast f

/-! ## The accesses of the events -/

theorem convFds_handleSyn (peerAddr : SockaddrIn) (current : BitVec 32) :
    (q.handleSyn K peerAddr current).connFd = q.connFd.notify q.nextConv ∧
      (q.handleSyn K peerAddr current).dataFd = q.dataFd := by
  simp [handleSyn, notifyConnection, sendto, setPeerAddr, setKcpcb, setInfo]

theorem convFds_handleAck (id : BitVec 32) (peerAddr : SockaddrIn) (current : BitVec 32) :
    (q.handleAck K id peerAddr current).connFd = q.connFd.notify id ∧
      (q.handleAck K id peerAddr current).dataFd = q.dataFd := by
  simp [handleAck, notifyConnection, setPeerAddr, setKcpcb, setInfo]

theorem convFds_handleData {id current : BitVec 32} {payload : List UInt8}
    (hs : q.handleData K id payload current = .ok q') :
    q'.connFd = q.connFd ∧
      q'.dataFd = if 24 < payload.length then q.dataFd.notify id else q.dataFd := by
  cases hcb : (q.info id).kcpcb with
  | none =>
    simp only [handleData, hcb] at hs
    cases hs
  | some cb =>
    simp only [handleData, hcb] at hs
    obtain rfl := Except.ok.inj hs
    split_ifs <;> simp [notifyData, setInfo]

/-- The eventfds after a datagram. -/
theorem convFds_handleRead {datagram : Option Datagram} {current : BitVec 32}
    (hs : q.handleRead K datagram current = .ok q') :
    q'.connFd = accessed int64 q.connFd (q.connAccess (.handleRead datagram current)) ∧
      q'.dataFd = accessed iuint32 q.dataFd (dataAccess (.handleRead datagram current)) := by
  cases handled_of_handleRead hs with
  | failed | empty => exact ⟨rfl, rfl⟩
  | syn hsyn =>
    simp only [connAccess, dataAccess, if_pos hsyn, if_pos (Or.inl hsyn)]
    exact convFds_handleSyn _ _
  | ack hsyn hack hid =>
    simp only [connAccess, dataAccess, hsyn, hack, hid]
    exact convFds_handleAck _ _ _
  | close hsyn hack hclose =>
    simp only [connAccess, dataAccess, hsyn, hack, hclose]
    exact ⟨rfl, rfl⟩
  | data hsyn hack hclose hid hdata =>
    obtain ⟨hconn, hdata⟩ := convFds_handleData hdata
    simp only [connAccess, dataAccess, hsyn, hack, hclose, hid]
    refine ⟨hconn, hdata.trans ?_⟩
    split_ifs <;> simp_all [accessed, Except.toOption, FdAccess.apply]

/-- What an event does to the eventfds. -/
theorem convFds_step (hs : q.step K e = .ok q') :
    q'.connFd = accessed int64 q.connFd (q.connAccess e) ∧
      q'.dataFd = accessed iuint32 q.dataFd (dataAccess e) := by
  cases e with
  | handleRead datagram current => exact convFds_handleRead hs
  | connect | getConnectionConv =>
    obtain rfl := Except.ok.inj hs
    exact ⟨rfl, rfl⟩
  | send conv msg current =>
    simp only [step, send] at hs
    split at hs
    · cases hs
    · obtain rfl := Except.ok.inj hs
      simp [setInfo, accessed, connAccess, dataAccess]
  | receive len =>
    simp only [step, receive] at hs
    split at hs
    · cases hs
    · obtain rfl := Except.ok.inj hs
      exact ⟨rfl, rfl⟩

/-! ## The runs in which the notifications are delivered -/

theorem delivered_accessed_iff {cast : ℕ → ℤ} {f : ConvFd}
    (hcast : ∀ conv : BitVec 32, cast conv.toNat = conv.toNat) (h : f.Delivered cast)
    (a : Option FdAccess) : (accessed cast f a).Delivered cast ↔ ∀ b ∈ a, b.Alone f := by
  cases a with
  | none => exact iff_of_true h nofun
  | some b =>
    simp only [Option.mem_some_iff, forall_eq']
    exact ConvFd.delivered_apply_iff hcast h b

/-- In a run the readers return the ids that have been notified, in order, if and only if every
notification finds its eventfd empty and has an id other than zero, and every read finds a
notification. -/
theorem delivered_iff_alone (hr : (machine K).Run (init inetAddr) es q) :
    (machine K).Along Delivered (init inetAddr) es ↔
      ((machine K).guard Alone).Run (init inetAddr) es q := by
  apply Machine.along_iff_run_guard (I := fun _ => True) (fun _ _ _ _ _ _ => trivial) _ hr trivial
  · exact ⟨rfl, rfl⟩
  · intro q e q' _ hq _ hs
    obtain ⟨hconn, hdata⟩ := convFds_step hs
    unfold Delivered Alone
    rw [hconn, hdata, delivered_accessed_iff int64_toNat hq.1,
      delivered_accessed_iff iuint32_toNat hq.2]

/-! ## Two clients -/

/-- The stack while no data is sent: it outputs nothing, and there is nothing to receive. -/
def idleStack : Ikcp (BitVec 32) where
  create conv := conv
  nodelay cb := cb
  update cb _ := (cb, [])
  input cb _ := cb
  send cb _ := cb
  recv cb _ := (cb, -1, [])
  conv cb := cb

/-- A port of a host. -/
def hostAt (port : BitVec 16) : SockaddrIn :=
  { sin_family := 2, sin_port := port, sin_addr := 0x7f000001 }

/-- A handshake from a port. -/
def synFrom (port : BitVec 16) : Event :=
  .handleRead (some
    { payload := KCP_HANDSHAKE_SYN
      peerAddr := { sin_family := 2, sin_port := port, sin_addr := 0x7f000001 } }) 0

theorem delivered_iff_alone_readBetween : ∃ q : KcpLayer (BitVec 32),
    (machine idleStack).Along Delivered (init {})
      [synFrom 1, .getConnectionConv, synFrom 2, .getConnectionConv] ∧
    q.connFd.returned = [1, 2] := by
  have hex : (((machine idleStack).guard Alone).exec (init {})
      [synFrom 1, .getConnectionConv, synFrom 2, .getConnectionConv]).map
      (fun q => q.connFd.returned) = some [1, 2] := by decide
  obtain ⟨q, hq, hreturned⟩ := Option.map_eq_some_iff.mp hex
  have hrun := Machine.run_of_exec hq
  exact ⟨q, (delivered_iff_alone hrun.of_guard).mpr hrun, hreturned⟩

/-- Two handshakes before the first read are read as one connection. -/
theorem exists_merged : ∃ q : KcpLayer (BitVec 32),
    (machine idleStack).Run (init {}) [synFrom 1, synFrom 2, .getConnectionConv] q ∧
    q.connFd.notified = [1, 2] ∧ q.connFd.returned = [3] ∧ ¬Delivered q := by
  have hex : ((machine idleStack).exec (init {})
      [synFrom 1, synFrom 2, .getConnectionConv]).map (fun q => q.connFd) =
      some { fd := {}, notified := [1, 2], returned := [3] } := by decide
  obtain ⟨q, hq, hconn⟩ := Option.map_eq_some_iff.mp hex
  refine ⟨q, Machine.run_of_exec hq, by rw [hconn], by rw [hconn], fun h => ?_⟩
  have hdelivered := h.1
  rw [hconn] at hdelivered
  exact absurd hdelivered (by decide)

end CodingDemo.Libcpp.KcpLayer
