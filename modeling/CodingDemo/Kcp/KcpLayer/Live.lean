import CodingDemo.Kcp.KcpLayer.Notify

/-!
# The control blocks of the KCP layer

The map of connections is read with `operator[]`, which makes an entry with a null pointer where
there is none. A layer uses only control blocks that exist, of the conversation at hand, as long as
what it is sent and what it is asked for names conversations that it has.

## Main definitions

* `Ikcp.Created`: the control blocks that come from a call of `ikcp_create`
* `Ikcp.KeepsConv`: the stack sets the conversation id of a control block only there
* `Live`: no entry is null
* `Drives`: an event uses live control blocks, and reads no more than the payload
* `Named`, `Long`: the conditions on the events

## Main results

* `drives_iff`: which events drive live control blocks
-/

namespace CodingDemo.Libcpp

universe u

namespace Ikcp

variable {κ : Type u}

/-- The control blocks that `ikcp_create` has returned for the conversation. -/
inductive Created (K : Ikcp κ) (conv : BitVec 32) : κ → Prop
  | create : Created K conv (K.create conv)
  | nodelay {cb : κ} : Created K conv cb → Created K conv (K.nodelay cb)
  | update {cb : κ} (current : BitVec 32) :
      Created K conv cb → Created K conv (K.update cb current).1
  | input {cb : κ} (data : List UInt8) : Created K conv cb → Created K conv (K.input cb data)
  | send {cb : κ} (msg : List UInt8) : Created K conv cb → Created K conv (K.send cb msg)
  | recv {cb : κ} (len : ℤ) : Created K conv cb → Created K conv (K.recv cb len).1

/-- Only `ikcp_create` sets the conversation id. -/
structure KeepsConv (K : Ikcp κ) : Prop where
  create (conv : BitVec 32) : K.conv (K.create conv) = conv
  nodelay (cb : κ) : K.conv (K.nodelay cb) = K.conv cb
  update (cb : κ) (current : BitVec 32) : K.conv (K.update cb current).1 = K.conv cb
  input (cb : κ) (data : List UInt8) : K.conv (K.input cb data) = K.conv cb
  send (cb : κ) (msg : List UInt8) : K.conv (K.send cb msg) = K.conv cb
  recv (cb : κ) (len : ℤ) : K.conv (K.recv cb len).1 = K.conv cb

theorem KeepsConv.conv {K : Ikcp κ} (hK : K.KeepsConv) {conv : BitVec 32} {cb : κ}
    (h : K.Created conv cb) : K.conv cb = conv := by
  induction h with
  | create => exact hK.create conv
  | nodelay _ ih => exact (hK.nodelay _).trans ih
  | update current _ ih => exact (hK.update _ current).trans ih
  | input data _ ih => exact (hK.input _ data).trans ih
  | send msg _ ih => exact (hK.send _ msg).trans ih
  | recv len _ ih => exact (hK.recv _ len).trans ih

end Ikcp

namespace KcpLayer

variable {κ : Type u} {K : Ikcp κ} {q q' : KcpLayer κ} {conv id current : BitVec 32} {cb : κ}
  {payload : List UInt8} {peerAddr : SockaddrIn}

/-! ## What an event uses -/

/-- No entry is null, and each has a control block of its own conversation. -/
def Live (K : Ikcp κ) (q : KcpLayer κ) : Prop :=
  ∀ conv info, q.connections conv = some info → ∃ cb, info.kcpcb = some cb ∧ K.Created conv cb

/-- The conversation whose control block an event finds in the map. -/
def drivenConv (q : KcpLayer κ) : Event → Option (BitVec 32)
  | .handleRead (some d) _ =>
    if d.payload = [] ∨ isHandshakeSyn d.payload ∨ isHandshakeAck d.payload ∨
      isClosePacket d.payload then none
    else (getconv d.payload).toOption
  | .send conv _ _ => some conv
  | .receive _ => some (BitVec.ofNat 32 q.dataFd.id)
  | _ => none

/-- How far the payload is read: the lengths that are given to `memcmp`, and the four bytes of
`ikcp_getconv`. -/
def reads (payload : List UInt8) : List ℕ :=
  if payload = [] then []
  else if isHandshakeSyn payload then [KCP_HANDSHAKE_SYN.length]
  else if isHandshakeAck payload then [KCP_HANDSHAKE_SYN.length, KCP_HANDSHAKE_ACK.length]
  else if isClosePacket payload then
    [KCP_HANDSHAKE_SYN.length, KCP_HANDSHAKE_ACK.length, KCP_CLOSE_MSG.length]
  else [KCP_HANDSHAKE_SYN.length, KCP_HANDSHAKE_ACK.length, KCP_CLOSE_MSG.length, 4]

/-- An event uses a control block of the very conversation, reads no more than the payload, and
leaves no null entry. Only an acknowledgement without a number is thrown at. -/
structure Drives (K : Ikcp κ) (q : KcpLayer κ) (e : Event) : Prop where
  created : ∀ conv ∈ q.drivenConv e, ∃ cb, (q.info conv).kcpcb = some cb ∧ K.Created conv cb
  inside : ∀ d current, e = .handleRead (some d) current → ∀ n ∈ reads d.payload,
    n ≤ d.payload.length
  noFault : ∀ f, q.step K e = .error f → ∃ error, f = .stoul error
  live : ∀ q', q.step K e = .ok q' → Live K q'

/-! ## The conditions -/

/-- A payload that names a conversation of the layer, or needs none. -/
def NamedPayload (q : KcpLayer κ) (payload : List UInt8) : Prop :=
  payload = [] ∨ payload.length ≤ datagramSize ∧
    if isHandshakeSyn payload then True
    else if isHandshakeAck payload then
      ∀ id, ackConv payload = .ok id → id = q.nextConv ∨ q.connections q.nextConv ≠ none
    else if isClosePacket payload then True
    else ∃ id, getconv payload = .ok id ∧ q.connections id ≠ none

/-- An event names a conversation that the layer has: the conversation of the data, of `send`, or of
the next `receive`. An acknowledgement has the next id of the layer, or the layer has a conversation
with that id. -/
def Named (q : KcpLayer κ) : Event → Prop
  | .handleRead (some d) _ => q.NamedPayload d.payload
  | .send conv _ _ => q.connections conv ≠ none
  | .receive _ => q.connections (BitVec.ofNat 32 q.dataFd.id) ≠ none
  | _ => True

/-- A payload is as long as the texts that it is compared with. -/
def Long : Event → Prop
  | .handleRead (some d) _ => d.payload = [] ∨ 30 ≤ d.payload.length ∨
      27 ≤ d.payload.length ∧ (isHandshakeSyn d.payload ∨ isHandshakeAck d.payload)
  | _ => True

/-! ## The map -/

theorem connections_setInfo (info : KcpConnInfo κ) :
    (q.setInfo conv info).connections id = if id = conv then some info else q.connections id :=
  Function.update_apply _ _ _ _

theorem connections_setInfo_ne_none (info : KcpConnInfo κ) :
    (q.setInfo conv info).connections conv ≠ none := by
  rw [connections_setInfo, if_pos rfl]
  exact Option.some_ne_none info

/-- The outputs of a control block are sent to its own conversation. -/
theorem connections_kcpUpdate_of_ne (hK : K.KeepsConv) (hcb : K.Created conv cb) (hid : id ≠ conv) :
    (q.kcpUpdate K conv cb current).connections id = q.connections id := by
  apply kcpUpdate_output_induction (motive := fun q' => q'.connections id = q.connections id)
  · exact (connections_setInfo _).trans (if_neg hid)
  · intro q' buf _ h
    rw [output, hK.conv (hcb.update current)]
    exact ((connections_setInfo _).trans (if_neg hid)).trans h

namespace Live

theorem created (h : Live K q) (hsome : q.connections conv ≠ none) :
    ∃ cb, (q.info conv).kcpcb = some cb ∧ K.Created conv cb := by
  obtain ⟨info, hinfo⟩ := Option.ne_none_iff_exists'.mp hsome
  rw [KcpLayer.info, hinfo]
  exact h conv info hinfo

theorem setInfo {info : KcpConnInfo κ} (h : Live K q)
    (hcb : ∃ cb, info.kcpcb = some cb ∧ K.Created conv cb) : Live K (q.setInfo conv info) := by
  intro id info' hinfo
  rw [connections_setInfo] at hinfo
  split_ifs at hinfo with hid
  · obtain rfl := Option.some.inj hinfo
    rw [hid]
    exact hcb
  · exact h id info' hinfo

theorem setKcpcb (h : Live K q) (hcb : K.Created conv cb) : Live K (q.setKcpcb conv cb) :=
  h.setInfo ⟨cb, rfl, hcb⟩

theorem setPeerAddr (h : Live K q) (hsome : q.connections conv ≠ none) :
    Live K (q.setPeerAddr conv peerAddr) :=
  h.setInfo (h.created hsome)

theorem kcpUpdate (hK : K.KeepsConv) (h : Live K q) (hcb : K.Created conv cb) :
    Live K (q.kcpUpdate K conv cb current) := by
  have hcb' := hcb.update current
  refine (kcpUpdate_output_induction
    (motive := fun q' => Live K q' ∧ q'.connections conv ≠ none) ?_ ?_).1
  · exact ⟨h.setKcpcb hcb', connections_setInfo_ne_none _⟩
  · rintro q' buf - ⟨hlive, hsome⟩
    rw [output, hK.conv hcb']
    exact ⟨hlive.setInfo (hlive.created hsome), connections_setInfo_ne_none _⟩

theorem handleSyn (hK : K.KeepsConv) (h : Live K q) : Live K (q.handleSyn K peerAddr current) := by
  have hcb : K.Created q.nextConv (K.create q.nextConv) := .create
  have hset : Live K
      ((q.setKcpcb q.nextConv (K.create q.nextConv)).setPeerAddr q.nextConv peerAddr) :=
    (h.setKcpcb hcb).setPeerAddr (connections_setInfo_ne_none _)
  exact kcpUpdate hK hset hcb.nodelay

theorem handleAck (hK : K.KeepsConv) (h : Live K q)
    (hid : id = q.nextConv ∨ q.connections q.nextConv ≠ none) :
    Live K (q.handleAck K id peerAddr current) := by
  have hcb : K.Created id (K.create id) := .create
  have hsome : (q.setKcpcb id (K.create id)).connections q.nextConv ≠ none := by
    refine (connections_setInfo _).trans_ne ?_
    split_ifs with heq
    · exact Option.some_ne_none _
    · exact hid.resolve_left fun h => heq h.symm
  exact kcpUpdate hK ((h.setKcpcb hcb).setPeerAddr hsome) hcb.nodelay

theorem handleData (hK : K.KeepsConv) (h : Live K q) (hsome : q.connections id ≠ none)
    (hs : q.handleData K id payload current = .ok q') : Live K q' := by
  obtain ⟨cb, hcb, hcreated⟩ := h.created hsome
  simp only [KcpLayer.handleData, hcb] at hs
  obtain rfl := Except.ok.inj hs
  have hlive : Live K ((q.setInfo id (q.info id)).kcpUpdate K id (K.input cb payload) current) :=
    kcpUpdate hK (h.setInfo (h.created hsome)) (hcreated.input payload)
  split_ifs
  · exact hlive
  · exact hlive

end Live

/-! ## A payload -/

theorem isHandshakeSyn_length (h : isHandshakeSyn payload = true) : 27 ≤ payload.length :=
  (List.isPrefixOf_iff_prefix.mp h).length_le

theorem isClosePacket_length (h : isClosePacket payload = true) : 30 ≤ payload.length :=
  (List.isPrefixOf_iff_prefix.mp h).length_le

/-- No read goes beyond a payload if and only if it is long enough. -/
theorem reads_inside_iff :
    (∀ n ∈ reads payload, n ≤ payload.length) ↔ payload = [] ∨ 30 ≤ payload.length ∨
      27 ≤ payload.length ∧ (isHandshakeSyn payload ∨ isHandshakeAck payload) := by
  have hsyn : KCP_HANDSHAKE_SYN.length = 27 := by decide
  have hack : KCP_HANDSHAKE_ACK.length = 13 := by decide
  have hclose : KCP_CLOSE_MSG.length = 30 := by decide
  unfold reads
  split_ifs with hnil hs ha hc
  · simp [hnil]
  · simp [hsyn, hs, isHandshakeSyn_length hs]
  · simp [hsyn, hack, hnil, ha]
    omega
  · have hlength := isClosePacket_length hc
    simp [hsyn, hack, hclose, hlength]
    omega
  · simp [hsyn, hack, hclose, hnil, hs, ha]
    omega

/-! ## The events -/

/-- An event that names conversations of the layer leaves no null entry. -/
theorem Live.step {e : Event} (hK : K.KeepsConv) (h : Live K q) (hn : q.Named e)
    (hs : KcpLayer.step K q e = .ok q') : Live K q' := by
  cases e with
  | handleRead datagram current =>
    cases handled_of_handleRead hs with
    | failed | empty | close => exact h
    | syn hsyn => exact h.handleSyn hK
    | ack hsyn hack hid =>
      rcases hn with hnil | ⟨-, hn⟩
      · rw [hnil] at hack
        cases hack
      · rw [hsyn, hack] at hn
        exact h.handleAck hK (hn _ hid)
    | data hsyn hack hclose hid hdata =>
      rcases hn with hnil | ⟨-, hn⟩
      · rw [hnil] at hid
        cases hid
      · rw [hsyn, hack, hclose] at hn
        obtain ⟨id', hid', hsome⟩ := hn
        obtain rfl := Except.ok.inj (hid.symm.trans hid')
        exact h.handleData hK hsome hdata
  | connect | getConnectionConv =>
    obtain rfl := Except.ok.inj hs
    exact h
  | send conv msg current =>
    obtain ⟨cb, hcb, hcreated⟩ := h.created hn
    simp only [KcpLayer.step, KcpLayer.send, hcb] at hs
    obtain rfl := Except.ok.inj hs
    exact kcpUpdate hK (h.setInfo (h.created hn)) (hcreated.send msg)
  | receive len =>
    obtain ⟨cb, hcb, hcreated⟩ := h.created hn
    simp only [KcpLayer.step, KcpLayer.receive] at hs
    split at hs
    · cases hs
    · next cb' hcb' =>
      obtain rfl := Except.ok.inj hs
      obtain rfl : cb = cb' := Option.some.inj (hcb.symm.trans hcb')
      exact setKcpcb (h.setInfo (h.created hn)) (hcreated.recv len)

/-- A null entry is used if and only if the conversation has no control block. -/
theorem handleData_eq_error_iff {f : KcpFault} :
    q.handleData K id payload current = .error f ↔
      (q.info id).kcpcb = none ∧ f = .nullKcpcb := by
  cases hcb : (q.info id).kcpcb with
  | none => simp [handleData, hcb, eq_comm]
  | some cb => simp [handleData, hcb]

theorem kcpcb_of_connections_eq_none (h : q.connections conv = none) :
    (q.info conv).kcpcb = none := by
  rw [KcpLayer.info, h]
  rfl

/-- An event that names conversations of the layer faults only at an acknowledgement without a
number. -/
theorem noFault_of_named {e : Event} {f : KcpFault} (h : Live K q) (hn : q.Named e)
    (hs : q.step K e = .error f) : ∃ error, f = .stoul error := by
  cases e with
  | handleRead datagram current =>
    cases datagram with
    | none => cases hs
    | some d =>
      simp only [step, handleRead] at hs
      split_ifs at hs with hnil hlarge hsyn hack hclose
      · rcases hn with hnil' | ⟨hle, -⟩
        · exact absurd hnil' hnil
        · exact absurd hle (not_le.mpr hlarge)
      · split at hs
        · cases hs
        · next error _ =>
          obtain rfl := Except.error.inj hs
          exact ⟨error, rfl⟩
      · obtain ⟨-, hn⟩ := hn.resolve_left hnil
        rw [if_neg hsyn, if_neg hack, if_neg hclose] at hn
        obtain ⟨id, hid, hsome⟩ := hn
        rw [hid] at hs
        obtain ⟨cb, hcb, -⟩ := h.created hsome
        obtain ⟨hnull, -⟩ := handleData_eq_error_iff.mp hs
        rw [hcb] at hnull
        cases hnull
  | connect | getConnectionConv => cases hs
  | send conv msg current =>
    obtain ⟨cb, hcb, -⟩ := h.created hn
    simp only [step, send, hcb] at hs
    cases hs
  | receive len =>
    obtain ⟨cb, hcb, -⟩ := h.created hn
    simp only [step, receive] at hs
    split at hs
    · next hnull =>
      have hnull : (q.info (BitVec.ofNat 32 q.dataFd.id)).kcpcb = none := hnull
      rw [hcb] at hnull
      cases hnull
    · cases hs

/-- The conversation whose control block an event uses is one that the layer has. -/
theorem connections_of_drivenConv {e : Event} (hn : q.Named e) (hconv : conv ∈ q.drivenConv e) :
    q.connections conv ≠ none := by
  cases e with
  | handleRead datagram current =>
    cases datagram with
    | none => cases hconv
    | some d =>
      simp only [drivenConv] at hconv
      split_ifs at hconv with hkind
      · cases hconv
      · push Not at hkind
        obtain ⟨hnil, hsyn, hack, hclose⟩ := hkind
        obtain ⟨-, hn⟩ := hn.resolve_left hnil
        rw [if_neg hsyn, if_neg hack, if_neg hclose] at hn
        obtain ⟨id, hid, hsome⟩ := hn
        rw [hid] at hconv
        obtain rfl := Option.some.inj hconv
        exact hsome
  | connect | getConnectionConv => cases hconv
  | send id msg current =>
    obtain rfl := Option.some.inj hconv
    exact hn
  | receive len =>
    obtain rfl := Option.some.inj hconv
    exact hn

/-- An acknowledgement with an id that is not the next one of the client leaves a null entry under
the next id. -/
theorem connections_handleAck_nextConv (hK : K.KeepsConv) (hid : id ≠ q.nextConv)
    (hnone : q.connections q.nextConv = none) (peerAddr : SockaddrIn) (current : BitVec 32) :
    (q.handleAck K id peerAddr current).connections q.nextConv =
      some { kcpcb := none, peerAddr := peerAddr } := by
  have hcb : K.Created id (K.create id) := .create
  have hset : (q.setKcpcb id (K.create id)).connections q.nextConv = none :=
    (connections_setInfo _).trans ((if_neg hid.symm).trans hnone)
  calc (q.handleAck K id peerAddr current).connections q.nextConv
      = ((q.setKcpcb id (K.create id)).setPeerAddr q.nextConv peerAddr).connections q.nextConv :=
        connections_kcpUpdate_of_ne hK hcb.nodelay hid.symm
    _ = some { (q.setKcpcb id (K.create id)).info q.nextConv with peerAddr := peerAddr } :=
        (connections_setInfo _).trans (if_pos rfl)
    _ = some { kcpcb := none, peerAddr := peerAddr } := by
        rw [KcpLayer.info, hset]
        rfl

theorem getconv_error {f : KcpFault} (h : getconv payload = .error f) : f = .overread := by
  unfold getconv at h
  split at h
  · cases h
  · exact (Except.error.inj h).symm

/-- A datagram names a conversation of the layer unless it faults or leaves a null entry. -/
theorem namedPayload_of_live {d : Datagram} (hK : K.KeepsConv)
    (hfault : ∀ f, q.handleRead K (some d) current = .error f → ∃ error, f = .stoul error)
    (hlive : ∀ q', q.handleRead K (some d) current = .ok q' → Live K q') :
    q.NamedPayload d.payload := by
  by_cases hnil : d.payload = []
  · exact .inl hnil
  have hle : d.payload.length ≤ datagramSize := by
    by_contra hlt
    obtain ⟨error, herror⟩ := hfault .overread (by
      rw [handleRead, if_neg hnil, if_pos (not_le.mp hlt)])
    cases herror
  refine .inr ⟨hle, ?_⟩
  simp only [handleRead, if_neg hnil, if_neg (not_lt.mpr hle)] at hfault hlive
  split_ifs with hsyn hack hclose
  · intro id hid
    rw [if_neg hsyn, if_pos hack, hid] at hlive
    by_contra hor
    push Not at hor
    obtain ⟨hne, hnone⟩ := hor
    have hnull := connections_handleAck_nextConv hK hne hnone d.peerAddr current
    obtain ⟨cb, hcb, -⟩ := hlive _ rfl _ _ hnull
    cases hcb
  · rw [if_neg hsyn, if_neg hack, if_neg hclose] at hfault
    cases hid : getconv d.payload with
    | error f =>
      rw [hid, getconv_error hid] at hfault
      obtain ⟨error, herror⟩ := hfault .overread rfl
      cases herror
    | ok id =>
      refine ⟨id, rfl, fun hnone => ?_⟩
      rw [hid] at hfault
      obtain ⟨error, herror⟩ := hfault .nullKcpcb
        (handleData_eq_error_iff.mpr ⟨kcpcb_of_connections_eq_none hnone, rfl⟩)
      cases herror

/-- An event that drives live control blocks names conversations of the layer. -/
theorem Drives.named {e : Event} (hK : K.KeepsConv) (hd : Drives K q e) : q.Named e := by
  cases e with
  | handleRead datagram current =>
    cases datagram with
    | none => trivial
    | some d => exact namedPayload_of_live hK hd.noFault hd.live
  | connect | getConnectionConv => trivial
  | send conv msg current =>
    intro hnone
    obtain ⟨cb, hcb, -⟩ := hd.created _ rfl
    rw [kcpcb_of_connections_eq_none hnone] at hcb
    cases hcb
  | receive len =>
    intro hnone
    obtain ⟨cb, hcb, -⟩ := hd.created _ rfl
    rw [kcpcb_of_connections_eq_none hnone] at hcb
    cases hcb

theorem Drives.long {e : Event} (hd : Drives K q e) : Long e := by
  cases e with
  | handleRead datagram current =>
    cases datagram with
    | none => trivial
    | some d => exact reads_inside_iff.mp (hd.inside d current rfl)
  | connect | getConnectionConv | send conv msg current | receive len => trivial

theorem drives_of_named {e : Event} (hK : K.KeepsConv) (h : Live K q) (hn : q.Named e)
    (hl : Long e) : Drives K q e where
  created conv hconv := h.created (connections_of_drivenConv hn hconv)
  inside d current he := by
    rw [he] at hl
    exact reads_inside_iff.mpr hl
  noFault _ hs := noFault_of_named h hn hs
  live _ hs := h.step hK hn hs

theorem live_of_reachable (hK : K.KeepsConv) (hr : ((machine K).guard Named).Reachable q) :
    Live K q := by
  apply hr.invariant (I := Live K)
  · intro q e q' h he hs
    exact h.step hK he.2 hs
  · rintro q ⟨inetAddr, rfl⟩ conv info hinfo
    cases hinfo

/-- As long as all events name conversations of the layer, no entry is null, and the next event
drives live control blocks and reads no more than the payload if and only if it, too, names a
conversation of the layer, and its payload is long enough. -/
theorem drives_iff (hK : K.KeepsConv) (hr : ((machine K).guard Named).Reachable q) :
    Live K q ∧ ∀ e, Drives K q e ↔ q.Named e ∧ Long e :=
  have hlive := live_of_reachable hK hr
  ⟨hlive, fun _ => ⟨fun hd => ⟨hd.named hK, hd.long⟩, fun h => drives_of_named hK hlive h.1 h.2⟩⟩

theorem keepsConv_idleStack : idleStack.KeepsConv where
  create _ := rfl
  nodelay _ := rfl
  update _ _ := rfl
  input _ _ := rfl
  send _ _ := rfl
  recv _ _ := rfl

/-- Data for the first conversation of a server. -/
def dataFrom (port : BitVec 16) (conv : UInt8) : Event :=
  .handleRead (some
    { payload := conv :: List.replicate 31 0, peerAddr := hostAt port }) 0

theorem drives_iff_dataAfterSyn : ∃ q : KcpLayer (BitVec 32),
    (machine idleStack).Run (init {}) [synFrom 1] q ∧ Live idleStack q ∧
      Drives idleStack q (dataFrom 1 1) := by
  obtain ⟨q, hq⟩ : ∃ q, (machine idleStack).step (init {}) (synFrom 1) = .ok q := ⟨_, rfl⟩
  have hrun : ((machine idleStack).guard Named).Run (init {}) [synFrom 1] q :=
    .cons ⟨trivial, .inr ⟨by decide, trivial⟩⟩ hq (.nil q)
  have h := drives_iff keepsConv_idleStack ⟨_, _, ⟨{}, rfl⟩, hrun⟩
  refine ⟨q, hrun.of_guard, h.1, (h.2 _).mpr ⟨?_, .inr (.inl (by decide))⟩⟩
  obtain rfl := Except.ok.inj hq
  exact .inr ⟨by decide, 1, by decide, by decide⟩

/-- Data for a conversation that the layer does not have is given to a null control block. -/
theorem not_drives_unknown : ∃ q : KcpLayer (BitVec 32), (machine idleStack).Reachable q ∧
    q.step idleStack (dataFrom 1 1) = .error .nullKcpcb ∧ ¬Drives idleStack q (dataFrom 1 1) := by
  have hs : (init {} : KcpLayer (BitVec 32)).step idleStack (dataFrom 1 1) = .error .nullKcpcb := by
    rfl
  refine ⟨init {}, ⟨_, [], ⟨{}, rfl⟩, .nil _⟩, hs, fun hd => ?_⟩
  obtain ⟨error, herror⟩ := hd.noFault _ hs
  cases herror

end KcpLayer

end CodingDemo.Libcpp
