import CodingDemo.Kcp.Ikcp.Endpoint
import CodingDemo.Kcp.Ikcp.Simulation

/-!
# Two endpoints of KCP

Two control blocks of a conversation send datagrams to each other. The network can lose a datagram,
deliver it late, or deliver it many times.

## Main definitions

* `network`: the machine of two endpoints
* `Connected`: the invariant, with a selective repeat protocol for each direction

## Main results

* `Connected.step`: each event makes steps of the protocols
* `network_simulated`: every run is one of two selective repeat protocols
* `received_prefix`: what has been received are the first messages that were sent
-/

namespace CodingDemo.Kcp

open IKCPCB

inductive Side
  | left
  | right
  deriving DecidableEq

def Side.other : Side → Side
  | .left => .right
  | .right => .left

/-- A control block, with what has happened at its end. -/
structure Peer where
  kcp : IKCPCB
  /-- The messages that `ikcp_send` has taken. -/
  sent : List (List UInt8)
  /-- The messages that `ikcp_recv` has handed over. -/
  received : List (List UInt8)
  /-- All datagrams that have been output. -/
  datagrams : List (List UInt8)
  /-- How many segments have been queued. -/
  queued : ℕ

/-- The datagrams reach a control block by `deliver` only. -/
inductive Event
  | call (side : Side) (call : Call)
  /-- The side is given a datagram of the other one. -/
  | deliver (side : Side) (index : ℕ)

def Peer.create (conv : BitVec 32) : Peer where
  kcp := ikcp_create conv
  sent := []
  received := []
  datagrams := []
  queued := 0

/-- A message counts as sent if it is taken, and as received if it is not only looked at. -/
def Peer.call (p : Peer) : Call → Except Fault Peer
  | .send message => do
    let (kcp, n) ← p.kcp.ikcp_send message
    .ok { p with
      kcp := kcp
      sent := if n = 0 then p.sent ++ [message] else p.sent
      queued := p.queued + (kcp.snd_queue.length - p.kcp.snd_queue.length) }
  | .recv len => do
    let (kcp, n, buffer) ← p.kcp.ikcp_recv len
    .ok { p with
      kcp := kcp
      received := if 0 ≤ n ∧ 0 ≤ len then p.received ++ [buffer] else p.received }
  | .update current => do
    let (kcp, datagrams) ← p.kcp.ikcp_update current
    .ok { p with kcp := kcp, datagrams := p.datagrams ++ datagrams }
  | .flush => do
    let (kcp, datagrams) ← p.kcp.ikcp_flush
    .ok { p with kcp := kcp, datagrams := p.datagrams ++ datagrams }
  | call => do
    let kcp ← call.run p.kcp
    .ok { p with kcp := kcp }

def Peer.deliver (p : Peer) (datagram : List UInt8) : Except Fault Peer := do
  let (kcp, _) ← p.kcp.ikcp_input datagram
  .ok { p with kcp := kcp }

/-- The calls that can happen. The number of segments stays below half of the range of numbers. -/
def Peer.Allowed (p : Peer) : Call → Prop
  | .send _ => p.queued + 127 < 2 ^ 31
  | .input _ => False
  | call => call.Allowed p.kcp

def network (conv : BitVec 32) : Machine (Side → Peer) Event Fault where
  init net := net = fun _ => Peer.create conv
  enabled net
    | .call side call => (net side).Allowed call
    | .deliver side index => index < (net side.other).datagrams.length
  step net
    | .call side call => do
      let p ← (net side).call call
      .ok (Function.update net side p)
    | .deliver side index => do
      let p ← (net side).deliver ((net side.other).datagrams.getD index [])
      .ok (Function.update net side p)

instance (p : Peer) (call : Call) : Decidable (p.Allowed call) :=
  match call with
  | .send _ => inferInstanceAs (Decidable (_ < _))
  | .input _ => isFalse id
  | .setmtu mtu => inferInstanceAs (Decidable (RoomFor p.kcp mtu))
  | .wndsize _ _ => inferInstanceAs (Decidable (_ ∧ _))
  | .recv _ | .update _ | .flush | .interval _ | .nodelay .. => isTrue trivial

instance (conv : BitVec 32) (net : Side → Peer) (e : Event) :
    Decidable ((network conv).enabled net e) :=
  match e with
  | .call side call => inferInstanceAs (Decidable ((net side).Allowed call))
  | .deliver _ _ => inferInstanceAs (Decidable (_ < _))

/-- The peer `p` is the sender of `out` and the receiver of `inn`, whose messages come from `q`. -/
structure Plays (conv : BitVec 32) (p q : Peer) (out inn : Arq Fragment) : Prop where
  conv_eq : p.kcp.conv = conv
  stream : p.kcp.stream = 0
  sound : Sound p.kcp
  bounded : Bounded out
  length : out.log.length = p.queued
  datagrams : ∀ datagram ∈ p.datagrams, Datagram conv out inn datagram
  messages : ∃ done todo rest, Stands p.kcp out inn done ∧ inn.log = done ++ todo ∧
    q.sent = p.received ++ rest ∧ Framed p.received done ∧ Framed rest todo

/-- Each side is the sender of its own protocol and the receiver of the other one's. -/
def Connected (conv : BitVec 32) (net : Side → Peer) (arq : Side → Arq Fragment) : Prop :=
  ∀ s, Plays conv (net s) (net s.other) (arq s) (arq s.other)

variable {conv : BitVec 32} {net net' : Side → Peer} {arq : Side → Arq Fragment} {p p' q : Peer}
  {out out' inn inn' : Arq Fragment} {s : Side} {kcp kcp' : IKCPCB}

@[simp] theorem Side.other_other (s : Side) : s.other.other = s := by cases s <;> rfl

theorem Side.other_ne (s : Side) : s.other ≠ s := by cases s <;> exact fun h => by cases h

theorem Side.eq_or_eq_other (s t : Side) : t = s ∨ t = s.other := by
  cases s <;> cases t <;> simp [Side.other]

/-- The other peer sees more packets and acknowledgements, and what has been sent. -/
theorem Plays.other (h : Plays conv q p inn out) (hsafe : out.Safe) (hinn : Arq.Steps inn inn')
    (hout : Arq.Steps out out') (hlog : inn'.log = inn.log) (hnext : inn'.next = inn.next)
    (hunacked : inn'.unacked = inn.unacked) (hbase : out'.base = out.base)
    (hheld : out'.held = out.held) {messages : List (List UInt8)} {xs : List Fragment}
    (hlog' : out'.log = out.log ++ xs) (hsent : p'.sent = p.sent ++ messages)
    (hxs : Framed messages xs) : Plays conv q p' inn' out' := by
  obtain ⟨done, todo, rest, hstands, htodo, hrest, hdone, hframed⟩ := h.messages
  refine { h with
    bounded := h.bounded.steps hinn hlog
    length := hlog ▸ h.length
    datagrams := fun datagram hd => (h.datagrams datagram hd).mono hinn.le hout.le
    messages := ⟨done, todo ++ xs, rest ++ messages, ?_, ?_, ?_, hdone, hframed.append hxs⟩ }
  · obtain ⟨hs, hr, hqueue, hstop, hacks⟩ := hstands
    refine ⟨?_, ?_, ?_, ?_, fun ack hack => ?_⟩
    · rw [hlog, hnext, hunacked]
      exact hs
    · rw [hbase, hheld]
      exact hr
    · rw [hlog', hbase, List.take_append_of_le_length (hsafe.base_le.trans hsafe.next_le)]
      exact hqueue
    · rw [hheld, hbase]
      exact hstop
    · obtain ⟨n, hn, harrived⟩ := hacks ack hack
      exact ⟨n, hn, hout.arrived harrived⟩
  · rw [hlog', htodo, List.append_assoc]
  · rw [hsent, hrest, List.append_assoc]

/-! ## The calls of a peer -/

/-- An event of `p` makes steps of both protocols. -/
def Moves (conv : BitVec 32) (p' q : Peer) (out inn : Arq Fragment) : Prop :=
  ∃ out' inn', Arq.Steps out out' ∧ Arq.Steps inn inn' ∧ Plays conv p' q out' inn' ∧
    Plays conv q p' inn' out'

/-- The events that do not submit anything keep the window, and do not take back what has been
received. -/
structure Keeps (p p' : Peer) : Prop where
  sent : p'.sent = p.sent
  queued : p'.queued = p.queued
  received : p.received <+: p'.received
  rcv_wnd : p'.kcp.rcv_wnd = p.kcp.rcv_wnd

/-- At most the settings and the time differ. -/
def SameData (kcp kcp' : IKCPCB) : Prop :=
  ∃ mtu mss nodelay rx_minrto interval fastresend nocwnd snd_wnd rcv_wnd current updated ts_flush,
    kcp' = { kcp with
      mtu := mtu
      mss := mss
      nodelay := nodelay
      rx_minrto := rx_minrto
      interval := interval
      fastresend := fastresend
      nocwnd := nocwnd
      snd_wnd := snd_wnd
      rcv_wnd := rcv_wnd
      current := current
      updated := updated
      ts_flush := ts_flush }

/-- The control block stands for the same when the settings or the time change. -/
theorem Stands.of_sameData {done : List Fragment} (h : Stands kcp out inn done)
    (hsame : SameData kcp kcp') (hsound : Sound kcp') :
    Stands kcp' out inn done := by
  obtain ⟨hs, hr, hqueue, hstop, hacks⟩ := h
  obtain ⟨_, _, _, _, _, -, hr'⟩ := hsound.stands
  obtain ⟨_, _, _, _, _, _, _, _, _, _, _, _, rfl⟩ := hsame
  exact ⟨hs.imp fun _ h => ⟨{ h.1 with }, h.2⟩,
    hr.imp fun _ h => ⟨{ h.1 with wnd_ge := hr'.wnd_ge, wnd_lt := hr'.wnd_lt }, h.2⟩, hqueue,
    hstop, hacks⟩

theorem Plays.of_sameData (h : Plays conv p q out inn) (hsame : SameData p.kcp kcp')
    (hsound : Sound kcp') : Plays conv { p with kcp := kcp' } q out inn := by
  obtain ⟨done, todo, rest, hstands, hmessages⟩ := h.messages
  have hstands' := hstands.of_sameData hsame hsound
  obtain ⟨_, _, _, _, _, _, _, _, _, _, _, _, rfl⟩ := hsame
  exact { h with sound := hsound, messages := ⟨done, todo, rest, hstands', hmessages⟩ }

/-- **A message** is refused, or its fragments are submitted. -/
theorem Plays.send (h : Plays conv p q out inn) (hq : Plays conv q p inn out)
    (hroom : p.queued + 127 < 2 ^ 31) (message : List UInt8) :
    ∃ p', p.call (.send message) = .ok p' ∧ Moves conv p' q out inn := by
  obtain ⟨done, todo, rest, hstands, hmessages⟩ := h.messages
  have hb := h.sound.buffers
  obtain ⟨kcp', n, heq, hsettings, hsent⟩ := hstands.send h.stream hb.mss_pos message
  obtain ⟨kcp₁, n₁, heq₁, hsound⟩ := h.sound.send message
  obtain ⟨rfl, rfl⟩ := Prod.mk.inj (Except.ok.inj (heq₁.symm.trans heq))
  refine ⟨_, by rw [Peer.call, heq]; rfl, ?_⟩
  simp only [settings, Prod.mk.injEq] at hsettings
  obtain ⟨hconv, -, -, -, -, -, -, hstream⟩ := hsettings
  rcases hsent with ⟨hn, rfl⟩ | ⟨rfl, xs, hcut, hlen, hqueue, hstands'⟩
  · rw [if_neg hn, Nat.sub_self, Nat.add_zero]
    exact ⟨out, inn, Relation.ReflTransGen.refl, Relation.ReflTransGen.refl, { h with },
      { hq with }⟩
  · have hstep : Arq.Steps out { out with log := out.log ++ xs } :=
      Relation.ReflTransGen.single (.submit xs)
    have hlt := hcut.length_lt
    have hqueued := h.length
    rw [if_pos rfl, hqueue, Nat.add_sub_cancel_left]
    refine ⟨_, inn, hstep, Relation.ReflTransGen.refl, ?_, ?_⟩
    · refine ⟨hconv.trans h.conv_eq, hstream.trans h.stream, hsound, ⟨?_, ?_, ?_⟩, ?_, ?_, done,
        todo, rest, hstands', hmessages⟩
      · exact h.bounded.safe.steps hstep
      · rw [List.length_append]
        omega
      · intro x hx
        rcases List.mem_append.mp hx with hx | hx
        · exact h.bounded.fragments x hx
        · have hfrg := hcut.countDown.frg_lt (by omega) hx
          have hdata := hlen x hx
          have hmtu := hb.size_lt
          have hge := hb.mtu_ge
          rw [hb.mss_toNat] at hdata
          rw [IKCP_OVERHEAD]
          omega
      · rw [List.length_append, hqueued]
      · exact fun datagram hd => (h.datagrams datagram hd).mono hstep.le (Arq.Le.refl _)
    · exact hq.other h.bounded.safe Relation.ReflTransGen.refl hstep rfl rfl rfl rfl rfl rfl rfl
        hcut.framed

/-- **A message** is handed over, if there is one. -/
theorem Plays.recv (h : Plays conv p q out inn) (hq : Plays conv q p inn out) (len : ℤ) :
    ∃ p', p.call (.recv len) = .ok p' ∧ Keeps p p' ∧ Moves conv p' q out inn := by
  obtain ⟨done, todo, rest, hstands, htodo, hrest, hdone, hframed⟩ := h.messages
  obtain ⟨kcp', n, buffer, base, held, heq, hsteps, hsettings, hhanded⟩ :=
    hstands.recv hq.bounded htodo hframed len
  obtain ⟨kcp₁, n₁, buffer₁, heq₁, hsound⟩ := h.sound.recv len
  obtain ⟨rfl, heq₂⟩ := Prod.mk.inj (Except.ok.inj (heq₁.symm.trans heq))
  refine ⟨_, by rw [Peer.call, heq]; rfl, ?_, out, _, Relation.ReflTransGen.refl, hsteps, ?_, ?_⟩
  · refine ⟨rfl, rfl, ?_, congrArg (fun s => s.2.2.2.2.1) hsettings⟩
    split_ifs
    · exact List.prefix_append _ _
    · exact List.prefix_rfl
  · simp only [settings, Prod.mk.injEq] at hsettings
    obtain ⟨hconv, -, -, -, -, -, -, hstream⟩ := hsettings
    refine ⟨hconv.trans h.conv_eq, hstream.trans h.stream, hsound, h.bounded, h.length, ?_, ?_⟩
    · exact fun datagram hd => (h.datagrams datagram hd).mono (Arq.Le.refl _) hsteps.le
    · cases hhanded with
      | none hn hstands' =>
        rw [if_neg (by omega)]
        exact ⟨done, todo, rest, hstands', htodo, hrest, hdone, hframed⟩
      | some xs todo' rest' hn hlen hrest' htodo' hcut hframed' hstands' =>
        rw [if_pos ⟨hn, hlen⟩]
        refine ⟨done ++ xs, todo', rest', hstands', ?_, ?_, hdone.append hcut.framed, hframed'⟩
        · rw [List.append_assoc, ← htodo']
          exact htodo
        · rw [List.append_assoc, List.singleton_append, ← hrest']
          exact hrest
  · exact hq.other h.bounded.safe hsteps Relation.ReflTransGen.refl rfl rfl rfl rfl rfl
      (List.append_nil _).symm (List.append_nil _).symm .nil

/-- **A datagram** of the other peer is taken. The fragments within the window arrive. -/
theorem Plays.deliver (h : Plays conv p q out inn) (hq : Plays conv q p inn out)
    {segs : List IKCPSEG} (hne : segs ≠ []) (hsegs : ∀ seg ∈ segs, Carries conv inn out seg)
    (hlt : (segs.flatMap IKCPSEG.bytes).length < 2 ^ 31) :
    ∃ kcp' out' inn', p.deliver (segs.flatMap IKCPSEG.bytes) = .ok { p with kcp := kcp' } ∧
      Taken p.kcp kcp' segs ∧ Arq.Steps out out' ∧ Arq.Steps inn inn' ∧ out'.next = out.next ∧
      Plays conv { p with kcp := kcp' } q out' inn' ∧
      Plays conv q { p with kcp := kcp' } inn' out' ∧ Arrives p.kcp kcp' inn inn' segs := by
  obtain ⟨done, todo, rest, hstands, hmessages⟩ := h.messages
  have hcarries : ∀ seg ∈ segs, Carries p.kcp.conv inn out seg := h.conv_eq ▸ hsegs
  obtain ⟨kcp', u, base, held, heq, hkcp, hout, hinn, hstands', harrived⟩ :=
    hstands.input h.bounded hq.bounded h.sound.buffers.mss_pos hne hcarries hlt
  obtain ⟨kcp₁, n₁, heq₁, hsound⟩ := h.sound.input (segs.flatMap IKCPSEG.bytes)
  obtain ⟨rfl, -⟩ := Prod.mk.inj (Except.ok.inj (heq₁.symm.trans heq))
  refine ⟨kcp₁, _, _, by rw [Peer.deliver, heq]; rfl, hkcp, hout, hinn, rfl, ?_, ?_,
    harrived⟩
  · have hsettings : settings kcp₁ = settings p.kcp := by
      obtain ⟨_, _, _, -, rfl⟩ := hkcp
      exact settings_inputSegments p.kcp none segs
    simp only [settings, Prod.mk.injEq] at hsettings
    obtain ⟨hconv, -, -, -, -, -, -, hstream⟩ := hsettings
    refine ⟨hconv.trans h.conv_eq, hstream.trans h.stream, hsound, h.bounded.steps hout rfl,
      h.length, ?_, done, todo, rest, hstands', hmessages⟩
    exact fun datagram hd => (h.datagrams datagram hd).mono hout.le hinn.le
  · exact hq.other h.bounded.safe hinn hout rfl rfl rfl rfl rfl
      (List.append_nil _).symm (List.append_nil _).symm .nil

/-- **A flush** outputs datagrams. -/
theorem Plays.flush (h : Plays conv p q out inn) (hq : Plays conv q p inn out)
    (hupdated : p.kcp.updated ≠ 0) :
    ∃ kcp' datagrams kept xs ctrl segs out' inn',
      p.kcp.ikcp_flush = .ok (kcp', datagrams) ∧ Sends p.kcp out.log out.next kept ∧
      Flushes p.kcp kcp' out.log out.next kept xs ctrl segs datagrams ∧ Arq.Steps out out' ∧
      Arq.Steps inn inn' ∧ out'.next = out.next + xs.length ∧ out'.base = out.base ∧
      inn'.next = inn.next ∧
      Plays conv { p with kcp := kcp', datagrams := p.datagrams ++ datagrams } q out' inn' ∧
      Plays conv q { p with kcp := kcp', datagrams := p.datagrams ++ datagrams } inn' out' ∧
      ∀ seg ∈ ctrl ++ segs, Carries conv out' inn' seg := by
  obtain ⟨done, todo, rest, hstands, hmessages⟩ := h.messages
  obtain ⟨kcp', datagrams, kept, xs, ctrl, segs, u, data, acks, counts, heq, hs, hf, hout, hinn,
    hstands', hcarries⟩ := hstands.flush h.bounded h.sound.buffers (fun _ => h.sound.fits_counts)
      hupdated
  obtain ⟨kcp₁, datagrams₁, heq₁, hsound⟩ := h.sound.flush
  obtain ⟨rfl, -⟩ := Prod.mk.inj (Except.ok.inj (heq₁.symm.trans heq))
  rw [h.conv_eq] at hcarries
  refine ⟨_, _, kept, xs, ctrl, segs, _, _, heq, hs, hf, hout, hinn, rfl, rfl, rfl, ?_, ?_,
    hcarries⟩
  · have hsettings := hf.settings
    simp only [settings, Prod.mk.injEq] at hsettings
    obtain ⟨hconv, -, -, -, -, -, -, hstream⟩ := hsettings
    refine ⟨hconv.trans h.conv_eq, hstream.trans h.stream, hsound, h.bounded.steps hout rfl,
      h.length, ?_, done, todo, rest, hstands', hmessages⟩
    intro datagram hd
    rcases List.mem_append.mp hd with hd | hd
    · exact (h.datagrams datagram hd).mono hout.le hinn.le
    · have hsize := h.sound.buffers.size_lt
      exact hf.packed.datagrams (by omega) hcarries datagram hd
  · exact hq.other h.bounded.safe hinn hout rfl rfl rfl rfl rfl
      (List.append_nil _).symm (List.append_nil _).symm .nil

/-- Before the first update nothing is flushed. -/
theorem Plays.flush_moves (h : Plays conv p q out inn) (hq : Plays conv q p inn out) :
    ∃ kcp' datagrams, p.kcp.ikcp_flush = .ok (kcp', datagrams) ∧
      Keeps p { p with kcp := kcp', datagrams := p.datagrams ++ datagrams } ∧
      Moves conv { p with kcp := kcp', datagrams := p.datagrams ++ datagrams } q out inn := by
  by_cases hupdated : p.kcp.updated = 0
  · refine ⟨p.kcp, [], if_pos hupdated, ⟨rfl, rfl, List.prefix_rfl, rfl⟩, out, inn,
      Relation.ReflTransGen.refl, Relation.ReflTransGen.refl, ?_, { hq with }⟩
    rw [List.append_nil]
    exact h
  · obtain ⟨kcp', datagrams, kept, xs, ctrl, segs, out', inn', heq, -, hf, hout, hinn, -, -, -, hp',
      hq', -⟩ := h.flush hq hupdated
    exact ⟨kcp', datagrams, heq, ⟨rfl, rfl, List.prefix_rfl,
      congrArg (fun s => s.2.2.2.2.1) hf.settings⟩, out', inn', hout, hinn, hp', hq'⟩

/-- The time is set. Then an update is a flush, or nothing else. -/
theorem Sound.exists_update (h : Sound kcp) (current : BitVec 32) :
    ∃ kcp₁, (∃ updated ts_flush, updated ≠ 0 ∧ kcp₁ = { kcp with
        current := current
        updated := updated
        ts_flush := ts_flush }) ∧ Sound kcp₁ ∧
      (kcp.ikcp_update current = kcp₁.ikcp_flush ∨ kcp.ikcp_update current = .ok (kcp₁, [])) := by
  obtain ⟨updated, ts_flush, hne, hupdate⟩ := ikcp_update_eq kcp current
  exact ⟨_, ⟨_, _, hne, rfl⟩, h.setTime current updated ts_flush, hupdate⟩

/-- **An update** is a flush, or nothing but the time changes. -/
theorem Plays.update (h : Plays conv p q out inn) (hq : Plays conv q p inn out)
    (current : BitVec 32) :
    ∃ p', p.call (.update current) = .ok p' ∧ Keeps p p' ∧ Moves conv p' q out inn := by
  obtain ⟨kcp₁, ⟨_, _, -, hkcp⟩, hsound, hupdate⟩ := h.sound.exists_update current
  have hsame : SameData p.kcp kcp₁ := by
    rw [hkcp]
    exact ⟨_, _, _, _, _, _, _, _, _, _, _, _, rfl⟩
  have hwnd : kcp₁.rcv_wnd = p.kcp.rcv_wnd := by rw [hkcp]
  rcases hupdate with heq | heq
  · have hq₁ : Plays conv q { p with kcp := kcp₁ } inn out := { hq with }
    obtain ⟨kcp', datagrams, hflush, hkeeps, hmoves⟩ := (h.of_sameData hsame hsound).flush_moves hq₁
    exact ⟨_, by rw [Peer.call, heq, hflush]; rfl,
      { hkeeps with rcv_wnd := hkeeps.rcv_wnd.trans hwnd }, hmoves⟩
  · refine ⟨{ p with kcp := kcp₁, datagrams := p.datagrams ++ [] }, by rw [Peer.call, heq]; rfl,
      ⟨rfl, rfl, List.prefix_rfl, hwnd⟩, out, inn, Relation.ReflTransGen.refl,
      Relation.ReflTransGen.refl, ?_, { hq with }⟩
    rw [List.append_nil]
    exact h.of_sameData hsame hsound

theorem sameData_setmtu (kcp : IKCPCB) (mtu : ℤ) : SameData kcp (kcp.ikcp_setmtu mtu).1 := by
  rw [ikcp_setmtu]
  split_ifs
  all_goals exact ⟨_, _, _, _, _, _, _, _, _, _, _, _, rfl⟩

theorem sameData_nodelay (kcp : IKCPCB) (mode ms fast nc : ℤ) :
    SameData kcp (kcp.ikcp_nodelay mode ms fast nc) := by
  rw [ikcp_nodelay]
  split_ifs
  all_goals exact ⟨_, _, _, _, _, _, _, _, _, _, _, _, rfl⟩

theorem sameData_wndsize (kcp : IKCPCB) (sndwnd rcvwnd : ℤ) :
    SameData kcp (kcp.ikcp_wndsize sndwnd rcvwnd) := by
  rw [ikcp_wndsize]
  split_ifs
  all_goals exact ⟨_, _, _, _, _, _, _, _, _, _, _, _, rfl⟩

theorem Plays.setting (h : Plays conv p q out inn) (hq : Plays conv q p inn out)
    (hsame : SameData p.kcp kcp') (hsound : Sound kcp') :
    Moves conv { p with kcp := kcp' } q out inn :=
  ⟨out, inn, Relation.ReflTransGen.refl, Relation.ReflTransGen.refl, h.of_sameData hsame hsound,
    { hq with }⟩

/-- **No call** faults, and each makes steps of both protocols. -/
theorem Plays.call (h : Plays conv p q out inn) (hq : Plays conv q p inn out) {call : Call}
    (hcall : p.Allowed call) : ∃ p', p.call call = .ok p' ∧ Moves conv p' q out inn := by
  cases call with
  | send message => exact h.send hq hcall message
  | recv len =>
    obtain ⟨p', heq, -, hmoves⟩ := h.recv hq len
    exact ⟨p', heq, hmoves⟩
  | input data => exact hcall.elim
  | update current =>
    obtain ⟨p', heq, -, hmoves⟩ := h.update hq current
    exact ⟨p', heq, hmoves⟩
  | flush =>
    obtain ⟨kcp', datagrams, heq, -, hmoves⟩ := h.flush_moves hq
    exact ⟨_, by rw [Peer.call, heq]; rfl, hmoves⟩
  | setmtu mtu => exact ⟨_, rfl, h.setting hq (sameData_setmtu _ _) (h.sound.setmtu hcall)⟩
  | interval ms =>
    exact ⟨_, rfl, h.setting hq ⟨_, _, _, _, _, _, _, _, _, _, _, _, rfl⟩ (h.sound.interval ms)⟩
  | nodelay mode ms fast nc =>
    exact ⟨_, rfl, h.setting hq (sameData_nodelay _ _ _ _ _) (h.sound.nodelay mode ms fast nc)⟩
  | wndsize sndwnd rcvwnd =>
    exact ⟨_, rfl, h.setting hq (sameData_wndsize _ _ _) (h.sound.wndsize hcall.1 hcall.2)⟩

/-! ## Every run -/

/-- One side has made an event. -/
theorem Connected.update (arq : Side → Arq Fragment) (hp : Plays conv p' (net s.other) out' inn')
    (hq : Plays conv (net s.other) p' inn' out') :
    Connected conv (Function.update net s p')
      (Function.update (Function.update arq s.other inn') s out') := by
  intro t
  rcases Side.eq_or_eq_other s t with rfl | rfl
  · rw [Function.update_self, Function.update_self, Function.update_of_ne (Side.other_ne t),
      Function.update_of_ne (Side.other_ne t), Function.update_self]
    exact hp
  · rw [Side.other_other, Function.update_self, Function.update_self,
      Function.update_of_ne (Side.other_ne s), Function.update_of_ne (Side.other_ne s),
      Function.update_self]
    exact hq

/-- **No event** faults, and each makes steps of the protocols. -/
theorem Connected.step (h : Connected conv net arq) {e : Event}
    (he : (network conv).enabled net e) :
    ∃ net' arq', (network conv).step net e = .ok net' ∧ Connected conv net' arq' ∧
      ∀ s, Arq.Steps (arq s) (arq' s) := by
  obtain ⟨s, p', hstep, out', inn', hout, hinn, hp, hq⟩ : ∃ s p',
      (network conv).step net e = .ok (Function.update net s p') ∧
        Moves conv p' (net s.other) (arq s) (arq s.other) := by
    cases e with
    | call side call =>
      have hq := h side.other
      rw [Side.other_other] at hq
      obtain ⟨p', heq, hmoves⟩ := (h side).call hq he
      exact ⟨side, p', by simp only [network, heq]; rfl, hmoves⟩
    | deliver side index =>
      have hq := h side.other
      rw [Side.other_other] at hq
      have hmem : (net side.other).datagrams.getD index [] ∈ (net side.other).datagrams := by
        rw [List.getD_eq_getElem?_getD, List.getElem?_eq_getElem he]
        exact List.getElem_mem he
      obtain ⟨segs, hne, hsegs, hlt, hcarries⟩ := hq.datagrams _ hmem
      rw [hsegs] at hlt
      obtain ⟨kcp', out', inn', heq, -, hout, hinn, -, hp, hq, -⟩ :=
        (h side).deliver hq hne hcarries hlt
      rw [← hsegs] at heq
      exact ⟨side, _, by simp only [network, heq]; rfl, out', inn', hout, hinn, hp, hq⟩
  refine ⟨_, _, hstep, Connected.update arq hp hq, fun t => ?_⟩
  rcases Side.eq_or_eq_other s t with rfl | rfl
  · rw [Function.update_self]
    exact hout
  · rw [Function.update_of_ne (Side.other_ne s), Function.update_self]
    exact hinn

theorem connected_create (conv : BitVec 32) :
    Connected conv (fun _ => Peer.create conv) fun _ => Arq.init := by
  intro s
  refine ⟨rfl, rfl, sound_create conv 0, ⟨Arq.Safe.init, Nat.two_pow_pos 31, ?_⟩, rfl, ?_, [], [],
    [], ⟨⟨[], sends_create conv 0, ?_⟩, ⟨[], receives_create conv 0, ?_⟩, rfl,
      fun _ p hp => absurd hp (Set.notMem_empty p), ?_⟩, rfl, rfl, .nil, .nil⟩
  · exact fun x hx => absurd hx List.not_mem_nil
  · exact fun datagram hd => absurd hd List.not_mem_nil
  · ext n
    simp [Arq.init]
  · ext p
    simp [Arq.init]
  · exact fun ack hack => absurd hack List.not_mem_nil

/-- There are selective repeat protocols that the peers have run. -/
def Simulated (conv : BitVec 32) (net : Side → Peer) : Prop :=
  ∃ arq, Connected conv net arq ∧ ∀ s, Arq.Steps Arq.init (arq s)

theorem preserves_simulated (conv : BitVec 32) : (network conv).Preserves (Simulated conv) := by
  rintro net e net' ⟨arq, h, hsteps⟩ he hstep
  obtain ⟨net₁, arq', heq, h', hsteps'⟩ := h.step he
  rw [← Except.ok.inj (heq.symm.trans hstep)]
  exact ⟨arq', h', fun s => (hsteps s).trans (hsteps' s)⟩

theorem Simulated.of_init (conv : BitVec 32) (hinit : (network conv).init net) :
    Simulated conv net := by
  rw [hinit]
  exact ⟨_, connected_create conv, fun _ => Relation.ReflTransGen.refl⟩

theorem Simulated.of_reachable (hr : (network conv).Reachable net) : Simulated conv net :=
  hr.invariant (preserves_simulated conv) fun _ => of_init conv

theorem neverFaults_network (conv : BitVec 32) : (network conv).NeverFaults := by
  refine Machine.neverFaults_of_invariant (preserves_simulated conv)
    (fun _ => Simulated.of_init conv) ?_
  rintro net e ⟨arq, h, -⟩ he
  obtain ⟨net', -, heq, -⟩ := h.step he
  exact ⟨net', heq⟩

/-- **What has been received** are the first messages that were sent, whatever the network loses,
repeats or delivers late. -/
theorem received_prefix (conv : BitVec 32) :
    (network conv).NeverFaults ∧ ∀ net, (network conv).Reachable net →
      ∀ s, (net s).received <+: (net s.other).sent := by
  refine ⟨neverFaults_network conv, fun net hr s => ?_⟩
  obtain ⟨arq, h, -⟩ := Simulated.of_reachable hr
  obtain ⟨done, todo, rest, -, -, hsent, -⟩ := (h s).messages
  exact ⟨rest, hsent.symm⟩

/-- **A datagram that has been output** is taken by the other peer, whenever it is delivered. -/
theorem datagrams_accepted (conv : BitVec 32) :
    (network conv).NeverFaults ∧ ∀ net, (network conv).Reachable net →
      ∀ s, ∀ datagram ∈ (net s).datagrams,
        ∃ kcp', (net s.other).kcp.ikcp_input datagram = .ok (kcp', 0) := by
  refine ⟨neverFaults_network conv, fun net hr s datagram hd => ?_⟩
  obtain ⟨arq, h, -⟩ := Simulated.of_reachable hr
  have hq := h s.other
  rw [Side.other_other] at hq
  obtain ⟨segs, hne, rfl, hlt, hcarries⟩ := (h s).datagrams datagram hd
  obtain ⟨_, _, _, hstands, -⟩ := hq.messages
  rw [← hq.conv_eq] at hcarries
  obtain ⟨kcp', -, -, -, heq, -⟩ :=
    hstands.input hq.bounded (h s).bounded hq.sound.buffers.mss_pos hne hcarries hlt
  exact ⟨kcp', heq⟩

end CodingDemo.Kcp
