import CodingDemo.Kcp.Ikcp.Network

/-!
# KCP never gets stuck

Whatever has happened so far, two peers can go on until all messages have been received: fragments
are sent again when they are overdue, acknowledgements open the window again, and a window that is
closed is probed.

## Main definitions

* `Continues`: two peers go on, without new messages
* `Link`: two peers that are connected

## Main results

* `Link.drain`: the messages that are complete are handed over
* `Link.advance`: the next fragment is handed over
* `network_delivers`: from every reachable state all messages can be received
-/

namespace CodingDemo.Kcp

open IKCPCB

/-- The calls that take no message and change no setting. -/
def Call.Continues : Call → Prop
  | .recv _ => True
  | .update _ => True
  | .flush => True
  | _ => False

/-- The peer `p` makes a call, or is given a datagram of `q`. -/
inductive PeerStep (q p : Peer) : Peer → Prop
  | call {p' : Peer} (call : Call) (hc : call.Continues) (h : p.call call = .ok p') :
      PeerStep q p p'
  | deliver {p' : Peer} (datagram : List UInt8) (hd : datagram ∈ q.datagrams)
      (h : p.deliver datagram = .ok p') : PeerStep q p p'

/-- Two peers go on, without new messages. -/
inductive Continues (p q : Peer) : Peer → Peer → Prop
  | refl : Continues p q p q
  | left {p' q' p'' : Peer} (h : Continues p q p' q') (hs : PeerStep q' p' p'') :
      Continues p q p'' q'
  | right {p' q' q'' : Peer} (h : Continues p q p' q') (hs : PeerStep p' q' q'') :
      Continues p q p' q''

/-- Two peers that are connected. -/
structure Link (conv : BitVec 32) (p q : Peer) (out inn : Arq Fragment) : Prop where
  left : Plays conv p q out inn
  right : Plays conv q p inn out

variable {conv : BitVec 32} {p p' p'' q q' q'' : Peer} {out out' inn inn' : Arq Fragment}
  {kcp kcp' : IKCPCB} {segs : List IKCPSEG}

/-! ## Going on -/

theorem Keeps.refl (p : Peer) : Keeps p p := ⟨rfl, rfl, List.prefix_rfl, rfl⟩

theorem Keeps.trans (h : Keeps p p') (h' : Keeps p' p'') : Keeps p p'' :=
  ⟨h'.sent.trans h.sent, h'.queued.trans h.queued, h.received.trans h'.received,
    h'.rcv_wnd.trans h.rcv_wnd⟩

theorem Continues.trans (h : Continues p q p' q') (h' : Continues p' q' p'' q'') :
    Continues p q p'' q'' := by
  induction h' with
  | refl => exact h
  | left _ hs ih => exact ih.left hs
  | right _ hs ih => exact ih.right hs

theorem Continues.symm (h : Continues p q p' q') : Continues q p q' p' := by
  induction h with
  | refl => exact .refl
  | left _ hs ih => exact ih.right hs
  | right _ hs ih => exact ih.left hs

theorem Link.symm (h : Link conv p q out inn) : Link conv q p inn out := ⟨h.right, h.left⟩

/-- **One step** keeps the peers connected. -/
theorem Link.step (h : Link conv p q out inn) (hs : PeerStep q p p') :
    ∃ out' inn', Arq.Steps out out' ∧ Arq.Steps inn inn' ∧ Keeps p p' ∧
      Link conv p' q out' inn' := by
  obtain ⟨hp, hq⟩ := h
  cases hs with
  | call call hc heq =>
    cases call with
    | recv len =>
      obtain ⟨p₁, heq₁, hkeeps, out', inn', hout, hinn, hp', hq'⟩ := hp.recv hq len
      rw [Except.ok.inj (heq.symm.trans heq₁)]
      exact ⟨out', inn', hout, hinn, hkeeps, hp', hq'⟩
    | update current =>
      obtain ⟨p₁, heq₁, hkeeps, out', inn', hout, hinn, hp', hq'⟩ := hp.update hq current
      rw [Except.ok.inj (heq.symm.trans heq₁)]
      exact ⟨out', inn', hout, hinn, hkeeps, hp', hq'⟩
    | flush =>
      obtain ⟨kcp', datagrams, hflush, hkeeps, out', inn', hout, hinn, hp', hq'⟩ :=
        hp.flush_moves hq
      rw [Peer.call, hflush] at heq
      rw [← Except.ok.inj heq]
      exact ⟨out', inn', hout, hinn, hkeeps, hp', hq'⟩
    | send | input | setmtu | interval | nodelay | wndsize => exact hc.elim
  | deliver datagram hd heq =>
    obtain ⟨segs, hne, rfl, hlt, hcarries⟩ := hq.datagrams datagram hd
    obtain ⟨kcp', out', inn', heq₁, ⟨_, _, _, -, hkcp⟩, hout, hinn, -, hp', hq', -⟩ :=
      hp.deliver hq hne hcarries hlt
    rw [Except.ok.inj (heq.symm.trans heq₁)]
    refine ⟨out', inn', hout, hinn, ⟨rfl, rfl, List.prefix_rfl, ?_⟩, hp', hq'⟩
    rw [hkcp]
    exact congrArg (fun s => s.2.2.2.2.1) (settings_inputSegments p.kcp none segs)

/-- **What goes on** stays connected. -/
theorem Link.continues (h : Link conv p q out inn) (hc : Continues p q p' q') :
    ∃ out' inn', Arq.Steps out out' ∧ Arq.Steps inn inn' ∧ Keeps p p' ∧ Keeps q q' ∧
      Link conv p' q' out' inn' := by
  induction hc with
  | refl =>
    exact ⟨out, inn, Relation.ReflTransGen.refl, Relation.ReflTransGen.refl, Keeps.refl p,
      Keeps.refl q, h⟩
  | left _ hs ih =>
    obtain ⟨out', inn', hout, hinn, hp, hq, h'⟩ := ih
    obtain ⟨out'', inn'', hout', hinn', hp', h''⟩ := h'.step hs
    exact ⟨out'', inn'', hout.trans hout', hinn.trans hinn', hp.trans hp', hq, h''⟩
  | right _ hs ih =>
    obtain ⟨out', inn', hout, hinn, hp, hq, h'⟩ := ih
    obtain ⟨inn'', out'', hinn', hout', hq', h''⟩ := h'.symm.step hs
    exact ⟨out'', inn'', hout.trans hout', hinn.trans hinn', hp, hq.trans hq', h''.symm⟩

/-! ## Handing over -/

/-- If no message is complete, the queue has room, and a fragment is missing unless all messages
have been handed over. -/
theorem Plays.of_peeksize_neg (h : Plays conv p q out inn) (hpeek : p.kcp.ikcp_peeksize < 0) :
    p.kcp.rcv_queue.length < 128 ∧ (inn.base = inn.log.length → p.received = q.sent) := by
  obtain ⟨done, todo, rest, hstands, htodo, hrest, -, hframed⟩ := h.messages
  obtain ⟨held, hr, -⟩ := hstands.receives
  have hprefix := hstands.queue_prefix htodo
  have hall : inn.base = inn.log.length → p.kcp.rcv_queue.map IKCPSEG.fragment = todo := by
    intro hbase
    have hqueue := hstands.queue
    rw [hbase, List.take_length, htodo] at hqueue
    exact (List.append_cancel_left hqueue).symm
  cases hframed with
  | nil =>
    rw [List.map_eq_nil_iff.mp (List.prefix_nil.mp hprefix), hrest, List.append_nil]
    exact ⟨Nat.zero_lt_succ _, fun _ => rfl⟩
  | @cons message messages xs ys hcut hframed' =>
    have hpos := List.length_pos_of_ne_nil hcut.ne_nil
    have hlt := hcut.length_lt
    have hfew : p.kcp.rcv_queue.length < xs.length := by
      by_cases hne : p.kcp.rcv_queue = []
      · rw [hne]
        exact hpos
      · have hiff := peeksize_nonneg_iff hcut hne hr.nrcv_que hr.queue_lt hprefix
        exact not_le.mp fun hle => absurd (hiff.mpr hle) (not_le.mpr hpeek)
    refine ⟨hfew.trans hlt, fun hbase => ?_⟩
    have hlen := congrArg List.length (hall hbase)
    rw [List.length_map, List.length_append] at hlen
    omega

/-- **A message that is complete** is handed over. -/
theorem Link.recv (h : Link conv p q out inn) (hpeek : 0 ≤ q.kcp.ikcp_peeksize) :
    ∃ q', q.call (.recv q.kcp.ikcp_peeksize) = .ok q' ∧
      q'.received.length = q.received.length + 1 ∧ (Answers q.kcp → Answers q'.kcp) := by
  obtain ⟨done, todo, rest, hstands, -⟩ := h.right.messages
  obtain ⟨held, hr, -⟩ := hstands.receives
  obtain ⟨result, heq, hrecv⟩ := hr.recv q.kcp.ikcp_peeksize
  cases hrecv with
  | none n hn hwhy =>
    rcases hwhy with hnil | hneg | hlen
    · rw [ikcp_peeksize, hnil] at hpeek
      exact absurd hpeek (by norm_num)
    · exact absurd hpeek (not_le.mpr hneg)
    · rw [abs_of_nonneg hpeek] at hlen
      exact absurd hlen (lt_irrefl _)
  | some kcp' moved held' =>
    refine ⟨_, by rw [Peer.call, heq]; rfl, ?_, fun hans => hans.recv heq⟩
    rw [if_pos ⟨hpeek, hpeek⟩, List.length_append, List.length_singleton]

/-- Messages are asked for, one after the other. -/
def recvs (q : Peer) (lens : List ℤ) : Except Fault Peer :=
  lens.foldlM (fun q len => q.call (.recv len)) q

theorem continues_of_recvs {lens : List ℤ} (h : recvs q lens = .ok q') : Continues p q p q' := by
  induction lens generalizing q with
  | nil =>
    obtain rfl := Except.ok.inj h
    exact .refl
  | cons len lens ih =>
    rw [recvs, List.foldlM_cons] at h
    cases hcall : q.call (.recv len) with
    | error f =>
      rw [hcall] at h
      cases h
    | ok q₁ =>
      rw [hcall] at h
      exact (Continues.refl.right (.call (.recv len) trivial hcall)).trans (ih h)

/-- **All messages that are complete** are handed over. -/
theorem Link.drain (h : Link conv p q out inn) :
    ∃ lens q', recvs q lens = .ok q' ∧ q'.kcp.ikcp_peeksize < 0 ∧
      (Answers q.kcp → Answers q'.kcp) := by
  induction hn : p.sent.length - q.received.length using Nat.strong_induction_on
    generalizing q out inn with
  | h n ih =>
    by_cases hpeek : q.kcp.ikcp_peeksize < 0
    · exact ⟨[], q, rfl, hpeek, id⟩
    obtain ⟨q₁, hcall, hlen, hans⟩ := h.recv (not_lt.mp hpeek)
    obtain ⟨inn', out', -, -, -, h'⟩ := h.symm.step (.call (.recv _) trivial hcall)
    obtain ⟨-, -, rest, -, -, hsent, -⟩ := h'.left.messages
    have hle := congrArg List.length hsent
    rw [List.length_append] at hle
    obtain ⟨lens, q', hrecvs, hpeek', hans'⟩ := ih _ (by omega) h'.symm rfl
    refine ⟨q.kcp.ikcp_peeksize :: lens, q', ?_, hpeek', fun h => hans' (hans h)⟩
    rw [recvs, List.foldlM_cons, hcall]
    exact hrecvs

/-! ## A datagram -/

/-- The time is set, and the clock runs. -/
def SetTime (kcp kcp₁ : IKCPCB) (t : BitVec 32) : Prop :=
  ∃ updated ts_flush, updated ≠ 0 ∧ kcp₁ = { kcp with
    current := t
    updated := updated
    ts_flush := ts_flush }

/-- The peer flushes at the time `t`. -/
theorem Link.flush (h : Link conv p q out inn) (t : BitVec 32) :
    ∃ p' kcp₁ kept xs ctrl segs datagrams out' inn', SetTime p.kcp kcp₁ t ∧
      Sends kcp₁ out.log out.next kept ∧
      Flushes kcp₁ p'.kcp out.log out.next kept xs ctrl segs datagrams ∧
      (∀ datagram ∈ datagrams, datagram ∈ p'.datagrams) ∧ Continues p q p' q ∧
      Arq.Steps out out' ∧ Arq.Steps inn inn' ∧ out'.next = out.next + xs.length ∧
      out'.base = out.base ∧ inn'.next = inn.next ∧ Link conv p' q out' inn' ∧
      ∀ seg ∈ ctrl ++ segs, Carries conv out' inn' seg := by
  obtain ⟨kcp₁, htime, hsound, hupdate⟩ := h.left.sound.exists_update t
  have hsame : SameData p.kcp kcp₁ := by
    obtain ⟨_, _, -, hkcp⟩ := htime
    rw [hkcp]
    exact ⟨_, _, _, _, _, _, _, _, _, _, _, _, rfl⟩
  have hupdated : kcp₁.updated ≠ 0 := by
    obtain ⟨_, _, hne, hkcp⟩ := htime
    rw [hkcp]
    exact hne
  have h₁ := h.left.of_sameData hsame hsound
  have hq₁ : Plays conv q { p with kcp := kcp₁ } inn out := { h.right with }
  obtain ⟨kcp', datagrams, kept, xs, ctrl, segs, out', inn', heq, hs, hf, hout, hinn, hnext, hbase,
    hnext', hp', hq', hcarries⟩ := h₁.flush hq₁ hupdated
  refine ⟨_, kcp₁, kept, xs, ctrl, segs, datagrams, out', inn', htime, hs, hf, fun datagram hd =>
    List.mem_append_right _ hd, ?_, hout, hinn, hnext, hbase, hnext', ⟨hp', hq'⟩, hcarries⟩
  rcases hupdate with hflush | hset
  · exact Continues.refl.left (.call (.update t) trivial (by rw [Peer.call, hflush, heq]; rfl))
  · -- The update only sets the time, and the flush follows.
    have hstep : p.call (.update t) =
        .ok { p with kcp := kcp₁, datagrams := p.datagrams ++ [] } := by
      rw [Peer.call, hset]
      rfl
    rw [List.append_nil] at hstep
    exact (Continues.refl.left (.call (.update t) trivial hstep)).left
      (.call .flush trivial (by rw [Peer.call, heq]; rfl))

/-- **The datagram** with a segment that is flushed is delivered at once. -/
theorem Link.exchange (h : Link conv p q out inn) (t : BitVec 32) :
    ∃ p' kcp₁ kept xs ctrl segs datagrams, SetTime p.kcp kcp₁ t ∧
      Sends kcp₁ out.log out.next kept ∧
      Flushes kcp₁ p'.kcp out.log out.next kept xs ctrl segs datagrams ∧
      ∀ s ∈ ctrl ++ segs, ∃ group q' out' inn', s ∈ group ∧ (∀ s' ∈ group, s' ∈ ctrl ++ segs) ∧
        Taken q.kcp q'.kcp group ∧ Continues p q p' q' ∧ Arq.Steps out out' ∧
        Arq.Steps inn inn' ∧ inn'.next = inn.next ∧ Link conv p' q' out' inn' ∧
        ∀ n, Brings s n → n < out.base + q.kcp.rcv_wnd.toNat →
          out'.Arrived n ∧ (out'.next + q.kcp.rcv_wnd.toNat < n + 2 ^ 31 → Answers q'.kcp) := by
  obtain ⟨p', kcp₁, kept, xs, ctrl, segs, datagrams, out₁, inn₁, htime, hs, hf, hmem, hc, hout,
    hinn, -, hbase, hnext, h', hcarries⟩ := h.flush t
  refine ⟨p', kcp₁, kept, xs, ctrl, segs, datagrams, htime, hs, hf, fun s hmem' => ?_⟩
  have hmtu : kcp₁.mtu.toNat < 2 ^ 31 := by
    have hsize := h.left.sound.buffers.size_lt
    obtain ⟨_, _, -, rfl⟩ := htime
    simp only
    omega
  obtain ⟨group, hgroup, hsub, hdatagram, hlt⟩ := hf.packed.exists_group hmtu hcarries hmem'
  obtain ⟨kcp', inn', out', heq, htaken, hinn', hout', hnext', hq', hp', harrives⟩ :=
    h'.right.deliver h'.left (List.ne_nil_of_mem hgroup)
      (fun seg hseg => hcarries seg (hsub seg hseg))
      hlt
  refine ⟨group, _, out', inn', hgroup, hsub, htaken, hc.right (.deliver _ (hmem _ hdatagram) heq),
    hout.trans hout', hinn.trans hinn', hnext'.trans hnext, ⟨hp', hq'⟩, fun n hn hlt => ?_⟩
  obtain ⟨harrived, hans⟩ := harrives s hgroup n hn (hbase ▸ hlt)
  have hle := hout'.le.next
  exact ⟨harrived, fun hnear => hans (by omega)⟩

/-! ## What an exchange is good for -/

/-- The peers can go on to a state with a property. -/
def Reaches (conv : BitVec 32) (p q : Peer) (out inn : Arq Fragment)
    (P : Peer → Peer → Arq Fragment → Prop) : Prop :=
  ∃ p' q' out' inn', Continues p q p' q' ∧ Arq.Steps out out' ∧ Arq.Steps inn inn' ∧
    Link conv p' q' out' inn' ∧ P p' q' out'

variable {P Q : Peer → Peer → Arq Fragment → Prop} {n : ℕ}

theorem Link.reaches (h : Link conv p q out inn) (hP : P p q out) : Reaches conv p q out inn P :=
  ⟨p, q, out, inn, .refl, Relation.ReflTransGen.refl, Relation.ReflTransGen.refl, h, hP⟩

theorem Reaches.bind (h : Reaches conv p q out inn P)
    (hQ : ∀ p' q' out' inn', Continues p q p' q' → Arq.Steps out out' → Link conv p' q' out' inn' →
      P p' q' out' → Reaches conv p' q' out' inn' Q) : Reaches conv p q out inn Q := by
  obtain ⟨p', q', out', inn', hc, hout, hinn, h', hP⟩ := h
  obtain ⟨p'', q'', out'', inn'', hc', hout', hinn', h'', hQ'⟩ := hQ p' q' out' inn' hc hout h' hP
  exact ⟨p'', q'', out'', inn'', hc.trans hc', hout.trans hout', hinn.trans hinn', h'', hQ'⟩

theorem Plays.next_eq (h : Plays conv p q out inn) : p.kcp.snd_nxt.toNat = out.next := by
  obtain ⟨done, todo, rest, hstands, -⟩ := h.messages
  obtain ⟨kept, hs, -⟩ := hstands.sends
  have hlt := h.bounded.next_lt
  rw [hs.snd_nxt, toNat_ofNat_of_lt (by omega)]

/-- **A fragment that is kept** is sent again. It arrives, and is answered. -/
theorem Link.transmit (h : Link conv p q out inn) (hn : n ∈ out.unacked)
    (hlt : n < out.base + q.kcp.rcv_wnd.toNat) (hwnd : q.kcp.rcv_wnd.toNat ≤ 65535) :
    Reaches conv p q out inn fun _ q' out' => out'.Arrived n ∧ Answers q'.kcp := by
  obtain ⟨done, todo, rest, hstands, -⟩ := h.left.messages
  obtain ⟨kept₀, hs₀, hunacked⟩ := hstands.sends
  rw [hunacked] at hn
  obtain ⟨x, hx⟩ := hn
  have hmem : pushCore p.kcp.conv (n, x) ∈ p.kcp.snd_buf.map IKCPSEG.core :=
    hs₀.buf.core ▸ List.mem_map_of_mem hx
  obtain ⟨seg₀, hseg₀, hcore₀⟩ := List.mem_map.mp hmem
  obtain ⟨p', kcp₁, kept, xs, ctrl, segs, datagrams, ⟨_, _, -, rfl⟩, hs, hf, hdeliver⟩ :=
    h.exchange seg₀.resendts
  obtain ⟨s, hsegs, hcore⟩ := hf.due seg₀ hseg₀ (.inr (serialDiff_self seg₀.resendts).ge)
  rw [hcore₀] at hcore
  have hnext := h.left.bounded.next_lt
  have hkept := hs₀.buf.lt (n, x) hx
  have hbrings : Brings s n :=
    ⟨congrArg Core.cmd hcore, core_sn hcore, by simp only at hkept; omega⟩
  obtain ⟨group, q', out', inn', -, -, -, hc, hout, hinn, -, h', harrived⟩ :=
    hdeliver s (List.mem_append_right _ hsegs)
  obtain ⟨harr, hans⟩ := harrived n hbrings hlt
  refine ⟨p', q', out', inn', hc, hout, hinn, h', harr, hans ?_⟩
  -- The window of the sender is not greater than its field in a header.
  obtain ⟨-, -, p₀, hp₀, hcore'⟩ := hf.push s hsegs
  have hle := hf.sends.next_le
  have hlog := h.left.bounded.length_lt
  have hlt₀ := hf.sends.buf.lt p₀ hp₀
  have heq : p₀.1 = n := by
    apply eq_of_ofNat_eq (by omega) (by simp only at hkept; omega)
    exact (core_sn hcore').symm.trans (core_sn hcore)
  have hfirst := @firstKept_le_of_mem (out.next + xs.length) _ hf.sends.buf.sorted _ hp₀
  have hwindow := hf.sends.window
  have hnext' : out'.next = out.next + xs.length := by
    rw [← h'.left.next_eq, hf.sends.snd_nxt, toNat_ofNat_of_lt (by omega)]
  omega

/-- The room of a queue that is not full fits into its field, and is not zero. -/
theorem wnd_unused_ne_zero {base : ℕ} {held : List (ℕ × Fragment)} (hr : Receives kcp base held)
    (hroom : kcp.rcv_queue.length < 128) (hwnd : kcp.rcv_wnd.toNat ≤ 65535) :
    (kcp.ikcp_wnd_unused.setWidth 16).setWidth 32 ≠ 0 := by
  have hge := hr.wnd_ge
  have hque : kcp.nrcv_que.toNat = kcp.rcv_queue.length := by
    rw [hr.nrcv_que, toNat_ofNat_of_lt (by omega)]
  have hlt : kcp.nrcv_que < kcp.rcv_wnd := BitVec.lt_def.mpr (by omega)
  rw [ikcp_wnd_unused, if_pos hlt]
  intro hzero
  have hnat := congrArg BitVec.toNat hzero
  rw [BitVec.toNat_setWidth, BitVec.toNat_setWidth, BitVec.toNat_sub_of_le (BitVec.le_of_lt hlt),
    show (0 : BitVec 32).toNat = 0 from rfl] at hnat
  omega

/-- **An answer** of the receiver, if all fragments that have been sent have arrived. -/
theorem Link.answer (h : Link conv p q out inn) (hans : Answers q.kcp) (hall : out.base = out.next)
    (hroom : q.kcp.rcv_queue.length < 128) (hwnd : q.kcp.rcv_wnd.toNat ≤ 65535) :
    Reaches conv p q out inn fun p' _ out' =>
      p'.kcp.snd_buf = [] ∧ p'.kcp.rmt_wnd ≠ 0 ∧ out'.next = out.next := by
  obtain ⟨q', kcp₁, kept, xs, ctrl, segs, datagrams, ⟨_, _, -, rfl⟩, hs, hf, hdeliver⟩ :=
    h.symm.exchange q.kcp.current
  have hctrl : ctrl ≠ [] := by
    rcases hans with hack | htell
    · have hpos := List.length_pos_of_ne_nil hack
      have hle := hf.acks
      exact List.ne_nil_of_length_pos (hpos.trans_le hle)
    · exact hf.tell htell
  obtain ⟨s, hs'⟩ := List.exists_mem_of_ne_nil _ hctrl
  obtain ⟨group, p', inn', out', hgroup, hsub, ⟨segs', cwnd, incr, hcore, hkcp⟩, hc, hinn, hout,
    hnext, h', -⟩ := hdeliver s (List.mem_append_left _ hs')
  refine ⟨p', q', out', inn', hc.symm, hout, hinn, h'.symm, ?_⟩
  obtain ⟨_, _, _, hstands, -⟩ := h.right.messages
  obtain ⟨held, hr, -⟩ := hstands.receives
  obtain ⟨_, _, _, hstands', -⟩ := h.left.messages
  obtain ⟨kept₀, hs₀, -⟩ := hstands'.sends
  -- Every segment of the answer has the count of the receiver and its room.
  have htold : ∀ seg ∈ group, seg.una = q.kcp.rcv_nxt ∧ seg.wnd = q.kcp.ikcp_wnd_unused := by
    intro seg hseg
    rcases List.mem_append.mp (hsub seg hseg) with hseg | hseg
    · exact ⟨(hf.control seg hseg).una, (hf.control seg hseg).wnd⟩
    · exact ⟨(hf.push seg hseg).1, (hf.push seg hseg).2.1⟩
  have hbehind : ∀ seg ∈ p.kcp.snd_buf, 0 < _itimediff q.kcp.rcv_nxt seg.sn := by
    intro seg hseg
    obtain ⟨p₀, hp₀, hcore₀⟩ := hs₀.buf.exists_count hseg
    have hlt := hs₀.buf.lt p₀ hp₀
    have hbound := h.left.bounded.next_lt
    rw [hr.rcv_nxt, hall, core_sn hcore₀, itimediff_ofNat (by omega) (by omega)]
    omega
  obtain ⟨hbuf, hrmt⟩ := inputSegments_told none (List.ne_nil_of_mem hgroup) htold hbehind
  rw [hbuf, List.map_nil, List.map_eq_nil_iff] at hcore
  rw [hkcp]
  refine ⟨hcore, ?_, hnext⟩
  simp only [hrmt]
  exact wnd_unused_ne_zero hr hroom hwnd

/-- A window that is closed is probed. -/
theorem Link.probe_due (h : Link conv p q out inn) (hrmt : p.kcp.rmt_wnd = 0)
    (hwait : p.kcp.probe_wait ≠ 0) :
    Reaches conv p q out inn fun _ q' _ => Answers q'.kcp := by
  obtain ⟨p', kcp₁, kept, xs, ctrl, segs, datagrams, ⟨_, _, -, rfl⟩, hs, hf, hdeliver⟩ :=
    h.exchange p.kcp.ts_probe
  have hdue : 0 ≤ _itimediff p.kcp.ts_probe p.kcp.ts_probe := (serialDiff_self _).ge
  obtain ⟨s, hs', hcmd⟩ := hf.ask (probeWindow_asks hrmt hwait hdue)
  obtain ⟨group, q', out', inn', hgroup, hsub, htaken, hc, hout, hinn, -, h', -⟩ :=
    hdeliver s (List.mem_append_left _ hs')
  exact ⟨p', q', out', inn', hc, hout, hinn, h', htaken.answers (answers_of_mem_wask hgroup hcmd)⟩

/-- **A window that is closed** is going to be probed, and the question is answered. -/
theorem Link.probe (h : Link conv p q out inn) (hrmt : p.kcp.rmt_wnd = 0) :
    Reaches conv p q out inn fun _ q' _ => Answers q'.kcp := by
  by_cases hwait : p.kcp.probe_wait = 0
  · obtain ⟨p', kcp₁, kept, xs, ctrl, segs, datagrams, out', inn', ⟨_, _, -, rfl⟩, -, hf, -, hc,
      hout, hinn, -, -, -, h', -⟩ := h.flush p.kcp.current
    have hreaches : Reaches conv p q out inn fun p' _ _ =>
        p'.kcp.rmt_wnd = 0 ∧ p'.kcp.probe_wait ≠ 0 :=
      ⟨p', q, out', inn', hc, hout, hinn, h', hf.rmt_wnd.trans hrmt, hf.waits hrmt hwait⟩
    exact hreaches.bind fun _ _ _ _ _ _ h' hP => h'.probe_due hP.1 hP.2
  · exact h.probe_due hrmt hwait

theorem toNat_pos_of_ne_zero {x : BitVec 32} (h : x ≠ 0) : 0 < x.toNat := by
  rw [Nat.pos_iff_ne_zero]
  exact fun hzero => h (BitVec.eq_of_toNat_eq hzero)

/-- If nothing is kept, a flush gives the next fragment its number. -/
theorem Link.number_open (h : Link conv p q out inn) (hbuf : p.kcp.snd_buf = [])
    (hrmt : p.kcp.rmt_wnd ≠ 0) (hcwnd : 0 < p.kcp.cwnd.toNat) (hmore : out.next < out.log.length) :
    Reaches conv p q out inn fun _ _ out' => out.next < out'.next := by
  obtain ⟨p', kcp₁, kept, xs, ctrl, segs, datagrams, out', inn', ⟨_, _, -, rfl⟩, hs, hf, -, hc,
    hout, hinn, hnext, -, -, h', -⟩ := h.flush p.kcp.current
  refine ⟨p', q, out', inn', hc, hout, hinn, h', ?_⟩
  have hlen := hs.buf.length_eq
  rw [hbuf, List.length_nil, eq_comm, List.length_eq_zero_iff] at hlen
  have hpos : 0 < p.kcp.flushCwnd.toNat :=
    flushCwnd_pos h.left.sound.snd_wnd (toNat_pos_of_ne_zero hrmt) hcwnd
  have hstop := hf.stop
  rw [hlen, firstKept, List.head?_nil, Option.map_none, Option.getD_none] at hstop
  rcases hstop with hall | hopen
  · omega
  · have hopen' : out.next + p.kcp.flushCwnd.toNat ≤ out.next + xs.length := hopen
    omega

/-- **A window that is open** lets the next fragment get its number. -/
theorem Link.number (h : Link conv p q out inn) (hbuf : p.kcp.snd_buf = [])
    (hrmt : p.kcp.rmt_wnd ≠ 0) (hmore : out.next < out.log.length) :
    Reaches conv p q out inn fun _ _ out' => out.next < out'.next := by
  -- The first flush opens the window of the sender.
  obtain ⟨p', kcp₁, kept, xs, ctrl, segs, datagrams, out', inn', ⟨_, _, -, rfl⟩, hs, hf, -, hc,
    hout, hinn, hnext, -, -, h', -⟩ := h.flush p.kcp.current
  by_cases hxs : xs = []
  · subst hxs
    have hlen := hs.buf.length_eq
    rw [hbuf, List.length_nil, eq_comm, List.length_eq_zero_iff] at hlen
    subst hlen
    have hbuf' : p'.kcp.snd_buf = [] := List.length_eq_zero_iff.mp hf.sends.buf.length_eq
    have hreaches : Reaches conv p q out inn fun p' _ out' =>
        p'.kcp.snd_buf = [] ∧ p'.kcp.rmt_wnd ≠ 0 ∧ 0 < p'.kcp.cwnd.toNat ∧ out'.next = out.next :=
      ⟨p', q, out', inn', hc, hout, hinn, h', hbuf', hf.rmt_wnd ▸ hrmt, hf.cwnd, hnext⟩
    refine hreaches.bind fun p₁ q₁ out₁ inn₁ _ hout₁ h₁ hP => ?_
    obtain ⟨hbuf₁, hrmt₁, hcwnd₁, hnext₁⟩ := hP
    have hmore₁ : out₁.next < out₁.log.length :=
      hnext₁ ▸ hmore.trans_le hout₁.le.log.length_le
    exact hnext₁ ▸ h₁.number_open hbuf₁ hrmt₁ hcwnd₁ hmore₁
  · have hpos := List.length_pos_of_ne_nil hxs
    exact ⟨p', q, out', inn', hc, hout, hinn, h', by omega⟩

/-! ## The next fragment -/

/-- Messages are handed over until the queue has room. -/
theorem Link.reaches_drained (h : Link conv p q out inn) :
    Reaches conv p q out inn fun p' q' _ =>
      p' = p ∧ q'.kcp.ikcp_peeksize < 0 ∧ (Answers q.kcp → Answers q'.kcp) := by
  obtain ⟨lens, q', hrecvs, hpeek, hans⟩ := h.drain
  have hc : Continues p q p q' := continues_of_recvs hrecvs
  obtain ⟨out', inn', hout, hinn, -, -, h'⟩ := h.continues hc
  exact ⟨p, q', out', inn', hc, hout, hinn, h', rfl, hpeek, hans⟩

/-- A fragment that has arrived is not the next one if the queue has room. -/
theorem Link.lt_base (h : Link conv p q out inn) (hpeek : q.kcp.ikcp_peeksize < 0)
    (hn : out.Arrived n) (hle : n ≤ out.base) : n < out.base := by
  obtain ⟨_, _, _, hstands, -⟩ := h.right.messages
  rcases hn with hlt | ⟨x, hx⟩
  · exact hlt
  · have hne := hstands.stop (h.right.of_peeksize_neg hpeek).1 (n, x) hx
    exact lt_of_le_of_ne hle hne

theorem Link.rcv_wnd_le (h : Link conv p q out inn) (hc : Continues p q p' q')
    (hwnd : q.kcp.rcv_wnd.toNat ≤ 65535) : q'.kcp.rcv_wnd.toNat ≤ 65535 := by
  obtain ⟨_, _, -, -, -, hkeeps, -⟩ := h.continues hc
  rw [hkeeps.rcv_wnd]
  exact hwnd

/-- **The next fragment**, if it has a number already. -/
theorem Link.advance_of_sent (h : Link conv p q out inn) (hpeek : q.kcp.ikcp_peeksize < 0)
    (hwnd : q.kcp.rcv_wnd.toNat ≤ 65535) (hlt : out.base < out.next) :
    Reaches conv p q out inn fun _ _ out' => out.base < out'.base := by
  obtain ⟨_, _, _, hstands, -⟩ := h.right.messages
  obtain ⟨held, hr, -⟩ := hstands.receives
  have hge := hr.wnd_ge
  have hkept : out.base ∈ out.unacked := by
    by_contra hnot
    exact lt_irrefl _ (h.lt_base hpeek (h.left.bounded.safe.arrived _ hlt hnot) le_rfl)
  refine (h.transmit hkept (by omega) hwnd).bind fun p₁ q₁ out₁ inn₁ _ hout₁ h₁ hP => ?_
  refine h₁.reaches_drained.bind fun p₂ q₂ out₂ inn₂ _ hout₂ h₂ hP' => ?_
  have hle := (hout₁.le.trans hout₂.le).base
  exact h₂.reaches (h₂.lt_base hP'.2.1 (hout₂.arrived hP.1) hle)

/-- The receiver has something to answer, unless the sender knows all that it needs. -/
theorem Link.ask (h : Link conv p q out inn) (hwnd : q.kcp.rcv_wnd.toNat ≤ 65535)
    (hall : out.base = out.next) (hnot : ¬ (p.kcp.snd_buf = [] ∧ p.kcp.rmt_wnd ≠ 0)) :
    Reaches conv p q out inn fun _ q' _ => Answers q'.kcp := by
  by_cases hbuf : p.kcp.snd_buf = []
  · exact h.probe (not_not.mp fun hrmt => hnot ⟨hbuf, hrmt⟩)
  · obtain ⟨_, _, _, hstands, -⟩ := h.left.messages
    obtain ⟨kept, hs, hunacked⟩ := hstands.sends
    obtain ⟨seg, hseg⟩ := List.exists_mem_of_ne_nil _ hbuf
    obtain ⟨⟨n, x⟩, hp, -⟩ := hs.buf.exists_count hseg
    have hlt := hs.buf.lt (n, x) hp
    have hmem : n ∈ out.unacked := by
      rw [hunacked]
      exact ⟨x, hp⟩
    refine (h.transmit hmem (by simp only at hlt; omega) hwnd).bind fun _ _ _ _ _ _ h' hP => ?_
    exact h'.reaches hP.2

/-- The next fragment gets its number, if all that have one have arrived. -/
theorem Link.advance_of_all (h : Link conv p q out inn) (hwnd : q.kcp.rcv_wnd.toNat ≤ 65535)
    (hall : out.base = out.next) (hmore : out.next < out.log.length) :
    Reaches conv p q out inn fun _ _ out' => out.next < out'.next := by
  by_cases hopen : p.kcp.snd_buf = [] ∧ p.kcp.rmt_wnd ≠ 0
  · exact h.number hopen.1 hopen.2 hmore
  refine (h.ask hwnd hall hopen).bind fun p₁ q₁ out₁ inn₁ hc₁ hout₁ h₁ hans => ?_
  by_cases hnext : out.next < out₁.next
  · exact h₁.reaches hnext
  refine h₁.reaches_drained.bind fun p₂ q₂ out₂ inn₂ hc₂ hout₂ h₂ hP => ?_
  obtain ⟨rfl, hpeek, hans'⟩ := hP
  have hle := (hout₁.le.trans hout₂.le)
  have hnext₂ : out₂.next = out₁.next := h₂.left.next_eq.symm.trans h₁.left.next_eq
  have hnext_le := hle.next
  have hbase_le := hle.base
  have hsafe := h₂.left.bounded.safe.base_le
  have hwnd₂ := h.rcv_wnd_le (hc₁.trans hc₂) hwnd
  refine (h₂.answer (hans' hans) (by omega) (h₂.right.of_peeksize_neg hpeek).1 hwnd₂).bind
    fun p₃ q₃ out₃ inn₃ hc₃ hout₃ h₃ hP => ?_
  obtain ⟨hbuf, hrmt, hnext₃⟩ := hP
  have hlen := ((hout₁.le.trans hout₂.le).trans hout₃.le).log.length_le
  refine (h₃.number hbuf hrmt (by omega)).bind fun p₄ q₄ out₄ inn₄ _ _ h₄ hlt => ?_
  exact h₄.reaches (by omega)

/-- **The next fragment** is handed over. -/
theorem Link.advance (h : Link conv p q out inn) (hwnd : q.kcp.rcv_wnd.toNat ≤ 65535)
    (hmore : out.base < out.log.length) :
    Reaches conv p q out inn fun _ _ out' => out.base < out'.base := by
  refine h.reaches_drained.bind fun p₁ q₁ out₁ inn₁ hc₁ hout₁ h₁ hP => ?_
  have hle₁ := hout₁.le.base
  have hwnd₁ := h.rcv_wnd_le hc₁ hwnd
  by_cases hbase₁ : out.base < out₁.base
  · exact h₁.reaches hbase₁
  by_cases hsent : out₁.base < out₁.next
  · refine (h₁.advance_of_sent hP.2.1 hwnd₁ hsent).bind fun _ _ _ _ _ _ h₂ hlt => ?_
    exact h₂.reaches (by omega)
  have hsafe := h₁.left.bounded.safe.base_le
  have hlen := hout₁.le.log.length_le
  refine (h₁.advance_of_all hwnd₁ (by omega) (by omega)).bind
    fun p₂ q₂ out₂ inn₂ hc₂ hout₂ h₂ hnext => ?_
  refine h₂.reaches_drained.bind fun p₃ q₃ out₃ inn₃ hc₃ hout₃ h₃ hP' => ?_
  have hle₃ := (hout₂.le.trans hout₃.le).base
  have hnext₃ := hout₃.le.next
  have hwnd₃ := h₁.rcv_wnd_le (hc₂.trans hc₃) hwnd₁
  by_cases hbase₃ : out.base < out₃.base
  · exact h₃.reaches hbase₃
  refine (h₃.advance_of_sent hP'.2.1 hwnd₃ (by omega)).bind fun _ _ _ _ _ _ h₄ hlt => ?_
  exact h₄.reaches (by omega)

/-! ## Everything -/

theorem Link.length_log_eq (h : Link conv p q out inn) (hc : Continues p q p' q')
    (h' : Link conv p' q' out' inn') : out'.log.length = out.log.length := by
  obtain ⟨_, _, -, -, hkeeps, -, -⟩ := h.continues hc
  rw [h'.left.length, h.left.length, hkeeps.queued]

/-- **All messages** of one peer are received. -/
theorem Link.delivers (h : Link conv p q out inn) (hwnd : q.kcp.rcv_wnd.toNat ≤ 65535) :
    Reaches conv p q out inn fun p' q' _ => q'.received = p'.sent := by
  induction hn : out.log.length - out.base using Nat.strong_induction_on
    generalizing p q out inn with
  | h n ih =>
    by_cases hmore : out.base < out.log.length
    · refine (h.advance hwnd hmore).bind fun p₁ q₁ out₁ inn₁ hc₁ _ h₁ hlt => ?_
      have hlen := h.length_log_eq hc₁ h₁
      exact ih _ (by omega) h₁ (h.rcv_wnd_le hc₁ hwnd) rfl
    · refine h.reaches_drained.bind fun p₁ q₁ out₁ inn₁ hc₁ hout₁ h₁ hP => ?_
      have hlen := h.length_log_eq hc₁ h₁
      have hle := hout₁.le.base
      have hsafe := h₁.left.bounded.safe
      have hbase := hsafe.base_le.trans hsafe.next_le
      exact h₁.reaches ((h₁.right.of_peeksize_neg hP.2.1).2 (by omega))

/-- Nothing waits and nothing is kept. -/
theorem Plays.of_waitsnd_eq_zero (h : Plays conv p q out inn) (hwait : p.kcp.ikcp_waitsnd = 0) :
    out.next = out.log.length ∧ out.unacked = ∅ := by
  obtain ⟨_, _, _, hstands, -⟩ := h.messages
  obtain ⟨kept, hs, hunacked⟩ := hstands.sends
  have hqueue := congrArg List.length hs.queue
  rw [List.length_map, List.length_drop] at hqueue
  have hbuf := hs.buf.length_add_le (Nat.zero_le _)
  have hle := hs.next_le
  have hlog := h.bounded.length_lt
  have hzero : p.kcp.nsnd_buf + p.kcp.nsnd_que = 0 := BitVec.toInt_inj.mp hwait
  rw [hs.nsnd_buf, hs.nsnd_que, ← BitVec.ofNat_add] at hzero
  have hnat := congrArg BitVec.toNat hzero
  rw [toNat_ofNat_of_lt (by omega), show (0 : BitVec 32).toNat = 0 from rfl] at hnat
  have hkept : kept = [] := List.length_eq_zero_iff.mp (by rw [← hs.buf.length_eq]; omega)
  refine ⟨by omega, ?_⟩
  rw [hunacked, hkept]
  simp

/-- **What has been acknowledged** has arrived: the receiver needs nothing from the network. -/
theorem Link.drain_of_waitsnd_eq_zero (h : Link conv p q out inn)
    (hwait : p.kcp.ikcp_waitsnd = 0) :
    ∃ lens q', recvs q lens = .ok q' ∧ q'.received = p.sent := by
  obtain ⟨hnext, hunacked⟩ := h.left.of_waitsnd_eq_zero hwait
  obtain ⟨lens, q', hrecvs, hpeek, -⟩ := h.drain
  obtain ⟨out', inn', hout, -, -, -, h'⟩ := h.continues (continues_of_recvs hrecvs)
  have hnext' : out'.next = out.next := h'.left.next_eq.symm.trans h.left.next_eq
  have hlen : out'.log.length = out.log.length := h'.left.length.trans h.left.length.symm
  refine ⟨lens, q', hrecvs, (h'.right.of_peeksize_neg hpeek).2 ?_⟩
  by_contra hne
  have hle := h'.left.bounded.safe.base_le
  have harrived : out.Arrived out'.base := by
    apply h.left.bounded.safe.arrived _ (by omega)
    rw [hunacked]
    exact Set.notMem_empty _
  exact lt_irrefl _ (h'.lt_base hpeek (hout.arrived harrived) le_rfl)

/-! ## The network -/

/-- The events that take no message and change no setting. -/
def Event.Continues : Event → Prop
  | .call _ c => c.Continues
  | .deliver _ _ => True

variable {net : Side → Peer} {s : Side}

theorem PeerStep.exists_event (h : PeerStep (net s.other) (net s) p') :
    ∃ e, Event.Continues e ∧ (network conv).enabled net e ∧
      (network conv).step net e = .ok (Function.update net s p') := by
  cases h with
  | call call hc heq =>
    refine ⟨.call s call, hc, ?_, by simp only [network, heq]; rfl⟩
    cases call with
    | recv | update | flush => exact trivial
    | send | input | setmtu | interval | nodelay | wndsize => exact hc.elim
  | deliver datagram hd heq =>
    obtain ⟨index, hlt, hget⟩ := List.mem_iff_getElem.mp hd
    have hgetD : (net s.other).datagrams.getD index [] = datagram := by
      rw [List.getD_eq_getElem?_getD, List.getElem?_eq_getElem hlt, hget]
      rfl
    exact ⟨.deliver s index, trivial, hlt, by simp only [network, hgetD, heq]; rfl⟩

/-- What two peers do, the network does. -/
theorem Continues.exists_run (conv : BitVec 32) {net : Side → Peer} {s : Side}
    (h : Continues (net s) (net s.other) p' q') :
    ∃ es net', (∀ e ∈ es, Event.Continues e) ∧ (network conv).Run net es net' ∧ net' s = p' ∧
      net' s.other = q' := by
  induction h with
  | refl => exact ⟨[], net, fun e he => absurd he List.not_mem_nil, .nil net, rfl, rfl⟩
  | left _ hs ih =>
    obtain ⟨es, net', hes, hr, rfl, rfl⟩ := ih
    obtain ⟨e, hce, he, hstep⟩ := hs.exists_event
    refine ⟨es ++ [e], _, ?_, hr.append (.cons he hstep (.nil _)), Function.update_self _ _ _,
      Function.update_of_ne (Side.other_ne s) _ _⟩
    exact List.forall_mem_append.mpr ⟨hes, List.forall_mem_singleton.mpr hce⟩
  | @right p₁ q₁ q₂ _ hs ih =>
    obtain ⟨es, net', hes, hr, rfl, rfl⟩ := ih
    have hs' : PeerStep (net' s.other.other) (net' s.other) q₂ := by
      rw [Side.other_other]
      exact hs
    obtain ⟨e, hce, he, hstep⟩ := hs'.exists_event
    refine ⟨es ++ [e], _, ?_, hr.append (.cons he hstep (.nil _)),
      Function.update_of_ne (Side.other_ne s).symm _ _, Function.update_self _ _ _⟩
    exact List.forall_mem_append.mpr ⟨hes, List.forall_mem_singleton.mpr hce⟩

/-- The messages are asked for at one end. -/
theorem run_of_recvs (conv : BitVec 32) {lens : List ℤ} (h : recvs (net s) lens = .ok p') :
    ∃ net', (network conv).Run net (lens.map fun len => .call s (.recv len)) net' ∧
      net' s = p' := by
  induction lens generalizing net with
  | nil => exact ⟨net, .nil net, Except.ok.inj h⟩
  | cons len lens ih =>
    rw [recvs, List.foldlM_cons] at h
    cases hcall : (net s).call (.recv len) with
    | error f =>
      rw [hcall] at h
      cases h
    | ok p₁ =>
      rw [hcall] at h
      have hrest : recvs (Function.update net s p₁ s) lens = .ok p' := by
        rw [Function.update_self]
        exact h
      obtain ⟨net', hr, hp⟩ := ih hrest
      exact ⟨net', .cons trivial (by simp only [network, hcall]; rfl) hr, hp⟩

/-- **If `ikcp_waitsnd` is zero**, all messages that have been sent can be received without the
network. -/
theorem waitsnd_zero_received (conv : BitVec 32) {net : Side → Peer}
    (hr : (network conv).Reachable net) {s : Side} (hwait : (net s).kcp.ikcp_waitsnd = 0) :
    ∃ (lens : List ℤ) (net' : Side → Peer),
      (network conv).Run net (lens.map fun len => .call s.other (.recv len)) net' ∧
      (net' s.other).received = (net s).sent := by
  obtain ⟨arq, h, -⟩ := Simulated.of_reachable hr
  have hright := h s.other
  rw [Side.other_other] at hright
  obtain ⟨lens, q', hrecvs, hall⟩ := Link.drain_of_waitsnd_eq_zero ⟨h s, hright⟩ hwait
  obtain ⟨net', hrun, hq⟩ := run_of_recvs conv hrecvs
  exact ⟨lens, net', hrun, hq ▸ hall⟩

/-- A message has arrived, and its acknowledgement too, but it has not been received. -/
def acknowledged : List Event :=
  [.call .left (.send [1, 2, 3]), .call .left (.update 0), .call .left (.update 100),
    .deliver .right 0, .call .right (.update 0), .deliver .left 0]

theorem waitsnd_zero_received_message :
    ∃ (net : Side → Peer) (lens : List ℤ) (net' : Side → Peer),
      (net .left).sent = [[1, 2, 3]] ∧ (net .right).received = [] ∧
      (network 1).Run net (lens.map fun len => .call .right (.recv len)) net' ∧
      (net' .right).received = [[1, 2, 3]] := by
  have hex : ((network 1).exec (fun _ => Peer.create 1) acknowledged).map (fun net =>
      ((net .left).kcp.ikcp_waitsnd, (net .left).sent, (net .right).received)) =
        some (0, [[1, 2, 3]], []) := by decide +kernel
  obtain ⟨net, hn, hvalues⟩ := Option.map_eq_some_iff.mp hex
  obtain ⟨hwait, hsent, hreceived⟩ : _ ∧ _ ∧ _ := by simpa only [Prod.mk.injEq] using hvalues
  obtain ⟨lens, net', hrun, hall⟩ :=
    waitsnd_zero_received 1 ⟨_, _, rfl, Machine.run_of_exec hn⟩ (s := .left) hwait
  exact ⟨net, lens, net', hsent, hreceived, hrun, hall.trans hsent⟩

end CodingDemo.Kcp
