import CodingDemo.Kcp.Ikcp.Flush
import CodingDemo.Machine.Run

/-!
# One endpoint of KCP

The calls of a control block come in any order, and the datagrams it is given can hold anything.

## Main definitions

* `endpoint`: the machine of a control block
* `Consistent`: the buffers are in order, within their windows and counted
* `Sound`: the invariant

## Main results

* `Sound.step`: no call faults, and each keeps the invariant
* `endpoint_consistent`: in every run no call faults, and the control block stays consistent
-/

namespace CodingDemo.Kcp

open IKCPCB

inductive Call
  | send (message : List UInt8)
  | recv (len : ℤ)
  | input (data : List UInt8)
  | update (current : BitVec 32)
  | flush
  | setmtu (mtu : ℤ)
  | interval (ms : ℤ)
  | nodelay (mode ms fast nc : ℤ)
  | wndsize (sndwnd rcvwnd : ℤ)

/-- The buffer of an MTU has a size, and room for what has been cut already. -/
def RoomFor (kcp : IKCPCB) (mtu : ℤ) : Prop :=
  (mtu + 24) * 3 < 2 ^ 32 ∧
    ∀ seg ∈ kcp.snd_queue ++ kcp.snd_buf, (24 + seg.data.length : ℤ) ≤ (mtu + 24) * 3

/-- The MTU is not made too small for the segments that wait, and a window is an `int`. -/
def Call.Allowed (kcp : IKCPCB) : Call → Prop
  | .setmtu mtu => RoomFor kcp mtu
  | .wndsize sndwnd rcvwnd => sndwnd ≤ INT_MAX ∧ rcvwnd ≤ INT_MAX
  | _ => True

instance (kcp : IKCPCB) (mtu : ℤ) : Decidable (RoomFor kcp mtu) :=
  inferInstanceAs (Decidable (_ ∧ ∀ seg ∈ kcp.snd_queue ++ kcp.snd_buf, _ ≤ (mtu + 24) * 3))

instance (kcp : IKCPCB) (call : Call) : Decidable (call.Allowed kcp) :=
  match call with
  | .setmtu mtu => inferInstanceAs (Decidable (RoomFor kcp mtu))
  | .wndsize _ _ => inferInstanceAs (Decidable (_ ∧ _))
  | .send _ | .recv _ | .input _ | .update _ | .flush | .interval _ | .nodelay .. => isTrue trivial

def Call.run (kcp : IKCPCB) : Call → Except Fault IKCPCB
  | .send message => (kcp.ikcp_send message).map Prod.fst
  | .recv len => (kcp.ikcp_recv len).map Prod.fst
  | .input data => (kcp.ikcp_input data).map Prod.fst
  | .update current => (kcp.ikcp_update current).map Prod.fst
  | .flush => kcp.ikcp_flush.map Prod.fst
  | .setmtu mtu => .ok (kcp.ikcp_setmtu mtu).1
  | .interval ms => .ok (kcp.ikcp_interval ms)
  | .nodelay mode ms fast nc => .ok (kcp.ikcp_nodelay mode ms fast nc)
  | .wndsize sndwnd rcvwnd => .ok (kcp.ikcp_wndsize sndwnd rcvwnd)

/-- The streaming mode is chosen when a control block is made. -/
def endpoint : Machine IKCPCB Call Fault where
  init kcp := ∃ conv stream, kcp = { ikcp_create conv with stream := stream }
  enabled kcp call := call.Allowed kcp
  step kcp call := call.run kcp

/-- The buffers are in order, within their windows and counted. -/
structure Consistent (kcp : IKCPCB) : Prop where
  snd_ordered : kcp.snd_buf.Pairwise fun a b => 0 < _itimediff b.sn a.sn
  snd_window : ∀ seg ∈ kcp.snd_buf,
    0 ≤ _itimediff seg.sn kcp.snd_una ∧ _itimediff seg.sn kcp.snd_nxt < 0
  inflight : (kcp.snd_nxt - kcp.snd_una).toNat ≤ 65535
  nsnd_buf : kcp.nsnd_buf.toNat = kcp.snd_buf.length
  nsnd_que : kcp.nsnd_que = BitVec.ofNat 32 kcp.snd_queue.length
  rcv_ordered : kcp.rcv_buf.Pairwise fun a b => 0 < _itimediff b.sn a.sn
  rcv_window : ∀ seg ∈ kcp.rcv_buf, 0 ≤ _itimediff seg.sn kcp.rcv_nxt
  nrcv_buf : kcp.nrcv_buf.toNat = kcp.rcv_buf.length
  nrcv_que : kcp.nrcv_que.toNat = kcp.rcv_queue.length
  rto_ge : IKCP_RTO_NDL ≤ kcp.rx_rto
  rto_le : kcp.rx_rto ≤ IKCP_RTO_MAX

/-- What `Call.run` keeps. -/
structure Sound (kcp : IKCPCB) : Prop where
  buffers : Buffers kcp
  fits : ∀ seg ∈ kcp.snd_queue ++ kcp.snd_buf, 24 + seg.data.length ≤ kcp.bufferSize
  minrto_ge : IKCP_RTO_NDL ≤ kcp.rx_minrto
  minrto_le : kcp.rx_minrto ≤ IKCP_RTO_MIN
  rto_ge : IKCP_RTO_NDL ≤ kcp.rx_rto
  rto_le : kcp.rx_rto ≤ IKCP_RTO_MAX
  snd_wnd : 0 < kcp.snd_wnd.toNat
  stands : ∃ log next kept base held, Sends kcp log next kept ∧ Receives kcp base held

variable {kcp kcp' : IKCPCB} {log : List Fragment} {base next n : ℕ}
  {held kept : List (ℕ × Fragment)} {segs : List IKCPSEG}

/-! ## What the invariant says -/

/-- There are not more segments than counts. -/
theorem Buffered.length_add_le {conv : BitVec 32} {lo hi : ℕ} {ps : List (ℕ × Fragment)}
    (h : Buffered conv lo hi ps segs) (hle : lo ≤ hi) : segs.length + lo ≤ hi := by
  induction segs generalizing lo ps with
  | nil =>
    rw [List.length_nil, Nat.zero_add]
    exact hle
  | cons seg rest ih =>
    obtain ⟨p, ps', rfl, -, hrest⟩ := h.cons
    have hlt := h.lt p List.mem_cons_self
    have hge := h.ge p List.mem_cons_self
    have hlen := ih hrest hlt
    rw [List.length_cons]
    omega

/-- The count of a segment. -/
theorem Buffered.exists_count {conv : BitVec 32} {lo hi : ℕ} {ps : List (ℕ × Fragment)}
    {seg : IKCPSEG} (h : Buffered conv lo hi ps segs) (hseg : seg ∈ segs) :
    ∃ p ∈ ps, seg.core = pushCore conv p := by
  have hmem : seg.core ∈ ps.map (pushCore conv) := h.core ▸ List.mem_map_of_mem hseg
  obtain ⟨p, hp, hcore⟩ := List.mem_map.mp hmem
  exact ⟨p, hp, hcore.symm⟩

theorem sends_create (conv : BitVec 32) (stream : ℤ) :
    Sends { ikcp_create conv with stream := stream } [] 0 [] :=
  ⟨rfl, le_rfl, rfl, rfl, Buffered.nil _ _ _, fun p hp => absurd hp List.not_mem_nil,
    Nat.zero_le _, show IKCP_WND_RCV.toNat ≤ 65535 by decide, rfl, rfl⟩

theorem receives_create (conv : BitVec 32) (stream : ℤ) :
    Receives { ikcp_create conv with stream := stream } 0 [] :=
  ⟨rfl, Buffered.nil _ _ _, show 128 ≤ IKCP_WND_RCV.toNat by decide,
    show IKCP_WND_RCV.toNat < 2 ^ 31 by decide, Nat.two_pow_pos 31, rfl, rfl⟩

theorem sound_create (conv : BitVec 32) (stream : ℤ) :
    Sound { ikcp_create conv with stream := stream } where
  buffers := ⟨show 50 ≤ IKCP_MTU_DEF.toNat by decide,
    show (IKCP_MTU_DEF.toNat + 24) * 3 < 2 ^ 32 by decide, rfl⟩
  fits _ h := absurd h List.not_mem_nil
  minrto_ge := show IKCP_RTO_NDL ≤ IKCP_RTO_MIN by decide
  minrto_le := show IKCP_RTO_MIN ≤ IKCP_RTO_MIN by decide
  rto_ge := show IKCP_RTO_NDL ≤ IKCP_RTO_DEF by decide
  rto_le := show IKCP_RTO_DEF ≤ IKCP_RTO_MAX by decide
  snd_wnd := show 0 < IKCP_WND_SND.toNat by decide
  stands := ⟨_, _, _, _, _, sends_create conv stream, receives_create conv stream⟩

/-- A segment of the size that messages are cut into fits into the buffer. -/
theorem Buffers.le_bufferSize_of_le_mss (h : Buffers kcp) (hn : n ≤ kcp.mss.toNat) :
    24 + n ≤ kcp.bufferSize := by
  have hge := h.mtu_ge
  rw [h.mss_toNat] at hn
  rw [h.bufferSize_eq]
  omega

theorem Buffers.mss_pos (h : Buffers kcp) : 0 < kcp.mss.toNat := by
  have hge := h.mtu_ge
  rw [h.mss_toNat]
  omega

theorem Sound.sendRest (h : Sound kcp) (message : List UInt8) :
    Sound (kcp.sendRest message).1 := by
  obtain ⟨log, next, kept, base, held, hs, hr⟩ := h.stands
  rcases sendRest_eq h.buffers.mss_pos message with ⟨-, heq⟩ | ⟨count, -, -, -, heq⟩
  · rw [heq]
    exact h
  · have happend := hs.append (fragment kcp.stream kcp.mss.toNat count message)
    rw [length_fragment] at happend
    rw [heq]
    refine { h with
      buffers := { h.buffers with }
      fits := fun seg hseg => ?_
      stands := ⟨_, next, kept, base, held, happend, { hr with }⟩ }
    simp only [List.mem_append] at hseg
    rcases hseg with (hold | hnew) | hbuf
    · exact h.fits seg (List.mem_append_left _ hold)
    · exact h.buffers.le_bufferSize_of_le_mss (length_le_of_mem_fragment hnew)
    · exact h.fits seg (List.mem_append_right _ hbuf)

theorem Sound.extendLast (h : Sound kcp) (message : List UInt8) :
    Sound (kcp.extendLast message).1 := by
  obtain ⟨log, next, kept, base, held, hs, hr⟩ := h.stands
  rw [IKCPCB.extendLast]
  rcases hlast : kcp.snd_queue.getLast? with _ | old
  · exact h
  · simp only
    split_ifs with hroom
    · have hset := hs.setQueue (kcp.snd_queue.dropLast ++ [segmentNew 0 (old.data ++
        message.take (kcp.mss.toNat - old.data.length))])
      have hlen : (kcp.snd_queue.dropLast ++ [segmentNew 0 (old.data ++
          message.take (kcp.mss.toNat - old.data.length))]).length = kcp.snd_queue.length := by
        rw [List.length_append, List.length_singleton, List.length_dropLast]
        have hpos := List.length_pos_of_mem (List.mem_of_getLast? hlast)
        omega
      rw [hlen, ← hs.nsnd_que] at hset
      refine { h with
        buffers := { h.buffers with }
        fits := fun seg hseg => ?_
        stands := ⟨_, next, kept, base, held, hset, { hr with }⟩ }
      simp only [List.mem_append, List.mem_singleton] at hseg
      rcases hseg with (hold | rfl) | hbuf
      · exact h.fits seg (List.mem_append_left _ ((List.dropLast_sublist _).subset hold))
      · refine h.buffers.le_bufferSize_of_le_mss ?_
        rw [segmentNew, List.length_append]
        have htake := List.length_take_le (kcp.mss.toNat - old.data.length) message
        omega
      · exact h.fits seg (List.mem_append_right _ hbuf)
    · exact h

theorem Sound.send (h : Sound kcp) (message : List UInt8) :
    ∃ kcp' n, kcp.ikcp_send message = .ok (kcp', n) ∧ Sound kcp' := by
  have hmss : kcp.mss ≠ 0 := fun hzero => by
    have hpos := h.buffers.mss_pos
    rw [hzero] at hpos
    exact absurd hpos (by decide)
  rw [ikcp_send, if_neg hmss]
  split_ifs with hstream
  · have hext := h.extendLast message
    rcases hres : kcp.extendLast message with ⟨kcp₁, rest⟩
    rw [hres] at hext
    simp only
    split_ifs
    · exact ⟨_, _, rfl, hext⟩
    · exact ⟨_, _, rfl, hext.sendRest rest⟩
  · exact ⟨_, _, rfl, h.sendRest message⟩

theorem Sound.of_sameSender (h : Sound kcp) (hs : SameSender kcp kcp')
    (hr : Receives kcp' base held) : Sound kcp' := by
  obtain ⟨log, next, kept, _, _, hsends, -⟩ := h.stands
  have hsends' := hsends.of_sameSender hs
  obtain ⟨_, _, _, _, _, _, rfl⟩ := hs
  exact { h with
    buffers := { h.buffers with }
    stands := ⟨log, next, kept, base, held, hsends', hr⟩ }

theorem Sound.recv (h : Sound kcp) (len : ℤ) :
    ∃ kcp' n buffer, kcp.ikcp_recv len = .ok (kcp', n, buffer) ∧ Sound kcp' := by
  obtain ⟨log, next, kept, base, held, hs, hr⟩ := h.stands
  obtain ⟨result, heq, hrecv⟩ := hr.recv len
  cases hrecv with
  | none n hn _ => exact ⟨kcp, n, [], heq, h⟩
  | some kcp' moved held' hpeek hlen hheld hmoved =>
    refine ⟨kcp', _, _, heq, ?_⟩
    have hsame : SameSender kcp kcp' := by
      have hsame := hmoved.same
      split_ifs at hsame
      · exact hsame
      · obtain ⟨_, _, _, _, _, _, rfl⟩ := hsame
        exact ⟨_, _, _, _, _, _, rfl⟩
    exact h.of_sameSender hsame hmoved.receives

/-! ## Datagrams -/

/-- The segments that are left fit as before. -/
theorem fits_of_subset {kept' : List (ℕ × Fragment)} (hs : Sends kcp log next kept)
    (hs' : Sends kcp' log next kept') (hsub : ∀ p ∈ kept', p ∈ kept)
    (hconv : kcp'.conv = kcp.conv) (hqueue : kcp'.snd_queue = kcp.snd_queue)
    (h : ∀ seg ∈ kcp.snd_queue ++ kcp.snd_buf, 24 + seg.data.length ≤ n) :
    ∀ seg ∈ kcp'.snd_queue ++ kcp'.snd_buf, 24 + seg.data.length ≤ n := by
  intro seg hseg
  rcases List.mem_append.mp hseg with hseg | hseg
  · exact h seg (List.mem_append_left _ (hqueue ▸ hseg))
  · obtain ⟨p, hp, hcore⟩ := hs'.buf.exists_count hseg
    have hmem : pushCore kcp.conv p ∈ kcp.snd_buf.map IKCPSEG.core :=
      hs.buf.core ▸ List.mem_map_of_mem (hsub p hp)
    obtain ⟨seg₀, hseg₀, hcore₀⟩ := List.mem_map.mp hmem
    have heq : seg.core = seg₀.core := by rw [hcore, hcore₀, hconv]
    have hdata : seg.data = seg₀.data := congrArg (fun c => c.fragment.data) heq
    rw [hdata]
    exact h seg₀ (List.mem_append_right _ hseg₀)

theorem Sound.inputUna (h : Sound kcp) (hdr : Header) : Sound (kcp.inputUna hdr) := by
  obtain ⟨log, next, kept, base, held, hs, hr⟩ := h.stands
  have hs' := hs.inputUna hdr
  obtain ⟨_, _, _, heq⟩ := inputUna_eq kcp hdr
  rw [heq] at hs' ⊢
  exact { h with
    buffers := { h.buffers with }
    fits := fits_of_subset hs hs' (fun p hp => (List.dropWhile_sublist _).subset hp) rfl rfl h.fits
    stands := ⟨log, next, _, base, held, hs', { hr with }⟩ }

theorem Sound.inputAck (h : Sound kcp) (hdr : Header) : Sound (kcp.inputAck hdr) := by
  obtain ⟨log, next, kept, base, held, hs, hr⟩ := h.stands
  obtain ⟨kept', hsub, hs', -⟩ := hs.inputAck hdr
  obtain ⟨_, _, rx_rto, _, _, _, heq, hrto⟩ := inputAck_eq kcp hdr
  have hminrto : kcp.rx_minrto ≤ IKCP_RTO_MAX :=
    BitVec.le_trans h.minrto_le (by decide)
  have hbounds : IKCP_RTO_NDL ≤ rx_rto ∧ rx_rto ≤ IKCP_RTO_MAX := by
    rcases hrto with rfl | hrto
    · exact ⟨h.rto_ge, h.rto_le⟩
    · obtain ⟨hge, hle⟩ := hrto hminrto
      exact ⟨BitVec.le_trans h.minrto_ge hge, hle⟩
  rw [heq] at hs' ⊢
  exact { h with
    buffers := { h.buffers with }
    fits := fits_of_subset hs hs' (fun p hp => hsub.subset hp) rfl rfl h.fits
    rto_ge := hbounds.1
    rto_le := hbounds.2
    stands := ⟨log, next, kept', base, held, hs', { hr with }⟩ }

theorem Sound.inputPush (h : Sound kcp) {hdr : Header} (hconv : hdr.conv = kcp.conv)
    (hcmd : hdr.cmd.setWidth 32 = IKCP_CMD_PUSH) (data : List UInt8) :
    Sound (kcp.inputPush hdr data) := by
  obtain ⟨log, next, kept, base, held, hs, hr⟩ := h.stands
  have hack : Sound (kcp.ikcp_ack_push hdr.sn hdr.ts) :=
    { h with
      buffers := { h.buffers with }
      stands := ⟨log, next, kept, base, held, { hs with }, { hr with }⟩ }
  generalize hpush : kcp.inputPush hdr data = kcp'
  have hpushed := hr.inputPush hconv hcmd data
  rw [hpush] at hpushed
  cases hpushed with
  | outside _ => exact h
  | old _ => exact hack
  | new _ m moved held' _ _ _ _ hmoved => exact hack.of_sameSender hmoved.same hmoved.receives

theorem Sound.inputSegment (h : Sound kcp) (maxack : MaxAck) {hdr : Header}
    (hconv : hdr.conv = kcp.conv) (data : List UInt8) :
    Sound (kcp.inputSegment maxack hdr data).1 := by
  have huna := h.inputUna hdr
  have hconv' : hdr.conv = (kcp.inputUna hdr).conv := by
    obtain ⟨_, _, _, heq⟩ := inputUna_eq kcp hdr
    rw [heq]
    exact hconv
  rw [IKCPCB.inputSegment]
  split_ifs with hack hpush hwask
  · exact huna.inputAck hdr
  · exact huna.inputPush hconv' hpush data
  · obtain ⟨log, next, kept, base, held, hs, hr⟩ := huna.stands
    exact { huna with
      buffers := { huna.buffers with }
      stands := ⟨log, next, kept, base, held, { hs with }, { hr with }⟩ }
  · exact huna

/-- **Any datagram** is taken or refused without a fault. -/
theorem Sound.input (h : Sound kcp) (data : List UInt8) :
    ∃ kcp' n, kcp.ikcp_input data = .ok (kcp', n) ∧ Sound kcp' := by
  refine ikcp_input_preserves (fun kcp maxack hdr data h hconv => h.inputSegment maxack hconv data)
    (fun kcp segs cwnd incr h hcore => ?_) (fun kcp h => h.buffers.mss_pos) h data
  obtain ⟨log, next, kept, base, held, hs, hr⟩ := h.stands
  have hcore' := hs.of_core hcore
  have hs' : Sends { kcp with snd_buf := segs, cwnd := cwnd, incr := incr } log next kept :=
    { hcore' with }
  exact { h with
    buffers := { h.buffers with }
    fits := fits_of_subset hs hs' (fun p hp => hp) rfl rfl h.fits
    stands := ⟨log, next, kept, base, held, hs', { hr with }⟩ }

/-! ## Flushing -/

theorem Sound.fits_counts (h : Sound kcp) (hs : Sends kcp log next kept) :
    Fits kcp log next kept := by
  intro x hx
  rcases List.mem_append.mp hx with hx | hx
  · obtain ⟨p, hp, rfl⟩ := List.mem_map.mp hx
    have hmem : pushCore kcp.conv p ∈ kcp.snd_buf.map IKCPSEG.core :=
      hs.buf.core ▸ List.mem_map_of_mem hp
    obtain ⟨seg, hseg, hcore⟩ := List.mem_map.mp hmem
    rw [← core_fragment hcore]
    exact h.fits seg (List.mem_append_right _ hseg)
  · rw [← hs.queue] at hx
    obtain ⟨seg, hseg, rfl⟩ := List.mem_map.mp hx
    exact h.fits seg (List.mem_append_left _ hseg)

theorem Sound.flush (h : Sound kcp) :
    ∃ kcp' datagrams, kcp.ikcp_flush = .ok (kcp', datagrams) ∧ Sound kcp' := by
  by_cases hupdated : kcp.updated = 0
  · exact ⟨kcp, [], if_pos hupdated, h⟩
  obtain ⟨log, next, kept, base, held, hs, hr⟩ := h.stands
  have hfit := h.fits_counts hs
  obtain ⟨kcp', datagrams, xs, ctrl, data, heq, hf⟩ := hs.flush h.buffers hfit hupdated
  have hsettings := hf.settings
  simp only [settings, Prod.mk.injEq] at hsettings
  obtain ⟨-, hmtu, hmss, hsnd_wnd, -⟩ := hsettings
  have hsize : kcp'.bufferSize = kcp.bufferSize := by rw [bufferSize, hmtu, bufferSize]
  refine ⟨kcp', datagrams, heq, ?_, fun seg hseg => ?_, ?_, ?_, ?_, ?_, ?_, ?_⟩
  · have hb := h.buffers
    exact ⟨hmtu ▸ hb.mtu_ge, hmtu ▸ hb.size_lt, by rw [hmss, hmtu, hb.mss]⟩
  · -- What is queued or kept was queued or kept before.
    rw [hsize]
    refine hfit seg.fragment ?_
    rcases List.mem_append.mp hseg with hseg | hseg
    · have hmem : seg.fragment ∈ log.drop (next + xs.length) :=
        hf.sends.queue ▸ List.mem_map_of_mem hseg
      exact List.mem_append_right _ ((List.drop_sublist_drop_left log
        (Nat.le_add_right _ _)).subset hmem)
    · obtain ⟨p, hp, hcore⟩ := hf.sends.buf.exists_count hseg
      rw [core_fragment hcore]
      rcases List.mem_append.mp hp with hold | hnew
      · exact List.mem_append_left _ (List.mem_map_of_mem hold)
      · exact List.mem_append_right _ (hf.sends.mem_drop hp (le_of_mem_counted hnew))
  · rw [hf.rto.2]
    exact h.minrto_ge
  · rw [hf.rto.2]
    exact h.minrto_le
  · rw [hf.rto.1]
    exact h.rto_ge
  · rw [hf.rto.1]
    exact h.rto_le
  · rw [hsnd_wnd]
    exact h.snd_wnd
  · exact ⟨log, _, _, base, held, hf.sends, hr.of_receiver_eq hf.receiver⟩

/-- An update is a flush, or nothing but the time changes. -/
theorem ikcp_update_eq (kcp : IKCPCB) (current : BitVec 32) :
    ∃ updated ts_flush, updated ≠ 0 ∧
      (kcp.ikcp_update current = ikcp_flush { kcp with
          current := current
          updated := updated
          ts_flush := ts_flush } ∨
        kcp.ikcp_update current = .ok ({ kcp with
          current := current
          updated := updated
          ts_flush := ts_flush }, [])) := by
  obtain ⟨updated, ts_flush, hne, hstart⟩ : ∃ updated ts_flush, updated ≠ 0 ∧
      kcp.startClock current = { kcp with
        current := current
        updated := updated
        ts_flush := ts_flush } := by
    rw [startClock]
    split_ifs with h
    · exact ⟨1, current, by decide, rfl⟩
    · exact ⟨kcp.updated, kcp.ts_flush, h, rfl⟩
  rw [ikcp_update, hstart]
  simp only
  split_ifs
  all_goals first
    | exact ⟨updated, _, hne, .inl rfl⟩
    | exact ⟨updated, _, hne, .inr rfl⟩

theorem Sound.setTime (h : Sound kcp) (current updated ts_flush : BitVec 32) :
    Sound { kcp with current := current, updated := updated, ts_flush := ts_flush } := by
  obtain ⟨log, next, kept, base, held, hs, hr⟩ := h.stands
  exact { h with
    buffers := { h.buffers with }
    stands := ⟨log, next, kept, base, held, { hs with }, { hr with }⟩ }

theorem Sound.update (h : Sound kcp) (current : BitVec 32) :
    ∃ kcp' datagrams, kcp.ikcp_update current = .ok (kcp', datagrams) ∧ Sound kcp' := by
  obtain ⟨updated, ts_flush, -, heq | heq⟩ := ikcp_update_eq kcp current
  · rw [heq]
    exact (h.setTime current updated ts_flush).flush
  · exact ⟨_, _, heq, h.setTime current updated ts_flush⟩

/-! ## Settings -/

theorem toNat_ofInt_of_nonneg {z : ℤ} (h : 0 ≤ z) (hlt : z < 2 ^ 32) :
    ((BitVec.ofInt 32 z).toNat : ℤ) = z := by
  rw [BitVec.toNat_ofInt, Int.toNat_of_nonneg (Int.emod_nonneg _ (by decide))]
  exact Int.emod_eq_of_lt h hlt

theorem Sound.setmtu (h : Sound kcp) {mtu : ℤ} (hroom : RoomFor kcp mtu) :
    Sound (kcp.ikcp_setmtu mtu).1 := by
  rw [ikcp_setmtu]
  split_ifs with hsmall
  · exact h
  · obtain ⟨hlt, hsegs⟩ := hroom
    obtain ⟨log, next, kept, base, held, hs, hr⟩ := h.stands
    have hge := (not_or.mp hsmall).1
    have hnat := toNat_ofInt_of_nonneg (z := mtu) (by omega) (by omega)
    have hb : Buffers { kcp with
        mtu := BitVec.ofInt 32 mtu
        mss := BitVec.ofInt 32 mtu - BitVec.ofNat 32 IKCP_OVERHEAD } :=
      ⟨show 50 ≤ (BitVec.ofInt 32 mtu).toNat by omega,
        show ((BitVec.ofInt 32 mtu).toNat + 24) * 3 < 2 ^ 32 by omega, rfl⟩
    refine { h with
      buffers := hb
      fits := fun seg hseg => ?_
      stands := ⟨log, next, kept, base, held, { hs with }, { hr with }⟩ }
    have hseg' := hsegs seg hseg
    rw [hb.bufferSize_eq]
    simp only
    omega

theorem Sound.interval (h : Sound kcp) (ms : ℤ) : Sound (kcp.ikcp_interval ms) := by
  obtain ⟨log, next, kept, base, held, hs, hr⟩ := h.stands
  exact { h with
    buffers := { h.buffers with }
    stands := ⟨log, next, kept, base, held, { hs with }, { hr with }⟩ }

theorem Sound.wndsize (h : Sound kcp) {sndwnd rcvwnd : ℤ} (hsndwnd : sndwnd ≤ INT_MAX)
    (hwnd : rcvwnd ≤ INT_MAX) : Sound (kcp.ikcp_wndsize sndwnd rcvwnd) := by
  have hsnd : Sound
      (if 0 < sndwnd then { kcp with snd_wnd := BitVec.ofInt 32 sndwnd } else kcp) := by
    obtain ⟨log, next, kept, base, held, hs, hr⟩ := h.stands
    split_ifs with hpos
    · have hle : sndwnd ≤ 2 ^ 31 - 1 := hsndwnd
      have hnat := toNat_ofInt_of_nonneg hpos.le (by omega)
      exact { h with
        buffers := { h.buffers with }
        snd_wnd := show 0 < (BitVec.ofInt 32 sndwnd).toNat by omega
        stands := ⟨log, next, kept, base, held, { hs with }, { hr with }⟩ }
    · exact h
  rw [ikcp_wndsize]
  generalize (if 0 < sndwnd then { kcp with snd_wnd := BitVec.ofInt 32 sndwnd } else kcp) = kcp₁
    at hsnd
  split_ifs with hrcv
  · obtain ⟨log, next, kept, base, held, hs, hr⟩ := hsnd.stands
    have hle : rcvwnd ≤ 2 ^ 31 - 1 := hwnd
    have hnat := toNat_ofInt_of_nonneg hrcv.le (by omega)
    have hmax : 128 ≤ (_imax_ (BitVec.ofInt 32 rcvwnd) IKCP_WND_RCV).toNat ∧
        (_imax_ (BitVec.ofInt 32 rcvwnd) IKCP_WND_RCV).toNat < 2 ^ 31 := by
      have h128 : IKCP_WND_RCV.toNat = 128 := rfl
      simp only [_imax_, BitVec.le_def]
      split_ifs <;> omega
    exact { hsnd with
      buffers := { hsnd.buffers with }
      stands := ⟨log, next, kept, base, held, { hs with },
        { hr with wnd_ge := hmax.1, wnd_lt := hmax.2 }⟩ }
  · exact hsnd

theorem Sound.setMode (h : Sound kcp) (nodelay : BitVec 32) {minrto : BitVec 32}
    (hge : IKCP_RTO_NDL ≤ minrto) (hle : minrto ≤ IKCP_RTO_MIN) :
    Sound { kcp with nodelay := nodelay, rx_minrto := minrto } := by
  obtain ⟨log, next, kept, base, held, hs, hr⟩ := h.stands
  exact { h with
    buffers := { h.buffers with }
    minrto_ge := hge
    minrto_le := hle
    stands := ⟨log, next, kept, base, held, { hs with }, { hr with }⟩ }

theorem Sound.nodelay (h : Sound kcp) (mode ms fast nc : ℤ) :
    Sound (kcp.ikcp_nodelay mode ms fast nc) := by
  have hmode : Sound (if 0 ≤ mode then
      { kcp with
        nodelay := BitVec.ofInt 32 mode
        rx_minrto := if mode ≠ 0 then IKCP_RTO_NDL else IKCP_RTO_MIN }
      else kcp) := by
    by_cases hpos : 0 ≤ mode
    · rw [if_pos hpos]
      apply h.setMode
      · split_ifs <;> decide
      · split_ifs <;> decide
    · rw [if_neg hpos]
      exact h
  rw [ikcp_nodelay]
  generalize (if 0 ≤ mode then { kcp with
        nodelay := BitVec.ofInt 32 mode
        rx_minrto := if mode ≠ 0 then IKCP_RTO_NDL else IKCP_RTO_MIN }
      else kcp) = kcp₁ at hmode
  have hms : Sound (if 0 ≤ ms then kcp₁.ikcp_interval ms else kcp₁) := by
    split_ifs
    · exact hmode.interval ms
    · exact hmode
  generalize (if 0 ≤ ms then kcp₁.ikcp_interval ms else kcp₁) = kcp₂ at hms
  obtain ⟨log, next, kept, base, held, hs, hr⟩ := hms.stands
  split_ifs
  all_goals
    exact { hms with
      buffers := { hms.buffers with }
      stands := ⟨log, next, kept, base, held, { hs with }, { hr with }⟩ }

/-! ## Every run -/

/-- **No call** faults, and each keeps the invariant. -/
theorem Sound.step (h : Sound kcp) {call : Call} (hcall : call.Allowed kcp) :
    ∃ kcp', call.run kcp = .ok kcp' ∧ Sound kcp' := by
  cases call with
  | send message =>
    obtain ⟨kcp', n, heq, h'⟩ := h.send message
    exact ⟨kcp', by rw [Call.run, heq]; rfl, h'⟩
  | recv len =>
    obtain ⟨kcp', n, buffer, heq, h'⟩ := h.recv len
    exact ⟨kcp', by rw [Call.run, heq]; rfl, h'⟩
  | input data =>
    obtain ⟨kcp', n, heq, h'⟩ := h.input data
    exact ⟨kcp', by rw [Call.run, heq]; rfl, h'⟩
  | update current =>
    obtain ⟨kcp', datagrams, heq, h'⟩ := h.update current
    exact ⟨kcp', by rw [Call.run, heq]; rfl, h'⟩
  | flush =>
    obtain ⟨kcp', datagrams, heq, h'⟩ := h.flush
    exact ⟨kcp', by rw [Call.run, heq]; rfl, h'⟩
  | setmtu mtu => exact ⟨_, rfl, h.setmtu hcall⟩
  | interval ms => exact ⟨_, rfl, h.interval ms⟩
  | nodelay mode ms fast nc => exact ⟨_, rfl, h.nodelay mode ms fast nc⟩
  | wndsize sndwnd rcvwnd => exact ⟨_, rfl, h.wndsize hcall.1 hcall.2⟩

theorem Sound.of_init (h : endpoint.init kcp) : Sound kcp := by
  obtain ⟨conv, stream, rfl⟩ := h
  exact sound_create conv stream

end CodingDemo.Kcp
