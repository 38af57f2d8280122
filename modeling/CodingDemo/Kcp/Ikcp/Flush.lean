import CodingDemo.Kcp.Ikcp.Output

/-!
# What KCP flushes

A flush acknowledges what has arrived, gives the fragments that wait the next counts as far as the
window allows, and sends every segment that is new, overdue or passed by acknowledgements.

## Main definitions

* `Flushes`: what a flush does

## Main results

* `Sends.flush`: a flush does this, and writes nothing outside of `buffer`
-/

namespace CodingDemo.Kcp

open IKCPCB

variable {kcp kcp' : IKCPCB} {log : List Fragment} {base next : ℕ}
  {held kept : List (ℕ × Fragment)} {seg : IKCPSEG} {segs : List IKCPSEG}

/-- The fragments that wait or are kept can be written to the buffer. -/
def Fits (kcp : IKCPCB) (log : List Fragment) (next : ℕ) (kept : List (ℕ × Fragment)) : Prop :=
  ∀ x ∈ kept.map Prod.snd ++ log.drop next, IKCP_OVERHEAD + x.data.length ≤ kcp.bufferSize

/-- A flush sends `ctrl` and `data`, after `xs` have got counts. -/
structure Flushes (kcp kcp' : IKCPCB) (log : List Fragment) (next : ℕ)
    (kept : List (ℕ × Fragment)) (xs : List Fragment) (ctrl data : List IKCPSEG)
    (datagrams : List (List UInt8)) : Prop where
  packed : Packed kcp.mtu.toNat datagrams (ctrl ++ data)
  control : ∀ s ∈ ctrl, IsControl kcp s
  acks : kcp.acklist.length ≤ ctrl.length
  tell : kcp.probe &&& IKCP_ASK_TELL ≠ 0 → ctrl ≠ []
  ask : { kcp with acklist := [] }.probeWindow.probe &&& IKCP_ASK_SEND ≠ 0 →
    ∃ s ∈ ctrl, s.cmd = IKCP_CMD_WASK
  push : ∀ s ∈ data, s.una = kcp.rcv_nxt ∧ s.wnd = kcp.ikcp_wnd_unused ∧
    ∃ p ∈ kept ++ counted next xs, s.core = pushCore kcp.conv p
  due : ∀ seg ∈ kcp.snd_buf, seg.xmit = 0 ∨ 0 ≤ _itimediff kcp.current seg.resendts →
    ∃ s ∈ data, s.core = seg.core
  fresh : ∀ p ∈ counted next xs, ∃ s ∈ data, s.core = pushCore kcp.conv p
  sends : Sends kcp' log (next + xs.length) (kept ++ counted next xs)
  stop : next + xs.length = log.length ∨
    firstKept kept next + kcp.flushCwnd.toNat ≤ next + xs.length
  receiver : receiver kcp' = receiver kcp
  settings : settings kcp' = settings kcp
  acklist : kcp'.acklist = []
  rto : kcp'.rx_rto = kcp.rx_rto ∧ kcp'.rx_minrto = kcp.rx_minrto
  rmt_wnd : kcp'.rmt_wnd = kcp.rmt_wnd
  cwnd : 0 < kcp'.cwnd.toNat
  waits : kcp.rmt_wnd = 0 → kcp.probe_wait = 0 → kcp'.probe_wait ≠ 0

/-! ## The window -/

theorem _imin_le_right (a b : BitVec 32) : (_imin_ a b).toNat ≤ b.toNat := by
  rw [_imin_]
  split_ifs with h
  · exact BitVec.le_def.mp h
  · exact le_rfl

/-- The window of a flush is not greater than that of the remote end. -/
theorem flushCwnd_le (kcp : IKCPCB) : kcp.flushCwnd.toNat ≤ kcp.rmt_wnd.toNat := by
  rw [flushCwnd]
  split_ifs
  · exact (_imin_le_right _ _).trans (_imin_le_right _ _)
  · exact _imin_le_right _ _

theorem _imin_pos {a b : BitVec 32} (ha : 0 < a.toNat) (hb : 0 < b.toNat) :
    0 < (_imin_ a b).toNat := by
  rw [_imin_]
  split_ifs
  · exact ha
  · exact hb

/-- The window of a flush is open if none of the windows is closed. -/
theorem flushCwnd_pos (hsnd : 0 < kcp.snd_wnd.toNat) (hrmt : 0 < kcp.rmt_wnd.toNat)
    (hcwnd : 0 < kcp.cwnd.toNat) : 0 < kcp.flushCwnd.toNat := by
  rw [flushCwnd]
  split_ifs
  · exact _imin_pos hcwnd (_imin_pos hsnd hrmt)
  · exact _imin_pos hsnd hrmt

/-! ## The fields that are not changed -/

/-- A remote window that is closed is going to be probed. -/
theorem controlFlushed_eq (kcp : IKCPCB) :
    ∃ ts_probe probe_wait, controlFlushed kcp = { kcp with
        acklist := []
        probe := 0
        ts_probe := ts_probe
        probe_wait := probe_wait } ∧
      (kcp.rmt_wnd = 0 → kcp.probe_wait = 0 → probe_wait ≠ 0) := by
  obtain ⟨_, _, _, heq, -, hwaits⟩ := probeWindow_eq { kcp with acklist := [] }
  rw [controlFlushed, heq]
  exact ⟨_, _, rfl, hwaits⟩

/-- The window of the sender is never closed after a flush. -/
theorem adjustCwnd_eq (kcp : IKCPCB) (change lost : Bool) (resent cwnd : BitVec 32) :
    ∃ ssthresh cwnd' incr, kcp.adjustCwnd change lost resent cwnd = { kcp with
      ssthresh := ssthresh
      cwnd := cwnd'
      incr := incr } ∧ 0 < cwnd'.toNat := by
  have hpos : ∀ n : BitVec 32, ¬ n < 1 → 0 < n.toNat := by
    intro n hn
    rwa [BitVec.not_lt, BitVec.le_def] at hn
  rw [adjustCwnd]
  split_ifs with hchange hlost
  all_goals
    refine ⟨_, _, _, rfl, ?_⟩
    first
      | exact Nat.one_pos
      | exact hpos _ (by assumption)

/-- The segments that get a number have not been sent. -/
theorem moveToSndBuf_snd_buf (cwnd wnd : BitVec 32) (kcp : IKCPCB) (segs : List IKCPSEG) :
    ∃ new, (moveToSndBuf cwnd wnd kcp segs).snd_buf = kcp.snd_buf ++ new ∧
      ∀ s ∈ new, s.xmit = 0 := by
  induction segs generalizing kcp with
  | nil => exact ⟨[], (List.append_nil _).symm, fun s hs => absurd hs List.not_mem_nil⟩
  | cons newseg rest ih =>
    rw [moveToSndBuf]
    split_ifs
    · obtain ⟨new, heq, hnew⟩ := ih { kcp with
        snd_buf := kcp.snd_buf ++ [kcp.numbered wnd newseg]
        nsnd_que := kcp.nsnd_que - 1
        nsnd_buf := kcp.nsnd_buf + 1
        snd_nxt := kcp.snd_nxt + 1 }
      refine ⟨kcp.numbered wnd newseg :: new, ?_, List.forall_mem_cons.mpr ⟨rfl, hnew⟩⟩
      rw [heq, List.append_assoc]
      rfl
    · exact ⟨[], (List.append_nil _).symm, fun s hs => absurd hs List.not_mem_nil⟩

theorem isSome_sentNow {resent rtomin wnd : BitVec 32}
    (h : seg.xmit = 0 ∨ 0 ≤ _itimediff kcp.current seg.resendts) :
    ∃ s, sentNow kcp resent rtomin wnd seg = some s ∧ s.core = seg.core := by
  suffices hsome : (sentNow kcp resent rtomin wnd seg).isSome by
    obtain ⟨s, hs⟩ := Option.isSome_iff_exists.mp hsome
    exact ⟨s, hs, (core_of_sentNow hs).1⟩
  rw [sentNow, Option.isSome_map, resend]
  by_cases hxmit : seg.xmit = 0
  · rw [if_pos hxmit]
    rfl
  · rw [if_neg hxmit, if_pos (h.resolve_left hxmit)]
    rfl

/-! ## A flush -/

theorem map_core_getD_sentNow (kcp : IKCPCB) (resent rtomin wnd : BitVec 32)
    (segs : List IKCPSEG) :
    (segs.map fun seg => (sentNow kcp resent rtomin wnd seg).getD seg).map IKCPSEG.core =
      segs.map IKCPSEG.core := by
  rw [List.map_map]
  refine List.map_congr_left fun seg _ => ?_
  rw [Function.comp_apply]
  cases hnow : sentNow kcp resent rtomin wnd seg with
  | none => rfl
  | some s => exact (core_of_sentNow hnow).1

/-- The data segments of a flush. -/
theorem Sends.flushData {o : Output} {ctrl : List IKCPSEG} (h : Sends kcp log next kept)
    (hb : Buffers kcp) (hfit : ∀ p ∈ kept, IKCP_OVERHEAD + p.2.data.length ≤ kcp.bufferSize)
    (hw : Writes kcp.mtu.toNat o ctrl) (cwnd wnd : BitVec 32) :
    ∃ kcp' datagrams data resent rtomin, kcp.flushData cwnd wnd o = .ok (kcp', datagrams) ∧
      Packed kcp.mtu.toNat datagrams (ctrl ++ data) ∧
      data = kcp.snd_buf.filterMap (sentNow kcp resent rtomin wnd) ∧ Sends kcp' log next kept ∧
      ∃ snd_buf xmit state ssthresh cwnd incr, 0 < cwnd.toNat ∧ kcp' = { kcp with
        snd_buf := snd_buf
        xmit := xmit
        state := state
        ssthresh := ssthresh
        cwnd := cwnd
        incr := incr } := by
  have hsegs : ∀ seg ∈ kcp.snd_buf, IKCP_OVERHEAD + seg.data.length ≤ kcp.bufferSize := by
    intro seg hseg
    have hmem : seg.core ∈ kept.map (pushCore kcp.conv) :=
      h.buf.core ▸ List.mem_map_of_mem hseg
    obtain ⟨p, hp, hcore⟩ := List.mem_map.mp hmem
    have hdata : p.2 = seg.fragment := congrArg Core.fragment hcore
    have hle := hfit p hp
    rw [hdata] at hle
    exact hle
  let resent := if 0 < kcp.fastresend then BitVec.ofInt 32 kcp.fastresend else -1
  let rtomin := if kcp.nodelay = 0 then kcp.rx_rto.sshiftRight 3 else 0
  obtain ⟨f, hfold, hf, hwrite⟩ := flushSegments_writes hb resent rtomin wnd
    (f := { segs := [], xmit := kcp.xmit, state := kcp.state, output := o, change := false,
            lost := false }) hsegs hw
  rw [List.nil_append] at hf
  have hcore : f.segs.map IKCPSEG.core = kcp.snd_buf.map IKCPSEG.core := by
    rw [hf]
    exact map_core_getD_sentNow _ _ _ _ _
  obtain ⟨ssthresh, cwnd', incr, hadjust, hcwnd⟩ := adjustCwnd_eq
    { kcp with snd_buf := f.segs, xmit := f.xmit, state := f.state } f.change f.lost resent cwnd
  have hsends := h.of_core hcore
  refine ⟨{ kcp with
    snd_buf := f.segs
    xmit := f.xmit
    state := f.state
    ssthresh := ssthresh
    cwnd := cwnd'
    incr := incr }, f.output.output.sent, _, resent, rtomin, ?_, hwrite.output.1, rfl,
    { hsends with }, _, _, _, _, _, _, hcwnd, rfl⟩
  rw [IKCPCB.flushData, hfold]
  exact congrArg (fun kcp => Except.ok (kcp, f.output.output.sent)) hadjust

/-- **A flush** writes nothing outside of `buffer`. -/
theorem Sends.flush (h : Sends kcp log next kept) (hb : Buffers kcp) (hfit : Fits kcp log next kept)
    (hupdated : kcp.updated ≠ 0) :
    ∃ kcp' datagrams xs ctrl data, kcp.ikcp_flush = .ok (kcp', datagrams) ∧
      Flushes kcp kcp' log next kept xs ctrl data datagrams := by
  obtain ⟨seg, o, ctrl, hcontrol, hwnd, hw, hctrl, hacks, htell, hask⟩ := flushControl_writes hb
  obtain ⟨ts_probe, probe_wait, hk₁, hwaits⟩ := controlFlushed_eq kcp
  have hcwnd : (controlFlushed kcp).flushCwnd = kcp.flushCwnd := by
    rw [hk₁]
    rfl
  have hs₁ : Sends (controlFlushed kcp) log next kept := by
    rw [hk₁]
    exact { h with }
  obtain ⟨xs, hs₂, hstop⟩ :=
    hs₁.moveToSndBuf_snd_queue seg.wnd ((flushCwnd_le kcp).trans h.rmt_wnd)
  obtain ⟨new, hbuf, hnew⟩ := moveToSndBuf_snd_buf kcp.flushCwnd seg.wnd (controlFlushed kcp)
    (controlFlushed kcp).snd_queue
  obtain ⟨_, _, _, _, _, hk₂⟩ := exists_moveToSndBuf_eq kcp.flushCwnd seg.wnd (controlFlushed kcp)
    (controlFlushed kcp).snd_queue
  generalize hmove : IKCPCB.moveToSndBuf kcp.flushCwnd seg.wnd (controlFlushed kcp)
    (controlFlushed kcp).snd_queue = k₂ at hs₂ hbuf hk₂
  rw [hk₁] at hk₂ hbuf
  have hb₂ : Buffers k₂ := by
    rw [hk₂]
    exact { hb with }
  have hmtu : k₂.mtu = kcp.mtu := by rw [hk₂]
  have hsize : k₂.bufferSize = kcp.bufferSize := by rw [bufferSize, hmtu, bufferSize]
  have hfit₂ : ∀ p ∈ kept ++ counted next xs,
      IKCP_OVERHEAD + p.2.data.length ≤ k₂.bufferSize := by
    intro p hp
    rw [hsize]
    refine hfit p.2 ?_
    rcases List.mem_append.mp hp with hold | hnew
    · exact List.mem_append_left _ (List.mem_map_of_mem hold)
    · exact List.mem_append_right _ (hs₂.mem_drop hp (le_of_mem_counted hnew))
  rw [← hmtu] at hw
  obtain ⟨kcp', datagrams, data, resent, rtomin, hdata, hpacked, hfilter, hs₃, _, _, _, _, _, _,
    hpos, hk₃⟩ := hs₂.flushData hb₂ hfit₂ hw kcp.flushCwnd seg.wnd
  refine ⟨kcp', datagrams, xs, ctrl, data, ?_, ?_⟩
  · rw [ikcp_flush, if_neg hupdated, hcontrol]
    simp only [bind, Except.bind]
    rw [hcwnd, hmove]
    exact hdata
  have hnew' : new.map IKCPSEG.core = (counted next xs).map (pushCore kcp.conv) := by
    have hcore := hs₂.buf.core
    rw [hbuf, List.map_append, List.map_append, show k₂.conv = kcp.conv by rw [hk₂],
      ← h.buf.core] at hcore
    exact List.append_cancel_left hcore
  constructor
  · exact hmtu ▸ hpacked
  · exact hctrl
  · exact hacks
  · exact htell
  · exact hask
  · intro s hs
    rw [hfilter] at hs
    obtain ⟨seg₀, hmem, hnow⟩ := List.mem_filterMap.mp hs
    obtain ⟨hcore, huna, hwnd'⟩ := core_of_sentNow hnow
    have hmem' : seg₀.core ∈ (kept ++ counted next xs).map (pushCore k₂.conv) :=
      hs₂.buf.core ▸ List.mem_map_of_mem hmem
    obtain ⟨p, hp, hpcore⟩ := List.mem_map.mp hmem'
    refine ⟨huna.trans (by rw [hk₂]), hwnd'.trans hwnd, p, hp, ?_⟩
    rw [hcore, ← hpcore, hk₂]
  · intro seg₀ hmem hdue
    have hdue' : seg₀.xmit = 0 ∨ 0 ≤ _itimediff k₂.current seg₀.resendts := by
      rw [hk₂]
      exact hdue
    obtain ⟨s, hnow, hcore⟩ := isSome_sentNow hdue'
    refine ⟨s, hfilter ▸ List.mem_filterMap.mpr ⟨seg₀, ?_, hnow⟩, hcore⟩
    rw [hbuf]
    exact List.mem_append_left _ hmem
  · intro p hp
    have hmem : pushCore kcp.conv p ∈ new.map IKCPSEG.core := hnew' ▸ List.mem_map_of_mem hp
    obtain ⟨seg₀, hmem₀, hcore₀⟩ := List.mem_map.mp hmem
    obtain ⟨s, hnow, hcore⟩ := isSome_sentNow (.inl (hnew seg₀ hmem₀))
    refine ⟨s, hfilter ▸ List.mem_filterMap.mpr ⟨seg₀, ?_, hnow⟩, hcore.trans hcore₀⟩
    rw [hbuf]
    exact List.mem_append_right _ hmem₀
  · exact hs₃
  · exact hstop
  · rw [hk₃, hk₂]
    rfl
  · rw [hk₃, hk₂]
    rfl
  · rw [hk₃, hk₂]
  · rw [hk₃, hk₂]
    exact ⟨rfl, rfl⟩
  · rw [hk₃, hk₂]
  · rw [hk₃]
    exact hpos
  · intro hrmt hwait
    rw [hk₃, hk₂]
    exact hwaits hrmt hwait

end CodingDemo.Kcp
