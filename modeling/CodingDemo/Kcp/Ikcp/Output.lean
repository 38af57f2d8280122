import CodingDemo.Kcp.Ikcp.Input

/-!
# The datagrams of KCP

Segments are written to `buffer`, which is output before a segment that would make it longer than
the MTU. So each datagram holds whole segments, and is longer than the MTU only if it holds one
segment that is.

## Main definitions

* `Packed`: datagrams with some segments
* `Buffers`: the sizes of `buffer` and of what is cut for it

## Main results

* `Writes.push`: a segment is written, and nothing is written outside of `buffer`
* `flushControl_writes`, `flushSegments_writes`: what is written in a flush
-/

namespace CodingDemo.Kcp

open IKCPCB

/-- The datagrams hold the segments, in order. -/
def Packed (mtu : ℕ) (datagrams : List (List UInt8)) (segs : List IKCPSEG) : Prop :=
  ∃ groups : List (List IKCPSEG), datagrams = groups.map (List.flatMap IKCPSEG.bytes) ∧
    groups.flatten = segs ∧
    ∀ group ∈ groups, group ≠ [] ∧
      ((group.flatMap IKCPSEG.bytes).length ≤ mtu ∨ ∃ seg, group = [seg])

/-- The segments have been output or are in the buffer. -/
def Writes (mtu : ℕ) (o : Output) (segs : List IKCPSEG) : Prop :=
  ∃ done last, Packed mtu o.sent done ∧ o.buffer = last.flatMap IKCPSEG.bytes ∧
    segs = done ++ last ∧ (o.buffer.length ≤ mtu ∨ ∃ seg, last = [seg])

/-- The MTU has its least value, and `buffer` three times its size. -/
structure Buffers (kcp : IKCPCB) : Prop where
  mtu_ge : 50 ≤ kcp.mtu.toNat
  size_lt : (kcp.mtu.toNat + 24) * 3 < 2 ^ 32
  mss : kcp.mss = kcp.mtu - 24

variable {kcp kcp' : IKCPCB} {mtu : ℕ} {o : Output} {datagrams : List (List UInt8)}
  {seg seg' : IKCPSEG} {segs segs' : List IKCPSEG}

theorem Buffers.bufferSize_eq (h : Buffers kcp) : kcp.bufferSize = (kcp.mtu.toNat + 24) * 3 := by
  have hlt := h.size_lt
  rw [bufferSize, BitVec.toNat_mul, BitVec.toNat_add, IKCP_OVERHEAD, toNat_ofNat_of_lt (by decide),
    show (3 : BitVec 32).toNat = 3 from rfl]
  omega

theorem Buffers.mss_toNat (h : Buffers kcp) : kcp.mss.toNat = kcp.mtu.toNat - 24 := by
  have hge := h.mtu_ge
  have hlt := kcp.mtu.isLt
  rw [h.mss, BitVec.toNat_sub, show (24 : BitVec 32).toNat = 24 from rfl]
  omega

/-! ## Writing -/

theorem Packed.append {datagrams' : List (List UInt8)} (h : Packed mtu datagrams segs)
    (h' : Packed mtu datagrams' segs') : Packed mtu (datagrams ++ datagrams') (segs ++ segs') := by
  obtain ⟨groups, rfl, rfl, hgroups⟩ := h
  obtain ⟨groups', rfl, rfl, hgroups'⟩ := h'
  refine ⟨groups ++ groups', (List.map_append ..).symm, List.flatten_append, fun group hgroup => ?_⟩
  rcases List.mem_append.mp hgroup with hgroup | hgroup
  · exact hgroups group hgroup
  · exact hgroups' group hgroup

theorem Writes.nil (mtu : ℕ) : Writes mtu {} [] :=
  ⟨[], [], ⟨[], rfl, rfl, fun _ h => absurd h List.not_mem_nil⟩, rfl, rfl, .inl (Nat.zero_le _)⟩

/-- What is in the buffer is output, if there is something. -/
theorem Writes.output (h : Writes mtu o segs) :
    Packed mtu o.output.sent segs ∧ o.output.buffer = [] := by
  obtain ⟨done, last, hdone, hbuffer, rfl, hlen⟩ := h
  rw [Output.output]
  rcases last with _ | ⟨seg, rest⟩
  · have hnil : o.buffer = [] := hbuffer
    rw [if_pos hnil, List.append_nil]
    exact ⟨hdone, hnil⟩
  · have hne : o.buffer ≠ [] := by
      rw [hbuffer, ← List.length_pos_iff, List.flatMap_cons, List.length_append, length_bytes,
        IKCP_OVERHEAD]
      omega
    rw [if_neg hne]
    refine ⟨hdone.append ⟨[seg :: rest], ?_, ?_, ?_⟩, rfl⟩
    · rw [hbuffer, List.map_singleton]
    · rw [List.flatten_singleton]
    · intro group hgroup
      rw [List.mem_singleton.mp hgroup]
      exact ⟨List.cons_ne_nil _ _, hbuffer ▸ hlen⟩

/-- **A segment** is written, if it is not too long for the buffer. -/
theorem Writes.push (h : Writes kcp.mtu.toNat o segs) (hb : Buffers kcp)
    (hseg : IKCP_OVERHEAD + seg.data.length ≤ kcp.bufferSize) :
    ∃ o', o.push kcp seg = .ok o' ∧ Writes kcp.mtu.toNat o' (segs ++ [seg]) := by
  have hsize := hb.bufferSize_eq
  have hlt := hb.size_lt
  have hmtu : kcp.mtu.toInt = kcp.mtu.toNat := BitVec.toInt_eq_toNat_of_lt (by omega)
  rw [Output.push, Output.reserve, hmtu]
  split_ifs with hfull
  · -- The buffer is output first.
    obtain ⟨hpacked, hnil⟩ := h.output
    refine ⟨_, if_pos (by rw [hnil, length_bytes, List.length_nil, Nat.zero_add]; exact hseg),
      segs, [seg], hpacked, ?_, rfl, .inr ⟨seg, rfl⟩⟩
    rw [hnil, List.nil_append, List.flatMap_cons, List.flatMap_nil, List.append_nil]
  · obtain ⟨done, last, hdone, hbuffer, rfl, hlen⟩ := h
    refine ⟨_, if_pos (by rw [length_bytes]; omega), done, last ++ [seg], hdone, ?_,
      List.append_assoc _ _ _, .inl ?_⟩
    · rw [hbuffer, List.flatMap_append, List.flatMap_cons, List.flatMap_nil, List.append_nil]
    · rw [List.length_append, length_bytes]
      omega

/-! ## Acknowledgements and commands -/

/-- A segment without data that a flush sends. -/
structure IsControl (kcp : IKCPCB) (seg : IKCPSEG) : Prop where
  conv : seg.conv = kcp.conv
  una : seg.una = kcp.rcv_nxt
  wnd : seg.wnd = kcp.ikcp_wnd_unused
  data : seg.data = []
  cmd : seg.cmd = IKCP_CMD_ACK ∧ (seg.sn, seg.ts) ∈ kcp.acklist ∨
    seg.cmd = IKCP_CMD_WASK ∨ seg.cmd = IKCP_CMD_WINS

/-- The segment that is used again for each acknowledgement and command. -/
def Blank (kcp : IKCPCB) (seg : IKCPSEG) : Prop :=
  seg.conv = kcp.conv ∧ seg.una = kcp.rcv_nxt ∧ seg.wnd = kcp.ikcp_wnd_unused ∧ seg.data = []

theorem Blank.le_bufferSize {kcp : IKCPCB} (h : Blank kcp' seg) (hb : Buffers kcp) :
    IKCP_OVERHEAD + seg.data.length ≤ kcp.bufferSize := by
  rw [h.2.2.2, hb.bufferSize_eq, IKCP_OVERHEAD, List.length_nil]
  omega

theorem flushAcks_writes (hb : Buffers kcp) (acks : List (BitVec 32 × BitVec 32))
    (h : Writes kcp.mtu.toNat o segs) (hseg : Blank kcp' seg) (hcmd : seg.cmd = IKCP_CMD_ACK) :
    ∃ seg₁ o₁ written, kcp.flushAcks acks seg o = .ok (seg₁, o₁) ∧
      Writes kcp.mtu.toNat o₁ (segs ++ written) ∧ Blank kcp' seg₁ ∧
      (∀ s ∈ written, Blank kcp' s ∧ s.cmd = IKCP_CMD_ACK ∧ (s.sn, s.ts) ∈ acks) ∧
      written.length = acks.length := by
  induction acks generalizing seg o segs with
  | nil =>
    refine ⟨seg, o, [], rfl, ?_, hseg, fun s hs => absurd hs List.not_mem_nil, rfl⟩
    rw [List.append_nil]
    exact h
  | cons ack acks ih =>
    obtain ⟨sn, ts⟩ := ack
    have hseg' : Blank kcp' { seg with sn := sn, ts := ts } := hseg
    obtain ⟨o₁, hpush, hw⟩ := h.push hb (hseg'.le_bufferSize hb)
    obtain ⟨seg₂, o₂, written, hflush, hw₂, hseg₂, hwritten, hlen⟩ := ih hw hseg' hcmd
    refine ⟨seg₂, o₂, { seg with sn := sn, ts := ts } :: written, ?_, ?_, hseg₂, ?_, ?_⟩
    · rw [flushAcks, hpush]
      exact hflush
    · rw [List.append_assoc] at hw₂
      exact hw₂
    · refine List.forall_mem_cons.mpr ⟨⟨hseg', hcmd, List.mem_cons_self⟩, fun s hs => ?_⟩
      obtain ⟨hblank, hack, hmem⟩ := hwritten s hs
      exact ⟨hblank, hack, List.mem_cons_of_mem _ hmem⟩
    · rw [List.length_cons, List.length_cons, hlen]

theorem flushProbe_writes (hb : Buffers kcp) (ask cmd : BitVec 32)
    (h : Writes kcp.mtu.toNat o segs) (hseg : Blank kcp' seg) :
    ∃ seg₁ o₁ written, kcp.flushProbe ask cmd seg o = .ok (seg₁, o₁) ∧
      Writes kcp.mtu.toNat o₁ (segs ++ written) ∧ Blank kcp' seg₁ ∧
      (∀ s ∈ written, Blank kcp' s ∧ s.cmd = cmd) ∧
      (kcp.probe &&& ask ≠ 0 → ∃ s ∈ written, s.cmd = cmd) := by
  have hseg' : Blank kcp' { seg with cmd := cmd } := hseg
  obtain ⟨o₁, hpush, hw⟩ := h.push hb (hseg'.le_bufferSize hb)
  by_cases hask : kcp.probe &&& ask = 0
  · refine ⟨seg, o, [], if_neg (not_not.mpr hask), ?_, hseg, fun s hs => absurd hs List.not_mem_nil,
      fun hne => absurd hask hne⟩
    rw [List.append_nil]
    exact h
  · refine ⟨_, o₁, [_], ?_, hw, hseg', ?_, fun _ => ⟨_, List.mem_cons_self, rfl⟩⟩
    · simp only [flushProbe, if_pos hask, hpush]
      rfl
    · exact List.forall_mem_cons.mpr ⟨⟨hseg', rfl⟩, fun s hs => absurd hs List.not_mem_nil⟩

/-- The probe of the window asks for the size, or changes nothing that is sent. -/
theorem probeWindow_eq (kcp : IKCPCB) :
    ∃ probe ts_probe probe_wait, kcp.probeWindow = { kcp with
        probe := probe
        ts_probe := ts_probe
        probe_wait := probe_wait } ∧ probe &&& IKCP_ASK_TELL = kcp.probe &&& IKCP_ASK_TELL ∧
      (kcp.rmt_wnd = 0 → kcp.probe_wait = 0 → probe_wait ≠ 0) := by
  have hor : (kcp.probe ||| IKCP_ASK_SEND) &&& IKCP_ASK_TELL = kcp.probe &&& IKCP_ASK_TELL := by
    rw [BitVec.and_or_distrib_right]
    exact BitVec.or_zero
  rw [probeWindow]
  by_cases hrmt : kcp.rmt_wnd = 0
  · rw [if_pos hrmt]
    by_cases hwait : kcp.probe_wait = 0
    · rw [if_pos hwait]
      exact ⟨_, _, _, rfl, rfl, fun _ _ => by decide⟩
    · rw [if_neg hwait]
      by_cases hts : 0 ≤ _itimediff kcp.current kcp.ts_probe
      · rw [if_pos hts]
        exact ⟨_, _, _, rfl, hor, fun _ h => absurd h hwait⟩
      · rw [if_neg hts]
        exact ⟨_, _, _, rfl, rfl, fun _ h => absurd h hwait⟩
  · rw [if_neg hrmt]
    exact ⟨_, _, _, rfl, rfl, fun h => absurd h hrmt⟩

/-- The remote end is asked when the time has come. -/
theorem probeWindow_asks (hrmt : kcp.rmt_wnd = 0) (hwait : kcp.probe_wait ≠ 0)
    (hdue : 0 ≤ _itimediff kcp.current kcp.ts_probe) :
    kcp.probeWindow.probe &&& IKCP_ASK_SEND ≠ 0 := by
  rw [probeWindow, if_pos hrmt, if_neg hwait, if_pos hdue, BitVec.and_or_distrib_right]
  exact fun hzero => absurd (BitVec.or_eq_zero_iff.mp hzero).2 (by decide)

/-- What is flushed before the data. -/
def controlFlushed (kcp : IKCPCB) : IKCPCB :=
  { { kcp with acklist := [] }.probeWindow with probe := 0 }

/-- **The acknowledgements and commands** are written. -/
theorem flushControl_writes (hb : Buffers kcp) :
    ∃ seg o segs, kcp.flushControl = .ok (controlFlushed kcp, seg, o) ∧
      seg.wnd = kcp.ikcp_wnd_unused ∧ Writes kcp.mtu.toNat o segs ∧
      (∀ s ∈ segs, IsControl kcp s) ∧ kcp.acklist.length ≤ segs.length ∧
      (kcp.probe &&& IKCP_ASK_TELL ≠ 0 → segs ≠ []) ∧
      ({ kcp with acklist := [] }.probeWindow.probe &&& IKCP_ASK_SEND ≠ 0 →
        ∃ s ∈ segs, s.cmd = IKCP_CMD_WASK) := by
  have hblank : Blank kcp kcp.controlSegment := ⟨rfl, rfl, rfl, rfl⟩
  obtain ⟨seg₁, o₁, acks, hacks, hw₁, hseg₁, hack, hlen⟩ :=
    flushAcks_writes hb kcp.acklist (Writes.nil _) hblank rfl
  obtain ⟨probe, ts_probe, probe_wait, hprobe, htell, -⟩ :=
    probeWindow_eq { kcp with acklist := [] }
  have hb' : Buffers { kcp with acklist := [] }.probeWindow := by
    rw [hprobe]
    exact { hb with }
  have hmtu : { kcp with acklist := [] }.probeWindow.mtu = kcp.mtu := by rw [hprobe]
  have hw₁' : Writes { kcp with acklist := [] }.probeWindow.mtu.toNat o₁ ([] ++ acks) := by
    rw [hmtu]
    exact hw₁
  obtain ⟨seg₂, o₂, wask, hflush₂, hw₂, hseg₂, hwask, hsend⟩ :=
    flushProbe_writes hb' IKCP_ASK_SEND IKCP_CMD_WASK hw₁' hseg₁
  obtain ⟨seg₃, o₃, wins, hflush₃, hw₃, hseg₃, hwins, hsent⟩ :=
    flushProbe_writes hb' IKCP_ASK_TELL IKCP_CMD_WINS hw₂ hseg₂
  rw [hmtu] at hw₃
  refine ⟨seg₃, o₃, _, ?_, hseg₃.2.2.1, hw₃, ?_, ?_, ?_, ?_⟩
  · simp only [flushControl, hacks, bind, Except.bind, hflush₂, hflush₃]
    rfl
  · intro s hs
    rcases List.mem_append.mp hs with hs | hs
    · rcases List.mem_append.mp hs with hs | hs
      · obtain ⟨⟨hconv, huna, hwnd, hdata⟩, hcmd, hmem⟩ := hack s hs
        exact ⟨hconv, huna, hwnd, hdata, .inl ⟨hcmd, hmem⟩⟩
      · obtain ⟨⟨hconv, huna, hwnd, hdata⟩, hcmd⟩ := hwask s hs
        exact ⟨hconv, huna, hwnd, hdata, .inr (.inl hcmd)⟩
    · obtain ⟨⟨hconv, huna, hwnd, hdata⟩, hcmd⟩ := hwins s hs
      exact ⟨hconv, huna, hwnd, hdata, .inr (.inr hcmd)⟩
  · rw [List.length_append, List.length_append, List.nil_append, hlen]
    omega
  · intro hne
    obtain ⟨s, hs, -⟩ := hsent (by rw [hprobe]; exact fun hzero => hne (htell.symm.trans hzero))
    exact List.ne_nil_of_mem (List.mem_append_right _ hs)
  · intro hne
    obtain ⟨s, hs, hcmd⟩ := hsend hne
    exact ⟨s, List.mem_append_left _ (List.mem_append_right _ hs), hcmd⟩

/-! ## Data -/

/-- A data segment as it is sent in a flush, if it is sent. -/
def sentNow (kcp : IKCPCB) (resent rtomin wnd : BitVec 32) (segment : IKCPSEG) : Option IKCPSEG :=
  (kcp.resend resent rtomin segment).map fun r =>
    { r.1 with ts := kcp.current, wnd := wnd, una := kcp.rcv_nxt }

/-- It carries the same. -/
theorem core_of_sentNow {resent rtomin wnd : BitVec 32}
    (h : sentNow kcp resent rtomin wnd seg = some seg') :
    seg'.core = seg.core ∧ seg'.una = kcp.rcv_nxt ∧ seg'.wnd = wnd := by
  obtain ⟨⟨s, why⟩, hresend, rfl⟩ := Option.map_eq_some_iff.mp h
  rw [resend] at hresend
  split_ifs at hresend
  all_goals
    cases hresend
    exact ⟨rfl, rfl, rfl⟩

/-- One data segment. -/
theorem flushSegment_writes (hb : Buffers kcp) (resent rtomin wnd : BitVec 32) {f : Flushed}
    (hseg : IKCP_OVERHEAD + seg.data.length ≤ kcp.bufferSize)
    (h : Writes kcp.mtu.toNat f.output segs) :
    ∃ f', kcp.flushSegment resent rtomin wnd f seg = .ok f' ∧
      f'.segs = f.segs ++ [(sentNow kcp resent rtomin wnd seg).getD seg] ∧
      Writes kcp.mtu.toNat f'.output (segs ++ (sentNow kcp resent rtomin wnd seg).toList) := by
  rw [flushSegment]
  rcases hsend : kcp.resend resent rtomin seg with _ | ⟨s, why⟩
  · have hnow : sentNow kcp resent rtomin wnd seg = none := by
      rw [sentNow, hsend]
      rfl
    rw [hnow, Option.toList_none, List.append_nil]
    exact ⟨_, rfl, rfl, h⟩
  · have hnow : sentNow kcp resent rtomin wnd seg =
        some { s with ts := kcp.current, wnd := wnd, una := kcp.rcv_nxt } := by
      rw [sentNow, hsend]
      rfl
    have hdata : s.data = seg.data :=
      congrArg (fun c => c.fragment.data) (core_of_sentNow hnow).1
    have hfit : IKCP_OVERHEAD + ({ s with
        ts := kcp.current
        wnd := wnd
        una := kcp.rcv_nxt } : IKCPSEG).data.length ≤ kcp.bufferSize := by
      simp only [hdata]
      exact hseg
    obtain ⟨o', hpush, hwrite⟩ := h.push hb hfit
    rw [hnow]
    simp only [hpush, bind, Except.bind]
    exact ⟨_, rfl, rfl, hwrite⟩

/-- **The data segments** that are to be sent are written, and are kept as they are sent. -/
theorem flushSegments_writes (hb : Buffers kcp) (resent rtomin wnd : BitVec 32) {f : Flushed}
    (hsegs : ∀ seg ∈ segs, IKCP_OVERHEAD + seg.data.length ≤ kcp.bufferSize)
    (h : Writes kcp.mtu.toNat f.output segs') :
    ∃ f', segs.foldlM (kcp.flushSegment resent rtomin wnd) f = .ok f' ∧
      f'.segs = f.segs ++
        segs.map (fun seg => (sentNow kcp resent rtomin wnd seg).getD seg) ∧
      Writes kcp.mtu.toNat f'.output (segs' ++ segs.filterMap (sentNow kcp resent rtomin wnd)) := by
  induction segs generalizing f segs' with
  | nil =>
    refine ⟨f, rfl, (List.append_nil _).symm, ?_⟩
    rw [List.filterMap_nil, List.append_nil]
    exact h
  | cons seg rest ih =>
    obtain ⟨hseg, hrest⟩ := List.forall_mem_cons.mp hsegs
    obtain ⟨f₁, hone, hf₁, hw₁⟩ := flushSegment_writes hb resent rtomin wnd hseg h
    obtain ⟨f', hfold, hf', hw⟩ := ih hrest hw₁
    refine ⟨f', ?_, ?_, ?_⟩
    · rw [List.foldlM_cons, hone]
      exact hfold
    · rw [hf', hf₁, List.map_cons, List.append_assoc]
      rfl
    · rw [List.filterMap_cons]
      rw [List.append_assoc] at hw
      cases hnow : sentNow kcp resent rtomin wnd seg <;>
        · rw [hnow] at hw
          exact hw

end CodingDemo.Kcp
