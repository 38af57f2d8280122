import CodingDemo.Kcp.Ikcp.Sender

/-!
# What KCP does with a datagram

Each segment of a datagram tells which fragments have been received, and can acknowledge another
one or carry a fragment. Whatever is in a datagram, the control block stays in order.

## Main definitions

* `settings`: the fields that no datagram changes
* `Stands`: the fragments and counts that a control block stands for

## Main results

* `Sends.inputUna`, `Sends.inputAck`, `Stands.inputPush`: what one segment does
* `ikcp_input_preserves`: what every segment keeps, a datagram keeps
* `inputLoop_bytes`: the segments of a datagram are found again
-/

namespace CodingDemo.Kcp

open IKCPCB

/-- The fields that no datagram changes. -/
def settings (kcp : IKCPCB) :=
  (kcp.conv, kcp.mtu, kcp.mss, kcp.snd_wnd, kcp.rcv_wnd, kcp.current, kcp.updated, kcp.stream)

variable {kcp kcp' : IKCPCB} {log : List Fragment} {base m n next : ℕ} {hdr : Header}
  {held kept kept' : List (ℕ × Fragment)} {seg : IKCPSEG} {segs : List IKCPSEG}
  {data : List UInt8} {maxack maxack' : MaxAck}

/-! ## The fields that are not changed -/

theorem _ibound_bounds (lower middle upper : BitVec 32) (h : lower ≤ upper) :
    lower ≤ _ibound_ lower middle upper ∧ _ibound_ lower middle upper ≤ upper := by
  simp only [_ibound_, _imin_, _imax_, BitVec.le_def] at h ⊢
  split_ifs <;> omega

/-- The estimate of the round trip time stays within its bounds. -/
theorem ikcp_update_ack_eq (kcp : IKCPCB) (rtt : BitVec 32) :
    ∃ rx_srtt rx_rttval rx_rto, kcp.ikcp_update_ack rtt = { kcp with
        rx_srtt := rx_srtt
        rx_rttval := rx_rttval
        rx_rto := rx_rto } ∧
      (kcp.rx_minrto ≤ IKCP_RTO_MAX → kcp.rx_minrto ≤ rx_rto ∧ rx_rto ≤ IKCP_RTO_MAX) := by
  rw [ikcp_update_ack]
  split_ifs
  all_goals exact ⟨_, _, _, rfl, _ibound_bounds _ _ _⟩

theorem ikcp_parse_ack_eq (kcp : IKCPCB) (sn : BitVec 32) :
    ∃ snd_buf nsnd_buf, kcp.ikcp_parse_ack sn = { kcp with
      snd_buf := snd_buf
      nsnd_buf := nsnd_buf } := by
  rw [ikcp_parse_ack]
  split_ifs
  · exact ⟨_, _, rfl⟩
  · split <;> exact ⟨_, _, rfl⟩

/-- What an acknowledgement changes. -/
theorem inputAck_eq (kcp : IKCPCB) (hdr : Header) :
    ∃ rx_srtt rx_rttval rx_rto snd_buf nsnd_buf snd_una, kcp.inputAck hdr = { kcp with
        rx_srtt := rx_srtt
        rx_rttval := rx_rttval
        rx_rto := rx_rto
        snd_buf := snd_buf
        nsnd_buf := nsnd_buf
        snd_una := snd_una } ∧
      (rx_rto = kcp.rx_rto ∨
        (kcp.rx_minrto ≤ IKCP_RTO_MAX → kcp.rx_minrto ≤ rx_rto ∧ rx_rto ≤ IKCP_RTO_MAX)) := by
  obtain ⟨_, _, _, heq, hrto⟩ := ikcp_update_ack_eq kcp (kcp.current - hdr.ts)
  rw [inputAck, heq]
  split_ifs
  all_goals
    simp only [ikcp_shrink_buf_eq]
    generalize hack : ikcp_parse_ack _ hdr.sn = kcp'
    obtain ⟨_, _, hack'⟩ := ikcp_parse_ack_eq _ hdr.sn
    rw [hack'] at hack
    subst hack
  · exact ⟨_, _, _, _, _, _, rfl, .inr hrto⟩
  · exact ⟨_, _, _, _, _, _, rfl, .inl rfl⟩

/-- What the count `una` changes. -/
theorem inputUna_eq (kcp : IKCPCB) (hdr : Header) :
    ∃ snd_buf nsnd_buf snd_una, kcp.inputUna hdr = { kcp with
      rmt_wnd := hdr.wnd.setWidth 32
      snd_buf := snd_buf
      nsnd_buf := nsnd_buf
      snd_una := snd_una } := by
  rw [inputUna, ikcp_shrink_buf_eq]
  exact ⟨_, _, _, rfl⟩

theorem receiver_inputUna (kcp : IKCPCB) (hdr : Header) :
    receiver (kcp.inputUna hdr) = receiver kcp ∧
      (kcp.inputUna hdr).acklist = kcp.acklist := by
  obtain ⟨_, _, _, heq⟩ := inputUna_eq kcp hdr
  rw [heq]
  exact ⟨rfl, rfl⟩

theorem receiver_inputAck (kcp : IKCPCB) (hdr : Header) :
    receiver (kcp.inputAck hdr) = receiver kcp ∧
      (kcp.inputAck hdr).acklist = kcp.acklist := by
  obtain ⟨_, _, _, _, _, _, heq, -⟩ := inputAck_eq kcp hdr
  rw [heq]
  exact ⟨rfl, rfl⟩

/-- What a fragment changes. -/
theorem inputPush_eq (kcp : IKCPCB) (hdr : Header) (data : List UInt8) :
    ∃ acklist, SameSender { kcp with acklist := acklist } (kcp.inputPush hdr data) := by
  rw [inputPush]
  split_ifs
  · exact ⟨_, sameSender_parse_data _ _⟩
  · exact ⟨_, SameSender.refl _⟩
  · exact ⟨_, SameSender.refl _⟩

theorem settings_inputSegment (kcp : IKCPCB) (maxack : MaxAck) (hdr : Header) (data : List UInt8) :
    settings (kcp.inputSegment maxack hdr data).1 = settings kcp := by
  obtain ⟨_, _, _, huna⟩ := inputUna_eq kcp hdr
  rw [inputSegment, huna]
  split_ifs
  · obtain ⟨_, _, _, _, _, _, heq, -⟩ := inputAck_eq (kcp.inputUna hdr) hdr
    rw [← huna, heq, huna]
    rfl
  · obtain ⟨_, _, _, _, _, _, _, heq⟩ := inputPush_eq (kcp.inputUna hdr) hdr data
    rw [← huna, heq, huna]
    rfl
  · rfl
  · rfl

theorem conv_inputSegment (kcp : IKCPCB) (maxack : MaxAck) (hdr : Header) (data : List UInt8) :
    (kcp.inputSegment maxack hdr data).1.conv = kcp.conv :=
  congrArg Prod.fst (settings_inputSegment kcp maxack hdr data)

/-! ## One segment -/

theorem toNat_setWidth_le (wnd : BitVec 16) : (wnd.setWidth 32).toNat ≤ 65535 := by
  rw [BitVec.toNat_setWidth_of_le (by decide)]
  exact Nat.le_of_lt_succ wnd.isLt

/-- **Every segment** takes out the fragments before its count. -/
theorem Sends.inputUna (h : Sends kcp log next kept) (hdr : Header) :
    Sends (kcp.inputUna hdr) log next
      (kept.dropWhile fun p => 0 < _itimediff hdr.una (BitVec.ofNat 32 p.1)) := by
  have hwnd : Sends { kcp with rmt_wnd := hdr.wnd.setWidth 32 } log next kept :=
    { h with rmt_wnd := toNat_setWidth_le hdr.wnd }
  exact hwnd.parse_una hdr.una

/-- **An acknowledgement** takes out the fragment with its number. -/
theorem Sends.inputAck (h : Sends kcp log next kept) (hdr : Header) :
    ∃ kept', kept'.Sublist kept ∧ Sends (kcp.inputAck hdr) log next kept' ∧
      ∀ p ∈ kept, p ∉ kept' → BitVec.ofNat 32 p.1 = hdr.sn := by
  have hrtt : Sends (if 0 ≤ _itimediff kcp.current hdr.ts then
      kcp.ikcp_update_ack (kcp.current - hdr.ts) else kcp) log next kept := by
    obtain ⟨_, _, _, heq, -⟩ := ikcp_update_ack_eq kcp (kcp.current - hdr.ts)
    rw [heq]
    split_ifs
    · exact { h with }
    · exact h
  exact hrtt.parse_ack hdr.sn

/-- What happens to a fragment that arrives. -/
inductive Pushed (kcp : IKCPCB) (base : ℕ) (held : List (ℕ × Fragment)) (hdr : Header)
    (data : List UInt8) : IKCPCB → Prop
  | outside (h : 0 ≤ _itimediff hdr.sn (kcp.rcv_nxt + kcp.rcv_wnd)) :
      Pushed kcp base held hdr data kcp
  | old (h : _itimediff hdr.sn kcp.rcv_nxt < 0) :
      Pushed kcp base held hdr data (kcp.ikcp_ack_push hdr.sn hdr.ts)
  | new (kcp' : IKCPCB) (m : ℕ) (moved held' : List (ℕ × Fragment))
      (hm : hdr.sn = BitVec.ofNat 32 m) (hge : base ≤ m) (hlt : m < base + kcp.rcv_wnd.toNat)
      (hheld : ((∃ y, (m, y) ∈ held) ∧ moved ++ held' = held) ∨
        ((∀ y, (m, y) ∉ held) ∧
          ∀ q, q ∈ moved ++ held' ↔ q = (m, ⟨hdr.frg.setWidth 32, data⟩) ∨ q ∈ held))
      (hmoved : Moved (kcp.ikcp_ack_push hdr.sn hdr.ts) kcp' base moved held') :
      Pushed kcp base held hdr data kcp'

/-- **A fragment** is kept and acknowledged if it is within the window. -/
theorem Receives.inputPush (h : Receives kcp base held) (hconv : hdr.conv = kcp.conv)
    (hcmd : hdr.cmd.setWidth 32 = IKCP_CMD_PUSH) (data : List UInt8) :
    Pushed kcp base held hdr data (kcp.inputPush hdr data) := by
  have hpush : Receives (kcp.ikcp_ack_push hdr.sn hdr.ts) base held := { h with }
  rw [IKCPCB.inputPush]
  split_ifs with hwnd hnew
  · obtain ⟨m, hm, hge, hiff⟩ := h.exists_count hnew
    have hcore : (segmentOf hdr data).core =
        pushCore kcp.conv (m, ⟨hdr.frg.setWidth 32, data⟩) := by
      simp only [segmentOf, IKCPSEG.core, IKCPSEG.fragment, pushCore, hconv, hcmd, hm]
    obtain ⟨moved, held', hheld, hmoved⟩ := hpush.parseData hcore hge (hiff.mp hwnd)
    exact .new _ m moved held' hm hge (hiff.mp hwnd) hheld hmoved
  · exact .old (not_le.mp hnew)
  · exact .outside (not_lt.mp hwnd)

/-! ## The segments of a datagram -/

/-- The segments one after the other. -/
def inputSegments (kcp : IKCPCB) (maxack : MaxAck) (segs : List IKCPSEG) : IKCPCB × MaxAck :=
  segs.foldl (fun s seg => s.1.inputSegment s.2 seg.header seg.data) (kcp, maxack)

theorem settings_inputSegments (kcp : IKCPCB) (maxack : MaxAck) (segs : List IKCPSEG) :
    settings (inputSegments kcp maxack segs).1 = settings kcp := by
  induction segs generalizing kcp maxack with
  | nil => rfl
  | cons seg rest ih => exact (ih _ _).trans (settings_inputSegment kcp maxack _ _)

/-- What every segment keeps, the loop keeps, whatever the bytes are. -/
theorem inputLoop_preserves {P : IKCPCB → Prop}
    (hstep : ∀ kcp maxack hdr data, P kcp → hdr.conv = kcp.conv →
      P (kcp.inputSegment maxack hdr data).1)
    (n : ℕ) (h : P kcp) (maxack : MaxAck) (data : List UInt8) :
    ∃ kcp' result, inputLoop n kcp maxack data = .ok (kcp', result) ∧ P kcp' := by
  induction n generalizing kcp maxack data with
  | zero => exact ⟨kcp, _, rfl, h⟩
  | succ n ih =>
    rw [inputLoop]
    split_ifs with hlen
    · exact ⟨kcp, _, rfl, h⟩
    · obtain ⟨hdr, hdecode⟩ := exists_decodeHeader (not_lt.mp hlen)
      simp only [hdecode, bind, Except.bind]
      split_ifs with hconv hdata hcmd
      · exact ⟨kcp, _, rfl, h⟩
      · exact ⟨kcp, _, rfl, h⟩
      · exact ih (hstep _ _ _ _ h (not_not.mp hconv)) _ _
      · exact ⟨kcp, _, rfl, h⟩

/-- A segment that `ikcp_input` takes. -/
structure Valid (conv : BitVec 32) (seg : IKCPSEG) : Prop where
  conv : seg.conv = conv
  cmd : seg.cmd ∈ [IKCP_CMD_PUSH, IKCP_CMD_ACK, IKCP_CMD_WASK, IKCP_CMD_WINS]
  length_lt : IKCP_OVERHEAD + seg.data.length < 2 ^ 31

/-- A command has room in its byte. -/
theorem setWidth_cmd {cmd : BitVec 32}
    (h : cmd ∈ [IKCP_CMD_PUSH, IKCP_CMD_ACK, IKCP_CMD_WASK, IKCP_CMD_WINS]) :
    (cmd.setWidth 8).setWidth 32 = cmd := by
  simp only [List.mem_cons, List.not_mem_nil, or_false] at h
  rcases h with rfl | rfl | rfl | rfl <;> rfl

/-- **The segments of a datagram** are found again. -/
theorem inputLoop_bytes (hsegs : ∀ seg ∈ segs, Valid kcp.conv seg) (hn : segs.length ≤ n) :
    inputLoop n kcp maxack (segs.flatMap IKCPSEG.bytes) =
      .ok ((inputSegments kcp maxack segs).1, .inr (inputSegments kcp maxack segs).2) := by
  induction segs generalizing kcp maxack n with
  | nil =>
    cases n with
    | zero => rfl
    | succ n => rfl
  | cons seg rest ih =>
    obtain ⟨n, rfl⟩ : ∃ k, n = k + 1 := ⟨n - 1, by rw [List.length_cons] at hn; omega⟩
    obtain ⟨hseg, hrest⟩ := List.forall_mem_cons.mp hsegs
    have hlen := hseg.length_lt
    have hnat : seg.len.toNat = seg.data.length := by
      rw [IKCPSEG.len, toNat_ofNat_of_lt (by omega)]
    have hint : 0 ≤ seg.len.toInt := by
      rw [BitVec.toInt_eq_toNat_of_lt (by rw [hnat]; omega)]
      exact Int.natCast_nonneg _
    have hcmd : (seg.cmd.setWidth 8).setWidth 32 ∈
        [IKCP_CMD_PUSH, IKCP_CMD_ACK, IKCP_CMD_WASK, IKCP_CMD_WINS] := by
      rw [setWidth_cmd hseg.cmd]
      exact hseg.cmd
    rw [List.flatMap_cons, IKCPSEG.bytes, List.append_assoc, inputLoop,
      if_neg (by simp only [List.length_append, length_ikcp_encode_seg]; omega),
      decodeHeader_ikcp_encode_seg]
    simp only [bind, Except.bind]
    rw [if_neg (not_not.mpr (show seg.header.conv = kcp.conv from hseg.conv)), if_neg,
      if_neg (not_not.mpr (show seg.header.cmd.setWidth 32 ∈ _ from hcmd))]
    · rw [show seg.header.len = seg.len from rfl, hnat, List.take_left, List.drop_left, ih]
      · rfl
      · intro s hs
        rw [conv_inputSegment]
        exact hrest s hs
      · rw [List.length_cons] at hn
        omega
    · rw [show seg.header.len = seg.len from rfl, hnat, List.length_append]
      omega

theorem growCwnd_eq (h : 0 < kcp.mss.toNat) :
    ∃ cwnd incr, kcp.growCwnd = .ok { kcp with cwnd := cwnd, incr := incr } := by
  have hincr : (if kcp.incr < kcp.mss then kcp.mss else kcp.incr) ≠ 0 := by
    split_ifs with hlt
    · rintro hzero
      rw [hzero] at h
      exact absurd h (by decide)
    · rintro hzero
      rw [hzero, BitVec.not_lt, BitVec.le_def] at hlt
      exact absurd (h.trans_le hlt) (by decide)
  simp only [growCwnd, if_neg hincr]
  split_ifs <;> exact ⟨_, _, rfl⟩

theorem exists_inputFastack_eq (kcp : IKCPCB) (maxack : MaxAck) :
    ∃ segs, kcp.inputFastack maxack = { kcp with snd_buf := segs } ∧
      segs.map IKCPSEG.core = kcp.snd_buf.map IKCPSEG.core := by
  rcases maxack with _ | ⟨sn, ts⟩
  · exact ⟨_, rfl, rfl⟩
  · rw [inputFastack, ikcp_parse_fastack]
    split_ifs
    · exact ⟨_, rfl, rfl⟩
    · exact ⟨_, rfl, map_core_passFastack sn _⟩

/-- After the last segment, only the window and what is remembered of the segments change. -/
theorem inputDone_eq (h : 0 < kcp.mss.toNat) (prev_una : BitVec 32) (maxack : MaxAck) :
    ∃ segs cwnd incr, kcp.inputDone prev_una maxack =
        .ok { kcp with snd_buf := segs, cwnd := cwnd, incr := incr } ∧
      segs.map IKCPSEG.core = kcp.snd_buf.map IKCPSEG.core := by
  obtain ⟨segs, hfast, hcore⟩ := exists_inputFastack_eq kcp maxack
  obtain ⟨cwnd, incr, hgrow⟩ : ∃ cwnd incr, growCwnd { kcp with snd_buf := segs } =
      .ok { kcp with snd_buf := segs, cwnd := cwnd, incr := incr } := growCwnd_eq h
  rw [inputDone, hfast]
  simp only [hgrow]
  split_ifs
  · exact ⟨_, _, _, rfl, hcore⟩
  · exact ⟨_, _, _, rfl, hcore⟩

/-- **What every segment keeps**, a datagram keeps, whatever its bytes are. -/
theorem ikcp_input_preserves {P : IKCPCB → Prop}
    (hsegment : ∀ kcp maxack hdr data, P kcp → hdr.conv = kcp.conv →
      P (kcp.inputSegment maxack hdr data).1)
    (hdone : ∀ kcp segs cwnd incr, P kcp →
      segs.map IKCPSEG.core = kcp.snd_buf.map IKCPSEG.core →
      P { kcp with snd_buf := segs, cwnd := cwnd, incr := incr })
    (hmss : ∀ kcp, P kcp → 0 < kcp.mss.toNat) (h : P kcp) (data : List UInt8) :
    ∃ kcp' n, kcp.ikcp_input data = .ok (kcp', n) ∧ P kcp' := by
  rw [ikcp_input]
  split_ifs
  · exact ⟨kcp, _, rfl, h⟩
  · obtain ⟨kcp', result, hloop, h'⟩ :=
      inputLoop_preserves hsegment data.length h none data
    simp only [hloop, bind, Except.bind]
    rcases result with error | maxack
    · exact ⟨kcp', _, rfl, h'⟩
    · obtain ⟨segs, cwnd, incr, heq, hcore⟩ := inputDone_eq (hmss kcp' h') kcp.snd_una maxack
      simp only [heq]
      exact ⟨_, _, rfl, hdone kcp' segs cwnd incr h' hcore⟩

theorem length_le_length_flatMap_bytes (segs : List IKCPSEG) :
    IKCP_OVERHEAD * segs.length ≤ (segs.flatMap IKCPSEG.bytes).length := by
  induction segs with
  | nil => exact Nat.zero_le _
  | cons seg rest ih =>
    rw [List.flatMap_cons, List.length_append, length_bytes, List.length_cons, Nat.mul_succ]
    omega

/-- **The segments of a datagram** are taken one after the other. -/
theorem ikcp_input_bytes (hmss : 0 < kcp.mss.toNat) (hne : segs ≠ [])
    (hsegs : ∀ seg ∈ segs, Valid kcp.conv seg)
    (hlt : (segs.flatMap IKCPSEG.bytes).length < 2 ^ 31) :
    ∃ segs' cwnd incr, kcp.ikcp_input (segs.flatMap IKCPSEG.bytes) =
        .ok ({ (inputSegments kcp none segs).1 with
          snd_buf := segs'
          cwnd := cwnd
          incr := incr }, 0) ∧
      segs'.map IKCPSEG.core = (inputSegments kcp none segs).1.snd_buf.map IKCPSEG.core := by
  have hlen : 24 * segs.length ≤ (segs.flatMap IKCPSEG.bytes).length :=
    length_le_length_flatMap_bytes segs
  have hpos := List.length_pos_of_ne_nil hne
  have hint : ¬ intT (segs.flatMap IKCPSEG.bytes).length < (IKCP_OVERHEAD : ℕ) := by
    rw [intT_eq_self ⟨by rw [INT_MIN]; omega, by rw [INT_MAX]; omega⟩, IKCP_OVERHEAD]
    omega
  have hmss' : 0 < (inputSegments kcp none segs).1.mss.toNat := by
    rw [show (inputSegments kcp none segs).1.mss = kcp.mss from
      congrArg (fun s => s.2.2.1) (settings_inputSegments kcp none segs)]
    exact hmss
  obtain ⟨segs', cwnd, incr, hdone, hcore⟩ :=
    inputDone_eq hmss' kcp.snd_una (inputSegments kcp none segs).2
  refine ⟨segs', cwnd, incr, ?_, hcore⟩
  rw [ikcp_input, if_neg hint, inputLoop_bytes hsegs (by omega)]
  simp only [bind, Except.bind, hdone]

end CodingDemo.Kcp
