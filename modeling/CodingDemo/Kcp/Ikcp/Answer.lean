import CodingDemo.Kcp.Ikcp.Input
import Mathlib.Data.List.TakeWhile

/-!
# What a KCP segment is answered with

A fragment and a question for the window are answered in the next flush, and nothing but a flush
makes an end forget that it has to answer. The answer tells the sender what has been received and
how much room there is.

## Main definitions

* `Answers`: there is something to answer
* `Brings`: a segment holds the fragment with a number

## Main results

* `answers_of_brings`, `answers_of_mem_wask`: the segments that are answered
* `Answers.inputSegments`, `Answers.recv`: an answer is not forgotten
* `inputSegments_told`: what the sender learns from an answer
-/

namespace CodingDemo.Kcp

open IKCPCB

/-- The next flush sends a segment. -/
def Answers (kcp : IKCPCB) : Prop := kcp.acklist ≠ [] ∨ kcp.probe &&& IKCP_ASK_TELL ≠ 0

/-- The segment holds the fragment with a number. -/
structure Brings (seg : IKCPSEG) (n : ℕ) : Prop where
  cmd : seg.cmd = IKCP_CMD_PUSH
  sn : seg.sn = BitVec.ofNat 32 n
  lt : n < 2 ^ 31

variable {kcp kcp' : IKCPCB} {base n : ℕ} {held : List (ℕ × Fragment)} {hdr : Header}
  {data : List UInt8} {maxack : MaxAck} {seg : IKCPSEG} {segs : List IKCPSEG}

/-! ## What is not forgotten -/

theorem and_or_ne_zero (probe ask tell : BitVec 32) (h : probe &&& tell ≠ 0) :
    (probe ||| ask) &&& tell ≠ 0 := by
  rw [BitVec.and_or_distrib_right]
  exact fun hzero => h (BitVec.or_eq_zero_iff.mp hzero).1

theorem probe_moveAvailable (kcp : IKCPCB) (buf : List IKCPSEG) :
    (kcp.moveAvailable buf).probe = kcp.probe := by
  induction buf generalizing kcp with
  | nil => rfl
  | cons seg rest ih =>
    rw [moveAvailable]
    split_ifs
    · exact ih _
    · rfl

theorem probe_parse_data (kcp : IKCPCB) (newseg : IKCPSEG) :
    (kcp.ikcp_parse_data newseg).probe = kcp.probe := by
  rw [ikcp_parse_data]
  split_ifs
  · rfl
  · split <;> exact probe_moveAvailable _ _

theorem acklist_parse_data (kcp : IKCPCB) (newseg : IKCPSEG) :
    (kcp.ikcp_parse_data newseg).acklist = kcp.acklist := by
  obtain ⟨_, _, _, _, _, _, heq⟩ := sameSender_parse_data kcp newseg
  rw [heq]

theorem Answers.inputPush (h : Answers kcp) (hdr : Header) (data : List UInt8) :
    Answers (kcp.inputPush hdr data) := by
  have hpush : Answers (kcp.ikcp_ack_push hdr.sn hdr.ts) :=
    .inl (List.append_ne_nil_of_right_ne_nil _ (List.cons_ne_nil _ _))
  rw [IKCPCB.inputPush]
  split_ifs
  · rw [Answers, acklist_parse_data, probe_parse_data]
    exact hpush
  · exact hpush
  · exact h

/-- **A segment** does not make the end forget. -/
theorem Answers.inputSegment (h : Answers kcp) (maxack : MaxAck) (hdr : Header)
    (data : List UInt8) : Answers (kcp.inputSegment maxack hdr data).1 := by
  have huna : Answers (kcp.inputUna hdr) := by
    obtain ⟨_, _, _, heq⟩ := inputUna_eq kcp hdr
    rw [heq]
    exact h
  rw [IKCPCB.inputSegment]
  split_ifs
  · obtain ⟨_, _, _, _, _, _, heq, -⟩ := inputAck_eq (kcp.inputUna hdr) hdr
    rw [heq]
    exact huna
  · exact huna.inputPush hdr data
  · exact huna.imp id (and_or_ne_zero _ _ _)
  · exact huna

theorem Answers.inputSegments (h : Answers kcp) (maxack : MaxAck) (segs : List IKCPSEG) :
    Answers (inputSegments kcp maxack segs).1 := by
  induction segs generalizing kcp maxack with
  | nil => exact h
  | cons seg rest ih => exact ih (h.inputSegment maxack _ _) _

theorem Answers.moveAvailable (h : Answers kcp) (buf : List IKCPSEG) :
    Answers (kcp.moveAvailable buf) := by
  have hacklist : (kcp.moveAvailable buf).acklist = kcp.acklist := by
    obtain ⟨_, _, _, _, _, _, heq⟩ := sameSender_moveAvailable kcp buf
    rw [heq]
  rw [Answers, hacklist, probe_moveAvailable]
  exact h

theorem Answers.recover (h : Answers kcp) (full : Prop) [Decidable full] :
    Answers (kcp.recover full) := by
  rw [IKCPCB.recover]
  split_ifs
  · exact h.imp id (and_or_ne_zero _ _ _)
  · exact h

/-- **A message** that is handed over does not make the end forget. -/
theorem Answers.recv {len m : ℤ} {buffer : List UInt8} (h : Answers kcp)
    (heq : kcp.ikcp_recv len = .ok (kcp', m, buffer)) : Answers kcp' := by
  have htake : Answers kcp.takeMessage := h
  rw [ikcp_recv] at heq
  simp only at heq
  split_ifs at heq
  all_goals
    rw [Except.ok.injEq, Prod.mk.injEq] at heq
    obtain ⟨rfl, -⟩ := heq
    first
      | exact h
      | exact (h.moveAvailable _).recover (kcp.rcv_wnd ≤ kcp.nrcv_que)
      | exact (htake.moveAvailable _).recover (kcp.rcv_wnd ≤ kcp.nrcv_que)

/-! ## What is answered -/

theorem answers_of_wask (hcmd : hdr.cmd.setWidth 32 = IKCP_CMD_WASK) :
    Answers (kcp.inputSegment maxack hdr data).1 := by
  rw [IKCPCB.inputSegment, hcmd, if_neg (by decide), if_neg (by decide), if_pos rfl]
  right
  simp only
  rw [BitVec.and_or_distrib_right]
  exact fun hzero => absurd (BitVec.or_eq_zero_iff.mp hzero).2 (by decide)

/-- **A question** for the window. -/
theorem answers_of_mem_wask (hseg : seg ∈ segs) (hcmd : seg.cmd = IKCP_CMD_WASK) :
    Answers (inputSegments kcp maxack segs).1 := by
  induction segs generalizing kcp maxack with
  | nil => exact absurd hseg List.not_mem_nil
  | cons s rest ih =>
    rcases List.mem_cons.mp hseg with rfl | hseg
    · refine (answers_of_wask ?_).inputSegments _ rest
      rw [show seg.header.cmd = seg.cmd.setWidth 8 from rfl, hcmd]
      rfl
    · exact ih hseg

/-- **A fragment** within the window, or not far behind it. -/
theorem answers_of_brings (hr : Receives kcp base held) (hn : Brings seg n)
    (hlt : n < base + kcp.rcv_wnd.toNat) (hnear : base + kcp.rcv_wnd.toNat < n + 2 ^ 31) :
    Answers (kcp.inputSegment maxack seg.header data).1 := by
  have hcmd : seg.header.cmd.setWidth 32 = IKCP_CMD_PUSH := by
    rw [show seg.header.cmd = seg.cmd.setWidth 8 from rfl, hn.cmd]
    rfl
  obtain ⟨_, _, _, huna⟩ := inputUna_eq kcp seg.header
  have hr' : Receives (kcp.inputUna seg.header) base held := by
    rw [huna]
    exact { hr with }
  have hwnd : (kcp.inputUna seg.header).rcv_wnd = kcp.rcv_wnd := by rw [huna]
  have hpush : Answers ((kcp.inputUna seg.header).ikcp_ack_push seg.header.sn seg.header.ts) :=
    .inl (List.append_ne_nil_of_right_ne_nil _ (List.cons_ne_nil _ _))
  rw [IKCPCB.inputSegment, hcmd, if_neg (by decide), if_pos rfl, inputPush, if_pos]
  · split_ifs
    · simp only [Answers, acklist_parse_data, probe_parse_data]
      exact hpush
    · exact hpush
  · rw [hr'.rcv_nxt_add_rcv_wnd, hwnd, show seg.header.sn = seg.sn from rfl, hn.sn,
      itimediff_ofNat (by omega) (by omega)]
    omega

/-! ## What an answer tells -/

/-- The count of the segment is behind everything that is kept. -/
theorem inputUna_told (h : ∀ s ∈ kcp.snd_buf, 0 < _itimediff hdr.una s.sn) :
    (kcp.inputUna hdr).snd_buf = [] := by
  rw [inputUna, ikcp_shrink_buf_eq]
  exact List.dropWhile_eq_nil_iff.mpr fun s hs => decide_eq_true (h s hs)

theorem inputAck_snd_buf (h : kcp.snd_buf = []) : (kcp.inputAck hdr).snd_buf = [] := by
  obtain ⟨_, _, _, heq, -⟩ := ikcp_update_ack_eq kcp (kcp.current - hdr.ts)
  have hparse : ∀ kcp : IKCPCB, kcp.snd_buf = [] → (kcp.ikcp_parse_ack hdr.sn).snd_buf = [] := by
    intro kcp h
    rw [ikcp_parse_ack]
    split_ifs
    · exact h
    · rw [h]
      exact h
  rw [inputAck, ikcp_shrink_buf_eq, heq]
  apply hparse
  split_ifs
  · exact h
  · exact h

/-- **A segment** whose count is behind everything that is kept. -/
theorem inputSegment_told (maxack : MaxAck) (data : List UInt8)
    (h : ∀ s ∈ kcp.snd_buf, 0 < _itimediff hdr.una s.sn) :
    (kcp.inputSegment maxack hdr data).1.snd_buf = [] ∧
      (kcp.inputSegment maxack hdr data).1.rmt_wnd = hdr.wnd.setWidth 32 := by
  have hbuf := inputUna_told h
  have hwnd : (kcp.inputUna hdr).rmt_wnd = hdr.wnd.setWidth 32 := by
    obtain ⟨_, _, _, heq⟩ := inputUna_eq kcp hdr
    rw [heq]
  rw [inputSegment]
  split_ifs
  · refine ⟨inputAck_snd_buf hbuf, ?_⟩
    obtain ⟨_, _, _, _, _, _, heq, -⟩ := inputAck_eq (kcp.inputUna hdr) hdr
    rw [heq]
    exact hwnd
  · obtain ⟨_, _, _, _, _, _, _, heq⟩ := inputPush_eq (kcp.inputUna hdr) hdr data
    rw [heq]
    exact ⟨hbuf, hwnd⟩
  · exact ⟨hbuf, hwnd⟩
  · exact ⟨hbuf, hwnd⟩

/-- **The sender learns** that all has been received, and how much room there is. -/
theorem inputSegments_told (maxack : MaxAck) {una wnd : BitVec 32} (hne : segs ≠ [])
    (hsegs : ∀ seg ∈ segs, seg.una = una ∧ seg.wnd = wnd)
    (h : ∀ s ∈ kcp.snd_buf, 0 < _itimediff una s.sn) :
    (inputSegments kcp maxack segs).1.snd_buf = [] ∧
      (inputSegments kcp maxack segs).1.rmt_wnd = (wnd.setWidth 16).setWidth 32 := by
  induction segs generalizing kcp maxack with
  | nil => exact absurd rfl hne
  | cons seg rest ih =>
    obtain ⟨⟨huna, hwnd⟩, hrest⟩ := List.forall_mem_cons.mp hsegs
    have huna' : ∀ s ∈ kcp.snd_buf, 0 < _itimediff seg.header.una s.sn := by
      rw [show seg.header.una = una from huna]
      exact h
    obtain ⟨hbuf, hrmt⟩ := inputSegment_told maxack seg.data huna'
    rcases rest with _ | ⟨seg', rest⟩
    · refine ⟨hbuf, hrmt.trans ?_⟩
      rw [← hwnd]
      rfl
    · have hnil : ∀ s ∈ (kcp.inputSegment maxack seg.header seg.data).1.snd_buf,
          0 < _itimediff una s.sn := by
        rw [hbuf]
        exact fun s hs => absurd hs List.not_mem_nil
      exact ih _ (List.cons_ne_nil _ _) hrest hnil

end CodingDemo.Kcp
