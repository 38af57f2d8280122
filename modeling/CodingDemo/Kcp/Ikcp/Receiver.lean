import CodingDemo.Kcp.Ikcp.Messages

/-!
# The receiving half of KCP

What arrives is kept in `rcv_buf`, in order, until the gap before it is filled. From there it moves
to `rcv_queue`, where messages are put together.

## Main definitions

* `Receives`: which counts the receiving half stands for

## Main results

* `Receives.moveAvailable`: what moves to `rcv_queue` are the next fragments, in order
* `Receives.parseData`: what arrives is kept once
* `Receives.recv`: a message is handed over
-/

namespace CodingDemo.Kcp

open IKCPCB

/-- All fragments before `base` are in `rcv_queue` or have been handed over, and those that are
`held` have arrived behind a gap or a full queue. -/
structure Receives (kcp : IKCPCB) (base : ℕ) (held : List (ℕ × Fragment)) : Prop where
  rcv_nxt : kcp.rcv_nxt = BitVec.ofNat 32 base
  buf : Buffered kcp.conv base (base + 2 ^ 31) held kcp.rcv_buf
  wnd_ge : 128 ≤ kcp.rcv_wnd.toNat
  wnd_lt : kcp.rcv_wnd.toNat < 2 ^ 31
  queue_lt : kcp.rcv_queue.length < 2 ^ 31
  nrcv_que : kcp.nrcv_que = BitVec.ofNat 32 kcp.rcv_queue.length
  nrcv_buf : kcp.nrcv_buf = BitVec.ofNat 32 kcp.rcv_buf.length

/-- At most the fields of the receiving half differ. -/
def SameSender (kcp kcp' : IKCPCB) : Prop :=
  ∃ rcv_buf rcv_queue nrcv_buf nrcv_que rcv_nxt probe, kcp' = { kcp with
    rcv_buf := rcv_buf
    rcv_queue := rcv_queue
    nrcv_buf := nrcv_buf
    nrcv_que := nrcv_que
    rcv_nxt := rcv_nxt
    probe := probe }

/-- The next fragments have been moved to `rcv_queue`, in order, as many as there are or as the
queue has room for. -/
structure Moved (kcp kcp' : IKCPCB) (base : ℕ) (moved held : List (ℕ × Fragment)) : Prop where
  counts : moved.map Prod.fst = List.range' base moved.length
  receives : Receives kcp' (base + moved.length) held
  queue : kcp'.rcv_queue.map IKCPSEG.fragment =
    kcp.rcv_queue.map IKCPSEG.fragment ++ moved.map Prod.snd
  stop : kcp'.rcv_queue.length < kcp.rcv_wnd.toNat → ∀ p ∈ held, p.1 ≠ base + moved.length
  same : SameSender kcp kcp'

variable {kcp : IKCPCB} {base m n : ℕ} {x : Fragment} {held : List (ℕ × Fragment)}
  {seg newseg : IKCPSEG} {buf segs : List IKCPSEG}

theorem Receives.queue_lt_wnd_iff (h : Receives kcp base held) :
    kcp.nrcv_que < kcp.rcv_wnd ↔ kcp.rcv_queue.length < kcp.rcv_wnd.toNat := by
  rw [BitVec.lt_def, h.nrcv_que, toNat_ofNat_of_lt (h.queue_lt.trans (by decide))]

/-- The end of the window. -/
theorem Receives.rcv_nxt_add_rcv_wnd (h : Receives kcp base held) :
    kcp.rcv_nxt + kcp.rcv_wnd = BitVec.ofNat 32 (base + kcp.rcv_wnd.toNat) := by
  rw [h.rcv_nxt, BitVec.ofNat_add, ofNat_toNat_self]

theorem SameSender.refl (kcp : IKCPCB) : SameSender kcp kcp := ⟨_, _, _, _, _, _, rfl⟩

/-! ## Moving to `rcv_queue` -/

theorem sameSender_moveAvailable (kcp : IKCPCB) (buf : List IKCPSEG) :
    SameSender kcp (kcp.moveAvailable buf) := by
  induction buf generalizing kcp with
  | nil => exact ⟨_, _, _, _, _, _, rfl⟩
  | cons seg rest ih =>
    rw [moveAvailable]
    split_ifs
    · obtain ⟨_, _, _, _, _, _, heq⟩ := ih { kcp with
        nrcv_buf := kcp.nrcv_buf - 1
        rcv_queue := kcp.rcv_queue ++ [seg]
        nrcv_que := kcp.nrcv_que + 1
        rcv_nxt := kcp.rcv_nxt + 1 }
      exact ⟨_, _, _, _, _, _, heq⟩
    · exact ⟨_, _, _, _, _, _, rfl⟩

/-- The first segment is moved. -/
theorem Receives.move_one (h : Receives { kcp with rcv_buf := seg :: segs } base held)
    (hsn : seg.sn = kcp.rcv_nxt) (hque : kcp.nrcv_que < kcp.rcv_wnd) :
    ∃ x rest, held = (base, x) :: rest ∧ seg.fragment = x ∧
      Receives { kcp with
        rcv_buf := segs
        nrcv_buf := kcp.nrcv_buf - 1
        rcv_queue := kcp.rcv_queue ++ [seg]
        nrcv_que := kcp.nrcv_que + 1
        rcv_nxt := kcp.rcv_nxt + 1 } (base + 1) rest := by
  have hlt := h.queue_lt_wnd_iff.mp hque
  obtain ⟨p, rest, rfl, hcore, hbuf⟩ := h.buf.cons
  have hp : p.1 = base := by
    have hge := h.buf.ge p List.mem_cons_self
    apply eq_of_ofNat_eq (by omega) (h.buf.lt p List.mem_cons_self)
    exact (core_sn hcore).symm.trans (hsn.trans h.rcv_nxt)
  refine ⟨p.2, rest, by rw [← hp], core_fragment hcore, ?_⟩
  refine { h with
    rcv_nxt := by rw [h.rcv_nxt, ofNat_add_one]
    buf := hbuf.mono (fun q hq => hp ▸ hbuf.ge q hq) fun q hq => (hbuf.lt q hq).trans (by omega)
    queue_lt := ?_
    nrcv_que := ?_
    nrcv_buf := ?_ }
  · have hwnd := h.wnd_lt
    simp only [List.length_append, List.length_singleton]
    exact lt_of_le_of_lt hlt hwnd
  · rw [List.length_append, List.length_singleton, ← ofNat_add_one, ← h.nrcv_que]
  · have hbuf := h.nrcv_buf
    rw [List.length_cons] at hbuf
    exact (congrArg (· - 1) hbuf).trans (ofNat_succ_sub_one _)

/-- **What moves to `rcv_queue`** are the next fragments. -/
theorem Receives.moveAvailable (kcp : IKCPCB)
    (h : Receives { kcp with rcv_buf := buf } base held) :
    ∃ moved held', held = moved ++ held' ∧ Moved kcp (kcp.moveAvailable buf) base moved held' := by
  have hsame := sameSender_moveAvailable kcp buf
  induction buf generalizing kcp base held with
  | nil =>
    have hnil : held = [] := List.length_eq_zero_iff.mp h.buf.length_eq.symm
    subst hnil
    exact ⟨[], [], rfl, rfl, h, (List.append_nil _).symm, fun _ p hp =>
      absurd hp List.not_mem_nil, hsame⟩
  | cons seg rest ih =>
    rw [IKCPCB.moveAvailable] at hsame ⊢
    split_ifs at hsame ⊢ with hmove
    · obtain ⟨x, held₁, rfl, hx, h'⟩ := h.move_one hmove.1 hmove.2
      obtain ⟨moved, held', rfl, hm⟩ := ih { kcp with
        nrcv_buf := kcp.nrcv_buf - 1
        rcv_queue := kcp.rcv_queue ++ [seg]
        nrcv_que := kcp.nrcv_que + 1
        rcv_nxt := kcp.rcv_nxt + 1 } h' (sameSender_moveAvailable _ _)
      have hlen : base + ((base, x) :: moved).length = base + 1 + moved.length := by
        rw [List.length_cons]
        omega
      refine ⟨(base, x) :: moved, held', rfl, ?_, hlen ▸ hm.receives, ?_, hlen ▸ hm.stop, hsame⟩
      · rw [List.map_cons, hm.counts, List.length_cons, List.range'_succ]
      · rw [hm.queue, List.map_append, List.map_singleton, List.append_assoc, hx]
        rfl
    · refine ⟨[], held, rfl, rfl, h, (List.append_nil _).symm, fun hlen p hp heq => hmove ?_,
        hsame⟩
      -- A segment with the next count is the first one.
      obtain ⟨q, held', rfl, hcore, hbuf⟩ := h.buf.cons
      have hge := h.buf.ge q List.mem_cons_self
      have hq : q.1 = base := by
        rcases List.mem_cons.mp hp with rfl | hp
        · exact heq
        · have hlt := hbuf.ge p hp
          rw [heq] at hlt
          simp only [List.length_nil] at hlt
          omega
      refine ⟨?_, h.queue_lt_wnd_iff.mpr hlen⟩
      rw [core_sn hcore, hq]
      exact h.rcv_nxt.symm

theorem Receives.moveAvailable_rcv_buf (h : Receives kcp base held) :
    ∃ moved held', held = moved ++ held' ∧
      Moved kcp (kcp.moveAvailable kcp.rcv_buf) base moved held' :=
  Receives.moveAvailable kcp h

/-! ## What arrives -/

/-- The segments of a reversed buffer. -/
theorem Buffered.reverse_concat {conv : BitVec 32} {lo hi : ℕ} {ps : List (ℕ × Fragment)}
    (h : Buffered conv lo hi ps (segs ++ [seg])) :
    ∃ ps' p, ps = ps' ++ [p] ∧ seg.core = pushCore conv p ∧ lo ≤ p.1 ∧ p.1 < hi ∧
      Buffered conv lo p.1 ps' segs := by
  rcases List.eq_nil_or_concat ps with rfl | ⟨ps', p, rfl⟩
  · have hlen := h.length_eq
    rw [List.length_append, List.length_singleton] at hlen
    exact absurd hlen (Nat.succ_ne_zero _)
  · rw [List.concat_eq_append] at h ⊢
    have hcore := h.core
    rw [List.map_append, List.map_append, List.map_singleton, List.map_singleton] at hcore
    obtain ⟨hsegs, hseg⟩ := List.append_inj' hcore rfl
    obtain ⟨hsorted, -, hlt⟩ := List.pairwise_append.mp h.sorted
    have hp : p ∈ ps' ++ [p] := List.mem_append_right _ (List.mem_singleton_self p)
    exact ⟨ps', p, rfl, List.singleton_inj.mp hseg, h.ge p hp, h.lt p hp, hsegs, hsorted,
      fun q hq => h.ge q (List.mem_append_left _ hq),
      fun q hq => hlt q hq p (List.mem_singleton_self p)⟩

/-- A segment whose count is there already is not kept. Another one is put in its place. -/
theorem Buffered.insertSeg {conv : BitVec 32} {lo hi : ℕ} {ps : List (ℕ × Fragment)}
    (h : Buffered conv lo hi ps segs.reverse) (hhi : hi ≤ lo + 2 ^ 31)
    (hnew : newseg.core = pushCore conv (m, x)) (hlo : lo ≤ m) (hm : m < hi) :
    (insertSeg newseg segs = none ∧ ∃ y, (m, y) ∈ ps) ∨
      ∃ segs' ps', insertSeg newseg segs = some segs' ∧
        Buffered conv lo hi ps' segs'.reverse ∧ segs'.length = segs.length + 1 ∧
        (∀ y, (m, y) ∉ ps) ∧ ∀ q, q ∈ ps' ↔ q = (m, x) ∨ q ∈ ps := by
  have hsn : newseg.sn = BitVec.ofNat 32 m := core_sn hnew
  induction segs generalizing ps hi with
  | nil =>
    right
    have hnil : ps = [] := List.length_eq_zero_iff.mp h.length_eq.symm
    refine ⟨[newseg], [(m, x)], rfl, ?_, rfl, ?_, fun q => ?_⟩
    · exact Buffered.of_cons hnew hlo hm (Buffered.nil _ _ _)
    · rw [hnil]
      exact fun y => List.not_mem_nil
    · rw [hnil, List.mem_singleton]
      exact (or_iff_left List.not_mem_nil).symm
  | cons seg prev ih =>
    rw [List.reverse_cons] at h
    obtain ⟨ps₁, p, rfl, hseg, hge, hlt, hprev⟩ := h.reverse_concat
    rw [IKCPCB.insertSeg, core_sn hseg, hsn]
    have hdiff : _itimediff (BitVec.ofNat 32 m) (BitVec.ofNat 32 p.1) = (m : ℤ) - p.1 :=
      itimediff_ofNat (by omega) (by omega)
    rcases Nat.lt_trichotomy p.1 m with hpm | hpm | hpm
    · -- The new segment comes behind this one.
      right
      rw [if_neg fun heq => hpm.ne (eq_of_ofNat_eq (by omega) (by omega) heq),
        if_pos (by rw [hdiff]; omega)]
      refine ⟨_, ps₁ ++ [p] ++ [(m, x)], rfl, ?_, rfl, fun y hy => ?_, fun q => ?_⟩
      · rw [List.reverse_cons, List.reverse_cons]
        exact (hprev.snoc hseg hge hpm).snoc hnew hlo hm
      · rcases List.mem_append.mp hy with hy | hy
        · exact absurd (hprev.lt _ hy) (by simp only; omega)
        · exact hpm.ne' (congrArg Prod.fst (List.mem_singleton.mp hy))
      · rw [List.mem_append, List.mem_singleton, or_comm]
    · -- The number is there.
      left
      rw [if_pos (by rw [hpm])]
      exact ⟨rfl, p.2, List.mem_append_right _ (List.mem_singleton.mpr (by rw [← hpm]))⟩
    · -- The search goes on.
      rw [if_neg fun heq => hpm.ne' (eq_of_ofNat_eq (by omega) (by omega) heq),
        if_neg (by rw [hdiff]; omega)]
      rcases ih hprev (by omega) hpm with
        ⟨hnone, y, hy⟩ | ⟨segs', ps', hsome, hbuf, hlen, hno, hmem⟩
      · left
        rw [hnone]
        exact ⟨rfl, y, List.mem_append_left _ hy⟩
      · right
        rw [hsome]
        refine ⟨seg :: segs', ps' ++ [p], rfl, ?_, ?_, fun y hy => ?_, fun q => ?_⟩
        · rw [List.reverse_cons]
          exact hbuf.snoc hseg hge hlt
        · rw [List.length_cons, hlen, List.length_cons]
        · rcases List.mem_append.mp hy with hy | hy
          · exact hno y hy
          · exact hpm.ne (congrArg Prod.fst (List.mem_singleton.mp hy))
        · rw [List.mem_append, List.mem_append, hmem, or_assoc]

/-- A number that is not behind `rcv_nxt` is that of a count, and is compared with the end of the
window as the count is. -/
theorem Receives.exists_count (h : Receives kcp base held) {sn : BitVec 32}
    (hsn : 0 ≤ _itimediff sn kcp.rcv_nxt) :
    ∃ m, sn = BitVec.ofNat 32 m ∧ base ≤ m ∧
      (_itimediff sn (kcp.rcv_nxt + kcp.rcv_wnd) < 0 ↔ m < base + kcp.rcv_wnd.toNat) := by
  rw [h.rcv_nxt] at hsn
  obtain ⟨m, rfl, hge, hlt⟩ := exists_ofNat_of_itimediff_nonneg hsn
  have hwnd := h.wnd_lt
  refine ⟨m, rfl, hge, ?_⟩
  rw [h.rcv_nxt_add_rcv_wnd, itimediff_ofNat (by omega) (by omega)]
  omega

theorem sameSender_parse_data (kcp : IKCPCB) (newseg : IKCPSEG) :
    SameSender kcp (kcp.ikcp_parse_data newseg) := by
  rw [ikcp_parse_data]
  split_ifs
  · exact ⟨_, _, _, _, _, _, rfl⟩
  · split
    · next segs _ =>
      obtain ⟨_, _, _, _, _, _, heq⟩ := sameSender_moveAvailable
        { kcp with rcv_buf := segs.reverse, nrcv_buf := kcp.nrcv_buf + 1 } segs.reverse
      exact ⟨_, _, _, _, _, _, heq⟩
    · exact sameSender_moveAvailable kcp _

/-- **What arrives** within the window is kept, unless it is there already. Then all that is next
moves to `rcv_queue`. -/
theorem Receives.parseData (h : Receives kcp base held)
    (hnew : newseg.core = pushCore kcp.conv (m, x)) (hge : base ≤ m)
    (hlt : m < base + kcp.rcv_wnd.toNat) :
    ∃ moved held',
      (((∃ y, (m, y) ∈ held) ∧ moved ++ held' = held) ∨
        ((∀ y, (m, y) ∉ held) ∧ ∀ q, q ∈ moved ++ held' ↔ q = (m, x) ∨ q ∈ held)) ∧
      Moved kcp (kcp.ikcp_parse_data newseg) base moved held' := by
  have hwnd := h.wnd_lt
  have hin : ¬ (0 ≤ _itimediff newseg.sn (kcp.rcv_nxt + kcp.rcv_wnd) ∨
      _itimediff newseg.sn kcp.rcv_nxt < 0) := by
    rw [h.rcv_nxt_add_rcv_wnd, h.rcv_nxt, core_sn hnew,
      itimediff_ofNat (by simp only; omega) (by simp only; omega),
      itimediff_ofNat (by simp only; omega) (by simp only; omega)]
    simp only
    omega
  have hsame := sameSender_parse_data kcp newseg
  rw [ikcp_parse_data, if_neg hin] at hsame ⊢
  have hbuf : Buffered kcp.conv base (base + 2 ^ 31) held kcp.rcv_buf.reverse.reverse := by
    rw [List.reverse_reverse]
    exact h.buf
  rcases hbuf.insertSeg le_rfl hnew hge (by omega) with
    ⟨hnone, hold⟩ | ⟨segs', ps', hsome, hbuf', hlen, hno, hmem⟩
  · rw [hnone]
    obtain ⟨moved, held', rfl, hmoved⟩ := h.moveAvailable_rcv_buf
    exact ⟨moved, held', .inl ⟨hold, rfl⟩, hmoved⟩
  · rw [hsome] at hsame ⊢
    have h' : Receives { kcp with rcv_buf := segs'.reverse, nrcv_buf := kcp.nrcv_buf + 1 } base
        ps' :=
      { h with
        buf := hbuf'
        nrcv_buf := by
          rw [List.length_reverse, hlen, List.length_reverse, ← ofNat_add_one, ← h.nrcv_buf] }
    obtain ⟨moved, held', rfl, hmoved⟩ := h'.moveAvailable_rcv_buf
    exact ⟨moved, held', .inr ⟨hno, hmem⟩, { hmoved with same := hsame }⟩

/-! ## Handing over -/

/-- The first message is taken out. -/
theorem Receives.takeMessage (h : Receives kcp base held) : Receives kcp.takeMessage base held := by
  have hlen := congrArg List.length (splitMessage_append kcp.rcv_queue)
  rw [List.length_append] at hlen
  refine { h with queue_lt := ?_, nrcv_que := ?_ }
  · have hlt := h.queue_lt
    simp only [IKCPCB.takeMessage]
    omega
  · rw [IKCPCB.takeMessage, h.nrcv_que, ← hlen, ofNat_add_sub]

theorem Moved.recover {kcp' : IKCPCB} {moved : List (ℕ × Fragment)} (full : Prop) [Decidable full]
    (h : Moved kcp kcp' base moved held) : Moved kcp (kcp'.recover full) base moved held := by
  rw [IKCPCB.recover]
  split_ifs
  · obtain ⟨_, _, _, _, _, _, rfl⟩ := h.same
    exact { h with receives := { h.receives with }, same := ⟨_, _, _, _, _, _, rfl⟩ }
  · exact h

/-- What `ikcp_recv` does: nothing, or it hands over the first message and moves what is next. -/
inductive Received (kcp : IKCPCB) (base : ℕ) (held : List (ℕ × Fragment)) (len : ℤ) :
    IKCPCB × ℤ × List UInt8 → Prop
  | none (n : ℤ) (hn : n < 0)
      (h : kcp.rcv_queue = [] ∨ kcp.ikcp_peeksize < 0 ∨ |len| < kcp.ikcp_peeksize) :
      Received kcp base held len (kcp, n, [])
  | some (kcp' : IKCPCB) (moved held' : List (ℕ × Fragment)) (hpeek : 0 ≤ kcp.ikcp_peeksize)
      (hlen : kcp.ikcp_peeksize ≤ |len|) (hheld : held = moved ++ held')
      (hmoved : Moved (if len < 0 then kcp else kcp.takeMessage) kcp' base moved held') :
      Received kcp base held len
        (kcp', kcp.ikcp_peeksize, (splitMessage kcp.rcv_queue).1.flatMap IKCPSEG.data)

/-- **A message is handed over**, and no assertion fails. -/
theorem Receives.recv (h : Receives kcp base held) (len : ℤ) :
    ∃ result, kcp.ikcp_recv len = .ok result ∧ Received kcp base held len result := by
  have habs : (if len < 0 then -len else len) = |len| := by
    split_ifs with hneg
    · exact (abs_of_neg hneg).symm
    · exact (abs_of_nonneg (not_lt.mp hneg)).symm
  rw [ikcp_recv, habs]
  by_cases hnil : kcp.rcv_queue = []
  · exact ⟨_, if_pos hnil, .none _ (by decide) (.inl hnil)⟩
  by_cases hneg : kcp.ikcp_peeksize < 0
  · exact ⟨_, (if_neg hnil).trans (if_pos hneg), .none _ (by decide) (.inr (.inl hneg))⟩
  have hlength := length_of_peeksize_nonneg (not_lt.mp hneg)
  simp only [if_neg hnil, if_neg hneg, hlength, ne_eq, not_true_eq_false, if_false]
  by_cases hlen : |len| < kcp.ikcp_peeksize
  · exact ⟨_, if_pos hlen, .none _ (by decide) (.inr (.inr hlen))⟩
  · have hrest : Receives (if len < 0 then kcp else kcp.takeMessage) base held := by
      split_ifs
      · exact h
      · exact h.takeMessage
    obtain ⟨moved, held', heq, hmoved⟩ := hrest.moveAvailable_rcv_buf
    exact ⟨_, if_neg hlen, .some _ moved held' (not_lt.mp hneg) (not_lt.mp hlen) heq
      (hmoved.recover _)⟩

end CodingDemo.Kcp
