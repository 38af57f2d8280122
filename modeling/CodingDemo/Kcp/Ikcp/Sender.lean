import CodingDemo.Kcp.Ikcp.Receiver

/-!
# The sending half of KCP

Fragments wait in `snd_queue` until they get a number, and then in `snd_buf` until they are
acknowledged.

## Main definitions

* `Sends`: which fragments and counts the sending half stands for
* `receiver`: the fields of the receiving half

## Main results

* `Sends.parse_una`, `Sends.parse_ack`: an acknowledgement takes fragments out of `snd_buf`
* `Sends.moveToSndBuf`: fragments get the next counts, as far as the window allows
-/

namespace CodingDemo.Kcp

open IKCPCB

/-- The count of the first fragment that is kept, or the next one. -/
def firstKept (kept : List (ℕ × Fragment)) (next : ℕ) : ℕ := (kept.head?.map Prod.fst).getD next

/-- The fragments of `log` have been sent, of which the first `next` have a count. Those in `kept`
have not been acknowledged. -/
structure Sends (kcp : IKCPCB) (log : List Fragment) (next : ℕ) (kept : List (ℕ × Fragment)) :
    Prop where
  queue : kcp.snd_queue.map IKCPSEG.fragment = log.drop next
  next_le : next ≤ log.length
  snd_nxt : kcp.snd_nxt = BitVec.ofNat 32 next
  snd_una : kcp.snd_una = BitVec.ofNat 32 (firstKept kept next)
  buf : Buffered kcp.conv 0 next kept kcp.snd_buf
  log : ∀ p ∈ kept, log[p.1]? = some p.2
  window : next ≤ firstKept kept next + 65535
  rmt_wnd : kcp.rmt_wnd.toNat ≤ 65535
  nsnd_que : kcp.nsnd_que = BitVec.ofNat 32 kcp.snd_queue.length
  nsnd_buf : kcp.nsnd_buf = BitVec.ofNat 32 kcp.snd_buf.length

/-- The fields of the receiving half. -/
def receiver (kcp : IKCPCB) :=
  (kcp.conv, kcp.rcv_nxt, kcp.rcv_wnd, kcp.rcv_queue, kcp.rcv_buf, kcp.nrcv_que, kcp.nrcv_buf)

variable {kcp kcp' : IKCPCB} {log : List Fragment} {base m n next : ℕ}
  {held kept kept' : List (ℕ × Fragment)} {segs segs' : List IKCPSEG}

/-! ## The two halves -/

theorem Receives.of_receiver_eq (h : Receives kcp base held) (heq : receiver kcp' = receiver kcp) :
    Receives kcp' base held := by
  simp only [receiver, Prod.mk.injEq] at heq
  obtain ⟨hconv, hnxt, hwnd, hqueue, hbuf, hnque, hnbuf⟩ := heq
  constructor
  · rw [hnxt, h.rcv_nxt]
  · rw [hconv, hbuf]
    exact h.buf
  · rw [hwnd]
    exact h.wnd_ge
  · rw [hwnd]
    exact h.wnd_lt
  · rw [hqueue]
    exact h.queue_lt
  · rw [hnque, hqueue, h.nrcv_que]
  · rw [hnbuf, hbuf, h.nrcv_buf]

theorem Sends.of_sameSender (h : Sends kcp log next kept) (hs : SameSender kcp kcp') :
    Sends kcp' log next kept := by
  obtain ⟨_, _, _, _, _, _, rfl⟩ := hs
  exact { h with }

/-! ## The first fragment that is kept -/

theorem firstKept_le (hlt : ∀ p ∈ kept, p.1 < next) : firstKept kept next ≤ next := by
  cases kept with
  | nil => exact le_rfl
  | cons p rest => exact (hlt p List.mem_cons_self).le

theorem firstKept_le_of_mem (hsorted : kept.Pairwise fun p q => p.1 < q.1) {p : ℕ × Fragment}
    (hp : p ∈ kept) : firstKept kept next ≤ p.1 := by
  cases kept with
  | nil => exact absurd hp List.not_mem_nil
  | cons q rest =>
    rcases List.mem_cons.mp hp with rfl | hp
    · exact le_rfl
    · exact ((List.pairwise_cons.mp hsorted).1 p hp).le

/-- It does not go back when fragments are acknowledged. -/
theorem firstKept_le_firstKept (hsorted : kept.Pairwise fun p q => p.1 < q.1)
    (hlt : ∀ p ∈ kept, p.1 < next) (hsub : kept'.Sublist kept) :
    firstKept kept next ≤ firstKept kept' next := by
  cases kept' with
  | nil => exact firstKept_le hlt
  | cons p rest => exact firstKept_le_of_mem hsorted (hsub.subset List.mem_cons_self)

/-! ## Acknowledgements -/

theorem ikcp_shrink_buf_eq (kcp : IKCPCB) :
    kcp.ikcp_shrink_buf =
      { kcp with snd_una := (kcp.snd_buf.head?.map IKCPSEG.sn).getD kcp.snd_nxt } := by
  rw [ikcp_shrink_buf]
  cases kcp.snd_buf <;> rfl

/-- Some segments are taken out of `snd_buf`. -/
theorem Sends.shrink (h : Sends kcp log next kept)
    (hcore : segs.map IKCPSEG.core = kept'.map (pushCore kcp.conv)) (hsub : kept'.Sublist kept) :
    Sends { kcp with snd_buf := segs, nsnd_buf := BitVec.ofNat 32 segs.length }.ikcp_shrink_buf
      log next kept' := by
  have hmem := hsub.subset
  have hbuf : Buffered kcp.conv 0 next kept' segs :=
    ⟨hcore, h.buf.sorted.sublist hsub, fun p hp => h.buf.ge p (hmem hp),
      fun p hp => h.buf.lt p (hmem hp)⟩
  rw [ikcp_shrink_buf_eq]
  refine { h with
    snd_una := ?_
    buf := hbuf
    log := fun p hp => h.log p (hmem hp)
    window := h.window.trans (Nat.add_le_add_right ?_ _)
    nsnd_buf := rfl }
  · -- The first segment has the first count.
    cases segs with
    | nil =>
      have hnil : kept' = [] := List.length_eq_zero_iff.mp hbuf.length_eq.symm
      rw [hnil]
      exact h.snd_nxt
    | cons seg rest =>
      obtain ⟨p, rest', rfl, hseg, -⟩ := hbuf.cons
      exact core_sn hseg
  · exact firstKept_le_firstKept h.buf.sorted h.buf.lt hsub

/-- **The count `una`** takes out the fragments before it. -/
theorem Sends.parse_una (h : Sends kcp log next kept) (una : BitVec 32) :
    Sends (kcp.ikcp_parse_una una).ikcp_shrink_buf log next
      (kept.dropWhile fun p => 0 < _itimediff una (BitVec.ofNat 32 p.1)) := by
  have hcore : (kcp.snd_buf.dropWhile fun seg => 0 < _itimediff una seg.sn).map IKCPSEG.core =
      (kept.dropWhile fun p => 0 < _itimediff una (BitVec.ofNat 32 p.1)).map
        (pushCore kcp.conv) := by
    have hmap := congrArg (List.dropWhile fun c => 0 < _itimediff una c.sn) h.buf.core
    rwa [List.dropWhile_map, List.dropWhile_map] at hmap
  have hcount : kcp.nsnd_buf - BitVec.ofNat 32 (kcp.snd_buf.length -
      (kcp.snd_buf.dropWhile fun seg => 0 < _itimediff una seg.sn).length) =
        BitVec.ofNat 32 (kcp.snd_buf.dropWhile fun seg => 0 < _itimediff una seg.sn).length := by
    have hlen : (kcp.snd_buf.dropWhile fun seg => 0 < _itimediff una seg.sn).length ≤
        kcp.snd_buf.length := (List.dropWhile_sublist _).length_le
    obtain ⟨k, hk⟩ := Nat.exists_eq_add_of_le' hlen
    rw [h.nsnd_buf, hk, Nat.add_sub_cancel]
    exact ofNat_add_sub _ _
  rw [ikcp_parse_una, hcount]
  exact h.shrink hcore (List.dropWhile_sublist _)

/-- The segment that is found. -/
theorem removeSn_eq_some {sn : BitVec 32} (h : removeSn sn segs = some segs') :
    ∃ pre seg post, segs = pre ++ seg :: post ∧ segs' = pre ++ post ∧ seg.sn = sn := by
  induction segs generalizing segs' with
  | nil => cases h
  | cons seg rest ih =>
    rw [removeSn] at h
    split_ifs at h with hsn hlt
    · exact ⟨[], seg, rest, rfl, (Option.some.inj h).symm, hsn.symm⟩
    · obtain ⟨rest', hrest, rfl⟩ := Option.map_eq_some_iff.mp h
      obtain ⟨pre, seg', post, rfl, rfl, hseg⟩ := ih hrest
      exact ⟨seg :: pre, seg', post, rfl, rfl, hseg⟩

/-- **An acknowledged number** is taken out, if it is there. -/
theorem Sends.parse_ack (h : Sends kcp log next kept) (sn : BitVec 32) :
    ∃ kept', kept'.Sublist kept ∧ Sends (kcp.ikcp_parse_ack sn).ikcp_shrink_buf log next kept' ∧
      ∀ p ∈ kept, p ∉ kept' → BitVec.ofNat 32 p.1 = sn := by
  have hself : Sends kcp.ikcp_shrink_buf log next kept := by
    have hshrink := h.shrink h.buf.core (List.Sublist.refl _)
    rwa [← h.nsnd_buf] at hshrink
  rw [ikcp_parse_ack]
  split_ifs with hout
  · exact ⟨kept, List.Sublist.refl _, hself, fun p hp hnot => absurd hp hnot⟩
  · rcases hremove : removeSn sn kcp.snd_buf with _ | segs'
    · exact ⟨kept, List.Sublist.refl _, hself, fun p hp hnot => absurd hp hnot⟩
    · obtain ⟨pre, seg, post, hsegs, rfl, hsn⟩ := removeSn_eq_some hremove
      have hcore := h.buf.core
      rw [hsegs, List.map_append, List.map_cons] at hcore
      obtain ⟨kpre, krest, rfl, hpre, hrest⟩ := List.map_eq_append_iff.mp hcore.symm
      obtain ⟨p, kpost, rfl, hp, hpost⟩ := List.map_eq_cons_iff.mp hrest
      have hsub : (kpre ++ kpost).Sublist (kpre ++ p :: kpost) :=
        List.Sublist.append_left (List.sublist_cons_self _ _) _
      refine ⟨kpre ++ kpost, hsub, ?_, fun q hq hnot => ?_⟩
      · have hcount : kcp.nsnd_buf - 1 = BitVec.ofNat 32 (pre ++ post).length := by
          rw [h.nsnd_buf, hsegs, List.length_append, List.length_cons, ← Nat.add_assoc,
            ofNat_succ_sub_one, List.length_append]
        simp only [hcount]
        apply h.shrink _ hsub
        rw [List.map_append, List.map_append, hpre, hpost]
      · rcases List.mem_append.mp hq with hq | hq
        · exact absurd (List.mem_append_left _ hq) hnot
        · rcases List.mem_cons.mp hq with rfl | hq
          · exact (core_sn hp.symm).symm.trans hsn
          · exact absurd (List.mem_append_right _ hq) hnot

theorem map_core_passFastack (sn : BitVec 32) (segs : List IKCPSEG) :
    (passFastack sn segs).map IKCPSEG.core = segs.map IKCPSEG.core := by
  induction segs with
  | nil => rfl
  | cons seg rest ih =>
    rw [passFastack]
    split_ifs
    · rfl
    · rw [List.map_cons, ih]
      rfl
    · rw [List.map_cons, ih]
      rfl

/-- Segments of `snd_buf` are sent again, or passed by an acknowledgement. -/
theorem Sends.of_core (h : Sends kcp log next kept)
    (hcore : segs.map IKCPSEG.core = kcp.snd_buf.map IKCPSEG.core) :
    Sends { kcp with snd_buf := segs } log next kept := by
  have hlen := congrArg List.length hcore
  rw [List.length_map, List.length_map] at hlen
  exact { h with buf := h.buf.of_core hcore, nsnd_buf := h.nsnd_buf.trans (by rw [hlen]) }

/-! ## Getting a count -/

/-- The fragments with the next counts. -/
def counted : ℕ → List Fragment → List (ℕ × Fragment)
  | _, [] => []
  | next, x :: xs => (next, x) :: counted (next + 1) xs

theorem le_of_mem_counted {p : ℕ × Fragment} {xs : List Fragment} (h : p ∈ counted next xs) :
    next ≤ p.1 := by
  induction xs generalizing next with
  | nil => exact absurd h List.not_mem_nil
  | cons x xs ih =>
    rcases List.mem_cons.mp h with rfl | h
    · exact le_rfl
    · exact (Nat.le_succ next).trans (ih h)

/-- A fragment that has got a count was waiting. -/
theorem Sends.mem_drop (h : Sends kcp log next kept) {p : ℕ × Fragment} (hp : p ∈ kept)
    (hge : n ≤ p.1) : p.2 ∈ log.drop n := by
  have hlog := h.log p hp
  obtain ⟨i, hi⟩ := Nat.exists_eq_add_of_le hge
  rw [hi, ← List.getElem?_drop] at hlog
  exact List.mem_of_getElem? hlog

theorem firstKept_concat (kept : List (ℕ × Fragment)) (next : ℕ) (x : Fragment) :
    firstKept (kept ++ [(next, x)]) (next + 1) = firstKept kept next := by
  cases kept <;> rfl

/-- The first fragment that waits gets the next count. -/
theorem Sends.number_one {wnd : BitVec 32} {newseg : IKCPSEG}
    (h : Sends { kcp with snd_queue := newseg :: segs } log next kept)
    (hwnd : next < firstKept kept next + 65535) :
    Sends { kcp with
      snd_queue := segs
      snd_buf := kcp.snd_buf ++ [kcp.numbered wnd newseg]
      nsnd_que := kcp.nsnd_que - 1
      nsnd_buf := kcp.nsnd_buf + 1
      snd_nxt := kcp.snd_nxt + 1 } log (next + 1) (kept ++ [(next, newseg.fragment)]) := by
  have hlt : next < log.length := by
    have hlen := congrArg List.length h.queue
    simp only [List.length_map, List.length_cons, List.length_drop] at hlen
    omega
  have hqueue := h.queue
  rw [List.drop_eq_getElem_cons hlt] at hqueue
  obtain ⟨hx, hrest⟩ := List.cons.inj hqueue
  have hcore : (kcp.numbered wnd newseg).core = pushCore kcp.conv (next, newseg.fragment) := by
    simp only [numbered, IKCPSEG.core, pushCore, Core.mk.injEq, true_and]
    exact ⟨h.snd_nxt, rfl⟩
  constructor
  · exact hrest
  · exact hlt
  · rw [h.snd_nxt, ofNat_add_one]
  · rw [firstKept_concat]
    exact h.snd_una
  · exact h.buf.snoc hcore (Nat.zero_le _) (Nat.lt_succ_self _)
  · intro p hp
    rcases List.mem_append.mp hp with hp | hp
    · exact h.log p hp
    · rw [List.mem_singleton.mp hp, List.getElem?_eq_getElem hlt, hx]
  · rw [firstKept_concat]
    exact hwnd
  · exact h.rmt_wnd
  · have hcount := h.nsnd_que
    rw [List.length_cons] at hcount
    exact (congrArg (· - 1) hcount).trans (ofNat_succ_sub_one _)
  · rw [List.length_append, List.length_singleton, ← ofNat_add_one, ← h.nsnd_buf]

/-- **The fragments that wait** get the next counts, as far as the window allows. -/
theorem Sends.moveToSndBuf {cwnd : BitVec 32} (wnd : BitVec 32) (kcp : IKCPCB)
    (h : Sends { kcp with snd_queue := segs } log next kept) (hcwnd : cwnd.toNat ≤ 65535) :
    ∃ xs, Sends (moveToSndBuf cwnd wnd kcp segs) log (next + xs.length)
        (kept ++ counted next xs) ∧
      (next + xs.length = log.length ∨ firstKept kept next + cwnd.toNat ≤ next + xs.length) := by
  induction segs generalizing kcp next kept with
  | nil =>
    refine ⟨[], ?_, .inl ?_⟩
    · rw [counted, List.append_nil]
      exact h
    · have hlen := congrArg List.length h.queue
      simp only [List.map_nil, List.length_nil, List.length_drop] at hlen
      exact le_antisymm h.next_le (Nat.le_of_sub_eq_zero hlen.symm)
  | cons newseg rest ih =>
    have hfirst := firstKept_le h.buf.lt
    have hwindow := h.window
    have hend : kcp.snd_una + cwnd = BitVec.ofNat 32 (firstKept kept next + cwnd.toNat) := by
      rw [BitVec.ofNat_add, ofNat_toNat_self]
      exact congrArg (· + cwnd) h.snd_una
    have hdiff : _itimediff kcp.snd_nxt (kcp.snd_una + cwnd) =
        (next : ℤ) - (firstKept kept next + cwnd.toNat : ℕ) := by
      rw [hend, show kcp.snd_nxt = BitVec.ofNat 32 next from h.snd_nxt]
      apply itimediff_ofNat <;> omega
    rw [IKCPCB.moveToSndBuf, hdiff]
    split_ifs with hlt
    · obtain ⟨xs, hs, hstop⟩ := ih { kcp with
        snd_buf := kcp.snd_buf ++ [kcp.numbered wnd newseg]
        nsnd_que := kcp.nsnd_que - 1
        nsnd_buf := kcp.nsnd_buf + 1
        snd_nxt := kcp.snd_nxt + 1 } (h.number_one (by omega))
      have hlen : next + (newseg.fragment :: xs).length = next + 1 + xs.length := by
        rw [List.length_cons]
        omega
      rw [List.append_assoc] at hs
      rw [firstKept_concat] at hstop
      exact ⟨newseg.fragment :: xs, hlen ▸ hs, hlen ▸ hstop⟩
    · refine ⟨[], ?_, .inr ?_⟩
      · rw [counted, List.append_nil]
        exact h
      · rw [List.length_nil]
        omega

theorem Sends.moveToSndBuf_snd_queue {cwnd : BitVec 32} (h : Sends kcp log next kept)
    (wnd : BitVec 32) (hcwnd : cwnd.toNat ≤ 65535) :
    ∃ xs, Sends (IKCPCB.moveToSndBuf cwnd wnd kcp kcp.snd_queue) log (next + xs.length)
        (kept ++ counted next xs) ∧
      (next + xs.length = log.length ∨ firstKept kept next + cwnd.toNat ≤ next + xs.length) :=
  Sends.moveToSndBuf wnd kcp h hcwnd

/-- What `moveToSndBuf` changes. -/
theorem exists_moveToSndBuf_eq (cwnd wnd : BitVec 32) (kcp : IKCPCB) (segs : List IKCPSEG) :
    ∃ snd_queue snd_buf nsnd_que nsnd_buf snd_nxt, moveToSndBuf cwnd wnd kcp segs = { kcp with
      snd_queue := snd_queue
      snd_buf := snd_buf
      nsnd_que := nsnd_que
      nsnd_buf := nsnd_buf
      snd_nxt := snd_nxt } := by
  induction segs generalizing kcp with
  | nil => exact ⟨_, _, _, _, _, rfl⟩
  | cons newseg rest ih =>
    rw [IKCPCB.moveToSndBuf]
    split_ifs
    · obtain ⟨_, _, _, _, _, heq⟩ := ih { kcp with
        snd_buf := kcp.snd_buf ++ [kcp.numbered wnd newseg]
        nsnd_que := kcp.nsnd_que - 1
        nsnd_buf := kcp.nsnd_buf + 1
        snd_nxt := kcp.snd_nxt + 1 }
      exact ⟨_, _, _, _, _, heq⟩
    · exact ⟨_, _, _, _, _, rfl⟩

/-! ## Sending a message -/

/-- Other segments wait. -/
theorem Sends.setQueue (h : Sends kcp log next kept) (segs : List IKCPSEG) :
    Sends { kcp with snd_queue := segs, nsnd_que := BitVec.ofNat 32 segs.length }
      (log.take next ++ segs.map IKCPSEG.fragment) next kept := by
  have hlen : (log.take next).length = next := by
    rw [List.length_take, Nat.min_eq_left h.next_le]
  refine { h with
    queue := (List.drop_left' hlen).symm
    next_le := ?_
    log := fun p hp => ?_
    nsnd_que := rfl }
  · rw [List.length_append, hlen]
    exact Nat.le_add_right _ _
  · have hlt := h.buf.lt p hp
    rw [List.getElem?_append_left (by rw [hlen]; exact hlt), List.getElem?_take_of_lt hlt]
    exact h.log p hp

/-- More segments wait. -/
theorem Sends.append (h : Sends kcp log next kept) (segs : List IKCPSEG) :
    Sends { kcp with
      snd_queue := kcp.snd_queue ++ segs
      nsnd_que := kcp.nsnd_que + BitVec.ofNat 32 segs.length }
      (log ++ segs.map IKCPSEG.fragment) next kept := by
  have hset := h.setQueue (kcp.snd_queue ++ segs)
  rw [List.map_append, h.queue, ← List.append_assoc, List.take_append_drop, List.length_append,
    BitVec.ofNat_add, ← h.nsnd_que] at hset
  exact hset

/-- What `ikcp_send` does with a message, without streaming: it is refused, or cut and queued. -/
inductive Sent (kcp : IKCPCB) (log : List Fragment) (next : ℕ) (kept : List (ℕ × Fragment))
    (message : List UInt8) : IKCPCB × ℤ → Prop
  | refused (h : 127 * kcp.mss.toNat < message.length) :
      Sent kcp log next kept message (kcp, -2)
  | queued (segs : List IKCPSEG) (hcut : Cut message (segs.map IKCPSEG.fragment))
      (hlen : ∀ seg ∈ segs, seg.data.length ≤ kcp.mss.toNat)
      (h : Sends { kcp with
        snd_queue := kcp.snd_queue ++ segs
        nsnd_que := kcp.nsnd_que + BitVec.ofNat 32 segs.length }
        (log ++ segs.map IKCPSEG.fragment) next kept) :
      Sent kcp log next kept message ({ kcp with
        snd_queue := kcp.snd_queue ++ segs
        nsnd_que := kcp.nsnd_que + BitVec.ofNat 32 segs.length }, 0)

/-- A message needs at most 127 segments, or it is refused. -/
theorem sendRest_eq (hmss : 0 < kcp.mss.toNat) (message : List UInt8) :
    (127 * kcp.mss.toNat < message.length ∧ kcp.sendRest message = (kcp, -2)) ∨
      ∃ count, 0 < count ∧ count < 128 ∧ message.length ≤ count * kcp.mss.toNat ∧
        kcp.sendRest message = ({ kcp with
          snd_queue := kcp.snd_queue ++ fragment kcp.stream kcp.mss.toNat count message
          nsnd_que := kcp.nsnd_que + BitVec.ofNat 32 count }, 0) := by
  rw [sendRest, show IKCP_WND_RCV.toNat = 128 from rfl]
  by_cases hone : message.length ≤ kcp.mss.toNat
  · right
    rw [if_pos hone, if_neg (by decide)]
    exact ⟨1, Nat.one_pos, by decide, by rwa [Nat.one_mul], rfl⟩
  · rw [if_neg hone]
    have hceil := Nat.lt_div_mul_add hmss (a := message.length + kcp.mss.toNat - 1)
    split_ifs with hcount
    · left
      have hmul := (Nat.le_div_iff_mul_le hmss).mp hcount
      exact ⟨by omega, rfl⟩
    · right
      refine ⟨_, Nat.div_pos (by omega) hmss, not_le.mp hcount, by omega, rfl⟩

/-- **A message is sent**, without streaming. -/
theorem Sends.send (h : Sends kcp log next kept) (hstream : kcp.stream = 0)
    (hmss : 0 < kcp.mss.toNat) (message : List UInt8) :
    ∃ result, kcp.ikcp_send message = .ok result ∧ Sent kcp log next kept message result := by
  have hne : kcp.mss ≠ 0 := fun hzero => by
    rw [hzero] at hmss
    exact absurd hmss (by decide)
  rw [ikcp_send, if_neg hne, if_neg (not_not.mpr hstream)]
  refine ⟨_, rfl, ?_⟩
  rcases sendRest_eq hmss message with ⟨hlen, heq⟩ | ⟨count, hpos, hlt, hlen, heq⟩
  · rw [heq]
    exact .refused hlen
  · have hcount : BitVec.ofNat 32 count =
        BitVec.ofNat 32 (fragment kcp.stream kcp.mss.toNat count message).length := by
      rw [length_fragment]
    rw [heq, hcount]
    refine .queued _ ⟨?_, ?_, ?_, ?_⟩ (fun seg => length_le_of_mem_fragment) (h.append _)
    · rw [Ne, List.map_eq_nil_iff, ← List.length_eq_zero_iff, length_fragment]
      exact hpos.ne'
    · rw [List.length_map, length_fragment]
      exact hlt
    · rw [hstream]
      exact countDown_fragment _ _ _
    · rw [List.flatMap_map]
      exact flatMap_fragment hlen

end CodingDemo.Kcp
