import CodingDemo.Kcp.Ikcp.Answer
import CodingDemo.Kcp.Ikcp.Flush
import CodingDemo.Protocol.Arq

/-!
# KCP as a selective repeat protocol

A control block is the sender of one direction of a connection and the receiver of the other. Each
of its functions makes steps of the selective repeat protocols of both directions, as long as the
counts are less than half of the range of their numbers.

## Main definitions

* `Stands`: a control block is the sender of `out` and the receiver of `inn`
* `Carries`: a segment holds what has been sent in both protocols
* `Bounded`: the numbers of a protocol do not wrap around

## Main results

* `Stands.inputSegments`, `Stands.recv`, `Stands.send`, `Stands.flush`: the functions make steps of
  the protocols
-/

namespace CodingDemo.Kcp

open IKCPCB

/-- The control block is the sender of `out` and the receiver of `inn`, and the fragments `done`
have been handed over. -/
structure Stands (kcp : IKCPCB) (out inn : Arq Fragment) (done : List Fragment) : Prop where
  sends : ∃ kept, Sends kcp out.log out.next kept ∧ out.unacked = {n | ∃ x, (n, x) ∈ kept}
  receives : ∃ held, Receives kcp inn.base held ∧ inn.held = {p | p ∈ held}
  queue : inn.log.take inn.base = done ++ kcp.rcv_queue.map IKCPSEG.fragment
  stop : kcp.rcv_queue.length < 128 → ∀ p ∈ inn.held, p.1 ≠ inn.base
  acks : ∀ ack ∈ kcp.acklist, ∃ n, ack.1 = BitVec.ofNat 32 n ∧ inn.Arrived n

/-- The numbers do not wrap around, and the fragments have room in a segment. -/
structure Bounded (a : Arq Fragment) : Prop where
  safe : a.Safe
  length_lt : a.log.length < 2 ^ 31
  fragments : ∀ x ∈ a.log, x.frg.toNat < 256 ∧ IKCP_OVERHEAD + x.data.length < 2 ^ 31

/-- The segment holds what the sender of `out`, which is the receiver of `inn`, has sent. -/
structure Carries (conv : BitVec 32) (out inn : Arq Fragment) (seg : IKCPSEG) : Prop where
  valid : Valid conv seg
  una : ∃ c ∈ inn.counts, seg.una = BitVec.ofNat 32 c
  push : seg.cmd = IKCP_CMD_PUSH → ∃ p ∈ out.data, seg.core = pushCore conv p
  ack : seg.cmd = IKCP_CMD_ACK → ∃ n ∈ inn.acks, seg.sn = BitVec.ofNat 32 n

/-- The fragments within the window arrive, and are answered if they are not far behind it. -/
def Arrives (kcp kcp' : IKCPCB) (inn inn' : Arq Fragment) (segs : List IKCPSEG) : Prop :=
  ∀ seg ∈ segs, ∀ n, Brings seg n → n < inn.base + kcp.rcv_wnd.toNat →
    inn'.Arrived n ∧ (inn.next + kcp.rcv_wnd.toNat < n + 2 ^ 31 → Answers kcp')

variable {kcp kcp' : IKCPCB} {out inn : Arq Fragment} {done : List Fragment} {hdr : Header}
  {conv : BitVec 32} {n : ℕ} {x : Fragment} {data : List UInt8} {maxack : MaxAck}
  {seg : IKCPSEG} {segs : List IKCPSEG}

theorem Carries.mono {out' inn' : Arq Fragment} (h : Carries conv out inn seg)
    (hout : out.Le out') (hinn : inn.Le inn') : Carries conv out' inn' seg where
  valid := h.valid
  una := h.una.imp fun _ h => ⟨hinn.counts h.1, h.2⟩
  push hcmd := (h.push hcmd).imp fun _ h => ⟨hout.data h.1, h.2⟩
  ack hcmd := (h.ack hcmd).imp fun _ h => ⟨hinn.acks h.1, h.2⟩

theorem Bounded.next_lt (h : Bounded inn) : inn.next < 2 ^ 31 := h.safe.next_le.trans_lt h.length_lt

theorem Bounded.base_lt (h : Bounded inn) : inn.base < 2 ^ 31 :=
  h.safe.base_le.trans_lt h.next_lt

theorem Bounded.lt_of_arrived (h : Bounded inn) (hn : inn.Arrived n) : n < 2 ^ 31 := by
  rcases hn with hn | ⟨x, hx⟩
  · exact hn.trans h.base_lt
  · exact (h.safe.held (n, x) hx).1.trans h.next_lt

theorem Bounded.steps (h : Bounded inn) {inn' : Arq Fragment} (hs : Arq.Steps inn inn')
    (hlog : inn'.log = inn.log) : Bounded inn' where
  safe := h.safe.steps hs
  length_lt := hlog ▸ h.length_lt
  fragments := hlog ▸ h.fragments

/-! ## Acknowledgements -/

/-- The sender keeps less. -/
theorem Stands.drop (h : Stands kcp out inn done) (hreceiver : receiver kcp' = receiver kcp)
    (hacklist : kcp'.acklist = kcp.acklist) {kept' : List (ℕ × Fragment)}
    (hs : Sends kcp' out.log out.next kept') :
    Stands kcp' { out with unacked := {n | ∃ x, (n, x) ∈ kept'} } inn done := by
  obtain ⟨held, hr, hheld⟩ := h.receives
  have hqueue : kcp'.rcv_queue = kcp.rcv_queue := congrArg (fun r => r.2.2.2.1) hreceiver
  refine ⟨⟨kept', hs, rfl⟩, ⟨held, hr.of_receiver_eq hreceiver, hheld⟩, ?_, ?_, ?_⟩
  · rw [hqueue]
    exact h.queue
  · rw [hqueue]
    exact h.stop
  · rw [hacklist]
    exact h.acks

/-- **A count** that the receiver has sent drops the fragments before it. -/
theorem Stands.inputUna (h : Stands kcp out inn done) (hb : Bounded out) {c : ℕ}
    (hc : c ∈ out.counts) (huna : hdr.una = BitVec.ofNat 32 c) :
    ∃ u, Arq.Step out { out with unacked := u } ∧
      Stands (kcp.inputUna hdr) { out with unacked := u } inn done := by
  obtain ⟨kept, hs, hkept⟩ := h.sends
  have hs' := hs.inputUna hdr
  obtain ⟨hreceiver, hacklist⟩ := receiver_inputUna kcp hdr
  have hstands := h.drop hreceiver hacklist hs'
  have hnext := hb.next_lt
  have hcount := (hb.safe.counts c hc).trans hb.safe.base_le
  refine ⟨_, .drop _ ?_ ?_, hstands⟩
  · rw [hkept]
    rintro n ⟨x, hx⟩
    exact ⟨x, (List.dropWhile_sublist _).subset hx⟩
  · -- What has been dropped lies before the count.
    rw [hkept]
    rintro n ⟨x, hx⟩ hnot
    have htake : (n, x) ∈ kept.takeWhile fun p =>
        0 < _itimediff hdr.una (BitVec.ofNat 32 p.1) := by
      have happend := List.takeWhile_append_dropWhile (l := kept)
        (p := fun p => decide (0 < _itimediff hdr.una (BitVec.ofNat 32 p.1)))
      rw [← happend] at hx
      exact (List.mem_append.mp hx).resolve_right fun hdrop => hnot ⟨x, hdrop⟩
    have hlt := hs.buf.lt (n, x) hx
    have hdiff := List.mem_takeWhile_imp htake
    simp only [decide_eq_true_eq, huna] at hdiff hlt
    rw [itimediff_ofNat (by omega) (by omega)] at hdiff
    exact .inr ⟨c, hc, by omega⟩

/-- **A number** that the receiver has acknowledged is dropped. -/
theorem Stands.inputAck (h : Stands kcp out inn done) (hb : Bounded out) (hn : n ∈ out.acks)
    (hsn : hdr.sn = BitVec.ofNat 32 n) :
    ∃ u, Arq.Step out { out with unacked := u } ∧
      Stands (kcp.inputAck hdr) { out with unacked := u } inn done := by
  obtain ⟨kept, hs, hkept⟩ := h.sends
  obtain ⟨kept', hsub, hs', hdropped⟩ := hs.inputAck hdr
  obtain ⟨hreceiver, hacklist⟩ := receiver_inputAck kcp hdr
  have hnext := hb.next_lt
  have hlt := hb.lt_of_arrived (hb.safe.acks n hn)
  have hstands := h.drop hreceiver hacklist hs'
  refine ⟨_, .drop _ ?_ ?_, hstands⟩
  · rw [hkept]
    rintro m ⟨x, hx⟩
    exact ⟨x, hsub.subset hx⟩
  · rw [hkept]
    rintro m ⟨x, hx⟩ hnot
    have hm := hs.buf.lt (m, x) hx
    have heq : m = n := by
      apply eq_of_ofNat_eq (by omega) (by simp only at hm; omega)
      exact (hdropped (m, x) hx fun hx' => hnot ⟨x, hx'⟩).trans hsn
    exact .inl (heq ▸ hn)

/-! ## Fragments -/

/-- The fragments with the next counts are the next ones. -/
theorem take_drop_of_counts {log : List Fragment} {base : ℕ} {moved : List (ℕ × Fragment)}
    (hcounts : moved.map Prod.fst = List.range' base moved.length)
    (hmem : ∀ p ∈ moved, log[p.1]? = some p.2) :
    (log.drop base).take moved.length = moved.map Prod.snd := by
  induction moved generalizing base with
  | nil => rfl
  | cons p moved ih =>
    rw [List.map_cons, List.length_cons, List.range'_succ] at hcounts
    obtain ⟨hp, hrest⟩ := List.cons.inj hcounts
    obtain ⟨hmem₁, hmem'⟩ := List.forall_mem_cons.mp hmem
    rw [hp] at hmem₁
    obtain ⟨hlt, hx⟩ := List.getElem?_eq_some_iff.mp hmem₁
    rw [List.drop_eq_getElem_cons hlt, List.length_cons, List.take_succ_cons, ih hrest hmem',
      List.map_cons, hx]

/-- **The receiver** goes on over what has moved to `rcv_queue`. -/
theorem stands_of_moved {kcp₁ : IKCPCB} {moved held : List (ℕ × Fragment)} (hsafe : inn.Safe)
    (hsends : ∃ kept, Sends kcp₁ out.log out.next kept ∧ out.unacked = {n | ∃ x, (n, x) ∈ kept})
    (hqueue : inn.log.take inn.base = done ++ kcp₁.rcv_queue.map IKCPSEG.fragment)
    (hacks : ∀ ack ∈ kcp₁.acklist, ∃ n, ack.1 = BitVec.ofNat 32 n ∧ inn.Arrived n)
    (hwnd : 128 ≤ kcp₁.rcv_wnd.toNat) (hheld : inn.held = {p | p ∈ moved ++ held})
    (hmoved : Moved kcp₁ kcp' inn.base moved held) :
    ∃ base' held', Arq.Steps inn { inn with base := base', held := held' } ∧
      Stands kcp' out { inn with base := base', held := held' } done := by
  have hsteps : Arq.Steps inn
      { inn with base := inn.base + moved.length, held := {p | p ∈ held} } := by
    refine Arq.steps_advance inn moved {p | p ∈ held} hmoved.counts ?_ fun p hp =>
      hmoved.receives.buf.ge p hp
    rw [hheld]
    ext p
    simp only [Set.mem_ofPred_eq, Set.mem_union, List.mem_append]
    exact or_comm
  have hlog : ∀ p ∈ moved, inn.log[p.1]? = some p.2 := fun p hp =>
    (hsafe.held p (hheld ▸ List.mem_append_left _ hp)).2
  have hacklist : kcp'.acklist = kcp₁.acklist := by
    obtain ⟨_, _, _, _, _, _, heq⟩ := hmoved.same
    rw [heq]
  refine ⟨_, _, hsteps, ?_, ⟨held, hmoved.receives, rfl⟩, ?_, ?_, ?_⟩
  · obtain ⟨kept, hs, hkept⟩ := hsends
    exact ⟨kept, hs.of_sameSender hmoved.same, hkept⟩
  · rw [List.take_add, hqueue, take_drop_of_counts hmoved.counts hlog, hmoved.queue,
      List.append_assoc]
  · intro hlt p hp
    exact hmoved.stop (hlt.trans_le hwnd) p hp
  · rw [hacklist]
    intro ack hack
    obtain ⟨n, hn, harrived⟩ := hacks ack hack
    exact ⟨n, hn, hsteps.arrived harrived⟩

/-- **A fragment** that the sender has sent is kept and acknowledged, or refused. -/
theorem Stands.inputPush (h : Stands kcp out inn done) (hb : Bounded inn)
    (hconv : hdr.conv = kcp.conv) (hcmd : hdr.cmd.setWidth 32 = IKCP_CMD_PUSH)
    (hn : (n, x) ∈ inn.data) (hsn : hdr.sn = BitVec.ofNat 32 n)
    (hx : ⟨hdr.frg.setWidth 32, data⟩ = x) :
    ∃ base held, Arq.Steps inn { inn with base := base, held := held } ∧
      Stands (kcp.inputPush hdr data) out { inn with base := base, held := held } done ∧
      (n < inn.base + kcp.rcv_wnd.toNat →
        Arq.Arrived { inn with base := base, held := held } n) := by
  obtain ⟨held, hr, hheld⟩ := h.receives
  have hlt := (hb.safe.data (n, x) hn).1.trans hb.next_lt
  have hbase := hb.base_lt
  have hpushed := hr.inputPush hconv hcmd data
  generalize kcp.inputPush hdr data = kcp' at hpushed
  simp only at hlt
  -- The number is acknowledged as soon as the fragment has arrived.
  have hacks : ∀ inn' : Arq Fragment, (∀ m, inn.Arrived m → inn'.Arrived m) → inn'.Arrived n →
      ∀ ack ∈ (kcp.ikcp_ack_push hdr.sn hdr.ts).acklist,
        ∃ m, ack.1 = BitVec.ofNat 32 m ∧ inn'.Arrived m := by
    intro inn' hmono harrived ack hack
    rcases List.mem_append.mp hack with hold | hnew
    · obtain ⟨m, hm, harr⟩ := h.acks ack hold
      exact ⟨m, hm, hmono m harr⟩
    · rw [List.mem_singleton.mp hnew]
      exact ⟨n, hsn, harrived⟩
  cases hpushed with
  | outside hout =>
    refine ⟨inn.base, inn.held, Relation.ReflTransGen.refl, h, fun hin => ?_⟩
    -- Outside of the window are only fragments that have been handed over.
    by_contra hmissing
    have hge : ¬ n < inn.base := fun hlt => hmissing (.inl hlt)
    have hwnd := hr.wnd_lt
    rw [hsn, hr.rcv_nxt_add_rcv_wnd, itimediff_ofNat (by omega) (by omega)] at hout
    omega
  | old hold =>
    rw [hsn, hr.rcv_nxt, itimediff_ofNat (by omega) (by omega)] at hold
    have harrived : inn.Arrived n := .inl (by omega)
    refine ⟨inn.base, inn.held, Relation.ReflTransGen.refl, ⟨?_, ⟨held, { hr with }, hheld⟩,
      h.queue, h.stop, hacks inn (fun _ h => h) harrived⟩, fun _ => harrived⟩
    exact h.sends.imp fun _ hs => ⟨{ hs.1 with }, hs.2⟩
  | new kcp' m moved held' hm hge hlt' hnew hmoved =>
    have hwnd := hr.wnd_lt
    have hmn : m = n := by
      have heq := congrArg BitVec.toNat (hm.symm.trans hsn)
      rwa [toNat_ofNat_of_lt (by omega), toNat_ofNat_of_lt (by omega)] at heq
    subst hmn
    have hsends : ∃ kept, Sends (kcp.ikcp_ack_push hdr.sn hdr.ts) out.log out.next kept ∧
        out.unacked = {n | ∃ x, (n, x) ∈ kept} := h.sends.imp fun _ hs => ⟨{ hs.1 with }, hs.2⟩
    rcases hnew with ⟨⟨y, hy⟩, hsame⟩ | ⟨-, hmem⟩
    · -- The fragment is there already.
      have harrived : inn.Arrived m := .inr ⟨y, hheld ▸ hy⟩
      obtain ⟨base', held₂, hsteps, hstands⟩ := stands_of_moved hb.safe hsends h.queue
        (hacks inn (fun _ h => h) harrived) hr.wnd_ge (by rw [hsame, hheld]) hmoved
      exact ⟨base', held₂, hsteps, hstands, fun _ => hsteps.arrived harrived⟩
    · have hstep : Arq.Step inn { inn with held := insert (m, x) inn.held } := .receive m x hn
      have harrived : Arq.Arrived { inn with held := insert (m, x) inn.held } m :=
        .inr ⟨x, Set.mem_insert _ _⟩
      have hset : insert (m, x) inn.held = {p | p ∈ moved ++ held'} := by
        rw [hheld]
        ext p
        rw [Set.mem_insert_iff, Set.mem_ofPred_eq, Set.mem_ofPred_eq, hmem, hx]
      obtain ⟨base', held₂, hsteps, hstands⟩ := stands_of_moved (hb.safe.step hstep) hsends h.queue
        (hacks _ (fun _ => hstep.arrived) harrived) hr.wnd_ge hset hmoved
      exact ⟨base', held₂, Relation.ReflTransGen.head hstep hsteps, hstands,
        fun _ => hsteps.arrived harrived⟩

/-! ## Datagrams -/

theorem setWidth_frg {frg : BitVec 32} (h : frg.toNat < 256) :
    (frg.setWidth 8).setWidth 32 = frg := by
  apply BitVec.eq_of_toNat_eq
  rw [BitVec.toNat_setWidth, BitVec.toNat_setWidth]
  omega

/-- **A segment** of the other end makes steps of both protocols. A fragment within the window
arrives. -/
theorem Stands.inputSegment (h : Stands kcp out inn done) (hout : Bounded out) (hinn : Bounded inn)
    (hseg : Carries kcp.conv inn out seg) (maxack : MaxAck) :
    ∃ u base held, Arq.Steps out { out with unacked := u } ∧
      Arq.Steps inn { inn with base := base, held := held } ∧
      Stands (kcp.inputSegment maxack seg.header seg.data).1 { out with unacked := u }
        { inn with base := base, held := held } done ∧
      ∀ n, Brings seg n → n < inn.base + kcp.rcv_wnd.toNat →
        Arq.Arrived { inn with base := base, held := held } n := by
  obtain ⟨c, hc, huna⟩ := hseg.una
  obtain ⟨u, hstep, hstands⟩ :=
    h.inputUna hout hc (show seg.header.una = BitVec.ofNat 32 c from huna)
  have hcmd : seg.header.cmd.setWidth 32 = seg.cmd := setWidth_cmd hseg.valid.cmd
  obtain ⟨_, _, _, heq⟩ := inputUna_eq kcp seg.header
  have hconv : seg.header.conv = (kcp.inputUna seg.header).conv := by
    rw [heq]
    exact hseg.valid.conv
  have hwnd : (kcp.inputUna seg.header).rcv_wnd = kcp.rcv_wnd := by rw [heq]
  have hout' : Bounded { out with unacked := u } :=
    hout.steps (Relation.ReflTransGen.single hstep) rfl
  rw [IKCPCB.inputSegment]
  simp only [hcmd]
  by_cases hack : seg.cmd = IKCP_CMD_ACK
  · rw [if_pos hack]
    obtain ⟨n, hn, hsn⟩ := hseg.ack hack
    obtain ⟨u', hstep', hstands'⟩ :=
      hstands.inputAck hout' hn (show seg.header.sn = BitVec.ofNat 32 n from hsn)
    exact ⟨u', inn.base, inn.held,
      (Relation.ReflTransGen.single hstep).tail hstep', Relation.ReflTransGen.refl, hstands',
      fun n hn => absurd (hack.symm.trans hn.cmd) (by decide)⟩
  rw [if_neg hack]
  by_cases hpush : seg.cmd = IKCP_CMD_PUSH
  · rw [if_pos hpush]
    obtain ⟨⟨n, x⟩, hn, hcore⟩ := hseg.push hpush
    have hlog := (hinn.safe.data (n, x) hn).2
    have hfrg := (hinn.fragments x (List.mem_of_getElem? hlog)).1
    have hx : seg.fragment = x := core_fragment hcore
    have hx' : (⟨seg.header.frg.setWidth 32, seg.data⟩ : Fragment) = x := by
      rw [← hx] at hfrg ⊢
      rw [show seg.header.frg.setWidth 32 = seg.frg from setWidth_frg hfrg]
      rfl
    obtain ⟨base, held, hsteps, hstands', harrived⟩ :=
      hstands.inputPush hinn hconv (hcmd.trans hpush) hn (core_sn hcore) hx'
    refine ⟨u, base, held, Relation.ReflTransGen.single hstep, hsteps, hstands', fun m hm hlt => ?_⟩
    have hnlt := (hinn.safe.data (n, x) hn).1.trans hinn.next_lt
    have hmlt := hm.lt
    have hmn : m = n := by
      apply eq_of_ofNat_eq (by simp only at hnlt; omega) (by simp only at hnlt; omega)
      exact hm.sn.symm.trans (core_sn hcore)
    rw [hmn] at hlt ⊢
    exact harrived (hwnd ▸ hlt)
  rw [if_neg hpush]
  refine ⟨u, inn.base, inn.held, Relation.ReflTransGen.single hstep, Relation.ReflTransGen.refl, ?_,
    fun n hn => absurd hn.cmd hpush⟩
  split_ifs
  · obtain ⟨hs, hr, hqueue, hstop, hacks⟩ := hstands
    exact ⟨hs.imp fun _ h => ⟨{ h.1 with }, h.2⟩, hr.imp fun _ h => ⟨{ h.1 with }, h.2⟩, hqueue,
      hstop, hacks⟩
  · exact hstands

/-- **The segments of a datagram**, one after the other. The fragments within the window arrive. -/
theorem Stands.inputSegments (h : Stands kcp out inn done) (hout : Bounded out)
    (hinn : Bounded inn) (hsegs : ∀ seg ∈ segs, Carries kcp.conv inn out seg) (maxack : MaxAck) :
    ∃ u base held, Arq.Steps out { out with unacked := u } ∧
      Arq.Steps inn { inn with base := base, held := held } ∧
      Stands (inputSegments kcp maxack segs).1 { out with unacked := u }
        { inn with base := base, held := held } done ∧
      Arrives kcp (inputSegments kcp maxack segs).1 inn { inn with base := base, held := held }
        segs := by
  induction segs generalizing kcp out inn maxack with
  | nil =>
    exact ⟨out.unacked, inn.base, inn.held, Relation.ReflTransGen.refl,
      Relation.ReflTransGen.refl, h, fun seg hseg => absurd hseg List.not_mem_nil⟩
  | cons seg rest ih =>
    obtain ⟨hseg, hrest⟩ := List.forall_mem_cons.mp hsegs
    obtain ⟨u, base, held, hsteps, hsteps', hstands, harrived⟩ :=
      h.inputSegment hout hinn hseg maxack
    have hcarries : ∀ s ∈ rest, Carries (kcp.inputSegment maxack seg.header seg.data).1.conv
        { inn with base := base, held := held } { out with unacked := u } s := by
      intro s hs
      rw [conv_inputSegment]
      exact (hrest s hs).mono hsteps'.le hsteps.le
    obtain ⟨u', base', held', hs, hs', hstands', harrived'⟩ := ih hstands (hout.steps hsteps rfl)
      (hinn.steps hsteps' rfl) hcarries (kcp.inputSegment maxack seg.header seg.data).2
    have hwnd : (kcp.inputSegment maxack seg.header seg.data).1.rcv_wnd = kcp.rcv_wnd :=
      congrArg (fun s => s.2.2.2.2.1) (settings_inputSegment kcp maxack _ _)
    rw [Arrives, hwnd] at harrived'
    refine ⟨u', base', held', hsteps.trans hs, hsteps'.trans hs', hstands',
      List.forall_mem_cons.mpr ⟨fun n hn hlt => ⟨hs'.arrived (harrived n hn hlt), fun hnear => ?_⟩,
        fun s hs n hn hlt => harrived' s hs n hn ?_⟩⟩
    · obtain ⟨held₀, hr, -⟩ := h.receives
      have hbase := hinn.safe.base_le
      exact (answers_of_brings hr hn hlt (by omega)).inputSegments _ rest
    · exact hlt.trans_le (Nat.add_le_add_right hsteps'.le.base _)

/-- The segments of a datagram that an end has output. -/
def Datagram (conv : BitVec 32) (out inn : Arq Fragment) (datagram : List UInt8) : Prop :=
  ∃ segs, segs ≠ [] ∧ datagram = segs.flatMap IKCPSEG.bytes ∧ datagram.length < 2 ^ 31 ∧
    ∀ seg ∈ segs, Carries conv out inn seg

theorem Datagram.mono {out' inn' : Arq Fragment} {datagram : List UInt8}
    (h : Datagram conv out inn datagram) (hout : out.Le out') (hinn : inn.Le inn') :
    Datagram conv out' inn' datagram := by
  obtain ⟨segs, hne, heq, hlt, hsegs⟩ := h
  exact ⟨segs, hne, heq, hlt, fun seg hseg => (hsegs seg hseg).mono hout hinn⟩

/-- The segments have been taken, one after the other, and what is remembered of the segments that
are kept has changed. -/
def Taken (kcp kcp' : IKCPCB) (segs : List IKCPSEG) : Prop :=
  ∃ segs' cwnd incr,
    segs'.map IKCPSEG.core = (inputSegments kcp none segs).1.snd_buf.map IKCPSEG.core ∧
    kcp' = { (inputSegments kcp none segs).1 with
      snd_buf := segs'
      cwnd := cwnd
      incr := incr }

theorem Taken.answers (h : Taken kcp kcp' segs) (hans : Answers (inputSegments kcp none segs).1) :
    Answers kcp' := by
  obtain ⟨_, _, _, -, hkcp⟩ := h
  rw [hkcp]
  exact hans

/-- **A datagram** of the other end is taken. -/
theorem Stands.input (h : Stands kcp out inn done) (hout : Bounded out) (hinn : Bounded inn)
    (hmss : 0 < kcp.mss.toNat) (hne : segs ≠ [])
    (hsegs : ∀ seg ∈ segs, Carries kcp.conv inn out seg)
    (hlt : (segs.flatMap IKCPSEG.bytes).length < 2 ^ 31) :
    ∃ kcp' u base held, kcp.ikcp_input (segs.flatMap IKCPSEG.bytes) = .ok (kcp', 0) ∧
      Taken kcp kcp' segs ∧ Arq.Steps out { out with unacked := u } ∧
      Arq.Steps inn { inn with base := base, held := held } ∧
      Stands kcp' { out with unacked := u } { inn with base := base, held := held } done ∧
      Arrives kcp kcp' inn { inn with base := base, held := held } segs := by
  obtain ⟨u, base, held, hsteps, hsteps', hstands, harrived⟩ :=
    h.inputSegments hout hinn hsegs none
  obtain ⟨segs', cwnd, incr, heq, hcore⟩ :=
    ikcp_input_bytes hmss hne (fun seg hseg => (hsegs seg hseg).valid) hlt
  refine ⟨_, u, base, held, heq, ⟨_, _, _, hcore, rfl⟩, hsteps, hsteps', ?_, harrived⟩
  obtain ⟨hs, hr, hqueue, hstop, hacks⟩ := hstands
  refine ⟨hs.imp fun _ h => ⟨?_, h.2⟩, hr.imp fun _ h => ⟨{ h.1 with }, h.2⟩, hqueue, hstop, hacks⟩
  have hs' := h.1.of_core hcore
  exact { hs' with }

/-! ## Messages -/

theorem settings_of_sameSender (h : SameSender kcp kcp') : settings kcp' = settings kcp := by
  obtain ⟨_, _, _, _, _, _, rfl⟩ := h
  rfl

/-- What is in `rcv_queue` are fragments of messages that have not been handed over. -/
theorem Stands.queue_prefix (h : Stands kcp out inn done) {todo : List Fragment}
    (hlog : inn.log = done ++ todo) : kcp.rcv_queue.map IKCPSEG.fragment <+: todo := by
  have hprefix := List.take_prefix inn.base inn.log
  rw [h.queue, hlog] at hprefix
  exact (List.prefix_append_right_inj done).mp hprefix

/-- The result of `ikcp_recv` is negative or it only looks, or it is the next message. -/
inductive Handed (kcp' : IKCPCB) (out inn : Arq Fragment) (done todo : List Fragment)
    (rest : List (List UInt8)) (len n : ℤ) (buffer : List UInt8) : Prop
  | none (hn : n < 0 ∨ len < 0) (h : Stands kcp' out inn done)
  | some (xs todo' : List Fragment) (rest' : List (List UInt8)) (hn : 0 ≤ n) (hlen : 0 ≤ len)
      (hrest : rest = buffer :: rest') (htodo : todo = xs ++ todo') (hcut : Cut buffer xs)
      (hframed : Framed rest' todo') (h : Stands kcp' out inn (done ++ xs))

/-- **A message** is handed over. -/
theorem Stands.recv (h : Stands kcp out inn done) (hinn : Bounded inn) {todo : List Fragment}
    {rest : List (List UInt8)} (hlog : inn.log = done ++ todo) (hframed : Framed rest todo)
    (len : ℤ) :
    ∃ kcp' n buffer base held, kcp.ikcp_recv len = .ok (kcp', n, buffer) ∧
      Arq.Steps inn { inn with base := base, held := held } ∧ settings kcp' = settings kcp ∧
      Handed kcp' out { inn with base := base, held := held } done todo rest len n buffer := by
  obtain ⟨held, hr, hheld⟩ := h.receives
  obtain ⟨result, heq, hrecv⟩ := hr.recv len
  cases hrecv with
  | none n hn _ =>
    exact ⟨kcp, n, [], inn.base, inn.held, heq, Relation.ReflTransGen.refl, rfl, .none (.inl hn) h⟩
  | some kcp' moved held' hpeek hlen hsplit hmoved =>
    rw [hsplit] at hheld
    by_cases hneg : len < 0
    · -- The message stays in the queue.
      rw [if_pos hneg] at hmoved
      obtain ⟨base', held₂, hsteps, hstands⟩ :=
        stands_of_moved hinn.safe h.sends h.queue h.acks hr.wnd_ge hheld hmoved
      exact ⟨kcp', _, _, base', held₂, heq, hsteps, settings_of_sameSender hmoved.same,
        .none (.inr hneg) hstands⟩
    · rw [if_neg hneg] at hmoved
      have hne : kcp.rcv_queue ≠ [] := by
        intro hnil
        rw [ikcp_peeksize, hnil] at hpeek
        exact absurd hpeek (by norm_num)
      have hprefix := h.queue_prefix hlog
      cases hframed with
      | nil =>
        have hnil := List.prefix_nil.mp hprefix
        exact absurd (List.map_eq_nil_iff.mp hnil) hne
      | @cons message messages xs ys hcut hframed' =>
        have hle := (peeksize_nonneg_iff hcut hne hr.nrcv_que hr.queue_lt hprefix).mp hpeek
        obtain ⟨hbuffer, -, hqueue, -⟩ := splitMessage_of_prefix hcut hle hprefix
        have hqueue' : inn.log.take inn.base = done ++ xs ++
            kcp.takeMessage.rcv_queue.map IKCPSEG.fragment := by
          rw [h.queue, hqueue, List.append_assoc]
          rfl
        obtain ⟨base', held₂, hsteps, hstands⟩ :=
          stands_of_moved hinn.safe (h.sends.imp fun _ h => ⟨{ h.1 with }, h.2⟩) hqueue' h.acks
            hr.wnd_ge hheld hmoved
        exact ⟨kcp', _, _, base', held₂, heq, hsteps, settings_of_sameSender hmoved.same,
          .some _ _ _ hpeek (not_lt.mp hneg) (by rw [hbuffer]) rfl (hbuffer.symm ▸ hcut) hframed'
            hstands⟩

/-- **A message** is refused, or its fragments are submitted. -/
theorem Stands.send (h : Stands kcp out inn done) (hstream : kcp.stream = 0)
    (hmss : 0 < kcp.mss.toNat) (message : List UInt8) :
    ∃ kcp' n, kcp.ikcp_send message = .ok (kcp', n) ∧ settings kcp' = settings kcp ∧
      (n ≠ 0 ∧ kcp' = kcp ∨ n = 0 ∧ ∃ xs, Cut message xs ∧
        (∀ x ∈ xs, x.data.length ≤ kcp.mss.toNat) ∧
        kcp'.snd_queue.length = kcp.snd_queue.length + xs.length ∧
        Stands kcp' { out with log := out.log ++ xs } inn done) := by
  obtain ⟨kept, hs, hkept⟩ := h.sends
  obtain ⟨result, heq, hsent⟩ := hs.send hstream hmss message
  cases hsent with
  | refused _ => exact ⟨kcp, -2, heq, rfl, .inl ⟨by norm_num, rfl⟩⟩
  | queued segs hcut hlen hs' =>
    refine ⟨_, 0, heq, rfl, .inr ⟨rfl, _, hcut, ?_, ?_, ⟨kept, hs', hkept⟩, ?_, h.queue, h.stop,
      h.acks⟩⟩
    · intro x hx
      obtain ⟨seg, hseg, rfl⟩ := List.mem_map.mp hx
      exact hlen seg hseg
    · rw [List.length_append, List.length_map]
    · exact h.receives.imp fun _ h => ⟨{ h.1 with }, h.2⟩

/-! ## Flushing -/

/-- Each entry of a list has its number. -/
theorem exists_numbers {α : Type*} {P : α → ℕ → Prop} (l : List α) (h : ∀ a ∈ l, ∃ n, P a n) :
    ∃ ns : List ℕ, (∀ a ∈ l, ∃ n ∈ ns, P a n) ∧ ∀ n ∈ ns, ∃ a ∈ l, P a n := by
  induction l with
  | nil =>
    exact ⟨[], fun a ha => absurd ha List.not_mem_nil, fun n hn => absurd hn List.not_mem_nil⟩
  | cons a l ih =>
    obtain ⟨⟨n, hn⟩, hrest⟩ := List.forall_mem_cons.mp h
    obtain ⟨ns, hns, hns'⟩ := ih hrest
    refine ⟨n :: ns, List.forall_mem_cons.mpr ⟨⟨n, List.mem_cons_self, hn⟩, fun b hb => ?_⟩,
      List.forall_mem_cons.mpr ⟨⟨a, List.mem_cons_self, hn⟩, fun m hm => ?_⟩⟩
    · obtain ⟨m, hm, hP⟩ := hns b hb
      exact ⟨m, List.mem_cons_of_mem _ hm, hP⟩
    · obtain ⟨b, hb, hP⟩ := hns' m hm
      exact ⟨b, List.mem_cons_of_mem _ hb, hP⟩

theorem exists_mem_counted {next : ℕ} {xs : List Fragment} :
    (∃ x, (n, x) ∈ counted next xs) ↔ next ≤ n ∧ n < next + xs.length := by
  induction xs generalizing next with
  | nil =>
    simp only [counted, List.not_mem_nil, exists_false, List.length_nil, false_iff]
    omega
  | cons x xs ih =>
    simp only [counted, List.mem_cons, exists_or, ih, List.length_cons, Prod.mk.injEq]
    constructor
    · rintro (⟨_, rfl, -⟩ | h)
      · omega
      · omega
    · intro h
      rcases h.1.eq_or_lt with heq | hlt
      · exact .inl ⟨x, heq.symm, rfl⟩
      · exact .inr (by omega)

theorem IsControl.carries {base : ℕ} (h : IsControl kcp seg)
    (hnxt : kcp.rcv_nxt = BitVec.ofNat 32 base) (hbase : base ∈ inn.counts)
    (hacks : ∀ ack ∈ kcp.acklist, ∃ n ∈ inn.acks, ack.1 = BitVec.ofNat 32 n) :
    Carries kcp.conv out inn seg := by
  obtain ⟨hconv, huna, -, hdata, hcmd⟩ := h
  refine ⟨⟨hconv, ?_, ?_⟩, ⟨base, hbase, huna.trans hnxt⟩, ?_, ?_⟩
  · rcases hcmd with ⟨hcmd, -⟩ | hcmd | hcmd <;> rw [hcmd] <;> decide
  · rw [hdata, IKCP_OVERHEAD, List.length_nil]
    norm_num
  · intro hpush
    rcases hcmd with ⟨hcmd, -⟩ | hcmd | hcmd <;>
      exact absurd (hcmd.symm.trans hpush) (by decide)
  · intro hack
    rcases hcmd with ⟨-, hmem⟩ | hcmd | hcmd
    · exact hacks _ hmem
    · exact absurd (hcmd.symm.trans hack) (by decide)
    · exact absurd (hcmd.symm.trans hack) (by decide)

theorem carries_of_core {p : ℕ × Fragment} {c : ℕ} (hcore : seg.core = pushCore conv p)
    (hp : p ∈ out.data) (hlen : IKCP_OVERHEAD + p.2.data.length < 2 ^ 31)
    (huna : seg.una = BitVec.ofNat 32 c) (hc : c ∈ inn.counts) : Carries conv out inn seg := by
  have hcmd : seg.cmd = IKCP_CMD_PUSH := congrArg Core.cmd hcore
  rw [← core_fragment hcore] at hlen
  refine ⟨⟨congrArg Core.conv hcore, ?_, hlen⟩, ⟨c, hc, huna⟩, fun _ => ⟨p, hp, hcore⟩, ?_⟩
  · rw [hcmd]
    decide
  · intro hack
    exact absurd (hcmd.symm.trans hack) (by decide)

theorem length_group_lt {mtu : ℕ} {group : List IKCPSEG} (hmtu : mtu < 2 ^ 31)
    (hlen : (group.flatMap IKCPSEG.bytes).length ≤ mtu ∨ ∃ seg, group = [seg])
    (hgroup : ∀ seg ∈ group, Carries conv out inn seg) :
    (group.flatMap IKCPSEG.bytes).length < 2 ^ 31 := by
  rcases hlen with hlen | ⟨seg, rfl⟩
  · exact hlen.trans_lt hmtu
  · rw [List.flatMap_cons, List.flatMap_nil, List.append_nil, length_bytes]
    exact (hgroup seg (List.mem_singleton_self seg)).valid.length_lt

/-- Each segment is in a datagram, with other ones. -/
theorem Packed.exists_group {mtu : ℕ} {datagrams : List (List UInt8)}
    (h : Packed mtu datagrams segs) (hmtu : mtu < 2 ^ 31)
    (hsegs : ∀ seg ∈ segs, Carries conv out inn seg) (hseg : seg ∈ segs) :
    ∃ group : List IKCPSEG, seg ∈ group ∧ (∀ s ∈ group, s ∈ segs) ∧
      group.flatMap IKCPSEG.bytes ∈ datagrams ∧
      (group.flatMap IKCPSEG.bytes).length < 2 ^ 31 := by
  obtain ⟨groups, rfl, rfl, hgroups⟩ := h
  obtain ⟨group, hgroup, hmem⟩ := List.mem_flatten.mp hseg
  have hsub : ∀ s ∈ group, s ∈ groups.flatten := fun s hs => List.mem_flatten_of_mem hgroup hs
  exact ⟨group, hmem, hsub, List.mem_map_of_mem hgroup,
    length_group_lt hmtu (hgroups group hgroup).2 fun s hs => hsegs s (hsub s hs)⟩

theorem Packed.datagrams {mtu : ℕ} {datagrams : List (List UInt8)}
    (h : Packed mtu datagrams segs) (hmtu : mtu < 2 ^ 31)
    (hsegs : ∀ seg ∈ segs, Carries conv out inn seg) :
    ∀ datagram ∈ datagrams, Datagram conv out inn datagram := by
  obtain ⟨groups, rfl, rfl, hgroups⟩ := h
  intro datagram hdatagram
  obtain ⟨group, hgroup, rfl⟩ := List.mem_map.mp hdatagram
  obtain ⟨hne, hlen⟩ := hgroups group hgroup
  have hcarries : ∀ seg ∈ group, Carries conv out inn seg := fun seg hseg =>
    hsegs seg (List.mem_flatten_of_mem hgroup hseg)
  exact ⟨group, hne, rfl, length_group_lt hmtu hlen hcarries, hcarries⟩

/-- **A flush** gives counts, and sends fragments, acknowledgements and the count of the
receiver. -/
theorem Stands.flush (h : Stands kcp out inn done) (hout : Bounded out) (hb : Buffers kcp)
    (hfit : ∀ kept, Sends kcp out.log out.next kept → Fits kcp out.log out.next kept)
    (hupdated : kcp.updated ≠ 0) :
    ∃ kcp' datagrams kept xs ctrl segs u data acks counts,
      kcp.ikcp_flush = .ok (kcp', datagrams) ∧ Sends kcp out.log out.next kept ∧
      Flushes kcp kcp' out.log out.next kept xs ctrl segs datagrams ∧
      Arq.Steps out { out with next := out.next + xs.length, unacked := u, data := data } ∧
      Arq.Steps inn { inn with acks := acks, counts := counts } ∧
      Stands kcp' { out with next := out.next + xs.length, unacked := u, data := data }
        { inn with acks := acks, counts := counts } done ∧
      ∀ seg ∈ ctrl ++ segs, Carries kcp.conv
        { out with next := out.next + xs.length, unacked := u, data := data }
        { inn with acks := acks, counts := counts } seg := by
  obtain ⟨kept, hs, hkept⟩ := h.sends
  obtain ⟨held, hr, hheld⟩ := h.receives
  obtain ⟨kcp', datagrams, xs, ctrl, segs, heq, hf⟩ := hs.flush hb (hfit kept hs) hupdated
  obtain ⟨ns, hns, hns'⟩ := exists_numbers kcp.acklist h.acks
  -- The fragments that are sent.
  let ps := (kept ++ counted out.next xs).filter fun p =>
    ∃ s ∈ segs, s.core = pushCore kcp.conv p
  have hunacked : out.unacked ∪ Set.Ico out.next (out.next + xs.length) =
      {n | ∃ x, (n, x) ∈ kept ++ counted out.next xs} := by
    ext n
    rw [hkept]
    simp only [Set.mem_union, Set.mem_ofPred_eq, Set.mem_Ico, List.mem_append, exists_or,
      exists_mem_counted]
  have hnumber := Arq.steps_number out (k := xs.length) hf.sends.next_le
  rw [hunacked] at hnumber
  have htransmit := Arq.steps_transmit { out with
    next := out.next + xs.length
    unacked := {n | ∃ x, (n, x) ∈ kept ++ counted out.next xs} } ps fun p hp =>
      ⟨⟨p.2, (List.mem_filter.mp hp).1⟩, hf.sends.log p (List.mem_filter.mp hp).1⟩
  have hack : Arq.Steps inn { inn with acks := inn.acks ∪ {n | n ∈ ns} } :=
    Arq.steps_ack inn ns fun n hn => by
      obtain ⟨a, -, -, harrived⟩ := hns' n hn
      exact harrived
  refine ⟨kcp', datagrams, kept, xs, ctrl, segs, _, _, _, insert inn.base inn.counts, heq, hs, hf,
    hnumber.trans htransmit, hack.tail .count, ?_, ?_⟩
  · have hqueue : kcp'.rcv_queue = kcp.rcv_queue := congrArg (fun r => r.2.2.2.1) hf.receiver
    refine ⟨⟨_, hf.sends, rfl⟩, ⟨held, hr.of_receiver_eq hf.receiver, hheld⟩, ?_, ?_, ?_⟩
    · rw [hqueue]
      exact h.queue
    · rw [hqueue]
      exact h.stop
    · rw [hf.acklist]
      exact fun ack hack => absurd hack List.not_mem_nil
  · refine List.forall_mem_append.mpr ⟨fun s hs => ?_, fun s hs => ?_⟩
    · refine (hf.control s hs).carries hr.rcv_nxt (Set.mem_insert _ _) fun ack hack => ?_
      obtain ⟨n, hn, hsn, -⟩ := hns ack hack
      exact ⟨n, .inr hn, hsn⟩
    · obtain ⟨huna, -, p, hp, hcore⟩ := hf.push s hs
      have hlog := hf.sends.log p hp
      refine carries_of_core hcore (.inr (List.mem_filter.mpr ⟨hp, decide_eq_true ⟨s, hs, hcore⟩⟩))
        (hout.fragments p.2 (List.mem_of_getElem? hlog)).2 (huna.trans hr.rcv_nxt)
        (Set.mem_insert _ _)

end CodingDemo.Kcp
