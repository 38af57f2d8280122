import CodingDemo.Kcp.Ikcp.Buffered
import Mathlib.Algebra.Order.Group.Unbundled.Int

/-!
# The messages of KCP

A message is cut into fragments, each with the count of the fragments behind it. The receiver finds
the end of a message where this count is zero.

## Main definitions

* `Cut`: the fragments of a message
* `Framed`: the fragments of some messages, one after the other

## Main results

* `peeksize_nonneg_iff`: the first message is found when all of its fragments are there
* `splitMessage_of_prefix`: the first message is handed over
-/

namespace CodingDemo.Kcp

open IKCPCB

/-- `frg` counts the fragments behind. -/
def CountDown : List Fragment → Prop
  | [] => True
  | x :: xs => x.frg = BitVec.ofNat 32 xs.length ∧ CountDown xs

/-- The fragments that a message is cut into. -/
structure Cut (message : List UInt8) (xs : List Fragment) : Prop where
  ne_nil : xs ≠ []
  length_lt : xs.length < 128
  countDown : CountDown xs
  data : xs.flatMap Fragment.data = message

/-- The fragments of some messages, one after the other. -/
inductive Framed : List (List UInt8) → List Fragment → Prop
  | nil : Framed [] []
  | cons {message : List UInt8} {messages : List (List UInt8)} {xs ys : List Fragment}
      (h : Cut message xs) (h' : Framed messages ys) : Framed (message :: messages) (xs ++ ys)

variable {kcp : IKCPCB} {m n : ℕ} {message : List UInt8} {messages : List (List UInt8)}
  {x : Fragment} {xs ys : List Fragment} {segs : List IKCPSEG}

theorem Framed.append {messages' : List (List UInt8)} (h : Framed messages xs)
    (h' : Framed messages' ys) : Framed (messages ++ messages') (xs ++ ys) := by
  induction h with
  | nil => exact h'
  | cons hcut _ ih =>
    rw [List.cons_append, List.append_assoc]
    exact .cons hcut ih

theorem Cut.framed (h : Cut message xs) : Framed [message] xs := by
  have hframed := Framed.cons h .nil
  rwa [List.append_nil] at hframed

theorem CountDown.frg_lt (h : CountDown xs) (hlen : xs.length < 2 ^ 32) (hx : x ∈ xs) :
    x.frg.toNat < xs.length := by
  induction xs with
  | nil => exact absurd hx List.not_mem_nil
  | cons y xs ih =>
    rw [List.length_cons] at hlen ⊢
    rcases List.mem_cons.mp hx with rfl | hx
    · rw [h.1, BitVec.toNat_ofNat, Nat.mod_eq_of_lt (by omega)]
      exact Nat.lt_succ_self _
    · exact (ih h.2 (by omega) hx).trans (Nat.lt_succ_self _)

/-! ## Counters -/

theorem ofNat_succ_sub_one (n : ℕ) : BitVec.ofNat 32 (n + 1) - 1 = BitVec.ofNat 32 n := by
  rw [BitVec.ofNat_add]
  exact BitVec.add_sub_cancel _ _

theorem ofNat_add_one (n : ℕ) : BitVec.ofNat 32 n + 1 = BitVec.ofNat 32 (n + 1) :=
  (BitVec.ofNat_add n 1).symm

theorem toNat_ofNat_of_lt (h : n < 2 ^ 32) : (BitVec.ofNat 32 n).toNat = n := by
  rw [BitVec.toNat_ofNat, Nat.mod_eq_of_lt h]

theorem ofNat_add_sub (m n : ℕ) :
    BitVec.ofNat 32 (m + n) - BitVec.ofNat 32 m = BitVec.ofNat 32 n := by
  rw [BitVec.ofNat_add, BitVec.add_comm]
  exact BitVec.add_sub_cancel _ _

/-! ## Cutting a message -/

@[simp] theorem length_fragment (stream : ℤ) (mss count : ℕ) (buffer : List UInt8) :
    (fragment stream mss count buffer).length = count := by
  induction count generalizing buffer with
  | zero => rfl
  | succ count ih => rw [fragment, List.length_cons, ih]

theorem countDown_fragment (mss count : ℕ) (buffer : List UInt8) :
    CountDown ((fragment 0 mss count buffer).map IKCPSEG.fragment) := by
  induction count generalizing buffer with
  | zero => trivial
  | succ count ih =>
    rw [fragment, List.map_cons]
    refine ⟨?_, ih _⟩
    rw [List.length_map, length_fragment]
    rfl

theorem flatMap_fragment {stream : ℤ} {mss count : ℕ} {buffer : List UInt8}
    (h : buffer.length ≤ count * mss) :
    (fragment stream mss count buffer).flatMap IKCPSEG.data = buffer := by
  induction count generalizing buffer with
  | zero =>
    rw [Nat.zero_mul, Nat.le_zero, List.length_eq_zero_iff] at h
    rw [h]
    rfl
  | succ count ih =>
    have hdrop : (buffer.drop mss).length ≤ count * mss := by
      rw [List.length_drop]
      rw [Nat.succ_mul] at h
      omega
    rw [fragment, List.flatMap_cons, ih hdrop]
    exact List.take_append_drop mss buffer

theorem length_le_of_mem_fragment {stream : ℤ} {mss count : ℕ} {buffer : List UInt8}
    {seg : IKCPSEG} (h : seg ∈ fragment stream mss count buffer) : seg.data.length ≤ mss := by
  induction count generalizing buffer with
  | zero => exact absurd h List.not_mem_nil
  | succ count ih =>
    rcases List.mem_cons.mp h with rfl | h
    · exact List.length_take_le _ _
    · exact ih h

/-! ## Finding a message -/

theorem splitMessage_append (segs : List IKCPSEG) :
    (splitMessage segs).1 ++ (splitMessage segs).2 = segs := by
  induction segs with
  | nil => rfl
  | cons seg rest ih =>
    rw [splitMessage]
    split_ifs with h
    · rfl
    · rw [List.cons_append, ih]

/-- The size that is found is that of the fragments that are handed over. -/
theorem length_of_peeksize_nonneg (h : 0 ≤ kcp.ikcp_peeksize) :
    (((splitMessage kcp.rcv_queue).1.flatMap IKCPSEG.data).length : ℤ) = kcp.ikcp_peeksize := by
  rw [ikcp_peeksize] at h ⊢
  rcases hq : kcp.rcv_queue with _ | ⟨seg, rest⟩
  · rw [hq] at h
    exact absurd h (by norm_num)
  · rw [hq] at h
    simp only at h ⊢
    split_ifs at h ⊢ with hfrg hque
    · rw [splitMessage, if_pos hfrg, List.flatMap_cons, List.flatMap_nil, List.append_nil]
    · exact absurd h (by norm_num)
    · rfl

/-- The fragments up to the one that has none behind it. -/
theorem splitMessage_of_countDown (hlen : xs.length < 2 ^ 32) (hne : xs ≠ [])
    (hxs : CountDown xs) (hsegs : segs.map IKCPSEG.fragment = xs ++ ys) :
    (splitMessage segs).1.map IKCPSEG.fragment = xs ∧
      (splitMessage segs).2.map IKCPSEG.fragment = ys := by
  induction xs generalizing segs with
  | nil => exact absurd rfl hne
  | cons x xs ih =>
    obtain ⟨seg, rest, rfl, rfl, hrest⟩ := List.map_eq_cons_iff.mp hsegs
    rw [List.length_cons] at hlen
    have hfrg : seg.frg = BitVec.ofNat 32 xs.length := hxs.1
    have hzero : seg.frg = 0 ↔ xs = [] := by
      rw [hfrg, ← BitVec.toNat_inj, toNat_ofNat_of_lt (by omega), ← List.length_eq_zero_iff]
      rfl
    rw [splitMessage]
    by_cases hnil : xs = []
    · subst hnil
      rw [if_pos (hzero.mpr rfl)]
      exact ⟨rfl, hrest⟩
    · rw [if_neg fun h => hnil (hzero.mp h)]
      obtain ⟨hfst, hsnd⟩ := ih (by omega) hnil hxs.2 hrest
      exact ⟨congrArg (seg.fragment :: ·) hfst, hsnd⟩

/-- **The first message** is found when all of its fragments are there. -/
theorem peeksize_nonneg_iff (hcut : Cut message xs) (hne : kcp.rcv_queue ≠ [])
    (hque : kcp.nrcv_que = BitVec.ofNat 32 kcp.rcv_queue.length)
    (hlt : kcp.rcv_queue.length < 2 ^ 31)
    (hsegs : kcp.rcv_queue.map IKCPSEG.fragment <+: xs ++ ys) :
    0 ≤ kcp.ikcp_peeksize ↔ xs.length ≤ kcp.rcv_queue.length := by
  rcases hq : kcp.rcv_queue with _ | ⟨seg, rest⟩
  · exact absurd hq hne
  · rcases xs with _ | ⟨x, xs⟩
    · exact absurd rfl hcut.ne_nil
    rw [hq] at hsegs hque hlt
    have hx : seg.fragment = x := (List.cons_prefix_cons.mp hsegs).1
    have hlen := hcut.length_lt
    have hfrg : seg.frg = BitVec.ofNat 32 xs.length := by
      rw [← hcut.countDown.1, ← hx]
      rfl
    rw [List.length_cons] at hlen hlt hque ⊢
    have hzero : seg.frg = 0 ↔ xs.length = 0 := by
      rw [hfrg, ← BitVec.toNat_inj, toNat_ofNat_of_lt (by omega)]
      rfl
    have hsmall : kcp.nrcv_que < seg.frg + 1 ↔ rest.length + 1 < xs.length + 1 := by
      rw [hque, hfrg, ofNat_add_one, BitVec.lt_def, toNat_ofNat_of_lt (by omega),
        toNat_ofNat_of_lt (by omega)]
    rw [ikcp_peeksize, hq, List.length_cons]
    simp only [hzero, hsmall]
    split_ifs with hfirst hfew
    · exact iff_of_true (Int.natCast_nonneg _) (by omega)
    · exact iff_of_false (by norm_num) (by omega)
    · exact iff_of_true (Int.natCast_nonneg _) (by omega)

/-- What is handed over is the first message, and the fragments of the next ones are left. -/
theorem splitMessage_of_prefix (hcut : Cut message xs) (hlen : xs.length ≤ segs.length)
    (hsegs : segs.map IKCPSEG.fragment <+: xs ++ ys) :
    (splitMessage segs).1.flatMap IKCPSEG.data = message ∧
      (splitMessage segs).1.map IKCPSEG.fragment = xs ∧
      segs.map IKCPSEG.fragment = xs ++ (splitMessage segs).2.map IKCPSEG.fragment ∧
      (splitMessage segs).2.map IKCPSEG.fragment <+: ys := by
  have hprefix : xs <+: segs.map IKCPSEG.fragment := by
    refine List.prefix_of_prefix_length_le (List.prefix_append xs ys) hsegs ?_
    rwa [List.length_map]
  obtain ⟨zs, hzs⟩ := hprefix
  have hlt := hcut.length_lt
  obtain ⟨hfst, hsnd⟩ :=
    splitMessage_of_countDown (by omega) hcut.ne_nil hcut.countDown hzs.symm
  refine ⟨?_, hfst, by rw [hsnd, hzs], ?_⟩
  · rw [← hcut.data, ← hfst, List.flatMap_map]
    rfl
  · rw [hsnd]
    rw [← hzs] at hsegs
    exact (List.prefix_append_right_inj xs).mp hsegs

end CodingDemo.Kcp
