import CodingDemo.Kcp.Ikcp.Model
import Mathlib.Data.List.Nodup

/-!
# The buffers of KCP

The segments in `snd_buf` and `rcv_buf` carry numbers of 32 bits. They stand for counts that do not
wrap around, which lie in a window of less than half of the range, so that the numbers are compared
as the counts are.

## Main definitions

* `Fragment`: what a segment carries of a message
* `Core`: what a segment keeps when it is sent again
* `Buffered`: the segments of a buffer, with their counts

## Main results

* `itimediff_ofNat`: the numbers are compared as the counts are
* `Buffered.cons`, `Buffered.snoc`: the first segment, and one more at the end
-/

namespace CodingDemo.Kcp

open IKCPCB

/-- A part of a message, with the count of the parts behind it. -/
structure Fragment where
  frg : BitVec 32
  data : List UInt8
  deriving DecidableEq

/-- What a segment keeps when it is sent again. -/
structure Core where
  conv : BitVec 32
  cmd : BitVec 32
  sn : BitVec 32
  fragment : Fragment
  deriving DecidableEq

def IKCPSEG.fragment (seg : IKCPSEG) : Fragment := ⟨seg.frg, seg.data⟩

def IKCPSEG.core (seg : IKCPSEG) : Core := ⟨seg.conv, seg.cmd, seg.sn, seg.fragment⟩

/-- The segment that carries a fragment with a count. -/
def pushCore (conv : BitVec 32) (p : ℕ × Fragment) : Core :=
  ⟨conv, IKCP_CMD_PUSH, BitVec.ofNat 32 p.1, p.2⟩

/-- The segments of a buffer carry fragments with the counts `ps`, in order. -/
structure Buffered (conv : BitVec 32) (lo hi : ℕ) (ps : List (ℕ × Fragment))
    (segs : List IKCPSEG) : Prop where
  core : segs.map IKCPSEG.core = ps.map (pushCore conv)
  sorted : ps.Pairwise fun p q => p.1 < q.1
  ge : ∀ p ∈ ps, lo ≤ p.1
  lt : ∀ p ∈ ps, p.1 < hi

variable {conv : BitVec 32} {lo hi m n : ℕ} {p : ℕ × Fragment} {ps : List (ℕ × Fragment)}
  {seg : IKCPSEG} {segs segs' : List IKCPSEG}

/-! ## Comparing counts -/

/-- The counts are less than half of the range apart. -/
theorem itimediff_ofNat (hle : n ≤ m + 2 ^ 31) (hlt : m < n + 2 ^ 31) :
    _itimediff (BitVec.ofNat 32 m) (BitVec.ofNat 32 n) = (m : ℤ) - n := by
  apply serialDiff_ofNat <;> omega

theorem eq_of_ofNat_eq (hle : n ≤ m + 2 ^ 31) (hlt : m < n + 2 ^ 31)
    (h : BitVec.ofNat 32 m = BitVec.ofNat 32 n) : m = n := by
  refine ofNat_inj_of_close (w := 31) ?_ ?_ h <;> omega

theorem exists_ofNat_of_itimediff_nonneg {x : BitVec 32}
    (h : 0 ≤ _itimediff x (BitVec.ofNat 32 n)) :
    ∃ m, x = BitVec.ofNat 32 m ∧ n ≤ m ∧ m < n + 2 ^ 31 :=
  exists_ofNat_of_serialDiff_nonneg h

/-! ## Segments and counts -/

theorem core_sn (h : seg.core = pushCore conv p) : seg.sn = BitVec.ofNat 32 p.1 :=
  congrArg Core.sn h

theorem core_fragment (h : seg.core = pushCore conv p) : seg.fragment = p.2 :=
  congrArg Core.fragment h

namespace Buffered

theorem nil (conv : BitVec 32) (lo hi : ℕ) : Buffered conv lo hi [] [] where
  core := rfl
  sorted := List.Pairwise.nil
  ge _ h := absurd h List.not_mem_nil
  lt _ h := absurd h List.not_mem_nil

theorem length_eq (h : Buffered conv lo hi ps segs) : segs.length = ps.length := by
  have hlen := congrArg List.length h.core
  rwa [List.length_map, List.length_map] at hlen

/-- Other segments that carry the same. -/
theorem of_core (h : Buffered conv lo hi ps segs)
    (heq : segs'.map IKCPSEG.core = segs.map IKCPSEG.core) : Buffered conv lo hi ps segs' :=
  { h with core := heq.trans h.core }

theorem mono {lo' hi' : ℕ} (h : Buffered conv lo hi ps segs) (hge : ∀ p ∈ ps, lo' ≤ p.1)
    (hlt : ∀ p ∈ ps, p.1 < hi') : Buffered conv lo' hi' ps segs :=
  { h with ge := hge, lt := hlt }

/-- The first segment carries the first fragment. -/
theorem cons (h : Buffered conv lo hi ps (seg :: segs)) :
    ∃ p ps', ps = p :: ps' ∧ seg.core = pushCore conv p ∧ Buffered conv (p.1 + 1) hi ps' segs := by
  cases ps with
  | nil => cases h.core
  | cons p ps' =>
    obtain ⟨hp, hsorted⟩ := List.pairwise_cons.mp h.sorted
    obtain ⟨hseg, hcore⟩ := List.cons.inj h.core
    exact ⟨p, ps', rfl, hseg, hcore, hsorted, hp, fun q hq => h.lt q (List.mem_cons_of_mem _ hq)⟩

theorem of_cons (hseg : seg.core = pushCore conv p) (hge : lo ≤ p.1) (hlt : p.1 < hi)
    (h : Buffered conv (p.1 + 1) hi ps segs) : Buffered conv lo hi (p :: ps) (seg :: segs) where
  core := by rw [List.map_cons, List.map_cons, hseg, h.core]
  sorted := List.pairwise_cons.mpr ⟨h.ge, h.sorted⟩
  ge := List.forall_mem_cons.mpr ⟨hge, fun q hq => (hge.trans (Nat.le_succ _)).trans (h.ge q hq)⟩
  lt := List.forall_mem_cons.mpr ⟨hlt, h.lt⟩

/-- A segment behind the last one. -/
theorem snoc {x : Fragment} (h : Buffered conv lo n ps segs)
    (hseg : seg.core = pushCore conv (n, x)) (hlo : lo ≤ n) (hlt : n < hi) :
    Buffered conv lo hi (ps ++ [(n, x)]) (segs ++ [seg]) where
  core := by
    rw [List.map_append, List.map_append, h.core, List.map_singleton, List.map_singleton, hseg]
  sorted := by
    refine List.pairwise_append.mpr ⟨h.sorted, List.pairwise_singleton _ _, fun q hq r hr => ?_⟩
    rw [List.mem_singleton.mp hr]
    exact h.lt q hq
  ge q hq := by
    rcases List.mem_append.mp hq with hq | hq
    · exact h.ge q hq
    · rw [List.mem_singleton.mp hq]
      exact hlo
  lt q hq := by
    rcases List.mem_append.mp hq with hq | hq
    · exact (h.lt q hq).trans hlt
    · rw [List.mem_singleton.mp hq]
      exact hlt

end Buffered

end CodingDemo.Kcp
