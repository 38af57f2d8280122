import CodingDemo.Kcp.Ikcp.Buffered

/-!
# When KCP is to be updated

`ikcp_check` tells how long the updates can be left out.

## Main definitions

* `delay`: the time from a check to the next update
* `updates`: some updates, with what they output

## Main results

* `ikcp_check_spec`: the updates before the time of a check do nothing, and that time is not further
  away than the interval
-/

namespace CodingDemo.Kcp

open IKCPCB

variable {kcp : IKCPCB} {current : BitVec 32} {k n : ℕ}

/-- The time from a check to the next update. -/
def delay (kcp : IKCPCB) (current : BitVec 32) : ℕ := (kcp.ikcp_check current - current).toNat

/-- Updates at some times after `current`, and the datagrams that they output. -/
def updates (current : BitVec 32) : IKCPCB → List ℕ → Except Fault (IKCPCB × List (List UInt8))
  | kcp, [] => .ok (kcp, [])
  | kcp, k :: ks => do
    let (kcp, datagrams) ← kcp.ikcp_update (current + BitVec.ofNat 32 k)
    let (kcp, rest) ← updates current kcp ks
    .ok (kcp, datagrams ++ rest)

/-! ## The delay -/

/-- The next flush is at a time that is not more than ten seconds away. -/
structure Waits (kcp : IKCPCB) (current : BitVec 32) (f : ℕ) : Prop where
  updated : kcp.updated ≠ 0
  ts_flush : kcp.ts_flush = current + BitVec.ofNat 32 f
  pos : 0 < f
  le : f ≤ 10000

theorem itimediff_self (current : BitVec 32) : _itimediff current current = 0 :=
  serialDiff_self current

theorem add_sub_self (current x : BitVec 32) : current + x - current = x := by
  rw [BitVec.add_comm]
  exact BitVec.add_sub_cancel _ _

theorem itimediff_add (current : BitVec 32) (hn : n ≤ k + 2 ^ 31) (hk : k < n + 2 ^ 31) :
    _itimediff (current + BitVec.ofNat 32 k) (current + BitVec.ofNat 32 n) = (k : ℤ) - n := by
  rw [← ofNat_toNat_self current, ← BitVec.ofNat_add, ← BitVec.ofNat_add,
    itimediff_ofNat (by omega) (by omega)]
  omega

/-- A time that is to come is a time after the current one. -/
theorem exists_add_of_itimediff_neg {ts : BitVec 32} (hneg : _itimediff current ts < 0) :
    ∃ f, ts = current + BitVec.ofNat 32 f ∧ 0 < f ∧ f ≤ 2 ^ 31 := by
  obtain ⟨f, hlt, rfl⟩ : ∃ f, f < 2 ^ 32 ∧ ts = current + BitVec.ofNat 32 f := by
    refine ⟨(ts - current).toNat, (ts - current).isLt, ?_⟩
    rw [BitVec.ofNat_toNat, BitVec.setWidth_eq, BitVec.add_comm, BitVec.sub_add_cancel]
  refine ⟨f, rfl, ?_, ?_⟩
  · rw [Nat.pos_iff_ne_zero]
    rintro rfl
    rw [show current + BitVec.ofNat 32 0 = current from BitVec.add_zero _] at hneg
    exact absurd hneg (itimediff_self current).not_lt
  · -- Otherwise the current time, after a whole turn of the clock, is not behind.
    by_contra hfar
    have hturn := itimediff_add current (n := f) (k := 2 ^ 32) (by omega) (by omega)
    rw [show current + BitVec.ofNat 32 (2 ^ 32) = current from BitVec.add_zero _] at hturn
    omega

/-- A segment that is to be sent again is not overdue. -/
theorem nextPacket_pos {segs : List IKCPSEG} {tm tm' : ℤ}
    (h : nextPacket current segs tm = some tm')
    (hpos : 0 < tm) : 0 < tm' := by
  induction segs generalizing tm with
  | nil =>
    obtain rfl := Option.some.inj h
    exact hpos
  | cons seg rest ih =>
    rw [nextPacket] at h
    split_ifs at h with hdue hless
    · exact ih h (not_le.mp hdue)
    · exact ih h hpos

/-- If the updates can be left out, the next flush is not due. -/
theorem exists_waits (h : 0 < delay kcp current) :
    ∃ f, Waits kcp current f ∧ delay kcp current ≤ f ∧ delay kcp current ≤ kcp.interval.toNat := by
  have hzero : ¬ 0 < (current - current).toNat := by
    rw [BitVec.sub_self]
    exact lt_irrefl 0
  rw [delay, ikcp_check] at h ⊢
  by_cases hupdated : kcp.updated = 0
  · rw [if_pos hupdated] at h
    exact absurd h hzero
  simp only [if_neg hupdated] at h ⊢
  by_cases houtside : 10000 ≤ _itimediff current kcp.ts_flush ∨
      _itimediff current kcp.ts_flush < -10000
  · rw [if_pos houtside, if_pos (itimediff_self current).ge] at h
    exact absurd h hzero
  rw [if_neg houtside] at h ⊢
  by_cases hdue : 0 ≤ _itimediff current kcp.ts_flush
  · rw [if_pos hdue] at h
    exact absurd h hzero
  rw [if_neg hdue] at h ⊢
  obtain ⟨f, hf, hpos, hle⟩ := exists_add_of_itimediff_neg (not_le.mp hdue)
  have hcurrent : current + BitVec.ofNat 32 0 = current := BitVec.add_zero _
  have hslap := itimediff_add current (n := f) (k := 0) (by omega) (by omega)
  rw [hcurrent, ← hf] at hslap
  have hflush := itimediff_add current (n := 0) (k := f) (by omega) (by omega)
  rw [hcurrent, ← hf] at hflush
  rw [hflush] at h ⊢
  have hwaits : Waits kcp current f := ⟨hupdated, hf, hpos, by omega⟩
  refine ⟨f, hwaits, ?_⟩
  cases hpacket : nextPacket current kcp.snd_buf INT_MAX with
  | none =>
    rw [hpacket] at h
    exact absurd h hzero
  | some tm_packet =>
    have htm := nextPacket_pos hpacket (by decide)
    have hmin : (BitVec.ofInt 32 (if tm_packet < (f : ℤ) - (0 : ℕ) then tm_packet
        else (f : ℤ) - (0 : ℕ))).toNat ≤ f := by
      rw [BitVec.toNat_ofInt]
      split_ifs <;> omega
    simp only [add_sub_self]
    generalize BitVec.ofInt 32 (if tm_packet < (f : ℤ) - (0 : ℕ) then tm_packet
      else (f : ℤ) - (0 : ℕ)) = minimal at hmin ⊢
    split_ifs with hle'
    · exact ⟨(BitVec.le_def.mp hle').trans hmin, le_rfl⟩
    · exact ⟨hmin, BitVec.le_def.mp (BitVec.le_of_lt (BitVec.not_le.mp hle'))⟩

/-! ## The updates -/

theorem delay_le_interval (kcp : IKCPCB) (current : BitVec 32) :
    delay kcp current ≤ kcp.interval.toNat := by
  rcases Nat.eq_zero_or_pos (delay kcp current) with hzero | hpos
  · rw [hzero]
    exact Nat.zero_le _
  · obtain ⟨f, -, -, hle⟩ := exists_waits hpos
    exact hle

/-- **An update** before the flush only sets the time. -/
theorem Waits.update {f : ℕ} (h : Waits kcp current f) (hk : k < f) :
    kcp.ikcp_update (current + BitVec.ofNat 32 k) =
      .ok ({ kcp with current := current + BitVec.ofNat 32 k }, []) := by
  have hle := h.le
  have hslap := itimediff_add current (n := f) (k := k) (by omega) (by omega)
  rw [← h.ts_flush] at hslap
  rw [ikcp_update, startClock, if_neg h.updated]
  simp only [hslap]
  rw [if_neg]
  omega

/-- The updates before the time of a check output nothing, and only set the time. -/
theorem updates_before_check (kcp : IKCPCB) (current : BitVec 32) {ks : List ℕ}
    (hks : ∀ k ∈ ks, k < delay kcp current) :
    ∃ time, updates current kcp ks = .ok ({ kcp with current := time }, []) := by
  induction ks generalizing kcp with
  | nil => exact ⟨kcp.current, rfl⟩
  | cons k ks ih =>
    obtain ⟨hk, hrest⟩ := List.forall_mem_cons.mp hks
    obtain ⟨f, hwaits, hle, -⟩ := exists_waits (Nat.zero_lt_of_lt hk)
    obtain ⟨time, hupdates⟩ := ih { kcp with current := current + BitVec.ofNat 32 k } hrest
    refine ⟨time, ?_⟩
    rw [updates, hwaits.update (hk.trans_le hle)]
    simp only [bind, Except.bind, hupdates]
    rfl

/-- **Until the time of a check** the updates can be left out, and that time is not further away
than the interval. -/
theorem ikcp_check_spec (kcp : IKCPCB) (current : BitVec 32) :
    delay kcp current ≤ kcp.interval.toNat ∧
      ∀ ks : List ℕ, (∀ k ∈ ks, k < delay kcp current) →
        ∃ time, updates current kcp ks = .ok ({ kcp with current := time }, []) :=
  ⟨delay_le_interval kcp current, fun _ => updates_before_check kcp current⟩

end CodingDemo.Kcp
