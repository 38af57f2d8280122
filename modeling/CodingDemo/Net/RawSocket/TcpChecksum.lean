import CodingDemo.Net.RawSocket.PseudoHeader

/-!
# The TCP checksum of the raw socket test

The sum over the pseudo-header is computed in 64 bits, folded to 32 and continued over the segment
in 32 bits. A carry out of the 32 bits is lost.

## Main definitions

* `csum_tcpudp_nofold`, `check_sum`: the sum over the pseudo-header, and the checksum
* `NoCarryLost`: the sums that fit

## Main results

* `check_sum_eq_iff`: the checksum is right if and only if no carry is lost
-/

namespace CodingDemo.RawSocket

def csum_tcpudp_nofold (saddr daddr len proto sum : UInt32) : UInt32 :=
  let s := sum.toUInt64
  let s := s + saddr.toUInt64
  let s := s + daddr.toUInt64
  let s := s + ((proto + len) <<< 8).toUInt64
  let s := s + (s >>> 32)
  s.toUInt32

/-- The loop of `check_sum`. A last byte is the low one of a word. -/
def addWords : List UInt8 → UInt32 → UInt32
  | [], sum => sum
  | [a], sum => sum + (loadShort a 0).toUInt32
  | a :: b :: w, sum => addWords w (sum + (loadShort a b).toUInt32)

/-- The checksum of the `len` bytes at `addr`. -/
def check_sum (addr : List UInt8) (sum : UInt32) : UInt16 :=
  let sum := addWords addr sum
  let sum := (sum >>> 16) + (sum &&& 0xffff)
  let sum := sum + (sum >>> 16)
  (~~~sum).toUInt16

/-- The sum over the pseudo-header, folded to 32 bits, and the sum over the segment fit in 32 bits
together. -/
def NoCarryLost (saddr daddr : UInt32) (proto : ℕ) (segment : List UInt8) : Prop :=
  let s := saddr.toNat + daddr.toNat + 2 ^ 8 * (proto + segment.length)
  s % 2 ^ 32 + s / 2 ^ 32 + (leWords segment).sum < 2 ^ 32

instance (saddr daddr : UInt32) (proto : ℕ) (segment : List UInt8) :
    Decidable (NoCarryLost saddr daddr proto segment) := inferInstanceAs (Decidable (_ < _))

/-! ## The sums as numbers -/

section Sums

variable {saddr daddr proto len sum : UInt32}

theorem toNat_addWords (addr : List UInt8) (sum : UInt32) :
    (addWords addr sum).toNat = (sum.toNat + (leWords addr).sum) % 2 ^ 32 := by
  fun_induction addWords addr sum with
  | case1 sum => exact (Nat.mod_eq_of_lt sum.toNat_lt).symm
  | case2 sum a =>
    rw [UInt32.toNat_add, UInt16.toNat_toUInt32, toNat_loadShort]
    rfl
  | case3 sum a b w ih =>
    rw [ih, UInt32.toNat_add, UInt16.toNat_toUInt32, toNat_loadShort, leWords, List.sum_cons,
      Nat.mod_add_mod, Nat.add_assoc]

theorem toNat_csum_tcpudp_nofold (h : len.toNat + proto.toNat < 65536) {s : ℕ}
    (hs : s = saddr.toNat + daddr.toNat + 2 ^ 8 * (proto.toNat + len.toNat)) :
    (csum_tcpudp_nofold saddr daddr len proto 0).toNat = (s + s / 2 ^ 32) % 2 ^ 32 := by
  have hsaddr := saddr.toNat_lt
  have hdaddr := daddr.toNat_lt
  have hshift : ((proto + len) <<< 8).toNat = 2 ^ 8 * (proto.toNat + len.toNat) := by
    rw [UInt32.toNat_shiftLeft, UInt32.toNat_add, Nat.shiftLeft_eq]
    change (proto.toNat + len.toNat) % 2 ^ 32 * 2 ^ 8 % 2 ^ 32 = _
    omega
  have hsum : ((0 : UInt32).toUInt64 + saddr.toUInt64 + daddr.toUInt64 +
      ((proto + len) <<< 8).toUInt64).toNat = s := by
    have hzero : (0 : UInt32).toNat = 0 := rfl
    simp only [UInt64.toNat_add, UInt32.toNat_toUInt64, hshift, hzero]
    omega
  rw [csum_tcpudp_nofold, UInt64.toNat_toUInt32, UInt64.toNat_add, UInt64.toNat_shiftRight, hsum,
    Nat.shiftRight_eq_div_pow]
  change (s + s / 2 ^ 32) % 2 ^ 64 % 2 ^ 32 = _
  omega

theorem toNat_check_sum (addr : List UInt8) (sum : UInt32) :
    (check_sum addr sum).toNat =
      65535 - onesRep 65535 ((sum.toNat + (leWords addr).sum) % 2 ^ 32) := by
  rw [← toNat_addWords, check_sum]
  generalize addWords addr sum = s
  have hlt := s.toNat_lt
  have hfold : ((s >>> 16) + (s &&& 0xffff)).toNat = s.toNat / 2 ^ 16 + s.toNat % 2 ^ 16 := by
    rw [UInt32.toNat_add, UInt32.toNat_shiftRight, UInt32.toNat_and, Nat.shiftRight_eq_div_pow]
    change (s.toNat / 2 ^ 16 + (s.toNat &&& (2 ^ 16 - 1))) % 2 ^ 32 = _
    rw [Nat.and_two_pow_sub_one_eq_mod]
    omega
  rw [← fold_eq_onesRep hlt hfold]
  have ht : ((s >>> 16) + (s &&& 0xffff)).toNat < 2 ^ 17 := by omega
  generalize (s >>> 16) + (s &&& 0xffff) = t at ht
  have hshift : (t >>> 16).toNat = t.toNat / 2 ^ 16 := by
    rw [UInt32.toNat_shiftRight, Nat.shiftRight_eq_div_pow]
    rfl
  have hsum : (t + t >>> 16).toNat = t.toNat + t.toNat / 2 ^ 16 := by
    rw [UInt32.toNat_add, hshift, Nat.mod_eq_of_lt (by omega)]
  have hlt' : t.toNat + t.toNat / 2 ^ 16 < 2 ^ 18 := by omega
  rw [UInt32.toNat_toUInt16, UInt32.toNat_not, hsum]
  change (2 ^ 32 - 1 - (t.toNat + t.toNat / 2 ^ 16)) % 2 ^ 16 = _
  generalize t.toNat + t.toNat / 2 ^ 16 = x at hlt'
  omega

/-- A lost carry changes the sum modulo 65535, and nothing else does. -/
theorem onesRep_folded_eq_iff {p s w : ℕ} (hs : s < 2 ^ 33 + 2 ^ 24) (hw : w ≤ 2 ^ 31)
    (hzero : p = 0 ↔ s = 0) (hmod : p % 65535 = s % 65535) :
    onesRep 65535 (((s + s / 2 ^ 32) % 2 ^ 32 + w) % 2 ^ 32) = onesRep 65535 (p + w) ↔
      s % 2 ^ 32 + s / 2 ^ 32 + w < 2 ^ 32 := by
  have hsplit : s = 2 ^ 32 * (s / 2 ^ 32) + s % 2 ^ 32 := (Nat.div_add_mod s _).symm
  have hr : s % 2 ^ 32 < 2 ^ 32 := Nat.mod_lt s (by decide)
  have hq : s / 2 ^ 32 ≤ 2 := by omega
  generalize s / 2 ^ 32 = q at hsplit hq
  generalize s % 2 ^ 32 = r at hsplit hr
  rw [onesRep_eq_iff]
  constructor
  · rintro ⟨-, hsame⟩
    by_contra hlost
    -- At most one carry is lost, whichever of the two sums it is lost from.
    have hfolded : ((s + q) % 2 ^ 32 + w) % 2 ^ 32 = r + q + w - 2 ^ 32 := by omega
    rw [hfolded] at hsame
    omega
  · intro hfits
    have hfolded : ((s + q) % 2 ^ 32 + w) % 2 ^ 32 = r + q + w := by omega
    rw [hfolded]
    exact ⟨by omega, by omega⟩

end Sums

section Checksum

variable (saddr daddr proto : UInt32) (segment : List UInt8)

/-- **The TCP checksum**: it is the complement of the ones-complement sum of the pseudo-header and
the padded segment if and only if no carry is lost. -/
theorem check_sum_eq_iff (h : segment.length + proto.toNat < 65536) :
    (check_sum segment
        (csum_tcpudp_nofold saddr daddr segment.length.toUInt32 proto 0)).toNat =
      65535 - onesSum 65535
        (leWords (pseudoHeader saddr daddr proto.toNat segment.length ++ segment)) ↔
    NoCarryLost saddr daddr proto.toNat segment := by
  have hlen : segment.length.toUInt32.toNat = segment.length :=
    UInt32.toNat_ofNat_of_lt' (by omega : segment.length < 2 ^ 32)
  have hsaddr := saddr.toNat_lt
  have hdaddr := daddr.toNat_lt
  have hwords := sum_leWords_le segment
  obtain ⟨k, hk, hsum⟩ := sum_leWords_pseudoHeader saddr daddr
    (by omega : proto.toNat < 65536) (by omega : segment.length < 65536)
  rw [onesSum_leWords, sum_leWords_append ⟨6, rfl⟩,
    toNat_check_sum, toNat_csum_tcpudp_nofold (by rw [hlen]; exact h) rfl, hlen]
  rw [complement_eq_iff (by decide), NoCarryLost]
  exact onesRep_folded_eq_iff (by omega) (by omega) (by omega) (by omega)

/-- The carry is lost: the source is 192.168.204.136 and the destination 63.61.51.119. -/
theorem not_check_sum_eq :
    let segment : List UInt8 :=
      [31, 144, 31, 144, 0, 0, 0, 1, 0, 0, 0, 0, 80, 2, 22, 208, 0, 0, 0, 0]
    (check_sum segment (csum_tcpudp_nofold 0x88cca8c0 0x77333d3f 20 6 0)).toNat ≠
      65535 - onesSum 65535 (leWords (pseudoHeader 0x88cca8c0 0x77333d3f 6 20 ++ segment)) := by
  decide

/-- The same segment to the address 192.168.204.1. -/
theorem check_sum_eq_syn :
    let segment : List UInt8 :=
      [31, 144, 31, 144, 0, 0, 0, 1, 0, 0, 0, 0, 80, 2, 22, 208, 0, 0, 0, 0]
    (check_sum segment (csum_tcpudp_nofold 0x88cca8c0 0x01cca8c0 20 6 0)).toNat =
      65535 - onesSum 65535 (leWords (pseudoHeader 0x88cca8c0 0x01cca8c0 6 20 ++ segment)) := by
  intro segment
  exact (check_sum_eq_iff 0x88cca8c0 0x01cca8c0 6 segment (by decide)).mpr (by decide)

end Checksum

end CodingDemo.RawSocket
