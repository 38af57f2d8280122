import CodingDemo.Net.RawSocket.UdpPacket

/-!
# The checksum of the ICMP sender

The sender of an echo request adds up the words of its header, with a last byte as it is, and folds
the sum twice with a mask. The UDP client pads its text and masks only the first fold. The machine
is little-endian and `unsigned long` has 64 bits.

## Main definitions

* `checksum`: the checksum of a buffer
* `setup_icmphdr`: the header of an echo request
* `pad`: a buffer padded to an even length

## Main results

* `toNat_checksum`: the checksum is the complement of the ones-complement sum
* `checksum_eq_csum_and_verifies`: the two checksums agree, and a buffer with its checksum verifies
* `onesSum_setup_icmphdr`: the header verifies
-/

namespace CodingDemo.RawSocket

/-- The sum of the words; a last byte is added as it is. -/
def addShorts (sum : UInt64) : List UInt8 → UInt64
  | [] => sum
  | [a] => sum + a.toUInt64
  | a :: b :: bytes => addShorts (sum + (loadShort a b).toUInt64) bytes

/-- The checksum of the whole buffer. -/
def checksum (buf : List UInt8) : UInt16 :=
  let sum := addShorts 0 buf
  let sum := (sum &&& (0xffff : UInt64)) + (sum >>> 16)
  let sum := (sum &&& (0xffff : UInt64)) + (sum >>> 16)
  (~~~sum).toUInt16

/-- The type, the code, the checksum, the id and the sequence number. -/
def setup_icmphdr (type code : UInt8) (id seq : UInt16) : List UInt8 :=
  let icmphdr := List.replicate 8 0
  let icmphdr := store icmphdr 0 [type]
  let icmphdr := store icmphdr 1 [code]
  let icmphdr := store icmphdr 2 (shortBytes 0)
  let icmphdr := store icmphdr 4 (shortBytes id)
  let icmphdr := store icmphdr 6 (shortBytes seq)
  store icmphdr 2 (shortBytes (checksum icmphdr))

/-- The buffer, with a zero behind an odd number of bytes. -/
def pad (buf : List UInt8) : List UInt8 := if 2 ∣ buf.length then buf else buf ++ [0]

/-! ## The checksum -/

section Checksum

variable {buf : List UInt8} {off : ℕ}

theorem toNat_addShorts {sum : UInt64} (h : sum.toNat + (leWords buf).sum < 2 ^ 64) :
    (addShorts sum buf).toNat = sum.toNat + (leWords buf).sum := by
  fun_induction addShorts sum buf with
  | case1 => rfl
  | case2 sum a =>
    rw [leWords, List.sum_singleton] at h ⊢
    rw [UInt64.toNat_add, UInt8.toNat_toUInt64, Nat.mod_eq_of_lt h]
  | case3 sum a b bytes ih =>
    rw [leWords, List.sum_cons, ← toNat_loadShort] at h ⊢
    have hsum : (sum + (loadShort a b).toUInt64).toNat = sum.toNat + (loadShort a b).toNat := by
      rw [UInt64.toNat_add, UInt16.toNat_toUInt64, Nat.mod_eq_of_lt (by omega)]
    rw [ih (by omega), hsum, Nat.add_assoc]

theorem toNat_checksum (h : (leWords buf).sum < 2 ^ 32) :
    (checksum buf).toNat = 65535 - onesRep 65535 (leWords buf).sum := by
  have hzero : (0 : UInt64).toNat = 0 := rfl
  have hsum : (addShorts 0 buf).toNat = (leWords buf).sum := by
    rw [toNat_addShorts (by omega), hzero, zero_add]
  rw [checksum, ← hsum]
  rw [← hsum] at h
  generalize addShorts 0 buf = s at h
  have hfold := toNat_fold s
  rw [← fold_eq_onesRep h hfold]
  -- The mask of the second fold drops the bits that the result does not have.
  rw [toNat_not_toUInt16, UInt64.add_comm, toNat_fold, UInt64.add_comm]
  omega

theorem leWords_pad (buf : List UInt8) : leWords (pad buf) = leWords buf := by
  rw [pad]
  split_ifs with heven
  · rfl
  fun_induction leWords buf with
  | case1 => exact absurd (dvd_zero 2) heven
  | case2 a => rfl
  | case3 a b bytes ih =>
    have hodd : ¬2 ∣ bytes.length := by
      rw [List.length_cons, List.length_cons] at heven
      omega
    rw [List.cons_append, List.cons_append, leWords, ih hodd]

theorem length_leWords (bytes : List UInt8) :
    (leWords bytes).length = (bytes.length + 1) / 2 := by
  fun_induction leWords bytes with
  | case1 => rfl
  | case2 => simp
  | case3 a b bytes ih =>
    simp only [List.length_cons, ih]
    omega

theorem two_dvd_length_pad (buf : List UInt8) : 2 ∣ (pad buf).length := by
  rw [pad]
  split_ifs with heven
  · exact heven
  · rw [List.length_append, List.length_singleton]
    omega

/-- All words of the padded buffer are summed. -/
theorem take_leWords_pad (buf : List UInt8) :
    (leWords (pad buf)).take ((pad buf).length / 2) = leWords buf := by
  have heven := two_dvd_length_pad buf
  have hlen : (leWords (pad buf)).length ≤ (pad buf).length / 2 := by
    rw [length_leWords]
    omega
  rw [List.take_of_length_le hlen, leWords_pad]

theorem sum_leWords_lt (h : buf.length ≤ 2 * 65535) : (leWords buf).sum < 2 ^ 32 := by
  have hle := sum_leWords_le buf
  omega

theorem checksum_eq_csum (h : (leWords buf).sum < 2 ^ 32) :
    checksum buf = csum (pad buf) ((pad buf).length / 2) := by
  apply UInt16.toNat_inj.mp
  rw [toNat_checksum h, toNat_csum (by rwa [take_leWords_pad]), take_leWords_pad]

/-- A word in the place of two zeros is added to the sum. -/
theorem sum_leWords_store {c : UInt16} (heven : 2 ∣ off)
    (hfield : (buf.drop off).take 2 = [0, 0]) :
    (leWords (store buf off (shortBytes c))).sum = (leWords buf).sum + c.toNat := by
  have hle : off ≤ buf.length := by
    by_contra hlt
    rw [List.drop_eq_nil_of_le (by omega)] at hfield
    cases hfield
  have hfront : 2 ∣ (buf.take off).length := by rwa [List.length_take_of_le hle]
  have hsplit : buf = buf.take off ++ (shortBytes 0 ++ buf.drop (off + 2)) := by
    have hzero : shortBytes 0 = (buf.drop off).take 2 := hfield.symm
    rw [hzero, ← List.drop_drop, List.take_append_drop, List.take_append_drop]
  have hbuf : (leWords buf).sum = _ := congrArg (fun bytes => (leWords bytes).sum) hsplit
  rw [sum_leWords_append hfront, sum_leWords_append ⟨1, rfl⟩, sum_leWords_shortBytes] at hbuf
  rw [store, List.append_assoc, sum_leWords_append hfront, sum_leWords_append ⟨1, rfl⟩,
    sum_leWords_shortBytes, hbuf]
  change _ + (_ + (leWords (buf.drop (off + 2))).sum) = _ + (0 + _) + _
  omega

/-- **The checksum in its field**: the words of the buffer sum to the greatest number. -/
theorem onesSum_store {c : UInt16} (heven : 2 ∣ off) (hfield : (buf.drop off).take 2 = [0, 0])
    (hc : c.toNat = 65535 - onesRep 65535 (leWords buf).sum) :
    onesSum 65535 (leWords (store buf off (shortBytes c))) = 65535 := by
  rw [onesSum_leWords, sum_leWords_store heven hfield, hc]
  exact onesRep_add_complement (by decide)

/-- **The two checksums**: that of the sender of ICMP is that of the UDP client over the padded
buffer, and in a field that was zero it makes the buffer verify. -/
theorem checksum_eq_csum_and_verifies (h : buf.length ≤ 2 * 65535) :
    checksum buf = csum (pad buf) ((pad buf).length / 2) ∧
      ∀ off, 2 ∣ off → ((pad buf).drop off).take 2 = [0, 0] →
        onesSum 65535 (leWords (store (pad buf) off (shortBytes (checksum buf)))) = 65535 := by
  have hlt := sum_leWords_lt h
  refine ⟨checksum_eq_csum hlt, fun off heven hfield => ?_⟩
  apply onesSum_store heven hfield
  rw [leWords_pad]
  exact toNat_checksum hlt

/-- An odd number of bytes, with the field behind the first word. -/
theorem checksum_eq_csum_and_verifies_seven :
    [8, 0, 0, 0, 0xff, 0xfe, 7].length ≤ 2 * 65535 ∧
      checksum [8, 0, 0, 0, 0xff, 0xfe, 7] = csum [8, 0, 0, 0, 0xff, 0xfe, 7, 0] 4 ∧
      onesSum 65535 (leWords (store [8, 0, 0, 0, 0xff, 0xfe, 7, 0] 2
        (shortBytes (checksum [8, 0, 0, 0, 0xff, 0xfe, 7])))) = 65535 := by
  have hlen : [8, 0, 0, 0, 0xff, 0xfe, (7 : UInt8)].length ≤ 2 * 65535 := by decide
  exact ⟨hlen, (checksum_eq_csum_and_verifies hlen).1,
    (checksum_eq_csum_and_verifies hlen).2 2 ⟨1, rfl⟩ rfl⟩

/-- The header of every request verifies. -/
theorem onesSum_setup_icmphdr (type code : UInt8) (id seq : UInt16) :
    onesSum 65535 (leWords (setup_icmphdr type code id seq)) = 65535 := by
  have hhdr : setup_icmphdr type code id seq =
      store ([type, code] ++ shortBytes 0 ++ shortBytes id ++ shortBytes seq) 2
        (shortBytes (checksum
          ([type, code] ++ shortBytes 0 ++ shortBytes id ++ shortBytes seq))) := rfl
  rw [hhdr]
  apply onesSum_store ⟨1, rfl⟩ rfl
  exact toNat_checksum (sum_leWords_lt (by decide : 8 ≤ 2 * 65535))

end Checksum

end CodingDemo.RawSocket
