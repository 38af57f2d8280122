import CodingDemo.Machine.OnesComplement

/-!
# The pseudo-header of TCP and UDP

The checksum of a segment or a datagram is over a pseudo-header that the receiver puts in front of
it. The machine is little-endian.

## Main definitions

* `loadShort`, `shortBytes`, `beBytes`, `addrBytes`: numbers in memory
* `pseudoHeader`: the addresses, the protocol and the length

## Main results

* `sum_leWords_pseudoHeader`: the words of the pseudo-header and the numbers in it
-/

namespace CodingDemo.RawSocket

/-- A load of two bytes. -/
def loadShort (a b : UInt8) : UInt16 := a.toUInt16 + b.toUInt16 <<< 8

/-- The bytes of a `short` in memory. -/
def shortBytes (n : UInt16) : List UInt8 := [n.toUInt8, (n >>> 8).toUInt8]

/-- The bytes of an address in memory, where it is in network order. -/
def addrBytes (addr : UInt32) : List UInt8 :=
  [addr.toUInt8, (addr >>> 8).toUInt8, (addr >>> 16).toUInt8, (addr >>> 24).toUInt8]

/-- Two bytes in network order. -/
def beBytes (n : ℕ) : List UInt8 := [(n / 2 ^ 8).toUInt8, n.toUInt8]

/-- The addresses, a zero and the protocol, and the length. -/
def pseudoHeader (saddr daddr : UInt32) (proto len : ℕ) : List UInt8 :=
  addrBytes saddr ++ addrBytes daddr ++ beBytes proto ++ beBytes len

@[simp] theorem length_pseudoHeader (saddr daddr : UInt32) (proto len : ℕ) :
    (pseudoHeader saddr daddr proto len).length = 12 := rfl

theorem toNat_loadShort (a b : UInt8) : (loadShort a b).toNat = a.toNat + 2 ^ 8 * b.toNat := by
  have := a.toNat_lt
  have := b.toNat_lt
  simp [loadShort, Nat.shiftLeft_eq]
  omega

/-- A `short` is stored as it was loaded. -/
theorem shortBytes_loadShort (a b : UInt8) : shortBytes (loadShort a b) = [a, b] := by
  have ha := a.toNat_lt
  have hb := b.toNat_lt
  rw [shortBytes]
  congr 2
  · apply UInt8.toNat_inj.mp
    rw [UInt16.toNat_toUInt8, toNat_loadShort]
    omega
  · apply UInt8.toNat_inj.mp
    rw [UInt16.toNat_toUInt8, UInt16.toNat_shiftRight, toNat_loadShort, Nat.shiftRight_eq_div_pow]
    change (a.toNat + 2 ^ 8 * b.toNat) / 2 ^ 8 % 2 ^ 8 = _
    omega

theorem sum_leWords_shortBytes (n : UInt16) : (leWords (shortBytes n)).sum = n.toNat := by
  have hlt := n.toNat_lt
  simp [shortBytes, leWords, Nat.shiftRight_eq_div_pow]
  omega

theorem sum_leWords_addrBytes (addr : UInt32) :
    (leWords (addrBytes addr)).sum = addr.toNat % 2 ^ 16 + addr.toNat / 2 ^ 16 := by
  have hlt := addr.toNat_lt
  simp [addrBytes, leWords, Nat.shiftRight_eq_div_pow]
  omega

theorem sum_leWords_beBytes {n : ℕ} (h : n < 65536) :
    (leWords (beBytes n)).sum = n / 2 ^ 8 + 2 ^ 8 * (n % 2 ^ 8) := by
  simp [beBytes, leWords]
  omega

/-- The words of the pseudo-header and the sum of the numbers in it, of 32 bits in the case of the
addresses, differ by a multiple of 65535. -/
theorem sum_leWords_pseudoHeader (saddr daddr : UInt32) {proto len : ℕ} (hproto : proto < 65536)
    (hlen : len < 65536) :
    ∃ k ≤ (leWords (pseudoHeader saddr daddr proto len)).sum,
      saddr.toNat + daddr.toNat + 2 ^ 8 * (proto + len) =
        (leWords (pseudoHeader saddr daddr proto len)).sum + 65535 * k := by
  have hsum : (leWords (pseudoHeader saddr daddr proto len)).sum =
      saddr.toNat % 2 ^ 16 + saddr.toNat / 2 ^ 16 + (daddr.toNat % 2 ^ 16 + daddr.toNat / 2 ^ 16) +
        (proto / 2 ^ 8 + 2 ^ 8 * (proto % 2 ^ 8)) + (len / 2 ^ 8 + 2 ^ 8 * (len % 2 ^ 8)) := by
    rw [pseudoHeader, sum_leWords_append ⟨5, rfl⟩, sum_leWords_append ⟨4, rfl⟩,
      sum_leWords_append ⟨2, rfl⟩, sum_leWords_addrBytes, sum_leWords_addrBytes,
      sum_leWords_beBytes hproto, sum_leWords_beBytes hlen]
  rw [hsum]
  exact ⟨saddr.toNat / 2 ^ 16 + daddr.toNat / 2 ^ 16 + proto / 2 ^ 8 + len / 2 ^ 8, by omega,
    by omega⟩

end CodingDemo.RawSocket
