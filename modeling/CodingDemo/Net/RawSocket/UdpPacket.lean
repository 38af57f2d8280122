import CodingDemo.Net.RawSocket.PseudoHeader

/-!
# The packets of the UDP client with a raw socket

The client writes the headers of IP and UDP into a buffer. The checksum is over a copy of the UDP
header and the payload behind a pseudo-header.

## Main definitions

* `csum`: the checksum of words
* `setup_packet`: the packet in the buffer
* `datagram`: the UDP datagram that is sent
* `Verifies`: a datagram with a checksum that the receiver accepts
* `wordSum`: the plain sum of what the checksum is over

## Main results

* `datagram_setup_packet`: the datagram in the packet
* `verifies_iff`: the datagram verifies if and only if its words do not add up to a multiple of
  65535
-/

namespace CodingDemo.RawSocket

def BUFLEN : ℕ := 100

/-- The port and the address are in network order. -/
structure SockaddrIn where
  sin_port : UInt16
  sin_addr : UInt32

def htons (n : ℕ) : UInt16 := loadShort (n / 2 ^ 8).toUInt8 n.toUInt8

/-- The checksum of the first `nwords` words of the buffer. -/
def csum (buf : List UInt8) (nwords : ℕ) : UInt16 :=
  let sum : UInt64 := ((leWords buf).take nwords).foldl (fun sum w => sum + w.toUInt64) 0
  let sum := (sum >>> 16) + (sum &&& 0xffff)
  let sum := sum + (sum >>> 16)
  (~~~sum).toUInt16

/-- Bytes are written to an offset of a buffer. -/
def store (buffer : List UInt8) (off : ℕ) (bytes : List UInt8) : List UInt8 :=
  buffer.take off ++ bytes ++ buffer.drop (off + bytes.length)

/-- The IP header: version 4 and 5 words, a type of service of 4, the id 4, no fragments, a time to
live of 255, and no checksum. -/
def ipHeader (saddr daddr : SockaddrIn) (ip_len : ℕ) : List UInt8 :=
  [0x45, 4] ++ shortBytes (htons ip_len) ++ shortBytes (htons 4) ++ [0, 0, 255, 17, 0, 0] ++
    addrBytes saddr.sin_addr ++ addrBytes daddr.sin_addr

/-- The buffer with the packet, and the length of the packet. -/
def setup_packet (buffer : List UInt8) (saddr daddr : SockaddrIn) (str : List UInt8) :
    List UInt8 × ℕ :=
  let ip_hl := 5
  let ip_len := ip_hl * 4 + 8 + str.length
  let buffer := store buffer 0 (ipHeader saddr daddr ip_len)
  let udp := ip_hl * 4
  let udplen := htons (8 + str.length)
  let buffer := store buffer udp
    (shortBytes saddr.sin_port ++ shortBytes daddr.sin_port ++ shortBytes udplen)
  let uph := addrBytes saddr.sin_addr ++ addrBytes daddr.sin_addr ++ [0, 17] ++ shortBytes udplen
  -- The buffer has zeros where the checksum will be.
  let cksum := uph ++ (buffer.drop udp).take 8 ++ str ++ [0]
  let check := csum cksum ((8 + 12 + str.length + 1) / 2)
  let buffer := store buffer (udp + 6) (shortBytes check)
  let buffer := store buffer (udp + 8) str
  (buffer, ip_len)

/-! ## What the receiver checks -/

/-- The checksum is not 0, which stands for none, and the ones-complement sum with the pseudo-header
is `0xffff`. -/
def Verifies (saddr daddr : UInt32) (datagram : List UInt8) : Prop :=
  (datagram.drop 6).take 2 ≠ [0, 0] ∧
    onesSum 65535 (leWords (pseudoHeader saddr daddr 17 datagram.length ++ datagram)) = 65535

instance (saddr daddr : UInt32) (datagram : List UInt8) :
    Decidable (Verifies saddr daddr datagram) := inferInstanceAs (Decidable (_ ∧ _))

/-- The datagram behind the IP header. -/
def datagram (packet : List UInt8 × ℕ) : List UInt8 := (packet.1.take packet.2).drop 20

/-- The ports and the length. -/
def udpFields (sport dport : UInt16) (len : ℕ) : List UInt8 :=
  shortBytes sport ++ shortBytes dport ++ beBytes len

/-- The sum of the words of the pseudo-header, of the UDP header without its checksum, and of the
payload. -/
def wordSum (saddr daddr : SockaddrIn) (str : List UInt8) : ℕ :=
  (leWords (pseudoHeader saddr.sin_addr daddr.sin_addr 17 (8 + str.length))).sum +
    (leWords (udpFields saddr.sin_port daddr.sin_port (8 + str.length))).sum + (leWords str).sum

/-! ## The checksum -/

section Csum

theorem shortBytes_htons (n : ℕ) : shortBytes (htons n) = beBytes n := shortBytes_loadShort _ _

theorem toNat_sum_words (sum : UInt64) {ws : List ℕ} (h : sum.toNat + ws.sum < 2 ^ 64) :
    (ws.foldl (fun sum w => sum + w.toUInt64) sum).toNat = sum.toNat + ws.sum := by
  induction ws generalizing sum with
  | nil => rfl
  | cons w ws ih =>
    rw [List.sum_cons] at h
    have hsum : (sum + w.toUInt64).toNat = sum.toNat + w := by
      rw [UInt64.toNat_add]
      change (sum.toNat + w % 2 ^ 64) % 2 ^ 64 = _
      omega
    rw [List.foldl_cons, ih _ (by omega), hsum, List.sum_cons, Nat.add_assoc]

/-- A fold with a mask. -/
theorem toNat_fold (s : UInt64) :
    ((s >>> 16) + (s &&& 0xffff)).toNat = s.toNat / 2 ^ 16 + s.toNat % 2 ^ 16 := by
  have hlt := s.toNat_lt
  rw [UInt64.toNat_add, UInt64.toNat_shiftRight, UInt64.toNat_and, Nat.shiftRight_eq_div_pow]
  change (s.toNat / 2 ^ 16 + (s.toNat &&& (2 ^ 16 - 1))) % 2 ^ 64 = _
  rw [Nat.and_two_pow_sub_one_eq_mod]
  omega

/-- The complement of a sum, as a `short`. -/
theorem toNat_not_toUInt16 (s : UInt64) : (~~~s).toUInt16.toNat = 65535 - s.toNat % 2 ^ 16 := by
  have hlt := s.toNat_lt
  rw [UInt64.toNat_toUInt16, UInt64.toNat_not]
  change (2 ^ 64 - 1 - s.toNat) % 2 ^ 16 = _
  omega

theorem toNat_csum {buf : List UInt8} {nwords : ℕ}
    (h : ((leWords buf).take nwords).sum < 2 ^ 32) :
    (csum buf nwords).toNat = 65535 - onesRep 65535 ((leWords buf).take nwords).sum := by
  have hzero : (0 : UInt64).toNat = 0 := rfl
  have hsum := toNat_sum_words 0 (by omega : _ + ((leWords buf).take nwords).sum < 2 ^ 64)
  rw [hzero, zero_add] at hsum
  rw [csum, ← hsum]
  rw [← hsum] at h
  generalize ((leWords buf).take nwords).foldl _ _ = s at h
  have hfold := toNat_fold s
  rw [← fold_eq_onesRep h hfold]
  have ht : ((s >>> 16) + (s &&& 0xffff)).toNat < 2 ^ 17 := by omega
  generalize (s >>> 16) + (s &&& 0xffff) = t at ht
  have hshift : (t >>> 16).toNat = t.toNat / 2 ^ 16 := by
    rw [UInt64.toNat_shiftRight, Nat.shiftRight_eq_div_pow]
    rfl
  have hsum : (t + t >>> 16).toNat = t.toNat + t.toNat / 2 ^ 16 := by
    rw [UInt64.toNat_add, hshift, Nat.mod_eq_of_lt (by omega)]
  rw [toNat_not_toUInt16, hsum]

/-- The zero behind the text pads a last byte, and is not summed otherwise. -/
theorem take_leWords_append_zero (bytes : List UInt8) :
    (leWords (bytes ++ [0])).take ((bytes.length + 1) / 2) = leWords bytes := by
  fun_induction leWords bytes with
  | case1 => rfl
  | case2 a => simp [leWords]
  | case3 a b bytes ih =>
    have hlen : ((a :: b :: bytes).length + 1) / 2 = (bytes.length + 1) / 2 + 1 := by
      simp only [List.length_cons]
      omega
    rw [hlen, List.cons_append, List.cons_append, leWords, List.take_succ_cons, ih]

theorem toNat_csum_append_zero {bytes : List UInt8} (h : (leWords bytes).sum < 2 ^ 32) :
    (csum (bytes ++ [0]) ((bytes.length + 1) / 2)).toNat =
      65535 - onesRep 65535 (leWords bytes).sum := by
  rw [toNat_csum (by rwa [take_leWords_append_zero]), take_leWords_append_zero]

end Csum

/-! ## The packet -/

section Packet

variable {saddr daddr : SockaddrIn} {str : List UInt8} {n : ℕ}

theorem store_append {a b c bytes : List UInt8} {off : ℕ} (ha : a.length = off)
    (hb : b.length = bytes.length) : store (a ++ (b ++ c)) off bytes = a ++ (bytes ++ c) := by
  rw [store, List.take_left' ha, ← ha, ← hb, ← List.length_append, ← List.append_assoc,
    List.drop_left, List.append_assoc]

@[simp] theorem length_udpFields (sport dport : UInt16) (len : ℕ) :
    (udpFields sport dport len).length = 6 := rfl

/-- The pseudo-header, the UDP header with a checksum, and the payload. -/
def summed (saddr daddr : SockaddrIn) (check : UInt16) (str : List UInt8) : List UInt8 :=
  pseudoHeader saddr.sin_addr daddr.sin_addr 17 (8 + str.length) ++
    (udpFields saddr.sin_port daddr.sin_port (8 + str.length) ++ (shortBytes check ++ str))

theorem length_summed (check : UInt16) :
    (summed saddr daddr check str).length = 8 + 12 + str.length := by
  simp [summed, shortBytes]
  omega

theorem sum_leWords_summed (check : UInt16) :
    (leWords (summed saddr daddr check str)).sum = wordSum saddr daddr str + check.toNat := by
  rw [summed, sum_leWords_append ⟨6, rfl⟩, sum_leWords_append ⟨3, rfl⟩,
    sum_leWords_append ⟨1, rfl⟩, sum_leWords_shortBytes, wordSum]
  omega

theorem wordSum_lt (h : str.length ≤ 65535) : wordSum saddr daddr str < 2 ^ 32 := by
  have hpseudo := sum_leWords_le (pseudoHeader saddr.sin_addr daddr.sin_addr 17 (8 + str.length))
  have hfields := sum_leWords_le (udpFields saddr.sin_port daddr.sin_port (8 + str.length))
  have hstr := sum_leWords_le str
  rw [length_pseudoHeader] at hpseudo
  rw [length_udpFields] at hfields
  rw [wordSum]
  omega

/-- The checksum that the packet gets. -/
def packetCheck (saddr daddr : SockaddrIn) (str : List UInt8) : UInt16 :=
  (65535 - onesRep 65535 (wordSum saddr daddr str)).toUInt16

theorem toNat_packetCheck :
    (packetCheck saddr daddr str).toNat = 65535 - onesRep 65535 (wordSum saddr daddr str) :=
  UInt16.toNat_ofNat_of_lt' (by omega : _ < 2 ^ 16)

theorem csum_eq_packetCheck (h : str.length ≤ 65535) :
    csum (summed saddr daddr 0 str ++ [0]) ((8 + 12 + str.length + 1) / 2) =
      packetCheck saddr daddr str := by
  have hzero : (0 : UInt16).toNat = 0 := rfl
  have hsum : (leWords (summed saddr daddr 0 str)).sum = wordSum saddr daddr str := by
    rw [sum_leWords_summed, hzero, add_zero]
  apply UInt16.toNat_inj.mp
  rw [← length_summed, toNat_csum_append_zero (by rw [hsum]; exact wordSum_lt h), hsum,
    toNat_packetCheck]

/-- The parts of the zeroed buffer that are written. -/
theorem replicate_eq_parts (hfits : 28 + str.length ≤ n) :
    List.replicate n (0 : UInt8) = List.replicate 20 0 ++ (List.replicate 6 0 ++
      (shortBytes 0 ++
        (List.replicate str.length 0 ++ List.replicate (n - 28 - str.length) 0))) := by
  change _ = List.replicate 20 0 ++ (List.replicate 6 0 ++ (List.replicate 2 0 ++ _))
  rw [List.replicate_append_replicate, List.replicate_append_replicate,
    List.replicate_append_replicate, List.replicate_append_replicate]
  congr 1
  omega

/-- What is copied for the checksum: the pseudo-header, and the UDP header from the buffer, where
the checksum is still 0. -/
theorem copy_eq_summed {front rest : List UInt8} (hfront : front.length = 5 * 4) :
    addrBytes saddr.sin_addr ++ addrBytes daddr.sin_addr ++ [0, 17] ++
      shortBytes (htons (8 + str.length)) ++
      ((front ++ (udpFields saddr.sin_port daddr.sin_port (8 + str.length) ++
        (shortBytes 0 ++ rest))).drop (5 * 4)).take 8 ++ str = summed saddr daddr 0 str := by
  have hcopy : ((udpFields saddr.sin_port daddr.sin_port (8 + str.length) ++
      (shortBytes 0 ++ rest))).take 8 =
        udpFields saddr.sin_port daddr.sin_port (8 + str.length) ++ shortBytes 0 := rfl
  rw [List.drop_left' hfront, hcopy, shortBytes_htons, summed, List.append_assoc,
    List.append_assoc]
  rfl

/-- **The packet**: the headers, the checksum and the payload, and what is left of the buffer. -/
theorem setup_packet_eq (hfits : 28 + str.length ≤ n) (hn : n ≤ 65535) :
    setup_packet (List.replicate n 0) saddr daddr str =
      (ipHeader saddr daddr (28 + str.length) ++
        (udpFields saddr.sin_port daddr.sin_port (8 + str.length) ++
          (shortBytes (packetCheck saddr daddr str) ++
            (str ++ List.replicate (n - 28 - str.length) 0))), 28 + str.length) := by
  have hfields : shortBytes saddr.sin_port ++ shortBytes daddr.sin_port ++
      shortBytes (htons (8 + str.length)) =
        udpFields saddr.sin_port daddr.sin_port (8 + str.length) := by
    rw [shortBytes_htons, udpFields]
  have hlen : 5 * 4 + 8 + str.length = 28 + str.length := by omega
  -- The lengths of what is replaced, and of what is in front of it.
  have hstart : (List.replicate 20 (0 : UInt8)).length =
      (ipHeader saddr daddr (28 + str.length)).length := rfl
  have hheader : (List.replicate 6 (0 : UInt8)).length =
      (udpFields saddr.sin_port daddr.sin_port (8 + str.length)).length := rfl
  have hcheck : (shortBytes 0).length = (shortBytes (packetCheck saddr daddr str)).length := rfl
  have hip : (ipHeader saddr daddr (28 + str.length)).length = 5 * 4 := rfl
  have hfront : (ipHeader saddr daddr (28 + str.length) ++
      udpFields saddr.sin_port daddr.sin_port (8 + str.length)).length = 5 * 4 + 6 := rfl
  have hpayload : (ipHeader saddr daddr (28 + str.length) ++
      udpFields saddr.sin_port daddr.sin_port (8 + str.length) ++
        shortBytes (packetCheck saddr daddr str)).length = 5 * 4 + 8 := rfl
  simp only [setup_packet]
  rw [hlen, replicate_eq_parts hfits, ← List.nil_append (List.replicate 20 0 ++ _),
    store_append List.length_nil hstart, List.nil_append, hfields, store_append hip hheader,
    copy_eq_summed hip, csum_eq_packetCheck (by omega), ← List.append_assoc (ipHeader _ _ _),
    store_append hfront hcheck, ← List.append_assoc (_ ++ udpFields _ _ _),
    store_append hpayload List.length_replicate, List.append_assoc, List.append_assoc]

/-- The datagram in the packet. -/
theorem datagram_setup_packet (hfits : 28 + str.length ≤ n) (hn : n ≤ 65535) :
    datagram (setup_packet (List.replicate n 0) saddr daddr str) =
      udpFields saddr.sin_port daddr.sin_port (8 + str.length) ++
        (shortBytes (packetCheck saddr daddr str) ++ str) := by
  have hip : (ipHeader saddr daddr (28 + str.length)).length = 20 := rfl
  have hlen : (ipHeader saddr daddr (28 + str.length) ++
      (udpFields saddr.sin_port daddr.sin_port (8 + str.length) ++
        (shortBytes (packetCheck saddr daddr str) ++ str))).length = 28 + str.length := by
    simp [hip, shortBytes]
    omega
  rw [setup_packet_eq hfits hn, datagram, ← List.append_assoc (shortBytes _),
    ← List.append_assoc (udpFields _ _ _),
    ← List.append_assoc (ipHeader _ _ _), List.take_left' hlen, List.drop_left' hip]

/-- The words are not all 0: one is the protocol. -/
theorem wordSum_pos (h : str.length ≤ 65507) : 0 < wordSum saddr daddr str := by
  obtain ⟨k, hk, hsum⟩ := sum_leWords_pseudoHeader saddr.sin_addr daddr.sin_addr
    (by decide : 17 < 65536) (by omega : 8 + str.length < 65536)
  rw [wordSum]
  omega

theorem shortBytes_eq_zero_iff {c : UInt16} : shortBytes c = [0, 0] ↔ c.toNat = 0 := by
  constructor
  · intro h
    rw [← sum_leWords_shortBytes, h]
    rfl
  · intro h
    rw [UInt16.toNat_inj.mp (h.trans rfl : c.toNat = (0 : UInt16).toNat)]
    rfl

/-- The datagram with its checksum verifies if and only if the checksum is not 0. -/
theorem verifies_packetCheck_iff (h : str.length ≤ 65507) :
    Verifies saddr.sin_addr daddr.sin_addr
      (udpFields saddr.sin_port daddr.sin_port (8 + str.length) ++
        (shortBytes (packetCheck saddr daddr str) ++ str)) ↔ ¬65535 ∣ wordSum saddr daddr str := by
  have hlen : (udpFields saddr.sin_port daddr.sin_port (8 + str.length) ++
      (shortBytes (packetCheck saddr daddr str) ++ str)).length = 8 + str.length := by
    simp [shortBytes]
    omega
  have hfield : ((udpFields saddr.sin_port daddr.sin_port (8 + str.length) ++
      (shortBytes (packetCheck saddr daddr str) ++ str)).drop 6).take 2 =
        shortBytes (packetCheck saddr daddr str) := by
    rw [List.drop_left' (length_udpFields _ _ _)]
    rfl
  have hsum : onesSum 65535 (leWords (summed saddr daddr (packetCheck saddr daddr str) str)) =
      65535 := by
    rw [onesSum_leWords, sum_leWords_summed, toNat_packetCheck]
    exact onesRep_add_complement (by decide)
  rw [summed] at hsum
  rw [Verifies, hfield, hlen, and_iff_left hsum, Ne, shortBytes_eq_zero_iff, toNat_packetCheck,
    complement_eq_zero_iff (by decide) (wordSum_pos h), Nat.dvd_iff_mod_eq_zero]

/-- **The UDP checksum**: the datagram in the packet verifies if and only if its words do not add up
to a multiple of 65535. Otherwise the checksum is sent as 0. -/
theorem verifies_iff (saddr daddr : SockaddrIn) (hfits : 28 + str.length ≤ BUFLEN) :
    Verifies saddr.sin_addr daddr.sin_addr
        (datagram (setup_packet (List.replicate BUFLEN 0) saddr daddr str)) ↔
      ¬65535 ∣ wordSum saddr daddr str := by
  rw [BUFLEN] at hfits ⊢
  rw [datagram_setup_packet hfits (by decide), verifies_packetCheck_iff (by omega)]

/-- From 127.0.0.2:6666 to 127.0.0.1:8888 the checksum of this payload is 0. -/
theorem not_verifies_zero :
    ¬Verifies 0x0200007f 0x0100007f (datagram (setup_packet (List.replicate BUFLEN 0)
      ⟨0x0a1a, 0x0200007f⟩ ⟨0xb822, 0x0100007f⟩ [197, 20])) := by
  decide

/-- The payload of the client. -/
theorem verifies_hello :
    Verifies 0x0200007f 0x0100007f (datagram (setup_packet (List.replicate BUFLEN 0)
      ⟨0x0a1a, 0x0200007f⟩ ⟨0xb822, 0x0100007f⟩
      [104, 101, 108, 108, 111, 32, 119, 111, 114, 108, 100, 33, 0])) :=
  (verifies_iff ⟨0x0a1a, 0x0200007f⟩ ⟨0xb822, 0x0100007f⟩ (by decide)).mpr (by decide)

end Packet

end CodingDemo.RawSocket
