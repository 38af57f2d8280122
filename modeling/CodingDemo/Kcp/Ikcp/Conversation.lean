import CodingDemo.Kcp.Ikcp.Endpoint

/-!
# The conversation of a KCP control block

A control block stays in its conversation, and outputs segments of that conversation only.

## Main definitions

* `OfConv`: a datagram with segments of a conversation

## Main results

* `Sound.update_conv`: what an update outputs
* `Sound.input_conv`, `send_conv`, `Sound.recv_conv`: the conversation stays
-/

namespace CodingDemo.Kcp

open IKCPCB

/-- A datagram with segments of a conversation. -/
def OfConv (conv : BitVec 32) (datagram : List UInt8) : Prop :=
  ∃ segs : List IKCPSEG, segs ≠ [] ∧ datagram = segs.flatMap IKCPSEG.bytes ∧
    ∀ seg ∈ segs, seg.conv = conv ∧
      seg.cmd ∈ [IKCP_CMD_PUSH, IKCP_CMD_ACK, IKCP_CMD_WASK, IKCP_CMD_WINS]

variable {kcp kcp' : IKCPCB}

theorem Sound.flush_conv (h : Sound kcp) {datagrams : List (List UInt8)}
    (heq : kcp.ikcp_flush = .ok (kcp', datagrams)) :
    kcp'.conv = kcp.conv ∧ ∀ datagram ∈ datagrams, OfConv kcp.conv datagram := by
  by_cases hupdated : kcp.updated = 0
  · rw [ikcp_flush, if_pos hupdated] at heq
    obtain ⟨rfl, rfl⟩ := Prod.mk.inj (Except.ok.inj heq)
    exact ⟨rfl, fun datagram hd => absurd hd List.not_mem_nil⟩
  obtain ⟨log, next, kept, base, held, hs, hr⟩ := h.stands
  obtain ⟨kcp₁, datagrams₁, xs, ctrl, data, heq₁, hf⟩ :=
    hs.flush h.buffers (h.fits_counts hs) hupdated
  obtain ⟨rfl, rfl⟩ := Prod.mk.inj (Except.ok.inj (heq₁.symm.trans heq))
  refine ⟨congrArg Prod.fst hf.settings, fun datagram hd => ?_⟩
  obtain ⟨groups, rfl, hflatten, hgroups⟩ := hf.packed
  obtain ⟨group, hgroup, rfl⟩ := List.mem_map.mp hd
  refine ⟨group, (hgroups group hgroup).1, rfl, fun seg hseg => ?_⟩
  rcases List.mem_append.mp (hflatten ▸ List.mem_flatten_of_mem hgroup hseg) with hctrl | hdata
  · obtain ⟨hconv, -, -, -, hcmd⟩ := hf.control seg hctrl
    refine ⟨hconv, ?_⟩
    rcases hcmd with ⟨hcmd, -⟩ | hcmd | hcmd <;> rw [hcmd] <;> decide
  · obtain ⟨-, -, p, -, hcore⟩ := hf.push seg hdata
    refine ⟨congrArg Core.conv hcore, ?_⟩
    rw [show seg.cmd = IKCP_CMD_PUSH from congrArg Core.cmd hcore]
    decide

theorem Sound.update_conv (h : Sound kcp) {current : BitVec 32} {datagrams : List (List UInt8)}
    (heq : kcp.ikcp_update current = .ok (kcp', datagrams)) :
    kcp'.conv = kcp.conv ∧ ∀ datagram ∈ datagrams, OfConv kcp.conv datagram := by
  obtain ⟨updated, ts_flush, -, hupdate | hupdate⟩ := ikcp_update_eq kcp current
  · rw [hupdate] at heq
    exact (h.setTime current updated ts_flush).flush_conv heq
  · obtain ⟨rfl, rfl⟩ := Prod.mk.inj (Except.ok.inj (hupdate.symm.trans heq))
    exact ⟨rfl, fun datagram hd => absurd hd List.not_mem_nil⟩

theorem Sound.input_conv (h : Sound kcp) {data : List UInt8} {n : ℤ}
    (heq : kcp.ikcp_input data = .ok (kcp', n)) : kcp'.conv = kcp.conv := by
  obtain ⟨kcp₁, n₁, heq₁, hsettings⟩ := ikcp_input_preserves
    (P := fun kcp₁ => settings kcp₁ = settings kcp)
    (fun kcp₁ maxack hdr data h _ => (settings_inputSegment kcp₁ maxack hdr data).trans h)
    (fun _ _ _ _ h _ => h)
    (fun kcp₁ h₁ => by
      have hmss : kcp₁.mss = kcp.mss := congrArg (fun s => s.2.2.1) h₁
      rw [hmss]
      exact h.buffers.mss_pos) rfl data
  obtain ⟨rfl, -⟩ := Prod.mk.inj (Except.ok.inj (heq₁.symm.trans heq))
  exact congrArg Prod.fst hsettings

/-- What is sent is no business of the receiving half. -/
theorem receiver_send {message : List UInt8} {n : ℤ}
    (heq : kcp.ikcp_send message = .ok (kcp', n)) : receiver kcp' = receiver kcp := by
  have hrest : ∀ (kcp : IKCPCB) (message : List UInt8),
      receiver (kcp.sendRest message).1 = receiver kcp := by
    intro kcp message
    rw [IKCPCB.sendRest]
    split_ifs <;> rfl
  have hext : receiver (kcp.extendLast message).1 = receiver kcp := by
    rw [IKCPCB.extendLast]
    split
    · rfl
    · split_ifs <;> rfl
  rw [ikcp_send] at heq
  split_ifs at heq
  · rcases hres : kcp.extendLast message with ⟨kcp₁, rest⟩
    rw [hres] at heq hext
    simp only at heq
    split_ifs at heq
    · obtain ⟨rfl, -⟩ := Prod.mk.inj (Except.ok.inj heq)
      exact hext
    · have hfst := hrest kcp₁ rest
      rw [Except.ok.inj heq] at hfst
      exact hfst.trans hext
  · have hfst := hrest kcp message
    rw [Except.ok.inj heq] at hfst
    exact hfst

theorem send_conv {message : List UInt8} {n : ℤ} (heq : kcp.ikcp_send message = .ok (kcp', n)) :
    kcp'.conv = kcp.conv :=
  congrArg Prod.fst (receiver_send heq)

theorem receiver_nodelay (kcp : IKCPCB) (mode ms fast nc : ℤ) :
    receiver (kcp.ikcp_nodelay mode ms fast nc) = receiver kcp := by
  rw [ikcp_nodelay]
  split_ifs <;> rfl

theorem nodelay_conv (kcp : IKCPCB) (mode ms fast nc : ℤ) :
    (kcp.ikcp_nodelay mode ms fast nc).conv = kcp.conv :=
  congrArg Prod.fst (receiver_nodelay kcp mode ms fast nc)

theorem Sound.recv_conv (h : Sound kcp) {len n : ℤ} {b : List UInt8}
    (heq : kcp.ikcp_recv len = .ok (kcp', n, b)) : kcp'.conv = kcp.conv := by
  obtain ⟨log, next, kept, base, held, hs, hr⟩ := h.stands
  obtain ⟨result, heq₁, hrecv⟩ := hr.recv len
  obtain rfl := Except.ok.inj (heq₁.symm.trans heq)
  cases hrecv with
  | none => rfl
  | some kcp' moved held' hpeek hlen hheld hmoved =>
    obtain ⟨_, _, _, _, _, _, hsame⟩ := hmoved.same
    rw [hsame]
    split_ifs <;> rfl

end CodingDemo.Kcp
