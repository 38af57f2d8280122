import CodingDemo.Net.TcpConnection.Output

/-!
# When a connection is closed for writing

`shutdown` closes the socket for writing only if the channel has no write interest; otherwise the
end of `handleWrite` does it when the buffer has been drained. The socket is therefore not closed
before the data is out, and it is closed in the end. The completion callback runs between the
draining and the check, so during the callback `handleWrite` still owes the close.

## Main definitions

* `established`: a connection just after `connectEstablished`
* `Disconnecting`, `Owes`: the invariants after `shutdown`
* `HalfClose`: the invariant of an established connection

## Main results

* `halfClose_step`: the steps before `handleClose` keep the invariant
* `halfClosed_after_data`: what holds at and after the close, in every run
-/

namespace CodingDemo.Libcpp.TcpConnection

variable {q q' : TcpConnection} {e : Event} {msg : Message} {b : List UInt8}

/-- A connection just after `connectEstablished`. -/
def established (writeCompleteCallback : Bool) : TcpConnection :=
  { init writeCompleteCallback with
    state := .kConnected
    channel := ({} : Channel).enableReading
    bound := [] }

/-- The connection is shut down, and `b` was passed to `send` before. -/
structure Disconnecting (q : TcpConnection) (b : List UInt8) : Prop where
  state : q.state = .kDisconnecting
  not_owed : .connectEstablished ∉ q.owed
  before : q.beforeShutdown = some b
  sent : b <+: q.sent.flatMap Message.bytes
  shut : ∀ a ∈ q.shutdowns, b <+: a

/-- The socket is closed for writing, or will be. -/
def Owes (q : TcpConnection) : Prop :=
  q.outputBuffer.bytes ≠ [] ∨ q.shutdowns ≠ [] ∨ .shutdownInLoop ∈ q.owed ∨ .handleWrite ∈ q.frames

/-- The invariant of an established connection. -/
inductive HalfClose (q : TcpConnection) : Prop
  | connected (hstate : q.state = .kConnected) (howed : q.owed = [])
      (hpassed : q.passed = q.sent.flatMap Message.bytes) (hshut : q.shutdowns = [])
  | disconnecting {b : List UInt8} (h : Disconnecting q b) (howes : Owes q)

/-! ## Sending -/

theorem Disconnecting.congr (h : Disconnecting q b) (hstate : q'.state = q.state)
    (howed : q'.owed ⊆ q.owed) (hbefore : q'.beforeShutdown = q.beforeShutdown)
    (hsent : q'.sent = q.sent) (hshut : q'.shutdowns = q.shutdowns) : Disconnecting q' b := by
  refine ⟨hstate.trans h.state, fun hmem => h.not_owed (howed hmem), hbefore.trans h.before, ?_, ?_⟩
  · rw [hsent]
    exact h.sent
  · rw [hshut]
    exact h.shut

theorem Disconnecting.sends (h : Disconnecting q b) (hs : Sends q msg q') :
    Disconnecting q' b := by
  obtain ⟨hstate, howed, -, -, hbefore, hshut, hsent⟩ := hs.same
  refine ⟨hstate.trans h.state, howed ▸ h.not_owed, hbefore.trans h.before, ?_, hshut ▸ h.shut⟩
  rw [hsent, List.flatMap_append]
  exact h.sent.trans (List.prefix_append _ _)

theorem Owes.sends (h : Owes q) (hs : Sends q msg q') : Owes q' := by
  cases hs with
  | wrote hempty _ hframes =>
    rcases h with hne | hshut | howed | hframe
    · exact absurd hempty hne
    · exact .inr (.inl hshut)
    · exact .inr (.inr (.inl howed))
    · refine .inr (.inr (.inr ?_))
      rcases hframes with rfl | rfl
      · exact hframe
      · exact List.mem_cons_of_mem _ hframe
  | skipped => exact h
  | buffered hk _ hbytes =>
    -- the buffer is not empty any more
    refine .inl ?_
    rw [hbytes]
    simp [List.drop_eq_nil_iff, hk]

/-! ## Closing for writing -/

/-- The close: the socket is closed unless there is write interest. -/
def closed (q : TcpConnection) : TcpConnection :=
  if q.channel.isWriting then q else { q with shutdowns := q.shutdowns ++ [q.accepted] }

/-- **The close** is either done, with all data out, or the buffer is not empty. -/
theorem Disconnecting.close (h : Disconnecting q b)
    (hout : q.channel.isWriting = false → q.accepted = q.sent.flatMap Message.bytes)
    (hne : q.channel.isWriting = true → q.outputBuffer.bytes ≠ []) : HalfClose q.closed := by
  unfold closed
  split_ifs with hwriting
  · exact .disconnecting h (.inl (hne hwriting))
  · refine .disconnecting ⟨h.state, h.not_owed, h.before, h.sent, fun a ha => ?_⟩
      (.inr (.inl (by simp)))
    rcases List.mem_append.mp ha with ha | ha
    · exact h.shut a ha
    · rw [List.mem_singleton.mp ha, hout (Bool.eq_false_of_not_eq_true hwriting)]
      exact h.sent

theorem finishWrite_eq_closed (hstate : q.state = .kDisconnecting) :
    q.finishWrite = .ok q.closed := by
  rw [finishWrite_eq, closed]
  cases hw : q.channel.isWriting <;> simp [hstate]

/-- Before `handleClose` everything is out when there is no write interest. -/
theorem accepted_eq (ho : Output q) (hopen : Open q) (hwriting : q.channel.isWriting = false) :
    q.accepted = q.sent.flatMap Message.bytes := by
  have hempty : q.outputBuffer.bytes = [] := by
    by_contra hne
    cases hwriting.symm.trans (hopen.interest hne)
  have hstream := ho.stream
  rwa [hempty, List.append_nil] at hstream

/-- The end of `handleWrite`, of whose callback the connection knows no more. -/
theorem HalfClose.finish (ho : Output q) (hopen : Open q)
    (h : HalfClose q ∨ ∃ b, Disconnecting q b) (hs : q.finishWrite = .ok q') : HalfClose q' := by
  -- once the connection is disconnecting, the end of `handleWrite` is the close
  have hclose : ∀ {b}, Disconnecting q b → HalfClose q' := by
    intro b hd
    obtain rfl := Except.ok.inj ((finishWrite_eq_closed hd.state).symm.trans hs)
    exact hd.close (accepted_eq ho hopen) ho.writing
  rcases h with hconnected | ⟨b, hd⟩
  · cases hconnected with
    | connected hstate howed hpassed hshut =>
      -- a connected connection is left as it is
      have hkept : ¬ (q.state = .kDisconnecting ∧ q.channel.isWriting = false) := by
        rintro ⟨hd, -⟩
        cases hstate.symm.trans hd
      rw [finishWrite_eq, if_neg hkept] at hs
      obtain rfl := Except.ok.inj hs
      exact .connected hstate howed hpassed hshut
    | disconnecting hd _ => exact hclose hd
  · exact hclose hd

theorem HalfClose.writes (ho : Output q) (hopen : Open q) (h : HalfClose q) (hs : Writes q q') :
    HalfClose q' := by
  cases h with
  | connected hstate howed hpassed hshut =>
    cases hs with
    | kept => exact .connected hstate howed hpassed hshut
    | some => exact .connected hstate howed hpassed hshut
    | called => exact .connected hstate howed hpassed hshut
    | finished _ hbytes hfinish =>
      refine HalfClose.finish (ho.drain hbytes) (hopen.drain hbytes) (.inl ?_) hfinish
      exact .connected hstate howed hpassed hshut
  | @disconnecting b hd howes =>
    cases hs with
    | kept => exact .disconnecting hd howes
    | some hk hbytes =>
      refine .disconnecting (hd.congr rfl (fun _ hf => hf) rfl rfl rfl) (.inl ?_)
      rw [hbytes, Ne, List.drop_eq_nil_iff, not_le]
      exact hk
    | called =>
      -- the callback runs before the check, so the close is owed
      refine .disconnecting (hd.congr rfl (fun _ hf => hf) rfl rfl rfl) ?_
      exact .inr (.inr (.inr List.mem_cons_self))
    | finished _ hbytes hfinish =>
      refine HalfClose.finish (ho.drain hbytes) (hopen.drain hbytes) (.inr ⟨b, ?_⟩) hfinish
      exact hd.congr rfl (fun _ hf => hf) rfl rfl rfl

/-! ## Functors -/

theorem Owes.mono (h : Owes q) (hb : q'.outputBuffer = q.outputBuffer)
    (hshut : q'.shutdowns = q.shutdowns) (howed : q.owed ⊆ q'.owed)
    (hframes : q.frames ⊆ q'.frames) : Owes q' := by
  unfold Owes
  rw [hb, hshut]
  exact h.imp_right (Or.imp_right (Or.imp (fun hmem => howed hmem) fun hmem => hframes hmem))

/-- A functor of a connection that is shut down runs. -/
theorem Disconnecting.called {f : Functor} (ho : Output q) (hopen : Open q)
    (h : Disconnecting q b) (howes : f ≠ .shutdownInLoop → Owes q)
    (hf : f ≠ .connectEstablished ∧ f ≠ .connectDestroyed) (hs : Called q f q') :
    HalfClose q' := by
  cases hs with
  | sendInLoop hsends => exact .disconnecting (h.sends hsends) ((howes (by nofun)).sends hsends)
  | shutdownInLoop => exact h.close (accepted_eq ho hopen) ho.writing
  | connectEstablished => exact absurd rfl hf.1
  | connectDestroyed => exact absurd rfl hf.2

/-- The state just after `shutdown` has changed it. -/
theorem Disconnecting.begin (howed : q.owed = [])
    (hpassed : q.passed = q.sent.flatMap Message.bytes) (hshut : q.shutdowns = []) :
    Disconnecting { q with state := .kDisconnecting, beforeShutdown := some q.passed }
      q.passed where
  state := rfl
  not_owed hmem := by
    have hmem : .connectEstablished ∈ q.owed := hmem
    rw [howed] at hmem
    cases hmem
  before := rfl
  sent := hpassed ▸ List.prefix_refl _
  shut a ha := by
    have ha : a ∈ q.shutdowns := ha
    rw [hshut] at ha
    cases ha

/-! ## The steps -/

/-- The steps before `shutdown`, and `shutdown` itself. -/
theorem connected_step (ho : Output q) (hopen : Open q) (hstate : q.state = .kConnected)
    (howed : q.owed = []) (hpassed : q.passed = q.sent.flatMap Message.bytes)
    (hshut : q.shutdowns = []) (hbefore : BeforeClose q e) (heffect : Effect q e q') :
    HalfClose q' := by
  cases heffect with
  | @send data _ _ hsends =>
    obtain ⟨hstate', howed', -, hpassed', -, hshut', hsent'⟩ := hsends.same
    refine .connected (hstate'.trans hstate) (howed'.trans howed) ?_ (hshut'.trans hshut)
    rw [hpassed', hsent', List.flatMap_append, ← hpassed]
    simp
  | bindSend hne => exact absurd hstate hne
  | shutdownNot hne => exact absurd hstate hne
  | shutdown _ hcalled =>
    refine Disconnecting.called ?_ ?_ (Disconnecting.begin howed hpassed hshut)
      (fun hne => absurd rfl hne) (by decide) hcalled
    · exact ho.congr rfl rfl rfl id
    · exact ⟨hopen.interest, hopen.not_owed⟩
  | bindShutdown =>
    have hperm := owed_bind (q := q) .shutdownInLoop
    have hd := Disconnecting.begin howed hpassed hshut
    refine .disconnecting ⟨rfl, fun hmem => ?_, rfl, hd.sent, hd.shut⟩
      (.inr (.inr (.inl (hperm.symm.subset List.mem_cons_self))))
    exact (List.mem_cons.mp (hperm.subset hmem)).elim (by decide) hd.not_owed
  | queueInLoop hf =>
    refine .connected hstate ?_ hpassed hshut
    exact List.Perm.eq_nil (howed ▸ owed_queueInLoop hf)
  | doPendingFunctors hnil =>
    exact .connected hstate ((owed_doPendingFunctors hnil).trans howed) hpassed hshut
  | runFunctor hf _ =>
    have hperm := owed_runFunctor hf
    rw [howed] at hperm
    cases hperm.nil_eq
  | handleWrite hwrites =>
    exact HalfClose.writes ho hopen (.connected hstate howed hpassed hshut) hwrites
  | handleClose => exact absurd rfl hbefore
  | retWrite _ hfinish =>
    refine HalfClose.finish ?_ ?_ (.inl ?_) hfinish
    · exact ho.congr rfl rfl rfl id
    · exact ⟨hopen.interest, hopen.not_owed⟩
    · exact .connected hstate howed hpassed hshut
  | _ => exact .connected hstate howed hpassed hshut

/-- The steps after `shutdown`. -/
theorem Disconnecting.step (ho : Output q) (hopen : Open q) (hd : Disconnecting q b)
    (howes : Owes q) (hbefore : BeforeClose q e) (heffect : Effect q e q') : HalfClose q' := by
  cases heffect with
  | send hsends =>
    refine .disconnecting (b := b) (Disconnecting.sends ?_ hsends) (Owes.sends ?_ hsends)
    · exact hd.congr rfl (fun _ hf => hf) rfl rfl rfl
    · exact howes
  | @bindSend data _ _ =>
    have hperm := owed_bind (q := q) (.sendInLoop { bytes := data, state := q.state })
    refine .disconnecting ⟨hd.state, fun hmem => ?_, hd.before, hd.sent, hd.shut⟩
      (howes.mono rfl rfl (fun _ hf => hperm.symm.subset (List.mem_cons_of_mem _ hf))
        fun _ hf => hf)
    exact (List.mem_cons.mp (hperm.subset hmem)).elim (by nofun) hd.not_owed
  | shutdownNot hne => exact .disconnecting hd howes
  | shutdown hstate _ => cases hd.state.symm.trans hstate
  | bindShutdown hstate => cases hd.state.symm.trans hstate
  | queueInLoop hf =>
    have hperm := owed_queueInLoop hf
    exact .disconnecting (hd.congr rfl hperm.subset rfl rfl rfl)
      (howes.mono rfl rfl hperm.symm.subset fun _ hf => hf)
  | doPendingFunctors hnil =>
    have howed := owed_doPendingFunctors hnil
    exact .disconnecting (hd.congr rfl (fun _ hf => howed ▸ hf) rfl rfl rfl)
      (howes.mono rfl rfl (fun _ hf => howed ▸ hf) fun _ hf => hf)
  | @runFunctor _ f rest _ hf hcalled =>
    have hperm := owed_runFunctor hf
    have hfowed : f ∈ q.owed := hperm.symm.subset List.mem_cons_self
    refine Disconnecting.called ?_ ?_ (b := b) ?_ ?_ ?_ hcalled
    · exact ho.congr rfl rfl rfl id
    · exact hopen.congr rfl rfl fun _ hg => hperm.symm.subset (List.mem_cons_of_mem _ hg)
    · exact hd.congr rfl (fun _ hg => hperm.symm.subset (List.mem_cons_of_mem _ hg)) rfl rfl rfl
    · intro hne
      -- the functor that runs is not the one that is owed
      refine howes.imp_right (Or.imp_right (Or.imp_left fun hmem => ?_))
      exact (List.mem_cons.mp (hperm.subset hmem)).resolve_left hne.symm
    · refine ⟨fun heq => hd.not_owed (heq ▸ hfowed), fun heq => hopen.not_owed (heq ▸ hfowed)⟩
  | handleWrite hwrites => exact HalfClose.writes ho hopen (.disconnecting hd howes) hwrites
  | handleClose => exact absurd rfl hbefore
  | retWrite _ hfinish =>
    refine HalfClose.finish ?_ ?_ (.inr ⟨b, ?_⟩) hfinish
    · exact ho.congr rfl rfl rfl id
    · exact ⟨hopen.interest, hopen.not_owed⟩
    · exact hd.congr rfl (fun _ hf => hf) rfl rfl rfl
  | ret hframes hne =>
    refine .disconnecting (hd.congr rfl (fun _ hf => hf) rfl rfl rfl) ?_
    refine howes.imp_right (Or.imp_right (Or.imp_right fun hmem => ?_))
    rw [hframes] at hmem
    exact (List.mem_cons.mp hmem).resolve_left hne.symm
  | setWriteCompleteCallback =>
    exact .disconnecting (hd.congr rfl (fun _ hf => hf) rfl rfl rfl) howes

theorem halfClose_step (ho : Output q) (hopen : Open q) (h : HalfClose q) (he : q.Enabled e)
    (hbefore : BeforeClose q e) (hs : q.step e = .ok q') : HalfClose q' := by
  have heffect := step_effect he hs
  cases h with
  | connected hstate howed hpassed hshut =>
    exact connected_step ho hopen hstate howed hpassed hshut hbefore heffect
  | disconnecting hd howes => exact hd.step ho hopen howes hbefore heffect

/-! ## Runs of an established connection -/

/-- The constructor and its functor lead to an established connection. -/
theorem reachable_established (writeCompleteCallback : Bool) :
    (machine.guard BeforeClose).Reachable (established writeCompleteCallback) := by
  refine ⟨_, [.queueInLoop 0, .doPendingFunctors, .runFunctor none],
    ⟨writeCompleteCallback, rfl⟩, ?_⟩
  refine .cons ⟨show 0 < 1 by decide, by nofun⟩ rfl ?_
  refine .cons ⟨rfl, by nofun⟩ rfl ?_
  exact .cons ⟨⟨rfl, _, rfl, atMost_none _⟩, by nofun⟩ rfl (.nil _)

theorem preserves_halfClose :
    (machine.guard BeforeClose).Preserves fun q => (Output q ∧ Open q) ∧ HalfClose q :=
  preserves_open.and fun _ _ _ h hc he hs => halfClose_step h.1 h.2 hc he.1 he.2 hs

/-- **The half-close.** In a run of an established connection before `handleClose`, whatever
`::write` returns: `::shutdown` is called only when all bytes passed to `send` before `shutdown`
have been accepted by the kernel; and when the connection is disconnecting, the buffer is empty,
`shutdownInLoop` is neither queued nor about to be, and `handleWrite` is not waiting for its
callback, then `::shutdown` has been called. -/
theorem halfClosed_after_data {writeCompleteCallback : Bool} {es : List Event}
    (hr : (machine.guard BeforeClose).Run (established writeCompleteCallback) es q) :
    (∀ a ∈ q.shutdowns, ∃ b, q.beforeShutdown = some b ∧ b <+: a) ∧
    (q.state = .kDisconnecting → q.outputBuffer.bytes = [] → .shutdownInLoop ∉ q.owed →
      .handleWrite ∉ q.frames → q.shutdowns ≠ []) := by
  -- nothing has been sent or closed yet
  have hinit : HalfClose (established writeCompleteCallback) := .connected rfl rfl rfl rfl
  have hopen := (reachable_established writeCompleteCallback).invariant preserves_open (by
    rintro _ ⟨writeCompleteCallback, rfl⟩
    exact ⟨Output.init _, Open.init _⟩)
  have h := (hr.preserves preserves_halfClose ⟨hopen, hinit⟩).2
  cases h with
  | connected hstate _ _ hshut =>
    refine ⟨fun a ha => ?_, fun hd => ?_⟩
    · rw [hshut] at ha
      cases ha
    · cases hstate.symm.trans hd
  | disconnecting hd howes =>
    refine ⟨fun a ha => ⟨_, hd.before, hd.shut a ha⟩, fun _ hempty howed hframes => ?_⟩
    rcases howes with hne | hshut | hmem | hmem
    · exact absurd hempty hne
    · exact hshut
    · exact absurd hmem howed
    · exact absurd hmem hframes

/-- A message is written in part, the connection is shut down, and the buffer is drained. -/
def shutdownWhileWriting : List Event :=
  [.send true [1, 2] (some 1), .shutdown true, .handleWrite (some 1)]

theorem halfClosed_after_data_shutdownWhileWriting : ∃ q,
    (machine.guard BeforeClose).Run (established true) (shutdownWhileWriting ++ [.ret]) q ∧
    q.shutdowns = [[1, 2]] ∧ ∀ a ∈ q.shutdowns, ∃ b, q.beforeShutdown = some b ∧ b <+: a := by
  have hex : ((machine.guard BeforeClose).exec (established true)
      (shutdownWhileWriting ++ [.ret])).map (fun q => q.shutdowns) = some [[1, 2]] := by
    decide +kernel
  obtain ⟨q, hq, hshut⟩ := Option.map_eq_some_iff.mp hex
  have hr := Machine.run_of_exec hq
  exact ⟨q, hr, hshut, (halfClosed_after_data hr).1⟩

/-- While the completion callback of `handleWrite` runs the close is still to come. -/
theorem exists_not_halfClosed : ∃ q,
    (machine.guard BeforeClose).Run (established true) shutdownWhileWriting q ∧
    q.state = .kDisconnecting ∧ q.outputBuffer.bytes = [] ∧ q.owed = [] ∧ q.shutdowns = [] := by
  have hex : ((machine.guard BeforeClose).exec (established true) shutdownWhileWriting).map
      (fun q => decide (q.state = .kDisconnecting ∧ q.outputBuffer.bytes = [] ∧ q.owed = [] ∧
        q.shutdowns = [])) = some true := by decide +kernel
  obtain ⟨q, hq, hstate⟩ := Option.map_eq_some_iff.mp hex
  exact ⟨q, Machine.run_of_exec hq, of_decide_eq_true hstate⟩

end CodingDemo.Libcpp.TcpConnection
