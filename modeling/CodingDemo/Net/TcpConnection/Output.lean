import CodingDemo.Net.TcpConnection.Step

/-!
# The output of a connection is a byte stream

Three paths write to the socket: `sendInLoop` writes at once, or through the output buffer, and
`handleWrite` drains the buffer. Whatever the results of `::write` are, and whatever the completion
callback sends, the bytes that the kernel has accepted and those in the buffer are together the
messages in the order in which they were sent.

## Main definitions

* `Output`: the invariant of the output
* `BeforeClose`, `Open`: the steps before `handleClose`, and what holds between them

## Main results

* `output_step`, `open_step`: the steps keep the invariants
* `accepted_append_readable`: the byte stream, in every run
-/

namespace CodingDemo.Libcpp.TcpConnection

variable {q q' : TcpConnection} {e : Event} {msg : Message} {result : WriteResult}

/-! ## The invariant of the output -/

/-- The accepted bytes and those in the buffer are the messages in the order of sending, and there
is write interest only if the buffer is not empty. -/
structure Output (q : TcpConnection) : Prop where
  stream : q.accepted ++ q.outputBuffer.bytes = q.sent.flatMap Message.bytes
  writing : q.channel.isWriting = true → q.outputBuffer.bytes ≠ []

theorem Output.init (writeCompleteCallback : Bool) : Output (init writeCompleteCallback) where
  stream := Buffer.bytes_init
  writing h := absurd (show ({} : Channel).isWriting = true from h) (by decide)

theorem Output.sends (h : Output q) (hs : Sends q msg q') : Output q' := by
  have hstream := h.stream
  cases hs with
  | wrote hempty hwriting _ =>
    refine ⟨?_, fun hw => ?_⟩
    · rw [hempty, List.append_nil] at hstream
      simp [hempty, hstream]
    · cases hwriting.symm.trans hw
  | skipped hnil =>
    refine ⟨?_, h.writing⟩
    simp [hstream, hnil]
  | @buffered k b channel hk hdirect hbytes _ _ =>
    refine ⟨?_, fun _ => ?_⟩
    · show (q.accepted ++ msg.bytes.take k) ++ b.bytes = (q.sent ++ [msg]).flatMap Message.bytes
      rw [List.flatMap_append, ← hstream, hbytes]
      -- either nothing of the message is accepted, or it follows the accepted bytes directly
      rcases hdirect with rfl | hempty
      · simp
      · simp [hempty]
    · show b.bytes ≠ []
      rw [hbytes]
      simp [List.drop_eq_nil_iff, hk]

theorem Output.finish (h : Output q) (hs : q.finishWrite = .ok q') : Output q' := by
  rw [finishWrite_eq] at hs
  obtain rfl := Except.ok.inj hs
  split_ifs
  · exact ⟨h.stream, h.writing⟩
  · exact h

/-- The buffer is drained. -/
theorem Output.drain (h : Output q) {b : Buffer} (hbytes : b.bytes = []) : Output { q with
    accepted := q.accepted ++ q.outputBuffer.bytes
    outputBuffer := b
    channel := q.channel.disableWriting } := by
  refine ⟨?_, fun hw => ?_⟩
  -- the bytes move from the buffer to the accepted ones
  · show (q.accepted ++ q.outputBuffer.bytes) ++ b.bytes = _
    rw [hbytes, List.append_nil, h.stream]
  · simp at hw

theorem Output.writes (h : Output q) (hs : Writes q q') : Output q' := by
  cases hs with
  | kept => exact h
  | @some k b hk hbytes =>
    refine ⟨?_, fun _ => ?_⟩
    -- the first bytes of the buffer move to the accepted ones
    · show (q.accepted ++ q.outputBuffer.bytes.take k) ++ b.bytes = _
      rw [hbytes, List.append_assoc, List.take_append_drop, h.stream]
    · show b.bytes ≠ []
      rw [hbytes, Ne, List.drop_eq_nil_iff, not_le]
      exact hk
  | called _ hbytes => exact ⟨(h.drain hbytes).stream, (h.drain hbytes).writing⟩
  | finished _ hbytes hfinish => exact (h.drain hbytes).finish hfinish

theorem Output.congr (h : Output q) (ha : q'.accepted = q.accepted)
    (hb : q'.outputBuffer = q.outputBuffer) (hs : q'.sent = q.sent)
    (hw : q'.channel.isWriting = true → q.channel.isWriting = true) : Output q' := by
  refine ⟨?_, fun hwriting => ?_⟩
  · rw [ha, hb, hs]
    exact h.stream
  · rw [hb]
    exact h.writing (hw hwriting)

theorem Output.called {f : Functor} (h : Output q) (hs : Called q f q') : Output q' := by
  cases hs with
  | sendInLoop hsends => exact h.sends hsends
  | shutdownInLoop =>
    split_ifs
    · exact h
    · exact h.congr rfl rfl rfl id
  | connectEstablished =>
    exact h.congr rfl rfl rfl fun hw => by simpa using hw
  | connectDestroyed => exact h.congr rfl rfl rfl fun hw => by simp at hw

theorem output_step (h : Output q) (he : q.Enabled e) (hs : q.step e = .ok q') : Output q' := by
  cases step_effect he hs with
  | send hsends =>
    refine Output.sends ?_ hsends
    exact h.congr rfl rfl rfl id
  | shutdown _ hcalled =>
    refine Output.called ?_ hcalled
    exact h.congr rfl rfl rfl id
  | shutdownNot => exact h
  | runFunctor _ hcalled =>
    refine Output.called ?_ hcalled
    exact h.congr rfl rfl rfl id
  | handleWrite hwrites => exact h.writes hwrites
  | handleClose => exact h.congr rfl rfl rfl fun hw => by simp at hw
  | retWrite _ hfinish =>
    refine Output.finish ?_ hfinish
    exact h.congr rfl rfl rfl id
  | _ => exact h.congr rfl rfl rfl id

theorem preserves_output : machine.Preserves Output :=
  fun _ _ _ h he hs => output_step h he hs

/-! ## Before `handleClose` -/

/-- A step other than `handleClose`. -/
def BeforeClose (_ : TcpConnection) (e : Event) : Prop := e ≠ .handleClose

instance (q : TcpConnection) (e : Event) : Decidable ((machine.guard BeforeClose).enabled q e) :=
  inferInstanceAs (Decidable (q.Enabled e ∧ e ≠ .handleClose))

/-- The connection has not been closed: the channel has write interest if the buffer is not empty,
and `connectDestroyed` is not bound. -/
structure Open (q : TcpConnection) : Prop where
  interest : q.outputBuffer.bytes ≠ [] → q.channel.isWriting = true
  not_owed : .connectDestroyed ∉ q.owed

theorem Open.congr (h : Open q) (hb : q'.outputBuffer = q.outputBuffer)
    (hw : q'.channel.isWriting = q.channel.isWriting) (howed : q'.owed ⊆ q.owed) : Open q' := by
  refine ⟨fun hne => ?_, fun hmem => h.not_owed (howed hmem)⟩
  rw [hw]
  exact h.interest (hb ▸ hne)

theorem Open.sends (h : Open q) (hs : Sends q msg q') : Open q' := by
  cases hs with
  | wrote => exact ⟨h.interest, h.not_owed⟩
  | skipped => exact ⟨h.interest, h.not_owed⟩
  | buffered _ _ _ hwriting => exact ⟨fun _ => hwriting, h.not_owed⟩

theorem Open.finish (h : Open q) (hs : q.finishWrite = .ok q') : Open q' := by
  rw [finishWrite_eq] at hs
  obtain rfl := Except.ok.inj hs
  split_ifs
  · exact ⟨h.interest, h.not_owed⟩
  · exact h

theorem Open.drain (h : Open q) {b : Buffer} (hbytes : b.bytes = []) : Open { q with
    accepted := q.accepted ++ q.outputBuffer.bytes
    outputBuffer := b
    channel := q.channel.disableWriting } :=
  ⟨fun hne => absurd hbytes hne, h.not_owed⟩

theorem Open.writes (h : Open q) (hs : Writes q q') : Open q' := by
  cases hs with
  | kept => exact h
  | @some k _ hk _ =>
    -- something is left in the buffer, so something was there
    have hne : q.outputBuffer.bytes ≠ [] := List.ne_nil_of_length_pos (Nat.zero_lt_of_lt hk)
    exact ⟨fun _ => h.interest hne, h.not_owed⟩
  | called _ hbytes => exact ⟨(h.drain hbytes).interest, (h.drain hbytes).not_owed⟩
  | finished _ hbytes hfinish => exact (h.drain hbytes).finish hfinish

theorem Open.called {f : Functor} (h : Open q) (hf : f ≠ .connectDestroyed)
    (hs : Called q f q') : Open q' := by
  cases hs with
  | sendInLoop hsends => exact h.sends hsends
  | shutdownInLoop =>
    split_ifs
    · exact h
    · exact ⟨h.interest, h.not_owed⟩
  | connectEstablished => exact h.congr rfl (Channel.isWriting_enableReading _) fun _ hg => hg
  | connectDestroyed => exact absurd rfl hf

/-- A functor that is bound is not `connectDestroyed`. -/
theorem Open.bind {f : Functor} (h : Open q) (hf : f ≠ .connectDestroyed) :
    Open { q with bound := q.bound ++ [f] } := by
  refine ⟨h.interest, fun hmem => h.not_owed ?_⟩
  simp only [owed, List.mem_append, List.mem_singleton] at hmem ⊢
  simpa [hf.symm] using hmem

theorem open_step (h : Open q) (he : q.Enabled e) (hbefore : BeforeClose q e)
    (hs : q.step e = .ok q') : Open q' := by
  cases step_effect he hs with
  | send hsends =>
    refine Open.sends ?_ hsends
    exact ⟨h.interest, h.not_owed⟩
  | @bindSend data _ _ =>
    have hbind := h.bind (f := .sendInLoop { bytes := data, state := q.state }) (by nofun)
    exact ⟨hbind.interest, hbind.not_owed⟩
  | shutdown _ hcalled =>
    refine Open.called ?_ (by decide) hcalled
    exact ⟨h.interest, h.not_owed⟩
  | shutdownNot => exact h
  | bindShutdown =>
    have hbind := h.bind (f := .shutdownInLoop) (by decide)
    exact ⟨hbind.interest, hbind.not_owed⟩
  | queueInLoop hf => exact h.congr rfl rfl (owed_queueInLoop hf).subset
  | doPendingFunctors hnil => exact h.congr rfl rfl fun _ hg => owed_doPendingFunctors hnil ▸ hg
  | @runFunctor _ f rest _ hf hcalled =>
    have howed := (owed_runFunctor hf).symm.subset
    -- the functor that runs was on its way, so it is not `connectDestroyed`
    refine Open.called ?_ (fun heq => h.not_owed (howed (heq ▸ List.mem_cons_self))) hcalled
    exact h.congr rfl rfl fun _ hg => howed (List.mem_cons_of_mem _ hg)
  | handleWrite hwrites => exact h.writes hwrites
  | handleClose => exact absurd rfl hbefore
  | retWrite _ hfinish =>
    refine Open.finish ?_ hfinish
    exact ⟨h.interest, h.not_owed⟩
  | _ => exact ⟨h.interest, h.not_owed⟩

theorem preserves_open : (machine.guard BeforeClose).Preserves fun q => Output q ∧ Open q :=
  (preserves_output.guard _).and fun _ _ _ _ h he hs => open_step h he.1 he.2 hs

theorem Open.init (writeCompleteCallback : Bool) : Open (init writeCompleteCallback) where
  interest hne := absurd Buffer.bytes_init hne
  not_owed hmem := by simp [owed, TcpConnection.init] at hmem

/-- **The output is a byte stream.** Before `handleClose`, whatever has been sent by whom, whatever
`::write` has returned and the completion callback has done: the bytes that the kernel has accepted
and those in the buffer are together the messages in the order of sending, and the channel has write
interest exactly when the buffer is not empty. -/
theorem accepted_append_readable (h : (machine.guard BeforeClose).Reachable q) :
    q.accepted ++ q.outputBuffer.bytes = q.sent.flatMap Message.bytes ∧
      (q.channel.isWriting = true ↔ q.outputBuffer.bytes ≠ []) := by
  obtain ⟨houtput, hopen⟩ := h.invariant preserves_open (by
    rintro _ ⟨writeCompleteCallback, rfl⟩
    exact ⟨Output.init _, Open.init _⟩)
  exact ⟨houtput.stream, houtput.writing, hopen.interest⟩

/-- A message is written in part, the rest is drained, and the callback sends another message, which
is written in part too. -/
def sendInCallback : List Event :=
  [.queueInLoop 0, .doPendingFunctors, .runFunctor none, .send true [1, 2, 3] (some 1),
    .handleWrite (some 2), .send true [4, 5] (some 1), .ret]

theorem accepted_append_readable_sendInCallback : ∃ q, (machine.guard BeforeClose).Reachable q ∧
    q.accepted = [1, 2, 3, 4] ∧ q.accepted ++ q.outputBuffer.bytes = [1, 2, 3, 4, 5] ∧
    q.channel.isWriting = true := by
  have hex : ((machine.guard BeforeClose).exec (init true) sendInCallback).map
      (fun q => (q.accepted, q.sent.flatMap Message.bytes, q.channel.isWriting)) =
      some ([1, 2, 3, 4], [1, 2, 3, 4, 5], true) := by decide +kernel
  obtain ⟨q, hq, hstate⟩ := Option.map_eq_some_iff.mp hex
  obtain ⟨haccepted, hsent, hwriting⟩ : _ ∧ _ ∧ _ := by simpa using hstate
  have hr : (machine.guard BeforeClose).Reachable q :=
    ⟨_, _, ⟨true, rfl⟩, Machine.run_of_exec hq⟩
  exact ⟨q, hr, haccepted, (accepted_append_readable hr).1.trans hsent, hwriting⟩

end CodingDemo.Libcpp.TcpConnection
