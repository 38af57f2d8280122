import CodingDemo.Net.TcpConnection.Model
import Mathlib.Data.List.Perm.Basic

/-!
# The steps of a connection

`sendInLoop` and `handleWrite` do one of a few things each, whatever the result of `::write` is, and
so does every step. The invariants of the connection are proved from these cases.

## Main definitions

* `Sends`, `Writes`: what `sendInLoop` and `handleWrite` can do
* `Called`, `Effect`: what a functor and a step can do
* `owed`: the functors that will be run

## Main results

* `sendInLoop_eq`, `handleWrite_eq`: in the thread of the loop the two functions do not fail
* `step_effect`: the cases of a step
* `owed_bind`, `owed_queueInLoop`, `owed_doPendingFunctors`, `owed_runFunctor`: a functor that is
  bound is queued and run once
-/

namespace CodingDemo.Libcpp.TcpConnection

variable {q q' : TcpConnection} {e : Event} {msg : Message} {result : WriteResult}

/-! ## What the member functions do -/

theorem atMost_none (len : ℕ) : AtMost none len := by
  intro n hn
  cases hn

theorem bufferRest_eq (q : TcpConnection) (data : List UInt8) :
    ∃ b, q.outputBuffer.append data = some b ∧ b.bytes = q.outputBuffer.bytes ++ data ∧
      q.bufferRest data = .ok { q with
        outputBuffer := b
        channel := if q.channel.isWriting then q.channel else q.channel.enableWriting } := by
  obtain ⟨b, happend, hbytes⟩ := q.outputBuffer.exists_append data
  refine ⟨b, happend, hbytes, ?_⟩
  simp only [bufferRest, happend, orAssert, bind, Except.bind]
  split_ifs
  · rfl
  · rfl

/-- What `sendInLoop` can do in the thread of the loop: the kernel accepts the first bytes of the
message, and none unless the buffer is empty; the others are appended to the buffer. -/
inductive Sends (q : TcpConnection) (msg : Message) : TcpConnection → Prop
  /-- The message has been written completely, and the callback may have been called. -/
  | wrote {frames : List Frame} (hempty : q.outputBuffer.bytes = [])
      (hwriting : q.channel.isWriting = false)
      (hframes : frames = q.frames ∨ frames = .sendInLoop :: q.frames) :
      Sends q msg { q with
        sent := q.sent ++ [msg]
        accepted := q.accepted ++ msg.bytes
        frames := frames }
  /-- There is nothing to write. -/
  | skipped (hnil : msg.bytes = []) : Sends q msg { q with sent := q.sent ++ [msg] }
  /-- The last bytes, at least one, are put into the buffer. -/
  | buffered {k : ℕ} {b : Buffer} {channel : Channel} (hk : k < msg.bytes.length)
      (hdirect : k = 0 ∨ q.outputBuffer.bytes = [])
      (hbytes : b.bytes = q.outputBuffer.bytes ++ msg.bytes.drop k)
      (hwriting : channel.isWriting = true) (hreading : channel.isReading = q.channel.isReading) :
      Sends q msg { q with
        sent := q.sent ++ [msg]
        accepted := q.accepted ++ msg.bytes.take k
        outputBuffer := b
        channel := channel }

/-- What is left of a message is put into the buffer. -/
theorem exists_bufferRest (q : TcpConnection) {k : ℕ} (hk : k < msg.bytes.length)
    (hdirect : k = 0 ∨ q.outputBuffer.bytes = []) :
    ∃ q', { q with
        sent := q.sent ++ [msg]
        accepted := q.accepted ++ msg.bytes.take k }.bufferRest (msg.bytes.drop k) = .ok q' ∧
      Sends q msg q' := by
  obtain ⟨b, -, hbytes, hok⟩ := bufferRest_eq { q with
    sent := q.sent ++ [msg]
    accepted := q.accepted ++ msg.bytes.take k } (msg.bytes.drop k)
  refine ⟨_, hok, .buffered hk hdirect hbytes ?_ ?_⟩
  · split_ifs with hw
    · exact hw
    · exact Channel.isWriting_enableWriting _
  · split_ifs
    · rfl
    · exact Channel.isReading_enableWriting _

/-- The direct write accepts some bytes of the message, or all of them and the callback may have
been called. -/
theorem writeNow_cases (q : TcpConnection) {data : List UInt8} (h : AtMost result data.length) :
    (∃ k, k ≤ data.length ∧ (k = data.length → data = []) ∧
      q.writeNow data result = (k, { q with accepted := q.accepted ++ data.take k })) ∨
    ∃ frames, (frames = q.frames ∨ frames = .sendInLoop :: q.frames) ∧
      q.writeNow data result =
        (data.length, { q with accepted := q.accepted ++ data, frames := frames }) := by
  cases result with
  | none =>
    refine .inl ⟨0, Nat.zero_le _, fun hlen => List.length_eq_zero_iff.mp hlen.symm, ?_⟩
    rw [List.take_zero, List.append_nil]
    rfl
  | some nwrote =>
    have hle : nwrote ≤ data.length := h nwrote rfl
    simp only [writeNow]
    split_ifs with hlt hcallback
    · exact .inl ⟨nwrote, hle, fun heq => absurd heq hlt.ne, rfl⟩
    · obtain rfl : nwrote = data.length := hle.antisymm (not_lt.mp hlt)
      refine .inr ⟨_, .inr rfl, ?_⟩
      rw [List.take_length]
    · obtain rfl : nwrote = data.length := hle.antisymm (not_lt.mp hlt)
      refine .inr ⟨_, .inl rfl, ?_⟩
      rw [List.take_length]

/-- `sendInLoop` does not fail in the thread of the loop. -/
theorem sendInLoop_eq (q : TcpConnection) (h : AtMost result msg.bytes.length) :
    ∃ q', q.sendInLoop true msg result = .ok q' ∧ Sends q msg q' := by
  -- what is done after the first `k` bytes have been accepted at once
  have hrest : ∀ k, k ≤ msg.bytes.length → (k = msg.bytes.length → msg.bytes = []) →
      (k = 0 ∨ q.outputBuffer.bytes = []) →
      ∃ q', (if k < msg.bytes.length then { q with
          sent := q.sent ++ [msg]
          accepted := q.accepted ++ msg.bytes.take k }.bufferRest (msg.bytes.drop k)
        else .ok { q with
          sent := q.sent ++ [msg]
          accepted := q.accepted ++ msg.bytes.take k }) = .ok q' ∧ Sends q msg q' := by
    intro k hle hall hdirect
    split_ifs with hlt
    · exact exists_bufferRest q hlt hdirect
    · -- everything is written only if the message is empty
      have hnil : msg.bytes = [] := hall (hle.antisymm (not_lt.mp hlt))
      refine ⟨_, rfl, ?_⟩
      rw [hnil, List.take_nil, List.append_nil]
      exact .skipped hnil
  unfold sendInLoop
  simp only [assertInLoopThread, if_true, bind, Except.bind, pure, Except.pure]
  split
  · next hdirect =>
    simp only [Bool.and_eq_true, Bool.not_eq_true', decide_eq_true_eq] at hdirect
    have hempty := Buffer.readableBytes_eq_zero.mp hdirect.2
    rcases writeNow_cases { q with sent := q.sent ++ [msg] } h with
      ⟨k, hle, hall, heq⟩ | ⟨frames, hframes, heq⟩
    · rw [heq]
      exact hrest k hle hall (.inr hempty)
    · rw [heq, if_neg (lt_irrefl _)]
      exact ⟨_, rfl, .wrote hempty hdirect.1 hframes⟩
  · have hzero := hrest 0 (Nat.zero_le _) (fun hlen => List.length_eq_zero_iff.mp hlen.symm)
      (.inl rfl)
    rwa [List.take_zero, List.append_nil] at hzero

theorem sendInLoop_ok (h : AtMost result msg.bytes.length)
    (hs : q.sendInLoop true msg result = .ok q') : Sends q msg q' := by
  obtain ⟨q₁, hok, hsends⟩ := sendInLoop_eq q h
  obtain rfl := Except.ok.inj (hok.symm.trans hs)
  exact hsends

theorem shutdownInLoop_eq (q : TcpConnection) :
    q.shutdownInLoop true = .ok (if q.channel.isWriting then q
      else { q with shutdowns := q.shutdowns ++ [q.accepted] }) := by
  simp only [shutdownInLoop, assertInLoopThread, if_true, bind, Except.bind, pure, Except.pure]
  split_ifs
  · rfl
  · rfl

/-- The last step of `handleWrite` closes the socket for writing, or does nothing. -/
theorem finishWrite_eq (q : TcpConnection) :
    q.finishWrite = .ok (if q.state = .kDisconnecting ∧ q.channel.isWriting = false then
      { q with shutdowns := q.shutdowns ++ [q.accepted] } else q) := by
  unfold finishWrite
  rw [shutdownInLoop_eq]
  cases q.channel.isWriting <;> split_ifs <;> simp_all

/-- What `handleWrite` can do. -/
inductive Writes (q : TcpConnection) : TcpConnection → Prop
  /-- Nothing is written. -/
  | kept : Writes q q
  /-- Some of the bytes in the buffer are written. -/
  | some {k : ℕ} {b : Buffer} (hk : k < q.outputBuffer.bytes.length)
      (hbytes : b.bytes = q.outputBuffer.bytes.drop k) :
      Writes q { q with
        accepted := q.accepted ++ q.outputBuffer.bytes.take k
        outputBuffer := b }
  /-- All are written, and the callback is called. -/
  | called {b : Buffer} (hwriting : q.channel.isWriting = true) (hbytes : b.bytes = []) :
      Writes q { q with
        accepted := q.accepted ++ q.outputBuffer.bytes
        outputBuffer := b
        channel := q.channel.disableWriting
        frames := .handleWrite :: q.frames }
  /-- All are written, and the socket may be closed for writing. -/
  | finished {b : Buffer} {q' : TcpConnection} (hwriting : q.channel.isWriting = true)
      (hbytes : b.bytes = [])
      (hfinish : { q with
        accepted := q.accepted ++ q.outputBuffer.bytes
        outputBuffer := b
        channel := q.channel.disableWriting }.finishWrite = .ok q') : Writes q q'

/-- `handleWrite` does not fail. -/
theorem handleWrite_eq (q : TcpConnection) (h : AtMost result q.outputBuffer.readableBytes) :
    ∃ q', q.handleWrite result = .ok q' ∧ Writes q q' := by
  unfold handleWrite
  split_ifs with hwriting
  · cases result with
    | none => exact ⟨q, rfl, .kept⟩
    | some n =>
      by_cases hpos : 0 < n
      · have hle : n ≤ q.outputBuffer.bytes.length := q.outputBuffer.length_bytes ▸ h n rfl
        obtain ⟨b, hretrieve, hbytes⟩ := Buffer.exists_retrieve hle
        simp only [if_pos hpos, hretrieve, orAssert, bind, Except.bind, pure, Except.pure]
        -- either the buffer is drained, or some bytes are left
        by_cases hdrained : b.readableBytes = 0
        · have hnil := Buffer.readableBytes_eq_zero.mp hdrained
          have hall := List.take_of_length_le (List.drop_eq_nil_iff.mp (hbytes.symm.trans hnil))
          rw [if_pos hdrained, hall]
          split_ifs
          · exact ⟨_, rfl, .called hwriting hnil⟩
          · exact ⟨_, finishWrite_eq _, .finished hwriting hnil (finishWrite_eq _)⟩
        · have hne : b.bytes ≠ [] := fun hnil =>
            hdrained (Buffer.readableBytes_eq_zero.mpr hnil)
          rw [hbytes, Ne, List.drop_eq_nil_iff, not_le] at hne
          rw [if_neg hdrained]
          exact ⟨_, rfl, .some hne hbytes⟩
      · simp only [if_neg hpos]
        exact ⟨q, rfl, .kept⟩
  · exact ⟨q, rfl, .kept⟩

theorem handleWrite_ok (h : AtMost result q.outputBuffer.readableBytes)
    (hs : q.handleWrite result = .ok q') : Writes q q' := by
  obtain ⟨q₁, hok, hwrites⟩ := handleWrite_eq q h
  obtain rfl := Except.ok.inj (hok.symm.trans hs)
  exact hwrites

/-! ## The steps -/

/-- What a functor can do. -/
inductive Called (q : TcpConnection) : Functor → TcpConnection → Prop
  | sendInLoop {msg : Message} {q' : TcpConnection} (h : Sends q msg q') :
      Called q (.sendInLoop msg) q'
  | shutdownInLoop : Called q .shutdownInLoop (if q.channel.isWriting then q
      else { q with shutdowns := q.shutdowns ++ [q.accepted] })
  | connectEstablished (hstate : q.state = .kConnecting) : Called q .connectEstablished
      { q with state := .kConnected, channel := q.channel.enableReading }
  | connectDestroyed (hstate : q.state = .kConnected ∨ q.state = .kDisconnecting) :
      Called q .connectDestroyed { q with
        state := .kDisconnected
        channel := q.channel.disableAllEvents
        frames := .connectDestroyed :: q.frames }

theorem call_ok {f : Functor} (h : AtMost result f.size) (hs : q.call result f = .ok q') :
    Called q f q' := by
  cases f with
  | sendInLoop msg => exact .sendInLoop (sendInLoop_ok h hs)
  | shutdownInLoop =>
    obtain rfl := Except.ok.inj ((shutdownInLoop_eq q).symm.trans hs)
    exact .shutdownInLoop
  | connectEstablished =>
    simp only [call, TcpConnection.connectEstablished] at hs
    split_ifs at hs with hstate
    obtain rfl := Except.ok.inj hs
    exact .connectEstablished hstate
  | connectDestroyed =>
    simp only [call, TcpConnection.connectDestroyed] at hs
    split_ifs at hs with hstate
    obtain rfl := Except.ok.inj hs
    exact .connectDestroyed hstate

/-- What a step can do. -/
inductive Effect (q : TcpConnection) : Event → TcpConnection → Prop
  /-- A message is sent by the thread of the loop, -/
  | send {msg : List UInt8} {result : WriteResult} {q' : TcpConnection}
      (h : Sends { q with passed := q.passed ++ msg } { bytes := msg, state := q.state } q') :
      Effect q (.send true msg result) q'
  /-- or by another one. -/
  | bindSend {msg : List UInt8} {result : WriteResult} (hstate : q.state ≠ .kConnected) :
      Effect q (.send false msg result) { q with
        passed := q.passed ++ msg
        bound := q.bound ++ [.sendInLoop { bytes := msg, state := q.state }] }
  /-- The connection is not shut down, -/
  | shutdownNot {isInLoopThread : Bool} (hstate : q.state ≠ .kConnected) :
      Effect q (.shutdown isInLoopThread) q
  /-- or shut down by the thread of the loop, -/
  | shutdown {q' : TcpConnection} (hstate : q.state = .kConnected)
      (h : Called { q with state := .kDisconnecting, beforeShutdown := some q.passed }
        .shutdownInLoop q') : Effect q (.shutdown true) q'
  /-- or by another one. -/
  | bindShutdown (hstate : q.state = .kConnected) : Effect q (.shutdown false) { q with
      state := .kDisconnecting
      beforeShutdown := some q.passed
      bound := q.bound ++ [.shutdownInLoop] }
  | setWriteCompleteCallback (isSet : Bool) :
      Effect q (.setWriteCompleteCallback isSet) { q with writeCompleteCallback := isSet }
  | queueInLoop {i : ℕ} {f : Functor} (hf : q.bound[i]? = some f) :
      Effect q (.queueInLoop i) { q with
        bound := q.bound.eraseIdx i
        pendingFunctors := q.pendingFunctors ++ [f] }
  | doPendingFunctors (hnil : q.functors = []) : Effect q .doPendingFunctors { q with
      functors := q.pendingFunctors
      pendingFunctors := [] }
  | runFunctor {result : WriteResult} {f : Functor} {rest : List Functor} {q' : TcpConnection}
      (hf : q.functors = f :: rest) (h : Called { q with functors := rest } f q') :
      Effect q (.runFunctor result) q'
  | handleWrite {result : WriteResult} {q' : TcpConnection} (h : Writes q q') :
      Effect q (.handleWrite result) q'
  | handleClose (hstate : q.state = .kConnected ∨ q.state = .kDisconnecting)
      (hreading : q.channel.isReading = true) : Effect q .handleClose { q with
        channel := q.channel.disableAllEvents
        bound := q.bound ++ [.connectDestroyed] }
  /-- The callback of `handleWrite` returns, -/
  | retWrite {rest : List Frame} {q' : TcpConnection} (hframes : q.frames = .handleWrite :: rest)
      (h : { q with frames := rest }.finishWrite = .ok q') : Effect q .ret q'
  /-- or another one. -/
  | ret {frame : Frame} {rest : List Frame} (hframes : q.frames = frame :: rest)
      (hne : frame ≠ .handleWrite) : Effect q .ret { q with frames := rest }

/-- **The cases of a step.** -/
theorem step_effect (he : q.Enabled e) (hs : q.step e = .ok q') : Effect q e q' := by
  cases e with
  | send isInLoopThread msg result =>
    simp only [step, TcpConnection.send] at hs
    split_ifs at hs with hstate
    · cases isInLoopThread with
      | false => simp [TcpConnection.sendInLoop, assertInLoopThread, bind, Except.bind] at hs
      | true => exact .send (sendInLoop_ok he hs)
    · cases isInLoopThread with
      | false =>
        obtain rfl := Except.ok.inj hs
        exact .bindSend hstate
      | true => exact .send (sendInLoop_ok he hs)
  | shutdown isInLoopThread =>
    simp only [step, TcpConnection.shutdown] at hs
    split_ifs at hs with hstate
    · cases isInLoopThread with
      | false =>
        obtain rfl := Except.ok.inj hs
        exact .bindShutdown hstate
      | true => exact .shutdown hstate (call_ok (atMost_none _) hs)
    · obtain rfl := Except.ok.inj hs
      exact .shutdownNot hstate
  | setWriteCompleteCallback isSet =>
    obtain rfl := Except.ok.inj hs
    exact .setWriteCompleteCallback isSet
  | queueInLoop i =>
    obtain rfl := Except.ok.inj hs
    have hf : q.bound[i]? = some q.bound[i] := List.getElem?_eq_getElem he
    simp only [TcpConnection.queueInLoop, hf]
    exact .queueInLoop hf
  | doPendingFunctors =>
    obtain rfl := Except.ok.inj hs
    exact .doPendingFunctors (List.isEmpty_iff.mp ((Bool.and_eq_true _ _).mp he).2)
  | runFunctor result =>
    obtain ⟨f, hf, hle⟩ := he.2
    obtain ⟨rest, hf⟩ : ∃ rest, q.functors = f :: rest := List.head?_eq_some_iff.mp hf
    simp only [step, TcpConnection.runFunctor, hf] at hs
    exact .runFunctor hf (call_ok hle hs)
  | handleWrite result => exact .handleWrite (handleWrite_ok he.2 hs)
  | handleClose =>
    simp only [step, TcpConnection.handleClose] at hs
    split_ifs at hs with hstate
    obtain rfl := Except.ok.inj hs
    exact .handleClose hstate he.2
  | ret =>
    simp only [step, TcpConnection.ret] at hs
    split at hs
    · next hnil => exact absurd hnil he
    · next rest hframes => exact .retWrite hframes hs
    · next rest hframes =>
      obtain rfl := Except.ok.inj hs
      exact .ret hframes (by decide)
    · next rest hframes =>
      obtain rfl := Except.ok.inj hs
      exact .ret hframes (by decide)

/-! ## The functors on their way -/

/-- The functors that are bound, queued or about to be run. -/
def owed (q : TcpConnection) : List Functor := q.bound ++ q.pendingFunctors ++ q.functors

/-- What `sendInLoop` leaves as it is. -/
theorem Sends.same (h : Sends q msg q') : q'.state = q.state ∧ q'.owed = q.owed ∧
    q'.channel.isReading = q.channel.isReading ∧ q'.passed = q.passed ∧
    q'.beforeShutdown = q.beforeShutdown ∧ q'.shutdowns = q.shutdowns ∧
    q'.sent = q.sent ++ [msg] := by
  -- writing changes the accepted bytes and the buffer, the write interest and the frames only
  cases h with
  | wrote => exact ⟨rfl, rfl, rfl, rfl, rfl, rfl, rfl⟩
  | skipped => exact ⟨rfl, rfl, rfl, rfl, rfl, rfl, rfl⟩
  | buffered _ _ _ _ hreading => exact ⟨rfl, rfl, hreading, rfl, rfl, rfl, rfl⟩

/-- What `handleWrite` leaves as it is. -/
theorem Writes.same (h : Writes q q') : q'.sent = q.sent ∧ q'.owed = q.owed := by
  cases h with
  | finished _ _ hfinish =>
    rw [finishWrite_eq] at hfinish
    obtain rfl := Except.ok.inj hfinish
    split_ifs
    · exact ⟨rfl, rfl⟩
    · exact ⟨rfl, rfl⟩
  | _ => exact ⟨rfl, rfl⟩

theorem owed_bind (f : Functor) :
    (owed { q with bound := q.bound ++ [f] }).Perm (f :: q.owed) := by
  simp only [owed, List.append_assoc, List.singleton_append]
  exact List.perm_middle

theorem owed_queueInLoop {i : ℕ} {f : Functor} (hf : q.bound[i]? = some f) :
    (owed { q with
      bound := q.bound.eraseIdx i
      pendingFunctors := q.pendingFunctors ++ [f] }).Perm q.owed := by
  obtain ⟨hi, rfl⟩ := List.getElem?_eq_some_iff.mp hf
  -- the functor moves from its place among the bound ones to the end of the queue
  have hmoved : (q.bound.eraseIdx i ++ (q.pendingFunctors ++ [q.bound[i]])).Perm
      (q.bound[i] :: q.bound.eraseIdx i ++ q.pendingFunctors) := by
    rw [← List.append_assoc]
    exact List.perm_append_singleton _ _
  have hback : (q.bound[i] :: q.bound.eraseIdx i ++ q.pendingFunctors).Perm
      (q.bound ++ q.pendingFunctors) :=
    (List.getElem_cons_eraseIdx_perm hi).append_right _
  exact (hmoved.trans hback).append_right _

theorem owed_doPendingFunctors (hnil : q.functors = []) :
    owed { q with functors := q.pendingFunctors, pendingFunctors := [] } = q.owed := by
  simp [owed, hnil]

theorem owed_runFunctor {f : Functor} {rest : List Functor} (hf : q.functors = f :: rest) :
    q.owed.Perm (f :: owed { q with functors := rest }) := by
  unfold owed
  rw [hf]
  exact List.perm_middle

end CodingDemo.Libcpp.TcpConnection
