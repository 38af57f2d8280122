import CodingDemo.Net.TcpConnection.Lifecycle
import CodingDemo.Net.TcpConnection.Output

/-!
# What `send` does with the thread and the state

`send` compares the state and not the thread: a connected connection sends at once in any thread,
and asserts there that it is in the thread of the loop; otherwise the message goes to the loop, and
is sent whatever the state is. As long as a connected connection is sent messages by the thread of
its loop, and another one only empty messages, nothing aborts and only messages to the connected
connection are written.

## Main definitions

* `SendsConnected`: the calls of `send` for which the comparison does
* `Unwritten`: no byte of a message passed in another state than `kConnected` is written

## Main results

* `send_of_connected`: a connected connection aborts in another thread
* `exists_step_iff`: no other step of a run aborts
* `send_of_not_connected`: a connection that is not connected writes the message
* `sendsConnected_unwritten`: the two promises of `send`, in every run
-/

namespace CodingDemo.Libcpp.TcpConnection

variable {q q' : TcpConnection} {e : Event} {msg : Message} {result : WriteResult}

/-- A message is passed by the thread of the loop if the connection is connected, and is empty
otherwise. -/
def SendsConnected (q : TcpConnection) : Event → Prop
  | .send isInLoopThread msg _ =>
    if q.state = .kConnected then isInLoopThread = true else msg = []
  | _ => True

instance (q : TcpConnection) : (e : Event) → Decidable (q.SendsConnected e)
  | .send isInLoopThread msg _ =>
    inferInstanceAs (Decidable (if q.state = .kConnected then isInLoopThread = true else msg = []))
  | .shutdown _ | .setWriteCompleteCallback _ | .queueInLoop _ | .doPendingFunctors
  | .runFunctor _ | .handleWrite _ | .handleClose | .ret => inferInstanceAs (Decidable True)

instance (q : TcpConnection) (e : Event) :
    Decidable ((machine.guard SendsConnected).enabled q e) :=
  inferInstanceAs (Decidable (q.Enabled e ∧ q.SendsConnected e))

/-- No byte of a message that was passed to `send` in another state than `kConnected` is among the
accepted ones. -/
def Unwritten (q : TcpConnection) : Prop :=
  ∀ l m r, q.sent = l ++ m :: r → m.state ≠ .kConnected →
    m.bytes = [] ∨ q.accepted.length ≤ (l.flatMap Message.bytes).length

/-! ## The two defects -/

/-- In another thread a connected connection aborts. -/
theorem send_of_connected (hstate : q.state = .kConnected) (data : List UInt8)
    (result : WriteResult) : q.step (.send false data result) = .error .notInLoopThread := by
  simp only [step, send, if_pos hstate]
  rfl

/-- It is the only step that aborts. -/
theorem exists_step_iff (h : machine.Reachable q) (he : q.Enabled e) :
    (∃ q', q.step e = .ok q') ↔
      ∀ data result, e = .send false data result → q.state ≠ .kConnected := by
  constructor
  · rintro ⟨q', hs⟩ data result rfl hstate
    cases (send_of_connected hstate data result).symm.trans hs
  · exact exists_step (h.invariant preserves_lifecycle fun _ => lifecycle_of_init) he

/-- A connection that is not connected writes the message to the socket, if there is nothing in the
buffer. -/
theorem send_of_not_connected (hwriting : q.channel.isWriting = false)
    (hempty : q.outputBuffer.bytes = []) (hstate : q.state ≠ .kConnected) (data : List UInt8) :
    ∃ q', q.step (.send true data (some data.length)) = .ok q' ∧
      q'.accepted = q.accepted ++ data := by
  have hread := Buffer.readableBytes_eq_zero.mpr hempty
  -- the callback is called or not
  cases hcallback : q.writeCompleteCallback <;>
    simp [step, send, hstate, runInLoop, call, TcpConnection.sendInLoop, assertInLoopThread, bind,
      Except.bind, pure, Except.pure, hwriting, hread, writeNow, hcallback]

/-! ## Messages on their way -/

/-- The messages passed to a connection that is not connected are empty. -/
structure Quiet (q : TcpConnection) : Prop where
  sent : ∀ m ∈ q.sent, m.state ≠ .kConnected → m.bytes = []
  owed : ∀ m, .sendInLoop m ∈ q.owed → m.state ≠ .kConnected → m.bytes = []

theorem Quiet.congr (h : Quiet q) (hsent : q'.sent = q.sent) (howed : q'.owed ⊆ q.owed) :
    Quiet q' where
  sent m hm := h.sent m (hsent ▸ hm)
  owed m hm := h.owed m (howed hm)

theorem Quiet.sends (h : Quiet q) (hmsg : msg.state ≠ .kConnected → msg.bytes = [])
    (hs : Sends q msg q') : Quiet q' := by
  obtain ⟨-, howed, -, -, -, -, hsent⟩ := hs.same
  refine ⟨fun m hm => ?_, fun m hm => h.owed m (howed ▸ hm)⟩
  rw [hsent] at hm
  rcases List.mem_append.mp hm with hm | hm
  · exact h.sent m hm
  · obtain rfl := List.mem_singleton.mp hm
    exact hmsg

/-- A functor is bound. -/
theorem Quiet.bind {f : Functor} (h : Quiet q)
    (hf : ∀ m, f = .sendInLoop m → m.state ≠ .kConnected → m.bytes = []) :
    Quiet { q with bound := q.bound ++ [f] } := by
  refine ⟨h.sent, fun m hm => ?_⟩
  rcases List.mem_cons.mp ((owed_bind f).subset hm) with heq | hm
  · exact hf m heq.symm
  · exact h.owed m hm

theorem Quiet.called {f : Functor} (h : Quiet q)
    (hf : ∀ m, f = .sendInLoop m → m.state ≠ .kConnected → m.bytes = []) (hs : Called q f q') :
    Quiet q' := by
  cases hs with
  | sendInLoop hsends => exact h.sends (hf _ rfl) hsends
  | shutdownInLoop =>
    split_ifs
    · exact h
    · exact h.congr rfl fun _ hg => hg
  | connectEstablished => exact h.congr rfl fun _ hg => hg
  | connectDestroyed => exact h.congr rfl fun _ hg => hg

theorem quiet_step (h : Quiet q) (he : q.Enabled e) (hsend : q.SendsConnected e)
    (hs : q.step e = .ok q') : Quiet q' := by
  cases step_effect he hs with
  | send hsends =>
    refine Quiet.sends ?_ (fun hne => ?_) hsends
    · exact h.congr rfl fun _ hg => hg
    · simpa only [SendsConnected, if_neg hne] using hsend
  | @bindSend data _ hne =>
    have hnil : data = [] := by simpa only [SendsConnected, if_neg hne] using hsend
    have hbind := h.bind (f := .sendInLoop { bytes := data, state := q.state })
      fun m hm _ => by rw [← Functor.sendInLoop.inj hm, hnil]
    exact hbind.congr rfl fun _ hg => hg
  | shutdownNot => exact h
  | shutdown _ hcalled =>
    refine Quiet.called ?_ (by nofun) hcalled
    exact h.congr rfl fun _ hg => hg
  | bindShutdown =>
    exact (h.bind (f := .shutdownInLoop) (by nofun)).congr rfl fun _ hg => hg
  | queueInLoop hf => exact h.congr rfl (owed_queueInLoop hf).subset
  | doPendingFunctors hnil => exact h.congr rfl fun _ hg => owed_doPendingFunctors hnil ▸ hg
  | runFunctor hf hcalled =>
    have howed := (owed_runFunctor hf).symm.subset
    refine Quiet.called ?_ (fun m hm => ?_) hcalled
    · exact h.congr rfl fun _ hg => howed (List.mem_cons_of_mem _ hg)
    · exact h.owed m (howed (hm ▸ List.mem_cons_self))
  | handleWrite hwrites =>
    obtain ⟨hsent, howed⟩ := hwrites.same
    exact h.congr hsent fun _ hg => howed ▸ hg
  | handleClose =>
    exact (h.bind (f := .connectDestroyed) (by nofun)).congr rfl fun _ hg => hg
  | retWrite _ hfinish =>
    rw [finishWrite_eq] at hfinish
    obtain rfl := Except.ok.inj hfinish
    split_ifs
    · exact h.congr rfl fun _ hg => hg
    · exact h.congr rfl fun _ hg => hg
  | _ => exact h.congr rfl fun _ hg => hg

/-! ## Runs -/

theorem preserves_quiet : (machine.guard SendsConnected).Preserves fun q =>
    (Output q ∧ Lifecycle q) ∧ Quiet q := by
  refine Machine.Preserves.and ?_ fun _ _ _ _ h he hs => quiet_step h he.1 he.2 hs
  exact (preserves_output.guard _).and fun _ _ _ _ h he hs => lifecycle_step h he.1 hs

theorem quiet_of_init (h : machine.init q) : (Output q ∧ Lifecycle q) ∧ Quiet q := by
  have hlife := lifecycle_of_init h
  obtain ⟨writeCompleteCallback, rfl⟩ := h
  refine ⟨⟨Output.init _, hlife⟩, ?_, fun m hm => ?_⟩
  · exact fun _ hm => nomatch hm
  · simp [owed, init] at hm

/-- **`send` respects the thread and the state** in the runs in which it is called by the thread of
the loop when the connection is connected, and with an empty message when it is not: no such step
aborts, and no byte is written of a message that was passed when the connection was not connected.
Where one of the two conditions is not met, a connected connection aborts, and another one writes
the message if the kernel accepts it, as it may until the socket is closed for writing. -/
theorem sendsConnected_unwritten (h : (machine.guard SendsConnected).Reachable q) :
    (∀ e, q.Enabled e → q.SendsConnected e → ∃ q', q.step e = .ok q') ∧
    q.accepted ++ q.outputBuffer.bytes = q.sent.flatMap Message.bytes ∧ q.Unwritten ∧
    (∀ data result, q.state = .kConnected →
      q.step (.send false data result) = .error .notInLoopThread) ∧
    ∀ data, q.state ≠ .kConnected → q.channel.isWriting = false → q.outputBuffer.bytes = [] →
      q.shutdowns = [] → ∃ q', q.step (.send true data (some data.length)) = .ok q' ∧
        q'.accepted = q.accepted ++ data := by
  obtain ⟨⟨houtput, hlife⟩, hquiet⟩ := h.invariant preserves_quiet fun _ => quiet_of_init
  -- a message passed in another state is empty, so none of its bytes are written
  refine ⟨fun e he hsend => exists_step hlife he ?_, houtput.stream, ?_,
    fun data result hstate => send_of_connected hstate data result,
    fun data hstate hwriting hempty _ => send_of_not_connected hwriting hempty hstate data⟩
  · rintro data result rfl hstate
    simp [SendsConnected, hstate] at hsend
  · intro l m r hsent hstate
    exact .inl (hquiet.sent m (by simp [hsent]) hstate)

/-- The functor of the constructor runs. -/
def establish : List Event := [.queueInLoop 0, .doPendingFunctors, .runFunctor none]

/-- A message is sent and drained, the connection is shut down, and an empty message is sent. -/
def sendThenShutdown : List Event :=
  establish ++ [.send true [1, 2] (some 1), .handleWrite (some 1), .shutdown true,
    .send false [] none, .queueInLoop 0, .doPendingFunctors, .runFunctor (some 0)]

theorem sendsConnected_unwritten_sendThenShutdown : ∃ q, machine.Reachable q ∧
    q.accepted = [1, 2] ∧ q.sent.length = 2 ∧ q.Unwritten := by
  have hex : ((machine.guard SendsConnected).exec (init false) sendThenShutdown).map
      (fun q => (q.accepted, q.sent.length)) = some ([1, 2], 2) := by decide +kernel
  obtain ⟨q, hq, hstate⟩ := Option.map_eq_some_iff.mp hex
  obtain ⟨haccepted, hlength⟩ := Prod.mk.inj hstate
  have hr : (machine.guard SendsConnected).Reachable q :=
    ⟨_, _, ⟨false, rfl⟩, Machine.run_of_exec hq⟩
  exact ⟨q, hr.of_guard, haccepted, hlength, (sendsConnected_unwritten hr).2.2.1⟩

/-- A connected connection aborts in another thread, and a message that is passed after `shutdown`,
while the buffer is being drained, is written to the socket. -/
theorem exists_send_abort_and_written :
    (∃ q, machine.Reachable q ∧ q.Enabled (.send false [1] none) ∧
      q.step (.send false [1] none) = .error .notInLoopThread) ∧
    ∃ q, machine.Reachable q ∧ ¬ q.Unwritten := by
  have hconnected : (machine.exec (init false) establish).map (fun q => q.state) =
      some .kConnected := by decide
  have hshutdown : (machine.exec (init false) (establish ++ [.send true [1, 2] (some 1),
      .shutdown true, .send true [3] none, .handleWrite (some 2)])).map
      (fun q => (q.sent, q.accepted)) = some ([{ bytes := [1, 2], state := .kConnected },
        { bytes := [3], state := .kDisconnecting }], [1, 2, 3]) := by decide +kernel
  obtain ⟨q, hq, hstate⟩ := Option.map_eq_some_iff.mp hconnected
  obtain ⟨r, hr, hsent⟩ := Option.map_eq_some_iff.mp hshutdown
  obtain ⟨hsent, haccepted⟩ := Prod.mk.inj hsent
  refine ⟨⟨q, ⟨_, _, ⟨false, rfl⟩, Machine.run_of_exec hq⟩, atMost_none _,
    send_of_connected hstate _ _⟩, r, ⟨_, _, ⟨false, rfl⟩, Machine.run_of_exec hr⟩, fun h => ?_⟩
  -- the second message was passed while disconnecting, and its byte is accepted
  have hnot := h [_] _ [] hsent (by decide)
  rw [haccepted] at hnot
  simp at hnot

end CodingDemo.Libcpp.TcpConnection
