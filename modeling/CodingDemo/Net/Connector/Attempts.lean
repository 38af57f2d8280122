import CodingDemo.Net.Connector.Sockets
import Mathlib.Tactic.Common

/-!
# The attempts of a connector

`startInLoop` asserts that the connector is disconnected, and `connecting` that there is no channel.
Nothing in the connector sees to that: a call of `start` may find another attempt in progress, or a
call of `startInLoop` that is still to come.

## Main definitions

* `outstanding`: the calls of `startInLoop` that are still to come
* `AtRest`: the condition on the events
* `Orderly`: the invariant

## Main results

* `orderly_step`: an event that meets the condition has no fault, and keeps the invariant
* `exists_step_of_atRest`: in a run that meets the condition no assertion fails
-/

namespace CodingDemo.Libcpp.Connector

variable {q q' : Connector} {fd : ℕ} {savedErrno : Errno} {e : Event}

/-- The calls of `startInLoop` that are still to come: those of timers, and those that are queued or
are to be queued. -/
def outstanding (q : Connector) : ℕ :=
  q.timers.length + q.expired.length + q.starting + q.queue.todo.count .startInLoop

/-- The connector is started only when it is disconnected, with no channel left and no other start
outstanding; in another thread the channel may still wait to be reset. A retry timer does not fire
before the channel has been reset. -/
def AtRest (q : Connector) : Event → Prop
  | .start _ => q.state = .kDisconnected ∧ q.channel = none ∧ q.outstanding = 0
  | .restart _ => q.channel = none ∧ q.outstanding = 0
  | .startFrom => q.state = .kDisconnected ∧ q.outstanding = 0
  | .fire _ _ => q.connect_ = true → .resetChannel ∉ q.queue.todo
  | _ => True

instance (q : Connector) : (e : Event) → Decidable (q.AtRest e)
  | .start _ =>
    inferInstanceAs (Decidable (q.state = .kDisconnected ∧ q.channel = none ∧ q.outstanding = 0))
  | .restart _ => inferInstanceAs (Decidable (q.channel = none ∧ q.outstanding = 0))
  | .startFrom => inferInstanceAs (Decidable (q.state = .kDisconnected ∧ q.outstanding = 0))
  | .fire _ _ => inferInstanceAs (Decidable (q.connect_ = true → .resetChannel ∉ q.queue.todo))
  | .stop | .queueStart | .stopFrom | .queueCancel | .expire _ | .createTimer | .swap
  | .runFunctor _ | .handleEvent _ _ _ _ => isTrue trivial

instance (q : Connector) (e : Event) : Decidable ((machine.guard AtRest).enabled q e) :=
  inferInstanceAs (Decidable (q.Enabled e ∧ q.AtRest e))

/-- No channel is reset after a start that is queued before. -/
def ResetsFirst (todo : List ConnectorFunctor) : Prop :=
  todo.Pairwise fun cb cb' => cb = .startInLoop → cb' ≠ .resetChannel

/-- At most one attempt is in progress or outstanding. -/
structure Orderly (q : Connector) : Prop where
  accounted : Accounted q
  busy : q.state ≠ .kDisconnected → q.outstanding = 0
  single : q.connect_ = true → q.outstanding ≤ 1
  resetsFirst : ResetsFirst q.queue.todo
  live : ∀ {fd}, q.channel = some { fd := fd, live := true } → q.state = .kConnecting

theorem orderly_init (numCreated : ℕ) : Orderly { numCreated := numCreated } where
  accounted := accounted_init numCreated
  busy _ := rfl
  single _ := Nat.zero_le _
  resetsFirst := List.Pairwise.nil
  live hchannel := nomatch hchannel

theorem resetsFirst_of_notMem {todo : List ConnectorFunctor} (h : .startInLoop ∉ todo) :
    ResetsFirst todo :=
  List.Pairwise.imp_of_mem (fun hcb _ _ heq => absurd (heq ▸ hcb) h)
    (List.pairwise_of_forall fun _ _ => trivial)

theorem notMem_of_outstanding (h : q.outstanding = 0) : .startInLoop ∉ q.queue.todo := by
  unfold outstanding at h
  exact List.count_eq_zero.mp (by omega)

/-! ## Starting -/

/-- Without a channel, `connect` makes one, or closes the socket and perhaps retries. -/
theorem connect_cases (hnone : q.channel = none) (savedErrno : Errno) :
    q.connect savedErrno = .ok { q with
      created := q.created + 1
      state := .kConnecting
      channel := some { fd := q.created, live := true } } ∨
    q.connect savedErrno = .ok ({ q with created := q.created + 1 }.retry q.created) ∨
    q.connect savedErrno = .ok ({ q with created := q.created + 1 }.close q.created) := by
  cases savedErrno with
  | success | EINPROGRESS | EINTR | EISCONN =>
    refine .inl ?_
    simp [Connector.connect, Connector.connecting, setState, hnone]
  | EAGAIN | EADDRINUSE | EADDRNOTAVAIL | ECONNREFUSED | ENETUNREACH => exact .inr (.inl rfl)
  | EACCES | EPERM | EAFNOSUPPORT | EALREADY | EBADF | EFAULT | ENOTSOCK | other =>
    exact .inr (.inr rfl)

/-- A retry leaves one start outstanding, that of its timer. -/
theorem outstanding_retry_le (hout : q.outstanding = 0) (fd : ℕ) :
    (q.retry fd).outstanding ≤ 1 := by
  rw [retry_eq]
  unfold outstanding at hout ⊢
  simp only
  split_ifs
  · rw [List.length_append, List.length_singleton]
    omega
  · omega

theorem todo_retry (fd : ℕ) : (q.retry fd).queue.todo = q.queue.todo := by rw [retry_eq]

theorem state_retry (fd : ℕ) : (q.retry fd).state = .kDisconnected := by rw [retry_eq]

theorem channel_retry (fd : ℕ) : (q.retry fd).channel = q.channel := by rw [retry_eq]

/-- A connector that retries is orderly if it is accounted for, and no other start is
outstanding. -/
theorem orderly_retry (ha : Accounted (q.retry fd)) (hout : q.outstanding = 0)
    (hlive : ∀ fd, q.channel ≠ some { fd := fd, live := true }) : Orderly (q.retry fd) where
  accounted := ha
  busy hne := absurd (state_retry fd) hne
  single _ := outstanding_retry_le hout fd
  resetsFirst := by
    rw [todo_retry]
    exact resetsFirst_of_notMem (notMem_of_outstanding hout)
  live hchannel := by
    rw [channel_retry] at hchannel
    exact absurd hchannel (hlive _)

/-- A start that is alone leads to one attempt. -/
theorem exists_startInLoop (ha : Accounted q) (hstate : q.state = .kDisconnected)
    (hlive : ∀ fd, q.channel ≠ some { fd := fd, live := true })
    (hresets : ResetsFirst q.queue.todo)
    (hrest : q.connect_ = true → q.channel = none ∧ q.outstanding = 0) (savedErrno : Errno) :
    ∃ q', q.startInLoop savedErrno = .ok q' ∧ Orderly q' := by
  unfold Connector.startInLoop
  rw [if_pos hstate]
  by_cases hconnect : q.connect_ = true
  · rw [if_pos hconnect]
    obtain ⟨hnone, hout⟩ := hrest hconnect
    have hle : q.outstanding ≤ 1 := by omega
    rcases connect_cases hnone savedErrno with hs | hs | hs
    · exact ⟨_, hs, ha.connect hs, fun _ => hout, fun _ => hle, hresets, fun _ => rfl⟩
    · exact ⟨_, hs, orderly_retry (ha.connect hs) hout hlive⟩
    · exact ⟨_, hs, ha.connect hs, fun hne => absurd hstate hne, fun _ => hle, hresets,
        fun hchannel => absurd hchannel (hlive _)⟩
  · rw [if_neg hconnect]
    refine ⟨q, rfl, ha, fun hne => absurd hstate hne, fun h => absurd h hconnect, hresets, ?_⟩
    exact fun hchannel => absurd hchannel (hlive _)

/-- A start that was outstanding comes: it is alone, and the channel has been reset. -/
theorem Orderly.exists_startInLoop (h : Orderly q) (ha : Accounted q')
    (hout : q.outstanding = q'.outstanding + 1) (hstate : q'.state = q.state)
    (hchannel : q'.channel = q.channel) (hconnect : q'.connect_ = q.connect_)
    (hresetsFirst : ResetsFirst q'.queue.todo)
    (hresets : q'.connect_ = true → q'.resets = 0) (savedErrno : Errno) :
    ∃ q'', q'.startInLoop savedErrno = .ok q'' ∧ Orderly q'' := by
  have hdisconnected : q.state = .kDisconnected := by
    by_contra hne
    have hzero := h.busy hne
    omega
  have hnot : q.state ≠ .kConnecting := by
    rw [hdisconnected]
    exact nofun
  have hlive : ∀ fd, q'.channel ≠ some { fd := fd, live := true } := by
    intro fd hchannel'
    exact hnot (h.live (hchannel ▸ hchannel'))
  apply Connector.exists_startInLoop ha (hstate.trans hdisconnected) hlive hresetsFirst
  intro hconnect'
  have hsingle := h.single (hconnect ▸ hconnect')
  have hdue : resetsDue q'.channel = 0 := ha.resets.symm.trans (hresets hconnect')
  refine ⟨?_, by omega⟩
  rcases hchannel' : q'.channel with _ | ⟨fd, _ | _⟩
  · rfl
  · rw [hchannel'] at hdue
    cases hdue
  · exact absurd hchannel' (hlive fd)

/-! ## The handlers -/

theorem outstanding_removed (fd : ℕ) : (q.removed fd).outstanding = q.outstanding := by
  simp [outstanding, removed, FunctorQueue.todo_queueInLoop, List.count_append]

theorem channel_removed_ne (fd fd' : ℕ) :
    (q.removed fd).channel ≠ some { fd := fd', live := true } := by
  intro hchannel
  cases hchannel

/-- Nothing is outstanding while the channel is live. -/
theorem Orderly.outstanding_eq_zero (h : Orderly q)
    (hlive : q.channel = some { fd := fd, live := true }) : q.outstanding = 0 := by
  apply h.busy
  rw [h.live hlive]
  exact nofun

/-- The live channel is removed, and its socket is retried. -/
theorem Orderly.retryLive (h : Orderly q) (hlive : q.channel = some { fd := fd, live := true }) :
    Orderly ((q.removed fd).retry fd) := by
  apply orderly_retry (h.accounted.retryLive hlive)
  · rw [outstanding_removed, h.outstanding_eq_zero hlive]
  · exact channel_removed_ne fd

/-- A handler of the live channel has no fault. -/
theorem Orderly.exists_handleWrite (h : Orderly q)
    (hlive : q.channel = some { fd := fd, live := true }) (err : ℤ) (selfConnect : Bool) :
    ∃ q', q.handleWrite err selfConnect = .ok q' ∧ Orderly q' := by
  have hout : (q.removed fd).outstanding = 0 := by
    rw [outstanding_removed, h.outstanding_eq_zero hlive]
  have hresets : ResetsFirst (q.removed fd).queue.todo :=
    resetsFirst_of_notMem (notMem_of_outstanding hout)
  have hle : (q.removed fd).outstanding ≤ 1 := by omega
  have hdead : ∀ fd', (q.removed fd).channel ≠ some { fd := fd', live := true } :=
    channel_removed_ne fd
  rcases handleWrite_cases (h.live hlive) hlive err selfConnect with hs | hs | hs
  · exact ⟨_, hs, h.retryLive hlive⟩
  · exact ⟨_, hs, h.accounted.handleWrite hs, fun _ => hout, fun _ => hle, hresets,
      fun hchannel => absurd hchannel (hdead _)⟩
  · exact ⟨_, hs, h.accounted.handleWrite hs, fun _ => hout, fun _ => hle, hresets,
      fun hchannel => absurd hchannel (hdead _)⟩

/-- Both handlers of one `handleEvent` run without a fault. -/
theorem Orderly.exists_handleEvent (h : Orderly q)
    (hlive : q.channel = some { fd := fd, live := true }) (error writable : Bool) (err : ℤ)
    (selfConnect : Bool) :
    ∃ q', q.handleEvent error writable err selfConnect = .ok q' ∧ Orderly q' := by
  unfold Connector.handleEvent
  cases error with
  | false =>
    cases writable with
    | false => exact ⟨q, rfl, h⟩
    | true => exact h.exists_handleWrite hlive err selfConnect
  | true =>
    have herror := handleError_eq (h.live hlive) hlive
    refine ⟨_, ?_, h.retryLive hlive⟩
    rw [if_pos rfl, herror]
    -- the connector is disconnected when `handleWrite` is called
    cases writable with
    | false => rfl
    | true =>
      show ((q.removed fd).retry fd).handleWrite err selfConnect = _
      unfold Connector.handleWrite
      rw [state_retry]
      rfl

/-! ## The events -/

theorem outstanding_cancelInLoop_le (timerId : ConnectorTimerId) :
    (q.cancelInLoop timerId).outstanding ≤ q.outstanding := by
  have hle := List.length_filter_le
    (fun timer => ¬(timerId.timer = some timer ∧ timerId.sequence = timer)) q.timers
  unfold outstanding cancelInLoop
  simp only at hle ⊢
  omega

/-- The calls that only concern `connect_`, the timers and the functors. -/
theorem Orderly.of_eq (h : Orderly q) (ha : Accounted q') (hstate : q'.state = q.state)
    (hchannel : q'.channel = q.channel ∨ q'.channel = none)
    (hout : q'.outstanding ≤ q.outstanding) (hconnect : q'.connect_ = true → q.connect_ = true)
    (hresets : ResetsFirst q'.queue.todo) : Orderly q' where
  accounted := ha
  busy hne := Nat.eq_zero_of_le_zero ((h.busy (hstate ▸ hne)) ▸ hout)
  single hc := Nat.le_trans hout (h.single (hconnect hc))
  resetsFirst := hresets
  live hlive := by
    rcases hchannel with hsame | hnone
    · exact hstate.trans (h.live (hsame ▸ hlive))
    · cases hnone.symm.trans hlive

/-- A functor that is queued and is no reset comes last. -/
theorem ResetsFirst.append {todo : List ConnectorFunctor} (h : ResetsFirst todo)
    {cb : ConnectorFunctor} (hcb : cb ≠ .resetChannel) : ResetsFirst (todo ++ [cb]) := by
  refine List.pairwise_append.mpr ⟨h, List.pairwise_singleton _ _, ?_⟩
  intro cb' _ cb'' hcb'' _
  rw [List.mem_singleton.mp hcb'']
  exact hcb

theorem Orderly.exists_runFunctor (h : Orderly q) (he : q.queue.functors ≠ [])
    (savedErrno : Errno) : ∃ q', q.step (.runFunctor savedErrno) = .ok q' ∧ Orderly q' := by
  obtain ⟨cb, rest, hfunctors⟩ := List.exists_cons_of_ne_nil he
  have htodo := FunctorQueue.todo_pop hfunctors
  have hfirst := h.resetsFirst
  rw [htodo, ResetsFirst, List.pairwise_cons] at hfirst
  obtain ⟨hhead, htail⟩ := hfirst
  have hs : q.step (.runFunctor savedErrno) =
      ({ q with queue := q.queue.pop } : Connector).call savedErrno cb := by
    simp only [step, hfunctors]
  have hcount : ∀ f, q.queue.todo.count f =
      q.queue.pop.todo.count f + if cb = f then 1 else 0 := by
    intro f
    rw [htodo, List.count_cons]
    simp only [beq_iff_eq]
  cases cb with
  | startInLoop =>
    have hpop : Accounted { q with queue := q.queue.pop } :=
      h.accounted.of_eq rfl rfl rfl rfl id (hcount .resetChannel).symm
    have hout : q.outstanding = ({ q with queue := q.queue.pop } : Connector).outstanding + 1 := by
      have hstart := hcount .startInLoop
      rw [if_pos rfl] at hstart
      simp only [outstanding, hstart]
      omega
    rw [hs]
    refine h.exists_startInLoop hpop hout rfl rfl rfl htail (fun _ => ?_) savedErrno
    exact List.count_eq_zero.mpr fun hmem => hhead _ hmem rfl rfl
  | resetChannel =>
    have ha := h.accounted.runFunctor he hs
    refine ⟨_, hs, h.of_eq ha rfl (.inr rfl) ?_ id htail⟩
    have hstart := hcount .startInLoop
    simp only [outstanding, resetChannel, hstart]
    omega
  | cancelInLoop timerId =>
    have ha := h.accounted.runFunctor he hs
    refine ⟨_, hs, h.of_eq ha rfl (.inl rfl) ?_ id htail⟩
    apply Nat.le_trans (outstanding_cancelInLoop_le timerId)
    have hstart := hcount .startInLoop
    simp only [outstanding, hstart]
    omega

/-- An event that meets the condition has no fault, and keeps the connector orderly. -/
theorem orderly_step (h : Orderly q) (he : q.Enabled e) (hrest : q.AtRest e) :
    ∃ q', q.step e = .ok q' ∧ Orderly q' := by
  have hdead : q.state = .kDisconnected → ∀ fd, q.channel ≠ some { fd := fd, live := true } := by
    intro hstate fd hlive
    cases hstate.symm.trans (h.live hlive)
  cases e with
  | start savedErrno =>
    obtain ⟨hstate, hnone, hout⟩ := hrest
    have ha : Accounted { q with connect_ := true } := h.accounted.of_eq rfl rfl rfl rfl id rfl
    exact Connector.exists_startInLoop ha hstate (hdead hstate) h.resetsFirst
      (fun _ => ⟨hnone, hout⟩) savedErrno
  | restart savedErrno =>
    obtain ⟨hnone, hout⟩ := hrest
    have ha : Accounted { q.setState .kDisconnected with
        retryDelayMs := kInitRetryDelayMs, connect_ := true } :=
      h.accounted.of_eq rfl rfl rfl rfl (by simp [setState]) rfl
    refine Connector.exists_startInLoop ha rfl (fun fd hlive => ?_) h.resetsFirst
      (fun _ => ⟨hnone, hout⟩) savedErrno
    cases hnone.symm.trans hlive
  | stop =>
    have ha := accounted_step h.accounted he rfl
    refine ⟨_, rfl, h.of_eq ha rfl (.inl rfl) (outstanding_cancelInLoop_le _) ?_ h.resetsFirst⟩
    exact fun hconnect => absurd hconnect Bool.false_ne_true
  | startFrom =>
    obtain ⟨hstate, hout⟩ := hrest
    refine ⟨_, rfl, accounted_step h.accounted he rfl, fun hne => absurd hstate hne, fun _ => ?_,
      h.resetsFirst, h.live⟩
    unfold outstanding at hout ⊢
    simp only
    omega
  | queueStart =>
    have hpos : 0 < q.starting := he
    refine ⟨_, rfl, h.of_eq (accounted_step h.accounted he rfl) rfl (.inl rfl) ?_ id ?_⟩
    · simp only [outstanding, queueInLoop, FunctorQueue.todo_queueInLoop, List.count_append,
        List.count_singleton_self]
      omega
    · simp only [queueInLoop, FunctorQueue.todo_queueInLoop]
      exact h.resetsFirst.append (by decide)
  | stopFrom =>
    have ha := accounted_step h.accounted he rfl
    refine ⟨_, rfl, h.of_eq ha rfl (.inl rfl) (Nat.le_refl _) ?_ h.resetsFirst⟩
    exact fun hconnect => absurd hconnect Bool.false_ne_true
  | queueCancel =>
    refine ⟨_, rfl, h.of_eq (accounted_step h.accounted he rfl) rfl (.inl rfl) ?_ id ?_⟩
    · simp [outstanding, queueInLoop, FunctorQueue.todo_queueInLoop, List.count_append]
    · simp only [queueInLoop, FunctorQueue.todo_queueInLoop]
      exact h.resetsFirst.append (by simp)
  | expire timer =>
    have hmem : timer ∈ q.timers := he
    refine ⟨_, rfl, h.of_eq (accounted_step h.accounted he rfl) rfl (.inl rfl) ?_ id h.resetsFirst⟩
    have hlength := List.length_erase_of_mem hmem
    have hpos := List.length_pos_of_mem hmem
    simp only [outstanding, List.length_append, List.length_singleton]
    omega
  | fire timer savedErrno =>
    have hmem : timer ∈ q.expired := he
    have ha : Accounted { q with expired := q.expired.erase timer } :=
      h.accounted.of_eq rfl rfl rfl rfl id rfl
    refine h.exists_startInLoop ha ?_ rfl rfl rfl h.resetsFirst (fun hc => ?_) savedErrno
    · have hlength := List.length_erase_of_mem hmem
      have hpos := List.length_pos_of_mem hmem
      simp only [outstanding]
      omega
    · exact List.count_eq_zero.mpr (hrest hc)
  | createTimer =>
    have ha := accounted_step h.accounted he rfl
    exact ⟨_, rfl, h.of_eq ha rfl (.inl rfl) (Nat.le_refl _) id h.resetsFirst⟩
  | swap =>
    have htodo := FunctorQueue.todo_swap he
    refine ⟨_, rfl, h.of_eq (accounted_step h.accounted he rfl) rfl (.inl rfl) ?_ id ?_⟩
    · simp only [outstanding, htodo]
      exact Nat.le_refl _
    · rw [htodo]
      exact h.resetsFirst
  | runFunctor savedErrno => exact h.exists_runFunctor he savedErrno
  | handleEvent error writable err selfConnect =>
    obtain ⟨⟨fd, live⟩, hchannel, hlive⟩ := he
    obtain rfl : live = true := hlive
    exact h.exists_handleEvent hchannel error writable err selfConnect

theorem orderly_of_reachable (h : (machine.guard AtRest).Reachable q) : Orderly q := by
  apply h.invariant
  · intro q e q' h he hs
    obtain ⟨q₁, hq₁, horderly⟩ := orderly_step h he.1 he.2
    obtain rfl := Except.ok.inj (hq₁.symm.trans hs)
    exact horderly
  · rintro q ⟨numCreated, rfl⟩
    exact orderly_init numCreated

/-- In a run in which the connector is started only at rest, no assertion fails: `startInLoop` is
entered only when the connector is disconnected, and `connecting` only when there is no channel. -/
theorem exists_step_of_atRest (hr : (machine.guard AtRest).Reachable q) (he : machine.enabled q e)
    (hrest : AtRest q e) : ∃ q', machine.step q e = .ok q' := by
  obtain ⟨q', hs, -⟩ := orderly_step (orderly_of_reachable hr) he hrest
  exact ⟨q', hs⟩

/-- The first attempt is refused. The connector is stopped, and the retry timer fires. -/
def stoppedInTime : List Event := [.start .ECONNREFUSED, .stop, .expire 1, .fire 1 .success]

theorem exists_step_of_atRest_stoppedInTime : ∃ q q' : Connector,
    (machine.guard AtRest).Run { numCreated := 1 } stoppedInTime q ∧
      machine.step q (.start .EINPROGRESS) = .ok q' := by
  have hex : ((machine.guard AtRest).exec { numCreated := 1 } stoppedInTime).map
      (fun q => (q.state, q.channel, q.outstanding)) = some (.kDisconnected, none, 0) := by decide
  obtain ⟨q, hq, hstate⟩ := Option.map_eq_some_iff.mp hex
  have hrun := Machine.run_of_exec hq
  have hrest : q.state = .kDisconnected ∧ q.channel = none ∧ q.outstanding = 0 := by
    simpa using hstate
  have hreachable : (machine.guard AtRest).Reachable q := ⟨_, _, ⟨1, rfl⟩, hrun⟩
  obtain ⟨q', hs⟩ := exists_step_of_atRest (e := .start .EINPROGRESS) hreachable trivial hrest
  exact ⟨q, q', hrun, hs⟩

/-- The connector is stopped while it is connecting, and started again. -/
theorem exists_abort_startAfterStop : ∃ q : Connector,
    machine.Run {} [.start .EINPROGRESS, .stop] q ∧ q.state = .kConnecting ∧
    machine.enabled q (.start .EINPROGRESS) ∧
    machine.step q (.start .EINPROGRESS) = .error .startInLoop := by
  have hex : (machine.exec {} [.start .EINPROGRESS, .stop]).map Connector.state =
      some .kConnecting := by decide
  obtain ⟨q, hq, hstate⟩ := Option.map_eq_some_iff.mp hex
  refine ⟨q, Machine.run_of_exec hq, hstate, trivial, ?_⟩
  show ({ q with connect_ := true } : Connector).startInLoop .EINPROGRESS = .error .startInLoop
  unfold Connector.startInLoop
  rw [hstate]
  rfl

end CodingDemo.Libcpp.Connector
