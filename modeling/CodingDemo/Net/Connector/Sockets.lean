import CodingDemo.Net.Connector.Model
import Mathlib.Data.List.Count

/-!
# The sockets of a connector

Every socket that the connector creates is closed or passed on, at most once, and is the one of the
current channel until then.

## Main definitions

* `resolved`: the sockets that have been closed or passed on
* `Accounted`: the invariant

## Main results

* `accounted_step`: every event that ends without a fault keeps the invariant
* `sockets_accounted`: what becomes of the sockets in a run
-/

namespace CodingDemo.Libcpp.Connector

variable {q q' : Connector} {fd : ℕ} {savedErrno : Errno} {e : Event}

/-- The sockets that have been closed or passed to `newConnectionCallback_`. -/
def resolved (q : Connector) : List ℕ := q.closed ++ q.passed

/-- The calls of `resetChannel` that are queued. -/
def resets (q : Connector) : ℕ := q.queue.todo.count .resetChannel

/-- A channel that has been removed is to be reset once. -/
def resetsDue : Option ConnectorChannel → ℕ
  | some { fd := _, live := false } => 1
  | _ => 0

/-- A socket is unresolved as long as it is that of a live channel. -/
structure Accounted (q : Connector) : Prop where
  nodup : q.resolved.Nodup
  resolved_lt : ∀ fd ∈ q.resolved, fd < q.created
  unresolved : ∀ fd < q.created, fd ∉ q.resolved → q.channel = some { fd := fd, live := true }
  live : ∀ {fd}, q.channel = some { fd := fd, live := true } → fd < q.created ∧ fd ∉ q.resolved
  connecting : q.state = .kConnecting → ∃ fd, q.channel = some { fd := fd, live := true }
  resets : q.resets = resetsDue q.channel

theorem accounted_init (numCreated : ℕ) : Accounted { numCreated := numCreated } where
  nodup := List.nodup_nil
  resolved_lt _ hfd := nomatch hfd
  unresolved _ hfd := absurd hfd (Nat.not_lt_zero _)
  live hchannel := nomatch hchannel
  connecting hstate := nomatch hstate
  resets := rfl

/-- Nothing else matters to the sockets. -/
theorem Accounted.of_eq (h : Accounted q) (hcreated : q'.created = q.created)
    (hclosed : q'.closed = q.closed) (hpassed : q'.passed = q.passed)
    (hchannel : q'.channel = q.channel) (hstate : q'.state = .kConnecting → q.state = .kConnecting)
    (hresets : q'.resets = q.resets) : Accounted q' := by
  have hresolved : q'.resolved = q.resolved := by rw [resolved, resolved, hclosed, hpassed]
  constructor
  case nodup => exact hresolved ▸ h.nodup
  case resolved_lt =>
    rw [hresolved, hcreated]
    exact h.resolved_lt
  case unresolved =>
    rw [hresolved, hcreated, hchannel]
    exact h.unresolved
  case live =>
    rw [hresolved, hcreated, hchannel]
    exact h.live
  case connecting =>
    rw [hchannel]
    exact fun hconnecting => h.connecting (hstate hconnecting)
  case resets =>
    rw [hresets, hchannel]
    exact h.resets

/-! ## New sockets -/

/-- A new socket is closed at once. -/
theorem Accounted.closeNew (h : Accounted q) (hcreated : q'.created = q.created + 1)
    (hclosed : q'.closed = q.closed ++ [q.created]) (hpassed : q'.passed = q.passed)
    (hchannel : q'.channel = q.channel) (hstate : q'.state = .kConnecting → q.state = .kConnecting)
    (hresets : q'.resets = q.resets) : Accounted q' := by
  have hperm : q'.resolved.Perm (q.created :: q.resolved) := by
    rw [resolved, resolved, hclosed, hpassed, List.append_assoc]
    exact List.perm_middle
  have hmem : ∀ {fd}, fd ∈ q'.resolved ↔ fd = q.created ∨ fd ∈ q.resolved :=
    fun {fd} => hperm.mem_iff.trans List.mem_cons
  constructor
  case nodup =>
    rw [hperm.nodup_iff, List.nodup_cons]
    exact ⟨fun hold => Nat.lt_irrefl _ (h.resolved_lt _ hold), h.nodup⟩
  case resolved_lt =>
    intro fd hfd
    rw [hcreated]
    rcases hmem.mp hfd with rfl | hold
    · exact Nat.lt_succ_self _
    · exact Nat.lt_succ_of_lt (h.resolved_lt fd hold)
  case unresolved =>
    intro fd hfd hun
    rw [hcreated] at hfd
    rw [hmem, not_or] at hun
    rw [hchannel]
    exact h.unresolved fd (by omega) hun.2
  case live =>
    intro fd hlive
    rw [hchannel] at hlive
    obtain ⟨hlt, hun⟩ := h.live hlive
    rw [hcreated, hmem, not_or]
    exact ⟨Nat.lt_succ_of_lt hlt, Nat.ne_of_lt hlt, hun⟩
  case connecting =>
    rw [hchannel]
    exact fun hconnecting => h.connecting (hstate hconnecting)
  case resets =>
    rw [hresets, hchannel]
    exact h.resets

/-- A new socket gets the channel. -/
theorem Accounted.openNew (h : Accounted q) (hnone : q.channel = none)
    (hcreated : q'.created = q.created + 1) (hclosed : q'.closed = q.closed)
    (hpassed : q'.passed = q.passed)
    (hchannel : q'.channel = some { fd := q.created, live := true })
    (hresets : q'.resets = q.resets) : Accounted q' := by
  have hresolved : q'.resolved = q.resolved := by rw [resolved, resolved, hclosed, hpassed]
  constructor
  case nodup => exact hresolved ▸ h.nodup
  case resolved_lt =>
    intro fd hfd
    rw [hcreated]
    exact Nat.lt_succ_of_lt (h.resolved_lt fd (hresolved ▸ hfd))
  case unresolved =>
    intro fd hfd hun
    rw [hcreated] at hfd
    rw [hresolved] at hun
    rcases Nat.lt_succ_iff_lt_or_eq.mp hfd with hlt | rfl
    · cases hnone.symm.trans (h.unresolved fd hlt hun)
    · exact hchannel
  case live =>
    intro fd hlive
    obtain rfl : q.created = fd := by
      rw [hchannel] at hlive
      exact congrArg ConnectorChannel.fd (Option.some.inj hlive)
    rw [hcreated, hresolved]
    exact ⟨Nat.lt_succ_self _, fun hold => Nat.lt_irrefl _ (h.resolved_lt _ hold)⟩
  case connecting => exact fun _ => ⟨_, hchannel⟩
  case resets =>
    rw [hresets, h.resets, hnone, hchannel]
    rfl

/-! ## The socket of the channel -/

/-- The socket of the live channel is resolved, and the channel is to be reset. -/
theorem Accounted.resolve (h : Accounted q) (hlive : q.channel = some { fd := fd, live := true })
    (hcreated : q'.created = q.created) (hperm : q'.resolved.Perm (fd :: q.resolved))
    (hchannel : q'.channel = some { fd := fd, live := false })
    (hstate : q'.state ≠ .kConnecting) (hresets : q'.resets = q.resets + 1) : Accounted q' := by
  obtain ⟨hlt, hun⟩ := h.live hlive
  have hmem : ∀ {fd'}, fd' ∈ q'.resolved ↔ fd' = fd ∨ fd' ∈ q.resolved :=
    fun {fd'} => hperm.mem_iff.trans List.mem_cons
  constructor
  case nodup =>
    rw [hperm.nodup_iff, List.nodup_cons]
    exact ⟨hun, h.nodup⟩
  case resolved_lt =>
    intro fd' hfd'
    rw [hcreated]
    rcases hmem.mp hfd' with rfl | hold
    · exact hlt
    · exact h.resolved_lt fd' hold
  case unresolved =>
    intro fd' hfd' hun'
    rw [hcreated] at hfd'
    rw [hmem, not_or] at hun'
    have hother := h.unresolved fd' hfd' hun'.2
    rw [hlive] at hother
    exact absurd (congrArg ConnectorChannel.fd (Option.some.inj hother)).symm hun'.1
  case live =>
    intro fd' hlive'
    rw [hchannel] at hlive'
    cases hlive'
  case connecting => exact fun hconnecting => absurd hconnecting hstate
  case resets =>
    rw [hresets, h.resets, hlive, hchannel]
    rfl

/-- The channel is reset once it has been removed. -/
theorem Accounted.reset (h : Accounted q) (hcreated : q'.created = q.created)
    (hclosed : q'.closed = q.closed) (hpassed : q'.passed = q.passed)
    (hchannel : q'.channel = none) (hstate : q'.state = q.state)
    (hresets : q.resets = q'.resets + 1) : Accounted q' := by
  have hresolved : q'.resolved = q.resolved := by rw [resolved, resolved, hclosed, hpassed]
  -- the channel is not live
  have hdue : resetsDue q.channel = q'.resets + 1 := h.resets.symm.trans hresets
  have hdead : ∀ fd, q.channel ≠ some { fd := fd, live := true } := by
    intro fd hlive
    rw [hlive] at hdue
    cases hdue
  constructor
  case nodup => exact hresolved ▸ h.nodup
  case resolved_lt =>
    rw [hresolved, hcreated]
    exact h.resolved_lt
  case unresolved =>
    intro fd hfd hun
    rw [hcreated] at hfd
    rw [hresolved] at hun
    exact absurd (h.unresolved fd hfd hun) (hdead fd)
  case live =>
    intro fd hlive
    cases hchannel.symm.trans hlive
  case connecting =>
    intro hconnecting
    obtain ⟨fd, hlive⟩ := h.connecting (hstate ▸ hconnecting)
    exact absurd hlive (hdead fd)
  case resets =>
    rw [hchannel]
    have hle : resetsDue q.channel ≤ 1 := by
      unfold resetsDue
      split
      · exact Nat.le_refl _
      · exact Nat.zero_le _
    show q'.resets = 0
    omega

/-! ## The member functions -/

/-- The members that the sockets depend on are the same after another timer. -/
theorem Accounted.retryNew (h : Accounted q) :
    Accounted ({ q with created := q.created + 1 }.retry q.created) := by
  rw [retry_eq]
  exact h.closeNew rfl rfl rfl rfl nofun rfl

theorem Accounted.connect (h : Accounted q) (hs : q.connect savedErrno = .ok q') :
    Accounted q' := by
  have hconnecting :
      ({ q with created := q.created + 1 } : Connector).connecting q.created = .ok q' →
        Accounted q' := by
    intro hs
    cases hchannel : q.channel with
    | none =>
      simp only [Connector.connecting, setState, hchannel] at hs
      obtain rfl := Except.ok.inj hs
      exact h.openNew hchannel rfl rfl rfl rfl rfl
    | some channel =>
      simp only [Connector.connecting, setState, hchannel] at hs
      cases hs
  have hclose : Accounted ({ q with created := q.created + 1 }.close q.created) :=
    h.closeNew rfl rfl rfl rfl id rfl
  cases savedErrno with
  | success | EINPROGRESS | EINTR | EISCONN => exact hconnecting hs
  | EAGAIN | EADDRINUSE | EADDRNOTAVAIL | ECONNREFUSED | ENETUNREACH =>
    obtain rfl := Except.ok.inj hs
    exact h.retryNew
  | EACCES | EPERM | EAFNOSUPPORT | EALREADY | EBADF | EFAULT | ENOTSOCK | other =>
    obtain rfl := Except.ok.inj hs
    exact hclose

theorem Accounted.startInLoop (h : Accounted q) (hs : q.startInLoop savedErrno = .ok q') :
    Accounted q' := by
  unfold Connector.startInLoop at hs
  split_ifs at hs with hstate hconnect
  · exact h.connect hs
  · obtain rfl := Except.ok.inj hs
    exact h

/-- The connector after `removeAndResetChannel` of its channel. -/
def removed (q : Connector) (fd : ℕ) : Connector :=
  { q with
    channel := some { fd := fd, live := false }
    queue := q.queue.queueInLoop .resetChannel }

theorem removeAndResetChannel_eq (hlive : q.channel = some { fd := fd, live := true }) :
    q.removeAndResetChannel = .ok (q.removed fd, fd) := by
  simp only [removeAndResetChannel, hlive]
  rfl

theorem resets_queueInLoop (cb : ConnectorFunctor) :
    (q.queueInLoop cb).resets = q.resets + if cb = .resetChannel then 1 else 0 := by
  simp only [Connector.resets, queueInLoop, FunctorQueue.todo_queueInLoop, List.count_append,
    List.count_singleton, beq_iff_eq]

theorem resets_removed (fd : ℕ) : (q.removed fd).resets = q.resets + 1 := resets_queueInLoop _

/-- A removed channel's socket is closed, and perhaps there is a retry timer. -/
theorem Accounted.retryLive (h : Accounted q)
    (hlive : q.channel = some { fd := fd, live := true }) :
    Accounted ((q.removed fd).retry fd) := by
  have hperm : (q.closed ++ [fd] ++ q.passed).Perm (fd :: q.resolved) := by
    rw [List.append_assoc]
    exact List.perm_middle
  rw [retry_eq]
  exact h.resolve hlive rfl hperm rfl nofun (resets_removed fd)

/-- The ways in which `handleWrite` resolves the socket. -/
theorem handleWrite_cases (hconnecting : q.state = .kConnecting)
    (hlive : q.channel = some { fd := fd, live := true }) (err : ℤ) (selfConnect : Bool) :
    q.handleWrite err selfConnect = .ok ((q.removed fd).retry fd) ∨
    q.handleWrite err selfConnect =
      .ok { q.removed fd with state := .kConnected, passed := q.passed ++ [fd] } ∨
    q.handleWrite err selfConnect =
      .ok { q.removed fd with state := .kConnected, closed := q.closed ++ [fd] } := by
  unfold Connector.handleWrite
  rw [if_pos hconnecting, removeAndResetChannel_eq hlive]
  simp only [bind, Except.bind, pure, Except.pure]
  split_ifs with herr hself hconnect
  · exact .inl rfl
  · exact .inl rfl
  · exact .inr (.inl rfl)
  · exact .inr (.inr rfl)

theorem Accounted.handleWrite (h : Accounted q) {err : ℤ} {selfConnect : Bool}
    (hs : q.handleWrite err selfConnect = .ok q') : Accounted q' := by
  by_cases hconnecting : q.state = .kConnecting
  · obtain ⟨fd, hlive⟩ := h.connecting hconnecting
    rcases handleWrite_cases hconnecting hlive err selfConnect with heq | heq | heq
    · obtain rfl := Except.ok.inj (heq.symm.trans hs)
      exact h.retryLive hlive
    · obtain rfl := Except.ok.inj (heq.symm.trans hs)
      refine h.resolve hlive rfl ?_ rfl nofun (resets_removed fd)
      show (q.closed ++ (q.passed ++ [fd])).Perm (fd :: q.resolved)
      rw [← List.append_assoc]
      exact List.perm_append_singleton _ _
    · obtain rfl := Except.ok.inj (heq.symm.trans hs)
      refine h.resolve hlive rfl ?_ rfl nofun (resets_removed fd)
      show (q.closed ++ [fd] ++ q.passed).Perm (fd :: q.resolved)
      rw [List.append_assoc]
      exact List.perm_middle
  · unfold Connector.handleWrite at hs
    rw [if_neg hconnecting] at hs
    split_ifs at hs
    obtain rfl := Except.ok.inj hs
    exact h

theorem handleError_eq (hconnecting : q.state = .kConnecting)
    (hlive : q.channel = some { fd := fd, live := true }) :
    q.handleError = .ok ((q.removed fd).retry fd) := by
  unfold Connector.handleError
  rw [if_pos hconnecting, removeAndResetChannel_eq hlive]
  rfl

theorem Accounted.handleError (h : Accounted q) (hs : q.handleError = .ok q') : Accounted q' := by
  by_cases hconnecting : q.state = .kConnecting
  · obtain ⟨fd, hlive⟩ := h.connecting hconnecting
    obtain rfl := Except.ok.inj ((handleError_eq hconnecting hlive).symm.trans hs)
    exact h.retryLive hlive
  · unfold Connector.handleError at hs
    rw [if_neg hconnecting] at hs
    cases hs

theorem Accounted.handleEvent (h : Accounted q) {error writable : Bool} {err : ℤ}
    {selfConnect : Bool} (hs : q.handleEvent error writable err selfConnect = .ok q') :
    Accounted q' := by
  unfold Connector.handleEvent at hs
  have hwrite : ∀ {q₁ : Connector}, Accounted q₁ →
      (if writable then q₁.handleWrite err selfConnect else .ok q₁) = .ok q' → Accounted q' := by
    intro q₁ h₁ hs
    split_ifs at hs
    · exact h₁.handleWrite hs
    · obtain rfl := Except.ok.inj hs
      exact h₁
  cases error with
  | false => exact hwrite h hs
  | true =>
    cases herror : q.handleError with
    | ok q₁ =>
      rw [if_pos rfl, herror] at hs
      exact hwrite (h.handleError herror) hs
    | error fault =>
      rw [if_pos rfl, herror] at hs
      cases hs

/-! ## The events -/

theorem Accounted.queueInLoop (h : Accounted q) {cb : ConnectorFunctor}
    (hcb : cb ≠ .resetChannel) : Accounted (q.queueInLoop cb) := by
  refine h.of_eq rfl rfl rfl rfl id ?_
  rw [resets_queueInLoop, if_neg hcb, Nat.add_zero]

/-- A functor is run: only a reset changes what the sockets depend on. -/
theorem Accounted.runFunctor (h : Accounted q) (he : q.queue.functors ≠ [])
    (hs : q.step (.runFunctor savedErrno) = .ok q') : Accounted q' := by
  obtain ⟨cb, rest, hfunctors⟩ := List.exists_cons_of_ne_nil he
  have htodo := FunctorQueue.todo_pop hfunctors
  have hresets : q.resets = ({ q with queue := q.queue.pop } : Connector).resets +
      if cb = .resetChannel then 1 else 0 := by
    simp only [Connector.resets, htodo, List.count_cons, beq_iff_eq]
  simp only [step, hfunctors] at hs
  cases cb with
  | startInLoop =>
    have hpop : Accounted { q with queue := q.queue.pop } := h.of_eq rfl rfl rfl rfl id hresets.symm
    exact hpop.startInLoop hs
  | resetChannel =>
    obtain rfl := Except.ok.inj hs
    exact h.reset rfl rfl rfl rfl rfl hresets
  | cancelInLoop timerId =>
    obtain rfl := Except.ok.inj hs
    exact h.of_eq rfl rfl rfl rfl id hresets.symm

/-- Every event that ends without a fault keeps the sockets accounted for. -/
theorem accounted_step (h : Accounted q) (he : q.Enabled e) (hs : q.step e = .ok q') :
    Accounted q' := by
  cases e with
  | start savedErrno =>
    have hstart : Accounted { q with connect_ := true } := h.of_eq rfl rfl rfl rfl id rfl
    exact hstart.startInLoop hs
  | restart savedErrno =>
    have hrestart : Accounted { q.setState .kDisconnected with
        retryDelayMs := kInitRetryDelayMs, connect_ := true } :=
      h.of_eq rfl rfl rfl rfl nofun rfl
    exact hrestart.startInLoop hs
  | fire timer savedErrno =>
    have hfire : Accounted { q with expired := q.expired.erase timer } :=
      h.of_eq rfl rfl rfl rfl id rfl
    exact hfire.startInLoop hs
  | stop | startFrom | stopFrom | expire | createTimer =>
    obtain rfl := Except.ok.inj hs
    exact h.of_eq rfl rfl rfl rfl id rfl
  | queueStart =>
    obtain rfl := Except.ok.inj hs
    have hq : Accounted { q with starting := q.starting - 1 } := h.of_eq rfl rfl rfl rfl id rfl
    exact hq.queueInLoop nofun
  | queueCancel =>
    obtain rfl := Except.ok.inj hs
    have hq : Accounted { q with stopping := q.stopping - 1 } := h.of_eq rfl rfl rfl rfl id rfl
    exact hq.queueInLoop nofun
  | swap =>
    obtain rfl := Except.ok.inj hs
    refine h.of_eq rfl rfl rfl rfl id ?_
    rw [Connector.resets, Connector.resets, FunctorQueue.todo_swap he]
  | runFunctor savedErrno => exact h.runFunctor he hs
  | handleEvent error writable err selfConnect => exact h.handleEvent hs

theorem accounted_of_reachable (h : machine.Reachable q) : Accounted q := by
  apply h.invariant
  · intro q e q' h he hs
    exact accounted_step h he hs
  · rintro q ⟨numCreated, rfl⟩
    exact accounted_init numCreated

/-- In a run in which no assertion fails, a socket is closed or passed to the callback at most once,
and not both; and it is that of the current channel as long as neither has been done. -/
theorem sockets_accounted (h : machine.Reachable q) :
    (q.closed ++ q.passed).Nodup ∧ (∀ fd ∈ q.closed ++ q.passed, fd < q.created) ∧
      ∀ fd < q.created, fd ∉ q.closed ++ q.passed → ∃ channel ∈ q.channel, channel.fd = fd := by
  have hq := accounted_of_reachable h
  refine ⟨hq.nodup, hq.resolved_lt, fun fd hfd hun => ?_⟩
  exact ⟨_, hq.unresolved fd hfd hun, rfl⟩

/-- The first socket has an error, and is writable as well; the second one is passed on, after the
timer has expired. The third one is being connected. -/
def errorThenConnect : List Event :=
  [.start .EINPROGRESS, .handleEvent true true 111 false, .swap, .runFunctor .success, .expire 0,
    .fire 0 .EINPROGRESS, .handleEvent false true 0 false, .swap, .runFunctor .success,
    .restart .EINPROGRESS]

theorem sockets_accounted_errorThenConnect : ∃ q : Connector, q.closed = [0] ∧ q.passed = [1] ∧
    q.created = 3 ∧ ∃ channel ∈ q.channel, channel.fd = 2 := by
  have hex : (machine.exec {} errorThenConnect).map (fun q => (q.closed, q.passed, q.created)) =
      some ([0], [1], 3) := by decide
  obtain ⟨q, hq, hstate⟩ := Option.map_eq_some_iff.mp hex
  obtain ⟨hclosed, hpassed, hcreated⟩ : q.closed = [0] ∧ q.passed = [1] ∧ q.created = 3 := by
    simpa using hstate
  obtain ⟨-, -, hun⟩ := sockets_accounted ⟨_, _, ⟨0, rfl⟩, Machine.run_of_exec hq⟩
  refine ⟨q, hclosed, hpassed, hcreated, hun 2 (by rw [hcreated]; decide) ?_⟩
  rw [hclosed, hpassed]
  decide

end CodingDemo.Libcpp.Connector
