import CodingDemo.Net.Connector.Attempts

/-!
# How a connector aborts

If the connector is started when it is not at rest, or a retry timer fires before the channel has
been reset, then the process can abort. Whether it does depends on the results of `connect`, and on
the order in which the loop runs the timers and the functors, but on no further call.

## Main definitions

* `CanAbort`: a step of the connector fails, or leads to a state from which a run fails
* `Event.succeeding`: the event, with a socket that is connected at once

## Main results

* `canFault_of_outstanding`: a start that is outstanding may abort a connector that is busy
* `canAbort_of_not_atRest`: the condition on the events is needed
-/

namespace CodingDemo.Libcpp.Connector

variable {q q' : Connector} {cb : ConnectorFunctor} {rest : List ConnectorFunctor} {e : Event}

/-- The step fails, or leads to a state from which a run fails. -/
def CanAbort (result : Except ConnectorFault Connector) : Prop :=
  (∃ fault, result = .error fault) ∨ ∃ q', result = .ok q' ∧ machine.CanFault q'

theorem CanAbort.canFault (h : CanAbort (q.step e)) (he : q.Enabled e) : machine.CanFault q := by
  rcases h with ⟨fault, hs⟩ | ⟨q', hs, hfault⟩
  · exact Machine.canFault_of_error he hs
  · exact hfault.cons he hs

/-! ## A start in a connector that is busy -/

/-- The loop can run the functor that is queued first. -/
theorem canFault_of_todo (htodo : q.queue.todo = cb :: rest)
    (h : ∀ queue : FunctorQueue ConnectorFunctor, queue.todo = rest →
      CanAbort ({ q with queue := queue }.call .success cb)) : machine.CanFault q := by
  have hrun : ∀ queue : FunctorQueue ConnectorFunctor, queue.todo = cb :: rest →
      queue.functors ≠ [] → machine.CanFault { q with queue := queue } := by
    intro queue hqueue hne
    obtain ⟨cb', functors, hfunctors⟩ := List.exists_cons_of_ne_nil hne
    have hpop := FunctorQueue.todo_pop hfunctors
    rw [hqueue, List.cons.injEq] at hpop
    obtain ⟨rfl, hrest⟩ := hpop
    apply CanAbort.canFault (e := .runFunctor .success)
    · simp only [step, hfunctors]
      exact h _ hrest.symm
    · exact hne
  by_cases hnil : q.queue.functors = []
  · have hpending : q.queue.pendingFunctors = cb :: rest := by
      rwa [FunctorQueue.todo, hnil] at htodo
    have hswap : machine.CanFault { q with queue := q.queue.swap } := by
      apply hrun
      · rw [FunctorQueue.todo_swap hnil, htodo]
      · show q.queue.pendingFunctors ≠ []
        rw [hpending]
        exact List.cons_ne_nil _ _
    exact hswap.cons (e := .swap) hnil rfl
  · exact hrun q.queue htodo hnil

/-- Resets and cancellations do not make a connector less busy. -/
theorem canFault_of_startInLoop (hstate : q.state ≠ .kDisconnected)
    (hmem : .startInLoop ∈ q.queue.todo) : machine.CanFault q := by
  induction htodo : q.queue.todo generalizing q with
  | nil => exact absurd (htodo ▸ hmem) List.not_mem_nil
  | cons cb rest ih =>
    apply canFault_of_todo htodo
    rintro queue rfl
    rw [htodo, List.mem_cons] at hmem
    cases cb with
    | startInLoop => exact .inl ⟨.startInLoop, if_neg hstate⟩
    | resetChannel => exact .inr ⟨_, rfl, ih hstate (hmem.resolve_left (by simp)) rfl⟩
    | cancelInLoop timerId => exact .inr ⟨_, rfl, ih hstate (hmem.resolve_left (by simp)) rfl⟩

/-- A start that is outstanding may abort a connector that is busy. -/
theorem canFault_of_outstanding (hstate : q.state ≠ .kDisconnected) (hout : 0 < q.outstanding) :
    machine.CanFault q := by
  have hexpired : ∀ q : Connector, q.state ≠ .kDisconnected → ∀ timer ∈ q.expired,
      machine.CanFault q := by
    intro q hstate timer htimer
    exact Machine.canFault_of_error (e := .fire timer .success) htimer (if_neg hstate)
  rcases hcases : q.expired with _ | ⟨timer, expired⟩
  · rcases hcases' : q.timers with _ | ⟨timer, timers⟩
    · by_cases hstarting : 0 < q.starting
      · have hqueue : machine.CanFault
            ({ q with starting := q.starting - 1 }.queueInLoop .startInLoop) := by
          apply canFault_of_startInLoop
          · exact hstate
          · simp [queueInLoop]
        exact hqueue.cons (e := .queueStart) hstarting rfl
      · apply canFault_of_startInLoop hstate
        apply List.count_pos_iff.mp
        rw [outstanding, hcases, hcases', List.length_nil] at hout
        omega
    · have htimer : timer ∈ q.timers := hcases' ▸ List.mem_cons_self
      have hexpire : machine.CanFault
          { q with timers := q.timers.erase timer, expired := q.expired ++ [timer] } :=
        hexpired _ hstate timer (List.mem_append_right _ (List.mem_singleton_self timer))
      exact hexpire.cons (e := .expire timer) htimer rfl
  · exact hexpired q hstate timer (hcases ▸ List.mem_cons_self)

/-! ## A start in a connector that is disconnected -/

/-- An attempt that succeeds makes the connector busy. -/
theorem canAbort_startInLoop (hstate : q.state = .kDisconnected) (hconnect : q.connect_ = true)
    (h : q.channel ≠ none ∨ 0 < q.outstanding) : CanAbort (q.startInLoop .success) := by
  unfold startInLoop
  rw [if_pos hstate, if_pos hconnect]
  rcases hchannel : q.channel with _ | channel
  · have hout : 0 < q.outstanding := h.resolve_left (absurd hchannel)
    have hok : q.connect .success = .ok { q with
        created := q.created + 1
        state := .kConnecting
        channel := some { fd := q.created, live := true } } := by
      simp [connect, connecting, setState, hchannel]
    exact .inr ⟨_, hok, canFault_of_outstanding (by simp) hout⟩
  · exact .inl ⟨.connecting, by simp [connect, connecting, setState, hchannel]⟩

/-- All retry timers may expire. -/
theorem canFault_of_expired
    (h : machine.CanFault { q with timers := [], expired := q.expired ++ q.timers }) :
    machine.CanFault q := by
  induction htimers : q.timers generalizing q with
  | nil =>
    rw [htimers, List.append_nil] at h
    rw [← htimers] at h
    exact h
  | cons timer timers ih =>
    have hmem : timer ∈ q.timers := htimers ▸ List.mem_cons_self
    have herase : q.timers.erase timer = timers := by rw [htimers, List.erase_cons_head]
    have hexpire : machine.CanFault
        { q with timers := q.timers.erase timer, expired := q.expired ++ [timer] } := by
      apply ih
      · simpa [herase, htimers] using h
      · exact herase
    exact hexpire.cons (e := .expire timer) hmem rfl

/-- When two starts are outstanding, one of them queued, both may attempt to connect. -/
theorem canFault_of_two (hstate : q.state = .kDisconnected) (hconnect : q.connect_ = true)
    (htimers : q.timers = []) (hmem : .startInLoop ∈ q.queue.todo) (hout : 2 ≤ q.outstanding) :
    machine.CanFault q := by
  induction htodo : q.queue.todo generalizing q with
  | nil => exact absurd (htodo ▸ hmem) List.not_mem_nil
  | cons cb rest ih =>
    apply canFault_of_todo htodo
    rintro queue rfl
    rw [htodo, List.mem_cons] at hmem
    have hcount : q.queue.todo.count .startInLoop =
        queue.todo.count .startInLoop + if cb = .startInLoop then 1 else 0 := by
      simp only [htodo, List.count_cons, beq_iff_eq]
    unfold outstanding at hout
    rw [hcount] at hout
    cases cb with
    | startInLoop =>
      show CanAbort ({ q with queue := queue }.startInLoop .success)
      apply canAbort_startInLoop
      case hstate => exact hstate
      case hconnect => exact hconnect
      case h =>
        right
        simp only [if_true] at hout
        simp only [outstanding]
        omega
    | resetChannel =>
      exact .inr ⟨_, rfl, ih hstate hconnect htimers (hmem.resolve_left (by simp)) hout rfl⟩
    | cancelInLoop timerId =>
      have hcancel : ({ q with queue := queue }.cancelInLoop timerId).timers = [] := by
        simp [cancelInLoop, htimers]
      refine .inr ⟨_, rfl, ih hstate hconnect hcancel (hmem.resolve_left (by simp)) ?_ rfl⟩
      simp only [outstanding, hcancel]
      rw [htimers] at hout
      exact hout

/-! ## Events that do not meet the condition -/

/-- The event, with a socket that is connected at once. -/
def Event.succeeding : Event → Event
  | .start _ => .start .success
  | .restart _ => .restart .success
  | .fire timer _ => .fire timer .success
  | e => e

/-- The start of another thread may find the connector busy, or another start outstanding. -/
theorem canAbort_startFrom (hrest : ¬q.AtRest .startFrom) : CanAbort (q.step .startFrom) := by
  refine .inr ⟨_, rfl, ?_⟩
  by_cases hstate : q.state = .kDisconnected
  · have hout : 0 < q.outstanding := by
      by_contra hnot
      exact hrest ⟨hstate, Nat.eq_zero_of_not_pos hnot⟩
    -- the start is queued, and the timers of the other one have expired
    have hqueue : machine.CanFault
        ({ q with connect_ := true, starting := q.starting }.queueInLoop .startInLoop) := by
      apply canFault_of_expired
      apply canFault_of_two
      case hstate => exact hstate
      case hconnect => rfl
      case htimers => rfl
      case hmem => simp [queueInLoop]
      case hout =>
        simp only [outstanding] at hout
        simp only [outstanding, queueInLoop, FunctorQueue.todo_queueInLoop, List.count_append,
          List.count_singleton_self, List.length_append, List.length_nil]
        omega
    exact hqueue.cons (e := .queueStart) (Nat.succ_pos _) rfl
  · apply canFault_of_outstanding
    case hstate => exact hstate
    case hout =>
      simp only [outstanding]
      omega

/-- A retry timer may find the channel of the last attempt. -/
theorem Orderly.canAbort_fire (h : Orderly q) {timer : ℕ} {savedErrno : Errno}
    (he : timer ∈ q.expired) (hrest : ¬q.AtRest (.fire timer savedErrno)) :
    CanAbort (q.step (.fire timer .success)) := by
  have hpos : 0 < q.outstanding := by
    have := List.length_pos_of_mem he
    simp only [outstanding]
    omega
  have hstate : q.state = .kDisconnected := by
    by_contra hne
    have := h.busy hne
    omega
  obtain ⟨hconnect, hreset⟩ : q.connect_ = true ∧ .resetChannel ∈ q.queue.todo := by
    by_contra hnot
    exact hrest fun hconnect hreset => hnot ⟨hconnect, hreset⟩
  show CanAbort ({ q with expired := q.expired.erase timer }.startInLoop .success)
  apply canAbort_startInLoop
  case hstate => exact hstate
  case hconnect => exact hconnect
  case h =>
    left
    show q.channel ≠ none
    intro hnone
    have hdue := h.accounted.resets
    have hcount : 0 < q.resets := List.count_pos_iff.mpr hreset
    rw [hnone] at hdue
    exact absurd hdue (Nat.ne_of_gt hcount)

/-- In a run that has met the condition so far, an event that does not meet it may abort the
process. -/
theorem canAbort_of_not_atRest (hr : (machine.guard AtRest).Reachable q) (he : q.Enabled e)
    (hrest : ¬q.AtRest e) : CanAbort (q.step e.succeeding) := by
  cases e with
  | start savedErrno =>
    show CanAbort ({ q with connect_ := true }.startInLoop .success)
    by_cases hstate : q.state = .kDisconnected
    · apply canAbort_startInLoop
      case hstate => exact hstate
      case hconnect => rfl
      case h =>
        by_contra hnot
        rw [not_or, not_not, Nat.not_lt, Nat.le_zero] at hnot
        exact hrest ⟨hstate, hnot⟩
    · exact .inl ⟨.startInLoop, if_neg hstate⟩
  | restart savedErrno =>
    show CanAbort ({ q.setState .kDisconnected with
      retryDelayMs := kInitRetryDelayMs, connect_ := true }.startInLoop .success)
    apply canAbort_startInLoop
    case hstate => rfl
    case hconnect => rfl
    case h =>
      by_contra hnot
      rw [not_or, not_not, Nat.not_lt, Nat.le_zero] at hnot
      exact hrest hnot
  | startFrom => exact canAbort_startFrom hrest
  | fire timer savedErrno => exact (orderly_of_reachable hr).canAbort_fire he hrest
  | stop | queueStart | stopFrom | queueCancel | expire | createTimer | swap | runFunctor
  | handleEvent => exact absurd trivial hrest

end CodingDemo.Libcpp.Connector
