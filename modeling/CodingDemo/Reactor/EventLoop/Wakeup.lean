import CodingDemo.Reactor.EventLoop.Order

/-!
# The loop wakes up for its functors

`queueInLoop` writes the eventfd when the functor is queued by another thread, or by a functor that
runs. In a handler this is not needed, as the functors are run after the handlers. Before `loop()`
it is needed as well, and there the thread of the loop does not write: the loop then sleeps on the
functor unless something else has been written to the eventfd.

## Main definitions

* `Awake`: the loop does not sleep on functors
* `QueuesAwake`: the condition on the calls of `queueInLoop`
* `Watchful`: the invariant

## Main results

* `watchful_step`: the steps that meet the condition keep the invariant
* `awake_of_queuesAwake`: as long as the condition is met, the loop is awake; and after a call that
  does not meet it, the loop sleeps if it is started
-/

namespace CodingDemo.Libcpp

/-- The poll is over, and the functors that are pending are in the next swap. -/
def LoopPhase.beforeSwap : LoopPhase → Bool
  | .handling | .swapping => true
  | _ => false

/-- User code that runs neither in a functor nor in a handler runs outside `loop()`. -/
theorem LoopPhase.eq_outside (p : LoopPhase) (huser : p.inUserCode = true)
    (hdoing : p.doingFunctors = false) (hbefore : p.beforeSwap = false) : p = .outside := by
  revert huser hdoing hbefore
  cases p <;> decide

namespace EventLoop

universe u

variable {α : Type u} {q q' : EventLoop α} {e : Event α}

/-- A poll will end: the eventfd is ready, or another thread that has queued a functor has still to
write it. -/
def WillWake (q : EventLoop α) : Prop :=
  0 < q.wakeupFd.counter ∨ ∃ x ∈ q.owing, x.2 = Waker.queueInLoop

instance (q : EventLoop α) : Decidable q.WillWake :=
  inferInstanceAs (Decidable (0 < q.wakeupFd.counter ∨ ∃ x ∈ q.owing, x.2 = Waker.queueInLoop))

/-- When the loop is about to call `poll` with functors pending, the poll will end. -/
def Awake (q : EventLoop α) : Prop :=
  q.phase = .polling → q.queue.pendingFunctors ≠ [] → q.WillWake

/-- A functor that the thread of the loop queues outside `loop()` finds the eventfd ready, or about
to be. -/
def QueuesAwake (q : EventLoop α) : Event α → Prop
  | .queueInLoop _ => q.phase = .outside → q.WillWake
  | _ => True

instance (q : EventLoop α) : (e : Event α) → Decidable (q.QueuesAwake e)
  | .queueInLoop _ => inferInstanceAs (Decidable (q.phase = .outside → q.WillWake))
  | .queueFrom _ _ | .quit | .quitFrom _ | .wakeupFrom _ _ | .loop | .test | .poll _
  | .handleWakeup | .doPendingFunctors | .swap | .call | .ret | .finish =>
    inferInstanceAs (Decidable True)

instance [DecidableEq α] (q : EventLoop α) (e : Event α) :
    Decidable ((machine.guard QueuesAwake).enabled q e) :=
  inferInstanceAs (Decidable (q.Enabled e ∧ q.QueuesAwake e))

/-! ## The invariant -/

/-- When functors are pending that have missed the last swap, the next poll will end. -/
def Watchful (q : EventLoop α) : Prop :=
  q.phase.beforeSwap = false → q.queue.pendingFunctors ≠ [] → q.WillWake

theorem willWake_wakeup (q : EventLoop α) : q.wakeup.WillWake :=
  .inl (Eventfd.counter_write_pos Nat.one_pos (by decide))

theorem WillWake.congr (h : q.WillWake) (hfd : q'.wakeupFd = q.wakeupFd)
    (howing : q.owing ⊆ q'.owing) : q'.WillWake := by
  rcases h with hpos | ⟨x, hx, hwaker⟩
  · exact .inl (hfd ▸ hpos)
  · exact .inr ⟨x, howing hx, hwaker⟩

/-- A step that writes no functor and clears no counter, after the swap or before the poll. -/
theorem Watchful.congr (h : Watchful q) (hphase : q.phase.beforeSwap = false)
    (hpending : q'.queue.pendingFunctors = q.queue.pendingFunctors)
    (hfd : q'.wakeupFd = q.wakeupFd) (howing : q.owing ⊆ q'.owing) : Watchful q' := by
  intro _ hne
  rw [hpending] at hne
  exact (h hphase hne).congr hfd howing

theorem watchful_queueInLoop (hp : Phased q) {cb : α} (he : q.phase.inUserCode)
    (hc : q.QueuesAwake (.queueInLoop cb)) : Watchful (q.queueInLoop cb) := by
  intro hphase _
  unfold EventLoop.queueInLoop at hphase ⊢
  split_ifs at hphase ⊢ with hdoing
  · exact willWake_wakeup _
  · -- no functor runs and no handler does, so this is outside `loop()`
    have hquiet : q.phase.doingFunctors = false := by
      rw [← hp.doing]
      simpa using hdoing
    exact (hc (q.phase.eq_outside he hquiet hphase)).congr rfl (List.Subset.refl _)

theorem watchful_step (hp : Phased q) (h : Watchful q) (he : q.Enabled e) (hc : q.QueuesAwake e)
    (hs : q.step e = .ok q') : Watchful q' := by
  cases e with
  | queueInLoop cb =>
    obtain rfl := Except.ok.inj hs
    exact watchful_queueInLoop hp he hc
  | queueFrom thread cb =>
    obtain rfl := Except.ok.inj hs
    exact fun _ _ => .inr ⟨_, List.mem_cons_self, rfl⟩
  | quit =>
    obtain rfl := Except.ok.inj hs
    exact h
  | quitFrom thread =>
    obtain rfl := Except.ok.inj hs
    exact fun hphase hne => (h hphase hne).congr rfl (List.subset_cons_self _ _)
  | wakeupFrom thread waker =>
    obtain rfl := Except.ok.inj hs
    exact fun _ _ => .inl (Eventfd.counter_write_pos Nat.one_pos (by decide))
  | loop =>
    obtain ⟨hphase, rfl⟩ := loop_ok hp hs
    exact h.congr (by rw [hphase]; rfl) rfl rfl (List.Subset.refl _)
  | test =>
    have hphase : q.phase = .testing := he
    obtain rfl := Except.ok.inj hs
    unfold EventLoop.test
    split_ifs
    · exact h.congr (by rw [hphase]; rfl) rfl rfl (List.Subset.refl _)
    · exact h.congr (by rw [hphase]; rfl) rfl rfl (List.Subset.refl _)
  -- until the swap nothing is claimed
  | poll wakeupActive =>
    obtain rfl := Except.ok.inj hs
    exact nofun
  | handleWakeup =>
    obtain rfl := Except.ok.inj hs
    intro hphase
    rw [show q.handleWakeup.phase = .handling from he.1] at hphase
    cases hphase
  | doPendingFunctors =>
    obtain rfl := Except.ok.inj hs
    exact nofun
  | swap =>
    obtain rfl := Except.ok.inj hs
    exact fun _ hne => absurd rfl hne
  | call =>
    obtain rfl := Except.ok.inj hs
    exact h.congr (by rw [he.1]; rfl) rfl rfl (List.Subset.refl _)
  | ret =>
    obtain rfl := Except.ok.inj hs
    exact h.congr (by rw [show q.phase = .calling from he]; rfl) rfl rfl (List.Subset.refl _)
  | finish =>
    obtain rfl := Except.ok.inj hs
    exact h.congr (by rw [he.1]; rfl) rfl rfl (List.Subset.refl _)

theorem preserves_watchful :
    ((machine (α := α)).guard QueuesAwake).Preserves fun q => Phased q ∧ Watchful q :=
  (preserves_phased.guard _).and fun _ _ _ hp h he hs => watchful_step hp h he.1 he.2 hs

/-- A call outside `loop()` with nothing written to the eventfd, and then `loop()`: the loop calls
`poll` and sleeps. -/
theorem exists_asleep (hphase : q.phase = .outside) (hlooping : q.looping = false)
    (hdoing : q.doingPendingFunctors = false) (hsleep : ¬q.WillWake) (cb : α) :
    ∃ q', machine.Run q [.queueInLoop cb, .loop, .test] q' ∧ ¬Awake q' := by
  have hqueue : q.queueInLoop cb = q.push cb := by simp [EventLoop.queueInLoop, hdoing]
  refine ⟨{ q.push cb with looping := true, quit := false, phase := .polling }, ?_, ?_⟩
  · refine .cons (show q.phase.inUserCode = true by rw [hphase]; rfl) (congrArg _ hqueue) ?_
    refine .cons (show (q.push cb).phase.inUserCode = true by
      rw [show (q.push cb).phase = .outside from hphase]; rfl) (if_neg ?_) ?_
    · exact fun htrue => Bool.false_ne_true (hlooping.symm.trans htrue)
    · exact .cons rfl rfl (.nil _)
  · intro hawake
    refine hsleep ((hawake rfl ?_).congr rfl (List.Subset.refl _))
    exact List.append_ne_nil_of_right_ne_nil _ (List.cons_ne_nil _ _)

/-- **The loop is awake.** In every run in which a functor that the thread of the loop queues
outside `loop()` finds the eventfd ready or about to be: when the loop is about to call `poll` with
functors pending, the eventfd is ready, or another thread that has queued a functor has still to
write it. A call that does not meet the condition makes the loop sleep on its functor if `loop()`
is called next. -/
theorem awake_of_queuesAwake (h : (machine.guard QueuesAwake).Reachable q) :
    Awake q ∧ ∀ cb : α, q.Enabled (.queueInLoop cb) → ¬q.QueuesAwake (.queueInLoop cb) →
      ∃ q', machine.Run q [.queueInLoop cb, .loop, .test] q' ∧ ¬Awake q' := by
  have hinv : Phased q ∧ Watchful q := by
    apply h.invariant preserves_watchful
    rintro q rfl
    exact ⟨phased_init, fun _ hne => absurd rfl hne⟩
  obtain ⟨hp, hw⟩ := hinv
  refine ⟨fun hphase => hw (by rw [hphase]; rfl), fun cb _ hc => ?_⟩
  obtain ⟨hphase, hsleep⟩ : q.phase = .outside ∧ ¬q.WillWake := Classical.not_imp.mp hc
  have hdoing : q.doingPendingFunctors = false := hp.doing.trans (by rw [hphase]; rfl)
  exact exists_asleep hphase (hp.looping.mpr hphase) hdoing hsleep cb

/-- Another thread queues a functor before the thread of the loop does. -/
def queueBeforeLoop : List (Event ℕ) :=
  [.queueFrom 7 1, .wakeupFrom 7 .queueInLoop, .queueInLoop 2, .loop, .test]

theorem awake_of_queuesAwake_queueBeforeLoop : ∃ q : EventLoop ℕ,
    (machine.guard QueuesAwake).Reachable q ∧ q.phase = .polling ∧
    q.queue.pendingFunctors = [1, 2] ∧ Awake q := by
  have hex : ((machine.guard QueuesAwake).exec init queueBeforeLoop).map
      (fun q => (q.phase, q.queue.pendingFunctors)) = some (.polling, [1, 2]) := by decide
  obtain ⟨q, hq, hstate⟩ := Option.map_eq_some_iff.mp hex
  obtain ⟨hphase, hpending⟩ := Prod.mk.inj hstate
  have hr : (machine.guard QueuesAwake).Reachable q := ⟨_, _, rfl, Machine.run_of_exec hq⟩
  exact ⟨q, hr, hphase, hpending, (awake_of_queuesAwake hr).1⟩

/-- A functor that is queued before `loop()` by the thread of the loop waits for the poll. -/
theorem exists_asleep_first : ∃ q : EventLoop ℕ, machine.Reachable q ∧ ¬Awake q := by
  have hex : (machine.exec init [.queueInLoop 1, .loop, .test]).map
      (fun q => (q.phase, q.queue.pendingFunctors, decide q.WillWake)) =
      some (.polling, [(1 : ℕ)], false) := by decide
  obtain ⟨q, hq, hstate⟩ := Option.map_eq_some_iff.mp hex
  obtain ⟨hphase, hpending, hwake⟩ : q.phase = .polling ∧ q.queue.pendingFunctors = [1] ∧
      ¬q.WillWake := by simpa using hstate
  refine ⟨q, ⟨_, _, rfl, Machine.run_of_exec hq⟩, fun hawake => hwake (hawake hphase ?_)⟩
  rw [hpending]
  exact List.cons_ne_nil _ _

end EventLoop

end CodingDemo.Libcpp
