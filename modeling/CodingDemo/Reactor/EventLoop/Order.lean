import CodingDemo.Reactor.EventLoop.Model

/-!
# The functors run in order

The functors of a loop are run exactly once each, in the order in which they were queued, whatever
threads queue them and whenever they do.

## Main definitions

* `Phased`: what the phase of a loop says about its members
* `Accounts`: the functors that have been run and those to be run are those that were queued

## Main results

* `phased_step`, `accounts_step`: the steps keep the invariants
* `executed_append_functors`: the order of the functors, in every run
-/

namespace CodingDemo.Libcpp

/-- `doPendingFunctors` has not returned. -/
def LoopPhase.doingFunctors : LoopPhase → Bool
  | .swapping | .running | .calling => true
  | _ => false

/-- `doPendingFunctors` has swapped the vectors and not returned. -/
def LoopPhase.inBatch : LoopPhase → Bool
  | .running | .calling => true
  | _ => false

namespace EventLoop

universe u

variable {α : Type u} {q q' : EventLoop α} {e : Event α}

/-! ## The phases -/

/-- What the phase says about the members. -/
structure Phased (q : EventLoop α) : Prop where
  looping : q.looping = false ↔ q.phase = .outside
  doing : q.doingPendingFunctors = q.phase.doingFunctors
  batch : q.phase.inBatch = false → q.queue.functors = []

theorem phased_init : Phased (init : EventLoop α) :=
  ⟨Iff.intro (fun _ => rfl) fun _ => rfl, rfl, fun _ => rfl⟩

theorem Phased.congr (h : Phased q) (hlooping : q'.looping = q.looping)
    (hdoing : q'.doingPendingFunctors = q.doingPendingFunctors) (hphase : q'.phase = q.phase)
    (hf : q'.queue.functors = q.queue.functors) : Phased q' := by
  refine ⟨?_, ?_, ?_⟩
  · rw [hlooping, hphase, h.looping]
  · rw [hdoing, hphase, h.doing]
  · rw [hphase, hf]
    exact h.batch

/-- `loop()` starts only outside. -/
theorem loop_ok (h : Phased q) (hs : q.loop = .ok q') :
    q.phase = .outside ∧ q' = { q with looping := true, quit := false, phase := .testing } := by
  unfold EventLoop.loop at hs
  split_ifs at hs with hlooping
  obtain rfl := Except.ok.inj hs
  exact ⟨h.looping.mp (by simpa using hlooping), rfl⟩

theorem phased_step (h : Phased q) (he : q.Enabled e) (hs : q.step e = .ok q') : Phased q' := by
  cases e with
  | queueInLoop cb =>
    obtain rfl := Except.ok.inj hs
    unfold EventLoop.queueInLoop
    split_ifs
    · exact h.congr rfl rfl rfl rfl
    · exact h.congr rfl rfl rfl rfl
  | loop =>
    obtain ⟨hphase, rfl⟩ := loop_ok h hs
    refine ⟨⟨nofun, nofun⟩, ?_, fun _ => h.batch (by rw [hphase]; rfl)⟩
    exact h.doing.trans (by rw [hphase]; rfl)
  | test =>
    have hphase : q.phase = .testing := he
    have hnil : q.queue.functors = [] := h.batch (by rw [hphase]; rfl)
    have hdoing : q.doingPendingFunctors = false := h.doing.trans (by rw [hphase]; rfl)
    have hlooping : q.looping ≠ false := fun hfalse => by
      cases hphase.symm.trans (h.looping.mp hfalse)
    obtain rfl := Except.ok.inj hs
    unfold EventLoop.test
    split_ifs
    · exact ⟨Iff.intro (fun _ => rfl) fun _ => rfl, hdoing, fun _ => hnil⟩
    · exact ⟨⟨fun hfalse => absurd hfalse hlooping, nofun⟩, hdoing, fun _ => hnil⟩
  | poll wakeupActive =>
    obtain ⟨hphase, -⟩ := he
    obtain rfl := Except.ok.inj hs
    refine ⟨?_, h.doing.trans (by rw [hphase]; rfl), fun _ => h.batch (by rw [hphase]; rfl)⟩
    exact h.looping.trans (by simp [EventLoop.poll, hphase])
  | doPendingFunctors =>
    obtain ⟨hphase, -⟩ := he
    obtain rfl := Except.ok.inj hs
    refine ⟨?_, rfl, fun _ => h.batch (by rw [hphase]; rfl)⟩
    exact h.looping.trans (by simp [EventLoop.doPendingFunctors, hphase])
  | swap =>
    have hphase : q.phase = .swapping := he
    obtain rfl := Except.ok.inj hs
    refine ⟨?_, h.doing.trans (by rw [hphase]; rfl), nofun⟩
    exact h.looping.trans (by simp [EventLoop.swap, hphase])
  | call =>
    obtain ⟨hphase, -⟩ := he
    obtain rfl := Except.ok.inj hs
    refine ⟨?_, h.doing.trans (by rw [hphase]; rfl), nofun⟩
    exact h.looping.trans (by simp [EventLoop.call, hphase])
  | ret =>
    have hphase : q.phase = .calling := he
    obtain rfl := Except.ok.inj hs
    refine ⟨?_, h.doing.trans (by rw [hphase]; rfl), nofun⟩
    exact h.looping.trans (by simp [EventLoop.ret, hphase])
  | finish =>
    obtain ⟨hphase, hnil⟩ := he
    obtain rfl := Except.ok.inj hs
    refine ⟨?_, rfl, fun _ => hnil⟩
    exact h.looping.trans (by simp [EventLoop.finish, hphase])
  | _ =>
    obtain rfl := Except.ok.inj hs
    exact h.congr rfl rfl rfl rfl

/-! ## The order of the functors -/

/-- The functors that have been run, and then those to be run, are those that were queued. -/
def Accounts (q : EventLoop α) : Prop := q.executed ++ q.queue.todo = q.queued

/-- A functor is queued. -/
theorem Accounts.push (h : Accounts q) (cb : α) : Accounts (q.push cb) := by
  have hsplit : (q.push cb).queue.todo = q.queue.todo ++ [cb] := FunctorQueue.todo_queueInLoop _ _
  rw [Accounts, hsplit, ← List.append_assoc]
  exact congrArg (· ++ [cb]) h

/-- The next functor is called. -/
theorem Accounts.call (h : Accounts q) (hne : q.queue.functors ≠ []) : Accounts q.call := by
  obtain ⟨f, rest, hf⟩ := List.exists_cons_of_ne_nil hne
  calc q.call.executed ++ q.call.queue.todo
      = (q.executed ++ [f]) ++ q.queue.pop.todo := by
        simp only [EventLoop.call, hf, List.head?_cons, Option.toList_some]
    _ = q.executed ++ q.queue.todo := by
        rw [List.append_assoc, FunctorQueue.todo_pop hf, List.singleton_append]
    _ = q.queued := h

theorem accounts_step (hp : Phased q) (h : Accounts q) (he : q.Enabled e)
    (hs : q.step e = .ok q') : Accounts q' := by
  cases e with
  | queueInLoop cb =>
    obtain rfl := Except.ok.inj hs
    unfold EventLoop.queueInLoop
    split_ifs
    · exact h.push cb
    · exact h.push cb
  | queueFrom thread cb =>
    obtain rfl := Except.ok.inj hs
    exact h.push cb
  | loop =>
    obtain ⟨-, rfl⟩ := loop_ok hp hs
    exact h
  | test =>
    obtain rfl := Except.ok.inj hs
    unfold EventLoop.test
    split_ifs
    · exact h
    · exact h
  | swap =>
    obtain rfl := Except.ok.inj hs
    -- nothing was left of the batch before
    have hnil : q.queue.functors = [] := hp.batch (by rw [show q.phase = .swapping from he]; rfl)
    exact (congrArg (q.executed ++ ·) (FunctorQueue.todo_swap hnil)).trans h
  | call =>
    obtain rfl := Except.ok.inj hs
    exact h.call he.2
  | _ =>
    obtain rfl := Except.ok.inj hs
    exact h

theorem preserves_phased : (machine (α := α)).Preserves Phased :=
  fun _ _ _ h he hs => phased_step h he hs

theorem preserves_accounts :
    (machine (α := α)).Preserves fun q => Phased q ∧ Accounts q :=
  preserves_phased.and fun _ _ _ hp h he hs => accounts_step hp h he hs

/-- **The order of the functors.** In every run, whatever threads queue functors and whenever they
do: the functors that have been run, then those that are left of the batch, then those that are
pending are the functors in the order in which they were queued. -/
theorem executed_append_functors (h : machine.Reachable q) :
    q.executed ++ q.queue.functors ++ q.queue.pendingFunctors = q.queued := by
  have hinv : Phased q ∧ Accounts q := by
    apply h.invariant preserves_accounts
    rintro q rfl
    exact ⟨phased_init, rfl⟩
  rw [List.append_assoc]
  exact hinv.2

/-- Functors are queued before `loop()`, by two other threads, and by a functor that runs. -/
def nestedQueueing : List (Event ℕ) :=
  [.queueInLoop 1, .loop, .queueFrom 7 2, .wakeupFrom 7 .queueInLoop, .test, .poll true,
    .handleWakeup, .doPendingFunctors, .queueFrom 8 3, .swap, .call, .queueInLoop 4]

theorem executed_append_functors_nestedQueueing : ∃ q : EventLoop ℕ, machine.Reachable q ∧
    (q.executed, q.queue.functors, q.queue.pendingFunctors) = ([1], [2, 3], [4]) ∧
    q.executed ++ q.queue.functors ++ q.queue.pendingFunctors = q.queued := by
  have hex : (machine.exec init nestedQueueing).map
      (fun q => (q.executed, q.queue.functors, q.queue.pendingFunctors)) =
      some ([1], [2, 3], [4]) := by decide
  obtain ⟨q, hq, hstate⟩ := Option.map_eq_some_iff.mp hex
  have hr : machine.Reachable q := ⟨_, _, rfl, Machine.run_of_exec hq⟩
  exact ⟨q, hr, hstate, executed_append_functors hr⟩

end EventLoop

end CodingDemo.Libcpp
