import CodingDemo.Io.Eventfd
import CodingDemo.Machine.Run
import CodingDemo.Reactor.FunctorQueue

/-!
# The event loop

The loop of one thread polls, runs the handlers of the channels that are ready, and then runs the
functors that have been queued. `queueInLoop` may be called by any thread. It queues the functor
under the mutex and then, if the loop may not look at the functors before it polls again, writes
the eventfd `wakeupFd_`, which ends the poll; `runInLoop` in another thread is `queueInLoop`.

A call of `queueInLoop` in the thread of the loop is one step, as the loop does nothing else
meanwhile. In another thread the functor is queued in one step and the eventfd is written in a
later one.

## Main definitions

* `LoopPhase`: where the thread of the loop is
* `EventLoop`: the members of the loop with the calls of other threads that are not finished
* `EventLoop.machine`: the runs of a loop
-/

namespace CodingDemo.Libcpp

universe u

/-- How the process ends in a call. -/
inductive Abort
  | assertion
  /-- `abortNotInLoopThread` -/
  | notInLoopThread
  deriving DecidableEq

/-- Where the thread of the loop is. -/
inductive LoopPhase
  /-- Not in `loop()`. -/
  | outside
  /-- Before the test of `quit_`. -/
  | testing
  /-- In the call of `poll`, or about to call it. -/
  | polling
  /-- The handlers of the active channels run. -/
  | handling
  /-- At the start of `doPendingFunctors`, before the swap. -/
  | swapping
  /-- `doPendingFunctors` is between two functors. -/
  | running
  /-- A functor runs. -/
  | calling
  deriving DecidableEq

/-- The thread of the loop runs code that may call the member functions. -/
def LoopPhase.inUserCode : LoopPhase → Bool
  | .outside | .handling | .calling => true
  | _ => false

/-- The functions that call `wakeup()`. -/
inductive Waker
  | queueInLoop
  | quit
  deriving DecidableEq

structure EventLoop (α : Type u) where
  looping : Bool
  quit : Bool
  doingPendingFunctors : Bool
  queue : FunctorQueue α
  wakeupFd : Eventfd
  /-- `wakeupChannel_` is one of the active channels, and its handler has still to run. -/
  wakeupActive : Bool
  phase : LoopPhase
  /-- The other threads that have still to call `wakeup()`, each with the function it is in. -/
  owing : List (ℕ × Waker)
  /-- The functors in the order in which they were queued. -/
  queued : List α
  /-- The functors that have been run, in this order. -/
  executed : List α

namespace EventLoop

variable {α : Type u}

/-- The constructor. -/
def init : EventLoop α where
  looping := false
  quit := false
  doingPendingFunctors := false
  queue := {}
  wakeupFd := {}
  wakeupActive := false
  phase := .outside
  owing := []
  queued := []
  executed := []

def wakeup (q : EventLoop α) : EventLoop α := { q with wakeupFd := q.wakeupFd.write 1 }

/-- The part of `queueInLoop` under the mutex. -/
def push (q : EventLoop α) (cb : α) : EventLoop α :=
  { q with queue := q.queue.queueInLoop cb, queued := q.queued ++ [cb] }

/-- `queueInLoop` in the thread of the loop. -/
def queueInLoop (q : EventLoop α) (cb : α) : EventLoop α :=
  if q.doingPendingFunctors then (q.push cb).wakeup else q.push cb

/-- `queueInLoop` in another thread, before `wakeup()`. -/
def queueFrom (q : EventLoop α) (thread : ℕ) (cb : α) : EventLoop α :=
  { q.push cb with owing := (thread, .queueInLoop) :: q.owing }

/-- `quit` in another thread, before `wakeup()`. -/
def quitFrom (q : EventLoop α) (thread : ℕ) : EventLoop α :=
  { q with quit := true, owing := (thread, .quit) :: q.owing }

/-- Another thread calls `wakeup()`, and is done. -/
def wakeupFrom (q : EventLoop α) (thread : ℕ) (waker : Waker) : EventLoop α :=
  { q.wakeup with owing := q.owing.erase (thread, waker) }

/-- The start of `loop()`. -/
def loop (q : EventLoop α) : Except Abort (EventLoop α) :=
  if q.looping then .error .assertion
  else .ok { q with looping := true, quit := false, phase := .testing }

/-- The test of `quit_`. -/
def test (q : EventLoop α) : EventLoop α :=
  if q.quit then { q with looping := false, phase := .outside } else { q with phase := .polling }

/-- `poll` returns; it reports the eventfd or not. -/
def poll (q : EventLoop α) (wakeupActive : Bool) : EventLoop α :=
  { q with wakeupActive := wakeupActive, phase := .handling }

def handleWakeup (q : EventLoop α) : EventLoop α :=
  { q with wakeupFd := q.wakeupFd.cleared, wakeupActive := false }

/-- `doPendingFunctors` up to the swap. -/
def doPendingFunctors (q : EventLoop α) : EventLoop α :=
  { q with doingPendingFunctors := true, phase := .swapping }

/-- The swap of `doPendingFunctors`. -/
def swap (q : EventLoop α) : EventLoop α := { q with queue := q.queue.swap, phase := .running }

/-- `doPendingFunctors` calls the next functor. -/
def call (q : EventLoop α) : EventLoop α :=
  { q with
    queue := q.queue.pop
    executed := q.executed ++ q.queue.functors.head?.toList
    phase := .calling }

/-- The functor returns. -/
def ret (q : EventLoop α) : EventLoop α := { q with phase := .running }

/-- The end of `doPendingFunctors`. -/
def finish (q : EventLoop α) : EventLoop α :=
  { q with doingPendingFunctors := false, phase := .testing }

/-! ## The machine -/

inductive Event (α : Type u)
  /-- A call in the thread of the loop. -/
  | queueInLoop (cb : α)
  /-- A call in another thread, up to `wakeup()`. -/
  | queueFrom (thread : ℕ) (cb : α)
  | quit
  /-- A call in another thread, up to `wakeup()`. -/
  | quitFrom (thread : ℕ)
  | wakeupFrom (thread : ℕ) (waker : Waker)
  | loop
  | test
  | poll (wakeupActive : Bool)
  | handleWakeup
  | doPendingFunctors
  | swap
  | call
  | ret
  | finish
  deriving DecidableEq

/-- The thread is in no call of `queueInLoop` or `quit`. -/
def IsFree (q : EventLoop α) (thread : ℕ) : Prop := thread ∉ q.owing.map Prod.fst

instance (q : EventLoop α) (thread : ℕ) : Decidable (q.IsFree thread) :=
  inferInstanceAs (Decidable (thread ∉ q.owing.map Prod.fst))

/-- The events that can happen. -/
def Enabled (q : EventLoop α) : Event α → Prop
  | .queueInLoop _ => q.phase.inUserCode
  | .queueFrom thread _ => q.IsFree thread
  | .quit => q.phase.inUserCode
  | .quitFrom thread => q.IsFree thread
  | .wakeupFrom thread waker => (thread, waker) ∈ q.owing
  | .loop => q.phase.inUserCode
  | .test => q.phase = .testing
  | .poll wakeupActive => q.phase = .polling ∧ (wakeupActive → q.wakeupFd.counter ≠ 0)
  | .handleWakeup => q.phase = .handling ∧ q.wakeupActive
  | .doPendingFunctors => q.phase = .handling ∧ q.wakeupActive = false
  | .swap => q.phase = .swapping
  | .call => q.phase = .running ∧ q.queue.functors ≠ []
  | .ret => q.phase = .calling
  | .finish => q.phase = .running ∧ q.queue.functors = []

instance [DecidableEq α] (q : EventLoop α) : (e : Event α) → Decidable (q.Enabled e)
  | .queueInLoop _ => inferInstanceAs (Decidable (q.phase.inUserCode = true))
  | .queueFrom thread _ => inferInstanceAs (Decidable (q.IsFree thread))
  | .quit => inferInstanceAs (Decidable (q.phase.inUserCode = true))
  | .quitFrom thread => inferInstanceAs (Decidable (q.IsFree thread))
  | .wakeupFrom thread waker => inferInstanceAs (Decidable ((thread, waker) ∈ q.owing))
  | .loop => inferInstanceAs (Decidable (q.phase.inUserCode = true))
  | .test => inferInstanceAs (Decidable (q.phase = .testing))
  | .poll wakeupActive =>
    inferInstanceAs (Decidable (q.phase = .polling ∧ (wakeupActive → q.wakeupFd.counter ≠ 0)))
  | .handleWakeup => inferInstanceAs (Decidable (q.phase = .handling ∧ q.wakeupActive = true))
  | .doPendingFunctors => inferInstanceAs (Decidable (q.phase = .handling ∧ q.wakeupActive = false))
  | .swap => inferInstanceAs (Decidable (q.phase = .swapping))
  | .call => inferInstanceAs (Decidable (q.phase = .running ∧ q.queue.functors ≠ []))
  | .ret => inferInstanceAs (Decidable (q.phase = .calling))
  | .finish => inferInstanceAs (Decidable (q.phase = .running ∧ q.queue.functors = []))

def step (q : EventLoop α) : Event α → Except Abort (EventLoop α)
  | .queueInLoop cb => .ok (q.queueInLoop cb)
  | .queueFrom thread cb => .ok (q.queueFrom thread cb)
  | .quit => .ok { q with quit := true }
  | .quitFrom thread => .ok (q.quitFrom thread)
  | .wakeupFrom thread waker => .ok (q.wakeupFrom thread waker)
  | .loop => q.loop
  | .test => .ok q.test
  | .poll wakeupActive => .ok (q.poll wakeupActive)
  | .handleWakeup => .ok q.handleWakeup
  | .doPendingFunctors => .ok q.doPendingFunctors
  | .swap => .ok q.swap
  | .call => .ok q.call
  | .ret => .ok q.ret
  | .finish => .ok q.finish

/-- The runs of a loop that has just been constructed. -/
def machine : Machine (EventLoop α) (Event α) Abort where
  init q := q = init
  enabled := Enabled
  step := step

instance [DecidableEq α] (q : EventLoop α) (e : Event α) : Decidable (machine.enabled q e) :=
  inferInstanceAs (Decidable (q.Enabled e))

end EventLoop

end CodingDemo.Libcpp
