import CodingDemo.Machine.Run
import CodingDemo.Container.OrderedSet
import CodingDemo.Container.Heap
import CodingDemo.Datetime.Timer
import Mathlib.Data.Prod.Lex

/-!
# The timer queue

A `TimerQueue` keeps its timers in two sets: `timers_`, ordered by expiration and address, and
`activeTimers_`, ordered by address and sequence number. The event loop calls `handleRead` when
the timer descriptor is readable: it takes the expired timers out of both sets, runs their
callbacks, and then re-inserts the repeating ones and deletes the others. A callback may itself
add and cancel timers, so the queue is a machine whose events interleave with the callbacks of
one `handleRead`: between two `run` events any number of `addTimerInLoop` and `cancelInLoop`
events can happen, which are the body of the callback that `run` started.

`addTimer` can be called from any thread. It creates the timer, binds the functor that will call
`addTimerInLoop`, and returns a `TimerId`; creation and insertion are therefore two events.

## Main definitions

* `TimerQueue`: the sets, the timer objects, the timer descriptor and the frame of a running
  `handleRead`
* `insert`, `addTimerInLoop`, `cancelInLoop`, `getExpired`, `reset`: the member functions
* `TimerQueue.machine`: the runs of a timer queue
-/

namespace CodingDemo.Libcpp

/-- An element of `timers_`: an expiration and the address of a timer. -/
abbrev TimerEntry := ℤ ×ₗ ℕ

/-- An element of `activeTimers_`: the address of a timer and a sequence number. -/
abbrev ActiveTimer := ℕ ×ₗ ℤ

/-- The entry of a timer in `timers_`. -/
def TimerEntry.mk (expiration : ℤ) (timer : ℕ) : TimerEntry := toLex (expiration, timer)

def TimerEntry.expiration (e : TimerEntry) : ℤ := (ofLex e).1

def TimerEntry.timer (e : TimerEntry) : ℕ := (ofLex e).2

/-- The entry of a timer in `activeTimers_` and `cancelingTimers_`. -/
def ActiveTimer.mk (timer : ℕ) (sequence : ℤ) : ActiveTimer := toLex (timer, sequence)

def ActiveTimer.timer (a : ActiveTimer) : ℕ := (ofLex a).1

def ActiveTimer.sequence (a : ActiveTimer) : ℤ := (ofLex a).2

namespace TimerEntry

@[simp] theorem expiration_mk (x : ℤ) (p : ℕ) : (mk x p).expiration = x := rfl

@[simp] theorem timer_mk (x : ℤ) (p : ℕ) : (mk x p).timer = p := rfl

@[simp] theorem mk_eta (e : TimerEntry) : mk e.expiration e.timer = e := rfl

@[simp] theorem mk_inj {x y : ℤ} {p r : ℕ} : mk x p = mk y r ↔ x = y ∧ p = r := by
  simp [mk]

theorem lt_iff {a b : TimerEntry} :
    a < b ↔ a.expiration < b.expiration ∨ a.expiration = b.expiration ∧ a.timer < b.timer :=
  Prod.Lex.lt_iff

theorem le_iff {a b : TimerEntry} :
    a ≤ b ↔ a.expiration < b.expiration ∨ a.expiration = b.expiration ∧ a.timer ≤ b.timer :=
  Prod.Lex.le_iff

theorem expiration_mono {a b : TimerEntry} (h : a ≤ b) : a.expiration ≤ b.expiration := by
  rcases le_iff.mp h with h | h
  · exact h.le
  · exact h.1.le

end TimerEntry

namespace ActiveTimer

@[simp] theorem timer_mk (p : ℕ) (n : ℤ) : (mk p n).timer = p := rfl

@[simp] theorem sequence_mk (p : ℕ) (n : ℤ) : (mk p n).sequence = n := rfl

@[simp] theorem mk_eta (a : ActiveTimer) : mk a.timer a.sequence = a := rfl

@[simp] theorem mk_inj {p r : ℕ} {m n : ℤ} : mk p m = mk r n ↔ p = r ∧ m = n := by
  simp [mk]

end ActiveTimer

/-- The locals of a running `handleRead`: the clock it read, the expired timers, and those whose
callbacks are still to run. -/
structure HandleRead where
  now : ℤ
  expired : List TimerEntry
  todo : List TimerEntry

/-- A timer queue with the objects it owns and the clock it reads. -/
structure TimerQueue where
  timers : OrderedSet TimerEntry
  callingExpiredTimers : Bool
  activeTimers : OrderedSet ActiveTimer
  cancelingTimers : OrderedSet ActiveTimer
  timerfd : Option Timerfd
  /-- The timer objects. -/
  heap : Heap Timer
  /-- `Timer::s_numCreated_`, which all timers of the process share. -/
  numCreated : BitVec 64
  /-- The last clock reading. -/
  clock : ℤ
  /-- The timers bound in functors that will call `addTimerInLoop`. -/
  functors : List ℕ
  /-- The running `handleRead`, if any. -/
  frame : Option HandleRead
  /-- The address of every timer created, by serial number. -/
  created : List ℕ
  /-- The number of calls of `handleRead`. -/
  calls : ℕ
  /-- The callbacks run: the call of `handleRead`, and the serial number of the timer. -/
  ran : List (ℕ × ℕ)

namespace TimerQueue

/-- A queue without timers, at a clock reading and a value of the process-wide counter. -/
def init (clock : ℤ) (numCreated : BitVec 64) : TimerQueue where
  timers := OrderedSet.empty
  callingExpiredTimers := false
  activeTimers := OrderedSet.empty
  cancelingTimers := OrderedSet.empty
  timerfd := none
  heap := Heap.empty
  numCreated := numCreated
  clock := clock
  functors := []
  frame := none
  created := []
  calls := 0
  ran := []

/-- The object a pointer to a timer points at. -/
def deref (q : TimerQueue) (timer : ℕ) : Except Fault Timer :=
  match q.heap.get? timer with
  | some t => .ok t
  | none => .error .useAfterFree

/-- `delete timer`. -/
def deleteTimer (q : TimerQueue) (timer : ℕ) : Except Fault TimerQueue :=
  match q.heap.delete timer with
  | some heap => .ok { q with heap := heap }
  | none => .error .doubleFree

/-! ## The member functions -/

/-- Whether the earliest expiration is a later one than `when_`, or there is none. -/
def earliestChanged (q : TimerQueue) (when_ : ℤ) : Bool :=
  match q.timers.first? with
  | none => true
  | some e => when_ < e.expiration

def insert (q : TimerQueue) (timer : ℕ) : Except Fault (Bool × TimerQueue) := do
  let t ← q.deref timer
  let entry := TimerEntry.mk t.expiration timer
  let active := ActiveTimer.mk timer t.sequence
  if entry ∈ q.timers then throw .assertion
  if active ∈ q.activeTimers then throw .assertion
  return (q.earliestChanged t.expiration,
    { q with timers := q.timers.insert entry, activeTimers := q.activeTimers.insert active })

/-- `addTimer` up to the call of `runInLoop`: create the timer and bind it in a functor. -/
def addTimer (q : TimerQueue) (timer : ℕ) (when_ : ℤ) (interval : Double) : TimerQueue :=
  if hp : q.heap.cell timer = none then
    { q with
      heap := q.heap.alloc timer (Timer.create when_ interval q.numCreated) hp
      numCreated := q.numCreated + 1
      functors := timer :: q.functors
      created := q.created ++ [timer] }
  else q

/-- What `addTimer` returns: the constructor of `TimerId` is called without a sequence number. -/
def addTimerId (timer : ℕ) : TimerId := { timer := timer }

def addTimerInLoop (q : TimerQueue) (timer : ℕ) : Except Fault TimerQueue := do
  let (earliestChanged, q) ← q.insert timer
  let q := { q with functors := q.functors.erase timer }
  if earliestChanged then
    let t ← q.deref timer
    return { q with timerfd := resetTimerfd t.expiration q.clock }
  else return q

def cancelInLoop (q : TimerQueue) (timerId : TimerId) : Except Fault TimerQueue := do
  if q.activeTimers.size ≠ q.timers.size then throw .assertion
  let timer := ActiveTimer.mk timerId.timer timerId.sequence
  if timer ∈ q.activeTimers then
    let t ← q.deref timerId.timer
    let entry := TimerEntry.mk t.expiration timerId.timer
    -- `erase` returns the number of elements it removed, which is asserted to be one
    if entry ∉ q.timers then throw .assertion
    let q := { q with timers := q.timers.erase entry }
    let q ← q.deleteTimer timerId.timer
    return { q with activeTimers := q.activeTimers.erase timer }
  else if q.callingExpiredTimers then
    return { q with cancelingTimers := q.cancelingTimers.insert timer }
  else return q

/-- The body of the loop of `getExpired` that empties `activeTimers_`. -/
def eraseActive (q : TimerQueue) (entry : TimerEntry) : Except Fault TimerQueue := do
  let t ← q.deref entry.timer
  return { q with activeTimers := q.activeTimers.erase (ActiveTimer.mk entry.timer t.sequence) }

def getExpired (q : TimerQueue) (now : ℤ) : Except Fault (List TimerEntry × TimerQueue) := do
  let sentry := TimerEntry.mk now UINTPTR_MAX
  let expired := q.timers.before sentry
  let rest := q.timers.since sentry
  if rest.first?.any fun e => e.expiration ≤ now then throw .assertion
  let q ← expired.foldlM eraseActive { q with timers := rest }
  return (expired, q)

/-- The body of the loop of `reset`: re-insert a repeating timer that was not cancelled in the
meantime, delete the others. -/
def resetEntry (now : ℤ) (q : TimerQueue) (entry : TimerEntry) : Except Fault TimerQueue := do
  let t ← q.deref entry.timer
  if t.repeat_ ∧ ActiveTimer.mk entry.timer t.sequence ∉ q.cancelingTimers then
    let q := { q with heap := q.heap.modify entry.timer (Timer.restart now) }
    let (_, q) ← q.insert entry.timer
    return q
  else q.deleteTimer entry.timer

/-- The end of `reset`: arm the descriptor for the first timer, if its expiration is valid. -/
def rearm (q : TimerQueue) : Except Fault TimerQueue := do
  match q.timers.first? with
  | none => return q
  | some e =>
    let t ← q.deref e.timer
    let nextExpired := t.expiration
    if TimeStamp.valid nextExpired then
      return { q with timerfd := resetTimerfd nextExpired q.clock }
    else return q

def reset (q : TimerQueue) (expired : List TimerEntry) (now : ℤ) : Except Fault TimerQueue := do
  let q ← expired.foldlM (resetEntry now) q
  q.rearm

/-- `handleRead` up to its loop over the expired timers. -/
def handleRead (q : TimerQueue) : Except Fault TimerQueue := do
  let now := q.clock
  let q := { q with timerfd := readTimerfd q.timerfd now }
  let (expired, q) ← q.getExpired now
  return { q with
    callingExpiredTimers := true
    cancelingTimers := OrderedSet.empty
    frame := some { now := now, expired := expired, todo := expired }
    calls := q.calls + 1 }

/-- One round of the loop of `handleRead`: run the callback of the next expired timer. -/
def runNext (q : TimerQueue) : Except Fault TimerQueue :=
  match q.frame with
  | some { now, expired, todo := e :: rest } =>
    match q.heap.cell e.timer with
    | some c => .ok { q with
        frame := some { now, expired, todo := rest }
        ran := q.ran ++ [(q.calls, c.1)] }
    | none => .error .useAfterFree
  | _ => .ok q

/-- `handleRead` from the end of its loop on. -/
def finish (q : TimerQueue) : Except Fault TimerQueue :=
  match q.frame with
  | some { now, expired, .. } => do
    let q ← { q with callingExpiredTimers := false }.reset expired now
    return { q with frame := none }
  | none => .ok q

/-! ## The machine -/

/-- The events of a timer queue. -/
inductive Event
  /-- The clock is set to a new reading. -/
  | tick (now : ℤ)
  /-- Another timer queue or timer wheel of the process creates a timer. -/
  | otherTimer
  | addTimer (timer : ℕ) (when_ : ℤ) (interval : Double)
  | addTimerInLoop (timer : ℕ)
  | cancelInLoop (timerId : TimerId)
  | handleRead
  | run
  | finish

/-- The events that can happen: a timer is created at a free address, a bound functor runs once,
and the event loop calls `handleRead` when no call of it is running. -/
def Enabled (q : TimerQueue) : Event → Prop
  | .tick _ => True
  | .otherTimer => True
  | .addTimer timer _ _ => q.heap.cell timer = none ∧ IsObjectAddress timer
  | .addTimerInLoop timer => timer ∈ q.functors
  | .cancelInLoop _ => True
  | .handleRead => q.frame.isNone
  | .run => q.frame.any fun f => !f.todo.isEmpty
  | .finish => q.frame.any fun f => f.todo.isEmpty

instance (q : TimerQueue) : (e : Event) → Decidable (q.Enabled e)
  | .tick _ => inferInstanceAs (Decidable True)
  | .otherTimer => inferInstanceAs (Decidable True)
  | .addTimer timer _ _ =>
    inferInstanceAs (Decidable (q.heap.cell timer = none ∧ IsObjectAddress timer))
  | .addTimerInLoop timer => inferInstanceAs (Decidable (timer ∈ q.functors))
  | .cancelInLoop _ => inferInstanceAs (Decidable True)
  | .handleRead => inferInstanceAs (Decidable (q.frame.isNone = true))
  | .run => inferInstanceAs (Decidable ((q.frame.any fun f => !f.todo.isEmpty) = true))
  | .finish => inferInstanceAs (Decidable ((q.frame.any fun f => f.todo.isEmpty) = true))

def step (q : TimerQueue) : Event → Except Fault TimerQueue
  | .tick now => .ok { q with clock := now }
  | .otherTimer => .ok { q with numCreated := q.numCreated + 1 }
  | .addTimer timer when_ interval => .ok (q.addTimer timer when_ interval)
  | .addTimerInLoop timer => q.addTimerInLoop timer
  | .cancelInLoop timerId => q.cancelInLoop timerId
  | .handleRead => q.handleRead
  | .run => q.runNext
  | .finish => q.finish

/-- The runs of a timer queue that starts without timers. -/
def machine : Machine TimerQueue Event Fault where
  init q := ∃ clock numCreated, q = init clock numCreated
  enabled := Enabled
  step := step

instance (q : TimerQueue) (e : Event) : Decidable (machine.enabled q e) :=
  inferInstanceAs (Decidable (q.Enabled e))

end TimerQueue

end CodingDemo.Libcpp
