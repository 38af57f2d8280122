import CodingDemo.Machine.Run
import CodingDemo.Container.Heap
import CodingDemo.Container.NodeList
import CodingDemo.Container.PartialMap
import CodingDemo.Datetime.TimerWheel.Impl
import Mathlib.Data.List.Sort
import Mathlib.Logic.Function.Basic

/-!
# The timer wheel

A `TimerWheel` keeps its timers in the buckets of a hierarchy of wheels. `timerHashTable_` maps a
timer to its bucket and to its node in the list of that bucket; `delayQueue_` lists the buckets
with timers, and `delayHashTable_` maps such a bucket to its node there. The queue is sorted by
the addresses of the buckets, since it is a list of pointers.

`handleRead` takes the timers of the expired buckets out of the wheels, runs their callbacks, and
then re-inserts the repeating timers and deletes the others. `addTimerInLoop` runs the callback of
a timer that has already expired. Callbacks may add and cancel timers, so both are split into
events, and what is left to do is part of the state: `frame` for the one call of `handleRead`, and
`adding` for the calls of `addTimerInLoop`, which can be nested.

## Main definitions

* `TimerWheel`: the wheels with their buckets, the two tables, the delay queue, the timer objects
  and what the running functions have left to do
* `insert`, `updateDelayQueue`, `addTimerInLoop`, `cancelInLoop`, `getExpired`: the member
  functions
* `TimerWheel.machine`: the runs of a timer wheel
-/

namespace CodingDemo.Libcpp

/-- A bucket. -/
structure Bucket where
  expirationTime : ℤ := TimeStamp.invalid
  timers : NodeList ℕ := []

/-- What a running `handleRead` has left to do. -/
inductive WheelRead
  /-- The callbacks of `todo` are still to run, out of those of `expired`. -/
  | running (now : ℤ) (expired todo : List ℕ)
  /-- The timers of `todo` are still to be re-inserted or deleted. -/
  | reinserting (now : ℤ) (todo : List ℕ)

/-- A callback run by `handleRead`: the serial number and the expiration of the timer, and the
clock that `handleRead` read. -/
structure Firing where
  serial : ℕ
  expiration : ℤ
  now : ℤ
  deriving DecidableEq

/-- The arguments of the constructor, in microseconds, and the addresses of the buckets. -/
structure WheelConfig where
  tick : ℤ
  wheelSize : ℤ
  address : BucketRef → ℕ
  tick_pos : 0 < tick
  two_le_wheelSize : 2 ≤ wheelSize

/-- Four buckets of ten microseconds, the buckets of a wheel one after the other in memory. -/
def smallWheel : WheelConfig where
  tick := 10
  wheelSize := 4
  address b := b.level * 4 + b.id.toNat
  tick_pos := by decide
  two_le_wheelSize := by decide

/-- A timer wheel with the objects it owns and the clock it reads. -/
structure TimerWheel where
  timerWheel : TimerWheelImpl
  /-- The upper wheels, the lowest first. -/
  upperTimerWheels : List TimerWheelImpl
  buckets : BucketRef → Bucket
  timerHashTable : ℕ → Option (BucketRef × ℕ)
  delayQueue : NodeList BucketRef
  delayHashTable : BucketRef → Option ℕ
  timerfd : Option Timerfd
  /-- The timer objects. -/
  heap : Heap Timer
  /-- `Timer::s_numCreated_`, which all timers of the process share. -/
  numCreated : BitVec 64
  /-- The last clock reading. -/
  clock : ℤ
  /-- The timers bound in functors that will call `addTimerInLoop`. -/
  functors : List ℕ
  /-- The number of the next list node. -/
  nextNode : ℕ
  /-- The running `handleRead`, if any. -/
  frame : Option WheelRead
  /-- The timers whose callbacks `addTimerInLoop` is running, the innermost call first. -/
  adding : List ℕ
  /-- The address and the interval of every timer created, by serial number. -/
  created : List (ℕ × Double)
  /-- The serial numbers of the timers that `cancelInLoop` removed. -/
  cancelled : List ℕ
  /-- The callbacks run by `handleRead`. -/
  ran : List Firing

namespace TimerWheel

/-- The constructor, at a clock reading and a value of the process-wide counter. -/
def init (W : WheelConfig) (clock : ℤ) (numCreated : BitVec 64) : TimerWheel where
  timerWheel := { tick := W.tick, currentTime := clock }
  upperTimerWheels := []
  buckets _ := {}
  timerHashTable _ := none
  delayQueue := []
  delayHashTable _ := none
  timerfd := none
  heap := Heap.empty
  numCreated := numCreated
  clock := clock
  functors := []
  nextNode := 0
  frame := none
  adding := []
  created := []
  cancelled := []
  ran := []

variable (W : WheelConfig)

/-- The object a pointer to a timer points at. -/
def deref (q : TimerWheel) (timer : ℕ) : Except Fault Timer :=
  match q.heap.get? timer with
  | some t => .ok t
  | none => .error .useAfterFree

/-- `delete timer`. -/
def deleteTimer (q : TimerWheel) (timer : ℕ) : Except Fault TimerWheel :=
  match q.heap.delete timer with
  | some heap => .ok { q with heap := heap }
  | none => .error .doubleFree

/-- Replace the list of a bucket. -/
def setTimers (q : TimerWheel) (b : BucketRef) (timers : NodeList ℕ) : TimerWheel :=
  { q with buckets := Function.update q.buckets b { q.buckets b with timers := timers } }

/-! ## Filing a timer in a bucket -/

/-- The expiration time of the bucket at the front of the delay queue. -/
def frontExpiration (q : TimerWheel) : Option ℤ :=
  q.delayQueue.head?.map fun d => (q.buckets d.2).expirationTime

/-- The delay queue with `b` in a new node at its end, then sorted: buckets are compared by their
addresses. -/
def requeue (q : TimerWheel) (queue : NodeList BucketRef) (b : BucketRef) : TimerWheel :=
  { q with
    delayQueue := (queue ++ [(q.nextNode, b)]).insertionSort fun x y =>
      W.address x.2 ≤ W.address y.2
    delayHashTable := Function.update q.delayHashTable b (some q.nextNode)
    nextNode := q.nextNode + 1 }

/-- The delay queue without the node of `b`, if `b` is queued. -/
def eraseBucket (q : TimerWheel) (b : BucketRef) : Except Fault (NodeList BucketRef) :=
  match q.delayHashTable b with
  | none => .ok q.delayQueue
  | some iter =>
    match q.delayQueue.eraseNode iter with
    | some queue => .ok queue
    | none => .error .invalidIterator

def updateDelayQueue (q : TimerWheel) (b : BucketRef) : Except Fault TimerWheel :=
  match q.frontExpiration with
  | none =>
    let q := q.requeue W [] b
    .ok { q with timerfd := resetTimerfd (q.buckets b).expirationTime q.clock }
  | some currentExpiration => do
    let queue ← q.eraseBucket b
    let q := q.requeue W queue b
    match q.frontExpiration with
    | some newExpiration =>
      if currentExpiration = newExpiration then return q
      else return { q with timerfd := resetTimerfd newExpiration q.clock }
    | none => return q

/-- Put a timer at the end of the list of its bucket, record where it is, and set the expiration
time of the bucket. -/
def pushTimer (q : TimerWheel) (slot : Slot) (timer : ℕ) : TimerWheel :=
  { q with
    buckets := Function.update q.buckets slot.bucket
      { expirationTime := slot.time
        timers := (q.buckets slot.bucket).timers ++ [(q.nextNode, timer)] }
    timerHashTable := Function.update q.timerHashTable timer (some (slot.bucket, q.nextNode))
    nextNode := q.nextNode + 1 }

/-- The delay queue is updated only if the expiration time of the bucket has changed. -/
def fileTimer (q : TimerWheel) (slot : Slot) (timer : ℕ) : Except Fault TimerWheel :=
  if slot.bucket.id < 0 then .error .outOfRange
  else if (q.buckets slot.bucket).expirationTime = slot.time then .ok (q.pushTimer slot timer)
  else (q.pushTimer slot timer).updateDelayQueue W slot.bucket

/-- Where `insert` puts an expiration, and the upper wheels afterwards. -/
def place (q : TimerWheel) (expiration : ℤ) : List TimerWheelImpl × Option Slot :=
  TimerWheelImpl.place W.wheelSize expiration 0 q.timerWheel q.upperTimerWheels

/-- Whether an expiration is in the current tick of the base wheel. -/
def isExpired (q : TimerWheel) (expiration : ℤ) : Bool :=
  expiration < q.timerWheel.currentTime + q.timerWheel.tick

def insert (q : TimerWheel) (timer : ℕ) : Except Fault (Bool × TimerWheel) := do
  let t ← q.deref timer
  let expired := q.isExpired t.expiration
  let (upper, slot) := q.place W t.expiration
  let q := { q with upperTimerWheels := upper }
  match slot with
  | some slot =>
    let q ← q.fileTimer W slot timer
    return (expired, q)
  | none => return (expired, q)

/-! ## Adding and cancelling -/

/-- `addTimer` up to the call of `runInLoop`: create the timer and bind it in a functor. -/
def addTimer (q : TimerWheel) (timer : ℕ) (when_ : ℤ) (interval : Double) : TimerWheel :=
  if hp : q.heap.cell timer = none then
    { q with
      heap := q.heap.alloc timer (Timer.create when_ interval q.numCreated) hp
      numCreated := q.numCreated + 1
      functors := timer :: q.functors
      created := q.created ++ [(timer, interval)] }
  else q

/-- What `addTimer` returns. -/
def addTimerId (timer : ℕ) : TimerId := { timer := timer }

/-- `addTimerInLoop` up to the callback, which runs if the timer has expired. -/
def addTimerInLoop (q : TimerWheel) (timer : ℕ) : Except Fault TimerWheel := do
  let (expired, q) ← { q with functors := q.functors.erase timer }.insert W timer
  if expired then return { q with adding := timer :: q.adding }
  else return q

/-- The innermost `addTimerInLoop` from the end of the callback on. -/
def finishAdd (q : TimerWheel) : Except Fault TimerWheel :=
  match q.adding with
  | [] => .ok q
  | timer :: rest => do
    let q := { q with adding := rest }
    let t ← q.deref timer
    if t.repeat_ then
      let q := { q with heap := q.heap.modify timer (Timer.restart q.clock) }
      let (_, q) ← q.insert W timer
      return q
    else q.deleteTimer timer

/-- The entry that `timerHashTable_[timer]` makes for a timer that has none holds a null pointer,
which is dereferenced at once. -/
def cancelInLoop (q : TimerWheel) (timerId : TimerId) : Except Fault TimerWheel :=
  match q.timerHashTable timerId.timer with
  | none => .error .nullDereference
  | some (b, iter) =>
    match (q.buckets b).timers.eraseNode iter with
    | none => .error .invalidIterator
    | some timers =>
      let q := q.setTimers b timers
      let q := { q with timerHashTable := Function.update q.timerHashTable timerId.timer none }
      q.deleteTimer timerId.timer

/-! ## Running the expired timers -/

/-- The body of the loop of `getExpired`: empty the bucket at the front of the delay queue and
remove it from the queue. -/
def popBucket (q : TimerWheel) (b : BucketRef) (rest : NodeList BucketRef) : TimerWheel :=
  { q.setTimers b [] with
    delayQueue := rest
    delayHashTable := Function.update q.delayHashTable b none }

/-- The loop of `getExpired` over the delay queue. -/
def getExpired (now : ℤ) : NodeList BucketRef → TimerWheel → NodeList ℕ × TimerWheel
  | [], q => ([], q)
  | d :: rest, q =>
    if (q.buckets d.2).expirationTime < now then
      let r := getExpired now rest (q.popBucket d.2 rest)
      ((q.buckets d.2).timers ++ r.1, r.2)
    else ([], q)

/-- `handleRead` up to its first loop. -/
def handleRead (q : TimerWheel) : TimerWheel :=
  let now := q.clock
  let q := { q with timerfd := readTimerfd q.timerfd now }
  let (expired, q) := getExpired now q.delayQueue q
  { q with frame := some (.running now expired.values expired.values) }

/-- One round of the first loop of `handleRead`: run the callback of the next timer. -/
def runNext (q : TimerWheel) : Except Fault TimerWheel :=
  match q.frame with
  | some (.running now expired (timer :: rest)) =>
    match q.heap.cell timer with
    | some c => .ok { q with
        frame := some (.running now expired rest)
        ran := q.ran ++ [{ serial := c.1, expiration := c.2.expiration, now }] }
    | none => .error .useAfterFree
  | _ => .ok q

/-- Between the loops of `handleRead`: the clocks of the wheels are moved. -/
def advance (q : TimerWheel) : TimerWheel :=
  match q.frame with
  | some (.running now expired _) =>
    let r := q.timerWheel.advanceClock now q.upperTimerWheels
    { q with
      timerWheel := r.1
      upperTimerWheels := r.2
      frame := some (.reinserting now expired) }
  | _ => q

/-- One round of the second loop of `handleRead`: re-insert a repeating timer, delete another. -/
def reinsertNext (q : TimerWheel) : Except Fault TimerWheel :=
  match q.frame with
  | some (.reinserting now (timer :: rest)) => do
    let q := { q with frame := some (.reinserting now rest) }
    let t ← q.deref timer
    if t.repeat_ then
      let q := { q with heap := q.heap.modify timer (Timer.restart now) }
      let (_, q) ← q.insert W timer
      return q
    else
      let q := { q with timerHashTable := Function.update q.timerHashTable timer none }
      q.deleteTimer timer
  | _ => .ok q

/-- The end of `handleRead`: arm the descriptor for the bucket at the front of the delay queue. -/
def finish (q : TimerWheel) : TimerWheel :=
  let q := { q with frame := none }
  match q.frontExpiration with
  | some nextExpired =>
    if TimeStamp.valid nextExpired then
      { q with timerfd := resetTimerfd nextExpired q.clock }
    else q
  | none => q

/-! ## The machine -/

/-- Whether the event loop is in a functor or in a callback, which can call the member functions. -/
def inCallback (q : TimerWheel) : Bool :=
  match q.frame with
  | none => true
  | some (.running _ expired todo) => todo.length < expired.length
  | some (.reinserting _ _) => false

/-- What the running `handleRead` does next. -/
inductive Phase
  | idle
  | run
  | advance
  | reinsert
  | finish
  deriving DecidableEq

def phase (q : TimerWheel) : Phase :=
  match q.frame with
  | none => .idle
  | some (.running _ _ (_ :: _)) => .run
  | some (.running _ _ []) => .advance
  | some (.reinserting _ (_ :: _)) => .reinsert
  | some (.reinserting _ []) => .finish

/-- The events of a timer wheel. -/
inductive Event
  /-- The clock is set to a new reading. -/
  | tick (now : ℤ)
  /-- Another timer queue or timer wheel of the process creates a timer. -/
  | otherTimer
  | addTimer (timer : ℕ) (when_ : ℤ) (interval : Double)
  | addTimerInLoop (timer : ℕ)
  | finishAdd
  /-- A cancel with the `TimerId` that `addTimer` returned for the timer with serial number `n`. -/
  | cancelInLoop (n : ℕ)
  | handleRead
  | run
  | advance
  | reinsert
  | finish

/-- The events that can happen: a timer is created at a free address, a bound functor runs once,
and the event loop calls `handleRead` when it runs nothing else. -/
def Enabled (q : TimerWheel) : Event → Prop
  | .tick _ => True
  | .otherTimer => True
  | .addTimer timer _ _ => q.heap.cell timer = none ∧ IsObjectAddress timer
  | .addTimerInLoop timer => q.inCallback ∧ timer ∈ q.functors
  | .finishAdd => q.adding ≠ []
  | .cancelInLoop n => q.inCallback ∧ n < q.created.length
  | .handleRead => q.adding = [] ∧ q.phase = .idle
  | .run => q.adding = [] ∧ q.phase = .run
  | .advance => q.adding = [] ∧ q.phase = .advance
  | .reinsert => q.phase = .reinsert
  | .finish => q.phase = .finish

instance (q : TimerWheel) : (e : Event) → Decidable (q.Enabled e)
  | .tick _ => inferInstanceAs (Decidable True)
  | .otherTimer => inferInstanceAs (Decidable True)
  | .addTimer timer _ _ =>
    inferInstanceAs (Decidable (q.heap.cell timer = none ∧ IsObjectAddress timer))
  | .addTimerInLoop timer =>
    inferInstanceAs (Decidable (q.inCallback = true ∧ timer ∈ q.functors))
  | .finishAdd => inferInstanceAs (Decidable (q.adding ≠ []))
  | .cancelInLoop n => inferInstanceAs (Decidable (q.inCallback = true ∧ n < q.created.length))
  | .handleRead => inferInstanceAs (Decidable (q.adding = [] ∧ q.phase = .idle))
  | .run => inferInstanceAs (Decidable (q.adding = [] ∧ q.phase = .run))
  | .advance => inferInstanceAs (Decidable (q.adding = [] ∧ q.phase = .advance))
  | .reinsert => inferInstanceAs (Decidable (q.phase = .reinsert))
  | .finish => inferInstanceAs (Decidable (q.phase = .finish))

def step (q : TimerWheel) : Event → Except Fault TimerWheel
  | .tick now => .ok { q with clock := now }
  | .otherTimer => .ok { q with numCreated := q.numCreated + 1 }
  | .addTimer timer when_ interval => .ok (q.addTimer timer when_ interval)
  | .addTimerInLoop timer => q.addTimerInLoop W timer
  | .finishAdd => q.finishAdd W
  | .cancelInLoop n =>
    match q.created[n]? with
    | some c => do
      let q' ← q.cancelInLoop (addTimerId c.1)
      return { q' with
        cancelled := q.cancelled ++ ((q.heap.cell c.1).map Prod.fst).toList }
    | none => .ok q
  | .handleRead => .ok q.handleRead
  | .run => q.runNext
  | .advance => .ok q.advance
  | .reinsert => q.reinsertNext W
  | .finish => .ok q.finish

/-- The runs of a timer wheel that has just been constructed. -/
def machine : Machine TimerWheel Event Fault where
  init q := ∃ clock numCreated, q = init W clock numCreated
  enabled := Enabled
  step := step W

instance (q : TimerWheel) (e : Event) : Decidable ((machine W).enabled q e) :=
  inferInstanceAs (Decidable (q.Enabled e))

end TimerWheel

end CodingDemo.Libcpp
