import CodingDemo.Machine.Run
import CodingDemo.Reactor.FunctorQueue
import Mathlib.Data.Int.Notation

/-!
# The connector

A `Connector` connects a socket to a server, and tries again after a delay when that fails. All its
work is done in the thread of its loop: in calls of the user, in functors of the loop, in callbacks
of retry timers, and in the handlers of the channel of the socket that is being connected.

The thread of the loop does one of these after the other. A call of another thread sets `connect_`
in one step and queues its functor in a later one.

## Main definitions

* `Connector`: the members, with the timers and functors that will call it
* `connect`, `connecting`, `retry`, `removeAndResetChannel`, `handleWrite`, `handleError`: the
  member functions
* `Connector.machine`: the runs of a connector
-/

namespace CodingDemo.Libcpp

/-- The results of `::connect`; `success` is 0, and `other` stands for all other numbers. -/
inductive Errno
  | success
  | EINPROGRESS
  | EINTR
  | EISCONN
  | EAGAIN
  | EADDRINUSE
  | EADDRNOTAVAIL
  | ECONNREFUSED
  | ENETUNREACH
  | EACCES
  | EPERM
  | EAFNOSUPPORT
  | EALREADY
  | EBADF
  | EFAULT
  | ENOTSOCK
  | other
  deriving DecidableEq

/-- The channel of a socket that is being connected. -/
structure ConnectorChannel where
  fd : ℕ
  /-- It is registered at the loop with an interest in writing; otherwise its events are disabled
  and it has been removed from the loop. -/
  live : Bool
  deriving DecidableEq

inductive ConnectorState
  | kDisconnected
  | kConnecting
  | kConnected
  deriving DecidableEq

/-- A `TimerId`, made from a timer and the default sequence number 0. The timer is told by its own
sequence number. -/
structure ConnectorTimerId where
  timer : Option ℕ := none
  sequence : ℕ := 0
  deriving DecidableEq

/-- The functors that the connector and its callers queue. -/
inductive ConnectorFunctor
  | startInLoop
  | resetChannel
  | cancelInLoop (timerId : ConnectorTimerId)
  deriving DecidableEq

/-- How the process ends: an assertion, or the use of a null pointer. -/
inductive ConnectorFault
  /-- `state_` is not `kDisconnected` in `startInLoop`. -/
  | startInLoop
  /-- `channel_` is not null in `connecting`. -/
  | connecting
  | handleWrite
  | handleError
  | nullChannel
  deriving DecidableEq

structure Connector where
  connect_ : Bool := false
  state : ConnectorState := .kDisconnected
  channel : Option ConnectorChannel := none
  retryDelayMs : ℕ := 500
  timerId : ConnectorTimerId := {}
  /-- The retry timers in the timer queue, by their sequence numbers. -/
  timers : List ℕ := []
  /-- The retry timers that have been taken out of the timer queue, and whose callbacks have still
  to be run. -/
  expired : List ℕ := []
  queue : FunctorQueue ConnectorFunctor := {}
  /-- The calls of `start` by other threads that have still to queue `startInLoop`. -/
  starting : ℕ := 0
  /-- The calls of `stop` by other threads that have still to queue `cancelInLoop`. -/
  stopping : ℕ := 0
  /-- The timers that the process has created. -/
  numCreated : ℕ := 0
  /-- The sockets that `connect` has created. -/
  created : ℕ := 0
  /-- The sockets that have been closed, as often as that was done. -/
  closed : List ℕ := []
  /-- The sockets that have been passed to `newConnectionCallback_`. -/
  passed : List ℕ := []

namespace Connector

def kMaxRetryDelayMs : ℕ := 30 * 1000

def kInitRetryDelayMs : ℕ := 500

/-! ## Starting -/

def close (q : Connector) (sockfd : ℕ) : Connector := { q with closed := q.closed ++ [sockfd] }

def setState (q : Connector) (state : ConnectorState) : Connector := { q with state := state }

/-- `runAfter` of `startInLoop`. -/
def runAfter (q : Connector) : Connector :=
  { q with
    timers := q.timers ++ [q.numCreated]
    timerId := { timer := some q.numCreated }
    numCreated := q.numCreated + 1 }

def retry (q : Connector) (sockfd : ℕ) : Connector :=
  let q := (q.close sockfd).setState .kDisconnected
  if q.connect_ then
    { q.runAfter with retryDelayMs := min (q.retryDelayMs * 2) kMaxRetryDelayMs }
  else q

def connecting (q : Connector) (sockfd : ℕ) : Except ConnectorFault Connector :=
  let q := q.setState .kConnecting
  match q.channel with
  | none => .ok { q with channel := some { fd := sockfd, live := true } }
  | some _ => .error .connecting

def connect (q : Connector) (savedErrno : Errno) : Except ConnectorFault Connector :=
  let sockfd := q.created
  let q := { q with created := q.created + 1 }
  match savedErrno with
  | .success | .EINPROGRESS | .EINTR | .EISCONN => q.connecting sockfd
  | .EAGAIN | .EADDRINUSE | .EADDRNOTAVAIL | .ECONNREFUSED | .ENETUNREACH => .ok (q.retry sockfd)
  | .EACCES | .EPERM | .EAFNOSUPPORT | .EALREADY | .EBADF | .EFAULT | .ENOTSOCK =>
    .ok (q.close sockfd)
  | .other => .ok (q.close sockfd)

def startInLoop (q : Connector) (savedErrno : Errno) : Except ConnectorFault Connector :=
  if q.state = .kDisconnected then
    if q.connect_ then q.connect savedErrno else .ok q
  else .error .startInLoop

/-- `start` in the thread of the loop. -/
def start (q : Connector) (savedErrno : Errno) : Except ConnectorFault Connector :=
  { q with connect_ := true }.startInLoop savedErrno

def restart (q : Connector) (savedErrno : Errno) : Except ConnectorFault Connector :=
  { q.setState .kDisconnected with
    retryDelayMs := kInitRetryDelayMs
    connect_ := true }.startInLoop savedErrno

/-! ## Stopping -/

/-- A timer is found in the timer queue only under its own sequence number. -/
def cancelInLoop (q : Connector) (timerId : ConnectorTimerId) : Connector :=
  { q with timers :=
      q.timers.filter fun timer => ¬(timerId.timer = some timer ∧ timerId.sequence = timer) }

/-- `stop` in the thread of the loop. -/
def stop (q : Connector) : Connector := { q with connect_ := false }.cancelInLoop q.timerId

/-! ## The handlers of the channel -/

def queueInLoop (q : Connector) (cb : ConnectorFunctor) : Connector :=
  { q with queue := q.queue.queueInLoop cb }

/-- The connector with the descriptor of the channel. -/
def removeAndResetChannel (q : Connector) : Except ConnectorFault (Connector × ℕ) :=
  match q.channel with
  | none => .error .nullChannel
  | some channel =>
    let q := { q with channel := some { channel with live := false } }
    .ok (q.queueInLoop .resetChannel, channel.fd)

def resetChannel (q : Connector) : Connector := { q with channel := none }

/-- `handleWrite`, when the socket has this error, and may be connected to itself. -/
def handleWrite (q : Connector) (err : ℤ) (selfConnect : Bool) :
    Except ConnectorFault Connector :=
  if q.state = .kConnecting then do
    let (q, sockfd) ← q.removeAndResetChannel
    if err ≠ 0 then return q.retry sockfd
    else if selfConnect then return q.retry sockfd
    else
      let q := q.setState .kConnected
      if q.connect_ then return { q with passed := q.passed ++ [sockfd] }
      else return q.close sockfd
  else if q.state = .kDisconnected then .ok q
  else .error .handleWrite

def handleError (q : Connector) : Except ConnectorFault Connector :=
  if q.state = .kConnecting then do
    let (q, sockfd) ← q.removeAndResetChannel
    return q.retry sockfd
  else .error .handleError

/-- `Channel::handleEvent` of the channel: its events include an error, and that it is writable. -/
def handleEvent (q : Connector) (error writable : Bool) (err : ℤ) (selfConnect : Bool) :
    Except ConnectorFault Connector := do
  let q ← if error then q.handleError else .ok q
  if writable then q.handleWrite err selfConnect else return q

/-! ## The machine -/

inductive Event
  | start (savedErrno : Errno)
  | restart (savedErrno : Errno)
  | stop
  /-- Another thread calls `start`, up to `runInLoop`. -/
  | startFrom
  /-- `runInLoop` of that call. -/
  | queueStart
  /-- Another thread calls `stop`, up to `cancel`. -/
  | stopFrom
  /-- `cancel` of that call. -/
  | queueCancel
  /-- A retry timer is taken out of the timer queue. -/
  | expire (timer : ℕ)
  /-- The callback of a retry timer. -/
  | fire (timer : ℕ) (savedErrno : Errno)
  /-- A timer is created elsewhere in the process. -/
  | createTimer
  /-- The loop starts the next batch of functors. -/
  | swap
  /-- The loop runs the next functor of the batch. -/
  | runFunctor (savedErrno : Errno)
  | handleEvent (error writable : Bool) (err : ℤ) (selfConnect : Bool)
  deriving DecidableEq

def Enabled (q : Connector) : Event → Prop
  | .queueStart => 0 < q.starting
  | .queueCancel => 0 < q.stopping
  | .expire timer => timer ∈ q.timers
  | .fire timer _ => timer ∈ q.expired
  | .swap => q.queue.functors = []
  | .runFunctor _ => q.queue.functors ≠ []
  | .handleEvent _ _ _ _ => ∃ channel ∈ q.channel, channel.live = true
  | _ => True

instance (q : Connector) : (e : Event) → Decidable (q.Enabled e)
  | .queueStart => inferInstanceAs (Decidable (0 < q.starting))
  | .queueCancel => inferInstanceAs (Decidable (0 < q.stopping))
  | .expire timer => inferInstanceAs (Decidable (timer ∈ q.timers))
  | .fire timer _ => inferInstanceAs (Decidable (timer ∈ q.expired))
  | .swap => inferInstanceAs (Decidable (q.queue.functors = []))
  | .runFunctor _ => inferInstanceAs (Decidable (q.queue.functors ≠ []))
  | .handleEvent _ _ _ _ => inferInstanceAs (Decidable (∃ channel ∈ q.channel, channel.live = true))
  | .start _ | .restart _ | .stop | .startFrom | .stopFrom | .createTimer => isTrue trivial

/-- Run a functor. -/
def call (q : Connector) (savedErrno : Errno) :
    ConnectorFunctor → Except ConnectorFault Connector
  | .startInLoop => q.startInLoop savedErrno
  | .resetChannel => .ok q.resetChannel
  | .cancelInLoop timerId => .ok (q.cancelInLoop timerId)

def step (q : Connector) : Event → Except ConnectorFault Connector
  | .start savedErrno => q.start savedErrno
  | .restart savedErrno => q.restart savedErrno
  | .stop => .ok q.stop
  | .startFrom => .ok { q with connect_ := true, starting := q.starting + 1 }
  | .queueStart => .ok ({ q with starting := q.starting - 1 }.queueInLoop .startInLoop)
  | .stopFrom => .ok { q with connect_ := false, stopping := q.stopping + 1 }
  | .queueCancel =>
    .ok ({ q with stopping := q.stopping - 1 }.queueInLoop (.cancelInLoop q.timerId))
  | .expire timer =>
    .ok { q with timers := q.timers.erase timer, expired := q.expired ++ [timer] }
  | .fire timer savedErrno =>
    { q with expired := q.expired.erase timer }.startInLoop savedErrno
  | .createTimer => .ok { q with numCreated := q.numCreated + 1 }
  | .swap => .ok { q with queue := q.queue.swap }
  | .runFunctor savedErrno =>
    match q.queue.functors with
    | [] => .ok q
    | cb :: _ => { q with queue := q.queue.pop }.call savedErrno cb
  | .handleEvent error writable err selfConnect =>
    q.handleEvent error writable err selfConnect

/-- The runs of a connector that has just been constructed, in a process that has created some
timers. -/
def machine : Machine Connector Event ConnectorFault where
  init q := ∃ numCreated, q = { numCreated := numCreated }
  enabled := Enabled
  step := step

instance (q : Connector) (e : Event) : Decidable (machine.enabled q e) :=
  inferInstanceAs (Decidable (q.Enabled e))

/-- A retry closes the socket, and creates a timer if the connector is to connect. -/
theorem retry_eq (q : Connector) (sockfd : ℕ) : q.retry sockfd =
    { q with
      state := .kDisconnected
      closed := q.closed ++ [sockfd]
      timers := if q.connect_ then q.timers ++ [q.numCreated] else q.timers
      timerId := if q.connect_ then { timer := some q.numCreated } else q.timerId
      numCreated := if q.connect_ then q.numCreated + 1 else q.numCreated
      retryDelayMs :=
        if q.connect_ then min (q.retryDelayMs * 2) kMaxRetryDelayMs else q.retryDelayMs } := by
  cases h : q.connect_ <;> simp [retry, close, setState, runAfter, h]

end Connector

end CodingDemo.Libcpp
