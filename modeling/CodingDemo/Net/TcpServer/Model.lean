import CodingDemo.Net.TcpConnection.Model
import CodingDemo.Text.Decimal

/-!
# A TCP server

A `TcpServer` accepts connections in the thread of its base loop and hands each of them to one of
the io loops, or to the base loop if there are no others. A connection is established in the thread
of its loop. When the peer has closed it, that loop asks the base loop to remove it from
`connections_`, and the base loop asks the loop of the connection to destroy it. Each of these calls
is made at once in the right thread, and is queued as a functor otherwise.

Loop 0 is the base loop, and a thread is told by the loop that it runs. The connections are numbered
in the order in which they are accepted. The handlers of a channel are called one after the other,
and what user code does in a callback or a functor is a step of its own: it may send to a connection
and shut it down. Of the output buffer it matters here only whether something is left in it, which
the events say. `shutdown` reads `state_` in one step and sets it in a later one, as other threads
may call it.

## Main definitions

* `ServerConn`, `ServerLoop`, `TcpServer`: the connections, the loops, and the server with both
* `newConnection`, `removeConnection`, `removeConnectionInLoop`: the member functions of the server
* `connectEstablished`, `handleRead`, `handleWrite`, `handleClose`, `connectDestroyed`: those of a
  connection
* `TcpServer.machine`: the runs of a server
-/

namespace CodingDemo.Libcpp

/-- A connection of a server, with the calls that have been made for it. -/
structure ServerConn where
  name : List UInt8 := []
  /-- `loop_` -/
  loop : ℕ := 0
  state : ConnState := .kConnecting
  channel : Channel := {}
  /-- The calls of `connectEstablished`. -/
  established : ℕ := 0
  /-- The calls of `handleClose`. -/
  closed : ℕ := 0
  /-- The calls of `removeConnectionInLoop`. -/
  removed : ℕ := 0
  /-- The calls of `connectDestroyed`. -/
  destroyed : ℕ := 0
  /-- The calls of `shutdown` that have read `kConnected` and have still to set the state. -/
  shutting : ℕ := 0

/-- The functors that the server queues. -/
inductive ServerFunctor
  | connectEstablished (conn : ℕ)
  | removeConnectionInLoop (conn : ℕ)
  | connectDestroyed (conn : ℕ)
  deriving DecidableEq

def ServerFunctor.conn : ServerFunctor → ℕ
  | .connectEstablished conn | .removeConnectionInLoop conn | .connectDestroyed conn => conn

/-- The callbacks of a channel. -/
inductive ChannelCallback
  | errorCallback
  | readCallback
  | writeCallback
  deriving DecidableEq

/-- The channel of a connection with what the poller reports of it. -/
structure ActiveChannel where
  conn : ℕ
  error : Bool
  readable : Bool
  writable : Bool
  deriving DecidableEq

/-- The callbacks that `handleEvent` calls, in this order. -/
def ActiveChannel.handleEvent (a : ActiveChannel) : List (ℕ × ChannelCallback) :=
  (if a.error then [(a.conn, .errorCallback)] else []) ++
    ((if a.readable then [(a.conn, .readCallback)] else []) ++
      if a.writable then [(a.conn, .writeCallback)] else [])

structure ServerLoop where
  queue : FunctorQueue ServerFunctor := {}
  /-- The loop is between the poll and `doPendingFunctors`. -/
  handling : Bool := false
  /-- The callbacks that are still to be called for the active channels. -/
  active : List (ℕ × ChannelCallback) := []

/-- How the process ends: the assertion of one of the functions, or that of the thread. -/
inductive ServerFault
  | connectEstablished
  | handleClose
  | connectDestroyed
  | removeConnectionInLoop
  | notInLoopThread
  deriving DecidableEq

structure TcpServer where
  name : List UInt8
  /-- The number of io loops. -/
  numLoops : ℕ
  /-- `next_` of the `EventLoopGroup`. -/
  next : ℕ := 0
  nextConnId : ℕ := 1
  connections : List UInt8 → Option ℕ := fun _ => none
  loops : ℕ → ServerLoop := fun _ => {}
  /-- The number of connections that have been accepted. -/
  accepted : ℕ := 0
  conn : ℕ → ServerConn := fun _ => {}

namespace TcpServer

def assertInLoopThread (loop thread : ℕ) : Except ServerFault Unit :=
  if loop = thread then .ok () else .error .notInLoopThread

/-- Connection `c` changes. -/
def setConn (q : TcpServer) (c : ℕ) (conn : ServerConn) : TcpServer :=
  { q with conn := Function.update q.conn c conn }

/-- Loop `i` changes. -/
def setLoop (q : TcpServer) (i : ℕ) (loop : ServerLoop) : TcpServer :=
  { q with loops := Function.update q.loops i loop }

def queueInLoop (q : TcpServer) (i : ℕ) (cb : ServerFunctor) : TcpServer :=
  q.setLoop i { q.loops i with queue := (q.loops i).queue.queueInLoop cb }

/-! ## Functors -/

def connectEstablished (q : TcpServer) (thread c : ℕ) : Except ServerFault TcpServer := do
  assertInLoopThread (q.conn c).loop thread
  if (q.conn c).state = .kConnecting then
    return q.setConn c { q.conn c with
      state := .kConnected
      channel := (q.conn c).channel.enableReading
      established := (q.conn c).established + 1 }
  else throw .connectEstablished

/-- `connectDestroyed`; the channel is removed from the loop. -/
def connectDestroyed (q : TcpServer) (thread c : ℕ) : Except ServerFault TcpServer := do
  assertInLoopThread (q.conn c).loop thread
  if (q.conn c).state = .kConnected ∨ (q.conn c).state = .kDisconnecting then
    return q.setConn c { q.conn c with
      state := .kDisconnected
      channel := (q.conn c).channel.disableAllEvents
      destroyed := (q.conn c).destroyed + 1 }
  else throw .connectDestroyed

/-- `connections_.erase`, with the number of elements that are erased. -/
def erase (q : TcpServer) (connName : List UInt8) : ℕ × TcpServer :=
  (if (q.connections connName).isSome then 1 else 0,
    { q with connections := Function.update q.connections connName none })

def removeConnectionInLoop (q : TcpServer) (thread c : ℕ) : Except ServerFault TcpServer := do
  assertInLoopThread 0 thread
  let (n, q) := q.erase (q.conn c).name
  if n = 1 then
    let q := q.setConn c { q.conn c with removed := (q.conn c).removed + 1 }
    return q.queueInLoop (q.conn c).loop (.connectDestroyed c)
  else throw .removeConnectionInLoop

/-- A functor is called in a thread. -/
def call (q : TcpServer) (thread : ℕ) : ServerFunctor → Except ServerFault TcpServer
  | .connectEstablished c => q.connectEstablished thread c
  | .removeConnectionInLoop c => q.removeConnectionInLoop thread c
  | .connectDestroyed c => q.connectDestroyed thread c

def runInLoop (q : TcpServer) (i thread : ℕ) (cb : ServerFunctor) : Except ServerFault TcpServer :=
  if i = thread then q.call thread cb else .ok (q.queueInLoop i cb)

/-! ## Accepting a connection -/

/-- The name of the connection with the given id. -/
def connName (name : List UInt8) (id : ℕ) : List UInt8 := name ++ '#'.toUInt8 :: decimal id

/-- `getNextLoop`, with the value of `next_` afterwards; loop `i + 1` is `loops_[i]`. -/
def getNextLoop (q : TcpServer) : ℕ × ℕ :=
  if q.numLoops = 0 then (0, q.next)
  else (q.next + 1, if q.numLoops ≤ q.next + 1 then 0 else q.next + 1)

/-- `newConnection` up to `runInLoop`, with the results of `getNextLoop`. -/
def addConnection (q : TcpServer) (ioLoop next : ℕ) : TcpServer :=
  let connName := connName q.name q.nextConnId
  { q with
    nextConnId := q.nextConnId + 1
    next := next
    connections := Function.update q.connections connName (some q.accepted)
    accepted := q.accepted + 1
    conn := Function.update q.conn q.accepted { name := connName, loop := ioLoop } }

def newConnection (q : TcpServer) (thread : ℕ) : Except ServerFault TcpServer := do
  assertInLoopThread 0 thread
  let (ioLoop, next) := q.getNextLoop
  (q.addConnection ioLoop next).runInLoop ioLoop thread (.connectEstablished q.accepted)

/-! ## The callbacks of a channel -/

def removeConnection (q : TcpServer) (thread c : ℕ) : Except ServerFault TcpServer :=
  q.runInLoop 0 thread (.removeConnectionInLoop c)

/-- `handleClose`; the close callback is `removeConnection`. -/
def handleClose (q : TcpServer) (thread c : ℕ) : Except ServerFault TcpServer := do
  assertInLoopThread (q.conn c).loop thread
  if (q.conn c).state = .kConnected ∨ (q.conn c).state = .kDisconnecting then
    let q := q.setConn c { q.conn c with
      channel := (q.conn c).channel.disableAllEvents
      closed := (q.conn c).closed + 1 }
    q.removeConnection thread c
  else throw .handleClose

/-- What `readFd` returns: a positive number, 0, or an error. -/
inductive ReadResult
  | positive
  | zero
  | error
  deriving DecidableEq

/-- `handleRead`; the message callback is user code, and `handleError` only logs. -/
def handleRead (q : TcpServer) (thread c : ℕ) : ReadResult → Except ServerFault TcpServer
  | .positive => .ok q
  | .zero => q.handleClose thread c
  | .error => .ok q

/-- `handleWrite`; whether the output buffer is empty afterwards is given. -/
def handleWrite (q : TcpServer) (thread c : ℕ) (drained : Bool) :
    Except ServerFault TcpServer := do
  assertInLoopThread (q.conn c).loop thread
  if (q.conn c).channel.isWriting && drained then
    return q.setConn c { q.conn c with channel := (q.conn c).channel.disableWriting }
  else return q

/-- `sendInLoop`; whether something remains to be written is given. -/
def sendInLoop (q : TcpServer) (thread c : ℕ) (remain : Bool) : Except ServerFault TcpServer := do
  assertInLoopThread (q.conn c).loop thread
  if remain && !(q.conn c).channel.isWriting then
    return q.setConn c { q.conn c with channel := (q.conn c).channel.enableWriting }
  else return q

/-- The callback of a channel is called. -/
def callback (q : TcpServer) (thread c : ℕ) (result : ReadResult) (drained : Bool) :
    ChannelCallback → Except ServerFault TcpServer
  | .errorCallback => .ok q
  | .readCallback => q.handleRead thread c result
  | .writeCallback => q.handleWrite thread c drained

/-! ## The loops -/

/-- The poller of loop `i` reports channels. -/
def poll (q : TcpServer) (i : ℕ) (activeChannels : List ActiveChannel) : TcpServer :=
  q.setLoop i { q.loops i with
    handling := true
    active := activeChannels.flatMap ActiveChannel.handleEvent }

/-- Loop `i` calls the next callback. -/
def handleNext (q : TcpServer) (i : ℕ) (result : ReadResult) (drained : Bool) :
    Except ServerFault TcpServer :=
  match (q.loops i).active with
  | [] => .ok q
  | (c, cb) :: active =>
    (q.setLoop i { q.loops i with active := active }).callback i c result drained cb

/-- Loop `i` starts `doPendingFunctors`. -/
def doPendingFunctors (q : TcpServer) (i : ℕ) : TcpServer :=
  q.setLoop i { q.loops i with queue := (q.loops i).queue.swap, handling := false }

/-- `doPendingFunctors` of loop `i` runs the next functor. -/
def runFunctor (q : TcpServer) (i : ℕ) : Except ServerFault TcpServer :=
  match (q.loops i).queue.functors with
  | [] => .ok q
  | cb :: _ => (q.setLoop i { q.loops i with queue := (q.loops i).queue.pop }).call i cb

/-- `shutdown` reads the state. -/
def shutdown (q : TcpServer) (c : ℕ) : TcpServer :=
  if (q.conn c).state = .kConnected then
    q.setConn c { q.conn c with shutting := (q.conn c).shutting + 1 }
  else q

/-- `shutdown` sets the state. -/
def setDisconnecting (q : TcpServer) (c : ℕ) : TcpServer :=
  q.setConn c { q.conn c with
    state := .kDisconnecting
    shutting := (q.conn c).shutting - 1 }

/-! ## The machine -/

inductive Event
  /-- The acceptor has a new connection. -/
  | newConnection
  | poll (loop : ℕ) (activeChannels : List ActiveChannel)
  | handleNext (loop : ℕ) (result : ReadResult) (drained : Bool)
  | doPendingFunctors (loop : ℕ)
  | runFunctor (loop : ℕ)
  /-- Something is sent to a connection, in the thread of its loop. -/
  | sendInLoop (conn : ℕ) (remain : Bool)
  | shutdown (conn : ℕ)
  | setDisconnecting (conn : ℕ)
  deriving DecidableEq

/-- The poller of loop `i` may report the channel: it is one of the loop, and is ready only for the
events it is interested in. -/
def MayReport (q : TcpServer) (i : ℕ) (a : ActiveChannel) : Prop :=
  a.conn < q.accepted ∧ (q.conn a.conn).loop = i ∧
    (a.readable → (q.conn a.conn).channel.isReading) ∧
      (a.writable → (q.conn a.conn).channel.isWriting)

instance (q : TcpServer) (i : ℕ) (a : ActiveChannel) : Decidable (q.MayReport i a) :=
  inferInstanceAs (Decidable (_ ∧ _ ∧ (a.readable = true → (q.conn a.conn).channel.isReading = true)
    ∧ (a.writable = true → (q.conn a.conn).channel.isWriting = true)))

/-- The events that can happen. There are fewer than `2 ^ 31` connections. -/
def Enabled (q : TcpServer) : Event → Prop
  | .newConnection => (q.loops 0).handling ∧ q.accepted + 1 < 2 ^ 31
  | .poll i activeChannels =>
    i ≤ q.numLoops ∧ (q.loops i).handling = false ∧ (q.loops i).queue.functors = [] ∧
      (activeChannels.map ActiveChannel.conn).Nodup ∧ ∀ a ∈ activeChannels, q.MayReport i a
  | .handleNext i _ _ => (q.loops i).active ≠ []
  | .doPendingFunctors i => (q.loops i).handling ∧ (q.loops i).active = []
  | .runFunctor i => (q.loops i).queue.functors ≠ []
  | .sendInLoop c _ => c < q.accepted
  | .shutdown c => c < q.accepted
  | .setDisconnecting c => 0 < (q.conn c).shutting

instance (q : TcpServer) : (e : Event) → Decidable (q.Enabled e)
  | .newConnection =>
    inferInstanceAs (Decidable ((q.loops 0).handling = true ∧ q.accepted + 1 < 2 ^ 31))
  | .poll i activeChannels =>
    inferInstanceAs (Decidable (i ≤ q.numLoops ∧ (q.loops i).handling = false ∧
      (q.loops i).queue.functors = [] ∧ (activeChannels.map ActiveChannel.conn).Nodup ∧
        ∀ a ∈ activeChannels, q.MayReport i a))
  | .handleNext i _ _ => inferInstanceAs (Decidable ((q.loops i).active ≠ []))
  | .doPendingFunctors i =>
    inferInstanceAs (Decidable ((q.loops i).handling = true ∧ (q.loops i).active = []))
  | .runFunctor i => inferInstanceAs (Decidable ((q.loops i).queue.functors ≠ []))
  | .sendInLoop c _ => inferInstanceAs (Decidable (c < q.accepted))
  | .shutdown c => inferInstanceAs (Decidable (c < q.accepted))
  | .setDisconnecting c => inferInstanceAs (Decidable (0 < (q.conn c).shutting))

def step (q : TcpServer) : Event → Except ServerFault TcpServer
  | .newConnection => q.newConnection 0
  | .poll i activeChannels => .ok (q.poll i activeChannels)
  | .handleNext i result drained => q.handleNext i result drained
  | .doPendingFunctors i => .ok (q.doPendingFunctors i)
  | .runFunctor i => q.runFunctor i
  | .sendInLoop c remain => q.sendInLoop (q.conn c).loop c remain
  | .shutdown c => .ok (q.shutdown c)
  | .setDisconnecting c => .ok (q.setDisconnecting c)

/-- The runs of a server that has been started. -/
def machine : Machine TcpServer Event ServerFault where
  init q := ∃ name numLoops, q = { name := name, numLoops := numLoops }
  enabled := Enabled
  step := step

instance (q : TcpServer) (e : Event) : Decidable (machine.enabled q e) :=
  inferInstanceAs (Decidable (q.Enabled e))

end TcpServer

end CodingDemo.Libcpp
