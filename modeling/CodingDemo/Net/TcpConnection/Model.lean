import CodingDemo.Io.Buffer
import CodingDemo.Machine.Run
import CodingDemo.Reactor.Channel
import CodingDemo.Reactor.EventLoop.Model

/-!
# A TCP connection

A `TcpConnection` belongs to the event loop of one thread. `send` writes a message to the socket or
keeps what the kernel did not accept in the output buffer, from where `handleWrite` writes it when
the socket is ready. `shutdown` closes the socket for writing when the buffer is empty.

`send` and `shutdown` may be called by any thread; they run the rest of their work by `runInLoop`,
at once in the thread of the loop and as a functor otherwise. In another thread the functor is
bound first and queued later. The completion callback is run by `runInLoop` too. It may send and
shut down again, so it is a step of its own, and what the function that called it has left to do is
kept in `frames`.

The other member functions are called by the loop, so what they assert about the thread holds.
Reads and writes of `state_` by several threads are taken to happen one after the other.

## Main definitions

* `TcpConnection`: the connection with the functors bound for it and what was sent and accepted
* `send`, `sendInLoop`, `handleWrite`, `shutdown`, `shutdownInLoop`, `handleClose`,
  `connectEstablished`, `connectDestroyed`: the member functions
* `TcpConnection.machine`: the runs of a connection
-/

namespace CodingDemo.Libcpp

inductive ConnState
  | kConnecting
  | kConnected
  | kDisconnecting
  | kDisconnected
  deriving DecidableEq

/-- What `::write` returns: how many bytes the kernel has accepted, or an error. -/
abbrev WriteResult := Option ℕ

/-- A message passed to `send`, with the state of the connection then. -/
structure Message where
  bytes : List UInt8
  state : ConnState
  deriving DecidableEq

/-- The functors bound for a connection. -/
inductive Functor
  | sendInLoop (msg : Message)
  | shutdownInLoop
  | connectEstablished
  | connectDestroyed
  deriving DecidableEq

/-- The number of bytes a functor writes at most. -/
def Functor.size : Functor → ℕ
  | .sendInLoop msg => msg.bytes.length
  | _ => 0

/-- A function that has called a callback. -/
inductive Frame
  | sendInLoop
  | handleWrite
  | connectDestroyed
  deriving DecidableEq

/-- A connection with the functors bound for it. -/
structure TcpConnection where
  state : ConnState
  channel : Channel
  outputBuffer : Buffer
  /-- Whether `writeCompleteCallback_` is set. -/
  writeCompleteCallback : Bool
  /-- The functors that other threads have bound and will queue. -/
  bound : List Functor
  pendingFunctors : List Functor
  /-- The functors that `doPendingFunctors` has still to run. -/
  functors : List Functor
  /-- The functions that have called a callback, the innermost first. -/
  frames : List Frame
  /-- The bytes passed to `send`. -/
  passed : List UInt8
  /-- The messages passed to `sendInLoop`. -/
  sent : List Message
  /-- The bytes that the kernel has accepted. -/
  accepted : List UInt8
  /-- The bytes passed to `send` before `shutdown`. -/
  beforeShutdown : Option (List UInt8)
  /-- The bytes that the kernel had accepted at each call of `::shutdown`. -/
  shutdowns : List (List UInt8)

namespace TcpConnection

/-- The constructor. Its caller binds `connectEstablished`. -/
def init (writeCompleteCallback : Bool) : TcpConnection where
  state := .kConnecting
  channel := {}
  outputBuffer := Buffer.init
  writeCompleteCallback := writeCompleteCallback
  bound := [.connectEstablished]
  pendingFunctors := []
  functors := []
  frames := []
  passed := []
  sent := []
  accepted := []
  beforeShutdown := none
  shutdowns := []

/-- The thread of the caller enters only through `isInLoopThread()`. -/
def assertInLoopThread (isInLoopThread : Bool) : Except Abort Unit :=
  if isInLoopThread then .ok () else .error .notInLoopThread

/-- A result of the buffer, or the assertion that failed there. -/
def orAssert {α : Type} : Option α → Except Abort α
  | some a => .ok a
  | none => .error .assertion

/-! ## Sending -/

/-- The part of `sendInLoop` that writes at once: the number of bytes written, and the connection
after the callback has been called if these are all. -/
def writeNow (q : TcpConnection) (msg : List UInt8) (result : WriteResult) : ℕ × TcpConnection :=
  match result with
  | some nwrote =>
    let q := { q with accepted := q.accepted ++ msg.take nwrote }
    if nwrote < msg.length then (nwrote, q)
    else if q.writeCompleteCallback then (nwrote, { q with frames := .sendInLoop :: q.frames })
    else (nwrote, q)
  | none => (0, q)

/-- The part of `sendInLoop` that puts remaining data into the output buffer. -/
def bufferRest (q : TcpConnection) (data : List UInt8) : Except Abort TcpConnection := do
  let outputBuffer ← orAssert (q.outputBuffer.append data)
  let q := { q with outputBuffer := outputBuffer }
  if q.channel.isWriting then return q
  else return { q with channel := q.channel.enableWriting }

/-- `sendInLoop`, with the result of `::write` if it is called. A message that has been written
completely leaves nothing to do after the callback. -/
def sendInLoop (q : TcpConnection) (isInLoopThread : Bool) (msg : Message) (result : WriteResult) :
    Except Abort TcpConnection := do
  assertInLoopThread isInLoopThread
  let q := { q with sent := q.sent ++ [msg] }
  let (nwrote, q) :=
    if !q.channel.isWriting && q.outputBuffer.readableBytes = 0 then q.writeNow msg.bytes result
    else (0, q)
  if nwrote < msg.bytes.length then q.bufferRest (msg.bytes.drop nwrote)
  else return q

/-! ## Shutting down -/

/-- `shutdownInLoop`; `shutdownWrite` is noted in `shutdowns`. -/
def shutdownInLoop (q : TcpConnection) (isInLoopThread : Bool) : Except Abort TcpConnection := do
  assertInLoopThread isInLoopThread
  if q.channel.isWriting then return q
  else return { q with shutdowns := q.shutdowns ++ [q.accepted] }

/-- The end of `handleWrite` when the buffer has been emptied, after the callback. -/
def finishWrite (q : TcpConnection) : Except Abort TcpConnection :=
  if q.state = .kDisconnecting then q.shutdownInLoop true else .ok q

/-- `handleWrite`, with the result of `::write` if it is called. -/
def handleWrite (q : TcpConnection) (result : WriteResult) : Except Abort TcpConnection :=
  if q.channel.isWriting then
    match result with
    | some n =>
      if 0 < n then do
        let outputBuffer ← orAssert (q.outputBuffer.retrieve n)
        let q := { q with
          accepted := q.accepted ++ q.outputBuffer.bytes.take n
          outputBuffer := outputBuffer }
        if q.outputBuffer.readableBytes = 0 then
          let q := { q with channel := q.channel.disableWriting }
          if q.writeCompleteCallback then return { q with frames := .handleWrite :: q.frames }
          else q.finishWrite
        else return q
      else return q
    | none => return q
  else return q

/-! ## Establishing and closing the connection -/

def connectEstablished (q : TcpConnection) : Except Abort TcpConnection :=
  if q.state = .kConnecting then
    .ok { q with state := .kConnected, channel := q.channel.enableReading }
  else .error .assertion

/-- `handleClose`; the close callback makes another thread bind `connectDestroyed`. -/
def handleClose (q : TcpConnection) : Except Abort TcpConnection :=
  if q.state = .kConnected ∨ q.state = .kDisconnecting then
    .ok { q with
      channel := q.channel.disableAllEvents
      bound := q.bound ++ [.connectDestroyed] }
  else .error .assertion

/-- `connectDestroyed` up to the connection callback, after which the channel is removed from the
poller. -/
def connectDestroyed (q : TcpConnection) : Except Abort TcpConnection :=
  if q.state = .kConnected ∨ q.state = .kDisconnecting then
    .ok { q with
      state := .kDisconnected
      channel := q.channel.disableAllEvents
      frames := .connectDestroyed :: q.frames }
  else .error .assertion

/-! ## Functors -/

/-- A functor is run by the loop. -/
def call (q : TcpConnection) (result : WriteResult) : Functor → Except Abort TcpConnection
  | .sendInLoop msg => q.sendInLoop true msg result
  | .shutdownInLoop => q.shutdownInLoop true
  | .connectEstablished => q.connectEstablished
  | .connectDestroyed => q.connectDestroyed

def runInLoop (q : TcpConnection) (isInLoopThread : Bool) (cb : Functor) (result : WriteResult) :
    Except Abort TcpConnection :=
  if isInLoopThread then q.call result cb
  else .ok { q with bound := q.bound ++ [cb] }

def send (q : TcpConnection) (isInLoopThread : Bool) (msg : List UInt8) (result : WriteResult) :
    Except Abort TcpConnection :=
  let message : Message := { bytes := msg, state := q.state }
  let q := { q with passed := q.passed ++ msg }
  if q.state = .kConnected then q.sendInLoop isInLoopThread message result
  else q.runInLoop isInLoopThread (.sendInLoop message) result

def shutdown (q : TcpConnection) (isInLoopThread : Bool) : Except Abort TcpConnection :=
  if q.state = .kConnected then
    { q with state := .kDisconnecting, beforeShutdown := some q.passed }.runInLoop isInLoopThread
      .shutdownInLoop none
  else .ok q

/-- Another thread queues the functor with index `i` of those that are bound. -/
def queueInLoop (q : TcpConnection) (i : ℕ) : TcpConnection :=
  { q with
    bound := q.bound.eraseIdx i
    pendingFunctors := q.pendingFunctors ++ (q.bound[i]?).toList }

def doPendingFunctors (q : TcpConnection) : TcpConnection :=
  { q with functors := q.pendingFunctors, pendingFunctors := [] }

/-- One round of the loop of `doPendingFunctors`. -/
def runFunctor (q : TcpConnection) (result : WriteResult) : Except Abort TcpConnection :=
  match q.functors with
  | [] => .ok q
  | f :: rest => { q with functors := rest }.call result f

/-- The innermost callback returns, and so does the function that has called it. -/
def ret (q : TcpConnection) : Except Abort TcpConnection :=
  match q.frames with
  | [] => .ok q
  | .handleWrite :: rest => { q with frames := rest }.finishWrite
  | .sendInLoop :: rest => .ok { q with frames := rest }
  | .connectDestroyed :: rest => .ok { q with frames := rest }

/-! ## The machine -/

/-- The events of a connection. -/
inductive Event
  | send (isInLoopThread : Bool) (msg : List UInt8) (result : WriteResult)
  | shutdown (isInLoopThread : Bool)
  | setWriteCompleteCallback (isSet : Bool)
  | queueInLoop (i : ℕ)
  | doPendingFunctors
  | runFunctor (result : WriteResult)
  /-- The poller reports the socket as ready for writing. -/
  | handleWrite (result : WriteResult)
  /-- The poller reports the socket as ready for reading, and there is nothing to read. -/
  | handleClose
  | ret
  deriving DecidableEq

/-- The kernel accepts no more bytes than it is asked to. -/
def AtMost (result : WriteResult) (len : ℕ) : Prop := ∀ n ∈ result, n ≤ len

instance (result : WriteResult) (len : ℕ) : Decidable (AtMost result len) :=
  inferInstanceAs (Decidable (∀ n ∈ result, n ≤ len))

/-- The loop is neither in a callback nor in `doPendingFunctors`. -/
def isPolling (q : TcpConnection) : Bool := q.frames.isEmpty && q.functors.isEmpty

/-- The events that can happen: other functors and callbacks of the loop call `send` and `shutdown`
at any time. -/
def Enabled (q : TcpConnection) : Event → Prop
  | .send _ msg result => AtMost result msg.length
  | .shutdown _ => True
  | .setWriteCompleteCallback _ => True
  | .queueInLoop i => i < q.bound.length
  | .doPendingFunctors => q.isPolling
  | .runFunctor result => q.frames = [] ∧ ∃ f ∈ q.functors.head?, AtMost result f.size
  | .handleWrite result => q.isPolling ∧ AtMost result q.outputBuffer.readableBytes
  | .handleClose => q.isPolling ∧ q.channel.isReading
  | .ret => q.frames ≠ []

instance (q : TcpConnection) : (e : Event) → Decidable (q.Enabled e)
  | .send _ msg result => inferInstanceAs (Decidable (AtMost result msg.length))
  | .shutdown _ => inferInstanceAs (Decidable True)
  | .setWriteCompleteCallback _ => inferInstanceAs (Decidable True)
  | .queueInLoop i => inferInstanceAs (Decidable (i < q.bound.length))
  | .doPendingFunctors => inferInstanceAs (Decidable (q.isPolling = true))
  | .runFunctor result =>
    inferInstanceAs (Decidable (q.frames = [] ∧ ∃ f ∈ q.functors.head?, AtMost result f.size))
  | .handleWrite result =>
    inferInstanceAs (Decidable (q.isPolling = true ∧ AtMost result q.outputBuffer.readableBytes))
  | .handleClose => inferInstanceAs (Decidable (q.isPolling = true ∧ q.channel.isReading = true))
  | .ret => inferInstanceAs (Decidable (q.frames ≠ []))

def step (q : TcpConnection) : Event → Except Abort TcpConnection
  | .send isInLoopThread msg result => q.send isInLoopThread msg result
  | .shutdown isInLoopThread => q.shutdown isInLoopThread
  | .setWriteCompleteCallback isSet => .ok { q with writeCompleteCallback := isSet }
  | .queueInLoop i => .ok (q.queueInLoop i)
  | .doPendingFunctors => .ok q.doPendingFunctors
  | .runFunctor result => q.runFunctor result
  | .handleWrite result => q.handleWrite result
  | .handleClose => q.handleClose
  | .ret => q.ret

/-- The runs of a connection that has just been constructed. -/
def machine : Machine TcpConnection Event Abort where
  init q := ∃ writeCompleteCallback, q = init writeCompleteCallback
  enabled := Enabled
  step := step

instance (q : TcpConnection) (e : Event) : Decidable (machine.enabled q e) :=
  inferInstanceAs (Decidable (q.Enabled e))

end TcpConnection

end CodingDemo.Libcpp
