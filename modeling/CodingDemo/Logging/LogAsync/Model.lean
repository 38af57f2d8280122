import CodingDemo.Container.ListNode
import CodingDemo.Machine.Run

/-!
# The asynchronous logger in C

Threads append messages to the current buffer, and put it into a list when it is full. The backend
thread takes the list once in each iteration, hands its buffers to the log file, and frees them. The
buffers live in a memory where addresses are not used again.

## Main definitions

* `Buffer`, `LogAsync`: a buffer, and the variables with the memory
* `log_async_get_log`, `log_async_output`: a call with a message, and a step of the backend
* `machine`: the logger with any number of callers
-/

namespace CodingDemo.Libc

def AYSNC_BUF_SIZE : ℕ := 4000 * 1000

/-- A buffer without its node. The bytes of the array that are not in `buf` are zero. -/
structure Buffer where
  buf : List UInt8
  avail : ℕ
  len : ℕ

namespace Buffer

/-- The buffer that `buf_alloc` returns. -/
def init : Buffer where
  buf := []
  avail := AYSNC_BUF_SIZE
  len := 0

/-- `memcpy` to the begin of the array. -/
def append (b : Buffer) (msg : List UInt8) : Buffer :=
  if msg.length < b.avail then
    { buf := msg ++ b.buf.drop msg.length
      avail := b.avail - msg.length
      len := b.len + msg.length }
  else b

/-- The bytes that are handed to the log file. -/
def content (b : Buffer) : List UInt8 := b.buf.takeD b.len 0

end Buffer

/-- The addresses of nodes: two heads, and the nodes of buffers. -/
inductive Addr
  | buffers
  | buffersToWrite
  | node (buffer : ℕ)
deriving DecidableEq

/-- `list_entry`: the buffer of a node. -/
def Addr.entry : Addr → Option ℕ
  | .node buffer => some buffer
  | .buffers | .buffersToWrite => none

/-- Where the backend is. -/
inductive OutputPc
  /-- Before the buffers of the backend are allocated. -/
  | alloc
  /-- Before `log_async_running` is read. -/
  | check
  /-- Before the mutex is locked. -/
  | lock
  /-- In `pthread_cond_timedwait`, while the mutex is not locked. -/
  | wait
  /-- In the loop that writes, before `p` is compared with the head. -/
  | write (p : Addr)
  /-- In the loop that frees, before `p` is compared with the head. -/
  | free (p q : Addr)
  | done
deriving DecidableEq

structure LogAsync where
  nodes : Nodes Addr
  bufs : ℕ → Option Buffer
  /-- The number of buffers allocated so far. -/
  mallocs : ℕ
  currentBuffer : Option ℕ
  nextBuffer : Option ℕ
  buffers_len : ℕ
  log_async_running : Bool
  pc : OutputPc
  newBuffer1 : Option ℕ
  newBuffer2 : Option ℕ
  /-- What has been handed to `log_file_append`. -/
  output : List UInt8
  /-- The messages of the calls of `log_async_get_log` that have returned. -/
  msgs : List (List UInt8)

/-- A null pointer is used, or memory that has been freed. -/
inductive MemoryFault
  | null
  | freed
deriving DecidableEq

def orFreed {α : Type*} : Option α → Except MemoryFault α
  | none => .error .freed
  | some a => .ok a

namespace LogAsync

/-! ## Memory -/

def buf_alloc (q : LogAsync) : LogAsync × ℕ :=
  let newbuf := q.mallocs
  ({ q with
      nodes := Function.update q.nodes (.node newbuf) (some ⟨.node newbuf, .node newbuf⟩)
      bufs := Function.update q.bufs newbuf (some .init)
      mallocs := q.mallocs + 1 }, newbuf)

def free (q : LogAsync) (p : Addr) : Except MemoryFault LogAsync :=
  match p.entry with
  | none => .error .null
  | some buffer =>
    if (q.bufs buffer).isNone then .error .freed
    else .ok { q with
      nodes := Function.update q.nodes (.node buffer) none
      bufs := Function.update q.bufs buffer none }

/-- A buffer, through a pointer. -/
def deref (q : LogAsync) : Option ℕ → Except MemoryFault (ℕ × Buffer)
  | none => .error .null
  | some p => do
    let b ← orFreed (q.bufs p)
    pure (p, b)

/-- `list_push_back` with the node of a buffer. -/
def pushBack (q : LogAsync) (head : Addr) : Option ℕ → Except MemoryFault LogAsync
  | none => .error .null
  | some p => do
    let nodes ← orFreed (q.nodes.list_push_back head (.node p))
    pure { q with nodes := nodes }

/-- The pointer is returned, and the variable keeps it. -/
def ptr_move (obj : Option ℕ) : Option ℕ := obj

/-! ## Steps -/

def append (q : LogAsync) (buffer : Option ℕ) (msg : List UInt8) : Except MemoryFault LogAsync := do
  let (p, b) ← q.deref buffer
  pure { q with bufs := Function.update q.bufs p (some (b.append msg)) }

/-- The next current buffer, when the old one is full. -/
def nextCurrent (q : LogAsync) : LogAsync :=
  if q.nextBuffer = none then { q with currentBuffer := ptr_move q.nextBuffer }
  else { q.buf_alloc.1 with currentBuffer := some q.buf_alloc.2 }

/-- A call, which has the mutex locked. -/
def log_async_get_log (q : LogAsync) (msg : List UInt8) : Except MemoryFault LogAsync := do
  let q := { q with msgs := q.msgs ++ [msg] }
  let (_, current) ← q.deref q.currentBuffer
  if msg.length < current.avail then q.append q.currentBuffer msg
  else
    let q ← q.pushBack .buffers q.currentBuffer
    let q := nextCurrent { q with buffers_len := q.buffers_len + 1 }
    q.append q.currentBuffer msg

/-- The end of the critical section, and the begin of the loop that writes. -/
def take (q : LogAsync) : Except MemoryFault LogAsync := do
  let q ← q.pushBack .buffers q.currentBuffer
  let q := { q with currentBuffer := ptr_move q.newBuffer1 }
  let nodes ← orFreed (q.nodes.list_swap .buffersToWrite .buffers)
  let q := { q with nodes := nodes, buffers_len := 0 }
  let q := if q.nextBuffer = none then { q with nextBuffer := ptr_move q.newBuffer2 } else q
  let p ← orFreed (q.nodes.next .buffersToWrite)
  pure { q with pc := .write p }

/-- A step of the backend. A wait may end at any time. -/
def log_async_output (q : LogAsync) : Except MemoryFault LogAsync :=
  match q.pc with
  | .alloc =>
    let (q, newBuffer1) := q.buf_alloc
    let (q, newBuffer2) := q.buf_alloc
    .ok { q with newBuffer1 := some newBuffer1, newBuffer2 := some newBuffer2, pc := .check }
  | .check => .ok { q with pc := if q.log_async_running then .lock else .done }
  | .lock => if q.buffers_len = 0 then .ok { q with pc := .wait } else q.take
  | .wait => q.take
  | .write p =>
    if p = .buffersToWrite then do
      let p ← orFreed (q.nodes.next .buffersToWrite)
      let next ← orFreed (q.nodes.next p)
      pure { q with pc := .free p next }
    else do
      let (_, b) ← q.deref p.entry
      let next ← orFreed (q.nodes.next p)
      pure { q with output := q.output ++ b.content, pc := .write next }
  | .free p next =>
    if p = .buffersToWrite then .ok { q with pc := .alloc }
    else do
      let q ← q.free p
      let next' ← orFreed (q.nodes.next next)
      pure { q with pc := .free next next' }
  | .done => .ok q

inductive Event
  | log_async_get_log (msg : List UInt8)
  | log_async_output
  | log_async_exit

def step (q : LogAsync) : Event → Except MemoryFault LogAsync
  | .log_async_get_log msg => q.log_async_get_log msg
  | .log_async_output => q.log_async_output
  | .log_async_exit => .ok { q with log_async_running := false }

/-- Messages are shorter than a buffer. -/
def Enabled (q : LogAsync) : Event → Prop
  | .log_async_get_log msg => msg.length < AYSNC_BUF_SIZE
  | .log_async_output => q.pc ≠ .done
  | .log_async_exit => True

instance (q : LogAsync) (e : Event) : Decidable (q.Enabled e) :=
  match e with
  | .log_async_get_log msg => inferInstanceAs (Decidable (msg.length < AYSNC_BUF_SIZE))
  | .log_async_output => inferInstanceAs (Decidable (q.pc ≠ .done))
  | .log_async_exit => inferInstanceAs (Decidable True)

/-- The two lists are empty, and nothing is allocated. -/
def start : LogAsync where
  nodes a := if a.entry.isSome then none else some ⟨a, a⟩
  bufs _ := none
  mallocs := 0
  currentBuffer := none
  nextBuffer := none
  buffers_len := 0
  log_async_running := true
  pc := .alloc
  newBuffer1 := none
  newBuffer2 := none
  output := []
  msgs := []

/-- `log_async_init`. -/
def init : LogAsync :=
  let q := { start.buf_alloc.1 with currentBuffer := some start.buf_alloc.2 }
  { q.buf_alloc.1 with nextBuffer := some q.buf_alloc.2 }

def machine : Machine LogAsync Event MemoryFault where
  init q := q = .init
  enabled := Enabled
  step := step

instance (q : LogAsync) (e : Event) : Decidable (machine.enabled q e) :=
  inferInstanceAs (Decidable (q.Enabled e))

end LogAsync

end CodingDemo.Libc
