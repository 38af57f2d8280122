import CodingDemo.Io.FixedBuffer
import CodingDemo.Machine.Run

/-!
# Asynchronous logging with two buffers

Threads append lines to the current buffer, and pass it on when it is full. The backend thread takes
all buffers once in each iteration, and writes them to the log file; it leaves a buffer of its own
in place of the current one.

## Main definitions

* `AsyncLogging`: the members, the variables of the backend thread, and the lines
* `append`, `threadFunc`, `stop`: a call of `append`, a step of the backend thread, and `stop`
* `pending`, `unwritten`: the bytes in the buffers

## Main results

* `appended_append`: what a call of `append` does
* `backendStep_threadFunc`: what a step of the backend does
-/

namespace CodingDemo.Libcpp

abbrev LargeBuffer := FixedBuffer kLargeBuffer

/-- Where the backend thread is. -/
inductive Pc
  /-- Before `running_` is read. -/
  | check
  /-- Before the mutex is locked. -/
  | lock
  /-- In `wait_for`, while the mutex is not locked. -/
  | wait
  /-- Before the `i`th buffer is written. -/
  | write (i : ℕ)
  /-- Before the buffers are refilled. -/
  | refill
  | done
deriving DecidableEq

/-- `AsyncLoggingDoubleBuffering`, with the variables of its backend thread. -/
structure AsyncLogging where
  running : Bool := true
  currentBuffer : Option LargeBuffer := some .init
  nextBuffer : Option LargeBuffer := some .init
  buffers : List (Option LargeBuffer) := []
  pc : Pc := .check
  /-- The variable declared before the loop, as the next one. -/
  newBuffer1 : Option LargeBuffer := some .init
  newBuffer2 : Option LargeBuffer := some .init
  buffersToWrite : List (Option LargeBuffer) := []
  /-- What the log file has been given. -/
  output : List UInt8 := []
  /-- The lines whose `append` has returned. -/
  lines : List (List UInt8) := []

/-- A buffer is used through a null pointer. -/
inductive NullBuffer
  | nullBuffer
deriving DecidableEq

namespace AsyncLogging

/-! ## Steps -/

/-- `append`, which has the mutex locked. -/
def append (q : AsyncLogging) (logline : List UInt8) : Except NullBuffer AsyncLogging :=
  match q.currentBuffer with
  | none => .error .nullBuffer
  | some current =>
    let q := { q with lines := q.lines ++ [logline] }
    if logline.length < current.avail then
      .ok { q with currentBuffer := some (current.append logline) }
    else
      let q := { q with buffers := q.buffers ++ [some current] }
      match q.nextBuffer with
      | some next => .ok { q with currentBuffer := some (next.append logline), nextBuffer := none }
      | none => .ok { q with currentBuffer := some (FixedBuffer.append .init logline) }

/-- The first part of `stop`; it returns when the backend is done. -/
def stop (q : AsyncLogging) : AsyncLogging := { q with running := false }

/-- The end of the critical zone. -/
def swap (q : AsyncLogging) : AsyncLogging :=
  let buffers := q.buffers ++ [q.currentBuffer]
  let q := { q with
    currentBuffer := q.newBuffer1, newBuffer1 := none
    buffersToWrite := buffers, buffers := q.buffersToWrite, pc := .write 0 }
  match q.nextBuffer with
  | some _ => q
  | none => { q with nextBuffer := q.newBuffer2, newBuffer2 := none }

/-- A step of the backend. A wait may end at any time. -/
def threadFunc (q : AsyncLogging) : Except NullBuffer AsyncLogging :=
  match q.pc with
  | .check => .ok { q with pc := if q.running then .lock else .done }
  | .lock => .ok (if q.buffers.isEmpty then { q with pc := .wait } else q.swap)
  | .wait => .ok q.swap
  | .write i =>
    match q.buffersToWrite[i]? with
    | none => .ok { q with buffersToWrite := [], pc := .refill }
    | some none => .error .nullBuffer
    | some (some buffer) => .ok { q with output := q.output ++ buffer.data, pc := .write (i + 1) }
  -- the buffers that are created here are declared in the loop, and are gone at its end
  | .refill => .ok { q with pc := .check }
  | .done => .ok q

inductive Event
  | append (logline : List UInt8)
  | threadFunc
  | stop
deriving DecidableEq

def step (q : AsyncLogging) : Event → Except NullBuffer AsyncLogging
  | .append logline => q.append logline
  | .threadFunc => q.threadFunc
  | .stop => .ok q.stop

/-- Lines are shorter than a buffer, and `stop` is called once. -/
def Enabled (q : AsyncLogging) : Event → Prop
  | .append logline => logline.length < kLargeBuffer
  | .threadFunc => q.pc ≠ .done
  | .stop => q.running = true

instance (q : AsyncLogging) (e : Event) : Decidable (q.Enabled e) :=
  match e with
  | .append logline => inferInstanceAs (Decidable (logline.length < kLargeBuffer))
  | .threadFunc => inferInstanceAs (Decidable (q.pc ≠ .done))
  | .stop => inferInstanceAs (Decidable (q.running = true))

/-- The logger after `start`. -/
def machine : Machine AsyncLogging Event NullBuffer where
  init q := q = {}
  enabled := Enabled
  step := step

instance (q : AsyncLogging) (e : Event) : Decidable (machine.enabled q e) :=
  inferInstanceAs (Decidable (q.Enabled e))

/-! ## Where the lines are -/

/-- The bytes in a buffer, if there is one. -/
def content : Option LargeBuffer → List UInt8
  | none => []
  | some buffer => buffer.data

def contents (buffers : List (Option LargeBuffer)) : List UInt8 := buffers.flatMap content

/-- The number of buffers that have been written in this iteration. -/
def written (q : AsyncLogging) : ℕ :=
  match q.pc with
  | .write i => i
  | _ => 0

/-- The bytes that the backend has still to write. -/
def unwritten (q : AsyncLogging) : List UInt8 := contents (q.buffersToWrite.drop q.written)

/-- The bytes that the backend has not taken. -/
def pending (q : AsyncLogging) : List UInt8 := contents q.buffers ++ content q.currentBuffer

/-- The backend takes the current buffer in its next step. -/
def Swaps (q : AsyncLogging) : Prop := q.pc = .wait ∨ q.pc = .lock ∧ q.buffers ≠ []

instance (q : AsyncLogging) : Decidable q.Swaps := inferInstanceAs (Decidable (_ ∨ _))

variable {q q' : AsyncLogging} {logline : List UInt8}

theorem contents_append (buffers buffers' : List (Option LargeBuffer)) :
    contents (buffers ++ buffers') = contents buffers ++ contents buffers' :=
  List.flatMap_append

theorem contents_singleton (buffer : Option LargeBuffer) : contents [buffer] = content buffer :=
  List.append_nil _

/-- What a swap does. -/
structure Swapped (q q' : AsyncLogging) : Prop where
  pc : q'.pc = .write 0
  buffersToWrite : q'.buffersToWrite = q.buffers ++ [q.currentBuffer]
  buffers : q'.buffers = q.buffersToWrite
  currentBuffer : q'.currentBuffer = q.newBuffer1
  newBuffer1 : q'.newBuffer1 = none
  spare : (q'.nextBuffer = q.nextBuffer ∧ q'.newBuffer2 = q.newBuffer2) ∨
    (q'.nextBuffer = q.newBuffer2 ∧ q'.newBuffer2 = none)
  output : q'.output = q.output
  lines : q'.lines = q.lines
  running : q'.running = q.running

theorem swapped_swap (q : AsyncLogging) : q.Swapped q.swap := by
  unfold swap
  dsimp only
  split
  · exact ⟨rfl, rfl, rfl, rfl, rfl, .inl ⟨rfl, rfl⟩, rfl, rfl, rfl⟩
  · exact ⟨rfl, rfl, rfl, rfl, rfl, .inr ⟨rfl, rfl⟩, rfl, rfl, rfl⟩

/-- The bytes that were pending are taken. -/
theorem Swapped.unwritten (h : q.Swapped q') : q'.unwritten = q.pending := by
  rw [AsyncLogging.unwritten, h.buffersToWrite, written, h.pc, List.drop_zero, contents_append,
    contents_singleton, pending]

/-- What a call of `append` does. -/
structure Appended (logline : List UInt8) (q q' : AsyncLogging) : Prop where
  currentBuffer : q'.currentBuffer ≠ none
  pending : q'.pending = q.pending ++ logline
  nextBuffer : content q'.nextBuffer = []
  pc : q'.pc = q.pc
  newBuffer1 : q'.newBuffer1 = q.newBuffer1
  newBuffer2 : q'.newBuffer2 = q.newBuffer2
  buffersToWrite : q'.buffersToWrite = q.buffersToWrite
  output : q'.output = q.output
  lines : q'.lines = q.lines ++ [logline]
  running : q'.running = q.running

theorem appended_append (hnext : content q.nextBuffer = []) (hlen : logline.length < kLargeBuffer)
    (hs : q.append logline = .ok q') : Appended logline q q' := by
  unfold append at hs
  split at hs
  · cases hs
  next current hcurrent =>
  have hpending : q.pending = contents q.buffers ++ current.data := by
    rw [pending, hcurrent, content]
  dsimp only at hs
  split_ifs at hs with havail
  · obtain rfl := Except.ok.inj hs
    refine ⟨Option.some_ne_none _, ?_, hnext, rfl, rfl, rfl, rfl, rfl, rfl, rfl⟩
    rw [hpending, List.append_assoc, ← FixedBuffer.data_append havail]
    rfl
  · split at hs
    · next next hnext' =>
      obtain rfl := Except.ok.inj hs
      refine ⟨Option.some_ne_none _, ?_, rfl, rfl, rfl, rfl, rfl, rfl, rfl, rfl⟩
      have hempty : next.data = [] := by
        rw [hnext'] at hnext
        exact hnext
      have hroom : logline.length < next.avail := by
        rw [FixedBuffer.avail, hempty]
        exact hlen
      rw [hpending, pending, contents_append, contents_singleton]
      simp only [content, FixedBuffer.data_append hroom, hempty, List.nil_append]
    · next hnone =>
      obtain rfl := Except.ok.inj hs
      refine ⟨Option.some_ne_none _, ?_, ?_, rfl, rfl, rfl, rfl, rfl, rfl, rfl⟩
      · rw [hpending, pending, contents_append, contents_singleton]
        simp only [content, FixedBuffer.data_append_init hlen]
      · rw [hnone]
        rfl

/-- What a step of the backend does. -/
inductive BackendStep (q : AsyncLogging) : AsyncLogging → Prop
  | check (hpc : q.pc = .check) :
      BackendStep q { q with pc := if q.running then .lock else .done }
  | wait (hpc : q.pc = .lock) (hbuffers : q.buffers = []) : BackendStep q { q with pc := .wait }
  | swap {q' : AsyncLogging} (hswaps : q.Swaps) (h : q.Swapped q') : BackendStep q q'
  | write {i : ℕ} {buffer : LargeBuffer} (hpc : q.pc = .write i)
      (hbuffer : q.buffersToWrite[i]? = some (some buffer)) :
      BackendStep q { q with output := q.output ++ buffer.data, pc := .write (i + 1) }
  | clear {i : ℕ} (hpc : q.pc = .write i) (hend : q.buffersToWrite[i]? = none) :
      BackendStep q { q with buffersToWrite := [], pc := .refill }
  | refill (hpc : q.pc = .refill) : BackendStep q { q with pc := .check }

theorem backendStep_threadFunc (hdone : q.pc ≠ .done) (hs : q.threadFunc = .ok q') :
    BackendStep q q' := by
  cases hpc : q.pc with
  | check =>
    simp only [threadFunc, hpc] at hs
    obtain rfl := Except.ok.inj hs
    exact .check hpc
  | lock =>
    simp only [threadFunc, hpc] at hs
    obtain rfl := Except.ok.inj hs
    split_ifs with hempty
    · exact .wait hpc (List.isEmpty_iff.mp hempty)
    · exact .swap (.inr ⟨hpc, fun hnil => hempty (List.isEmpty_iff.mpr hnil)⟩) (swapped_swap q)
  | wait =>
    simp only [threadFunc, hpc] at hs
    obtain rfl := Except.ok.inj hs
    exact .swap (.inl hpc) (swapped_swap q)
  | write i =>
    simp only [threadFunc, hpc] at hs
    split at hs
    · next hend =>
      obtain rfl := Except.ok.inj hs
      exact .clear hpc hend
    · cases hs
    · next buffer hbuffer =>
      obtain rfl := Except.ok.inj hs
      exact .write hpc hbuffer
  | refill =>
    simp only [threadFunc, hpc] at hs
    obtain rfl := Except.ok.inj hs
    exact .refill hpc
  | done => exact absurd hpc hdone

theorem Swaps.not_write (h : q.Swaps) (i : ℕ) : q.pc ≠ .write i := by
  rcases h with hpc | ⟨hpc, -⟩
  · simp [hpc]
  · simp [hpc]

theorem backendStep_not_swaps (hs : BackendStep q q') (hswaps : ¬q.Swaps) :
    q'.currentBuffer = q.currentBuffer := by
  cases hs with
  | swap h => exact absurd h hswaps
  | check | wait | write | clear | refill => rfl

theorem backendStep_swaps (hs : BackendStep q q') (hswaps : q.Swaps) : q.Swapped q' := by
  cases hs with
  | swap _ hq => exact hq
  | check hpc | write hpc | clear hpc | refill hpc =>
    rcases hswaps with h | ⟨h, -⟩ <;> simp [hpc] at h
  | wait hpc hbuffers =>
    rcases hswaps with h | ⟨-, h⟩
    · simp [hpc] at h
    · exact absurd hbuffers h

end AsyncLogging

end CodingDemo.Libcpp
