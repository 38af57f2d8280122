import CodingDemo.Container.Slice
import CodingDemo.Machine.Run
import Mathlib.Data.BitVec

/-!
# The datagram buffers

The KCP layer receives a datagram into a `FixedBuffer`, and so do the server and the client with the
messages of the KCP stack. The cursor of the buffer is moved by the count that the call has
returned, whatever it is: a datagram may be larger than the buffer, and the stack returns negative
codes.

## Main definitions

* `DatagramBuffer`: the array and the cursor of a `FixedBuffer`
* `recvUdpMsg`, `KcpServer.handleRead`, `KcpClient.handleRead`: the functions that move the cursor
* `Datagrams.machine`: the runs of the three buffers
* `InBounds`: the cursor is in the array
* `Counts`: the condition on what is received

## Main results

* `string_ne_none_iff`: the bytes before the cursor can be read exactly when it is in the array
* `inBounds_iff_counts`: in which runs the cursors stay in the arrays
-/

namespace CodingDemo.Libcpp

def kPacketBuffer : ℕ := 1500

/-- The size of `extrabuf`. -/
def kExtraBuffer : ℕ := 65536

/-- A `FixedBuffer` of `kPacketBuffer` bytes as it is in memory. -/
structure DatagramBuffer where
  data : List UInt8
  /-- The distance `cur_ - data_`. -/
  cur : BitVec 64
  length_data : data.length = kPacketBuffer

/-- What `ikcp_recv` returns for a buffer of `kPacketBuffer` bytes. -/
inductive IkcpRecv
  /-- No segment has been received. -/
  | empty
  /-- The fragments of the next message are not complete. -/
  | incomplete
  /-- The next message is larger than the buffer. -/
  | tooLarge
  | message (bytes : List UInt8) (length_le : bytes.length ≤ kPacketBuffer)

/-- The result of type `int`. -/
def IkcpRecv.value : IkcpRecv → ℤ
  | .empty => -1
  | .incomplete => -2
  | .tooLarge => -3
  | .message bytes _ => bytes.length

namespace DatagramBuffer

/-! ## The functions -/

/-- `length()`, of type `int`. -/
def length (b : DatagramBuffer) : ℤ := (b.cur.setWidth 32).toInt

/-- `avail()`, of type `int`. -/
def avail (b : DatagramBuffer) : ℤ := ((BitVec.ofNat 64 kPacketBuffer - b.cur).setWidth 32).toInt

/-- `add(n)`; a negative count becomes a value of `size_t`. -/
def add (b : DatagramBuffer) (n : ℤ) : DatagramBuffer :=
  { b with cur := b.cur + BitVec.ofInt 64 n }

def reset (b : DatagramBuffer) : DatagramBuffer := { b with cur := 0 }

/-- Bytes are written from the cursor on. -/
def writeCurrent (b : DatagramBuffer) (bytes : List UInt8)
    (h : b.cur.toNat + bytes.length ≤ kPacketBuffer) : DatagramBuffer where
  data := overwrite b.data b.cur.toNat bytes
  cur := b.cur
  length_data := (length_overwrite (h.trans_eq b.length_data.symm)).trans b.length_data

/-- `string()`, unless it would read outside of the array. -/
def string (b : DatagramBuffer) : Option (List UInt8) :=
  if 0 ≤ b.length ∧ b.length ≤ b.data.length then some (b.data.take b.length.toNat) else none

variable {b : DatagramBuffer} {bytes : List UInt8} {n : ℤ}

@[simp] theorem cur_reset : b.reset.cur = 0 := rfl

theorem avail_reset : b.reset.avail = kPacketBuffer := by
  rw [avail, cur_reset]
  decide

theorem room_reset (h : bytes.length ≤ kPacketBuffer) :
    b.reset.cur.toNat + bytes.length ≤ kPacketBuffer := by
  rw [cur_reset]
  exact (Nat.zero_add _).trans_le h

theorem length_take_avail_reset (payload : List UInt8) :
    (payload.take b.reset.avail.toNat).length ≤ kPacketBuffer := by
  rw [avail_reset]
  exact List.length_take_le _ _

/-- The datagram that `recvmsg` has read, if any; what does not fit into the buffer is in the extra
buffer. -/
def recvUdpMsg (b : DatagramBuffer) (payload : Option (List UInt8)) : DatagramBuffer :=
  match payload with
  | none => b.reset
  | some payload =>
    let writable := b.reset.avail
    let b := b.reset.writeCurrent (payload.take writable.toNat)
      (room_reset (length_take_avail_reset payload))
    -- the count is the same in both branches
    if payload.length ≤ writable then b.add payload.length
    else b.add payload.length

/-- The handler of the server and of the client, up to the call of `onMessage`. -/
def handleRead (b : DatagramBuffer) (r : IkcpRecv) : DatagramBuffer :=
  let b := b.reset
  let written := match r with
    | .message bytes h => b.writeCurrent bytes (room_reset h)
    | _ => b
  written.add r.value

end DatagramBuffer

def KcpServer.handleRead : DatagramBuffer → IkcpRecv → DatagramBuffer := DatagramBuffer.handleRead

def KcpClient.handleRead : DatagramBuffer → IkcpRecv → DatagramBuffer := DatagramBuffer.handleRead

namespace DatagramBuffer

/-! ## The cursor -/

/-- The cursor is in the array. -/
def InBounds (b : DatagramBuffer) : Prop := 0 ≤ b.length ∧ b.length ≤ kPacketBuffer

variable {b : DatagramBuffer} {n : ℤ}

/-- The bytes before the cursor can be read exactly when it is in the array. -/
theorem string_ne_none_iff : b.string ≠ none ↔ b.InBounds := by
  unfold string InBounds
  rw [b.length_data]
  split_ifs with h
  · exact iff_of_true (Option.some_ne_none _) h
  · exact iff_of_false (not_not.mpr rfl) h

/-- A count that fits into an `int` is the length of a buffer that has been reset. -/
theorem length_add (hcur : b.cur = 0) (hmin : -2 ^ 31 ≤ n) (hmax : n < 2 ^ 31) :
    (b.add n).length = n := by
  have hadd : (b.add n).cur = BitVec.ofInt 64 n := by
    show b.cur + BitVec.ofInt 64 n = _
    rw [hcur]
    exact BitVec.zero_add _
  rw [length, hadd, BitVec.toInt_setWidth, BitVec.toNat_ofInt]
  have hcast : ((n % (2 ^ 64 : ℕ)).toNat : ℤ) = n % 2 ^ 64 :=
    Int.toNat_of_nonneg (Int.emod_nonneg n (by decide))
  rw [hcast, Int.bmod_def]
  split <;> omega

theorem length_recvUdpMsg {payload : List UInt8}
    (h : payload.length ≤ kPacketBuffer + kExtraBuffer) :
    (b.recvUdpMsg (some payload)).length = payload.length := by
  have hcount : kPacketBuffer + kExtraBuffer < 2 ^ 31 := by decide
  simp only [recvUdpMsg, ite_self]
  exact length_add rfl (by omega) (by omega)

theorem value_bounds (r : IkcpRecv) : -3 ≤ r.value ∧ r.value ≤ kPacketBuffer := by
  cases r with
  | message bytes h =>
    exact ⟨(Int.natCast_nonneg bytes.length).trans' (by decide), Int.ofNat_le.mpr h⟩
  | _ => exact ⟨by decide, by decide⟩

theorem length_handleRead (r : IkcpRecv) : (b.handleRead r).length = r.value := by
  obtain ⟨hmin, hmax⟩ := value_bounds r
  have hsize : (kPacketBuffer : ℤ) < 2 ^ 31 := by decide
  cases r with
  | message bytes h => exact length_add rfl (by omega) (by omega)
  | _ => exact length_add rfl (by omega) (by omega)

end DatagramBuffer

/-! ## The runs -/

/-- The buffer of the KCP layer, and those of a server and a client. -/
structure Datagrams where
  layer : DatagramBuffer
  server : DatagramBuffer
  client : DatagramBuffer

namespace Datagrams

open DatagramBuffer

inductive Event
  | recvUdpMsg (payload : Option (List UInt8))
  | serverRead (r : IkcpRecv)
  | clientRead (r : IkcpRecv)

/-- `recvmsg` returns at most what fits into the two buffers it is given. -/
def Enabled : Event → Prop
  | .recvUdpMsg (some payload) => payload.length ≤ kPacketBuffer + kExtraBuffer
  | _ => True

def step (s : Datagrams) : Event → Datagrams
  | .recvUdpMsg payload => { s with layer := s.layer.recvUdpMsg payload }
  | .serverRead r => { s with server := KcpServer.handleRead s.server r }
  | .clientRead r => { s with client := KcpClient.handleRead s.client r }

/-- The cursors are at the start of the arrays at first. -/
def machine : Machine Datagrams Event Empty where
  init s := s.layer.cur = 0 ∧ s.server.cur = 0 ∧ s.client.cur = 0
  enabled _ := Enabled
  step s e := .ok (s.step e)

/-- No cursor has left its array. -/
structure InBounds (s : Datagrams) : Prop where
  layer : s.layer.InBounds
  server : s.server.InBounds
  client : s.client.InBounds

/-- The count that moves a cursor is not negative, and not larger than the array. -/
def Counts : Event → Prop
  | .recvUdpMsg (some payload) => payload.length ≤ kPacketBuffer
  | .recvUdpMsg none => True
  | .serverRead r => 0 ≤ r.value
  | .clientRead r => 0 ≤ r.value

variable {s s' : Datagrams} {e : Event}

theorem inBounds_of_cur {b : DatagramBuffer} (h : b.cur = 0) : b.InBounds := by
  have hlength : b.length = 0 := by
    rw [length, h]
    rfl
  rw [DatagramBuffer.InBounds, hlength]
  exact ⟨le_rfl, Int.natCast_nonneg _⟩

theorem inBounds_init (h : machine.init s) : s.InBounds where
  layer := inBounds_of_cur h.1
  server := inBounds_of_cur h.2.1
  client := inBounds_of_cur h.2.2

theorem inBounds_handleRead_iff {b : DatagramBuffer} (r : IkcpRecv) :
    (b.handleRead r).InBounds ↔ 0 ≤ r.value := by
  rw [DatagramBuffer.InBounds, length_handleRead]
  exact and_iff_left (value_bounds r).2

/-- A call moves the cursor of its own buffer only, to the count. -/
theorem inBounds_step_iff (h : s.InBounds) (he : Enabled e) : (s.step e).InBounds ↔ Counts e := by
  cases e with
  | recvUdpMsg payload =>
    have hiff : (s.step (.recvUdpMsg payload)).InBounds ↔ (s.layer.recvUdpMsg payload).InBounds :=
      ⟨InBounds.layer, fun hlayer => ⟨hlayer, h.server, h.client⟩⟩
    rw [hiff]
    cases payload with
    | none => exact iff_of_true (inBounds_of_cur rfl) trivial
    | some payload =>
      rw [DatagramBuffer.InBounds, length_recvUdpMsg he, Counts, Int.ofNat_le]
      exact and_iff_right (Int.natCast_nonneg _)
  | serverRead r =>
    have hiff : (s.step (.serverRead r)).InBounds ↔ (s.server.handleRead r).InBounds :=
      ⟨InBounds.server, fun hserver => ⟨h.layer, hserver, h.client⟩⟩
    rw [hiff]
    exact inBounds_handleRead_iff r
  | clientRead r =>
    have hiff : (s.step (.clientRead r)).InBounds ↔ (s.client.handleRead r).InBounds :=
      ⟨InBounds.client, fun hclient => ⟨h.layer, h.server, hclient⟩⟩
    rw [hiff]
    exact inBounds_handleRead_iff r

/-- **The datagram buffers stay in their storage** along exactly those runs in which no datagram is
larger than the buffer, and the KCP stack returns no error. -/
theorem inBounds_iff_counts {es : List Event} (hi : machine.init s) (hr : machine.Run s es s') :
    machine.Along InBounds s es ↔ (machine.guard fun _ => Counts).Run s es s' := by
  refine Machine.along_iff_run_guard (I := fun _ => True) (fun _ _ _ _ _ _ => trivial) ?_ hr trivial
    (inBounds_init hi)
  intro s e s' _ h he hs
  obtain rfl := Except.ok.inj hs
  exact inBounds_step_iff h he

/-- The buffers at first. -/
def zeros : DatagramBuffer where
  data := List.replicate kPacketBuffer 0
  cur := 0
  length_data := List.length_replicate

/-- A datagram with two acknowledgements notifies the server, and there is no message. -/
def acks : List Event := [.recvUdpMsg (some (List.replicate 48 0)), .serverRead .empty]

theorem run_acks : machine.Run ⟨zeros, zeros, zeros⟩ acks
    ((Datagrams.step ⟨zeros, zeros, zeros⟩ (.recvUdpMsg (some (List.replicate 48 0)))).step
      (.serverRead .empty)) :=
  .cons (by simp [machine, Enabled, kPacketBuffer, kExtraBuffer]) rfl (.cons trivial rfl (.nil _))

theorem exists_not_inBounds : ∃ s, machine.Run ⟨zeros, zeros, zeros⟩ acks s ∧ ¬s.InBounds := by
  refine ⟨_, run_acks, fun h => ?_⟩
  have hserver : 0 ≤ IkcpRecv.empty.value := (inBounds_handleRead_iff .empty).mp h.server
  exact absurd hserver (by decide)

/-- A datagram that fills the buffer. -/
theorem inBounds_iff_counts_full : machine.Along InBounds ⟨zeros, zeros, zeros⟩
    [.recvUdpMsg (some (List.replicate kPacketBuffer 0))] := by
  have hr : (machine.guard fun _ => Counts).Run ⟨zeros, zeros, zeros⟩
      [.recvUdpMsg (some (List.replicate kPacketBuffer 0))] _ :=
    .cons ⟨by simp [machine, Enabled], List.length_replicate.le⟩ rfl (.nil _)
  exact (inBounds_iff_counts ⟨rfl, rfl, rfl⟩ hr.of_guard).mpr hr

end Datagrams

end CodingDemo.Libcpp
