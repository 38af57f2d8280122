import CodingDemo.Io.SizedBuffer
import Mathlib.Data.List.TakeDrop

/-!
# The UDP server

A `UdpServer` receives each datagram at the end of its input buffer, into the room that is left
there, and calls the message callback. The kernel discards what does not fit. A callback that
retrieves the readable bytes does not give the room back; one that retrieves all does.

## Main definitions

* `UdpServer`: the input buffer, with the datagrams that arrived and what the callbacks saw
* `Consume`: the ways in which a callback consumes everything readable
* `handleRead`: one datagram
* `UdpServer.machine`: the runs of the server
* `Fits`: the datagrams since the buffer has last been reset fit into it together

## Main results

* `messages_eq_iff_fits`: the callbacks see the datagrams exactly when they fit
-/

namespace CodingDemo.Libcpp

/-- How a callback consumes everything readable. -/
inductive Consume
  /-- `buf->retrieve(buf->readableBytes())` -/
  | retrieve
  | retrieveAll
  | retrieveAsString
  deriving DecidableEq

/-- The room that has been given away after a callback, if `used` bytes of it were before. -/
def Consume.used : Consume → ℕ → ℕ
  | .retrieve, used => used
  | .retrieveAll, _ => 0
  | .retrieveAsString, _ => 0

structure UdpServer where
  inputBuffer : Buffer
  /-- The datagrams that have been received. -/
  datagrams : List (List UInt8)
  /-- The readable bytes at each callback. -/
  messages : List (List UInt8)

namespace UdpServer

def init : UdpServer where
  inputBuffer := Buffer.init
  datagrams := []
  messages := []

/-- The first `len` bytes of the datagram; the rest is lost. -/
def recvfrom (datagram : List UInt8) (len : ℕ) : List UInt8 := datagram.take len

/-- The message callback. -/
def messageCallback (consume : Consume) (b : Buffer) : Except BufferFault Buffer :=
  match consume with
  | .retrieve =>
    match b.retrieve b.readableBytes with
    | some b => .ok b
    | none => .error .assertion
  | .retrieveAll => .ok b.retrieveAll
  | .retrieveAsString => .ok b.retrieveAll

/-- A datagram is received, or `recvfrom` fails. -/
def handleRead (q : UdpServer) : Option (List UInt8 × Consume) → Except BufferFault UdpServer
  | none => .ok q
  | some (datagram, consume) =>
    let writable := q.inputBuffer.writableBytes
    -- the kernel discards the bytes beyond `writable`
    let data := recvfrom datagram writable
    if h : data.length ≤ writable then
      let buf := q.inputBuffer.write data h
      match messageCallback consume buf with
      | .ok inputBuffer =>
        .ok
          { inputBuffer
            datagrams := q.datagrams ++ [datagram]
            messages := q.messages ++ [buf.bytes] }
      | .error f => .error f
    else .ok { q with datagrams := q.datagrams ++ [datagram] }

/-- The result of `recvfrom`, and what the callback then does. -/
abbrev Event := Option (List UInt8 × Consume)

/-- No datagram is larger than the buffer. -/
def Enabled : Event → Prop
  | none => True
  | some (datagram, _) => datagram.length ≤ kInitialSize

theorem enabled_some {datagram : List UInt8} {consume : Consume} :
    Enabled (some (datagram, consume)) ↔ datagram.length ≤ kInitialSize := Iff.rfl

def machine : Machine UdpServer Event BufferFault where
  init q := q = init
  enabled _ := Enabled
  step := handleRead

instance (q : UdpServer) (e : Event) : Decidable (machine.enabled q e) :=
  match e with
  | none => isTrue trivial
  | some (datagram, _) => inferInstanceAs (Decidable (datagram.length ≤ kInitialSize))

/-! ## What one datagram does -/

/-- Nothing is readable, and `used` bytes of the room at the end have been given away. -/
structure Drained (q : UdpServer) (used : ℕ) : Prop where
  bytes : q.inputBuffer.bytes = []
  length : q.inputBuffer.buffer.length = kCheapPrepend + kInitialSize
  writerIndex : q.inputBuffer.writerIndex = kCheapPrepend + used

theorem drained_init : init.Drained 0 := ⟨Buffer.bytes_init, List.length_replicate, rfl⟩

variable {q q' : UdpServer} {used : ℕ} {datagram : List UInt8} {consume : Consume}

theorem Drained.writableBytes (h : q.Drained used) :
    q.inputBuffer.writableBytes = kInitialSize - used := by
  rw [Buffer.writableBytes, h.length, h.writerIndex, Nat.add_sub_add_left]

theorem Drained.used_le (h : q.Drained used) : used ≤ kInitialSize := by
  have hle := q.inputBuffer.writer_le
  rw [h.length, h.writerIndex] at hle
  exact Nat.le_of_add_le_add_left hle

/-- The callback leaves nothing to read. -/
theorem exists_messageCallback (consume : Consume) {b : Buffer}
    (hw : b.writerIndex = kCheapPrepend + used) :
    ∃ b', messageCallback consume b = .ok b' ∧ b'.bytes = [] ∧ b'.buffer = b.buffer ∧
      b'.writerIndex = kCheapPrepend + consume.used used := by
  cases consume with
  | retrieve =>
    have hret : b.retrieve b.readableBytes = some _ := dif_pos le_rfl
    simp only [messageCallback, hret]
    refine ⟨_, rfl, ?_, rfl, hw⟩
    -- the reader index moves to the writer index, and both stay there
    have hend : b.readerIndex + b.readableBytes = b.writerIndex := Nat.add_sub_cancel' b.reader_le
    show slice b.buffer (b.readerIndex + b.readableBytes) b.writerIndex = []
    rw [hend]
    exact slice_self _ _
  | retrieveAll => exact ⟨_, rfl, Buffer.bytes_retrieveAll b, rfl, rfl⟩
  | retrieveAsString => exact ⟨_, rfl, Buffer.bytes_retrieveAll b, rfl, rfl⟩

/-- The callback sees the part of the datagram that fits, and consumes it. -/
theorem Drained.exists_handleRead (h : q.Drained used) (datagram : List UInt8)
    (consume : Consume) :
    ∃ q', q.handleRead (some (datagram, consume)) = .ok q' ∧
      q'.datagrams = q.datagrams ++ [datagram] ∧
      q'.messages = q.messages ++ [datagram.take (kInitialSize - used)] ∧
      q'.Drained (consume.used (used + (datagram.take (kInitialSize - used)).length)) := by
  have hfit : (recvfrom datagram q.inputBuffer.writableBytes).length ≤
      q.inputBuffer.writableBytes := List.length_take_le _ _
  have hw : (q.inputBuffer.write _ hfit).writerIndex =
      kCheapPrepend + (used + (datagram.take (kInitialSize - used)).length) := by
    show q.inputBuffer.writerIndex + (recvfrom datagram _).length = _
    rw [h.writerIndex, h.writableBytes, recvfrom, Nat.add_assoc]
  have hlen : (q.inputBuffer.write _ hfit).buffer.length = kCheapPrepend + kInitialSize := by
    have hle := q.inputBuffer.writer_le
    refine (length_overwrite ?_).trans h.length
    exact (Nat.add_le_add_left hfit _).trans (Nat.add_sub_of_le hle).le
  have hbytes : (q.inputBuffer.write _ hfit).bytes = datagram.take (kInitialSize - used) := by
    rw [Buffer.bytes_write, h.bytes, List.nil_append, h.writableBytes, recvfrom]
  obtain ⟨b', hcall, hempty, hbuffer, hw'⟩ := exists_messageCallback consume hw
  refine ⟨_, by simp only [handleRead, dif_pos hfit, hcall]; rfl, rfl, ?_, hempty, ?_, hw'⟩
  · exact congrArg (q.messages ++ [·]) hbytes
  · exact (congrArg List.length hbuffer).trans hlen

/-! ## Whole runs -/

/-- Each datagram fits into the room that is left; `used` bytes of it have been given away. -/
def Fits : ℕ → List Event → Prop
  | _, [] => True
  | used, none :: es => Fits used es
  | used, some (datagram, consume) :: es =>
    used + datagram.length ≤ kInitialSize ∧ Fits (consume.used (used + datagram.length)) es

/-- From a drained buffer, the callbacks of a run see the datagrams if these fit. -/
theorem Drained.run (h : q.Drained used) {es : List Event} (hr : machine.Run q es q') :
    q'.messages = q'.datagrams ↔ q.messages = q.datagrams ∧ Fits used es := by
  induction hr generalizing used with
  | nil => exact (and_iff_left trivial).symm
  | @cons q q₁ q₂ e es he hs hr ih =>
    match e with
    | none =>
      obtain rfl : q = q₁ := Except.ok.inj hs
      exact ih h
    | some (datagram, consume) =>
      obtain ⟨_, hs', hdatagrams, hmessages, hdrained⟩ := h.exists_handleRead datagram consume
      obtain rfl := Except.ok.inj (hs.symm.trans hs')
      have hroom : used ≤ kInitialSize := h.used_le
      -- the first datagram is seen whole if it fits, and the rest of the run decides on the others
      rw [ih hdrained, hdatagrams, hmessages, List.append_singleton_inj, and_assoc]
      refine and_congr_right fun _ => ?_
      rw [List.take_eq_self_iff, Fits]
      constructor
      · rintro ⟨hle, hrest⟩
        rw [List.take_of_length_le hle] at hrest
        exact ⟨by omega, hrest⟩
      · rintro ⟨hle, hrest⟩
        have hle : datagram.length ≤ kInitialSize - used := by omega
        rw [List.take_of_length_le hle]
        exact ⟨hle, hrest⟩

/-- No callback fails an assertion. -/
theorem Drained.exists_run (h : q.Drained used) {es : List Event} (he : ∀ e ∈ es, Enabled e) :
    ∃ q', machine.Run q es q' := by
  induction es generalizing q used with
  | nil => exact ⟨q, .nil q⟩
  | cons e es ih =>
    have hrest : ∀ e' ∈ es, Enabled e' := fun e' hmem => he e' (List.mem_cons_of_mem e hmem)
    match e with
    | none =>
      obtain ⟨q', hr⟩ := ih h hrest
      exact ⟨q', .cons (he none List.mem_cons_self) rfl hr⟩
    | some (datagram, consume) =>
      obtain ⟨q₁, hs, -, -, h₁⟩ := h.exists_handleRead datagram consume
      obtain ⟨q', hr⟩ := ih h₁ hrest
      exact ⟨q', .cons (he _ List.mem_cons_self) hs hr⟩

/-- A datagram as large as the buffer is consumed by `retrieve`, and the next one is lost. -/
theorem exists_messages_ne :
    ∃ q, machine.Run init
      [some (List.replicate kInitialSize 1, .retrieve), some ([2], .retrieve)] q ∧
      q.messages ≠ q.datagrams := by
  have henabled : ∀ e ∈ [some (List.replicate kInitialSize 1, .retrieve), some ([2], .retrieve)],
      Enabled e :=
    List.forall_mem_cons.mpr ⟨List.length_replicate.le, by simp [enabled_some, kInitialSize]⟩
  obtain ⟨q, hr⟩ := drained_init.exists_run henabled
  refine ⟨q, hr, fun heq => ?_⟩
  obtain ⟨-, hlast, -⟩ := ((drained_init.run hr).mp heq).2
  rw [List.length_replicate] at hlast
  exact absurd hlast (by decide)

/-- **Each callback sees its datagram** exactly when the datagrams fit into the room that the
callbacks leave. -/
theorem messages_eq_iff_fits {es : List Event} (hr : machine.Run init es q) :
    q.messages = q.datagrams ↔ Fits 0 es :=
  (drained_init.run hr).trans (and_iff_right rfl)

/-- Two datagrams, of which the second follows the first in the buffer. -/
theorem messages_eq_iff_fits_two : ∃ q, machine.Run init
    [some ([1, 2], .retrieve), some ([3], .retrieveAll)] q ∧ q.messages = q.datagrams := by
  have henabled : ∀ e ∈ [some ([1, 2], .retrieve), some ([3], .retrieveAll)], Enabled e := by
    simp [enabled_some, kInitialSize]
  obtain ⟨q, hr⟩ := drained_init.exists_run henabled
  exact ⟨q, hr, (messages_eq_iff_fits hr).mpr (by simp [Fits, Consume.used, kInitialSize])⟩

end UdpServer

end CodingDemo.Libcpp
