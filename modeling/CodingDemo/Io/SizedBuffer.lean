import CodingDemo.Io.Buffer
import CodingDemo.Machine.Run
import Mathlib.Algebra.Group.Nat.Defs

/-!
# The buffer with indices of a fixed size

The indices of a buffer, and the lengths it is asked for, are of type `size_t`: sums and differences
are taken modulo `2 ^ 64`. A `SizedBuffer` has the members as they are, without the order that the
type `Buffer` gives them. As long as no sum overflows, it does what the `Buffer` does.

## Main definitions

* `SizedBuffer`: the members, and the member functions with fixed-size arithmetic
* `Buffer.sized`: the members of a `Buffer`
* `BufferQueue.machine`: the runs of a buffer
* `Fifo`: the buffer is a queue of bytes
* `InRange`: the condition on the calls

## Main results

* `ensureWritableBytes_sized`: without an overflow, there is room in the end, as in a `Buffer`
* `ensureWritableBytes_overflow`: an overflow fails an assertion, or leaves the vector too short
* `fifo_iff_inRange`: in which runs the buffer is a queue
-/

namespace CodingDemo.Libcpp

/-- The number of values of a `size_t`. -/
def sizeCount : ℕ := 2 ^ 64

/-- The largest size of a vector of bytes. -/
def maxSize : ℕ := 2 ^ 63 - 1

inductive BufferFault
  | assertion
  /-- A vector is resized beyond its largest size. -/
  | lengthError
  deriving DecidableEq

structure SizedBuffer where
  buffer : List UInt8
  readerIndex : ℕ
  writerIndex : ℕ
  deriving DecidableEq

namespace SizedBuffer

/-- The difference of two values of `size_t`. -/
def subSize (m n : ℕ) : ℕ := (m + sizeCount - n) % sizeCount

def init : SizedBuffer where
  buffer := List.replicate (kCheapPrepend + kInitialSize) 0
  readerIndex := kCheapPrepend
  writerIndex := kCheapPrepend

def readableBytes (b : SizedBuffer) : ℕ := subSize b.writerIndex b.readerIndex

def writableBytes (b : SizedBuffer) : ℕ := subSize b.buffer.length b.writerIndex

def prependableBytes (b : SizedBuffer) : ℕ := b.readerIndex

/-- The readable bytes, those from `data()` on. -/
def bytes (b : SizedBuffer) : List UInt8 := slice b.buffer b.readerIndex b.writerIndex

def retrieve (b : SizedBuffer) (len : ℕ) : Except BufferFault SizedBuffer :=
  if len ≤ b.readableBytes then
    .ok { b with readerIndex := (b.readerIndex + len) % sizeCount }
  else .error .assertion

def retrieveAll (b : SizedBuffer) : SizedBuffer :=
  { b with readerIndex := kCheapPrepend, writerIndex := kCheapPrepend }

def retrieveAsString (b : SizedBuffer) : List UInt8 × SizedBuffer := (b.bytes, b.retrieveAll)

/-- The readable bytes are moved to the front. -/
def moveToFront (b : SizedBuffer) : SizedBuffer where
  buffer := overwrite b.buffer kCheapPrepend b.bytes
  readerIndex := kCheapPrepend
  writerIndex := (kCheapPrepend + b.readableBytes) % sizeCount

def makeSpace (b : SizedBuffer) (len : ℕ) : Except BufferFault SizedBuffer :=
  if (b.writableBytes + b.prependableBytes) % sizeCount < (len + kCheapPrepend) % sizeCount then
    let size := (b.writerIndex + len) % sizeCount
    if size ≤ maxSize then .ok { b with buffer := resize b.buffer size 0 }
    else .error .lengthError
  else if kCheapPrepend < b.readerIndex then
    let readable := b.readableBytes
    let b := b.moveToFront
    if readable = b.readableBytes then .ok b else .error .assertion
  else .error .assertion

def ensureWritableBytes (b : SizedBuffer) (len : ℕ) : Except BufferFault SizedBuffer := do
  let b ← if b.writableBytes < len then b.makeSpace len else pure b
  if len ≤ b.writableBytes then return b else throw .assertion

/-- Copy to `beginWrite()`, then `hasWritten`. -/
def write (b : SizedBuffer) (data : List UInt8) : SizedBuffer where
  buffer := overwrite b.buffer b.writerIndex data
  readerIndex := b.readerIndex
  writerIndex := (b.writerIndex + data.length) % sizeCount

def append (b : SizedBuffer) (data : List UInt8) : Except BufferFault SizedBuffer := do
  let b ← b.ensureWritableBytes data.length
  return b.write data

/-- `readv` delivers `data` to the vector and the extra buffer, or it fails. -/
def readFd (b : SizedBuffer) : Option (List UInt8) → Except BufferFault SizedBuffer
  | none => .ok b
  | some data =>
    let writable := b.writableBytes
    if data.length ≤ writable then .ok (b.write data)
    else
      let b : SizedBuffer :=
        { b with
          buffer := overwrite b.buffer b.writerIndex (data.take writable)
          writerIndex := b.buffer.length }
      b.append (data.drop writable)

end SizedBuffer

/-! ## The machine -/

/-- A buffer with what it has been given and what has been taken from it. -/
structure BufferQueue where
  buffer : SizedBuffer
  /-- All bytes appended or read. -/
  given : List UInt8
  /-- All bytes retrieved. -/
  taken : List UInt8

namespace BufferQueue

inductive Event
  | append (data : List UInt8)
  | ensureWritableBytes (len : ℕ)
  | retrieve (len : ℕ)
  | retrieveAll
  | retrieveAsString
  /-- The result of `readv`: the data, or an error. -/
  | readFd (result : Option (List UInt8))
  deriving DecidableEq

def init : BufferQueue where
  buffer := SizedBuffer.init
  given := []
  taken := []

/-- No object is larger than the largest vector, a length is a `size_t`, and `readv` does not
deliver more than there is room for. -/
def Enabled (q : BufferQueue) : Event → Prop
  | .append data => data.length ≤ maxSize
  | .ensureWritableBytes len => len < sizeCount
  | .retrieve len => len ≤ q.buffer.readableBytes
  | .readFd result => ∀ data ∈ result, data.length ≤ q.buffer.writableBytes + 65536
  | _ => True

instance (q : BufferQueue) : (e : Event) → Decidable (q.Enabled e)
  | .append data => inferInstanceAs (Decidable (data.length ≤ maxSize))
  | .ensureWritableBytes len => inferInstanceAs (Decidable (len < sizeCount))
  | .retrieve len => inferInstanceAs (Decidable (len ≤ q.buffer.readableBytes))
  | .readFd result => inferInstanceAs
      (Decidable (∀ data ∈ result, data.length ≤ q.buffer.writableBytes + 65536))
  | .retrieveAll | .retrieveAsString => isTrue trivial

def step (q : BufferQueue) : Event → Except BufferFault BufferQueue
  | .append data => do
    let b ← q.buffer.append data
    return { q with buffer := b, given := q.given ++ data }
  | .ensureWritableBytes len => do
    let b ← q.buffer.ensureWritableBytes len
    return { q with buffer := b }
  | .retrieve len => do
    let b ← q.buffer.retrieve len
    return { q with buffer := b, taken := q.taken ++ q.buffer.bytes.take len }
  | .retrieveAll =>
    .ok { q with buffer := q.buffer.retrieveAll, taken := q.taken ++ q.buffer.bytes }
  | .retrieveAsString =>
    let (str, b) := q.buffer.retrieveAsString
    .ok { q with buffer := b, taken := q.taken ++ str }
  | .readFd result => do
    let b ← q.buffer.readFd result
    return { q with buffer := b, given := q.given ++ result.getD [] }

/-- The runs of a buffer that has just been constructed. -/
def machine : Machine BufferQueue Event BufferFault where
  init q := q = init
  enabled := Enabled
  step := step

instance (q : BufferQueue) (e : Event) : Decidable (machine.enabled q e) :=
  inferInstanceAs (Decidable (q.Enabled e))

/-- The bytes that have been given are those that have been taken, and then the readable ones; and
the indices are in order. -/
structure Fifo (q : BufferQueue) : Prop where
  given : q.taken ++ q.buffer.bytes = q.given
  prepend_le : kCheapPrepend ≤ q.buffer.readerIndex
  reader_le : q.buffer.readerIndex ≤ q.buffer.writerIndex
  writer_le : q.buffer.writerIndex ≤ q.buffer.buffer.length

/-- The bytes for which there is to be room end at an index that is a `size_t`. -/
def InRange (q : BufferQueue) : Event → Prop
  | .ensureWritableBytes len => q.buffer.writerIndex + len < sizeCount
  | _ => True

instance (q : BufferQueue) : (e : Event) → Decidable (InRange q e)
  | .ensureWritableBytes len => inferInstanceAs (Decidable (q.buffer.writerIndex + len < sizeCount))
  | .append _ | .retrieve _ | .retrieveAll | .retrieveAsString | .readFd _ => isTrue trivial

instance (q : BufferQueue) (e : Event) : Decidable ((machine.guard InRange).enabled q e) :=
  inferInstanceAs (Decidable (q.Enabled e ∧ InRange q e))

end BufferQueue

/-! ## The buffer in memory -/

/-- The members of a buffer. -/
def Buffer.sized (b : Buffer) : SizedBuffer where
  buffer := b.buffer
  readerIndex := b.readerIndex
  writerIndex := b.writerIndex

/-- The vector is no larger than vectors can be. -/
def Buffer.Fits (b : Buffer) : Prop := b.buffer.length ≤ maxSize

namespace SizedBuffer

variable {b : Buffer} {len : ℕ} {data : List UInt8}

theorem subSize_of_le {m n : ℕ} (hnm : n ≤ m) (hm : m < sizeCount) : subSize m n = m - n := by
  unfold subSize
  rw [Nat.sub_add_comm hnm, Nat.add_mod_right, Nat.mod_eq_of_lt (by omega)]

theorem lt_sizeCount (hb : b.Fits) : b.buffer.length < sizeCount := by
  have hb : b.buffer.length ≤ 2 ^ 63 - 1 := hb
  unfold sizeCount
  omega

@[simp] theorem bytes_sized (b : Buffer) : b.sized.bytes = b.bytes := rfl

theorem readableBytes_sized (hb : b.Fits) : b.sized.readableBytes = b.readableBytes :=
  subSize_of_le b.reader_le (b.writer_le.trans_lt (lt_sizeCount hb))

theorem writableBytes_sized (hb : b.Fits) : b.sized.writableBytes = b.writableBytes :=
  subSize_of_le b.writer_le (lt_sizeCount hb)

theorem init_sized : Buffer.init.sized = init := rfl

theorem fits_init : Buffer.init.Fits := by
  unfold Buffer.Fits Buffer.init
  rw [List.length_replicate]
  decide

/-! ## Making space -/

/-- What is free at both ends is less than the vector. -/
theorem room_sized (hb : b.Fits) :
    (b.sized.writableBytes + b.sized.prependableBytes) % sizeCount =
      b.writableBytes + b.prependableBytes := by
  have hreader := b.reader_le
  have hwriter := b.writer_le
  have hsize := lt_sizeCount hb
  rw [writableBytes_sized hb]
  apply Nat.mod_eq_of_lt
  show b.buffer.length - b.writerIndex + b.readerIndex < sizeCount
  omega

theorem kCheapPrepend_add_readable_sized (hb : b.Fits) :
    (kCheapPrepend + b.sized.readableBytes) % sizeCount = kCheapPrepend + b.bytes.length := by
  have hprepend := b.prepend_le
  have hreader := b.reader_le
  have hwriter := b.writer_le
  have hsize := lt_sizeCount hb
  rw [readableBytes_sized hb, Buffer.length_bytes, Buffer.readableBytes]
  exact Nat.mod_eq_of_lt (by omega)

/-- Without an overflow, `makeSpace` does what it does in a `Buffer`, unless the vector cannot be
that large. -/
theorem makeSpace_sized (hb : b.Fits) (h : b.writableBytes < len)
    (hlen : b.writerIndex + len < sizeCount) :
    (∃ b' : Buffer, b.sized.makeSpace len = .ok b'.sized ∧ b'.Fits ∧ len ≤ b'.writableBytes ∧
      b'.bytes = b.bytes) ∨
    b.sized.makeSpace len = .error .lengthError := by
  obtain ⟨b', hmake, hle, hbytes⟩ := Buffer.exists_makeSpace h
  have hprepend := b.prepend_le
  have hreader := b.reader_le
  -- no sum overflows
  have hneeded : (len + kCheapPrepend) % sizeCount = len + kCheapPrepend :=
    Nat.mod_eq_of_lt (by omega)
  have hend : (b.sized.writerIndex + len) % sizeCount = b.writerIndex + len :=
    Nat.mod_eq_of_lt hlen
  unfold Buffer.makeSpace at hmake
  unfold makeSpace
  rw [room_sized hb, hneeded]
  by_cases hgrow : b.writableBytes + b.prependableBytes < len + kCheapPrepend
  · rw [if_pos hgrow] at hmake
    rw [if_pos hgrow, hend]
    obtain rfl := Option.some.inj hmake
    by_cases hmax : b.writerIndex + len ≤ maxSize
    · refine .inl ⟨_, if_pos hmax, ?_, hle, hbytes⟩
      unfold Buffer.Fits
      rwa [length_resize]
    · exact .inr (if_neg hmax)
  · rw [if_neg hgrow] at hmake
    have hmoved : kCheapPrepend < b.readerIndex := by
      by_contra hmoved
      rw [if_neg hmoved] at hmake
      cases hmake
    rw [if_pos hmoved] at hmake
    rw [if_neg hgrow, if_pos (show kCheapPrepend < b.sized.readerIndex from hmoved)]
    have hfronteq : b.sized.moveToFront = b'.sized := by
      unfold moveToFront
      rw [kCheapPrepend_add_readable_sized hb, ← Option.some.inj hmake]
      rfl
    have hfits : b'.Fits := by
      rw [← Option.some.inj hmake]
      unfold Buffer.Fits
      rw [length_overwrite b.prepend_add_readable_le]
      exact hb
    have hreadable : b.sized.readableBytes = b'.sized.readableBytes := by
      rw [readableBytes_sized hb, readableBytes_sized hfits, ← Buffer.length_bytes,
        ← Buffer.length_bytes, hbytes]
    refine .inl ⟨b', ?_, hfits, hle, hbytes⟩
    rw [hfronteq]
    exact if_pos hreadable

/-- Without an overflow, there is room in the end. -/
theorem ensureWritableBytes_sized (hb : b.Fits) (hlen : b.writerIndex + len < sizeCount) :
    (∃ b' : Buffer, b.sized.ensureWritableBytes len = .ok b'.sized ∧ b'.Fits ∧
      len ≤ b'.writableBytes ∧ b'.bytes = b.bytes) ∨
    b.sized.ensureWritableBytes len = .error .lengthError := by
  unfold ensureWritableBytes
  rw [writableBytes_sized hb]
  by_cases h : b.writableBytes < len
  · rw [if_pos h]
    rcases makeSpace_sized hb h hlen with ⟨b', hmake, hb', hle, hbytes⟩ | herror
    · refine .inl ⟨b', ?_, hb', hle, hbytes⟩
      rw [hmake]
      have hroom : len ≤ b'.sized.writableBytes := (writableBytes_sized hb').symm ▸ hle
      exact if_pos hroom
    · rw [herror]
      exact .inr rfl
  · rw [if_neg h]
    have hroom : len ≤ b.sized.writableBytes := (writableBytes_sized hb).symm ▸ not_lt.mp h
    exact .inl ⟨b, if_pos hroom, hb, not_lt.mp h, rfl⟩

/-- Moving the readable bytes makes no more room than the vector is large. -/
theorem writableBytes_moveToFront_le (hb : b.Fits) :
    b.sized.moveToFront.writableBytes ≤ b.buffer.length := by
  have hsize := lt_sizeCount hb
  have hfront := b.prepend_add_readable_le
  have hlength : b.sized.moveToFront.buffer.length = b.buffer.length :=
    length_overwrite hfront
  have hwriter : b.sized.moveToFront.writerIndex = kCheapPrepend + b.bytes.length :=
    kCheapPrepend_add_readable_sized hb
  unfold writableBytes
  rw [hlength, hwriter, subSize_of_le hfront hsize]
  exact Nat.sub_le _ _

/-- If the end of the room overflows, an assertion fails, or the vector ends before the readable
bytes do. -/
theorem ensureWritableBytes_overflow (hb : b.Fits) (hlt : len < sizeCount)
    (hlen : sizeCount ≤ b.writerIndex + len) :
    b.sized.ensureWritableBytes len = .error .assertion ∨
    ∃ b', b.sized.ensureWritableBytes len = .ok b' ∧ b'.buffer.length < b'.writerIndex := by
  have hprepend := b.prepend_le
  have hreader := b.reader_le
  have hwriter := b.writer_le
  have hmax : b.buffer.length ≤ maxSize := hb
  have hcount : sizeCount = 2 * maxSize + 2 := rfl
  have hwritable : b.writableBytes = b.buffer.length - b.writerIndex := rfl
  have hprependable : b.prependableBytes = b.readerIndex := rfl
  unfold ensureWritableBytes makeSpace
  rw [writableBytes_sized hb, if_pos (by omega), ← writableBytes_sized hb, room_sized hb]
  by_cases hwrap : sizeCount ≤ len + kCheapPrepend
  · -- the bytes that are needed seem to be fewer than the prepended ones
    have hneeded : (len + kCheapPrepend) % sizeCount = len + kCheapPrepend - sizeCount := by
      rw [Nat.mod_eq_sub_mod hwrap]
      exact Nat.mod_eq_of_lt (by omega)
    rw [hneeded, if_neg (by omega)]
    refine .inl ?_
    by_cases hmoved : kCheapPrepend < b.sized.readerIndex
    · rw [if_pos hmoved]
      by_cases hreadable : b.sized.readableBytes = b.sized.moveToFront.readableBytes
      · have hle := writableBytes_moveToFront_le hb
        have hshort : ¬len ≤ b.sized.moveToFront.writableBytes := by omega
        simp only [if_pos hreadable]
        exact if_neg hshort
      · simp only [if_neg hreadable]
        rfl
    · rw [if_neg hmoved]
      rfl
  · -- the vector is made smaller
    have hneeded : (len + kCheapPrepend) % sizeCount = len + kCheapPrepend :=
      Nat.mod_eq_of_lt (by omega)
    have hend : (b.sized.writerIndex + len) % sizeCount = b.writerIndex + len - sizeCount := by
      show (b.writerIndex + len) % sizeCount = b.writerIndex + len - sizeCount
      rw [Nat.mod_eq_sub_mod hlen]
      exact Nat.mod_eq_of_lt (by omega)
    rw [hneeded, if_pos (by omega)]
    simp only [hend]
    rw [if_pos (by omega)]
    refine .inr ⟨{ b.sized with
      buffer := resize b.buffer (b.writerIndex + len - sizeCount) 0 }, if_pos ?_, ?_⟩
    · show len ≤ subSize (resize b.buffer (b.writerIndex + len - sizeCount) 0).length b.writerIndex
      rw [length_resize, subSize]
      have hdiff : b.writerIndex + len - sizeCount + sizeCount - b.writerIndex = len := by omega
      rw [hdiff, Nat.mod_eq_of_lt hlt]
    · show (resize b.buffer (b.writerIndex + len - sizeCount) 0).length < b.writerIndex
      rw [length_resize]
      omega

/-! ## The member functions -/

theorem write_sized (hb : b.Fits) (h : data.length ≤ b.writableBytes) :
    b.sized.write data = (b.write data h).sized ∧ (b.write data h).Fits := by
  have hwriter := b.writer_le
  have hsize := lt_sizeCount hb
  have hend : b.writerIndex + data.length ≤ b.buffer.length := by
    unfold Buffer.writableBytes at h
    omega
  constructor
  · have hindex : (b.writerIndex + data.length) % sizeCount = b.writerIndex + data.length :=
      Nat.mod_eq_of_lt (by omega)
    unfold write Buffer.sized
    simp only [hindex]
    rfl
  · unfold Buffer.Fits Buffer.write
    rw [length_overwrite hend]
    exact hb

theorem append_sized (hb : b.Fits) (hlen : b.writerIndex + data.length < sizeCount) :
    (∃ b' : Buffer, b.sized.append data = .ok b'.sized ∧ b'.Fits ∧ b'.bytes = b.bytes ++ data) ∨
    b.sized.append data = .error .lengthError := by
  unfold append
  rcases ensureWritableBytes_sized hb hlen with ⟨b', hensure, hb', hle, hbytes⟩ | herror
  · obtain ⟨hwrite, hfits⟩ := write_sized hb' hle
    refine .inl ⟨b'.write data hle, ?_, hfits, ?_⟩
    · rw [hensure, ← hwrite]
      rfl
    · rw [Buffer.bytes_write, hbytes]
  · rw [herror]
    exact .inr rfl

/-- What does not fit into the vector is appended from the extra buffer. -/
theorem readFd_sized (hb : b.Fits) (hlen : data.length ≤ b.writableBytes + 65536) :
    (∃ b' : Buffer, b.sized.readFd (some data) = .ok b'.sized ∧ b'.Fits ∧
      b'.bytes = b.bytes ++ data) ∨
    b.sized.readFd (some data) = .error .lengthError := by
  unfold readFd
  simp only [writableBytes_sized hb]
  by_cases hall : data.length ≤ b.writableBytes
  · obtain ⟨hwrite, hfits⟩ := write_sized hb hall
    rw [if_pos hall, hwrite]
    exact .inl ⟨_, rfl, hfits, Buffer.bytes_write hall⟩
  · rw [if_neg hall]
    have htake : (data.take b.writableBytes).length = b.writableBytes := by
      rw [List.length_take]
      omega
    obtain ⟨-, hfits⟩ := write_sized hb htake.le
    have hfull : (b.write (data.take b.writableBytes) htake.le).writerIndex = b.buffer.length := by
      show b.writerIndex + (data.take b.writableBytes).length = b.buffer.length
      rw [htake]
      exact Nat.add_sub_cancel' b.writer_le
    -- the vector has been filled
    have hwritten : ({ b.sized with
        buffer := overwrite b.sized.buffer b.sized.writerIndex (data.take b.writableBytes)
        writerIndex := b.sized.buffer.length } : SizedBuffer) =
        (b.write (data.take b.writableBytes) htake.le).sized := by
      unfold Buffer.sized
      rw [hfull]
      rfl
    have hrange : (b.write (data.take b.writableBytes) htake.le).writerIndex +
        (data.drop b.writableBytes).length < sizeCount := by
      rw [hfull, List.length_drop]
      have hmax : b.buffer.length ≤ maxSize := hb
      have hcount : sizeCount = 2 * maxSize + 2 := rfl
      have hlarge : 65536 ≤ maxSize := by decide
      omega
    rw [hwritten]
    rcases append_sized hfits hrange with ⟨b', happend, hb', hbytes⟩ | herror
    · refine .inl ⟨b', happend, hb', ?_⟩
      rw [hbytes, Buffer.bytes_write, List.append_assoc, List.take_append_drop]
    · exact .inr herror

theorem retrieve_sized (hb : b.Fits) (hlen : len ≤ b.sized.readableBytes) :
    ∃ b' : Buffer, b.sized.retrieve len = .ok b'.sized ∧ b'.Fits ∧
      b'.bytes = b.bytes.drop len := by
  have hle : len ≤ b.readableBytes := readableBytes_sized hb ▸ hlen
  have hreader := b.reader_le
  have hwriter := b.writer_le
  have hsize := lt_sizeCount hb
  obtain ⟨b', hretrieve, hbytes⟩ := Buffer.exists_retrieve (b.length_bytes.symm ▸ hle)
  unfold Buffer.retrieve at hretrieve
  rw [dif_pos hle] at hretrieve
  unfold Buffer.readableBytes at hle
  have hindex : (b.readerIndex + len) % sizeCount = b.readerIndex + len :=
    Nat.mod_eq_of_lt (by omega)
  refine ⟨b', ?_, ?_, hbytes⟩
  · unfold retrieve
    rw [if_pos hlen, ← Option.some.inj hretrieve]
    unfold Buffer.sized
    simp only [hindex]
  · rw [← Option.some.inj hretrieve]
    exact hb

end SizedBuffer

/-! ## The queue -/

namespace BufferQueue

open SizedBuffer

variable {q q' : BufferQueue} {e : Event}

/-- The members are those of a `Buffer` whose readable bytes are the ones that have been given and
not been taken. -/
def Queued (q : BufferQueue) : Prop :=
  ∃ b : Buffer, q.buffer = b.sized ∧ b.Fits ∧ q.taken ++ b.bytes = q.given

theorem queued_init : Queued init :=
  ⟨Buffer.init, init_sized.symm, fits_init, by simp [init]⟩

theorem Queued.fifo (h : Queued q) : Fifo q := by
  obtain ⟨b, hb, -, hgiven⟩ := h
  constructor
  case given =>
    rw [hb, bytes_sized]
    exact hgiven
  case prepend_le =>
    rw [hb]
    exact b.prepend_le
  case reader_le =>
    rw [hb]
    exact b.reader_le
  case writer_le =>
    rw [hb]
    exact b.writer_le

/-- A call without an overflow keeps the queue, unless the vector cannot be that large. -/
theorem Queued.step (h : Queued q) (he : q.Enabled e) (hrange : InRange q e) :
    (∃ q', q.step e = .ok q' ∧ Queued q') ∨ q.step e = .error .lengthError := by
  obtain ⟨b, hb, hfits, hgiven⟩ := h
  have hmax : b.buffer.length ≤ maxSize := hfits
  have hwriter := b.writer_le
  have hcount : sizeCount = 2 * maxSize + 2 := rfl
  cases e with
  | append data =>
    have hlen : data.length ≤ maxSize := he
    have hlt : b.writerIndex + data.length < sizeCount := by omega
    simp only [BufferQueue.step, hb]
    rcases append_sized hfits hlt with
      ⟨b', happend, hfits', hbytes⟩ | herror
    · rw [happend]
      refine .inl ⟨_, rfl, b', rfl, hfits', ?_⟩
      rw [hbytes, ← List.append_assoc, hgiven]
    · rw [herror]
      exact .inr rfl
  | ensureWritableBytes len =>
    have hlen : b.writerIndex + len < sizeCount := by
      have hrange : q.buffer.writerIndex + len < sizeCount := hrange
      rw [hb] at hrange
      exact hrange
    simp only [BufferQueue.step, hb]
    rcases ensureWritableBytes_sized hfits hlen with ⟨b', hensure, hfits', -, hbytes⟩ | herror
    · rw [hensure]
      exact .inl ⟨_, rfl, b', rfl, hfits', hbytes ▸ hgiven⟩
    · rw [herror]
      exact .inr rfl
  | retrieve len =>
    have hlen : len ≤ b.sized.readableBytes := hb ▸ he
    obtain ⟨b', hretrieve, hfits', hbytes⟩ := retrieve_sized hfits hlen
    simp only [BufferQueue.step, hb]
    rw [hretrieve]
    refine .inl ⟨_, rfl, b', rfl, hfits', ?_⟩
    rw [hbytes, bytes_sized, List.append_assoc, List.take_append_drop, hgiven]
  | retrieveAll | retrieveAsString =>
    refine .inl ⟨_, rfl, b.retrieveAll, ?_, hfits, ?_⟩
    · rw [hb]
      rfl
    · rw [hb, Buffer.bytes_retrieveAll, List.append_nil]
      exact hgiven
  | readFd result =>
    cases result with
    | none =>
      refine .inl ⟨_, rfl, b, hb, hfits, ?_⟩
      rw [hgiven]
      exact (List.append_nil _).symm
    | some data =>
      have hlen : data.length ≤ b.writableBytes + 65536 := by
        have hlen := he data rfl
        rwa [hb, writableBytes_sized hfits] at hlen
      simp only [BufferQueue.step, hb]
      rcases readFd_sized hfits hlen with ⟨b', hread, hfits', hbytes⟩ | herror
      · rw [hread]
        refine .inl ⟨_, rfl, b', rfl, hfits', ?_⟩
        rw [hbytes, ← List.append_assoc, hgiven]
        rfl
      · rw [herror]
        exact .inr rfl

/-- A call with an overflow fails an assertion, or leaves the indices out of the vector. -/
theorem Queued.overflow (h : Queued q) (he : q.Enabled e) (hrange : ¬InRange q e) :
    q.step e = .error .assertion ∨ ∃ q', q.step e = .ok q' ∧ ¬Fifo q' := by
  obtain ⟨b, hb, hfits, -⟩ := h
  cases e with
  | ensureWritableBytes len =>
    have hlen : sizeCount ≤ b.writerIndex + len := by
      have hrange : ¬q.buffer.writerIndex + len < sizeCount := hrange
      rw [hb] at hrange
      exact not_lt.mp hrange
    simp only [BufferQueue.step, hb]
    rcases ensureWritableBytes_overflow hfits he hlen with herror | ⟨b', hensure, hshort⟩
    · rw [herror]
      exact .inl rfl
    · rw [hensure]
      exact .inr ⟨_, rfl, fun hfifo => not_lt.mpr hfifo.writer_le hshort⟩
  | _ => exact absurd trivial hrange

/-- As long as no call overflows, the buffer is a queue and no assertion fails; and a call that
overflows fails an assertion, or leaves the indices out of the vector. -/
theorem fifo_iff_inRange (h : (machine.guard InRange).Reachable q) :
    Fifo q ∧ ∀ e, machine.enabled q e →
      ((machine.step q e ≠ .error .assertion ∧ ∀ q', machine.step q e = .ok q' → Fifo q') ↔
        InRange q e) := by
  have hqueued : Queued q := by
    apply h.invariant
    · intro q e q' h he hs
      rcases h.step he.1 he.2 with ⟨q₁, hq₁, hqueued⟩ | herror
      · obtain rfl := Except.ok.inj (hq₁.symm.trans hs)
        exact hqueued
      · cases herror.symm.trans hs
    · rintro q rfl
      exact queued_init
  refine ⟨hqueued.fifo, fun e he => ⟨fun hright => ?_, fun hrange => ?_⟩⟩
  · by_contra hrange
    rcases hqueued.overflow he hrange with herror | ⟨q', hs, hbroken⟩
    · exact hright.1 herror
    · exact hbroken (hright.2 q' hs)
  · rcases hqueued.step he hrange with ⟨q₁, hs, hqueued'⟩ | herror
    · constructor
      · intro hfail
        cases hs.symm.trans hfail
      · intro q' hs'
        obtain rfl := Except.ok.inj (hs.symm.trans hs')
        exact hqueued'.fifo
    · constructor
      · intro hfail
        cases herror.symm.trans hfail
      · intro q' hs
        cases herror.symm.trans hs

/-- Bytes are appended, taken in part, and read. -/
def appendThenRead : List Event :=
  [.append [1, 2, 3], .retrieve 2, .readFd (some [4]), .ensureWritableBytes 1024, .retrieveAsString]

theorem fifo_iff_inRange_appendThenRead : ∃ q : BufferQueue,
    (machine.guard InRange).Reachable q ∧ q.taken = [1, 2, 3, 4] ∧ Fifo q := by
  have hex : ((machine.guard InRange).exec init appendThenRead).map BufferQueue.taken =
      some [1, 2, 3, 4] := by decide +kernel
  obtain ⟨q, hq, htaken⟩ := Option.map_eq_some_iff.mp hex
  have hr : (machine.guard InRange).Reachable q := ⟨_, _, rfl, Machine.run_of_exec hq⟩
  exact ⟨q, hr, htaken, (fifo_iff_inRange hr).1⟩

/-- The length that is needed, with the prepended area, seems to be 7. -/
theorem ensureWritableBytes_assertion : machine.init init ∧
    machine.enabled init (.ensureWritableBytes (2 ^ 64 - 1)) ∧
    machine.step init (.ensureWritableBytes (2 ^ 64 - 1)) = .error .assertion := by
  refine ⟨rfl, by decide, ?_⟩
  have hfail : SizedBuffer.init.ensureWritableBytes (2 ^ 64 - 1) = .error .assertion := by
    decide +kernel
  show (SizedBuffer.init.ensureWritableBytes (2 ^ 64 - 1) >>= _) = _
  rw [hfail]
  rfl

end BufferQueue

end CodingDemo.Libcpp
