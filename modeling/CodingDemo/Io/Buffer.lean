import CodingDemo.Container.Slice

/-!
# The buffer

A `Buffer` is a vector with a reader and a writer index; the bytes between them are readable. The
two indices are kept in order, and in the vector, by the type. An assertion that fails is modelled
by `none`.

## Main definitions

* `Buffer`: the vector with the two indices
* `bytes`: the readable bytes
* `append`, `retrieve`, `retrieveAll`: write at the end, and drop from the front

## Main results

* `exists_append`: `append` never fails, and appends to the readable bytes
* `exists_retrieve`: `retrieve` of no more than the readable bytes drops them
-/

namespace CodingDemo.Libcpp

def kCheapPrepend : ℕ := 8

def kInitialSize : ℕ := 1024

structure Buffer where
  buffer : List UInt8
  readerIndex : ℕ
  writerIndex : ℕ
  prepend_le : kCheapPrepend ≤ readerIndex
  reader_le : readerIndex ≤ writerIndex
  writer_le : writerIndex ≤ buffer.length

namespace Buffer

/-- The constructor. -/
def init : Buffer where
  buffer := List.replicate (kCheapPrepend + kInitialSize) 0
  readerIndex := kCheapPrepend
  writerIndex := kCheapPrepend
  prepend_le := le_rfl
  reader_le := le_rfl
  writer_le := by simp

def readableBytes (b : Buffer) : ℕ := b.writerIndex - b.readerIndex

def writableBytes (b : Buffer) : ℕ := b.buffer.length - b.writerIndex

def prependableBytes (b : Buffer) : ℕ := b.readerIndex

/-- The readable bytes, those from `data()` on. -/
def bytes (b : Buffer) : List UInt8 := slice b.buffer b.readerIndex b.writerIndex

/-- Drop `len` bytes from the front; they are asserted to be readable. -/
def retrieve (b : Buffer) (len : ℕ) : Option Buffer :=
  if h : len ≤ b.readableBytes then
    some
      { b with
        readerIndex := b.readerIndex + len
        prepend_le := b.prepend_le.trans (Nat.le_add_right _ _)
        reader_le := by
          have hle := b.reader_le
          unfold readableBytes at h
          omega }
  else none

/-- Drop all bytes. -/
def retrieveAll (b : Buffer) : Buffer :=
  { b with
    readerIndex := kCheapPrepend
    writerIndex := kCheapPrepend
    prepend_le := le_rfl
    reader_le := le_rfl
    writer_le := b.prepend_le.trans (b.reader_le.trans b.writer_le) }

theorem length_bytes (b : Buffer) : b.bytes.length = b.readableBytes :=
  length_slice b.writer_le

/-- The end of the readable bytes when they are moved to the front. -/
theorem prepend_add_readable_le (b : Buffer) :
    kCheapPrepend + b.bytes.length ≤ b.buffer.length := by
  have h₁ := b.prepend_le
  have h₂ := b.reader_le
  have h₃ := b.writer_le
  rw [length_bytes, readableBytes]
  omega

/-- Make room for `len` bytes: the vector is enlarged, or the readable bytes are moved to the
front. -/
def makeSpace (b : Buffer) (len : ℕ) : Option Buffer :=
  if b.writableBytes + b.prependableBytes < len + kCheapPrepend then
    some
      { b with
        buffer := resize b.buffer (b.writerIndex + len) 0
        writer_le := by simp }
  else if kCheapPrepend < b.readerIndex then
    some
      { buffer := overwrite b.buffer kCheapPrepend b.bytes
        readerIndex := kCheapPrepend
        writerIndex := kCheapPrepend + b.bytes.length
        prepend_le := le_rfl
        reader_le := Nat.le_add_right _ _
        writer_le := by
          rw [length_overwrite b.prepend_add_readable_le]
          exact b.prepend_add_readable_le }
  else none

/-- The buffer with room for `len` bytes, which is asserted at the end. -/
def ensureWritableBytes (b : Buffer) (len : ℕ) :
    Option { b : Buffer // len ≤ b.writableBytes } := do
  let b ← if b.writableBytes < len then b.makeSpace len else some b
  if h : len ≤ b.writableBytes then some ⟨b, h⟩ else none

/-- Copy to `beginWrite()`, then `hasWritten`. -/
def write (b : Buffer) (data : List UInt8) (h : data.length ≤ b.writableBytes) : Buffer where
  buffer := overwrite b.buffer b.writerIndex data
  readerIndex := b.readerIndex
  writerIndex := b.writerIndex + data.length
  prepend_le := b.prepend_le
  reader_le := b.reader_le.trans (Nat.le_add_right _ _)
  writer_le := by
    have hle := b.writer_le
    unfold writableBytes at h
    rw [length_overwrite (by omega)]
    omega

def append (b : Buffer) (data : List UInt8) : Option Buffer := do
  let b ← b.ensureWritableBytes data.length
  return b.1.write data b.2

variable {b b' : Buffer} {len : ℕ} {data : List UInt8}

@[simp] theorem bytes_init : init.bytes = [] := slice_self _ _

@[simp] theorem bytes_retrieveAll (b : Buffer) : b.retrieveAll.bytes = [] := slice_self _ _

theorem readableBytes_eq_zero : b.readableBytes = 0 ↔ b.bytes = [] := by
  rw [← length_bytes, List.length_eq_zero_iff]

theorem bytes_write (h : data.length ≤ b.writableBytes) :
    (b.write data h).bytes = b.bytes ++ data := by
  have hold : slice (b.write data h).buffer b.readerIndex b.writerIndex = b.bytes :=
    slice_overwrite_before b.writer_le le_rfl
  have hnew : slice (b.write data h).buffer b.writerIndex (b.writerIndex + data.length) = data :=
    slice_overwrite b.writer_le
  calc (b.write data h).bytes
      = slice (b.write data h).buffer b.readerIndex (b.writerIndex + data.length) := rfl
    _ = b.bytes ++ data := by
      rw [← slice_append_slice b.reader_le (Nat.le_add_right _ _), hold, hnew]

/-- When there is not enough room, `makeSpace` makes it and keeps the readable bytes: if the vector
is not enlarged, the prepended area is larger than at first. -/
theorem exists_makeSpace (h : b.writableBytes < len) :
    ∃ b', b.makeSpace len = some b' ∧ len ≤ b'.writableBytes ∧ b'.bytes = b.bytes := by
  have h₁ := b.prepend_le
  have h₂ := b.reader_le
  have h₃ := b.writer_le
  unfold makeSpace
  split_ifs with hroom hmoved
  · refine ⟨_, rfl, ?_, ?_⟩
    · simp only [writableBytes, length_resize]
      omega
    · exact slice_resize b.writer_le (Nat.le_add_right _ _)
  · refine ⟨_, rfl, ?_, ?_⟩
    · simp only [writableBytes, length_overwrite b.prepend_add_readable_le]
      simp only [writableBytes, prependableBytes] at h hroom
      rw [length_bytes, readableBytes]
      omega
    · exact slice_overwrite (by have := b.prepend_add_readable_le; omega)
  · simp only [prependableBytes] at hroom
    omega

theorem exists_ensureWritableBytes (b : Buffer) (len : ℕ) :
    ∃ b', b.ensureWritableBytes len = some b' ∧ b'.1.bytes = b.bytes := by
  unfold ensureWritableBytes
  by_cases h : b.writableBytes < len
  · obtain ⟨b', hmake, hle, hbytes⟩ := exists_makeSpace h
    exact ⟨⟨b', hle⟩, by simp [h, hmake, hle], hbytes⟩
  · exact ⟨⟨b, not_lt.mp h⟩, by simp [h, not_lt.mp h], rfl⟩

/-- **Appending** never fails, and the data follows the readable bytes. -/
theorem exists_append (b : Buffer) (data : List UInt8) :
    ∃ b', b.append data = some b' ∧ b'.bytes = b.bytes ++ data := by
  obtain ⟨b', hensure, hbytes⟩ := b.exists_ensureWritableBytes data.length
  refine ⟨b'.1.write data b'.2, by simp [append, hensure], ?_⟩
  rw [bytes_write, hbytes]

/-- **Retrieving** no more than there is drops the first bytes. -/
theorem exists_retrieve (h : len ≤ b.bytes.length) :
    ∃ b', b.retrieve len = some b' ∧ b'.bytes = b.bytes.drop len := by
  rw [length_bytes] at h
  exact ⟨_, dif_pos h, (drop_slice _ _ _ _).symm⟩

end Buffer

end CodingDemo.Libcpp
