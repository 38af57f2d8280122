import Mathlib.Data.List.Basic
import Mathlib.Tactic.Common

/-!
# Fixed buffers

A fixed buffer is an array with a cursor; the bytes before the cursor have been appended. That they
fit is part of the type.

## Main definitions

* `FixedBuffer`: the bytes before the cursor
* `avail`, `append`: the room after the cursor, and the bytes appended there if there is room

## Main results

* `data_append`: there is room for the bytes if they do not fill the buffer
-/

namespace CodingDemo.Libcpp

def kLargeBuffer : ℕ := 4000 * 1000

structure FixedBuffer (SIZE : ℕ) where
  data : List UInt8
  length_le : data.length ≤ SIZE

namespace FixedBuffer

variable {SIZE : ℕ} {b : FixedBuffer SIZE} {buf : List UInt8}

/-- The constructor. -/
def init : FixedBuffer SIZE where
  data := []
  length_le := Nat.zero_le SIZE

def avail (b : FixedBuffer SIZE) : ℕ := SIZE - b.data.length

/-- Bytes for which there is no room are dropped. -/
def append (b : FixedBuffer SIZE) (buf : List UInt8) : FixedBuffer SIZE :=
  if h : buf.length < b.avail then
    { data := b.data ++ buf
      length_le := by
        have hle := b.length_le
        rw [avail] at h
        rw [List.length_append]
        omega }
  else b

theorem data_append (h : buf.length < b.avail) : (b.append buf).data = b.data ++ buf := by
  rw [append, dif_pos h]

theorem data_append_init (h : buf.length < SIZE) :
    ((init : FixedBuffer SIZE).append buf).data = buf :=
  data_append (b := init) h

end FixedBuffer

end CodingDemo.Libcpp
