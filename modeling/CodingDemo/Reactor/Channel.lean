import Mathlib.Data.BitVec

/-!
# The events of a channel

A `Channel` tells the poller by the bits of a word which events it is interested in.

## Main definitions

* `Channel`: the word of events
* `enableReading`, `disableReading`, `enableWriting`, `disableWriting`, `disableAllEvents`,
  `isWriting`, `isNoneEvent`: its member functions
* `Interest`: the five functions that change the events
-/

namespace CodingDemo.Libcpp

def POLLIN : BitVec 32 := 0x1

def POLLPRI : BitVec 32 := 0x2

def POLLOUT : BitVec 32 := 0x4

def POLLRDHUP : BitVec 32 := 0x2000

structure Channel where
  events : BitVec 32 := 0
  deriving DecidableEq

namespace Channel

def kNoneEvent : BitVec 32 := 0

def kReadEvent : BitVec 32 := POLLIN ||| POLLPRI ||| POLLRDHUP

def kWriteEvent : BitVec 32 := POLLOUT

def enableReading (c : Channel) : Channel := { c with events := c.events ||| kReadEvent }

def disableReading (c : Channel) : Channel := { c with events := c.events &&& ~~~kReadEvent }

def enableWriting (c : Channel) : Channel := { c with events := c.events ||| kWriteEvent }

def disableWriting (c : Channel) : Channel := { c with events := c.events &&& ~~~kWriteEvent }

def disableAllEvents (c : Channel) : Channel := { c with events := kNoneEvent }

def isWriting (c : Channel) : Bool := c.events &&& kWriteEvent ≠ 0

def isNoneEvent (c : Channel) : Bool := c.events = kNoneEvent

/-- The poller reports read events. -/
def isReading (c : Channel) : Bool := c.events &&& kReadEvent ≠ 0

/-! ## The two interests do not interfere -/

section Masks

variable {w : ℕ} {e m n : BitVec w}

theorem or_and_of_disjoint (h : m &&& n = 0) : (e ||| m) &&& n = e &&& n := by
  rw [BitVec.and_or_distrib_right, h]
  exact BitVec.or_zero

theorem and_not_and_of_disjoint (h : m &&& n = 0) : e &&& ~~~m &&& n = e &&& n := by
  have hn : ~~~m &&& n = n := by
    ext i hi
    have hbit : (m &&& n)[i] = false := by
      rw [h]
      exact BitVec.getElem_zero hi
    rw [BitVec.getElem_and] at hbit
    rw [BitVec.getElem_and, BitVec.getElem_not]
    cases hm : m[i] with
    | false => rfl
    | true => simpa [hm] using hbit.symm
  rw [BitVec.and_assoc, hn]

end Masks

theorem kReadEvent_and_kWriteEvent : kReadEvent &&& kWriteEvent = 0 := by decide

theorem kWriteEvent_and_kReadEvent : kWriteEvent &&& kReadEvent = 0 := by decide

variable (c : Channel)

@[simp] theorem isWriting_enableReading : c.enableReading.isWriting = c.isWriting := by
  simp only [isWriting, enableReading, or_and_of_disjoint kReadEvent_and_kWriteEvent]

@[simp] theorem isWriting_enableWriting : c.enableWriting.isWriting = true := by
  unfold isWriting enableWriting
  rw [decide_eq_true_iff, BitVec.and_or_distrib_right, BitVec.and_self]
  intro hzero
  exact absurd (BitVec.or_eq_zero_iff.mp hzero).2 (by decide)

@[simp] theorem isWriting_disableWriting : c.disableWriting.isWriting = false := by
  unfold isWriting disableWriting
  rw [BitVec.and_assoc, BitVec.not_and_self]
  simp

@[simp] theorem isWriting_disableAllEvents : c.disableAllEvents.isWriting = false := by
  simp [isWriting, disableAllEvents, kNoneEvent]

@[simp] theorem isReading_enableReading : c.enableReading.isReading = true := by
  unfold isReading enableReading
  rw [decide_eq_true_iff, BitVec.and_or_distrib_right, BitVec.and_self]
  intro hzero
  exact absurd (BitVec.or_eq_zero_iff.mp hzero).2 (by decide)

@[simp] theorem isReading_enableWriting : c.enableWriting.isReading = c.isReading := by
  simp only [isReading, enableWriting, or_and_of_disjoint kWriteEvent_and_kReadEvent]

@[simp] theorem isReading_disableWriting : c.disableWriting.isReading = c.isReading := by
  simp only [isReading, disableWriting, and_not_and_of_disjoint kWriteEvent_and_kReadEvent]

@[simp] theorem isReading_disableAllEvents : c.disableAllEvents.isReading = false := by
  simp [isReading, disableAllEvents, kNoneEvent]

end Channel

/-! ## The changes of interest -/

/-- The member functions that change the events. -/
inductive Interest
  | enableReading
  | disableReading
  | enableWriting
  | disableWriting
  | disableAllEvents
  deriving DecidableEq

def Interest.apply : Interest → Channel → Channel
  | .enableReading => Channel.enableReading
  | .disableReading => Channel.disableReading
  | .enableWriting => Channel.enableWriting
  | .disableWriting => Channel.disableWriting
  | .disableAllEvents => Channel.disableAllEvents

/-- The events of the channels: those of reading, those of writing, or both. -/
def Channel.interests : List (BitVec 32) := [0, kReadEvent, kWriteEvent, kReadEvent ||| kWriteEvent]

theorem Channel.mem_interests {e : BitVec 32} : e ∈ interests ↔
    e = 0 ∨ e = kReadEvent ∨ e = kWriteEvent ∨ e = kReadEvent ||| kWriteEvent := by
  simp [interests]

/-- Whatever is enabled and disabled, no other events are set. -/
theorem Interest.apply_mem (i : Interest) {c : Channel} (h : c.events ∈ Channel.interests) :
    (i.apply c).events ∈ Channel.interests := by
  obtain ⟨e⟩ := c
  rcases Channel.mem_interests.mp h with rfl | rfl | rfl | rfl <;> cases i <;> decide

/-- The events of a channel fit into a `short`. -/
theorem Channel.signExtend_setWidth {e : BitVec 32} (h : e ∈ interests) :
    (e.setWidth 16).signExtend 32 = e := by
  rcases mem_interests.mp h with rfl | rfl | rfl | rfl <;> decide

end CodingDemo.Libcpp
