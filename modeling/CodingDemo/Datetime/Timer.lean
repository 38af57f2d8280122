import CodingDemo.Machine.Double
import Mathlib.Order.Lattice
import Mathlib.Tactic.Linarith

/-!
# Time stamps, timers and the timer descriptor

A `TimeStamp` is an integer, the microseconds since the epoch. An interval is a floating point
number of seconds; the conversion to microseconds truncates the rounded product. A timer object
carries its expiration, its interval and the sequence number it took from the counter all timers of
the process share; a `TimerId` names a timer by its address and a sequence number.

The timer descriptor is armed with the time left until a deadline. It is readable from its
deadline on, and reading it then disarms it.

## Main definitions

* `addTime`: a time stamp moved by a number of seconds
* `Timer`, `Timer.restart`, `TimerId`: the timer objects and the names the callers get
* `Timerfd`, `howMuchTimeFromNow`, `resetTimerfd`, `readTimerfd`: the timer descriptor

## Main results

* `micros_howMuchTimeFromNow`: the descriptor is armed for the time left, at least 100
  microseconds
* `deadline_resetTimerfd`: the deadline of a freshly armed descriptor
-/

namespace CodingDemo.Libcpp

/-- What ends the process: a failed assertion, or an operation without a defined result. -/
inductive Fault
  | assertion
  | useAfterFree
  | doubleFree
  | nullDereference
  /-- The use of an iterator that does not belong to the list it is used with. -/
  | invalidIterator
  | outOfRange
  deriving DecidableEq

namespace TimeStamp

def kMicroSecondsPerSecond : ℤ := 1000 * 1000

/-- The default time stamp. -/
def invalid : ℤ := 0

def valid (t : ℤ) : Prop := 0 < t

instance (t : ℤ) : Decidable (valid t) := inferInstanceAs (Decidable (0 < t))

end TimeStamp

/-- A number of seconds as microseconds. The product is rounded, and then truncated. -/
def microSeconds (seconds : Double) : ℤ :=
  (seconds * .ofRat TimeStamp.kMicroSecondsPerSecond).toInt

def addTime (time : ℤ) (seconds : Double) : ℤ := time + microSeconds seconds

theorem microSeconds_nonneg {seconds : Double} (h : 0 < seconds) : 0 ≤ microSeconds seconds := by
  have hpos : 0 < seconds.value := Double.zero_lt_iff.mp h
  apply Double.toInt_mul_nonneg hpos.le
  apply Double.value_ofRat_nonneg
  norm_num [TimeStamp.kMicroSecondsPerSecond]

/-! ## Timers -/

/-- A timer object. -/
structure Timer where
  expiration : ℤ
  intervalSeconds : Double
  repeat_ : Bool
  sequence_ : BitVec 64

namespace Timer

/-- The constructor; the last argument is the value of `s_numCreated_` before the increment. -/
def create (when_ : ℤ) (interval : Double) (numCreated : BitVec 64) : Timer where
  expiration := when_
  intervalSeconds := interval
  repeat_ := 0 < interval
  sequence_ := numCreated

/-- The sequence number, as the signed value its getter returns. -/
def sequence (t : Timer) : ℤ := t.sequence_.toInt

def restart (now : ℤ) (t : Timer) : Timer :=
  if t.repeat_ then { t with expiration := addTime now t.intervalSeconds }
  else { t with expiration := TimeStamp.invalid }

@[simp] theorem sequence_restart (now : ℤ) (t : Timer) :
    (t.restart now).sequence = t.sequence := by
  unfold restart
  split <;> rfl

@[simp] theorem repeat_restart (now : ℤ) (t : Timer) :
    (t.restart now).repeat_ = t.repeat_ := by
  unfold restart
  split <;> rfl

@[simp] theorem intervalSeconds_restart (now : ℤ) (t : Timer) :
    (t.restart now).intervalSeconds = t.intervalSeconds := by
  unfold restart
  split <;> rfl

theorem expiration_restart (now : ℤ) {t : Timer} (h : t.repeat_ = true) :
    (t.restart now).expiration = addTime now t.intervalSeconds := by
  simp [restart, h]

end Timer

/-- The address no object has: the null pointer. -/
def nullptr : ℕ := 0

/-- The greatest value of a pointer. -/
def UINTPTR_MAX : ℕ := 2 ^ 64 - 1

/-- An address the allocator can return for an object. -/
def IsObjectAddress (p : ℕ) : Prop := p ≠ nullptr ∧ p < UINTPTR_MAX

instance (p : ℕ) : Decidable (IsObjectAddress p) :=
  inferInstanceAs (Decidable (p ≠ nullptr ∧ p < UINTPTR_MAX))

/-- The name of a timer: its address and a sequence number. -/
structure TimerId where
  timer : ℕ := nullptr
  sequence : ℤ := 0

/-! ## The timer descriptor -/

structure timespec where
  tv_sec : ℤ
  tv_nsec : ℤ

/-- The whole microseconds of a `timespec`. -/
def timespec.micros (ts : timespec) : ℤ :=
  ts.tv_sec * TimeStamp.kMicroSecondsPerSecond + ts.tv_nsec / 1000

/-- The time from the clock reading `now` until `when_`, at least 100 microseconds. -/
def howMuchTimeFromNow (when_ now : ℤ) : timespec :=
  let microSeconds := when_ - now
  let microSeconds := if microSeconds < 100 then 100 else microSeconds
  { tv_sec := microSeconds.tdiv TimeStamp.kMicroSecondsPerSecond
    tv_nsec := microSeconds.tmod TimeStamp.kMicroSecondsPerSecond * 1000 }

theorem micros_howMuchTimeFromNow (when_ now : ℤ) :
    (howMuchTimeFromNow when_ now).micros = max (when_ - now) 100 := by
  have key : ∀ m : ℤ, (⟨m.tdiv TimeStamp.kMicroSecondsPerSecond,
      m.tmod TimeStamp.kMicroSecondsPerSecond * 1000⟩ : timespec).micros = m := by
    intro m
    simp only [timespec.micros, Int.mul_ediv_cancel _ (by decide : (1000 : ℤ) ≠ 0)]
    have h := Int.tmod_add_mul_tdiv m TimeStamp.kMicroSecondsPerSecond
    rw [mul_comm] at h
    omega
  unfold howMuchTimeFromNow
  rw [key]
  split <;> omega

/-- An armed timer descriptor: the clock when it was set, and the time it was set to. -/
structure Timerfd where
  setAt : ℤ
  value : timespec

/-- The time from which the descriptor is readable. -/
def Timerfd.deadline (fd : Timerfd) : ℤ := fd.setAt + fd.value.micros

/-- Arm the descriptor at the clock reading `now`. -/
def resetTimerfd (expiration now : ℤ) : Option Timerfd :=
  some { setAt := now, value := howMuchTimeFromNow expiration now }

/-- Read the descriptor: from the deadline on this consumes the expiry and leaves the one-shot
descriptor disarmed, before it the read fails. -/
def readTimerfd (timerfd : Option Timerfd) (now : ℤ) : Option Timerfd :=
  timerfd.filter fun fd => now < fd.deadline

theorem deadline_resetTimerfd {expiration now : ℤ} {fd : Timerfd}
    (h : resetTimerfd expiration now = some fd) :
    fd.setAt = now ∧ fd.deadline = max expiration (now + 100) := by
  obtain rfl := Option.some.inj h
  refine ⟨rfl, ?_⟩
  rw [Timerfd.deadline, micros_howMuchTimeFromNow]
  show now + max (expiration - now) 100 = _
  omega

end CodingDemo.Libcpp
