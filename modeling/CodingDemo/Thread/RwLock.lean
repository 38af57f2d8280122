import CodingDemo.Machine.Checked
import CodingDemo.Machine.Parties
import CodingDemo.Machine.Run

/-!
# The read-write lock

The lock counts the readers and the writers that hold it and those that wait for it. A thread that
has to wait goes to sleep on a condition variable. A thread that has been notified checks again
whether it may enter, and sleeps again if it may not. The critical sections of the mutex are the
steps; a sleeping thread may also wake up by itself.

## Main definitions

* `RwLock.Phase`: what a thread is doing
* `RwLock`: the four counters, and the phase of each thread
* `read_lock`, `read_unlock`, `write_lock`, `write_unlock`: the critical sections
* `read_recheck`, `write_recheck`: the critical sections of a thread that has woken up
* `RwLock.machine`: the threads use the lock, every unlock after its lock
* `RwLock.Counted`, `RwLock.Exclusive`, `RwLock.Awake`: the invariants

## Main results

* `RwLock.not_stuck`: a free lock that a thread sleeps on has a thread that is going to check again
* `RwLock.excludes`: one writer, or readers only; the counters are the numbers of threads
-/

namespace CodingDemo.Libcpp

/-- The fault of an unsigned counter that is decremented at zero. -/
inductive CounterFault
  | underflow
  deriving DecidableEq

def decrement (n : ℕ) : Except CounterFault ℕ := if n = 0 then .error .underflow else .ok (n - 1)

theorem decrement_of_pos {n : ℕ} (h : 0 < n) : decrement n = .ok (n - 1) := if_neg (by omega)

theorem decrement_eq_ok {n m : ℕ} : decrement n = .ok m ↔ n = m + 1 := by
  unfold decrement
  split
  · simp only [reduceCtorEq, false_iff]
    omega
  · simp only [Except.ok.injEq]
    omega

/-- What a thread is doing. A waiting thread sleeps until it is notified. -/
inductive RwLock.Phase
  | outside
  | read_waiting (notified : Bool)
  | reading
  | write_waiting (notified : Bool)
  | writing
  deriving DecidableEq

namespace RwLock.Phase

def isReading : Phase → Bool
  | .reading => true
  | _ => false

def isReadWaiting : Phase → Bool
  | .read_waiting _ => true
  | _ => false

def isWriting : Phase → Bool
  | .writing => true
  | _ => false

def isWriteWaiting : Phase → Bool
  | .write_waiting _ => true
  | _ => false

/-- The thread is blocked until somebody notifies it. -/
def isAsleep : Phase → Bool
  | .read_waiting notified => !notified
  | .write_waiting notified => !notified
  | _ => false

/-- The thread has been woken, and is going to check its condition again. -/
def isNotified : Phase → Bool
  | .read_waiting notified => notified
  | .write_waiting notified => notified
  | _ => false

/-- The phase of a thread after it has been woken. -/
def wake : Phase → Phase
  | .read_waiting _ => .read_waiting true
  | .write_waiting _ => .write_waiting true
  | k => k

/-- The phase of a thread after `rcond_.notify_all()`. -/
def wakeReader : Phase → Phase
  | .read_waiting _ => .read_waiting true
  | k => k

theorem eq_reading_of_wake {k : Phase} (h : k.wake = .reading) : k = .reading := by
  cases k <;> simp_all [wake]

theorem eq_reading_of_wakeReader {k : Phase} (h : k.wakeReader = .reading) : k = .reading := by
  cases k <;> simp_all [wakeReader]

theorem wakeReader_ne {k : Phase} : k.wakeReader ≠ .read_waiting false := by
  cases k <;> simp [wakeReader]

end RwLock.Phase

/-- The counters, and the phases of the threads. -/
structure RwLock (Thread : Type) where
  readers : ℕ
  read_waiters : ℕ
  writers : ℕ
  write_waiters : ℕ
  phase : Thread → RwLock.Phase

namespace RwLock

variable {Thread : Type} [DecidableEq Thread]

def setPhase (s : RwLock Thread) (t : Thread) (k : Phase) : RwLock Thread :=
  { s with phase := Function.update s.phase t k }

/-! ## The critical sections -/

def read_lock (s : RwLock Thread) (t : Thread) : RwLock Thread :=
  if s.writers ≠ 0 ∨ s.write_waiters ≠ 0 then
    { s with read_waiters := s.read_waiters + 1 }.setPhase t (.read_waiting false)
  else { s with readers := s.readers + 1 }.setPhase t .reading

/-- A reader has woken up in `rcond_.wait`. -/
def read_recheck (s : RwLock Thread) (t : Thread) : Except CounterFault (RwLock Thread) := do
  if s.writers = 0 ∧ s.write_waiters = 0 then
    let read_waiters ← decrement s.read_waiters
    return { s with read_waiters, readers := s.readers + 1 }.setPhase t .reading
  else return s.setPhase t (.read_waiting false)

/-- `wcond_.notify_one()` wakes the thread `woken`, if there is one. -/
def notify_one (s : RwLock Thread) (woken : Option Thread) : RwLock Thread :=
  match woken with
  | some u => s.setPhase u (s.phase u).wake
  | none => s

/-- `rcond_.notify_all()` -/
def notify_all (s : RwLock Thread) : RwLock Thread :=
  { s with phase := fun u => (s.phase u).wakeReader }

def read_unlock (s : RwLock Thread) (t : Thread) (woken : Option Thread) :
    Except CounterFault (RwLock Thread) := do
  let readers ← decrement s.readers
  let s := { s with readers }.setPhase t .outside
  if s.write_waiters ≠ 0 then return s.notify_one woken
  else return s

def write_lock (s : RwLock Thread) (t : Thread) : RwLock Thread :=
  if s.readers ≠ 0 ∨ s.writers ≠ 0 then
    { s with write_waiters := s.write_waiters + 1 }.setPhase t (.write_waiting false)
  else { s with writers := s.writers + 1 }.setPhase t .writing

/-- A writer has woken up in `wcond_.wait`. -/
def write_recheck (s : RwLock Thread) (t : Thread) : Except CounterFault (RwLock Thread) := do
  if s.readers = 0 ∧ s.writers = 0 then
    let write_waiters ← decrement s.write_waiters
    return { s with write_waiters, writers := s.writers + 1 }.setPhase t .writing
  else return s.setPhase t (.write_waiting false)

def write_unlock (s : RwLock Thread) (t : Thread) (woken : Option Thread) :
    Except CounterFault (RwLock Thread) := do
  let writers ← decrement s.writers
  let s := { s with writers }.setPhase t .outside
  if s.write_waiters ≠ 0 then return s.notify_one woken
  else return s.notify_all

/-! ## The threads -/

/-- The critical sections the threads enter. The unlocks name the writer that `notify_one` wakes. -/
inductive Event (Thread : Type)
  | read_lock (t : Thread)
  | read_unlock (t : Thread) (woken : Option Thread)
  | write_lock (t : Thread)
  | write_unlock (t : Thread) (woken : Option Thread)
  | recheck (t : Thread)
  | wake (t : Thread)
  deriving DecidableEq

/-- `notify_one` wakes a sleeping writer unless there is none. -/
def Wakes (s : RwLock Thread) : Option Thread → Prop
  | some u => s.phase u = .write_waiting false
  | none => ∀ u, s.phase u ≠ .write_waiting false

def Enabled (s : RwLock Thread) : Event Thread → Prop
  | .read_lock t => s.phase t = .outside
  | .read_unlock t woken => s.phase t = .reading ∧ s.Wakes woken
  | .write_lock t => s.phase t = .outside
  | .write_unlock t woken => s.phase t = .writing ∧ s.Wakes woken
  | .recheck t => (s.phase t).isNotified
  | .wake t => (s.phase t).isAsleep

instance [Fintype Thread] (s : RwLock Thread) (woken : Option Thread) :
    Decidable (s.Wakes woken) :=
  match woken with
  | some u => inferInstanceAs (Decidable (s.phase u = .write_waiting false))
  | none => inferInstanceAs (Decidable (∀ u, s.phase u ≠ .write_waiting false))

instance [Fintype Thread] (s : RwLock Thread) (e : Event Thread) : Decidable (s.Enabled e) :=
  match e with
  | .read_lock t => inferInstanceAs (Decidable (s.phase t = .outside))
  | .read_unlock t woken => inferInstanceAs (Decidable (s.phase t = .reading ∧ s.Wakes woken))
  | .write_lock t => inferInstanceAs (Decidable (s.phase t = .outside))
  | .write_unlock t woken => inferInstanceAs (Decidable (s.phase t = .writing ∧ s.Wakes woken))
  | .recheck t => inferInstanceAs (Decidable ((s.phase t).isNotified = true))
  | .wake t => inferInstanceAs (Decidable ((s.phase t).isAsleep = true))

/-- The step of a thread that has been notified. -/
def recheck (s : RwLock Thread) (t : Thread) : Except CounterFault (RwLock Thread) :=
  if (s.phase t).isReadWaiting then s.read_recheck t else s.write_recheck t

def step (s : RwLock Thread) : Event Thread → Except CounterFault (RwLock Thread)
  | .read_lock t => .ok (s.read_lock t)
  | .read_unlock t woken => s.read_unlock t woken
  | .write_lock t => .ok (s.write_lock t)
  | .write_unlock t woken => s.write_unlock t woken
  | .recheck t => s.recheck t
  | .wake t => .ok (s.setPhase t (s.phase t).wake)

/-- The threads use the lock from the start, when the counters are zero. -/
def machine (Thread : Type) [DecidableEq Thread] :
    Machine (RwLock Thread) (Event Thread) CounterFault where
  init s := s = ⟨0, 0, 0, 0, fun _ => .outside⟩
  enabled := Enabled
  step := step

instance [Fintype Thread] (s : RwLock Thread) (e : Event Thread) :
    Decidable ((machine Thread).enabled s e) :=
  inferInstanceAs (Decidable (s.Enabled e))

/-! ## What one step does -/

variable {s s' : RwLock Thread} {e : Event Thread} {t u : Thread} {woken : Option Thread}

/-- The branches of the critical sections. -/
inductive Move (s : RwLock Thread) : Event Thread → RwLock Thread → Prop
  | read_enter {t : Thread} : s.phase t = .outside → s.writers = 0 → s.write_waiters = 0 →
      Move s (.read_lock t) ({ s with readers := s.readers + 1 }.setPhase t .reading)
  | read_sleep {t : Thread} : s.phase t = .outside → s.writers ≠ 0 ∨ s.write_waiters ≠ 0 →
      Move s (.read_lock t)
        ({ s with read_waiters := s.read_waiters + 1 }.setPhase t (.read_waiting false))
  | read_reenter {t : Thread} {n : ℕ} : s.phase t = .read_waiting true → s.writers = 0 →
      s.write_waiters = 0 → s.read_waiters = n + 1 →
      Move s (.recheck t)
        ({ s with read_waiters := n, readers := s.readers + 1 }.setPhase t .reading)
  | read_resleep {t : Thread} : s.phase t = .read_waiting true →
      s.writers ≠ 0 ∨ s.write_waiters ≠ 0 →
      Move s (.recheck t) (s.setPhase t (.read_waiting false))
  | read_leave_notify {t : Thread} {woken : Option Thread} {n : ℕ} : s.phase t = .reading →
      s.Wakes woken → s.readers = n + 1 → s.write_waiters ≠ 0 →
      Move s (.read_unlock t woken)
        (({ s with readers := n }.setPhase t .outside).notify_one woken)
  | read_leave {t : Thread} {woken : Option Thread} {n : ℕ} : s.phase t = .reading →
      s.readers = n + 1 → s.write_waiters = 0 →
      Move s (.read_unlock t woken) ({ s with readers := n }.setPhase t .outside)
  | write_enter {t : Thread} : s.phase t = .outside → s.readers = 0 → s.writers = 0 →
      Move s (.write_lock t) ({ s with writers := s.writers + 1 }.setPhase t .writing)
  | write_sleep {t : Thread} : s.phase t = .outside → s.readers ≠ 0 ∨ s.writers ≠ 0 →
      Move s (.write_lock t)
        ({ s with write_waiters := s.write_waiters + 1 }.setPhase t (.write_waiting false))
  | write_reenter {t : Thread} {n : ℕ} : s.phase t = .write_waiting true → s.readers = 0 →
      s.writers = 0 → s.write_waiters = n + 1 →
      Move s (.recheck t)
        ({ s with write_waiters := n, writers := s.writers + 1 }.setPhase t .writing)
  | write_resleep {t : Thread} : s.phase t = .write_waiting true →
      s.readers ≠ 0 ∨ s.writers ≠ 0 →
      Move s (.recheck t) (s.setPhase t (.write_waiting false))
  | write_leave_notify {t : Thread} {woken : Option Thread} {n : ℕ} : s.phase t = .writing →
      s.Wakes woken → s.writers = n + 1 → s.write_waiters ≠ 0 →
      Move s (.write_unlock t woken)
        (({ s with writers := n }.setPhase t .outside).notify_one woken)
  | write_leave {t : Thread} {woken : Option Thread} {n : ℕ} : s.phase t = .writing →
      s.writers = n + 1 → s.write_waiters = 0 →
      Move s (.write_unlock t woken) (({ s with writers := n }.setPhase t .outside).notify_all)
  | read_wake {t : Thread} : s.phase t = .read_waiting false →
      Move s (.wake t) (s.setPhase t (.read_waiting true))
  | write_wake {t : Thread} : s.phase t = .write_waiting false →
      Move s (.wake t) (s.setPhase t (.write_waiting true))

theorem isNotified_iff {k : Phase} :
    k.isNotified ↔ k = .read_waiting true ∨ k = .write_waiting true := by
  cases k <;> simp [Phase.isNotified]

theorem isAsleep_iff {k : Phase} :
    k.isAsleep ↔ k = .read_waiting false ∨ k = .write_waiting false := by
  cases k <;> simp [Phase.isAsleep]

theorem move_of_recheck (ht : (s.phase t).isNotified) (h : s.recheck t = .ok s') :
    Move s (.recheck t) s' := by
  obtain ht | ht := isNotified_iff.mp ht
  -- a reader checks again
  · have h : s.read_recheck t = .ok s' := by simpa [recheck, ht, Phase.isReadWaiting] using h
    unfold read_recheck at h
    split at h
    · next hfree =>
      obtain ⟨n, hn, h⟩ := bind_eq_ok_iff.mp h
      obtain rfl := Except.ok.inj h
      exact .read_reenter ht hfree.1 hfree.2 (decrement_eq_ok.mp hn)
    · next hbusy =>
      obtain rfl := Except.ok.inj h
      exact .read_resleep ht (by omega)
  -- a writer checks again
  · have h : s.write_recheck t = .ok s' := by simpa [recheck, ht, Phase.isReadWaiting] using h
    unfold write_recheck at h
    split at h
    · next hfree =>
      obtain ⟨n, hn, h⟩ := bind_eq_ok_iff.mp h
      obtain rfl := Except.ok.inj h
      exact .write_reenter ht hfree.1 hfree.2 (decrement_eq_ok.mp hn)
    · next hbusy =>
      obtain rfl := Except.ok.inj h
      exact .write_resleep ht (by omega)

/-- A step is one of the branches, with the conditions that lead there. -/
theorem move_of_step (he : s.Enabled e) (h : s.step e = .ok s') : Move s e s' := by
  cases e with
  | read_lock t =>
    obtain rfl := Except.ok.inj h
    unfold read_lock
    split
    · next hbusy => exact .read_sleep he hbusy
    · next hfree => exact .read_enter he (by omega) (by omega)
  | read_unlock t woken =>
    obtain ⟨n, hn, h⟩ := bind_eq_ok_iff.mp h
    dsimp only at h
    split at h
    · next hww =>
      obtain rfl := Except.ok.inj h
      exact .read_leave_notify he.1 he.2 (decrement_eq_ok.mp hn) hww
    · next hww =>
      obtain rfl := Except.ok.inj h
      exact .read_leave he.1 (decrement_eq_ok.mp hn) (not_not.mp hww)
  | write_lock t =>
    obtain rfl := Except.ok.inj h
    unfold write_lock
    split
    · next hbusy => exact .write_sleep he hbusy
    · next hfree => exact .write_enter he (by omega) (by omega)
  | write_unlock t woken =>
    obtain ⟨n, hn, h⟩ := bind_eq_ok_iff.mp h
    dsimp only at h
    split at h
    · next hww =>
      obtain rfl := Except.ok.inj h
      exact .write_leave_notify he.1 he.2 (decrement_eq_ok.mp hn) hww
    · next hww =>
      obtain rfl := Except.ok.inj h
      exact .write_leave he.1 (decrement_eq_ok.mp hn) (not_not.mp hww)
  | recheck t => exact move_of_recheck he h
  | wake t =>
    obtain rfl := Except.ok.inj h
    obtain ht | ht := isAsleep_iff.mp he
    · rw [ht]
      exact .read_wake ht
    · rw [ht]
      exact .write_wake ht

/-! ## No fault while the counters are positive -/

theorem read_unlock_ok (h : 0 < s.readers) : ∃ s', s.read_unlock t woken = .ok s' := by
  unfold read_unlock
  rw [decrement_of_pos h]
  dsimp only [bind, Except.bind]
  split <;> exact ⟨_, rfl⟩

theorem write_unlock_ok (h : 0 < s.writers) : ∃ s', s.write_unlock t woken = .ok s' := by
  unfold write_unlock
  rw [decrement_of_pos h]
  dsimp only [bind, Except.bind]
  split <;> exact ⟨_, rfl⟩

theorem read_recheck_ok (h : 0 < s.read_waiters) : ∃ s', s.read_recheck t = .ok s' := by
  unfold read_recheck
  rw [decrement_of_pos h]
  split <;> exact ⟨_, rfl⟩

theorem write_recheck_ok (h : 0 < s.write_waiters) : ∃ s', s.write_recheck t = .ok s' := by
  unfold write_recheck
  rw [decrement_of_pos h]
  split <;> exact ⟨_, rfl⟩

/-! ## The counters are the numbers of threads -/

section Invariants

variable [Fintype Thread]

/-- Each counter is the number of threads in its phase. -/
structure Counted (s : RwLock Thread) : Prop where
  readers : s.readers = number Phase.isReading s.phase
  read_waiters : s.read_waiters = number Phase.isReadWaiting s.phase
  writers : s.writers = number Phase.isWriting s.phase
  write_waiters : s.write_waiters = number Phase.isWriteWaiting s.phase

/-- A thread moves to another phase, and the counters follow it. -/
theorem Counted.setPhase (h : s.Counted) {j k : Phase} (ht : s.phase t = j) {r rw w ww : ℕ}
    (hr : r + j.isReading.toNat = s.readers + k.isReading.toNat)
    (hrw : rw + j.isReadWaiting.toNat = s.read_waiters + k.isReadWaiting.toNat)
    (hw : w + j.isWriting.toNat = s.writers + k.isWriting.toNat)
    (hww : ww + j.isWriteWaiting.toNat = s.write_waiters + k.isWriteWaiting.toNat) :
    Counted (RwLock.setPhase ⟨r, rw, w, ww, s.phase⟩ t k) where
  readers := eq_number_update h.readers ht hr
  read_waiters := eq_number_update h.read_waiters ht hrw
  writers := eq_number_update h.writers ht hw
  write_waiters := eq_number_update h.write_waiters ht hww

theorem Counted.notify_one (h : s.Counted) (woken : Option Thread) :
    (s.notify_one woken).Counted := by
  cases woken with
  | none => exact h
  | some u =>
    -- the woken thread still waits, for what it waited for
    apply h.setPhase (t := u) rfl
    all_goals cases s.phase u <;> rfl

omit [DecidableEq Thread] in
theorem Counted.notify_all (h : s.Counted) : s.notify_all.Counted where
  readers := h.readers.trans (number_congr fun u => by
    show _ = (s.phase u).wakeReader.isReading
    cases s.phase u <;> rfl)
  read_waiters := h.read_waiters.trans (number_congr fun u => by
    show _ = (s.phase u).wakeReader.isReadWaiting
    cases s.phase u <;> rfl)
  writers := h.writers.trans (number_congr fun u => by
    show _ = (s.phase u).wakeReader.isWriting
    cases s.phase u <;> rfl)
  write_waiters := h.write_waiters.trans (number_congr fun u => by
    show _ = (s.phase u).wakeReader.isWriteWaiting
    cases s.phase u <;> rfl)

theorem Counted.move (h : s.Counted) (hm : Move s e s') : s'.Counted := by
  cases hm with
  | read_enter ht => exact h.setPhase ht rfl rfl rfl rfl
  | read_sleep ht => exact h.setPhase ht rfl rfl rfl rfl
  | read_reenter ht _ _ hn => exact h.setPhase ht rfl hn.symm rfl rfl
  | read_resleep ht => exact h.setPhase ht rfl rfl rfl rfl
  | read_leave_notify ht _ hn =>
    exact (h.setPhase (k := .outside) ht hn.symm rfl rfl rfl).notify_one _
  | read_leave ht hn => exact h.setPhase ht hn.symm rfl rfl rfl
  | write_enter ht => exact h.setPhase ht rfl rfl rfl rfl
  | write_sleep ht => exact h.setPhase ht rfl rfl rfl rfl
  | write_reenter ht _ _ hn => exact h.setPhase ht rfl rfl rfl hn.symm
  | write_resleep ht => exact h.setPhase ht rfl rfl rfl rfl
  | write_leave_notify ht _ hn =>
    exact (h.setPhase (k := .outside) ht rfl rfl hn.symm rfl).notify_one _
  | write_leave ht hn => exact (h.setPhase (k := .outside) ht rfl rfl hn.symm rfl).notify_all
  | read_wake ht => exact h.setPhase ht rfl rfl rfl rfl
  | write_wake ht => exact h.setPhase ht rfl rfl rfl rfl

omit [DecidableEq Thread] in
theorem Counted.init : Counted (⟨0, 0, 0, 0, fun _ => .outside⟩ : RwLock Thread) := by
  constructor <;> exact (number_eq_zero.mpr fun _ => rfl).symm

theorem Counted.preserved : (machine Thread).Preserves Counted :=
  fun _ _ _ h he hs => h.move (move_of_step he hs)

omit [DecidableEq Thread] in
/-- Fewer than `2 ^ 32` threads never make an `unsigned int` wrap around. -/
theorem Counted.lt (h : s.Counted) (hcard : Fintype.card Thread < 2 ^ 32) :
    s.readers < 2 ^ 32 ∧ s.read_waiters < 2 ^ 32 ∧ s.writers < 2 ^ 32 ∧
      s.write_waiters < 2 ^ 32 := by
  rw [h.readers, h.read_waiters, h.writers, h.write_waiters]
  exact ⟨number_le_card.trans_lt hcard, number_le_card.trans_lt hcard,
    number_le_card.trans_lt hcard, number_le_card.trans_lt hcard⟩

/-- A step decrements only counters that count the thread that moves. -/
theorem Counted.no_underflow (h : s.Counted) (he : s.Enabled e) : ∃ s', s.step e = .ok s' := by
  cases e with
  | read_lock t => exact ⟨_, rfl⟩
  | read_unlock t woken =>
    have hpos : 0 < s.readers := pos_of_eq_number h.readers t (by rw [he.1]; rfl)
    exact read_unlock_ok hpos
  | write_lock t => exact ⟨_, rfl⟩
  | write_unlock t woken =>
    have hpos : 0 < s.writers := pos_of_eq_number h.writers t (by rw [he.1]; rfl)
    exact write_unlock_ok hpos
  | recheck t =>
    obtain ht | ht := isNotified_iff.mp he
    · have hpos : 0 < s.read_waiters := pos_of_eq_number h.read_waiters t (by rw [ht]; rfl)
      simpa [step, recheck, ht, Phase.isReadWaiting] using read_recheck_ok hpos
    · have hpos : 0 < s.write_waiters := pos_of_eq_number h.write_waiters t (by rw [ht]; rfl)
      simpa [step, recheck, ht, Phase.isReadWaiting] using write_recheck_ok hpos
  | wake t => exact ⟨_, rfl⟩

/-! ## Who holds the lock -/

/-- One writer, or readers only. -/
structure Exclusive (s : RwLock Thread) : Prop where
  writers_le : s.writers ≤ 1
  readers_or_writers : s.readers = 0 ∨ s.writers = 0

omit [Fintype Thread] in
theorem Exclusive.notify_one (h : s.Exclusive) (woken : Option Thread) :
    (s.notify_one woken).Exclusive := by
  cases woken with
  | none => exact h
  | some u => exact ⟨h.writers_le, h.readers_or_writers⟩

omit [Fintype Thread] in
theorem Exclusive.move (h : s.Exclusive) (hm : Move s e s') : s'.Exclusive := by
  obtain ⟨hle, hor⟩ := h
  cases hm with
  | read_enter _ hw => exact ⟨hle, .inr hw⟩
  | read_sleep => exact ⟨hle, hor⟩
  | read_reenter _ hw => exact ⟨hle, .inr hw⟩
  | read_resleep => exact ⟨hle, hor⟩
  -- a reader held the lock, so no writer does
  | read_leave_notify _ _ hn =>
    have hw : s.writers = 0 := by omega
    apply Exclusive.notify_one
    exact ⟨hle, .inr hw⟩
  | read_leave _ hn =>
    have hw : s.writers = 0 := by omega
    exact ⟨hle, .inr hw⟩
  | write_enter _ hr hw => exact ⟨(congrArg (· + 1) hw).le, .inl hr⟩
  | write_sleep => exact ⟨hle, hor⟩
  | write_reenter _ hr hw => exact ⟨(congrArg (· + 1) hw).le, .inl hr⟩
  | write_resleep => exact ⟨hle, hor⟩
  -- the writer that leaves was the only one
  | @write_leave_notify t _ n _ _ hn =>
    have hzero : n = 0 := by omega
    apply Exclusive.notify_one
    exact ⟨hzero.trans_le zero_le_one, .inr hzero⟩
  | @write_leave t _ n _ hn =>
    have hzero : n = 0 := by omega
    exact ⟨hzero.trans_le zero_le_one, .inr hzero⟩
  | read_wake => exact ⟨hle, hor⟩
  | write_wake => exact ⟨hle, hor⟩

/-! ## Who is going to wake up -/

/-- If a writer sleeps, another one has been notified. -/
def WriterAwake (s : RwLock Thread) : Prop :=
  ∀ u, s.phase u = .write_waiting false → ∃ v, s.phase v = .write_waiting true

/-- A sleeping reader stands back for a writer. A sleeping writer waits for the lock to become
free, or for a writer that has been notified. -/
structure Awake (s : RwLock Thread) : Prop where
  reader : ∀ u, s.phase u = .read_waiting false → s.writers ≠ 0 ∨ s.write_waiters ≠ 0
  writer : s.readers = 0 → s.writers = 0 → s.WriterAwake

section Phases

variable {j i k : Phase}

omit [Fintype Thread]

@[simp] theorem phase_setPhase_self : (s.setPhase t i).phase t = i := Function.update_self ..

theorem phase_setPhase_of_ne (hu : u ≠ t) : (s.setPhase t i).phase u = s.phase u :=
  Function.update_of_ne hu ..

theorem phase_eq_of_update {phase : Thread → Phase} (h : Function.update phase t i u = k)
    (hi : i ≠ k) : phase u = k := by
  by_cases hu : u = t
  · subst hu
    exact absurd ((Function.update_self ..).symm.trans h) hi
  · rwa [Function.update_of_ne hu] at h

theorem setPhase_phase_eq (ht : s.phase t = j) (hj : j ≠ k) (h : s.phase u = k) :
    (s.setPhase t i).phase u = k := by
  have hu : u ≠ t := by
    rintro rfl
    exact hj (ht.symm.trans h)
  rwa [phase_setPhase_of_ne hu]

theorem WriterAwake.setPhase (h : s.WriterAwake) (ht : s.phase t = j)
    (hj : j ≠ .write_waiting true) (hi : i ≠ .write_waiting false) :
    (s.setPhase t i).WriterAwake := by
  intro u hu
  -- neither the sleeping writer nor the notified one is the thread that moves
  obtain ⟨v, hv⟩ := h u (phase_eq_of_update hu hi)
  exact ⟨v, setPhase_phase_eq ht hj hv⟩

theorem Wakes.setPhase (h : s.Wakes woken) (ht : s.phase t = j)
    (hj : j ≠ .write_waiting false) (hi : i ≠ .write_waiting false) :
    (s.setPhase t i).Wakes woken := by
  cases woken with
  | none => exact fun u hu => h u (phase_eq_of_update hu hi)
  | some u => exact setPhase_phase_eq ht hj h

/-- After `notify_one` some writer is awake, unless none waits. -/
theorem Wakes.writerAwake (h : s.Wakes woken) : (s.notify_one woken).WriterAwake := by
  intro u hu
  cases woken with
  | none => exact absurd hu (h u)
  | some v =>
    refine ⟨v, phase_setPhase_self.trans ?_⟩
    rw [h]
    rfl

end Phases

omit [DecidableEq Thread] in
theorem Counted.writerAwake (h : s.Counted) (hww : s.write_waiters = 0) : s.WriterAwake := by
  intro u hu
  have hnone := number_eq_zero.mp (h.write_waiters.symm.trans hww) u
  rw [hu] at hnone
  cases hnone

omit [Fintype Thread] in
theorem Awake.move_reader (h : s.Awake) (hm : Move s e s')
    (hu : s'.phase u = .read_waiting false) : s'.writers ≠ 0 ∨ s'.write_waiters ≠ 0 := by
  cases hm with
  | read_enter => exact h.reader u (phase_eq_of_update hu nofun)
  | read_sleep _ hbusy => exact hbusy
  | read_reenter => exact h.reader u (phase_eq_of_update hu nofun)
  | read_resleep _ hbusy => exact hbusy
  -- the writer that is notified still counts as waiting
  | @read_leave_notify _ woken _ _ _ _ hww => cases woken <;> exact .inr hww
  | read_leave => exact h.reader u (phase_eq_of_update hu nofun)
  | write_enter => exact .inl (Nat.succ_ne_zero _)
  | write_sleep => exact .inr (Nat.succ_ne_zero _)
  | write_reenter => exact .inl (Nat.succ_ne_zero _)
  | write_resleep => exact h.reader u (phase_eq_of_update hu nofun)
  | @write_leave_notify _ woken _ _ _ _ hww => cases woken <;> exact .inr hww
  -- `notify_all` leaves no reader asleep
  | write_leave => exact absurd hu Phase.wakeReader_ne
  | read_wake => exact h.reader u (phase_eq_of_update hu nofun)
  | write_wake => exact h.reader u (phase_eq_of_update hu nofun)

theorem Awake.move_writer (h : s.Awake) (hc : s.Counted) (hm : Move s e s')
    (hr : s'.readers = 0) (hw : s'.writers = 0) : s'.WriterAwake := by
  cases hm with
  -- a thread that enters or goes to sleep leaves the lock taken
  | read_enter => cases hr
  | read_sleep ht => exact (h.writer hr hw).setPhase ht nofun nofun
  | read_reenter => cases hr
  | read_resleep ht => exact (h.writer hr hw).setPhase ht nofun nofun
  | read_leave_notify ht hwoken =>
    apply Wakes.writerAwake
    exact hwoken.setPhase (i := .outside) ht nofun nofun
  -- no writer waits that could sleep
  | read_leave ht _ hww =>
    exact (hc.writerAwake hww).setPhase ht nofun nofun
  | write_enter => cases hw
  | write_sleep _ hbusy => exact absurd hbusy (not_or.mpr ⟨not_not.mpr hr, not_not.mpr hw⟩)
  | write_reenter => cases hw
  | write_resleep _ hbusy => exact absurd hbusy (not_or.mpr ⟨not_not.mpr hr, not_not.mpr hw⟩)
  | write_leave_notify ht hwoken =>
    apply Wakes.writerAwake
    exact hwoken.setPhase (i := .outside) ht nofun nofun
  -- the readers are woken, and again no writer waits
  | @write_leave t woken n ht hn hww =>
    have hmove : Move s (.write_unlock t woken) _ := .write_leave ht hn hww
    exact (hc.move hmove).writerAwake hww
  | read_wake ht => exact (h.writer hr hw).setPhase ht nofun nofun
  | write_wake => exact fun _ _ => ⟨_, phase_setPhase_self⟩

/-! ## When a reader enters -/

section Enter

omit [Fintype Thread]

theorem reading_of_notify_one (h : (s.notify_one woken).phase u = .reading) :
    s.phase u = .reading := by
  cases woken with
  | none => exact h
  | some v =>
    by_cases hu : u = v
    · subst hu
      exact Phase.eq_reading_of_wake (phase_setPhase_self.symm.trans h)
    · exact (phase_setPhase_of_ne hu).symm.trans h

/-- A reader enters while no writer holds the lock or waits for it. -/
theorem Move.enter_reading (hm : Move s e s') (hu : s.phase u ≠ .reading)
    (hu' : s'.phase u = .reading) : s.writers = 0 ∧ s.write_waiters = 0 := by
  cases hm with
  | read_enter _ hw hww => exact ⟨hw, hww⟩
  | read_sleep => exact absurd (phase_eq_of_update hu' nofun) hu
  | read_reenter _ hw hww => exact ⟨hw, hww⟩
  | read_resleep => exact absurd (phase_eq_of_update hu' nofun) hu
  -- a notified thread has not entered yet
  | read_leave_notify =>
    exact absurd (phase_eq_of_update (reading_of_notify_one hu') nofun) hu
  | read_leave => exact absurd (phase_eq_of_update hu' nofun) hu
  | write_enter => exact absurd (phase_eq_of_update hu' nofun) hu
  | write_sleep => exact absurd (phase_eq_of_update hu' nofun) hu
  | write_reenter => exact absurd (phase_eq_of_update hu' nofun) hu
  | write_resleep => exact absurd (phase_eq_of_update hu' nofun) hu
  | write_leave_notify =>
    exact absurd (phase_eq_of_update (reading_of_notify_one hu') nofun) hu
  | write_leave =>
    exact absurd (phase_eq_of_update (Phase.eq_reading_of_wakeReader hu') nofun) hu
  | read_wake => exact absurd (phase_eq_of_update hu' nofun) hu
  | write_wake => exact absurd (phase_eq_of_update hu' nofun) hu

end Enter

/-! ## Every run -/

/-- The invariant of the lock. -/
structure Inv (s : RwLock Thread) : Prop where
  counted : s.Counted
  exclusive : s.Exclusive
  awake : s.Awake

theorem Inv.preserved : (machine Thread).Preserves Inv := by
  intro s e s' h he hs
  have hm : Move s e s' := move_of_step he hs
  exact ⟨h.counted.move hm, h.exclusive.move hm, fun _ => h.awake.move_reader hm,
    h.awake.move_writer h.counted hm⟩

theorem Inv.of_reachable (h : (machine Thread).Reachable s) : s.Inv := by
  refine h.invariant Inv.preserved ?_
  rintro _ rfl
  exact ⟨Counted.init, ⟨zero_le_one, .inl rfl⟩, fun _ => nofun, fun _ _ _ => nofun⟩

/-- No wakeup is lost: if the lock is free and a thread sleeps on it, some thread has been notified
and is going to check again. -/
theorem not_stuck (h : (machine Thread).Reachable s) :
    ¬(s.readers = 0 ∧ s.writers = 0 ∧ (∃ t, (s.phase t).isAsleep) ∧
      ∀ t, ¬(s.phase t).isNotified) := by
  rintro ⟨hr, hw, ⟨t, ht⟩, hnone⟩
  have hinv : s.Inv := Inv.of_reachable h
  -- without a notified writer no writer sleeps, since the lock is free
  have hquiet : ∀ u, s.phase u ≠ .write_waiting true := fun u hu =>
    hnone u (isNotified_iff.mpr (.inr hu))
  have hasleep : ∀ u, s.phase u ≠ .write_waiting false := fun u hu => by
    obtain ⟨v, hv⟩ := hinv.awake.writer hr hw u hu
    exact hquiet v hv
  obtain ht | ht := isAsleep_iff.mp ht
  · -- the reader sleeps because of a writer that waits, and that writer can do neither
    have hww : 0 < number Phase.isWriteWaiting s.phase := by
      have hstand := hinv.awake.reader t ht
      have hcount := hinv.counted.write_waiters
      omega
    obtain ⟨u, hu⟩ := number_pos.mp hww
    cases hphase : s.phase u with
    | write_waiting notified =>
      cases notified with
      | false => exact hasleep u hphase
      | true => exact hquiet u hphase
    | _ => rw [hphase] at hu; cases hu
  · exact hasleep t ht

/-- A reader sleeps while a thread writes, and has been notified when the lock is free again. -/
theorem not_stuck_notified : ∃ s : RwLock (Fin 2), s.readers = 0 ∧ s.writers = 0 ∧
    (s.phase 1).isNotified ∧ ¬(s.readers = 0 ∧ s.writers = 0 ∧ (∃ t, (s.phase t).isAsleep) ∧
      ∀ t, ¬(s.phase t).isNotified) :=
  ⟨_, rfl, rfl, rfl, not_stuck ⟨_, [.write_lock 0, .read_lock 1, .write_unlock 0 none], rfl,
    Machine.run_of_exec rfl⟩⟩

/-- Only one writer holds the lock, or readers do. The counters are the numbers of threads, so none
is decremented at zero. A reader enters while no writer holds the lock or waits for it. -/
theorem excludes (h : (machine Thread).Reachable s) :
    s.writers ≤ 1 ∧ ¬(0 < s.readers ∧ 0 < s.writers) ∧
      s.readers = number Phase.isReading s.phase ∧
      s.read_waiters = number Phase.isReadWaiting s.phase ∧
      s.writers = number Phase.isWriting s.phase ∧
      s.write_waiters = number Phase.isWriteWaiting s.phase ∧
      ∀ e, (machine Thread).enabled s e → ∃ s', (machine Thread).step s e = .ok s' ∧
        ∀ t, s.phase t ≠ .reading → s'.phase t = .reading →
          ∀ u, ¬(s.phase u).isWriting ∧ ¬(s.phase u).isWriteWaiting := by
  have hinv : s.Inv := Inv.of_reachable h
  obtain ⟨hr, hrw, hw, hww⟩ := hinv.counted
  refine ⟨hinv.exclusive.writers_le, ?_, hr, hrw, hw, hww, ?_⟩
  · have hor := hinv.exclusive.readers_or_writers
    omega
  · intro e he
    obtain ⟨s', hs⟩ := hinv.counted.no_underflow he
    refine ⟨s', hs, fun t ht ht' u => ?_⟩
    obtain ⟨hw₀, hww₀⟩ := (move_of_step he hs).enter_reading ht ht'
    have hnone := number_eq_zero.mp (hw.symm.trans hw₀) u
    have hnone' := number_eq_zero.mp (hww.symm.trans hww₀) u
    simp [hnone, hnone']

/-- The writer of three threads holds the lock, and the reader that came after it waits. -/
theorem excludes_writing : ∃ s : RwLock (Fin 3), s.phase 1 = .writing ∧
    s.readers = number Phase.isReading s.phase ∧ s.write_waiters = 0 ∧ s.read_waiters = 1 :=
  have h : (machine (Fin 3)).Reachable _ := ⟨_, [.read_lock 0, .write_lock 1, .read_lock 2,
    .read_unlock 0 (some 1), .recheck 1], rfl, Machine.run_of_exec rfl⟩
  ⟨_, rfl, (excludes h).2.2.1, rfl, rfl⟩

end Invariants

end RwLock

end CodingDemo.Libcpp
