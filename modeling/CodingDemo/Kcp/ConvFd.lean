import CodingDemo.Io.Eventfd
import Mathlib.Data.BitVec

/-!
# An eventfd that hands over conversation ids

The KCP layer notifies its user of a conversation by writing the id to an eventfd, and the user
reads it from there.

## Main definitions

* `ConvFd`: the eventfd, with the ids that have been notified and returned
* `notify`, `take`: a notification, and a read
* `Delivered`: the reads return the ids that have been notified
* `FdAccess.Alone`: a notification finds the eventfd empty, and a read does not

## Main results

* `delivered_apply_iff`: which accesses keep the ids as they are
-/

namespace CodingDemo.Libcpp

/-- The 64 bits of a counter as an `int64_t`. -/
def int64 (n : ℕ) : ℤ := (BitVec.ofNat 64 n).toInt

/-- The conversion of an `int64_t` to an `IUINT32`. -/
def iuint32 (n : ℕ) : ℤ := (BitVec.ofNat 32 n).toNat

theorem int64_toNat (conv : BitVec 32) : int64 conv.toNat = conv.toNat := by
  have hlt := conv.isLt
  rw [int64, BitVec.toInt_ofNat', Int.bmod_eq_of_le_mul_two (by omega) (by omega)]

theorem iuint32_toNat (conv : BitVec 32) : iuint32 conv.toNat = conv.toNat := by
  rw [iuint32, BitVec.toNat_ofNat, Nat.mod_eq_of_lt conv.isLt]

structure ConvFd where
  fd : Eventfd := {}
  /-- The ids that have been notified. -/
  notified : List ℤ := []
  /-- The ids that reads have returned. -/
  returned : List ℤ := []
  deriving DecidableEq

/-- An access to the eventfd. -/
inductive FdAccess
  | notify (conv : BitVec 32)
  | take
  deriving DecidableEq

namespace ConvFd

variable (cast : ℕ → ℤ)

/-- The write of a notification; it is logged when it fails. -/
def notify (f : ConvFd) (conv : BitVec 32) : ConvFd :=
  { f with fd := f.fd.write conv.toNat, notified := f.notified ++ [(conv.toNat : ℤ)] }

/-- The variable `id` after a read; it is still 1 when the read has failed. -/
def id (f : ConvFd) : ℕ := f.fd.read?.getD 1

/-- A read, which returns `id` as `cast` converts it. -/
def take (f : ConvFd) : ConvFd :=
  { f with fd := f.fd.cleared, returned := f.returned ++ [cast f.id] }

/-- What the next read returns, unless it fails. -/
def pending (f : ConvFd) : List ℤ := (f.fd.read?.map cast).toList

/-- The ids that have been returned, and the one that the next read returns, are those that have
been notified, in order. -/
def Delivered (f : ConvFd) : Prop := f.returned ++ f.pending cast = f.notified

instance (f : ConvFd) : Decidable (f.Delivered cast) :=
  inferInstanceAs (Decidable (f.returned ++ f.pending cast = f.notified))

end ConvFd

namespace FdAccess

variable (cast : ℕ → ℤ)

def apply : FdAccess → ConvFd → ConvFd
  | .notify conv, f => f.notify conv
  | .take, f => f.take cast

/-- A notification has the eventfd for itself, and a read finds one. -/
def Alone (f : ConvFd) : FdAccess → Prop
  | .notify conv => f.fd.counter = 0 ∧ conv ≠ 0
  | .take => f.fd.counter ≠ 0

instance (f : ConvFd) : (a : FdAccess) → Decidable (a.Alone f)
  | .notify conv => inferInstanceAs (Decidable (f.fd.counter = 0 ∧ conv ≠ 0))
  | .take => inferInstanceAs (Decidable (f.fd.counter ≠ 0))

end FdAccess

namespace ConvFd

variable {cast : ℕ → ℤ} {f : ConvFd} {conv : BitVec 32}

theorem pending_of_zero (h : f.fd.counter = 0) : f.pending cast = [] := by
  rw [pending, Eventfd.read?, if_pos h]
  rfl

theorem pending_of_ne_zero (h : f.fd.counter ≠ 0) : f.pending cast = [cast f.id] := by
  rw [pending, id, Eventfd.read?, if_neg h]
  rfl

theorem id_of_ne_zero (h : f.fd.counter ≠ 0) : f.id = f.fd.counter := by
  rw [id, Eventfd.read?, if_neg h]
  rfl

theorem length_pending : (f.pending cast).length = if f.fd.counter = 0 then 0 else 1 := by
  split_ifs with h
  · rw [pending_of_zero h]
    rfl
  · rw [pending_of_ne_zero h]
    rfl

/-- The ids are counted: at most one of them is in the eventfd. -/
theorem Delivered.length (h : f.Delivered cast) :
    f.returned.length + (if f.fd.counter = 0 then 0 else 1) = f.notified.length := by
  rw [← length_pending, ← List.length_append]
  exact congrArg List.length h

theorem counter_notify_eq_zero :
    (f.notify conv).fd.counter = 0 ↔ f.fd.counter = 0 ∧ conv = 0 := by
  have hle : conv.toNat ≤ Eventfd.max := by
    have hlt := conv.isLt
    unfold Eventfd.max
    omega
  rw [BitVec.toNat_eq]
  exact Eventfd.counter_write_eq_zero hle

theorem counter_notify (hzero : f.fd.counter = 0) : (f.notify conv).fd.counter = conv.toNat := by
  have hle : f.fd.counter + conv.toNat ≤ Eventfd.max := by
    have hlt := conv.isLt
    rw [hzero, Eventfd.max]
    omega
  exact (Eventfd.counter_write hle).trans (by rw [hzero, Nat.zero_add])

theorem delivered_notify_iff (hcast : ∀ conv : BitVec 32, cast conv.toNat = conv.toNat)
    (h : f.Delivered cast) :
    (f.notify conv).Delivered cast ↔ f.fd.counter = 0 ∧ conv ≠ 0 := by
  constructor
  · intro h'
    -- otherwise the eventfd is as full as before, with one notification more
    have hlength := h.length
    have hlength' : f.returned.length + (if (f.notify conv).fd.counter = 0 then 0 else 1) =
        (f.notified ++ [(conv.toNat : ℤ)]).length := h'.length
    rw [List.length_append, List.length_singleton] at hlength'
    by_cases hempty : (f.notify conv).fd.counter = 0
    · rw [if_pos (counter_notify_eq_zero.mp hempty).1] at hlength
      rw [if_pos hempty] at hlength'
      omega
    · rw [if_neg hempty] at hlength'
      have hzero : f.fd.counter = 0 := by
        by_contra hne
        rw [if_neg hne] at hlength
        omega
      exact ⟨hzero, fun hconv => hempty (counter_notify_eq_zero.mpr ⟨hzero, hconv⟩)⟩
  · rintro ⟨hzero, hconv⟩
    have hne : (f.notify conv).fd.counter ≠ 0 :=
      fun heq => hconv (counter_notify_eq_zero.mp heq).2
    unfold Delivered at h ⊢
    rw [pending_of_zero hzero, List.append_nil] at h
    rw [pending_of_ne_zero hne, id_of_ne_zero hne, counter_notify hzero, hcast]
    exact congrArg (· ++ [(conv.toNat : ℤ)]) h

theorem delivered_take_iff (h : f.Delivered cast) :
    (f.take cast).Delivered cast ↔ f.fd.counter ≠ 0 := by
  constructor
  · intro h' hzero
    -- a read that fails returns an id all the same
    have hlength := h.length
    have hlength' : (f.returned ++ [cast f.id]).length + 0 = f.notified.length := h'.length
    rw [if_pos hzero] at hlength
    rw [List.length_append, List.length_singleton] at hlength'
    omega
  · intro hne
    unfold Delivered at h ⊢
    rw [pending_of_ne_zero hne] at h
    have hempty : (f.take cast).pending cast = [] := pending_of_zero rfl
    rw [hempty, List.append_nil]
    exact h

/-- An access hands over the ids that have been notified if and only if a notification has the
eventfd for itself, and a read finds one. -/
theorem delivered_apply_iff (hcast : ∀ conv : BitVec 32, cast conv.toNat = conv.toNat)
    (h : f.Delivered cast) (a : FdAccess) : (a.apply cast f).Delivered cast ↔ a.Alone f := by
  cases a with
  | notify conv => exact delivered_notify_iff hcast h
  | take => exact delivered_take_iff h

end ConvFd

end CodingDemo.Libcpp
