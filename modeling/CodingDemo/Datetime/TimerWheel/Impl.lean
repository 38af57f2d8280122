import CodingDemo.Datetime.Timer
import Mathlib.Data.List.Basic
import Mathlib.Tactic.Linarith
import Mathlib.Tactic.Ring

/-!
# The hierarchy of wheels

A `TimerWheelImpl` has `wheelSize` buckets, one for each of its ticks. A timer that is beyond the
interval of a wheel goes to the wheel above, whose tick is the interval of this one and which is
created when it is needed. Times and ticks are microseconds.

`insert` climbs until it finds the wheel whose interval holds the expiration. The climb is a
recursion on fuel; `fuel` is enough for it, so it obeys the equation of the source, `place_eq`.

## Main definitions

* `TimerWheelImpl`, `Slot`: a wheel, and a bucket with the time `insert` gives to it
* `place`: where `insert` puts an expiration, and the wheels it creates on the way
* `advanceClock`: the clocks of a wheel and of those above it, moved
* `Chained`: each wheel is coarser than the one below, and its clock is not ahead of it
* `Files`: the recursion of `insert`, in which no wheel finds the timer expired

## Main results

* `place_eq`: the recursion of the source
* `exists_files`, `place_of_files`: in chained wheels the recursion ends in a slot
* `place_eq_none`: in chained wheels only an expiration in the first tick is not placed
* `grows_place`, `grows_advanceClock`: the clocks of the wheels never go back
-/

namespace CodingDemo.Libcpp

/-- A bucket is named by the level of its wheel and its index there. -/
structure BucketRef where
  level : ℕ
  id : ℤ
  deriving DecidableEq

/-- What `insert` finds: a bucket, and the expiration time for it. -/
structure Slot where
  bucket : BucketRef
  time : ℤ

/-- A wheel; its buckets are kept by the timer wheel. -/
structure TimerWheelImpl where
  tick : ℤ
  currentTime : ℤ

namespace TimerWheelImpl

/-- The time span of a wheel with `wheelSize` buckets. -/
def interval (wheelSize : ℤ) (w : TimerWheelImpl) : ℤ := w.tick * wheelSize

/-- The index of the bucket for an expiration. -/
def bucketId (wheelSize : ℤ) (w : TimerWheelImpl) (expiration : ℤ) : ℤ :=
  let virtualId := expiration.tdiv w.tick
  virtualId.tmod wheelSize

/-- The wheel above `w`: the existing one with those above it, or a new one. -/
def upperOf (wheelSize : ℤ) (w : TimerWheelImpl) :
    List TimerWheelImpl → TimerWheelImpl × List TimerWheelImpl
  | [] => ({ tick := w.interval wheelSize, currentTime := w.currentTime }, [])
  | u :: us => (u, us)

/-- The climb of `insert` from the wheel `w` with the wheels `ws` above it: the wheels above `w`
afterwards, and the slot. The result of the recursive call is dropped by the source, so a timer
that a wheel above finds expired has no slot. -/
def climb (wheelSize expiration : ℤ) :
    ℕ → ℕ → TimerWheelImpl → List TimerWheelImpl → List TimerWheelImpl × Option Slot
  | 0, _, _, ws => (ws, none)
  | fuel + 1, level, w, ws =>
    if expiration < w.currentTime + w.tick then (ws, none)
    else if expiration < w.currentTime + w.interval wheelSize then
      let id := w.bucketId wheelSize expiration
      (ws, some { bucket := { level, id }, time := w.currentTime + id * w.tick })
    else
      let upper := w.upperOf wheelSize ws
      let r := climb wheelSize expiration fuel (level + 1) upper.1 upper.2
      (upper.1 :: r.1, r.2)

/-- Enough fuel for the climb: each new wheel is at least one microsecond coarser. -/
def fuel (expiration : ℤ) : TimerWheelImpl → List TimerWheelImpl → ℕ
  | w, [] => (expiration - w.currentTime - w.tick).toNat + 1
  | _, u :: us => fuel expiration u us + 1

/-- Where `insert` puts an expiration, starting from the wheel at `level`. -/
def place (wheelSize expiration : ℤ) (level : ℕ) (w : TimerWheelImpl) (ws : List TimerWheelImpl) :
    List TimerWheelImpl × Option Slot :=
  climb wheelSize expiration (fuel expiration w ws) level w ws

/-- The time rounded to a multiple of the tick. -/
def truncate (w : TimerWheelImpl) (current : ℤ) : ℤ :=
  let remain := current.tmod w.tick
  current - remain

/-- Only when at least one tick has passed the clock is moved, and then those above. -/
def advanceClock (expiration : ℤ) (w : TimerWheelImpl) :
    List TimerWheelImpl → TimerWheelImpl × List TimerWheelImpl
  | [] =>
    if expiration < w.currentTime + w.tick then (w, [])
    else ({ w with currentTime := w.truncate expiration }, [])
  | u :: us =>
    if expiration < w.currentTime + w.tick then (w, u :: us)
    else
      let r := advanceClock (w.truncate expiration) u us
      ({ w with currentTime := w.truncate expiration }, r.1 :: r.2)

/-- The wheels above `w` are coarser by the wheel size, and their clocks are not ahead of those
below. -/
def Chained (wheelSize : ℤ) : TimerWheelImpl → List TimerWheelImpl → Prop
  | w, [] => 0 < w.tick ∧ 0 ≤ w.currentTime
  | w, u :: us => 0 < w.tick ∧ 0 ≤ w.currentTime ∧ u.tick = w.interval wheelSize ∧
      u.currentTime ≤ w.currentTime ∧ Chained wheelSize u us

/-- The calls of `insert` from the wheel `w` on, with the wheels `ws` above it. None of the wheels
finds the timer expired, and the last one puts it into `slot`; `r` are then the wheels above `w`. -/
inductive Files (wheelSize expiration : ℤ) :
    ℕ → TimerWheelImpl → List TimerWheelImpl → List TimerWheelImpl → Slot → Prop
  | here {level : ℕ} {w : TimerWheelImpl} {ws : List TimerWheelImpl}
      (htick : w.currentTime + w.tick ≤ expiration)
      (hlt : expiration < w.currentTime + w.interval wheelSize) :
      Files wheelSize expiration level w ws ws
        { bucket := { level, id := w.bucketId wheelSize expiration }
          time := w.currentTime + w.bucketId wheelSize expiration * w.tick }
  | overflow {level : ℕ} {w : TimerWheelImpl} {ws r : List TimerWheelImpl} {slot : Slot}
      (htick : w.currentTime + w.tick ≤ expiration)
      (hle : w.currentTime + w.interval wheelSize ≤ expiration)
      (hupper : Files wheelSize expiration (level + 1) (w.upperOf wheelSize ws).1
        (w.upperOf wheelSize ws).2 r slot) :
      Files wheelSize expiration level w ws ((w.upperOf wheelSize ws).1 :: r) slot

/-- The wheels `ws'` continue the wheels `ws`: no wheel is lost, and no clock goes back. -/
def Grows (ws ws' : List TimerWheelImpl) : Prop :=
  ∀ (k : ℕ) (w : TimerWheelImpl), ws[k]? = some w → ∃ w' : TimerWheelImpl, ws'[k]? = some w' ∧
    w'.tick = w.tick ∧ w.currentTime ≤ w'.currentTime

variable {wheelSize expiration : ℤ} {w : TimerWheelImpl} {ws : List TimerWheelImpl} {level : ℕ}

/-! ## The climb does not run out of fuel -/

/-- All ticks from `w` on are positive. -/
def TicksPos (w : TimerWheelImpl) (ws : List TimerWheelImpl) : Prop := ∀ v ∈ w :: ws, 0 < v.tick

theorem Chained.of_mem : ∀ {w : TimerWheelImpl} {ws : List TimerWheelImpl},
    Chained wheelSize w ws → ∀ v ∈ w :: ws, 0 < v.tick ∧ 0 ≤ v.currentTime := by
  intro w ws
  induction ws generalizing w with
  | nil =>
    intro h v hv
    obtain rfl := List.mem_singleton.mp hv
    exact h
  | cons u us ih =>
    intro h v hv
    rcases List.mem_cons.mp hv with rfl | hv
    · exact ⟨h.1, h.2.1⟩
    · exact ih h.2.2.2.2 v hv

theorem Chained.ticksPos (h : Chained wheelSize w ws) : TicksPos w ws :=
  fun v hv => (h.of_mem v hv).1

theorem interval_gt (hN : 2 ≤ wheelSize) (hw : 0 < w.tick) : w.tick < w.interval wheelSize := by
  unfold interval
  nlinarith

theorem TicksPos.upperOf (h : TicksPos w ws) (hN : 2 ≤ wheelSize) :
    TicksPos (w.upperOf wheelSize ws).1 (w.upperOf wheelSize ws).2 := by
  cases ws with
  | nil =>
    intro v hv
    obtain rfl := List.mem_singleton.mp hv
    exact (h w List.mem_cons_self).trans (interval_gt hN (h w List.mem_cons_self))
  | cons u us => exact fun v hv => h v (List.mem_cons_of_mem _ hv)

/-- The wheel above needs less fuel. -/
theorem fuel_upperOf (ws : List TimerWheelImpl) (hN : 2 ≤ wheelSize) (hw : 0 < w.tick)
    (hle : w.currentTime + w.interval wheelSize ≤ expiration) :
    fuel expiration (w.upperOf wheelSize ws).1 (w.upperOf wheelSize ws).2 + 1 ≤
      fuel expiration w ws := by
  cases ws with
  | nil =>
    -- the tick of a new wheel is greater, so the first tick there ends later
    have hgt := interval_gt hN hw
    show (expiration - w.currentTime - w.interval wheelSize).toNat + 1 + 1 ≤
      (expiration - w.currentTime - w.tick).toNat + 1
    omega
  | cons u us => exact le_rfl

/-- More fuel than enough changes nothing. -/
theorem climb_eq_place (hN : 2 ≤ wheelSize) :
    ∀ {f level : ℕ} {w : TimerWheelImpl} {ws : List TimerWheelImpl}, TicksPos w ws →
      fuel expiration w ws ≤ f →
      climb wheelSize expiration f level w ws = place wheelSize expiration level w ws := by
  -- the induction is on the fuel, since the climb may create the wheel it goes on with
  have key : ∀ {f g level : ℕ} {w : TimerWheelImpl} {ws : List TimerWheelImpl}, TicksPos w ws →
      fuel expiration w ws ≤ f → fuel expiration w ws ≤ g →
      climb wheelSize expiration f level w ws = climb wheelSize expiration g level w ws := by
    intro f
    induction f with
    | zero =>
      intro g level w ws _ hf _
      cases ws <;> simp [fuel] at hf
    | succ f ih =>
      intro g level w ws hpos hf hg
      obtain ⟨g, rfl⟩ : ∃ m, g = m + 1 := by
        cases g with
        | zero => cases ws <;> simp [fuel] at hg
        | succ m => exact ⟨m, rfl⟩
      simp only [climb]
      split_ifs with h₁ h₂
      · rfl
      · rfl
      · have hless := fuel_upperOf ws hN (hpos w List.mem_cons_self) (not_lt.mp h₂)
        rw [ih (hpos.upperOf hN) (by omega) (by omega : _ ≤ g)]
  intro f level w ws hpos hf
  exact key hpos hf le_rfl

/-- **The recursion of `insert`.** -/
theorem place_eq (hN : 2 ≤ wheelSize) (hpos : TicksPos w ws) :
    place wheelSize expiration level w ws =
      if expiration < w.currentTime + w.tick then (ws, none)
      else if expiration < w.currentTime + w.interval wheelSize then
        (ws, some
          { bucket := { level, id := w.bucketId wheelSize expiration }
            time := w.currentTime + w.bucketId wheelSize expiration * w.tick })
      else
        let upper := w.upperOf wheelSize ws
        let r := place wheelSize expiration (level + 1) upper.1 upper.2
        (upper.1 :: r.1, r.2) := by
  rw [← climb_eq_place hN hpos (Nat.le_succ (fuel expiration w ws))]
  simp only [climb]
  split_ifs with h₁ h₂
  · rfl
  · rfl
  -- the recursive call has the fuel that `place` gives it, or more
  · have hless := fuel_upperOf ws hN (hpos w List.mem_cons_self) (not_lt.mp h₂)
    rw [climb_eq_place hN (hpos.upperOf hN) (by omega)]

/-! ## Where the climb ends -/

/-- The slot is the bucket of a wheel whose interval holds the expiration. -/
theorem climb_slot {r : List TimerWheelImpl} {s : Slot} {f : ℕ} :
    ∀ {level : ℕ} {w : TimerWheelImpl} {ws : List TimerWheelImpl},
      climb wheelSize expiration f level w ws = (r, some s) →
      ∃ k v, (w :: r)[k]? = some v ∧
        s.bucket = { level := level + k, id := v.bucketId wheelSize expiration } ∧
        s.time = v.currentTime + v.bucketId wheelSize expiration * v.tick ∧
        v.currentTime + v.tick ≤ expiration := by
  induction f generalizing r with
  | zero =>
    intro level w ws h
    cases (Prod.mk.inj h).2
  | succ f ih =>
    intro level w ws h
    simp only [climb] at h
    split_ifs at h with h₁ h₂
    -- the expiration is in the first tick, and there is no slot
    · cases (Prod.mk.inj h).2
    -- it is in the interval of this wheel
    · obtain ⟨rfl, hs⟩ := Prod.mk.inj h
      obtain rfl := Option.some.inj hs
      exact ⟨0, w, rfl, rfl, rfl, not_lt.mp h₁⟩
    -- it is beyond, and the slot is one of a wheel above
    · obtain ⟨rfl, hs⟩ := Prod.mk.inj h
      obtain ⟨k, v, hk, hb, ht, hle⟩ := ih (Prod.ext rfl hs)
      refine ⟨k + 1, v, hk, ?_, ht, hle⟩
      rw [hb, Nat.add_assoc, Nat.add_comm 1 k]

/-- The wheel above, be it a new one, is not ahead. -/
theorem Chained.upperOf (h : Chained wheelSize w ws) (hN : 2 ≤ wheelSize) :
    Chained wheelSize (w.upperOf wheelSize ws).1 (w.upperOf wheelSize ws).2 ∧
      (w.upperOf wheelSize ws).1.tick = w.interval wheelSize ∧
      (w.upperOf wheelSize ws).1.currentTime ≤ w.currentTime := by
  cases ws with
  -- the new wheel has the clock of this one
  | nil => exact ⟨⟨h.1.trans (interval_gt hN h.1), h.2⟩, rfl, le_rfl⟩
  | cons u us => exact ⟨h.2.2.2.2, h.2.2.1, h.2.2.2.1⟩

/-- The recursion is the one of `insert`. -/
theorem place_of_files (hN : 2 ≤ wheelSize) (hpos : TicksPos w ws)
    (h : Files wheelSize expiration level w ws r slot) :
    place wheelSize expiration level w ws = (r, some slot) := by
  induction h with
  | here htick hlt => rw [place_eq hN hpos, if_neg (not_lt.mpr htick), if_pos hlt]
  | overflow htick hle _ ih =>
    rw [place_eq hN hpos, if_neg (not_lt.mpr htick), if_neg (not_lt.mpr hle)]
    simp only [ih (hpos.upperOf hN)]

/-- The recursion ends, and no wheel above finds the timer expired. -/
theorem exists_files (level : ℕ) (hN : 2 ≤ wheelSize) (hc : Chained wheelSize w ws)
    (htick : w.currentTime + w.tick ≤ expiration) :
    ∃ r slot, Files wheelSize expiration level w ws r slot := by
  generalize hf : fuel expiration w ws = f
  -- the induction is on the fuel, which a call for the wheel above has less of
  induction f using Nat.strong_induction_on generalizing level w ws with
  | _ f ih =>
    by_cases hlt : expiration < w.currentTime + w.interval wheelSize
    · exact ⟨ws, _, .here htick hlt⟩
    · have hle := not_lt.mp hlt
      have hless := fuel_upperOf ws hN (hc.of_mem w List.mem_cons_self).1 hle
      obtain ⟨hupper, htick', hbehind⟩ := hc.upperOf hN
      have htick'' : (w.upperOf wheelSize ws).1.currentTime + (w.upperOf wheelSize ws).1.tick ≤
          expiration := by
        rw [htick']
        omega
      obtain ⟨r, slot, hfiles⟩ := ih _ (by omega) (level + 1) hupper htick'' rfl
      exact ⟨_, slot, .overflow htick hle hfiles⟩

/-- In chained wheels an expiration is placed unless it is in the first tick. -/
theorem place_eq_none (hN : 2 ≤ wheelSize) (hc : Chained wheelSize w ws) :
    (place wheelSize expiration level w ws).2 = none ↔ expiration < w.currentTime + w.tick := by
  constructor
  · intro hnone
    by_contra htick
    obtain ⟨r, slot, hfiles⟩ := exists_files level hN hc (not_lt.mp htick)
    rw [place_of_files hN hc.ticksPos hfiles] at hnone
    cases hnone
  · intro h
    rw [place_eq hN hc.ticksPos, if_pos h]

/-! ## The clocks of the wheels -/

theorem Grows.refl (ws : List TimerWheelImpl) : Grows ws ws :=
  fun _ _ h => ⟨_, h, rfl, le_rfl⟩

theorem Grows.trans {ws' ws'' : List TimerWheelImpl} (h : Grows ws ws') (h' : Grows ws' ws'') :
    Grows ws ws'' := by
  intro k w hk
  obtain ⟨w', hk', htick, hle⟩ := h k w hk
  obtain ⟨w'', hk'', htick', hle'⟩ := h' k w' hk'
  exact ⟨w'', hk'', htick'.trans htick, hle.trans hle'⟩

theorem Grows.cons {w' : TimerWheelImpl} {ws' : List TimerWheelImpl} (htick : w'.tick = w.tick)
    (hle : w.currentTime ≤ w'.currentTime) (h : Grows ws ws') : Grows (w :: ws) (w' :: ws') := by
  intro k v hk
  cases k with
  | zero =>
    obtain rfl := Option.some.inj hk
    exact ⟨w', rfl, htick, hle⟩
  | succ k => exact h k v hk

theorem grows_climb {f : ℕ} : ∀ {level : ℕ} {w : TimerWheelImpl} {ws : List TimerWheelImpl},
    Grows ws (climb wheelSize expiration f level w ws).1 := by
  induction f with
  | zero =>
    intro level w ws
    exact Grows.refl ws
  | succ f ih =>
    intro level w ws
    simp only [climb]
    split_ifs
    · exact Grows.refl ws
    · exact Grows.refl ws
    · cases ws with
      -- there was no wheel above, so the new one continues none
      | nil => exact fun _ _ h => nomatch h
      | cons u us => exact Grows.cons rfl le_rfl ih

theorem grows_place : Grows (w :: ws) (w :: (place wheelSize expiration level w ws).1) :=
  Grows.cons rfl le_rfl grows_climb

theorem ticksPos_climb (hN : 2 ≤ wheelSize) {f : ℕ} :
    ∀ {level : ℕ} {w : TimerWheelImpl} {ws : List TimerWheelImpl}, TicksPos w ws →
      TicksPos w (climb wheelSize expiration f level w ws).1 := by
  induction f with
  | zero => exact fun h => h
  | succ f ih =>
    intro level w ws h
    simp only [climb]
    split_ifs
    · exact h
    · exact h
    · intro v hv
      rcases List.mem_cons.mp hv with rfl | hv
      · exact h v List.mem_cons_self
      · exact ih (h.upperOf hN) v hv

theorem chained_climb (hN : 2 ≤ wheelSize) {f : ℕ} :
    ∀ {level : ℕ} {w : TimerWheelImpl} {ws : List TimerWheelImpl}, Chained wheelSize w ws →
      Chained wheelSize w (climb wheelSize expiration f level w ws).1 := by
  induction f with
  | zero => exact fun h => h
  | succ f ih =>
    intro level w ws h
    simp only [climb]
    split_ifs
    · exact h
    · exact h
    · obtain ⟨hupper, htick, hbehind⟩ := h.upperOf hN
      obtain ⟨hpos, hnonneg⟩ := h.of_mem w List.mem_cons_self
      exact ⟨hpos, hnonneg, htick, hbehind, ih hupper⟩

/-- Rounding loses less than a tick. -/
theorem lt_truncate (hw : 0 < w.tick) (current : ℤ) : current - w.tick < w.truncate current := by
  have h := Int.tmod_lt_of_pos current hw
  simp only [truncate]
  omega

theorem truncate_le {current : ℤ} (hcur : 0 ≤ current) : w.truncate current ≤ current := by
  have h := Int.tmod_nonneg w.tick hcur
  simp only [truncate]
  omega

theorem ticksPos_advanceClock :
    ∀ {expiration : ℤ} {w : TimerWheelImpl} {ws : List TimerWheelImpl}, TicksPos w ws →
      TicksPos (advanceClock expiration w ws).1 (advanceClock expiration w ws).2 := by
  intro expiration w ws
  induction ws generalizing expiration w with
  | nil =>
    intro h v hv
    have hw : 0 < w.tick := h w List.mem_cons_self
    simp only [advanceClock] at hv
    split_ifs at hv <;> (obtain rfl := List.mem_singleton.mp hv; exact hw)
  | cons u us ih =>
    intro h
    have hw : 0 < w.tick := h w List.mem_cons_self
    have hus : TicksPos u us := fun v hv => h v (List.mem_cons_of_mem _ hv)
    simp only [advanceClock]
    split_ifs
    · exact h
    · intro v hv
      rcases List.mem_cons.mp hv with rfl | hv
      · exact hw
      · exact ih hus v hv

theorem grows_advanceClock :
    ∀ {expiration : ℤ} {w : TimerWheelImpl} {ws : List TimerWheelImpl}, TicksPos w ws →
      Grows (w :: ws) ((advanceClock expiration w ws).1 :: (advanceClock expiration w ws).2) := by
  intro expiration w ws
  induction ws generalizing expiration w with
  | nil =>
    intro h
    have hlt := lt_truncate (h w List.mem_cons_self) expiration
    simp only [advanceClock]
    split_ifs
    · exact Grows.refl _
    · refine Grows.cons rfl ?_ (Grows.refl _)
      show w.currentTime ≤ w.truncate expiration
      omega
  | cons u us ih =>
    intro h
    have hlt := lt_truncate (h w List.mem_cons_self) expiration
    simp only [advanceClock]
    split_ifs
    · exact Grows.refl _
    · refine Grows.cons rfl ?_ (ih fun v hv => h v (List.mem_cons_of_mem _ hv))
      show w.currentTime ≤ w.truncate expiration
      omega

theorem advanceClock_fst_le (w : TimerWheelImpl) (ws : List TimerWheelImpl) {e : ℤ} (he : 0 ≤ e) :
    (advanceClock e w ws).1.currentTime ≤ max w.currentTime e := by
  -- the clock of the lowest wheel is moved in the same way whatever is above it
  cases ws <;>
  · simp only [advanceClock]
    split_ifs
    · exact le_max_left _ _
    · exact (truncate_le he).trans (le_max_right _ _)

theorem tick_advanceClock {e : ℤ} : (advanceClock e w ws).1.tick = w.tick := by
  cases ws <;>
  · simp only [advanceClock]
    split_ifs <;> rfl

/-- Moving the clocks keeps the wheels chained: a wheel is moved to a time its lower neighbour has
reached, rounded down. -/
theorem chained_advanceClock :
    ∀ {e : ℤ} {w : TimerWheelImpl} {ws : List TimerWheelImpl}, Chained wheelSize w ws →
      Chained wheelSize (advanceClock e w ws).1 (advanceClock e w ws).2 := by
  intro e w ws
  induction ws generalizing e w with
  | nil =>
    intro h
    have hlt := lt_truncate h.1 e
    have h0 := h.2
    simp only [advanceClock]
    split_ifs
    · exact h
    · exact ⟨h.1, show 0 ≤ w.truncate e by omega⟩
  | cons u us ih =>
    intro h
    have hlt := lt_truncate h.1 e
    have h0 := h.2.1
    have hle := h.2.2.2.1
    simp only [advanceClock]
    split_ifs with hlate
    · exact h
    · have htr : 0 ≤ w.truncate e := by omega
      have hfst := advanceClock_fst_le u us htr
      refine ⟨h.1, htr, ?_, ?_, ih h.2.2.2.2⟩
      · rw [tick_advanceClock]
        exact h.2.2.1
      -- the wheel above is moved to a time that this one has reached
      · show (advanceClock (w.truncate e) u us).1.currentTime ≤ w.truncate e
        omega

end TimerWheelImpl

end CodingDemo.Libcpp
