import CodingDemo.Datetime.TimerWheel.DelayQueue

/-!
# Overflow in the hierarchy of wheels

A timer beyond the interval of a wheel is inserted into the wheel above, whose result is dropped:
if that wheel took the timer for an expired one, the timer would be lost. It does not, since its
clock is not ahead of the one below, whatever inserts and clock advances came before.

The wheels are constructed with the time of day, which is not negative.

## Main definitions

* `Descending`: no clock is ahead of the one below it
* `WheelCall`, `wheelMachine`: the calls that change the timer wheel, in any order

## Main results

* `Files.bucket`: the recursion ends at a bucket that exists
* `insert_files`: in every state a timer that has not expired is filed in one bucket
-/

namespace CodingDemo.Libcpp

namespace TimerWheelImpl

variable {wheelSize expiration : ℤ} {w : TimerWheelImpl} {ws r : List TimerWheelImpl} {level : ℕ}
  {slot : Slot}

/-- The slot is in a wheel that exists, and is one of its buckets. -/
theorem Files.bucket (h : Files wheelSize expiration level w ws r slot) (hN : 2 ≤ wheelSize)
    (hpos : TicksPos w ws) (hexp : 0 ≤ expiration) :
    slot.bucket.level ≤ level + r.length ∧ 0 ≤ slot.bucket.id ∧ slot.bucket.id < wheelSize := by
  induction h with
  | here htick hlt =>
    have hdiv := Int.tdiv_nonneg hexp (hpos _ List.mem_cons_self).le
    exact ⟨Nat.le_add_right _ _, Int.tmod_nonneg _ hdiv, Int.tmod_lt_of_pos _ (by omega)⟩
  | overflow htick hle _ ih =>
    obtain ⟨hlevel, hid⟩ := ih (hpos.upperOf hN)
    refine ⟨?_, hid⟩
    rw [List.length_cons]
    omega

/-- No clock is ahead of the one of the wheel below. -/
def Descending (wheels : List TimerWheelImpl) : Prop :=
  wheels.IsChain fun w u => u.currentTime ≤ w.currentTime

theorem Chained.descending (h : Chained wheelSize w ws) : Descending (w :: ws) := by
  induction ws generalizing w with
  | nil => exact .singleton w
  | cons u us ih => exact List.isChain_cons_cons.mpr ⟨h.2.2.2.1, ih h.2.2.2.2⟩

end TimerWheelImpl

namespace TimerWheel

open TimerWheelImpl

variable (W : WheelConfig)

/-- The calls that change a timer wheel and its timers. -/
inductive WheelCall
  | addTimer (timer : ℕ) (when_ : ℤ) (interval : Double)
  | restart (timer : ℕ) (now : ℤ)
  | deleteTimer (timer : ℕ)
  | insert (timer : ℕ)
  | advanceClock (expiration : ℤ)
  | getExpired (now : ℤ)
  | cancelInLoop (timer : ℕ)

def callStep (q : TimerWheel) : WheelCall → Except Fault TimerWheel
  | .addTimer timer when_ interval => .ok (q.addTimer timer when_ interval)
  | .restart timer now => .ok { q with heap := q.heap.modify timer (Timer.restart now) }
  | .deleteTimer timer => q.deleteTimer timer
  | .insert timer => (q.insert W timer).map Prod.snd
  | .advanceClock expiration =>
    let r := q.timerWheel.advanceClock expiration q.upperTimerWheels
    .ok { q with timerWheel := r.1, upperTimerWheels := r.2 }
  | .getExpired now => .ok (q.getExpired now q.delayQueue).2
  | .cancelInLoop timer => q.cancelInLoop (addTimerId timer)

/-- The runs of a timer wheel that has just been constructed; the calls come in any order. -/
def wheelMachine : Machine TimerWheel WheelCall Fault where
  init q := ∃ clock numCreated, 0 ≤ clock ∧ q = TimerWheel.init W clock numCreated
  enabled _ _ := True
  step := callStep W

instance (q : TimerWheel) (e : WheelCall) : Decidable ((wheelMachine W).enabled q e) :=
  isTrue trivial

variable {W} {q q' : TimerWheel}

/-- The wheels are chained, and `delayHashTable_` finds the queued buckets. -/
structure WheelInv (W : WheelConfig) (q : TimerWheel) : Prop where
  chained : Chained W.wheelSize q.timerWheel q.upperTimerWheels
  linked : Linked q.delayQueue q.delayHashTable q.nextNode

theorem WheelInv.of_init (h : (wheelMachine W).init q) : WheelInv W q := by
  obtain ⟨clock, numCreated, hclock, rfl⟩ := h
  exact ⟨⟨W.tick_pos, hclock⟩, (Inv.init W clock numCreated).linked⟩

theorem WheelInv.callStep {e : WheelCall} (h : WheelInv W q) (hs : q.callStep W e = .ok q') :
    WheelInv W q' := by
  cases e with
  | addTimer timer when_ interval =>
    obtain rfl := Except.ok.inj hs
    unfold TimerWheel.addTimer
    split_ifs
    · exact ⟨h.chained, h.linked⟩
    · exact h
  | restart timer now =>
    obtain rfl := Except.ok.inj hs
    exact ⟨h.chained, h.linked⟩
  | deleteTimer timer =>
    cases hd : q.heap.delete timer with
    | none => simp [TimerWheel.callStep, TimerWheel.deleteTimer, hd] at hs
    | some heap =>
      obtain rfl := Except.ok.inj ((deleteTimer_eq hd).symm.trans hs)
      exact ⟨h.chained, h.linked⟩
  | insert timer =>
    cases hins : q.insert W timer with
    | error f => simp [TimerWheel.callStep, hins, Except.map] at hs
    | ok r =>
      obtain ⟨expired, q₁⟩ := r
      obtain rfl : q₁ = q' := by simpa [TimerWheel.callStep, hins, Except.map] using hs
      obtain ⟨t, -, -, hinserted⟩ := insert_ok h.linked hins
      -- an insertion may create wheels above the ones that exist
      have hchained : Chained W.wheelSize q.timerWheel (q.place W t.expiration).1 :=
        chained_climb W.two_le_wheelSize h.chained
      refine ⟨?_, hinserted.linked h.linked⟩
      cases hinserted with
      | skipped => exact hchained
      | filed => exact hchained
  | advanceClock expiration =>
    obtain rfl := Except.ok.inj hs
    exact ⟨chained_advanceClock h.chained, h.linked⟩
  | getExpired now =>
    obtain rfl := Except.ok.inj hs
    obtain ⟨table, hget, hlinked, -⟩ := getExpired_eq now rfl h.linked
    rw [hget]
    exact ⟨h.chained, hlinked⟩
  | cancelInLoop timer =>
    obtain ⟨b, n, timers, h', -, -, -, rfl⟩ := cancelInLoop_ok hs
    exact ⟨h.chained, h.linked⟩

theorem WheelInv.of_reachable (h : (wheelMachine W).Reachable q) : WheelInv W q :=
  h.invariant (fun _ _ _ h _ hs => h.callStep hs) fun _ => WheelInv.of_init

theorem values_pushTimer (slot : Slot) (timer : ℕ) (b : BucketRef) :
    ((q.pushTimer slot timer).buckets b).timers.values =
      (q.buckets b).timers.values ++ if b = slot.bucket then [timer] else [] := by
  by_cases hb : b = slot.bucket
  · subst hb
    simp [pushTimer, NodeList.values]
  · simp [pushTimer, hb]

/-- A timer that has not expired is filed in the slot where the recursion ends. -/
theorem WheelInv.exists_insert (h : WheelInv W q) {timer : ℕ} {t : Timer}
    (ht : q.heap.get? timer = some t)
    (htick : q.timerWheel.currentTime + q.timerWheel.tick ≤ t.expiration) :
    ∃ upper slot q', Files W.wheelSize t.expiration 0 q.timerWheel q.upperTimerWheels upper slot ∧
      slot.bucket.level ≤ upper.length ∧ W.HasBucket slot.bucket ∧
      q.insert W timer = .ok (false, q') ∧ q'.timerWheel = q.timerWheel ∧
      q'.upperTimerWheels = upper ∧ ∀ b, (q'.buckets b).timers.values =
        (q.buckets b).timers.values ++ if b = slot.bucket then [timer] else [] := by
  have hN := W.two_le_wheelSize
  have hpos := h.chained.ticksPos
  -- the clock is not negative, so the bucket number is not either
  have hexp : 0 ≤ t.expiration := by
    have hbase := h.chained.of_mem q.timerWheel List.mem_cons_self
    omega
  obtain ⟨upper, slot, hfiles⟩ := exists_files 0 hN h.chained htick
  obtain ⟨hlevel, hid⟩ := hfiles.bucket hN hpos hexp
  have hplace : q.place W t.expiration = (upper, some slot) := place_of_files hN hpos hfiles
  obtain ⟨q', hins, hinserted⟩ := insert_eq h.linked ht fun slot' hslot' => by
    rw [hplace] at hslot'
    exact Option.some.inj hslot' ▸ hid.1
  have hfalse : q.isExpired t.expiration = false := decide_eq_false (not_lt.mpr htick)
  rw [hfalse] at hins
  cases hinserted with
  | skipped hslot =>
    -- only an expired timer is skipped
    rw [hplace] at hslot
    cases hslot
  | filed hslot =>
    rw [hplace] at hslot
    obtain rfl := Option.some.inj hslot
    refine ⟨upper, slot, _, hfiles, by omega, hid, hins, rfl, congrArg Prod.fst hplace, fun b => ?_⟩
    exact values_pushTimer slot timer b

/-- **Overflow insertion ends and files the timer.** In every state reached by the calls no clock is
ahead of the one below it; hence the recursion of `insert` ends without a wheel that takes a timer
for expired that is not, and the timer is put into one bucket. -/
theorem insert_files (h : (wheelMachine W).Reachable q) :
    Descending (q.timerWheel :: q.upperTimerWheels) ∧
      ∀ timer t, q.heap.get? timer = some t →
        q.timerWheel.currentTime + q.timerWheel.tick ≤ t.expiration →
        ∃ upper slot q',
          Files W.wheelSize t.expiration 0 q.timerWheel q.upperTimerWheels upper slot ∧
          slot.bucket.level ≤ upper.length ∧ W.HasBucket slot.bucket ∧
          q.insert W timer = .ok (false, q') ∧ q'.timerWheel = q.timerWheel ∧
          q'.upperTimerWheels = upper ∧ ∀ b, (q'.buckets b).timers.values =
            (q.buckets b).timers.values ++ if b = slot.bucket then [timer] else [] := by
  have hinv := WheelInv.of_reachable h
  exact ⟨hinv.chained.descending, fun timer t ht htick => hinv.exists_insert ht htick⟩

/-- The second wheel is created before the clocks are moved to different multiples. -/
def unaligned : List WheelCall :=
  [.addTimer 8 95 0, .insert 8, .advanceClock 76, .addTimer 16 310 0]

theorem insert_files_unaligned :
    ∃ q q' : TimerWheel, (wheelMachine smallWheel).Run (init smallWheel 5 0) unaligned q ∧
      q.insert smallWheel 16 = .ok (false, q') := by
  have hexec : ((wheelMachine smallWheel).exec (init smallWheel 5 0) unaligned).map
      (fun q => (q.timerWheel.currentTime + q.timerWheel.tick,
        (q.heap.get? 16).map Timer.expiration)) = some (80, some 310) := by decide +kernel
  obtain ⟨q, hq, heq⟩ := Option.map_eq_some_iff.mp hexec
  obtain ⟨htick, hexp⟩ := Prod.mk.inj heq
  obtain ⟨t, ht, hexp⟩ := Option.map_eq_some_iff.mp hexp
  have hr := Machine.run_of_exec hq
  have hle : q.timerWheel.currentTime + q.timerWheel.tick ≤ t.expiration := by omega
  obtain ⟨-, -, q', -, -, -, hins, -⟩ :=
    (insert_files ⟨_, unaligned, ⟨5, 0, by decide, rfl⟩, hr⟩).2 16 t ht hle
  exact ⟨q, q', hr, hins⟩

end TimerWheel

end CodingDemo.Libcpp
