import CodingDemo.Datetime.TimerWheel.Moved

/-!
# When the timer wheel fires early

The expiration time of a bucket is the clock of its wheel plus the index of the bucket times the
tick. The index is counted from the epoch and the clock is not, so the time can be long before the
expiration of the timer that is filed there. As long as no timer is filed so, `handleRead` runs no
timer more than one tick before its expiration.

A timer leaves its bucket when the clock is past the time of the bucket, and the clock and the
times of loaded buckets only grow.

## Main definitions

* `ClockAdvances`: a step does not set the clock back
* `FiledInTime`: a step does not file a timer in a bucket that is due too early
* `OnTime`: the invariant: every timer in a bucket will fire in time, and so did those that ran

## Main results

* `onTime_step`: every step that meets the two conditions keeps the invariant
* `expiration_le_of_ran`: in runs of such steps no timer fires early
-/

namespace CodingDemo.Libcpp.TimerWheel

open TimerWheelImpl

variable {W : WheelConfig} {q q' : TimerWheel} {e : Event}

/-- The clock reading of a step. -/
def Event.reading : Event → Option ℤ
  | .tick now => some now
  | _ => none

/-- A step that does not set the clock back. -/
def ClockAdvances (q : TimerWheel) (e : Event) : Prop := ∀ now ∈ e.reading, q.clock ≤ now

/-- A timer is filed in a bucket whose time, or the clock if it is later, is at most one tick
before its expiration. -/
def FiledInTime (W : WheelConfig) (q : TimerWheel) (e : Event) : Prop :=
  ∀ x ∈ q.inserts e, ∀ slot ∈ (q.place W x.2).2, x.2 ≤ max (slot.time + 1) q.clock + W.tick

/-- The steps that keep the wheel on time. -/
def InTime (W : WheelConfig) (q : TimerWheel) (e : Event) : Prop :=
  q.ClockAdvances e ∧ q.FiledInTime W e

instance (q : TimerWheel) (e : Event) : Decidable (q.InTime W e) :=
  inferInstanceAs (Decidable ((∀ now ∈ e.reading, _) ∧
    ∀ x ∈ q.inserts e, ∀ slot ∈ (q.place W x.2).2, _))

instance (q : TimerWheel) (e : Event) : Decidable (((machine W).guard (InTime W)).enabled q e) :=
  inferInstanceAs (Decidable (q.Enabled e ∧ q.InTime W e))

/-- No timer is in a bucket that is due too early, and none has fired too early. -/
structure OnTime (W : WheelConfig) (q : TimerWheel) : Prop where
  time : ∀ {b x}, x ∈ (q.buckets b).timers → ∃ w, q.wheels[b.level]? = some w ∧
    (q.buckets b).expirationTime ≤ w.currentTime + b.id * w.tick
  due : ∀ {b n p t}, (n, p) ∈ (q.buckets b).timers → q.heap.get? p = some t →
    t.expiration ≤ max ((q.buckets b).expirationTime + 1) q.clock + W.tick
  batch : ∀ {now expired todo p t}, q.frame = some (.running now expired todo) → p ∈ expired →
    q.heap.get? p = some t → t.expiration ≤ now + W.tick
  ran : ∀ x ∈ q.ran, x.expiration ≤ x.now + W.tick

/-! ## One step keeps the wheel on time -/

theorem clock_le (hi : Inv q) (he : q.Enabled e) (hclock : q.ClockAdvances e)
    (hs : q.step W e = .ok q') : q.clock ≤ q'.clock := by
  by_cases htick : ∃ now, e = .tick now
  · obtain ⟨now, rfl⟩ := htick
    obtain rfl := Except.ok.inj hs
    exact hclock now rfl
  · exact ((step_unchanged hi he hs).clock fun now h => htick ⟨now, h⟩).ge

/-- The time of a slot is the clock of its wheel plus the index times the tick. -/
theorem wheel_of_slot {x : ℤ} {slot : Slot} (h : (q.place W x).2 = some slot) :
    ∃ v, (q.timerWheel :: (q.place W x).1)[slot.bucket.level]? = some v ∧
      slot.time = v.currentTime + slot.bucket.id * v.tick := by
  obtain ⟨k, v, hk, hb, ht, -⟩ := climb_slot (Prod.ext rfl h : q.place W x = (_, some slot))
  refine ⟨v, ?_, ?_⟩
  · rw [hb, Nat.zero_add]
    exact hk
  · rw [hb]
    exact ht

/-- A bound on a time that the clock of a wheel gives stays true when the clock is moved. -/
theorem le_wheel_of_grows {ws ws' : List TimerWheelImpl} {k : ℕ} {time i : ℤ} (h : Grows ws ws')
    (hw : ∃ w, ws[k]? = some w ∧ time ≤ w.currentTime + i * w.tick) :
    ∃ w, ws'[k]? = some w ∧ time ≤ w.currentTime + i * w.tick := by
  obtain ⟨w, hk, hle⟩ := hw
  obtain ⟨w', hk', htick, hct⟩ := h k w hk
  refine ⟨w', hk', ?_⟩
  rw [htick]
  omega

theorem expirationTime_pushTimer {p : ℕ} {slot : Slot} (b : BucketRef) :
    ((q.pushTimer slot p).buckets b).expirationTime =
      if b = slot.bucket then slot.time else (q.buckets b).expirationTime := by
  simp only [pushTimer, Function.update_apply]
  split <;> rfl

/-- The buckets after a step: a timer in a bucket was there before, and the time of the bucket is
not earlier than before; or it has just been filed in a slot. -/
theorem filed_cases (hi : Inv q) (h : OnTime W q) (he : q.Enabled e) (hs : q.step W e = .ok q')
    {b : BucketRef} {n p : ℕ} (hmem : (n, p) ∈ (q'.buckets b).timers) :
    ((n, p) ∈ (q.buckets b).timers ∧
      (q.buckets b).expirationTime ≤ (q'.buckets b).expirationTime ∧
      ((q'.buckets b).expirationTime = (q.buckets b).expirationTime ∨
        ∃ w, q'.wheels[b.level]? = some w ∧
          (q'.buckets b).expirationTime = w.currentTime + b.id * w.tick)) ∨
    ∃ t slot, q.inserts e = some (p, t.expiration) ∧ (q.place W t.expiration).2 = some slot ∧
      q'.heap.get? p = some t ∧ b = slot.bucket ∧ (q'.buckets b).expirationTime = slot.time ∧
      ∃ w, q'.wheels[b.level]? = some w ∧ slot.time = w.currentTime + b.id * w.tick := by
  cases step_moved hi he hs with
  | kept hb =>
    rw [hb] at hmem ⊢
    exact .inl ⟨hmem, le_rfl, .inl rfl⟩
  | @filed r t slot hins hslot ht hw hb hq =>
    obtain ⟨v, hv, htime⟩ := wheel_of_slot hslot
    have hwheels : q'.wheels = q.timerWheel :: (q.place W t.expiration).1 := by
      rw [wheels, hw.1, hw.2]
    have hexp : (q'.buckets b).expirationTime =
        if b = slot.bucket then slot.time else (q.buckets b).expirationTime := by
      rw [hb]
      exact expirationTime_pushTimer b
    rw [hb] at hmem
    rcases mem_pushTimer.mp hmem with hold | ⟨rfl, rfl, rfl⟩
    · refine .inl ⟨hold, ?_⟩
      rw [hexp]
      split_ifs with hbs
      · -- the bucket is loaded, so its old time is bounded by the clock of its wheel
        subst hbs
        obtain ⟨w, hw', hle⟩ := le_wheel_of_grows (step_unchanged hi he hs).grows (h.time hold)
        rw [hwheels, hv] at hw'
        obtain rfl := Option.some.inj hw'
        exact ⟨htime ▸ hle, .inr ⟨v, hwheels ▸ hv, htime⟩⟩
      · exact ⟨le_rfl, .inl rfl⟩
    · rw [if_pos rfl] at hexp
      exact .inr ⟨t, slot, hins, hslot, ht, rfl, hexp, v, hwheels ▸ hv, htime⟩
  | @removed c m r timers hnone _ _ _ herase hb =>
    rw [hb] at hmem ⊢
    rw [expirationTime_setTimers]
    rw [timers_setTimers] at hmem
    split_ifs at hmem with hbc
    · subst hbc
      exact .inl ⟨((NodeList.mem_of_eraseNode herase).mp hmem).1, le_rfl, .inl rfl⟩
    · exact .inl ⟨hmem, le_rfl, .inl rfl⟩
  | read heq hq =>
    subst heq hq
    obtain ⟨q₁, hread, -, hdrained⟩ := handleRead_eq hi
    rw [hread] at hmem ⊢
    have htime := hdrained.same_time b
    rcases hdrained.bucket b with ⟨htimers, -⟩ | ⟨hnil, -⟩
    · exact .inl ⟨htimers ▸ hmem, htime.ge, .inl htime⟩
    · rw [show (q₁.buckets b).timers = [] from hnil] at hmem
      cases hmem

/-- The timers of a batch are those of buckets whose time the clock has passed. -/
theorem onTime_batch (hi : Inv q) (h : OnTime W q) (he : q.Enabled e) (hs : q.step W e = .ok q')
    {now : ℤ} {expired todo : List ℕ} {p : ℕ} {t : Timer}
    (hf : q'.frame = some (.running now expired todo)) (hp : p ∈ expired)
    (ht : q'.heap.get? p = some t) : t.expiration ≤ now + W.tick := by
  -- no step touches the timers of a batch that was there before it
  have hkeep : ∀ {todo'}, q.frame = some (.running now expired todo') →
      t.expiration ≤ now + W.tick := by
    intro todo' hf'
    rw [get?_of_batch hi he hs hf' hp] at ht
    exact h.batch hf' hp ht
  by_cases hown : e.ofHandleRead = true
  · cases e with
    | handleRead =>
      obtain rfl := Except.ok.inj hs
      obtain ⟨q₁, hread, hq₁, hdrained⟩ := handleRead_eq hi
      rw [hread] at hf ht
      cases hf
      -- the timer comes from a bucket whose time is before the clock
      obtain ⟨b, n, hmem, hlt⟩ := hdrained.taken p hp
      rw [hq₁] at ht
      have hdue := h.due hmem ht
      omega
    | run =>
      obtain ⟨now', expired', r, rest, hf'⟩ := exists_frame_of_run he.2
      obtain ⟨c, -, rfl⟩ := runNext_ok hf' hs
      cases hf
      exact hkeep hf'
    | advance =>
      obtain ⟨now', expired', hf'⟩ := exists_frame_of_advance he.2
      obtain rfl := Except.ok.inj hs
      rw [advance_eq hf'] at hf
      cases hf
    | reinsert =>
      obtain ⟨now', r, rest, hf'⟩ := exists_frame_of_reinsert he
      obtain ⟨u, -, ⟨-, hins⟩ | ⟨-, h', -, rfl⟩⟩ := reinsertNext_ok hi.linked hf' hs
      · rw [hins.same.1] at hf
        cases hf
      · cases hf
    | finish =>
      obtain rfl := Except.ok.inj hs
      obtain ⟨fd, hq'⟩ := finish_eq q
      rw [hq'] at hf
      cases hf
    | _ => cases hown
  · have hframe := (step_unchanged hi he hs).frame (Bool.eq_false_of_not_eq_true hown)
    exact hkeep (hframe ▸ hf)

theorem onTime_step (hi : Inv q) (h : OnTime W q) (he : q.Enabled e) (hin : q.InTime W e)
    (hs : q.step W e = .ok q') : OnTime W q' := by
  have hclock := clock_le hi he hin.1 hs
  have hsame := step_unchanged hi he hs
  constructor
  -- the time of a loaded bucket is bounded by a clock that does not go back
  case time =>
    rintro b ⟨n, p⟩ hmem
    rcases filed_cases hi h he hs hmem with ⟨hold, -, heq | ⟨w, hw, htime⟩⟩ |
      ⟨t, slot, -, -, -, -, heq, w, hw, htime⟩
    · rw [heq]
      exact le_wheel_of_grows hsame.grows (h.time hold)
    · exact ⟨w, hw, htime.le⟩
    · exact ⟨w, hw, (heq.trans htime).le⟩
  -- the timer was in the bucket before, or has just been filed in time
  case due =>
    intro b n p t hmem ht
    rcases filed_cases hi h he hs hmem with ⟨hold, hle, -⟩ |
      ⟨u, slot, hins, hslot, hu, -, heq, -⟩
    · rw [get?_of_filed hi he hs hold hmem] at ht
      have hdue := h.due hold ht
      omega
    · obtain rfl := Option.some.inj (hu.symm.trans ht)
      have hdue : u.expiration ≤ _ := hin.2 _ hins slot hslot
      omega
  case batch => exact fun hf hp ht => onTime_batch hi h he hs hf hp ht
  -- a timer that runs is one of the batch
  case ran =>
    intro x hx
    by_cases hrun : e = .run
    · subst hrun
      obtain ⟨now, expired, p, rest, hf⟩ := exists_frame_of_run he.2
      obtain ⟨c, hc, rfl⟩ := runNext_ok hf hs
      rcases List.mem_append.mp hx with hx | hx
      · exact h.ran x hx
      · rw [List.mem_singleton.mp hx]
        have hp : p ∈ expired := (hi.todo hf).subset List.mem_cons_self
        exact h.batch hf hp (Heap.get?_eq_some.mpr ⟨c.1, hc⟩)
    · rw [hsame.ran hrun] at hx
      exact h.ran x hx

theorem onTime_init (clock : ℤ) (numCreated : BitVec 64) :
    OnTime W (init W clock numCreated) where
  time h := nomatch h
  due h := nomatch h
  batch h := nomatch h
  ran _ h := nomatch h

/-- **No timer fires early** in a run whose clock readings do not decrease, if every timer is filed
in a bucket whose time, or the clock then, is at most one tick before its expiration. -/
theorem expiration_le_of_ran {clock : ℤ} {numCreated : BitVec 64} {es : List Event}
    (hr : ((machine W).guard (InTime W)).Run (init W clock numCreated) es q) :
    ∀ x ∈ q.ran, x.expiration ≤ x.now + W.tick := by
  have hpres : ((machine W).guard (InTime W)).Preserves fun q => Inv q ∧ OnTime W q :=
    (preserves_inv.guard _).and fun _ _ _ hi h he hs => onTime_step hi h he.1 he.2 hs
  exact (hr.preserves hpres ⟨Inv.init W clock numCreated, onTime_init clock numCreated⟩).2.ran

/-- The start time is a multiple of the interval of the base wheel, and both timers fit there. -/
theorem expiration_le_of_ran_aligned :
    ∃ q, ((machine smallWheel).guard (InTime smallWheel)).exec (init smallWheel 1000 0)
        [.addTimer 8 1020 0, .addTimerInLoop 8, .addTimer 16 1035 0, .addTimerInLoop 16, .tick 1031,
          .handleRead, .run, .run] = some q ∧
      q.ran.length = 2 ∧ ∀ x ∈ q.ran, x.expiration ≤ x.now + 10 := by
  have hex : (((machine smallWheel).guard (InTime smallWheel)).exec (init smallWheel 1000 0)
      [.addTimer 8 1020 0, .addTimerInLoop 8, .addTimer 16 1035 0, .addTimerInLoop 16, .tick 1031,
        .handleRead, .run, .run]).map (fun q => q.ran.length) = some 2 := by decide +kernel
  obtain ⟨q, hq, hlength⟩ := Option.map_eq_some_iff.mp hex
  exact ⟨q, hq, hlength, expiration_le_of_ran (Machine.run_of_exec hq)⟩

/-- The wheel starts one tick after a multiple of its interval, and a timer goes to the bucket with
index 0: it fires 29 microseconds early, almost three ticks. -/
theorem exists_early : ∃ es q, (machine smallWheel).Run (init smallWheel 1010 0) es q ∧
    (∀ now, Event.tick now ∈ es → 1010 ≤ now) ∧
    ∃ x ∈ q.ran, x.now + smallWheel.tick < x.expiration := by
  have hex : ((machine smallWheel).exec (init smallWheel 1010 0)
      [.addTimer 8 1040 0, .addTimerInLoop 8, .tick 1011, .handleRead, .run]).map
      (fun q => q.ran) = some [{ serial := 0, expiration := 1040, now := 1011 }] := by
    decide +kernel
  obtain ⟨q, hq, hran⟩ := Option.map_eq_some_iff.mp hex
  refine ⟨_, q, Machine.run_of_exec hq, ?_, _, hran ▸ List.mem_singleton_self _, by decide⟩
  simp

end CodingDemo.Libcpp.TimerWheel
