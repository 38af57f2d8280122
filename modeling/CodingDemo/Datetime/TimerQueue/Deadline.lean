import CodingDemo.Datetime.TimerQueue.Invariant

/-!
# The deadline of the timer queue

No timer of an idle queue is forgotten: the descriptor is armed, and it is readable as soon as
the first timer has expired, or 100 microseconds after it was armed if that is later. The clock
readings are positive and do not decrease.

While the callbacks of a `handleRead` run, the descriptor may be disarmed; the end of `reset` arms
it for the first timer. An expiration that is not valid does not arm it there, so a timer with
such an expiration must be covered by the descriptor that its own `addTimerInLoop` armed.

## Main definitions

* `ClockAdvances`: a step does not set the clock back
* `Covers`: the descriptor is readable in time for an entry
* `Watched`: the invariant: every timer of an idle queue is covered

## Main results

* `watched_step`: every step keeps the invariant
* `timerfd_covers_first`: an idle queue that is not empty has an armed descriptor
-/

namespace CodingDemo.Libcpp.TimerQueue

variable {q q' : TimerQueue}

/-- A step that does not set the clock back. -/
def ClockAdvances (q : TimerQueue) : Event → Prop
  | .tick now => q.clock ≤ now
  | _ => True

instance (q : TimerQueue) : (e : Event) → Decidable (q.ClockAdvances e)
  | .tick now => inferInstanceAs (Decidable (q.clock ≤ now))
  | .otherTimer => inferInstanceAs (Decidable True)
  | .addTimer .. => inferInstanceAs (Decidable True)
  | .addTimerInLoop _ => inferInstanceAs (Decidable True)
  | .cancelInLoop _ => inferInstanceAs (Decidable True)
  | .handleRead => inferInstanceAs (Decidable True)
  | .run => inferInstanceAs (Decidable True)
  | .finish => inferInstanceAs (Decidable True)

instance (q : TimerQueue) (e : Event) : Decidable ((machine.guard ClockAdvances).enabled q e) :=
  inferInstanceAs (Decidable (q.Enabled e ∧ q.ClockAdvances e))

/-- The descriptor is armed no later than the expiration of the entry, or than 100 microseconds
after it was set. -/
def Covers (fd : Timerfd) (e : TimerEntry) : Prop :=
  fd.deadline ≤ max e.expiration (fd.setAt + 100)

/-- The descriptor of the queue covers the entry. -/
def Covered (q : TimerQueue) (e : TimerEntry) : Prop :=
  ∃ fd, q.timerfd = some fd ∧ Covers fd e

/-- The descriptor watches over the timers: over all of them when the queue is idle, over those
with an invalid expiration while a `handleRead` is running. -/
structure Watched (q : TimerQueue) : Prop where
  clock : 0 < q.clock
  setAt : ∀ {fd}, q.timerfd = some fd → fd.setAt ≤ q.clock
  interval : ∀ {p t}, q.heap.get? p = some t → t.repeat_ = true → 0 < t.intervalSeconds
  now : ∀ {f}, q.frame = some f → 0 < f.now
  covered : ∀ {e}, e ∈ q.timers → q.frame = none ∨ ¬ TimeStamp.valid e.expiration → Covered q e

theorem Covers.mono {fd : Timerfd} {e f : TimerEntry} (h : Covers fd e)
    (hle : e.expiration ≤ f.expiration) : Covers fd f := by
  unfold Covers at *
  omega

/-- A freshly armed descriptor covers the entries that are not before it. -/
theorem covers_resetTimerfd {expiration now : ℤ} {fd : Timerfd} {e : TimerEntry}
    (h : resetTimerfd expiration now = some fd) (hle : expiration ≤ e.expiration) :
    Covers fd e := by
  obtain ⟨hset, hdeadline⟩ := deadline_resetTimerfd h
  unfold Covers
  omega

/-- `earliestChanged` says that the new expiration is before those of all timers. -/
theorem le_of_earliestChanged {when_ : ℤ} (h : q.earliestChanged when_ = true) {e : TimerEntry}
    (he : e ∈ q.timers) : when_ < e.expiration := by
  unfold earliestChanged at h
  cases hf : q.timers.first? with
  | none => exact absurd he (OrderedSet.first?_eq_none.mp hf e)
  | some f =>
    simp only [hf, decide_eq_true_eq] at h
    exact h.trans_le (TimerEntry.expiration_mono (OrderedSet.first?_le hf he))

/-- Otherwise the first timer expires no later than the new one. -/
theorem exists_first_of_not_earliestChanged {when_ : ℤ} (h : q.earliestChanged when_ = false) :
    ∃ f, q.timers.first? = some f ∧ f.expiration ≤ when_ := by
  unfold earliestChanged at h
  cases hf : q.timers.first? with
  | none =>
    rw [hf] at h
    cases h
  | some f =>
    simp only [hf, decide_eq_false_iff_not, not_lt] at h
    exact ⟨f, rfl, h⟩

/-! ## Every step keeps the timers covered -/

theorem Watched.congr (h : Watched q) (hc : q'.clock = q.clock) (hfd : q'.timerfd = q.timerfd)
    (hh : q'.heap = q.heap) (ht : ∀ {e}, e ∈ q'.timers → e ∈ q.timers)
    (hf : q'.frame = q.frame) : Watched q' where
  clock := hc ▸ h.clock
  setAt hfd' := by
    rw [hc]
    exact h.setAt (hfd ▸ hfd')
  interval ht' := h.interval (hh ▸ ht')
  now hf' := h.now (hf ▸ hf')
  covered he hcond := by
    obtain ⟨fd, hfd', hcov⟩ := h.covered (ht he) (hf ▸ hcond)
    exact ⟨fd, hfd.trans hfd', hcov⟩

theorem Watched.delete {h' : Heap Timer} {p : ℕ} (h : Watched q)
    (hd : q.heap.delete p = some h') : Watched { q with heap := h' } where
  clock := h.clock
  setAt := h.setAt
  interval ht := h.interval ((Heap.get?_eq_some_of_delete hd).mp ht).2
  now := h.now
  covered he hcond := h.covered he hcond

theorem Watched.addTimer {p : ℕ} (h : Watched q) (when_ : ℤ) (interval : Double)
    (hp : q.heap.cell p = none) : Watched (q.addTimer p when_ interval) := by
  simp only [TimerQueue.addTimer, hp, dite_true]
  refine ⟨h.clock, h.setAt, fun {r t} ht hrep => ?_, h.now, h.covered⟩
  rw [Heap.get?_alloc] at ht
  split at ht
  · obtain rfl := Option.some.inj ht
    exact of_decide_eq_true hrep
  · exact h.interval ht hrep

/-- A new timer is covered: by the descriptor it arms, or by the one that covers the first
timer, which expires no later. -/
theorem Watched.addTimerInLoop {p : ℕ} {t : Timer} (h : Watched q) :
    Watched { q with
      timers := q.timers.insert (TimerEntry.mk t.expiration p)
      timerfd := if q.earliestChanged t.expiration then resetTimerfd t.expiration q.clock
        else q.timerfd } := by
  cases hc : q.earliestChanged t.expiration with
  | true =>
    -- the descriptor is armed for the new timer, which expires first
    simp only [if_true]
    refine ⟨h.clock, fun hfd => (deadline_resetTimerfd hfd).1.le, h.interval, h.now,
      fun {e} he _ => ⟨_, rfl, covers_resetTimerfd rfl ?_⟩⟩
    rcases OrderedSet.mem_insert.mp he with rfl | he
    · exact le_rfl
    · exact (le_of_earliestChanged hc he).le
  | false =>
    -- the first timer expires no later, and what covers it covers the new one
    obtain ⟨f, hf, hle⟩ := exists_first_of_not_earliestChanged hc
    refine ⟨h.clock, h.setAt, h.interval, h.now, fun {e} he hcond => ?_⟩
    rcases OrderedSet.mem_insert.mp he with rfl | he
    · obtain ⟨fd, hfd, hcov⟩ := h.covered (OrderedSet.first?_mem hf)
        (hcond.imp id fun hinv hv => hinv (lt_of_lt_of_le hv hle))
      exact ⟨fd, hfd, hcov.mono hle⟩
    · exact h.covered he hcond

/-- The timers that `getExpired` leaves expire after the clock reading, which is valid. -/
theorem watched_handleRead (hi : Inv q) (h : Watched q) (hf : q.frame = none)
    (hs : q.handleRead = .ok q') : Watched q' := by
  obtain ⟨active', heq, -⟩ := handleRead_eq hi hf
  obtain rfl := Except.ok.inj (heq.symm.trans hs)
  refine ⟨h.clock, fun hfd => ?_, h.interval, ?_, fun {e} he hcond => ?_⟩
  · exact h.setAt (Option.filter_eq_some_iff.mp hfd).1
  · rintro f ⟨⟩
    exact h.clock
  -- the timers that are left expire after a positive clock reading
  · obtain ⟨hge, hmem⟩ := OrderedSet.mem_since.mp he
    obtain ⟨t, ht, -⟩ := hi.owned.entry hmem
    have hlater : q.clock < e.expiration := by
      by_contra hle
      exact absurd ((lt_sentry_iff (hi.owned.address ht).2).mpr (not_lt.mp hle)) (not_lt.mpr hge)
    rcases hcond with hnone | hinv
    · cases hnone
    · exact absurd (h.clock.trans hlater) hinv

/-- The loop of `reset` adds timers with valid expirations only. -/
theorem keptByReset_watched {now : ℤ} (hnow : 0 < now) :
    KeptByReset now fun q _ => Watched q ∧ ∃ f, q.frame = some f where
  reinsert := by
    rintro q e l t - ⟨hw, f, hf⟩ ht hrep -
    refine ⟨⟨hw.clock, hw.setAt, ?_, hw.now, fun {e'} he' hcond => ?_⟩, f, hf⟩
    · intro r u hu hru
      rw [Heap.get?_modify] at hu
      split at hu
      · obtain ⟨t', ht', rfl⟩ := Option.map_eq_some_iff.mp hu
        rw [Timer.repeat_restart] at hru
        rw [Timer.intervalSeconds_restart]
        exact hw.interval ht' hru
      · exact hw.interval hu hru
    -- the new expiration is after the clock reading of the call, so it is valid
    · rcases OrderedSet.mem_insert.mp he' with rfl | he'
      · have hle : 0 ≤ microSeconds t.intervalSeconds :=
          microSeconds_nonneg (hw.interval ht hrep)
        rcases hcond with hnone | hinv
        · rw [hf] at hnone
          cases hnone
        · exact absurd (show 0 < now + microSeconds t.intervalSeconds by omega) hinv
      · exact hw.covered he' hcond
  delete _ := fun ⟨hw, hf⟩ _ _ hd => ⟨hw.delete hd, hf⟩

/-- The descriptor that `reset` arms for the first timer, or the one that covers it already, covers
all timers. -/
theorem watched_finish (hi : Inv q) (h : Watched q) {now : ℤ} {expired todo : List TimerEntry}
    (hf : q.frame = some ⟨now, expired, todo⟩) (hs : q.finish = .ok q') : Watched q' := by
  obtain ⟨q₁, -, ⟨hw, -⟩, -, heq⟩ := finish_eq hi hf (keptByReset_watched (h.now hf))
    ⟨h.congr rfl rfl rfl id rfl, _, hf⟩
  obtain rfl := Except.ok.inj (heq.symm.trans hs)
  refine ⟨hw.clock, fun {fd} hfd => ?_, hw.interval, fun hf => (nomatch hf), fun {e} he _ => ?_⟩
  · unfold rearmed at hfd
    split at hfd
    · exact hw.setAt hfd
    · split at hfd
      · exact (deadline_resetTimerfd hfd).1.le
      · exact hw.setAt hfd
  -- what covers the first timer covers all of them
  · cases hfirst : q₁.timers.first? with
    | none => exact absurd he (OrderedSet.first?_eq_none.mp hfirst e)
    | some f =>
      have hle : f.expiration ≤ e.expiration :=
        TimerEntry.expiration_mono (OrderedSet.first?_le hfirst he)
      by_cases hv : TimeStamp.valid f.expiration
      · have hre : q₁.rearmed = resetTimerfd f.expiration q₁.clock := by
          simp only [rearmed, hfirst, hv, if_true]
        obtain ⟨fd, hfd⟩ : ∃ fd, resetTimerfd f.expiration q₁.clock = some fd := ⟨_, rfl⟩
        exact ⟨fd, hre.trans hfd, covers_resetTimerfd hfd hle⟩
      · obtain ⟨fd, hfd, hcov⟩ := hw.covered (OrderedSet.first?_mem hfirst) (.inr hv)
        have hre : q₁.rearmed = q₁.timerfd := by
          simp only [rearmed, hfirst, hv, if_false]
        exact ⟨fd, hre.trans hfd, hcov.mono hle⟩

theorem watched_step (hi : Inv q) (h : Watched q) {e : Event} (he : q.Enabled e)
    (hclock : q.ClockAdvances e) (hs : q.step e = .ok q') : Watched q' := by
  cases e with
  | tick now =>
    obtain rfl := Except.ok.inj hs
    have hle : q.clock ≤ now := hclock
    exact ⟨h.clock.trans_le hle, fun hfd => (h.setAt hfd).trans hle, h.interval, h.now, h.covered⟩
  | otherTimer =>
    obtain rfl := Except.ok.inj hs
    exact h.congr rfl rfl rfl id rfl
  | addTimer p when_ interval =>
    obtain rfl := Except.ok.inj hs
    exact h.addTimer when_ interval he.1
  | addTimerInLoop p =>
    obtain ⟨t, -, -, heq⟩ := addTimerInLoop_eq hi.owned he
    obtain rfl := Except.ok.inj (heq.symm.trans hs)
    exact h.addTimerInLoop.congr rfl rfl rfl id rfl
  | cancelInLoop id =>
    by_cases ha : ActiveTimer.mk id.timer id.sequence ∈ q.activeTimers
    · obtain ⟨t, h', -, -, -, hd, heq⟩ := cancelInLoop_eq_active hi.owned _ ha
      obtain rfl := Except.ok.inj (heq.symm.trans hs)
      exact (h.delete hd).congr rfl rfl rfl (fun he => (OrderedSet.mem_erase.mp he).2) rfl
    · obtain rfl := Except.ok.inj ((cancelInLoop_eq_notMem hi.owned _ ha).symm.trans hs)
      split
      · exact h.congr rfl rfl rfl (fun he => he) rfl
      · exact h
  | handleRead => exact watched_handleRead hi h (frame_of_handleRead he) hs
  | run =>
    obtain ⟨now, expired, e, rest, hf⟩ := exists_frame_of_run he
    obtain ⟨c, -, heq⟩ := runNext_eq hi hf
    obtain rfl := Except.ok.inj (heq.symm.trans hs)
    -- a call is running before and after the callback
    refine ⟨h.clock, h.setAt, h.interval, ?_, fun he hcond => h.covered he ?_⟩
    · have hnow : 0 < now := h.now hf
      rintro f ⟨⟩
      exact hnow
    · rcases hcond with hnone | hinv
      · cases hnone
      · exact .inr hinv
  | finish =>
    obtain ⟨now, expired, hf⟩ := exists_frame_of_finish he
    exact watched_finish hi h hf hs

theorem preserves_watched :
    (machine.guard ClockAdvances).Preserves fun q => Inv q ∧ Watched q :=
  (preserves_inv.guard ClockAdvances).and fun _ _ _ hi h he hs => watched_step hi h he.1 he.2 hs

theorem watched_init {clock : ℤ} (hclock : 0 < clock) (numCreated : BitVec 64) :
    Watched (init clock numCreated) where
  clock := hclock
  setAt h := nomatch h
  interval h := nomatch h
  now h := nomatch h
  covered h := absurd h (OrderedSet.notMem_empty _)

/-- **No armed timer is forgotten.** In every idle state that a run with positive and
non-decreasing clock readings reaches, if there are timers then the descriptor is armed, and its
deadline is no later than the earliest expiration, or than 100 microseconds after it was armed
where that is later. -/
theorem timerfd_covers_first {clock : ℤ} {numCreated : BitVec 64} {es : List Event}
    (hclock : 0 < clock) (hr : (machine.guard ClockAdvances).Run (init clock numCreated) es q)
    (hidle : q.frame = none) {e : TimerEntry} (he : q.timers.first? = some e) :
    ∃ fd, q.timerfd = some fd ∧ fd.setAt ≤ q.clock ∧
      fd.deadline ≤ max e.expiration (fd.setAt + 100) := by
  obtain ⟨-, hw⟩ := hr.preserves preserves_watched
    ⟨Inv.init clock numCreated, watched_init hclock numCreated⟩
  obtain ⟨fd, hfd, hcov⟩ := hw.covered (OrderedSet.first?_mem he) (.inl hidle)
  exact ⟨fd, hfd, hw.setAt hfd, hcov⟩

/-- A timer added in the callback of a repeating one, which is re-inserted after it. -/
def addInCallback : List Event :=
  [.addTimer 8 500 1, .addTimerInLoop 8, .tick 600, .handleRead, .run, .addTimer 16 900 0,
    .addTimerInLoop 16, .tick 700, .finish]

theorem timerfd_covers_first_addInCallback :
    ∃ q fd, (machine.guard ClockAdvances).exec (init 10 0) addInCallback = some q ∧
      q.timers.first? = some (TimerEntry.mk 900 16) ∧ q.timerfd = some fd ∧ fd.deadline ≤ 900 := by
  have hex : ((machine.guard ClockAdvances).exec (init 10 0) addInCallback).map
      (fun q => (q.frame.isNone, q.timers.first?, q.timerfd.map fun fd => fd.setAt)) =
      some (true, some (TimerEntry.mk 900 16), some 700) := by decide +kernel
  obtain ⟨q, hq, hstate⟩ := Option.map_eq_some_iff.mp hex
  simp only [Prod.mk.injEq] at hstate
  obtain ⟨hidle, hfirst, hset⟩ := hstate
  obtain ⟨fd, hfd, -, hle⟩ := timerfd_covers_first (by decide) (Machine.run_of_exec hq)
    (Option.isNone_iff_eq_none.mp hidle) hfirst
  rw [hfd, Option.map_some, Option.some_inj] at hset
  rw [hset] at hle
  exact ⟨q, fd, hq, hfirst, hfd, hle⟩

/-- The descriptor is never armed for less than 100 microseconds, so its deadline may be after the
earliest expiration. -/
theorem deadline_after_first :
    ∃ q e fd,
      (machine.guard ClockAdvances).Run (init 10 0) [.addTimer 8 15 0, .addTimerInLoop 8] q ∧
      q.frame = none ∧ q.timers.first? = some e ∧ q.timerfd = some fd ∧
      e.expiration < fd.deadline := by
  have hex : ((machine.guard ClockAdvances).exec (init 10 0)
      [.addTimer 8 15 0, .addTimerInLoop 8]).map (fun q => (q.frame.isNone, q.timers.first?,
        q.timerfd.map fun fd => fd.deadline)) =
      some (true, some (TimerEntry.mk 15 8), some 110) := by decide +kernel
  obtain ⟨q, hq, hstate⟩ := Option.map_eq_some_iff.mp hex
  simp only [Prod.mk.injEq] at hstate
  obtain ⟨hidle, hfirst, hfd⟩ := hstate
  obtain ⟨fd, hfd, hdeadline⟩ := Option.map_eq_some_iff.mp hfd
  refine ⟨q, _, fd, Machine.run_of_exec hq, Option.isNone_iff_eq_none.mp hidle, hfirst, hfd, ?_⟩
  rw [hdeadline]
  decide

end CodingDemo.Libcpp.TimerQueue
