import CodingDemo.Datetime.TimerQueue.Model

/-!
# The representation invariant of the timer queue

Every timer of the queue is in one of three places: in both sets, bound in a functor that has not
run, or in the batch of the running `handleRead`. `Owned q batch` says so, with the batch as a
parameter, so that it can be stated between two rounds of the loop of `reset`. Under it every
member function has an explicit result, and no assertion fails.

## Main definitions

* `Owned`: the sets, the functors and a batch hold the living timers, each in one place
* `Inv`: `Owned` for the batch of the frame, and the frame is consistent

## Main results

* `addTimerInLoop_eq`, `cancelInLoop_eq_active`, `getExpired_eq`, `resetEntry_eq`: the results of
  the member functions
* `foldlM_resetEntry`: the induction over the loop of `reset`
* `inv_of_reachable`, `neverFaults`: the invariant holds in every run, and no event faults
-/

namespace CodingDemo.Libcpp.TimerQueue

variable {q : TimerQueue} {l : List TimerEntry}

/-- The two sets describe the same living timers, and the bound timers and those of the batch are
the other ones. -/
structure Owned (q : TimerQueue) (batch : List TimerEntry) : Prop where
  entry : ∀ {e}, e ∈ q.timers → ∃ t, q.heap.get? e.timer = some t ∧ t.expiration = e.expiration
  active : ∀ {a}, a ∈ q.activeTimers → ∃ t, q.heap.get? a.timer = some t ∧ t.sequence = a.sequence
  same : ∀ {p t}, q.heap.get? p = some t →
    (TimerEntry.mk t.expiration p ∈ q.timers ↔ ActiveTimer.mk p t.sequence ∈ q.activeTimers)
  bound : ∀ {p}, p ∈ q.functors →
    ∃ t, q.heap.get? p = some t ∧ TimerEntry.mk t.expiration p ∉ q.timers
  bound_nodup : q.functors.Nodup
  batch_live : ∀ {e}, e ∈ batch → ∃ t, q.heap.get? e.timer = some t ∧
    t.expiration = e.expiration ∧ e ∉ q.timers ∧ e.timer ∉ q.functors
  batch_nodup : (batch.map TimerEntry.timer).Nodup
  place : ∀ {p t}, q.heap.get? p = some t →
    TimerEntry.mk t.expiration p ∈ q.timers ∨ p ∈ q.functors ∨ TimerEntry.mk t.expiration p ∈ batch
  address : ∀ {p t}, q.heap.get? p = some t → IsObjectAddress p

/-- The batch of the running `handleRead`. -/
def batch (q : TimerQueue) : List TimerEntry :=
  match q.frame with
  | some f => f.expired
  | none => []

/-- The representation invariant. -/
structure Inv (q : TimerQueue) : Prop where
  owned : Owned q q.batch
  calling : q.callingExpiredTimers = q.frame.isSome
  todo : ∀ {f}, q.frame = some f → f.todo <:+ f.expired

theorem deref_eq {p : ℕ} {t : Timer} (h : q.heap.get? p = some t) : q.deref p = .ok t := by
  simp [deref, h]

theorem deleteTimer_eq {p : ℕ} {h' : Heap Timer} (h : q.heap.delete p = some h') :
    q.deleteTimer p = .ok { q with heap := h' } := by
  simp [deleteTimer, h]

theorem exists_delete {p : ℕ} {t : Timer} (h : q.heap.get? p = some t) :
    ∃ h', q.heap.delete p = some h' := by
  obtain ⟨n, hn⟩ := Heap.get?_eq_some.mp h
  exact Heap.exists_delete (by simp [hn])

/-! ## The results of the member functions -/

theorem insert_eq {p : ℕ} {t : Timer} (ht : q.heap.get? p = some t)
    (he : TimerEntry.mk t.expiration p ∉ q.timers)
    (ha : ActiveTimer.mk p t.sequence ∉ q.activeTimers) :
    q.insert p = .ok (q.earliestChanged t.expiration,
      { q with
        timers := q.timers.insert (TimerEntry.mk t.expiration p)
        activeTimers := q.activeTimers.insert (ActiveTimer.mk p t.sequence) }) := by
  simp [insert, deref_eq ht, he, ha, bind, Except.bind, pure, Except.pure]

theorem addTimerInLoop_eq (ho : Owned q l) {p : ℕ} (hp : p ∈ q.functors) :
    ∃ t, q.heap.get? p = some t ∧ TimerEntry.mk t.expiration p ∉ q.timers ∧
      q.addTimerInLoop p = .ok { q with
        timers := q.timers.insert (TimerEntry.mk t.expiration p)
        activeTimers := q.activeTimers.insert (ActiveTimer.mk p t.sequence)
        functors := q.functors.erase p
        timerfd := if q.earliestChanged t.expiration then resetTimerfd t.expiration q.clock
          else q.timerfd } := by
  obtain ⟨t, ht, he⟩ := ho.bound hp
  refine ⟨t, ht, he, ?_⟩
  have ha : ActiveTimer.mk p t.sequence ∉ q.activeTimers := fun h => he ((ho.same ht).mpr h)
  cases hc : q.earliestChanged t.expiration <;>
    simp [addTimerInLoop, insert_eq ht he ha, hc, deref, ht, bind, Except.bind, pure, Except.pure]

/-- Both sets have the same size: their elements are the same addresses. -/
theorem size_eq (ho : Owned q l) : q.activeTimers.size = q.timers.size := by
  apply OrderedSet.size_eq_of_mem_iff ActiveTimer.timer TimerEntry.timer
  -- an element of `activeTimers_` is determined by its address
  · intro a ha b hb hab
    obtain ⟨t, ht, hta⟩ := ho.active ha
    obtain ⟨u, hu, hub⟩ := ho.active hb
    rw [hab, hu] at ht
    obtain rfl := Option.some.inj ht
    rw [← ActiveTimer.mk_eta a, ← ActiveTimer.mk_eta b, hab, ← hta, ← hub]
  -- so is one of `timers_`
  · intro e he f hf hef
    obtain ⟨t, ht, hte⟩ := ho.entry he
    obtain ⟨u, hu, huf⟩ := ho.entry hf
    rw [hef, hu] at ht
    obtain rfl := Option.some.inj ht
    rw [← TimerEntry.mk_eta e, ← TimerEntry.mk_eta f, hef, ← hte, ← huf]
  -- a timer is in one set exactly when it is in the other
  · intro p
    constructor
    · rintro ⟨a, ha, rfl⟩
      obtain ⟨t, ht, hta⟩ := ho.active ha
      refine ⟨_, (ho.same ht).mpr ?_, rfl⟩
      rwa [hta, ActiveTimer.mk_eta]
    · rintro ⟨e, he, rfl⟩
      obtain ⟨t, ht, hte⟩ := ho.entry he
      refine ⟨_, (ho.same ht).mp ?_, rfl⟩
      rwa [hte, TimerEntry.mk_eta]

/-- A cancel that finds its timer removes it from both sets and deletes it. -/
theorem cancelInLoop_eq_active (ho : Owned q l) (id : TimerId)
    (h : ActiveTimer.mk id.timer id.sequence ∈ q.activeTimers) :
    ∃ t h', q.heap.get? id.timer = some t ∧ t.sequence = id.sequence ∧
      TimerEntry.mk t.expiration id.timer ∈ q.timers ∧ q.heap.delete id.timer = some h' ∧
      q.cancelInLoop id = .ok { q with
        timers := q.timers.erase (TimerEntry.mk t.expiration id.timer)
        activeTimers := q.activeTimers.erase (ActiveTimer.mk id.timer id.sequence)
        heap := h' } := by
  obtain ⟨t, ht, hts⟩ := ho.active h
  rw [ActiveTimer.timer_mk] at ht
  rw [ActiveTimer.sequence_mk] at hts
  have he : TimerEntry.mk t.expiration id.timer ∈ q.timers := (ho.same ht).mpr (by rwa [hts])
  obtain ⟨h', hd⟩ := exists_delete ht
  refine ⟨t, h', ht, hts, he, hd, ?_⟩
  simp [cancelInLoop, size_eq ho, h, deref_eq ht, he, deleteTimer, hd, bind, Except.bind, pure,
    Except.pure]

/-- A cancel that does not find its timer is remembered while the callbacks run. -/
theorem cancelInLoop_eq_notMem (ho : Owned q l) (id : TimerId)
    (h : ActiveTimer.mk id.timer id.sequence ∉ q.activeTimers) :
    q.cancelInLoop id = .ok (if q.callingExpiredTimers then
      { q with cancelingTimers :=
          q.cancelingTimers.insert (ActiveTimer.mk id.timer id.sequence) } else q) := by
  cases hc : q.callingExpiredTimers <;>
    simp [cancelInLoop, size_eq ho, h, hc, pure, Except.pure]

/-- The loop of `getExpired` over `activeTimers_`. -/
theorem foldlM_eraseActive {l : List TimerEntry} :
    ∀ {q : TimerQueue}, (∀ e ∈ l, ∃ t, q.heap.get? e.timer = some t) →
      (∀ a ∈ q.activeTimers, ∃ t, q.heap.get? a.timer = some t ∧ t.sequence = a.sequence) →
      ∃ active', l.foldlM eraseActive q = .ok { q with activeTimers := active' } ∧
        ∀ a, a ∈ active' ↔ a ∈ q.activeTimers ∧ ∀ e ∈ l, a.timer ≠ e.timer := by
  induction l with
  | nil => exact fun _ _ => ⟨_, rfl, by simp⟩
  | cons e l ih =>
    intro q hlive hact
    obtain ⟨t, ht⟩ := hlive e List.mem_cons_self
    -- the first round erases the element at the address of `e`
    set q₁ : TimerQueue := { q with
      activeTimers := q.activeTimers.erase (ActiveTimer.mk e.timer t.sequence) } with hq₁
    have hstep : eraseActive q e = .ok q₁ := by
      simp [eraseActive, deref_eq ht, bind, Except.bind, pure, Except.pure, hq₁]
    -- no other element has that address
    have hmem : ∀ a, a ∈ q₁.activeTimers ↔ a ∈ q.activeTimers ∧ a.timer ≠ e.timer := by
      intro a
      simp only [hq₁, OrderedSet.mem_erase]
      constructor
      · rintro ⟨hne, ha⟩
        refine ⟨ha, fun hae => hne ?_⟩
        obtain ⟨u, hu, hua⟩ := hact a ha
        rw [hae, ht] at hu
        obtain rfl := Option.some.inj hu
        rw [← ActiveTimer.mk_eta a, hae, hua]
      · rintro ⟨ha, hne⟩
        exact ⟨fun h => hne (by rw [h, ActiveTimer.timer_mk]), ha⟩
    obtain ⟨active', hfold, hactive'⟩ := ih (q := q₁)
      (fun f hf => hlive f (List.mem_cons_of_mem _ hf)) (fun a ha => hact a ((hmem a).mp ha).1)
    refine ⟨active', ?_, fun a => ?_⟩
    · rw [List.foldlM_cons, hstep]
      exact hfold
    · rw [hactive', hmem]
      simp only [List.mem_cons, forall_eq_or_imp]
      tauto

/-- An entry is before the lower bound of `getExpired` exactly when it has expired. -/
theorem lt_sentry_iff {e : TimerEntry} {now : ℤ} (he : e.timer < UINTPTR_MAX) :
    e < TimerEntry.mk now UINTPTR_MAX ↔ e.expiration ≤ now := by
  rw [TimerEntry.lt_iff, TimerEntry.expiration_mk, TimerEntry.timer_mk]
  omega

/-- The entries that are before another one are at different addresses. -/
theorem Owned.nodup_before (ho : Owned q l) (sentry : TimerEntry) :
    ((q.timers.before sentry).map TimerEntry.timer).Nodup := by
  -- two entries at one address are the same
  refine List.Nodup.map_on (fun e he f hf hef => ?_) (OrderedSet.nodup_before _ _)
  obtain ⟨t, ht, hte⟩ := ho.entry (OrderedSet.mem_before.mp he).2
  obtain ⟨u, hu, huf⟩ := ho.entry (OrderedSet.mem_before.mp hf).2
  rw [hef, hu] at ht
  obtain rfl := Option.some.inj ht
  rw [← TimerEntry.mk_eta e, ← TimerEntry.mk_eta f, hef, ← hte, ← huf]

/-- `getExpired` takes the expired timers out of both sets. -/
theorem getExpired_eq (ho : Owned q l) (now : ℤ) :
    ∃ active', q.getExpired now = .ok (q.timers.before (TimerEntry.mk now UINTPTR_MAX),
        { q with
          timers := q.timers.since (TimerEntry.mk now UINTPTR_MAX)
          activeTimers := active' }) ∧
      ∀ a, a ∈ active' ↔ a ∈ q.activeTimers ∧
        ∀ e ∈ q.timers.before (TimerEntry.mk now UINTPTR_MAX), a.timer ≠ e.timer := by
  set sentry := TimerEntry.mk now UINTPTR_MAX with hsentry
  -- what is left is not before the sentry, so it has not expired
  have hassert : ((q.timers.since sentry).first?.any fun e => e.expiration ≤ now) = false := by
    rw [Bool.eq_false_iff]
    intro h
    obtain ⟨e, he, hle⟩ := (Option.any_eq_true _ _).mp h
    obtain ⟨hge, hmem⟩ := OrderedSet.mem_since.mp (OrderedSet.first?_mem he)
    obtain ⟨t, ht, -⟩ := ho.entry hmem
    have hlt := (lt_sentry_iff (ho.address ht).2).mpr (of_decide_eq_true hle)
    exact absurd hlt (not_lt.mpr hge)
  obtain ⟨active', hfold, hmem⟩ := foldlM_eraseActive (l := q.timers.before sentry)
    (q := { q with timers := q.timers.since sentry })
    (fun e he => by
      obtain ⟨t, ht, -⟩ := ho.entry (OrderedSet.mem_before.mp he).2
      exact ⟨t, ht⟩)
    (fun a ha => ho.active ha)
  refine ⟨active', ?_, hmem⟩
  simp only [getExpired, ← hsentry, hassert, bind, Except.bind, pure, Except.pure, hfold]
  simp

/-- One round of the loop of `reset`: a repeating timer that was not cancelled is re-inserted, any
other timer is deleted. -/
theorem resetEntry_eq {e : TimerEntry} (ho : Owned q (e :: l)) (now : ℤ) :
    ∃ t, q.heap.get? e.timer = some t ∧
      ((t.repeat_ = true ∧ ActiveTimer.mk e.timer t.sequence ∉ q.cancelingTimers ∧
        TimerEntry.mk (addTime now t.intervalSeconds) e.timer ∉ q.timers ∧
        resetEntry now q e = .ok { q with
          heap := q.heap.modify e.timer (Timer.restart now)
          timers := q.timers.insert (TimerEntry.mk (addTime now t.intervalSeconds) e.timer)
          activeTimers := q.activeTimers.insert (ActiveTimer.mk e.timer t.sequence) }) ∨
       ((t.repeat_ = false ∨ ActiveTimer.mk e.timer t.sequence ∈ q.cancelingTimers) ∧
        ∃ h', q.heap.delete e.timer = some h' ∧
          resetEntry now q e = .ok { q with heap := h' })) := by
  obtain ⟨t, ht, hte, he, -⟩ := ho.batch_live List.mem_cons_self
  refine ⟨t, ht, ?_⟩
  have hte' : TimerEntry.mk t.expiration e.timer = e := by rw [hte, TimerEntry.mk_eta]
  by_cases hr : t.repeat_ = true ∧ ActiveTimer.mk e.timer t.sequence ∉ q.cancelingTimers
  · left
    -- the timer is in neither set: an entry at its address would be the one of the batch
    have hnew : TimerEntry.mk (addTime now t.intervalSeconds) e.timer ∉ q.timers := by
      intro hmem
      obtain ⟨u, hu, hue⟩ := ho.entry hmem
      rw [TimerEntry.timer_mk, ht] at hu
      obtain rfl := Option.some.inj hu
      rw [TimerEntry.expiration_mk] at hue
      rw [← hue] at hmem
      exact he (hte' ▸ hmem)
    have hact : ActiveTimer.mk e.timer t.sequence ∉ q.activeTimers := fun h =>
      he (hte' ▸ (ho.same ht).mpr h)
    refine ⟨hr.1, hr.2, hnew, ?_⟩
    have hget : (q.heap.modify e.timer (Timer.restart now)).get? e.timer =
        some (t.restart now) := by
      rw [Heap.get?_modify, if_pos rfl, ht, Option.map_some]
    have hins := insert_eq (q := { q with heap := q.heap.modify e.timer (Timer.restart now) })
      hget (by rwa [Timer.expiration_restart now hr.1]) (by rwa [Timer.sequence_restart])
    simp [resetEntry, deref_eq ht, hr, hins, Timer.expiration_restart now hr.1, bind, Except.bind,
      pure, Except.pure]
  · right
    obtain ⟨h', hd⟩ := exists_delete ht
    refine ⟨?_, h', hd, ?_⟩
    · rcases not_and_or.mp hr with hr | hr
      · exact .inl (Bool.eq_false_of_not_eq_true hr)
      · exact .inr (not_not.mp hr)
    · simp [resetEntry, deref_eq ht, hr, deleteTimer_eq hd, bind, Except.bind]

/-! ## The member functions keep every timer in one place -/

theorem Owned.addTimer (ho : Owned q l) {p : ℕ} (when_ : ℤ) (interval : Double)
    (hp : q.heap.cell p = none) (hadd : IsObjectAddress p) :
    Owned (q.addTimer p when_ interval) l := by
  have hfree : q.heap.get? p = none := Heap.get?_eq_none.mpr hp
  have hne : ∀ {r t}, q.heap.get? r = some t → r ≠ p := by
    rintro r t hr rfl
    rw [hfree] at hr
    cases hr
  have hget : ∀ {r t}, q.heap.get? r = some t →
      (q.heap.alloc p (Timer.create when_ interval q.numCreated) hp).get? r = some t := by
    intro r t hr
    rw [Heap.get?_alloc, if_neg (hne hr)]
    exact hr
  have hold : ∀ {r t}, r ≠ p →
      (q.heap.alloc p (Timer.create when_ interval q.numCreated) hp).get? r = some t →
      q.heap.get? r = some t := by
    intro r t hr h
    rwa [Heap.get?_alloc, if_neg hr] at h
  have hnotMem : ∀ x, TimerEntry.mk x p ∉ q.timers := by
    intro x hx
    obtain ⟨t, ht, -⟩ := ho.entry hx
    exact hne ht rfl
  simp only [TimerQueue.addTimer, hp, dite_true]
  constructor
  -- the sets hold timers at other addresses, where nothing changes
  case entry =>
    intro e he
    obtain ⟨t, ht, hte⟩ := ho.entry he
    exact ⟨t, hget ht, hte⟩
  case active =>
    intro a ha
    obtain ⟨t, ht, hta⟩ := ho.active ha
    exact ⟨t, hget ht, hta⟩
  -- the new timer is in neither set
  case same =>
    intro r t hr
    by_cases hrp : r = p
    · subst hrp
      refine ⟨fun h => absurd h (hnotMem _), fun h => ?_⟩
      obtain ⟨u, hu, -⟩ := ho.active h
      exact absurd rfl (hne hu)
    · exact ho.same (hold hrp hr)
  -- it is bound
  case bound =>
    intro r hr
    rcases List.mem_cons.mp hr with rfl | hr
    · exact ⟨_, by rw [Heap.get?_alloc, if_pos rfl], hnotMem _⟩
    · obtain ⟨t, ht, hnt⟩ := ho.bound hr
      exact ⟨t, hget ht, hnt⟩
  -- its address was free, so it was not bound before
  case bound_nodup =>
    refine List.nodup_cons.mpr ⟨fun h => ?_, ho.bound_nodup⟩
    obtain ⟨t, ht, -⟩ := ho.bound h
    exact hne ht rfl
  case batch_live =>
    intro e he
    obtain ⟨t, ht, hte, hnt, hnf⟩ := ho.batch_live he
    refine ⟨t, hget ht, hte, hnt, fun h => ?_⟩
    rcases List.mem_cons.mp h with h | h
    · exact hne ht h
    · exact hnf h
  case batch_nodup => exact ho.batch_nodup
  -- it is bound, and the others are where they were
  case place =>
    intro r t hr
    by_cases hrp : r = p
    · exact .inr (.inl (hrp ▸ List.mem_cons_self))
    · rcases ho.place (hold hrp hr) with h | h | h
      · exact .inl h
      · exact .inr (.inl (List.mem_cons_of_mem _ h))
      · exact .inr (.inr h)
  case address =>
    intro r t hr
    by_cases hrp : r = p
    · exact hrp ▸ hadd
    · exact ho.address (hold hrp hr)

/-- A bound timer moves into both sets. -/
theorem Owned.addTimerInLoop (ho : Owned q l) {p : ℕ} {t : Timer} (hp : p ∈ q.functors)
    (ht : q.heap.get? p = some t) (timerfd : Option Timerfd) :
    Owned { q with
      timers := q.timers.insert (TimerEntry.mk t.expiration p)
      activeTimers := q.activeTimers.insert (ActiveTimer.mk p t.sequence)
      functors := q.functors.erase p
      timerfd := timerfd } l := by
  have heq : ∀ {u}, q.heap.get? p = some u → u = t := fun hu =>
    Option.some.inj (hu.symm.trans ht)
  constructor
  -- the new entry and the new element refer to the timer
  case entry =>
    intro e he
    rcases OrderedSet.mem_insert.mp he with rfl | he
    · exact ⟨t, ht, rfl⟩
    · exact ho.entry he
  case active =>
    intro a ha
    rcases OrderedSet.mem_insert.mp ha with rfl | ha
    · exact ⟨t, ht, rfl⟩
    · exact ho.active ha
  -- both sets gain the same timer
  case same =>
    intro r u hr
    simp only [OrderedSet.mem_insert, TimerEntry.mk_inj, ActiveTimer.mk_inj, ho.same hr]
    by_cases hrp : r = p
    · subst hrp
      obtain rfl := heq hr
      simp
    · simp [hrp]
  -- the other bound timers are still in neither set
  case bound =>
    intro r hr
    obtain ⟨hrp, hr⟩ := ho.bound_nodup.mem_erase_iff.mp hr
    obtain ⟨u, hu, hnu⟩ := ho.bound hr
    refine ⟨u, hu, ?_⟩
    simp [hrp, hnu]
  case bound_nodup => exact ho.bound_nodup.erase p
  -- no timer of the batch is bound, so none of them moves
  case batch_live =>
    intro e he
    obtain ⟨u, hu, hue, hnu, hnf⟩ := ho.batch_live he
    refine ⟨u, hu, hue, fun h => ?_, fun h => hnf (List.mem_of_mem_erase h)⟩
    rcases OrderedSet.mem_insert.mp h with rfl | h
    · exact hnf hp
    · exact hnu h
  case batch_nodup => exact ho.batch_nodup
  -- the timer was bound, and is in the sets now
  case place =>
    intro r u hr
    by_cases hrp : r = p
    · subst hrp
      obtain rfl := heq hr
      exact .inl (OrderedSet.mem_insert.mpr (.inl rfl))
    · rcases ho.place hr with h | h | h
      · exact .inl (OrderedSet.mem_insert.mpr (.inr h))
      · exact .inr (.inl ((List.mem_erase_of_ne hrp).mpr h))
      · exact .inr (.inr h)
  case address => exact ho.address

/-- The timer at an address is the only one that the sets have there. -/
theorem Owned.timer_ne_of_ne (ho : Owned q l) {e : TimerEntry} {p : ℕ} {t : Timer}
    (ht : q.heap.get? p = some t) (he : e ∈ q.timers) (hne : e ≠ TimerEntry.mk t.expiration p) :
    e.timer ≠ p := by
  rintro rfl
  obtain ⟨u, hu, hue⟩ := ho.entry he
  obtain rfl := Option.some.inj (hu.symm.trans ht)
  exact hne (by rw [hue, TimerEntry.mk_eta])

theorem Owned.active_ne_of_ne (ho : Owned q l) {a : ActiveTimer} {p : ℕ} {t : Timer}
    (ht : q.heap.get? p = some t) (ha : a ∈ q.activeTimers)
    (hne : a ≠ ActiveTimer.mk p t.sequence) : a.timer ≠ p := by
  rintro rfl
  obtain ⟨u, hu, hua⟩ := ho.active ha
  obtain rfl := Option.some.inj (hu.symm.trans ht)
  exact hne (by rw [hua, ActiveTimer.mk_eta])

/-- A timer that is in both sets is deleted. -/
theorem Owned.delete (ho : Owned q l) {p : ℕ} {t : Timer} {h' : Heap Timer}
    (ht : q.heap.get? p = some t) (he : TimerEntry.mk t.expiration p ∈ q.timers)
    (hd : q.heap.delete p = some h') :
    Owned { q with
      timers := q.timers.erase (TimerEntry.mk t.expiration p)
      activeTimers := q.activeTimers.erase (ActiveTimer.mk p t.sequence)
      heap := h' } l := by
  have hget : ∀ {r u}, r ≠ p → q.heap.get? r = some u → h'.get? r = some u :=
    fun hr hu => (Heap.get?_eq_some_of_delete hd).mpr ⟨hr, hu⟩
  have hold : ∀ {r u}, h'.get? r = some u → r ≠ p ∧ q.heap.get? r = some u :=
    fun hr => (Heap.get?_eq_some_of_delete hd).mp hr
  constructor
  -- what is left in the sets is at other addresses
  case entry =>
    intro e h
    obtain ⟨hne, h⟩ := OrderedSet.mem_erase.mp h
    obtain ⟨u, hu, hue⟩ := ho.entry h
    exact ⟨u, hget (ho.timer_ne_of_ne ht h hne) hu, hue⟩
  case active =>
    intro a h
    obtain ⟨hne, h⟩ := OrderedSet.mem_erase.mp h
    obtain ⟨u, hu, hua⟩ := ho.active h
    exact ⟨u, hget (ho.active_ne_of_ne ht h hne) hu, hua⟩
  case same =>
    intro r u hr
    obtain ⟨hrp, hr⟩ := hold hr
    simp [hrp, ho.same hr]
  -- a bound timer is in neither set, so it is another one
  case bound =>
    intro r hr
    obtain ⟨u, hu, hnu⟩ := ho.bound hr
    have hrp : r ≠ p := by
      rintro rfl
      obtain rfl := Option.some.inj (hu.symm.trans ht)
      exact hnu he
    exact ⟨u, hget hrp hu, fun h => hnu (OrderedSet.mem_erase.mp h).2⟩
  case bound_nodup => exact ho.bound_nodup
  -- so is a timer of the batch
  case batch_live =>
    intro e h
    obtain ⟨u, hu, hue, hnu, hnf⟩ := ho.batch_live h
    have hep : e.timer ≠ p := by
      rintro rfl
      obtain rfl := Option.some.inj (hu.symm.trans ht)
      rw [hue, TimerEntry.mk_eta] at he
      exact hnu he
    exact ⟨u, hget hep hu, hue, fun h => hnu (OrderedSet.mem_erase.mp h).2, hnf⟩
  case batch_nodup => exact ho.batch_nodup
  case place =>
    intro r u hr
    obtain ⟨hrp, hr⟩ := hold hr
    rcases ho.place hr with h | h | h
    · exact .inl (OrderedSet.mem_erase.mpr ⟨by simp [hrp], h⟩)
    · exact .inr (.inl h)
    · exact .inr (.inr h)
  case address =>
    intro r u hr
    exact ho.address (hold hr).2

/-- `getExpired` moves the expired timers from both sets into the batch. -/
theorem Owned.getExpired (ho : Owned q []) {now : ℤ} {active' : OrderedSet ActiveTimer}
    (hmem : ∀ a, a ∈ active' ↔ a ∈ q.activeTimers ∧
      ∀ e ∈ q.timers.before (TimerEntry.mk now UINTPTR_MAX), a.timer ≠ e.timer) :
    Owned { q with
      timers := q.timers.since (TimerEntry.mk now UINTPTR_MAX)
      activeTimers := active' } (q.timers.before (TimerEntry.mk now UINTPTR_MAX)) := by
  set sentry := TimerEntry.mk now UINTPTR_MAX with hsentry
  constructor
  case entry =>
    intro e he
    exact ho.entry (OrderedSet.mem_since.mp he).2
  case active =>
    intro a ha
    exact ho.active ((hmem a).mp ha).1
  -- an element is left exactly when its entry is not before the sentry
  case same =>
    intro p t ht
    rw [OrderedSet.mem_since, hmem, ho.same ht, ActiveTimer.timer_mk]
    rw [and_comm]
    refine and_congr_right fun ha => ⟨fun hge e he hpe => ?_, fun hne => ?_⟩
    · obtain ⟨hlt, he⟩ := OrderedSet.mem_before.mp he
      obtain ⟨u, hu, hue⟩ := ho.entry he
      rw [← hpe, ht] at hu
      obtain rfl := Option.some.inj hu
      rw [hpe, hue, TimerEntry.mk_eta] at hge
      exact absurd hlt (not_lt.mpr hge)
    · by_contra hlt
      exact hne _ (OrderedSet.mem_before.mpr ⟨not_le.mp hlt, (ho.same ht).mpr ha⟩) rfl
  case bound =>
    intro p hp
    obtain ⟨t, ht, hnt⟩ := ho.bound hp
    exact ⟨t, ht, fun h => hnt (OrderedSet.mem_since.mp h).2⟩
  case bound_nodup => exact ho.bound_nodup
  -- the timers of the batch are in neither set any more
  case batch_live =>
    intro e he
    obtain ⟨hlt, he⟩ := OrderedSet.mem_before.mp he
    obtain ⟨t, ht, hte⟩ := ho.entry he
    refine ⟨t, ht, hte, fun h => absurd hlt (not_lt.mpr (OrderedSet.mem_since.mp h).1), fun h => ?_⟩
    obtain ⟨u, hu, hnu⟩ := ho.bound h
    obtain rfl := Option.some.inj (hu.symm.trans ht)
    rw [hte, TimerEntry.mk_eta] at hnu
    exact hnu he
  case batch_nodup => exact ho.nodup_before sentry
  -- the entry of a timer is on one side of the sentry
  case place =>
    intro p t ht
    rcases ho.place ht with h | h | h
    · rcases lt_or_ge (TimerEntry.mk t.expiration p) sentry with hlt | hge
      · exact .inr (.inr (OrderedSet.mem_before.mpr ⟨hlt, h⟩))
      · exact .inl (OrderedSet.mem_since.mpr ⟨hge, h⟩)
    · exact .inr (.inl h)
    · cases h
  case address => exact ho.address

/-- The timers of the batch are at different addresses. -/
theorem Owned.timer_ne_head {e f : TimerEntry} (ho : Owned q (e :: l)) (hf : f ∈ l) :
    f.timer ≠ e.timer := by
  intro heq
  have hnd := ho.batch_nodup
  rw [List.map_cons, List.nodup_cons] at hnd
  exact hnd.1 (List.mem_map.mpr ⟨f, hf, heq⟩)

/-- A timer at another address than the first of the batch is in the rest of it, if at all. -/
theorem Owned.place_of_ne {e : TimerEntry} (ho : Owned q (e :: l)) {r : ℕ} {t : Timer}
    (ht : q.heap.get? r = some t) (hre : r ≠ e.timer) :
    TimerEntry.mk t.expiration r ∈ q.timers ∨ r ∈ q.functors ∨
      TimerEntry.mk t.expiration r ∈ l := by
  refine (ho.place ht).imp id (Or.imp id fun h => ?_)
  rcases List.mem_cons.mp h with h | h
  · exact absurd (by rw [← h, TimerEntry.timer_mk]) hre
  · exact h

/-- A timer of the batch moves back into both sets. -/
theorem Owned.reinsert {e : TimerEntry} (ho : Owned q (e :: l)) {now : ℤ} {t : Timer}
    (ht : q.heap.get? e.timer = some t) (hr : t.repeat_ = true) :
    Owned { q with
      heap := q.heap.modify e.timer (Timer.restart now)
      timers := q.timers.insert (TimerEntry.mk (addTime now t.intervalSeconds) e.timer)
      activeTimers := q.activeTimers.insert (ActiveTimer.mk e.timer t.sequence) } l := by
  obtain ⟨t', ht', hte, hnt, hnf⟩ := ho.batch_live List.mem_cons_self
  obtain rfl := Option.some.inj (ht.symm.trans ht')
  have hte' : TimerEntry.mk t.expiration e.timer = e := by rw [hte, TimerEntry.mk_eta]
  have hself : (q.heap.modify e.timer (Timer.restart now)).get? e.timer = some (t.restart now) := by
    rw [Heap.get?_modify, if_pos rfl, ht, Option.map_some]
  have hget : ∀ {r}, r ≠ e.timer →
      (q.heap.modify e.timer (Timer.restart now)).get? r = q.heap.get? r := by
    intro r hr
    rw [Heap.get?_modify, if_neg hr]
  have hexp := Timer.expiration_restart now hr
  constructor
  -- the timer has the new expiration, and the others are at other addresses
  case entry =>
    intro f hf
    rcases OrderedSet.mem_insert.mp hf with rfl | hf
    · exact ⟨_, hself, hexp⟩
    · obtain ⟨u, hu, huf⟩ := ho.entry hf
      refine ⟨u, ?_, huf⟩
      rw [hget (ho.timer_ne_of_ne ht hf (by rintro rfl; exact hnt (hte' ▸ hf)))]
      exact hu
  -- the sequence number is the old one
  case active =>
    intro a ha
    rcases OrderedSet.mem_insert.mp ha with rfl | ha
    · exact ⟨_, hself, Timer.sequence_restart now t⟩
    · obtain ⟨u, hu, hua⟩ := ho.active ha
      refine ⟨u, ?_, hua⟩
      rw [hget (ho.active_ne_of_ne ht ha ?_)]
      · exact hu
      · rintro rfl
        exact hnt (hte' ▸ (ho.same ht).mpr ha)
  case same =>
    intro r u hru
    by_cases hre : r = e.timer
    · subst hre
      obtain rfl := Option.some.inj (hru.symm.trans hself)
      simp [hexp]
    · rw [hget hre] at hru
      simp [hre, ho.same hru]
  case bound =>
    intro r hrf
    obtain ⟨u, hu, hnu⟩ := ho.bound hrf
    have hre : r ≠ e.timer := fun h => hnf (h ▸ hrf)
    exact ⟨u, by rw [hget hre]; exact hu, by simp [hre, hnu]⟩
  case bound_nodup => exact ho.bound_nodup
  -- the other timers of the batch are at other addresses
  case batch_live =>
    intro f hf
    obtain ⟨u, hu, huf, hnu, hnf'⟩ := ho.batch_live (List.mem_cons_of_mem _ hf)
    have hfe : f.timer ≠ e.timer := ho.timer_ne_head hf
    refine ⟨u, by rw [hget hfe]; exact hu, huf, fun h => ?_, hnf'⟩
    rcases OrderedSet.mem_insert.mp h with rfl | h
    · exact hfe rfl
    · exact hnu h
  case batch_nodup => exact (List.nodup_cons.mp ho.batch_nodup).2
  -- the timer was in the batch, and is in the sets now
  case place =>
    intro r u hru
    by_cases hre : r = e.timer
    · subst hre
      obtain rfl := Option.some.inj (hru.symm.trans hself)
      exact .inl (OrderedSet.mem_insert.mpr (.inl (by rw [hexp])))
    · rw [hget hre] at hru
      exact (ho.place_of_ne hru hre).imp_left fun h => OrderedSet.mem_insert.mpr (.inr h)
  case address =>
    intro r u hru
    by_cases hre : r = e.timer
    · exact hre ▸ ho.address ht
    · exact ho.address (by rwa [hget hre] at hru)

/-- A timer of the batch is deleted. -/
theorem Owned.deleteBatch {e : TimerEntry} (ho : Owned q (e :: l)) {h' : Heap Timer}
    (hd : q.heap.delete e.timer = some h') : Owned { q with heap := h' } l := by
  obtain ⟨t, ht, hte, hnt, hnf⟩ := ho.batch_live List.mem_cons_self
  have hte' : TimerEntry.mk t.expiration e.timer = e := by rw [hte, TimerEntry.mk_eta]
  have hget : ∀ {r u}, r ≠ e.timer → q.heap.get? r = some u → h'.get? r = some u :=
    fun hr hu => (Heap.get?_eq_some_of_delete hd).mpr ⟨hr, hu⟩
  have hold : ∀ {r u}, h'.get? r = some u → r ≠ e.timer ∧ q.heap.get? r = some u :=
    fun hr => (Heap.get?_eq_some_of_delete hd).mp hr
  constructor
  -- the timers of the sets are at other addresses
  case entry =>
    intro f hf
    obtain ⟨u, hu, huf⟩ := ho.entry hf
    exact ⟨u, hget (ho.timer_ne_of_ne ht hf (by rintro rfl; exact hnt (hte' ▸ hf))) hu, huf⟩
  case active =>
    intro a ha
    obtain ⟨u, hu, hua⟩ := ho.active ha
    refine ⟨u, hget (ho.active_ne_of_ne ht ha ?_) hu, hua⟩
    rintro rfl
    exact hnt (hte' ▸ (ho.same ht).mpr ha)
  case same =>
    intro r u hr
    exact ho.same (hold hr).2
  case bound =>
    intro r hr
    obtain ⟨u, hu, hnu⟩ := ho.bound hr
    exact ⟨u, hget (fun h => hnf (h ▸ hr)) hu, hnu⟩
  case bound_nodup => exact ho.bound_nodup
  -- so are the others of the batch
  case batch_live =>
    intro f hf
    obtain ⟨u, hu, huf, hnu, hnf'⟩ := ho.batch_live (List.mem_cons_of_mem _ hf)
    have hfe : f.timer ≠ e.timer := ho.timer_ne_head hf
    exact ⟨u, hget hfe hu, huf, hnu, hnf'⟩
  case batch_nodup => exact (List.nodup_cons.mp ho.batch_nodup).2
  case place =>
    intro r u hr
    obtain ⟨hre, hr⟩ := hold hr
    exact ho.place_of_ne hr hre
  case address =>
    intro r u hr
    exact ho.address (hold hr).2

/-! ## The loop of `reset` -/

/-- A property of the queue and of the entries that are left is kept by the rounds of `reset`: when
a timer is re-inserted, and when one is deleted. -/
structure KeptByReset (now : ℤ) (P : TimerQueue → List TimerEntry → Prop) : Prop where
  reinsert : ∀ {q : TimerQueue} {e : TimerEntry} {l : List TimerEntry} {t : Timer},
    Owned q (e :: l) → P q (e :: l) → q.heap.get? e.timer = some t → t.repeat_ = true →
    ActiveTimer.mk e.timer t.sequence ∉ q.cancelingTimers →
    P { q with
      heap := q.heap.modify e.timer (Timer.restart now)
      timers := q.timers.insert (TimerEntry.mk (addTime now t.intervalSeconds) e.timer)
      activeTimers := q.activeTimers.insert (ActiveTimer.mk e.timer t.sequence) } l
  delete : ∀ {q : TimerQueue} {e : TimerEntry} {l : List TimerEntry} {t : Timer} {h' : Heap Timer},
    Owned q (e :: l) → P q (e :: l) → q.heap.get? e.timer = some t →
    (t.repeat_ = false ∨ ActiveTimer.mk e.timer t.sequence ∈ q.cancelingTimers) →
    q.heap.delete e.timer = some h' → P { q with heap := h' } l

/-- The induction over the loop of `reset`. A property that its rounds keep holds at the end, and
nothing but the two sets and the timer objects has changed. -/
theorem foldlM_resetEntry {P : TimerQueue → List TimerEntry → Prop} {now : ℤ}
    (hkept : KeptByReset now P) :
    ∀ {l : List TimerEntry} {q : TimerQueue}, Owned q l → P q l →
      ∃ q', l.foldlM (resetEntry now) q = .ok q' ∧ Owned q' [] ∧ P q' [] ∧
        q' = { q with timers := q'.timers, activeTimers := q'.activeTimers, heap := q'.heap } := by
  intro l
  induction l with
  | nil => exact fun ho hp => ⟨_, rfl, ho, hp, rfl⟩
  -- one round re-inserts the timer of `e` or deletes it, and the induction does the rest
  | cons e l ih =>
    intro q ho hp
    obtain ⟨t, ht, ⟨hr, hc, -, hstep⟩ | ⟨hr, h', hd, hstep⟩⟩ := resetEntry_eq ho now
    · obtain ⟨q', hfold, ho', hp', hq'⟩ := ih (ho.reinsert ht hr) (hkept.reinsert ho hp ht hr hc)
      refine ⟨q', ?_, ho', hp', ?_⟩
      · rw [List.foldlM_cons, hstep]
        exact hfold
      · rw [hq']
    · obtain ⟨q', hfold, ho', hp', hq'⟩ := ih (ho.deleteBatch hd) (hkept.delete ho hp ht hr hd)
      refine ⟨q', ?_, ho', hp', ?_⟩
      · rw [List.foldlM_cons, hstep]
        exact hfold
      · rw [hq']

/-- The descriptor at the end of `reset`. -/
def rearmed (q : TimerQueue) : Option Timerfd :=
  match q.timers.first? with
  | none => q.timerfd
  | some e => if TimeStamp.valid e.expiration then resetTimerfd e.expiration q.clock else q.timerfd

theorem rearm_eq (ho : Owned q l) : q.rearm = .ok { q with timerfd := q.rearmed } := by
  unfold rearm rearmed
  cases hf : q.timers.first? with
  | none => rfl
  | some e =>
    obtain ⟨t, ht, hte⟩ := ho.entry (OrderedSet.first?_mem hf)
    by_cases hv : TimeStamp.valid e.expiration <;>
      simp [deref_eq ht, hte, hv, bind, Except.bind, pure, Except.pure]

/-! ## Every event keeps the invariant -/

theorem Owned.congr {q' : TimerQueue} (ho : Owned q l) (ht : q'.timers = q.timers)
    (ha : q'.activeTimers = q.activeTimers) (hh : q'.heap = q.heap)
    (hf : q'.functors = q.functors) : Owned q' l := by
  obtain ⟨h₁, h₂, h₃, h₄, h₅, h₆, h₇, h₈, h₉⟩ := ho
  constructor <;> (try simp only [ht, ha, hh, hf]) <;> assumption

theorem Inv.init (clock : ℤ) (numCreated : BitVec 64) : Inv (init clock numCreated) := by
  refine ⟨?_, rfl, fun hf => nomatch hf⟩
  have hnone : ∀ p, (TimerQueue.init clock numCreated).heap.get? p = none := fun _ => rfl
  constructor
  case entry => exact fun h => absurd h (OrderedSet.notMem_empty _)
  case active => exact fun h => absurd h (OrderedSet.notMem_empty _)
  case same =>
    intro p t ht
    simp [hnone] at ht
  case bound => exact fun h => by cases h
  case bound_nodup => exact List.nodup_nil
  case batch_live => exact fun h => by cases h
  case batch_nodup => exact List.nodup_nil
  case place =>
    intro p t ht
    simp [hnone] at ht
  case address =>
    intro p t ht
    simp [hnone] at ht

/-- The result of `addTimerInLoop`, and that it keeps the invariant. -/
theorem Inv.addTimerInLoop (hi : Inv q) {p : ℕ} (hp : p ∈ q.functors) :
    ∃ q', q.addTimerInLoop p = .ok q' ∧ Inv q' := by
  obtain ⟨t, ht, -, h⟩ := addTimerInLoop_eq hi.owned hp
  exact ⟨_, h, hi.owned.addTimerInLoop hp ht _, hi.calling, hi.todo⟩

theorem Inv.cancelInLoop (hi : Inv q) (id : TimerId) :
    ∃ q', q.cancelInLoop id = .ok q' ∧ Inv q' := by
  by_cases h : ActiveTimer.mk id.timer id.sequence ∈ q.activeTimers
  · obtain ⟨t, h', ht, hts, he, hd, heq⟩ := cancelInLoop_eq_active hi.owned _ h
    refine ⟨_, heq, ?_, hi.calling, hi.todo⟩
    rw [← hts]
    exact hi.owned.delete ht he hd
  · refine ⟨_, cancelInLoop_eq_notMem hi.owned _ h, ?_⟩
    split
    · exact ⟨hi.owned.congr rfl rfl rfl rfl, hi.calling, hi.todo⟩
    · exact hi

/-- `handleRead` opens a frame whose batch is the expired timers. -/
theorem handleRead_eq (hi : Inv q) (hf : q.frame = none) :
    ∃ active', q.handleRead = .ok { q with
        timers := q.timers.since (TimerEntry.mk q.clock UINTPTR_MAX)
        callingExpiredTimers := true
        activeTimers := active'
        cancelingTimers := OrderedSet.empty
        timerfd := readTimerfd q.timerfd q.clock
        frame := some {
          now := q.clock
          expired := q.timers.before (TimerEntry.mk q.clock UINTPTR_MAX)
          todo := q.timers.before (TimerEntry.mk q.clock UINTPTR_MAX) }
        calls := q.calls + 1 } ∧
      ∀ a, a ∈ active' ↔ a ∈ q.activeTimers ∧
        ∀ e ∈ q.timers.before (TimerEntry.mk q.clock UINTPTR_MAX), a.timer ≠ e.timer := by
  have ho : Owned { q with timerfd := readTimerfd q.timerfd q.clock } [] := by
    have h := hi.owned
    simp only [TimerQueue.batch, hf] at h
    exact h.congr rfl rfl rfl rfl
  obtain ⟨active', h, hmem⟩ := getExpired_eq ho q.clock
  refine ⟨active', ?_, hmem⟩
  simp [handleRead, h, bind, Except.bind, pure, Except.pure]

theorem Inv.handleRead (hi : Inv q) (hf : q.frame = none) :
    ∃ q', q.handleRead = .ok q' ∧ Inv q' := by
  obtain ⟨active', h, hmem⟩ := handleRead_eq hi hf
  refine ⟨_, h, ?_, rfl, ?_⟩
  · have ho := hi.owned
    simp only [TimerQueue.batch, hf] at ho
    exact (ho.getExpired hmem).congr rfl rfl rfl rfl
  · rintro f ⟨⟩
    exact List.suffix_refl _

/-- A round of the loop of `handleRead` finds a living timer. -/
theorem runNext_eq (hi : Inv q) {now : ℤ} {expired rest : List TimerEntry} {e : TimerEntry}
    (hf : q.frame = some ⟨now, expired, e :: rest⟩) :
    ∃ c, q.heap.cell e.timer = some c ∧ q.runNext = .ok { q with
      frame := some ⟨now, expired, rest⟩
      ran := q.ran ++ [(q.calls, c.1)] } := by
  have hmem : e ∈ expired := (hi.todo hf).subset List.mem_cons_self
  have ho := hi.owned
  simp only [TimerQueue.batch, hf] at ho
  obtain ⟨t, ht, -⟩ := ho.batch_live hmem
  obtain ⟨n, hn⟩ := Heap.get?_eq_some.mp ht
  exact ⟨_, hn, by simp [runNext, hf, hn]⟩

theorem Inv.runNext (hi : Inv q) {now : ℤ} {expired rest : List TimerEntry} {e : TimerEntry}
    (hf : q.frame = some ⟨now, expired, e :: rest⟩) : ∃ q', q.runNext = .ok q' ∧ Inv q' := by
  obtain ⟨c, -, h⟩ := runNext_eq hi hf
  refine ⟨_, h, ?_, ?_, ?_⟩
  · have ho := hi.owned
    simp only [TimerQueue.batch, hf] at ho
    exact ho.congr rfl rfl rfl rfl
  · rw [hi.calling, hf]
    rfl
  · rintro f ⟨⟩
    exact (List.suffix_cons e rest).trans (hi.todo hf)

/-- The end of `handleRead`: a property kept by the loop of `reset` holds of the queue before the
descriptor is armed again. -/
theorem finish_eq (hi : Inv q) {P : TimerQueue → List TimerEntry → Prop} {now : ℤ}
    {expired todo : List TimerEntry} (hf : q.frame = some ⟨now, expired, todo⟩)
    (hkept : KeptByReset now P)
    (hp : P { q with callingExpiredTimers := false } expired) :
    ∃ q₁, Owned q₁ [] ∧ P q₁ [] ∧
      q₁ = { q with
        callingExpiredTimers := false
        timers := q₁.timers
        activeTimers := q₁.activeTimers
        heap := q₁.heap } ∧
      q.finish = .ok { q₁ with timerfd := q₁.rearmed, frame := none } := by
  have ho : Owned { q with callingExpiredTimers := false } expired := by
    have h := hi.owned
    simp only [TimerQueue.batch, hf] at h
    exact h.congr rfl rfl rfl rfl
  obtain ⟨q₁, hfold, ho₁, hp₁, hq₁⟩ := foldlM_resetEntry hkept ho hp
  refine ⟨q₁, ho₁, hp₁, hq₁, ?_⟩
  -- the frame selects the first branch of `finish`
  have hfinish : q.finish = ({ q with callingExpiredTimers := false }.reset expired now >>=
      fun q => pure { q with frame := none }) := by
    unfold TimerQueue.finish
    split
    · next heq =>
      rw [hf] at heq
      cases heq
      rfl
    · next heq =>
      rw [hf] at heq
      cases heq
  rw [hfinish]
  simp [reset, hfold, rearm_eq ho₁, bind, Except.bind, pure, Except.pure]

theorem Inv.finish (hi : Inv q) {now : ℤ} {expired todo : List TimerEntry}
    (hf : q.frame = some ⟨now, expired, todo⟩) : ∃ q', q.finish = .ok q' ∧ Inv q' := by
  obtain ⟨q₁, ho, -, hq₁, h⟩ := finish_eq hi (P := fun _ _ => True) hf
    ⟨fun _ _ _ _ _ => trivial, fun _ _ _ _ _ => trivial⟩ trivial
  refine ⟨_, h, ho.congr rfl rfl rfl rfl, ?_, fun hf => nomatch hf⟩
  rw [hq₁]
  rfl

/-- The frame of an enabled `run`. -/
theorem exists_frame_of_run (h : q.Enabled .run) :
    ∃ now expired e rest, q.frame = some ⟨now, expired, e :: rest⟩ := by
  obtain ⟨⟨now, expired, todo⟩, hf, htodo⟩ := (Option.any_eq_true _ _).mp h
  cases todo with
  | nil => cases htodo
  | cons e rest => exact ⟨now, expired, e, rest, hf⟩

/-- The frame of an enabled `finish`. -/
theorem exists_frame_of_finish (h : q.Enabled .finish) :
    ∃ now expired, q.frame = some ⟨now, expired, []⟩ := by
  obtain ⟨⟨now, expired, todo⟩, hf, htodo⟩ := (Option.any_eq_true _ _).mp h
  cases todo with
  | nil => exact ⟨now, expired, hf⟩
  | cons e rest => cases htodo

theorem frame_of_handleRead (h : q.Enabled .handleRead) : q.frame = none :=
  Option.isNone_iff_eq_none.mp h

/-- **One step**: an enabled event does not fault, and keeps the invariant. -/
theorem Inv.step (hi : Inv q) {e : Event} (he : q.Enabled e) :
    ∃ q', q.step e = .ok q' ∧ Inv q' := by
  cases e with
  | tick now => exact ⟨_, rfl, hi.owned.congr rfl rfl rfl rfl, hi.calling, hi.todo⟩
  | otherTimer => exact ⟨_, rfl, hi.owned.congr rfl rfl rfl rfl, hi.calling, hi.todo⟩
  -- the address is free, so `addTimer` takes its first branch
  | addTimer p when_ interval =>
    have ho := hi.owned.addTimer when_ interval he.1 he.2
    refine ⟨_, rfl, ?_, ?_, ?_⟩ <;> simp only [TimerQueue.addTimer, he.1, dite_true] at ho ⊢
    · exact ho
    · exact hi.calling
    · exact hi.todo
  | addTimerInLoop p => exact hi.addTimerInLoop he
  | cancelInLoop id => exact hi.cancelInLoop id
  | handleRead => exact hi.handleRead (frame_of_handleRead he)
  | run =>
    obtain ⟨now, expired, e, rest, hf⟩ := exists_frame_of_run he
    exact hi.runNext hf
  | finish =>
    obtain ⟨now, expired, hf⟩ := exists_frame_of_finish he
    exact hi.finish hf

theorem preserves_inv : machine.Preserves Inv := by
  intro q e q' hi he hs
  obtain ⟨q'', hs', hi'⟩ := hi.step he
  obtain rfl : q'' = q' := Except.ok.inj (hs'.symm.trans hs)
  exact hi'

theorem inv_of_init {q : TimerQueue} (h : machine.init q) : Inv q := by
  obtain ⟨clock, numCreated, rfl⟩ := h
  exact Inv.init clock numCreated

/-- The invariant holds in every reachable state. -/
theorem inv_of_reachable (h : machine.Reachable q) : Inv q :=
  h.invariant preserves_inv fun _ => inv_of_init

/-- No event of a timer queue faults. -/
theorem neverFaults : machine.NeverFaults :=
  Machine.neverFaults_of_invariant preserves_inv (fun _ => inv_of_init) fun _ _ hi he =>
    (hi.step he).imp fun _ h => h.1

/-- **Representation invariant.** In every reachable state, inside a running `handleRead` too, the
two sets describe the same timers, they and the batch refer to living timers only, no timer has
been deleted twice, and no event that can happen next fails an assertion or touches memory that
holds no timer. -/
theorem timers_iff_activeTimers (h : machine.Reachable q) :
    (∀ p t, q.heap.get? p = some t →
      (TimerEntry.mk t.expiration p ∈ q.timers ↔ ActiveTimer.mk p t.sequence ∈ q.activeTimers)) ∧
    (∀ e, e ∈ q.timers → ∃ t, q.heap.get? e.timer = some t ∧ t.expiration = e.expiration) ∧
    (∀ a, a ∈ q.activeTimers → ∃ t, q.heap.get? a.timer = some t ∧ t.sequence = a.sequence) ∧
    (∀ e ∈ q.batch, ∃ t, q.heap.get? e.timer = some t ∧ t.expiration = e.expiration) ∧
    q.heap.deleted.Nodup ∧
    ∀ e, q.Enabled e → ∃ q', q.step e = .ok q' := by
  have hi := inv_of_reachable h
  refine ⟨fun p t ht => hi.owned.same ht, fun e he => hi.owned.entry he,
    fun a ha => hi.owned.active ha, fun e he => ?_, q.heap.deleted_nodup,
    fun e he => neverFaults q e h he⟩
  obtain ⟨t, ht, hte, -⟩ := hi.owned.batch_live he
  exact ⟨t, ht, hte⟩

/-- A run in which a repeating timer adds another timer and cancels itself from its callback: the
first timer of the process is in the batch when it is cancelled. -/
def selfCancelRun : List Event :=
  [.addTimer 8 50 1, .addTimerInLoop 8, .tick 60, .handleRead, .run, .addTimer 16 70 0,
    .addTimerInLoop 16, .cancelInLoop (addTimerId 8)]

theorem timers_iff_activeTimers_selfCancel :
    ∃ q, machine.exec (init 1 0) selfCancelRun = some q ∧
      (∀ p t, q.heap.get? p = some t →
        (TimerEntry.mk t.expiration p ∈ q.timers ↔
          ActiveTimer.mk p t.sequence ∈ q.activeTimers)) ∧
      (∃ q', q.step .finish = .ok q') := by
  have hex : (machine.exec (init 1 0) selfCancelRun).isSome := by decide +kernel
  obtain ⟨q, hq⟩ := Option.isSome_iff_exists.mp hex
  have hr : machine.Reachable q := ⟨_, _, ⟨1, 0, rfl⟩, Machine.run_of_exec hq⟩
  have henabled : ((machine.exec (init 1 0) selfCancelRun).map fun q =>
      decide (q.Enabled .finish)) = some true := by decide +kernel
  rw [hq, Option.map_some, Option.some_inj, decide_eq_true_iff] at henabled
  obtain ⟨hsame, -, -, -, -, hok⟩ := timers_iff_activeTimers hr
  exact ⟨q, hq, hsame, hok .finish henabled⟩

end CodingDemo.Libcpp.TimerQueue
