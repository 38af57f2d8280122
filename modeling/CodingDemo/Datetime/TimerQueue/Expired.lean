import CodingDemo.Datetime.TimerQueue.Cancel

/-!
# The expired timers

`getExpired` takes the timers that are due, in the order of their expirations, and `handleRead` runs
the callback of each of them. Whatever the callbacks do meanwhile, the timers of the batch stay as
they are until `reset` re-inserts or deletes them.

## Main definitions

* `Takes`: what `getExpired` returns and leaves
* `callbacks`: the events from the beginning of `handleRead` to the end of its loop
* `Calling`: what has been run and what is left, and the timers of the batch
* `Renews`: what `reset` does to the timers of the batch

## Main results

* `takes_getExpired`: `getExpired` takes the timers that are due
* `Calling.of_run`: the callbacks of the batch are run in order
* `renews_finish`: `reset` re-inserts the repeating timers that have not been cancelled
* `handleRead_runs_expired`: a whole call of `handleRead`
-/

namespace CodingDemo.Libcpp.TimerQueue

variable {q q' q₂ q₃ : TimerQueue} {now : ℤ} {l expired done : List TimerEntry}

/-- The serial number of the timer at an address. -/
def serial (q : TimerQueue) (p : ℕ) : ℕ :=
  match q.heap.cell p with
  | some c => c.1
  | none => 0

/-- The timers that are due are taken out of both sets, ordered by their expirations. -/
structure Takes (q : TimerQueue) (now : ℤ) (expired : List TimerEntry) (q' : TimerQueue) :
    Prop where
  sorted : expired.Pairwise fun e f => e.expiration ≤ f.expiration
  nodup : (expired.map TimerEntry.timer).Nodup
  mem_iff : ∀ e, e ∈ expired ↔ e ∈ q.timers ∧ e.expiration ≤ now
  live : ∀ e ∈ expired, ∃ t, q.heap.get? e.timer = some t ∧ t.expiration = e.expiration
  timers : ∀ e, e ∈ q'.timers ↔ e ∈ q.timers ∧ e ∉ expired
  activeTimers : ∀ a, a ∈ q'.activeTimers ↔
    a ∈ q.activeTimers ∧ ∀ e ∈ expired, a.timer ≠ e.timer

/-- The events while the callbacks of a call are run: the callbacks, what happens in them, and what
happens elsewhere. -/
def callbacks : Machine TimerQueue Event Fault := machine.guard fun _ e => e ≠ .finish

/-- The notes of the callbacks that the next call of `handleRead` is going to run. -/
def owed (q : TimerQueue) (l : List TimerEntry) : List (ℕ × ℕ) :=
  l.map fun e => (q.calls + 1, q.serial e.timer)

/-- The call of `handleRead` that began in `q` runs the callbacks of `expired`: those that have been
run and those that are left are all of them, and their timers have not changed. -/
structure Calling (q : TimerQueue) (expired : List TimerEntry) (q₂ : TimerQueue) : Prop where
  calls : q₂.calls = q.calls + 1
  frame : ∃ todo, q₂.frame = some ⟨q.clock, expired, todo⟩ ∧
    q₂.ran ++ q.owed todo = q.ran ++ q.owed expired
  cell : ∀ e ∈ expired, q₂.heap.cell e.timer = q.heap.cell e.timer

/-- The timer repeats, and has not been put into `cancelingTimers_`. -/
def Renewed (q : TimerQueue) (p : ℕ) (t : Timer) : Prop :=
  t.repeat_ = true ∧ ActiveTimer.mk p t.sequence ∉ q.cancelingTimers

/-- The timers of the batch that are to be renewed are in both sets with their new expirations, the
others have been deleted, and nothing else has changed. -/
structure Renews (q : TimerQueue) (now : ℤ) (batch : List TimerEntry) (q' : TimerQueue) :
    Prop where
  timers : ∀ x, x ∈ q'.timers ↔ x ∈ q.timers ∨ ∃ e ∈ batch, ∃ t,
    q.heap.get? e.timer = some t ∧ q.Renewed e.timer t ∧
      x = TimerEntry.mk (addTime now t.intervalSeconds) e.timer
  activeTimers : ∀ a, a ∈ q'.activeTimers ↔ a ∈ q.activeTimers ∨ ∃ e ∈ batch, ∃ t,
    q.heap.get? e.timer = some t ∧ q.Renewed e.timer t ∧ a = ActiveTimer.mk e.timer t.sequence
  renewed : ∀ e ∈ batch, ∀ n t, q.heap.cell e.timer = some (n, t) → q.Renewed e.timer t →
    q'.heap.cell e.timer = some (n, t.restart now)
  freed : ∀ e ∈ batch, ∀ n t, q.heap.cell e.timer = some (n, t) → ¬q.Renewed e.timer t →
    q'.heap.cell e.timer = none
  deleted : ∀ n, n ∈ q'.heap.deleted ↔ n ∈ q.heap.deleted ∨ ∃ e ∈ batch, ∃ t,
    q.heap.cell e.timer = some (n, t) ∧ ¬q.Renewed e.timer t
  other : ∀ p, (∀ e ∈ batch, e.timer ≠ p) → q'.heap.cell p = q.heap.cell p

/-! ## What is due -/

theorem Owned.takes (ho : Owned q l) (now : ℤ)
    (htimers : q'.timers = q.timers.since (TimerEntry.mk now UINTPTR_MAX))
    (hactive : ∀ a, a ∈ q'.activeTimers ↔ a ∈ q.activeTimers ∧
      ∀ e ∈ q.timers.before (TimerEntry.mk now UINTPTR_MAX), a.timer ≠ e.timer) :
    Takes q now (q.timers.before (TimerEntry.mk now UINTPTR_MAX)) q' where
  sorted := (OrderedSet.sorted_before _ _).imp fun h => TimerEntry.expiration_mono h.le
  nodup := ho.nodup_before _
  mem_iff e := by
    rw [OrderedSet.mem_before, and_comm]
    refine and_congr_right fun he => ?_
    -- No timer is at the address of the sentry, so those that are due now are before it.
    obtain ⟨t, ht, -⟩ := ho.entry he
    exact lt_sentry_iff (ho.address ht).2
  live e he := ho.entry (OrderedSet.mem_before.mp he).2
  timers e := by
    rw [htimers, OrderedSet.mem_since, OrderedSet.mem_before, and_comm]
    refine and_congr_right fun he => ?_
    rw [and_iff_left he, not_lt]
  activeTimers := hactive

/-- **What `getExpired` takes.** -/
theorem Owned.takes_getExpired (ho : Owned q l) (now : ℤ) :
    ∃ expired q', q.getExpired now = .ok (expired, q') ∧ Takes q now expired q' ∧
      q' = { q with timers := q'.timers, activeTimers := q'.activeTimers } := by
  obtain ⟨active', heq, hactive⟩ := getExpired_eq ho now
  exact ⟨_, _, heq, ho.takes now rfl hactive, rfl⟩

/-! ## The callbacks -/

theorem serial_eq {p n : ℕ} {t : Timer} (h : q.heap.cell p = some (n, t)) : q.serial p = n := by
  rw [serial, h]

/-- The callbacks run different timers. -/
theorem Takes.nodup_serial (h : Takes q now expired q') :
    (expired.map fun e => q.serial e.timer).Nodup := by
  refine List.Nodup.map_on (fun e he f hf hef => ?_) (List.Nodup.of_map _ h.nodup)
  obtain ⟨t, ht, -⟩ := h.live e he
  obtain ⟨u, hu, -⟩ := h.live f hf
  obtain ⟨m, hm⟩ := Heap.get?_eq_some.mp ht
  obtain ⟨n, hn⟩ := Heap.get?_eq_some.mp hu
  rw [serial_eq hm, serial_eq hn] at hef
  exact List.inj_on_of_nodup_map h.nodup he hf (q.heap.serial_inj hm hn hef)

theorem Calling.batch_eq (h : Calling q expired q₂) : q₂.batch = expired := by
  obtain ⟨todo, hf, -⟩ := h.frame
  rw [TimerQueue.batch, hf]

/-- The timer of a batch is not the one that a cancel finds. -/
theorem Owned.timer_ne_of_mem_batch (ho : Owned q l) {e : TimerEntry} (he : e ∈ l) {p : ℕ}
    {t : Timer} (ht : q.heap.get? p = some t) (hmem : TimerEntry.mk t.expiration p ∈ q.timers) :
    e.timer ≠ p := by
  rintro rfl
  obtain ⟨u, hu, hue, hnt, -⟩ := ho.batch_live he
  obtain rfl := Option.some.inj (hu.symm.trans ht)
  rw [hue, TimerEntry.mk_eta] at hmem
  exact hnt hmem

/-- **One event** of a call of `handleRead` runs the next callback or leaves them as they are. -/
theorem Calling.step (hi : Inv q₂) (h : Calling q expired q₂) {e : Event}
    (he : q₂.Enabled e) (hne : e ≠ .finish) (hs : q₂.step e = .ok q₃) : Calling q expired q₃ := by
  obtain ⟨todo, hf, hran⟩ := h.frame
  have ho := hi.owned
  rw [h.batch_eq] at ho
  cases e with
  | tick now =>
    obtain rfl := Except.ok.inj hs
    exact ⟨h.calls, h.frame, h.cell⟩
  | otherTimer =>
    obtain rfl := Except.ok.inj hs
    exact ⟨h.calls, h.frame, h.cell⟩
  | addTimer p when_ interval =>
    obtain rfl := Except.ok.inj hs
    simp only [TimerQueue.addTimer, he.1, dite_true]
    refine ⟨h.calls, h.frame, fun e hmem => ?_⟩
    -- The new timer is at a free address.
    have hep : e.timer ≠ p := by
      rintro rfl
      obtain ⟨t, ht, -⟩ := ho.batch_live hmem
      rw [Heap.get?_eq_none.mpr he.1] at ht
      cases ht
    rw [Heap.cell_alloc, if_neg hep]
    exact h.cell e hmem
  | addTimerInLoop p =>
    obtain ⟨t, -, -, heq⟩ := addTimerInLoop_eq hi.owned he
    obtain rfl := Except.ok.inj (heq.symm.trans hs)
    exact ⟨h.calls, h.frame, h.cell⟩
  | cancelInLoop id =>
    by_cases ha : ActiveTimer.mk id.timer id.sequence ∈ q₂.activeTimers
    · -- Only a timer that is in both sets is deleted, and those of the batch are in neither.
      obtain ⟨t, h', ht, -, hmem, hd, heq⟩ := cancelInLoop_eq_active hi.owned _ ha
      obtain rfl := Except.ok.inj (heq.symm.trans hs)
      refine ⟨h.calls, h.frame, fun e he => ?_⟩
      rw [← h.cell e he]
      exact Heap.cell_of_delete_of_ne hd (ho.timer_ne_of_mem_batch he ht hmem)
    · obtain rfl := Except.ok.inj ((cancelInLoop_eq_notMem hi.owned _ ha).symm.trans hs)
      split_ifs
      · exact ⟨h.calls, h.frame, h.cell⟩
      · exact h
  | handleRead =>
    rw [frame_of_handleRead he] at hf
    cases hf
  | run =>
    obtain ⟨now', expired', e, rest, hf'⟩ := exists_frame_of_run he
    obtain ⟨c, hc, heq⟩ := runNext_eq hi hf'
    obtain rfl := Except.ok.inj (heq.symm.trans hs)
    obtain ⟨-, rfl, rfl⟩ := HandleRead.mk.inj (Option.some.inj (hf.symm.trans hf'))
    refine ⟨h.calls, ⟨rest, ?_, ?_⟩, h.cell⟩
    · obtain ⟨rfl, -, -⟩ := HandleRead.mk.inj (Option.some.inj (hf.symm.trans hf'))
      rfl
    · -- The callback that is noted is that of the timer which was there at the beginning.
      have hmem : e ∈ expired := (hi.todo hf).subset List.mem_cons_self
      have hserial : q.serial e.timer = c.1 := serial_eq ((h.cell e hmem).symm.trans hc)
      rw [← hran, List.append_assoc, h.calls, ← hserial]
      rfl
  | finish => exact absurd rfl hne

/-- **A run of callbacks**: those of the batch are run in order. -/
theorem Calling.of_run (hi : Inv q') (h : Calling q expired q') {es : List Event}
    (hr : callbacks.Run q' es q₂) : Inv q₂ ∧ Calling q expired q₂ := by
  have hpres : callbacks.Preserves fun q' => Inv q' ∧ Calling q expired q' :=
    (preserves_inv.guard _).and fun _ _ _ hi h he hs => h.step hi he.1 he.2 hs
  exact hr.preserves hpres ⟨hi, h⟩

/-- All callbacks have been run when the loop ends. -/
theorem Calling.ran_eq (h : Calling q expired q₂) (he : q₂.Enabled .finish) :
    q₂.ran = q.ran ++ q.owed expired := by
  obtain ⟨todo, hf, hran⟩ := h.frame
  obtain ⟨now', expired', hf'⟩ := exists_frame_of_finish he
  obtain ⟨-, -, rfl⟩ := HandleRead.mk.inj (Option.some.inj (hf.symm.trans hf'))
  rw [← hran]
  exact (List.append_nil _).symm

/-- The loop can be brought to its end. -/
theorem Calling.exists_run (hi : Inv q₂) (h : Calling q expired q₂) :
    ∃ es q₃, callbacks.Run q₂ es q₃ ∧ q₃.Enabled .finish := by
  obtain ⟨todo, hf, -⟩ := h.frame
  obtain ⟨q₃, hr, hq₃, -⟩ := exists_run_todo hi hf
  have hne : ∀ e ∈ List.replicate todo.length Event.run, e ≠ .finish := by
    intro e he
    rw [List.eq_of_mem_replicate he]
    rintro ⟨⟩
  refine ⟨_, q₃, hr.guard_of_forall hne, ?_⟩
  rw [hq₃]
  rfl

/-! ## The end of the call -/

theorem Renews.refl (q : TimerQueue) (now : ℤ) (calling : Bool) :
    Renews q now [] { q with callingExpiredTimers := calling } where
  timers x := by simp
  activeTimers a := by simp
  renewed _ h := by cases h
  freed _ h := by cases h
  deleted n := by simp
  other _ _ := rfl

section Reset

variable {e : TimerEntry} {t : Timer}

/-- What holds of one more timer. -/
theorem exists_mem_concat {P : TimerEntry → Prop} :
    (∃ f ∈ done ++ [e], P f) ↔ (∃ f ∈ done, P f) ∨ P e := by
  constructor
  · rintro ⟨f, hf, hP⟩
    rcases List.mem_append.mp hf with hf | hf
    · exact .inl ⟨f, hf, hP⟩
    · obtain rfl := List.mem_singleton.mp hf
      exact .inr hP
  · rintro (⟨f, hf, hP⟩ | hP)
    · exact ⟨f, List.mem_append_left _ hf, hP⟩
    · exact ⟨e, List.mem_append_right _ (List.mem_singleton_self e), hP⟩

theorem timer_ne_of_nodup {f : TimerEntry}
    (hnodup : ((done ++ e :: l).map TimerEntry.timer).Nodup) (hf : f ∈ done) :
    f.timer ≠ e.timer := by
  rw [List.map_append, List.nodup_append] at hnodup
  exact hnodup.2.2 f.timer (List.mem_map_of_mem hf) e.timer
    (List.mem_map_of_mem List.mem_cons_self)

/-- The next timer has not been touched. -/
theorem Renews.cell_eq (h : Renews q now done q')
    (hnodup : ((done ++ e :: l).map TimerEntry.timer).Nodup) :
    q'.heap.cell e.timer = q.heap.cell e.timer :=
  h.other e.timer fun _ hf => timer_ne_of_nodup hnodup hf

/-- One more timer, which is renewed or deleted. -/
theorem Renews.concat (h : Renews q now done q')
    (hnodup : ((done ++ e :: l).map TimerEntry.timer).Nodup) {m : ℕ}
    (hm : q.heap.cell e.timer = some (m, t))
    (htimers : ∀ x, x ∈ q₂.timers ↔ x ∈ q'.timers ∨ q.Renewed e.timer t ∧
      x = TimerEntry.mk (addTime now t.intervalSeconds) e.timer)
    (hactive : ∀ a, a ∈ q₂.activeTimers ↔ a ∈ q'.activeTimers ∨ q.Renewed e.timer t ∧
      a = ActiveTimer.mk e.timer t.sequence)
    (hrenewed : q.Renewed e.timer t → q₂.heap.cell e.timer = some (m, t.restart now))
    (hfreed : ¬q.Renewed e.timer t → q₂.heap.cell e.timer = none)
    (hdeleted : ∀ n, n ∈ q₂.heap.deleted ↔ n ∈ q'.heap.deleted ∨ n = m ∧ ¬q.Renewed e.timer t)
    (hother : ∀ p, p ≠ e.timer → q₂.heap.cell p = q'.heap.cell p) :
    Renews q now (done ++ [e]) q₂ := by
  -- There is one timer at the address.
  have hcell : ∀ {n u}, q.heap.cell e.timer = some (n, u) → n = m ∧ u = t := fun hu =>
    Prod.mk.inj (Option.some.inj (hu.symm.trans hm))
  have hlast : ∀ {P : Timer → Prop},
      (∃ u, q.heap.get? e.timer = some u ∧ q.Renewed e.timer u ∧ P u) ↔
        q.Renewed e.timer t ∧ P t := by
    intro P
    constructor
    · rintro ⟨u, hu, hrenew⟩
      obtain ⟨n, hn⟩ := Heap.get?_eq_some.mp hu
      obtain ⟨-, rfl⟩ := hcell hn
      exact hrenew
    · intro hrenew
      exact ⟨t, Heap.get?_eq_some.mpr ⟨m, hm⟩, hrenew⟩
  constructor
  · intro x
    rw [htimers, h.timers, exists_mem_concat, hlast, or_assoc]
  · intro a
    rw [hactive, h.activeTimers, exists_mem_concat, hlast, or_assoc]
  · intro f hf n u hu hrenew
    rcases List.mem_append.mp hf with hf | hf
    · rw [hother _ (timer_ne_of_nodup hnodup hf)]
      exact h.renewed f hf n u hu hrenew
    · obtain rfl := List.mem_singleton.mp hf
      obtain ⟨rfl, rfl⟩ := hcell hu
      exact hrenewed hrenew
  · intro f hf n u hu hnot
    rcases List.mem_append.mp hf with hf | hf
    · rw [hother _ (timer_ne_of_nodup hnodup hf)]
      exact h.freed f hf n u hu hnot
    · obtain rfl := List.mem_singleton.mp hf
      obtain ⟨rfl, rfl⟩ := hcell hu
      exact hfreed hnot
  · intro n
    rw [hdeleted, h.deleted, exists_mem_concat, or_assoc]
    refine or_congr_right (or_congr_right ?_)
    constructor
    · rintro ⟨rfl, hnot⟩
      exact ⟨t, hm, hnot⟩
    · rintro ⟨u, hu, hnot⟩
      obtain ⟨rfl, rfl⟩ := hcell hu
      exact ⟨rfl, hnot⟩
  · intro p hp
    have hne : e.timer ≠ p := hp e (List.mem_append_right _ (List.mem_singleton_self e))
    rw [hother p hne.symm]
    exact h.other p fun f hf => hp f (List.mem_append_left _ hf)

theorem Renews.reinsert (h : Renews q now done q')
    (hnodup : ((done ++ e :: l).map TimerEntry.timer).Nodup)
    (ht : q'.heap.get? e.timer = some t) (hren : q.Renewed e.timer t) :
    Renews q now (done ++ [e]) { q' with
      heap := q'.heap.modify e.timer (Timer.restart now)
      timers := q'.timers.insert (TimerEntry.mk (addTime now t.intervalSeconds) e.timer)
      activeTimers := q'.activeTimers.insert (ActiveTimer.mk e.timer t.sequence) } := by
  obtain ⟨m, hm⟩ := Heap.get?_eq_some.mp ht
  apply h.concat hnodup ((h.cell_eq hnodup).symm.trans hm)
  · intro x
    rw [OrderedSet.mem_insert, and_iff_right hren]
    exact or_comm
  · intro a
    rw [OrderedSet.mem_insert, and_iff_right hren]
    exact or_comm
  · intro _
    rw [Heap.cell_modify, if_pos rfl, hm]
    rfl
  · intro hnot
    exact absurd hren hnot
  · intro n
    exact (or_iff_left fun hn => hn.2 hren).symm
  · intro p hp
    exact Heap.cell_modify_of_ne hp

theorem Renews.delete (h : Renews q now done q')
    (hnodup : ((done ++ e :: l).map TimerEntry.timer).Nodup)
    (ht : q'.heap.get? e.timer = some t) (hren : ¬q.Renewed e.timer t) {h' : Heap Timer}
    (hd : q'.heap.delete e.timer = some h') :
    Renews q now (done ++ [e]) { q' with heap := h' } := by
  obtain ⟨m, hm⟩ := Heap.get?_eq_some.mp ht
  apply h.concat hnodup ((h.cell_eq hnodup).symm.trans hm)
  · intro x
    exact (or_iff_left fun hx => hren hx.1).symm
  · intro a
    exact (or_iff_left fun ha => hren ha.1).symm
  · intro hrenew
    exact absurd hrenew hren
  · intro _
    rw [Heap.cell_of_delete hd, if_pos rfl]
  · intro n
    rw [Heap.deleted_of_delete hm hd, List.mem_append, List.mem_singleton, and_iff_left hren]
  · intro p hp
    exact Heap.cell_of_delete_of_ne hd hp

/-- The rounds of `reset` keep what has been done. -/
theorem keptByReset_renews (q : TimerQueue) (hnodup : (expired.map TimerEntry.timer).Nodup) :
    KeptByReset now fun q' l => ∃ done, expired = done ++ l ∧ Renews q now done q' ∧
      q'.cancelingTimers = q.cancelingTimers where
  reinsert := by
    rintro q' e l t - ⟨done, rfl, h, hcancel⟩ ht hrep hnot
    rw [hcancel] at hnot
    exact ⟨done ++ [e], List.append_cons .., h.reinsert hnodup ht ⟨hrep, hnot⟩, hcancel⟩
  delete := by
    rintro q' e l t h' - ⟨done, rfl, h, hcancel⟩ ht hor hd
    rw [hcancel] at hor
    -- A timer is deleted if it does not repeat, or if it was cancelled during the callbacks.
    have hren : ¬q.Renewed e.timer t := by
      rintro ⟨hrep, hnot⟩
      rcases hor with hone | hmem
      · rw [hrep] at hone
        cases hone
      · exact hnot hmem
    exact ⟨done ++ [e], List.append_cons .., h.delete hnodup ht hren hd, hcancel⟩

/-- **What `reset` does** at the end of `handleRead`. -/
theorem renews_finish (hi : Inv q) {todo : List TimerEntry}
    (hf : q.frame = some ⟨now, expired, todo⟩) :
    ∃ q', q.finish = .ok q' ∧ Renews q now expired q' ∧ q'.frame = none := by
  have hnodup : (expired.map TimerEntry.timer).Nodup := by
    have ho := hi.owned
    rw [TimerQueue.batch, hf] at ho
    exact ho.batch_nodup
  obtain ⟨q₁, -, ⟨done, hdone, h, -⟩, -, heq⟩ :=
    finish_eq hi hf (keptByReset_renews q hnodup) ⟨[], rfl, Renews.refl q now false, rfl⟩
  rw [List.append_nil] at hdone
  subst hdone
  exact ⟨_, heq,
    ⟨h.timers, h.activeTimers, h.renewed, h.freed, h.deleted, h.other⟩, rfl⟩

end Reset

/-! ## A whole call -/

/-- The beginning of a call. -/
theorem Inv.begins_calling (hi : Inv q) (hf : q.frame = none) :
    ∃ expired q', q.handleRead = .ok q' ∧ Takes q q.clock expired q' ∧
      q'.cancelingTimers = OrderedSet.empty ∧ Calling q expired q' := by
  obtain ⟨active', heq, hactive⟩ := handleRead_eq hi hf
  exact ⟨_, _, heq, hi.owned.takes q.clock rfl hactive, rfl, rfl, ⟨_, rfl, rfl⟩, fun _ _ => rfl⟩

/-- **A call of `handleRead`**, from any reachable state: it takes exactly the timers that are due,
in order; whatever happens meanwhile, it runs the callback of each of them exactly once; and it
re-inserts the repeating ones that have not been cancelled and deletes the others. -/
theorem handleRead_runs_expired (h : machine.Reachable q) :
    (∀ now, ∃ expired q', q.getExpired now = .ok (expired, q') ∧ Takes q now expired q' ∧
      q' = { q with timers := q'.timers, activeTimers := q'.activeTimers }) ∧
    (q.Enabled .handleRead → ∃ expired q₁, q.step .handleRead = .ok q₁ ∧
      Takes q q.clock expired q₁ ∧ q₁.cancelingTimers = OrderedSet.empty ∧
      (expired.map fun e => q.serial e.timer).Nodup ∧
      ∀ es q₂, callbacks.Run q₁ es q₂ →
        Calling q expired q₂ ∧
        (∃ es' q₂', callbacks.Run q₂ es' q₂' ∧ q₂'.Enabled .finish) ∧
        (q₂.Enabled .finish →
          q₂.ran = q.ran ++ expired.map (fun e => (q.calls + 1, q.serial e.timer)) ∧
          ∃ q₃, q₂.step .finish = .ok q₃ ∧ Renews q₂ q.clock expired q₃)) := by
  have hi := inv_of_reachable h
  refine ⟨hi.owned.takes_getExpired, fun he => ?_⟩
  obtain ⟨expired, q₁, hs, htakes, hcancel, hcalling⟩ := hi.begins_calling (frame_of_handleRead he)
  have hi₁ : Inv q₁ := preserves_inv (e := .handleRead) hi he hs
  refine ⟨expired, q₁, hs, htakes, hcancel, htakes.nodup_serial, fun es q₂ hr => ?_⟩
  obtain ⟨hi₂, hcalling₂⟩ := hcalling.of_run hi₁ hr
  refine ⟨hcalling₂, hcalling₂.exists_run hi₂, fun hend => ⟨hcalling₂.ran_eq hend, ?_⟩⟩
  obtain ⟨todo, hf, -⟩ := hcalling₂.frame
  obtain ⟨q₃, hs₃, hrenews, -⟩ := renews_finish hi₂ hf
  exact ⟨q₃, hs₃, hrenews⟩

/-- A repeating timer and one that does not repeat, both due. -/
def twoDue : List Event :=
  [.addTimer 8 50 1, .addTimerInLoop 8, .addTimer 16 40 0, .addTimerInLoop 16, .tick 60]

theorem handleRead_runs_expired_twoDue :
    ∃ q expired q₁, machine.exec (init 1 0) twoDue = some q ∧ q.step .handleRead = .ok q₁ ∧
      Takes q q.clock expired q₁ ∧
      ∃ es q₂ q₃, callbacks.Run q₁ es q₂ ∧ q₂.ran = q.ran ++ q.owed expired ∧
        q₂.step .finish = .ok q₃ ∧ Renews q₂ q.clock expired q₃ := by
  have hex : (machine.exec (init 1 0) twoDue).isSome := by decide +kernel
  obtain ⟨q, hq⟩ := Option.isSome_iff_exists.mp hex
  have hr : machine.Reachable q := ⟨_, _, ⟨1, 0, rfl⟩, Machine.run_of_exec hq⟩
  have henabled : ((machine.exec (init 1 0) twoDue).map fun q =>
      decide (q.Enabled .handleRead)) = some true := by decide +kernel
  rw [hq, Option.map_some, Option.some_inj, decide_eq_true_iff] at henabled
  obtain ⟨-, hcall⟩ := handleRead_runs_expired hr
  obtain ⟨expired, q₁, hs, htakes, -, -, hruns⟩ := hcall henabled
  -- The callbacks alone bring the loop to its end.
  obtain ⟨-, ⟨es, q₂, hes, hend⟩, -⟩ := hruns [] q₁ (Machine.Run.nil q₁)
  obtain ⟨-, -, hfinish⟩ := hruns es q₂ hes
  obtain ⟨hran, q₃, hs₃, hrenews⟩ := hfinish hend
  exact ⟨q, expired, q₁, hq, hs, htakes, es, q₂, q₃, hes, hran, hs₃, hrenews⟩

end CodingDemo.Libcpp.TimerQueue
