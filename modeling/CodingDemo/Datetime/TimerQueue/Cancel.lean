import CodingDemo.Datetime.TimerQueue.Invariant

/-!
# Cancelling a timer of the timer queue

The `TimerId` that `addTimer` returns has sequence number 0, whatever the timer's own sequence
number is. A cancel through it therefore finds the timer only if that number is 0; otherwise the
timer stays scheduled, and there is a run in which its callback runs again.

## Main definitions

* `Rescheduled`: the timer is scheduled, or the running `handleRead` is going to re-insert it
* `NeverRunsAgain`: no later call of `handleRead` runs the callback of the timer
* `Doomed`: the timer is dead, or the running `handleRead` is going to delete it

## Main results

* `Doomed.neverRunsAgain`: a doomed timer does not run again
* `Rescheduled.runs_again`: a timer that is still scheduled can run again
* `cancelInLoop_neverRunsAgain_iff`: which cancels are effective
-/

namespace CodingDemo.Libcpp.TimerQueue

variable {q q' : TimerQueue} {n p : ℕ}

/-- The ledger of the created timers and of the callbacks that were run. -/
structure Ledger (q : TimerQueue) : Prop where
  created_length : q.created.length = q.heap.next
  created_cell : ∀ {p c}, q.heap.cell p = some c → q.created[c.1]? = some p
  ran_le : ∀ {x}, x ∈ q.ran → x.1 ≤ q.calls

/-- No call of `handleRead` that begins from now on runs the callback of the timer with serial
number `n`. Callbacks owed by the call that is running are not counted. -/
def NeverRunsAgain (q : TimerQueue) (n : ℕ) : Prop :=
  ∀ es q', machine.Run q es q' → ∀ call, (call, n) ∈ q'.ran → call ≤ q.calls

/-- The timer `t` at the address `p` is scheduled, or `reset` is going to schedule it. -/
def Rescheduled (q : TimerQueue) (p : ℕ) (t : Timer) : Prop :=
  TimerEntry.mk t.expiration p ∈ q.timers ∨
    TimerEntry.mk t.expiration p ∈ q.batch ∧ t.repeat_ = true ∧
      ActiveTimer.mk p t.sequence ∉ q.cancelingTimers

/-! ## The ledger -/

theorem Ledger.congr {q' : TimerQueue} (h : Ledger q) (hc : q'.created = q.created)
    (hh : q'.heap = q.heap) (hr : q'.ran = q.ran) (hcalls : q.calls ≤ q'.calls) : Ledger q' where
  created_length := by rw [hc, hh]; exact h.created_length
  created_cell hp := by rw [hc]; exact h.created_cell (hh ▸ hp)
  ran_le hx := (h.ran_le (hr ▸ hx)).trans hcalls

theorem Ledger.delete {h' : Heap Timer} (h : Ledger q) (hd : q.heap.delete p = some h') :
    Ledger { q with heap := h' } where
  created_length := by rw [Heap.next_of_delete hd]; exact h.created_length
  created_cell {r c} hr := by
    rw [Heap.cell_of_delete hd] at hr
    split at hr
    · cases hr
    · exact h.created_cell hr
  ran_le := h.ran_le

theorem Ledger.modify {f : Timer → Timer} (h : Ledger q) :
    Ledger { q with heap := q.heap.modify p f } where
  created_length := h.created_length
  created_cell {r c} hr := by
    rw [Heap.cell_modify] at hr
    split at hr
    · next hrp =>
      obtain ⟨d, hd, rfl⟩ := Option.map_eq_some_iff.mp hr
      have hcreated := h.created_cell hd
      rw [hrp]
      exact hcreated
    · exact h.created_cell hr
  ran_le := h.ran_le

theorem Ledger.addTimer (h : Ledger q) (when_ : ℤ) (interval : Double) (hp : q.heap.cell p = none) :
    Ledger (q.addTimer p when_ interval) := by
  simp only [TimerQueue.addTimer, hp, dite_true]
  constructor
  · simp [h.created_length]
  -- the new timer has the next serial number, which is the length of `created`
  · intro r c hr
    rw [Heap.cell_alloc] at hr
    split at hr
    · next hrp =>
      obtain rfl := Option.some.inj hr
      rw [hrp, ← h.created_length, List.getElem?_concat_length]
    · have hc := h.created_cell hr
      rw [List.getElem?_append_left (List.getElem?_eq_some_iff.mp hc).1]
      exact hc
  · exact h.ran_le

theorem ledger_step (hi : Inv q) (h : Ledger q) {e : Event} (he : q.Enabled e)
    (hs : q.step e = .ok q') : Ledger q' := by
  cases e with
  | tick now =>
    obtain rfl := Except.ok.inj hs
    exact h.congr rfl rfl rfl le_rfl
  | otherTimer =>
    obtain rfl := Except.ok.inj hs
    exact h.congr rfl rfl rfl le_rfl
  | addTimer p when_ interval =>
    obtain rfl := Except.ok.inj hs
    exact h.addTimer when_ interval he.1
  | addTimerInLoop p =>
    obtain ⟨t, -, -, heq⟩ := addTimerInLoop_eq hi.owned he
    obtain rfl := Except.ok.inj (heq.symm.trans hs)
    exact h.congr rfl rfl rfl le_rfl
  | cancelInLoop id =>
    by_cases ha : ActiveTimer.mk id.timer id.sequence ∈ q.activeTimers
    · obtain ⟨t, h', -, -, -, hd, heq⟩ := cancelInLoop_eq_active hi.owned _ ha
      obtain rfl := Except.ok.inj (heq.symm.trans hs)
      exact (h.delete hd).congr rfl rfl rfl le_rfl
    · obtain rfl := Except.ok.inj ((cancelInLoop_eq_notMem hi.owned _ ha).symm.trans hs)
      split
      · exact h.congr rfl rfl rfl le_rfl
      · exact h
  | handleRead =>
    obtain ⟨active', heq, -⟩ := handleRead_eq hi (frame_of_handleRead he)
    obtain rfl := Except.ok.inj (heq.symm.trans hs)
    exact h.congr rfl rfl rfl (Nat.le_succ _)
  | run =>
    obtain ⟨now, expired, e, rest, hf⟩ := exists_frame_of_run he
    obtain ⟨c, -, heq⟩ := runNext_eq hi hf
    obtain rfl := Except.ok.inj (heq.symm.trans hs)
    refine ⟨h.created_length, h.created_cell, fun {x} hx => ?_⟩
    rcases List.mem_append.mp hx with hx | hx
    · exact h.ran_le hx
    · rw [List.mem_singleton.mp hx]
  | finish =>
    obtain ⟨now, expired, hf⟩ := exists_frame_of_finish he
    -- the loop of `reset` restarts and deletes timers, and both keep the ledger
    obtain ⟨q₁, -, h₁, -, heq⟩ := finish_eq hi hf (P := fun q _ => Ledger q)
      ⟨fun _ h _ _ _ => h.modify.congr rfl rfl rfl le_rfl, fun _ h _ _ hd => h.delete hd⟩
      (h.congr rfl rfl rfl le_rfl)
    obtain rfl := Except.ok.inj (heq.symm.trans hs)
    exact h₁.congr rfl rfl rfl le_rfl

theorem preserves_ledger : machine.Preserves fun q => Inv q ∧ Ledger q :=
  preserves_inv.and fun _ _ _ hi h he hs => ledger_step hi h he hs

theorem ledger_of_reachable (h : machine.Reachable q) : Inv q ∧ Ledger q := by
  refine h.invariant preserves_ledger fun s hs => ⟨inv_of_init hs, ?_⟩
  obtain ⟨clock, numCreated, rfl⟩ := hs
  exact ⟨rfl, (fun hc => nomatch hc), fun hx => nomatch hx⟩

/-- A created timer is dead, or it lives at the address it was created at. -/
theorem Ledger.isDead_or_cell (h : Ledger q) (hn : q.created[n]? = some p) :
    q.heap.IsDead n ∨ ∃ t, q.heap.cell p = some (n, t) := by
  by_cases hex : ∃ t, q.heap.cell p = some (n, t)
  · exact .inr hex
  · refine .inl ⟨?_, fun r c hr hc => hex ?_⟩
    · rw [← h.created_length]
      exact (List.getElem?_eq_some_iff.mp hn).1
    · have hrn := h.created_cell hr
      rw [hc, hn] at hrn
      obtain rfl := Option.some.inj hrn
      exact ⟨c.2, by rw [hr, ← hc]⟩

/-! ## A doomed timer does not run again -/

/-- An entry of the batch for another timer than the first is among the rest. -/
theorem mem_of_timer_ne {e : TimerEntry} {l : List TimerEntry} {expiration : ℤ}
    (h : TimerEntry.mk expiration p ∈ e :: l) (hpe : p ≠ e.timer) :
    TimerEntry.mk expiration p ∈ l := by
  obtain heq | h := List.mem_cons.mp h
  · exact absurd (by rw [← heq, TimerEntry.timer_mk]) hpe
  · exact h

/-- The timer with serial number `n` is dead, or it lives at `p` in the batch of call number `c`,
which is going to delete it; and no call after `c` has run its callback. -/
structure Doomed (c n p : ℕ) (q : TimerQueue) : Prop where
  state : q.heap.IsDead n ∨ q.calls = c ∧ ∃ t, q.heap.cell p = some (n, t) ∧
    TimerEntry.mk t.expiration p ∈ q.batch ∧
      (t.repeat_ = false ∨ ActiveTimer.mk p t.sequence ∈ q.cancelingTimers)
  ran : ∀ {call}, (call, n) ∈ q.ran → call ≤ c

/-- The loop of `reset` keeps a doomed timer in the batch until it deletes it. -/
theorem keptByReset_doomed {now : ℤ} :
    KeptByReset now fun q l => q.heap.IsDead n ∨ ∃ t, q.heap.cell p = some (n, t) ∧
      TimerEntry.mk t.expiration p ∈ l ∧
        (t.repeat_ = false ∨ ActiveTimer.mk p t.sequence ∈ q.cancelingTimers) where
  reinsert := by
    rintro q e l u - (hdead | ⟨t, ht, hmem, hcond⟩) hu hrep hcan
    · exact .inl (hdead.modify _ _)
    · -- the re-inserted timer is another one, since it repeats and is not cancelled
      have hpe : p ≠ e.timer := by
        rintro rfl
        obtain rfl := Option.some.inj (hu.symm.trans (Heap.get?_eq_some.mpr ⟨n, ht⟩))
        rcases hcond with h | h
        · rw [hrep] at h
          cases h
        · exact hcan h
      refine .inr ⟨t, (Heap.cell_modify_of_ne hpe).trans ht, ?_, hcond⟩
      exact mem_of_timer_ne hmem hpe
  delete := by
    rintro q e l u h' - (hdead | ⟨t, ht, hmem, hcond⟩) hu - hd
    · exact .inl (hdead.delete hd)
    -- either the timer itself is deleted, or another one of the batch
    · by_cases hpe : p = e.timer
      · exact .inl (Heap.isDead_of_delete (hpe ▸ ht) hd)
      · refine .inr ⟨t, (Heap.cell_of_delete_of_ne hd hpe).trans ht, ?_, hcond⟩
        exact mem_of_timer_ne hmem hpe

/-- The end of `handleRead` deletes a doomed timer. -/
theorem isDead_of_finish {c : ℕ} (hi : Inv q) (h : Doomed c n p q) {now : ℤ}
    {expired todo : List TimerEntry} (hf : q.frame = some ⟨now, expired, todo⟩) :
    ∃ q', q.finish = .ok q' ∧ q'.heap.IsDead n ∧ q'.ran = q.ran := by
  obtain ⟨q₁, -, hp, hq₁, heq⟩ := finish_eq hi hf keptByReset_doomed (by
    rcases h.state with hdead | ⟨-, t, ht, hmem, hcond⟩
    · exact .inl hdead
    · refine .inr ⟨t, ht, ?_, hcond⟩
      simpa only [TimerQueue.batch, hf] using hmem)
  refine ⟨_, heq, ?_, ?_⟩
  · rcases hp with h | ⟨t, -, hmem, -⟩
    · exact h
    · cases hmem
  · show q₁.ran = q.ran
    rw [hq₁]

theorem Doomed.cancelInLoop {c : ℕ} (hi : Inv q) (h : Doomed c n p q) {id : TimerId}
    (hs : q.step (.cancelInLoop id) = .ok q') : Doomed c n p q' := by
  by_cases ha : ActiveTimer.mk id.timer id.sequence ∈ q.activeTimers
  · obtain ⟨u, h', hu, hus, hue, hd, heq⟩ := cancelInLoop_eq_active hi.owned _ ha
    obtain rfl := Except.ok.inj (heq.symm.trans hs)
    refine ⟨?_, h.ran⟩
    rcases h.state with hdead | ⟨hc, t, ht, hmem, hcond⟩
    · exact .inl (hdead.delete hd)
    · -- a timer of the batch is in neither set, so it is another one that is cancelled
      refine .inr ⟨hc, t, ?_, hmem, hcond⟩
      have hpid : p ≠ id.timer := by
        rintro rfl
        obtain ⟨t', ht', -, hnt, -⟩ := hi.owned.batch_live hmem
        rw [TimerEntry.timer_mk] at ht'
        obtain rfl := Option.some.inj (ht'.symm.trans (Heap.get?_eq_some.mpr ⟨n, ht⟩))
        obtain rfl := Option.some.inj (ht'.symm.trans hu)
        exact hnt hue
      rw [Heap.cell_of_delete_of_ne hd hpid]
      exact ht
  · obtain rfl := Except.ok.inj ((cancelInLoop_eq_notMem hi.owned _ ha).symm.trans hs)
    split
    · refine ⟨?_, h.ran⟩
      rcases h.state with hdead | ⟨hc, t, ht, hmem, hcond⟩
      · exact .inl hdead
      · refine .inr ⟨hc, t, ht, hmem, hcond.imp_right fun hcan => ?_⟩
        exact OrderedSet.mem_insert.mpr (.inr hcan)
    · exact h

theorem doomed_step {c : ℕ} (hi : Inv q) (h : Doomed c n p q) {e : Event} (he : q.Enabled e)
    (hs : q.step e = .ok q') : Doomed c n p q' := by
  cases e with
  | tick now =>
    obtain rfl := Except.ok.inj hs
    exact ⟨h.state, h.ran⟩
  | otherTimer =>
    obtain rfl := Except.ok.inj hs
    exact ⟨h.state, h.ran⟩
  | addTimer r when_ interval =>
    obtain rfl := Except.ok.inj hs
    simp only [TimerQueue.addTimer, he.1, dite_true]
    refine ⟨?_, h.ran⟩
    rcases h.state with hdead | ⟨hc, t, ht, hmem⟩
    · exact .inl (hdead.alloc _ he.1)
    · refine .inr ⟨hc, t, ?_, hmem⟩
      have hpr : p ≠ r := by
        rintro rfl
        rw [he.1] at ht
        cases ht
      rw [Heap.cell_alloc, if_neg hpr]
      exact ht
  | addTimerInLoop r =>
    obtain ⟨t, -, -, heq⟩ := addTimerInLoop_eq hi.owned he
    obtain rfl := Except.ok.inj (heq.symm.trans hs)
    exact ⟨h.state, h.ran⟩
  | cancelInLoop id => exact h.cancelInLoop hi hs
  | handleRead =>
    have hf := frame_of_handleRead he
    obtain ⟨active', heq, -⟩ := handleRead_eq hi hf
    obtain rfl := Except.ok.inj (heq.symm.trans hs)
    refine ⟨?_, h.ran⟩
    -- no call was running, so the batch was empty and the timer is dead
    rcases h.state with hdead | ⟨-, t, -, hmem, -⟩
    · exact .inl hdead
    · simp only [TimerQueue.batch, hf] at hmem
      cases hmem
  | run =>
    obtain ⟨now, expired, e, rest, hf⟩ := exists_frame_of_run he
    obtain ⟨d, hd, heq⟩ := runNext_eq hi hf
    obtain rfl := Except.ok.inj (heq.symm.trans hs)
    refine ⟨?_, fun {call} hcall => ?_⟩
    · simpa only [TimerQueue.batch, hf] using h.state
    -- a dead timer is not the one that runs, and a living one runs in its own call
    · rcases List.mem_append.mp hcall with hcall | hcall
      · exact h.ran hcall
      · obtain ⟨rfl, hn⟩ := Prod.mk.inj (List.mem_singleton.mp hcall)
        rcases h.state with hdead | ⟨hc, -⟩
        · exact absurd hn.symm (hdead.2 _ _ hd)
        · exact hc.le
  | finish =>
    obtain ⟨now, expired, hf⟩ := exists_frame_of_finish he
    obtain ⟨q₁, heq, hdead, hran⟩ := isDead_of_finish hi h hf
    obtain rfl := Except.ok.inj (heq.symm.trans hs)
    exact ⟨.inl hdead, fun hcall => h.ran (hran ▸ hcall)⟩

/-- A timer doomed in the running call does not run again. -/
theorem Doomed.neverRunsAgain (hi : Inv q) (h : Doomed q.calls n p q) : NeverRunsAgain q n := by
  intro es q' hr call hcall
  have hpres : machine.Preserves fun q₁ => Inv q₁ ∧ Doomed q.calls n p q₁ :=
    preserves_inv.and fun _ _ _ hi h he hs => doomed_step hi h he hs
  exact (hr.preserves hpres ⟨hi, h⟩).2.ran hcall

/-! ## A timer that is still scheduled can run again -/

/-- The callbacks that are left in a frame can be run one after the other. -/
theorem exists_run_todo {now : ℤ} {expired todo : List TimerEntry} :
    ∀ {q : TimerQueue}, Inv q → q.frame = some ⟨now, expired, todo⟩ →
      ∃ q', machine.Run q (List.replicate todo.length .run) q' ∧
        q' = { q with frame := some ⟨now, expired, []⟩, ran := q'.ran } ∧
        ∀ e ∈ todo, ∀ c, q.heap.cell e.timer = some c → (q.calls, c.1) ∈ q'.ran := by
  -- the later callbacks leave what has been noted
  have hkeep : ∀ {es : List Event} {q q' : TimerQueue}, machine.Run q es q' →
      (∀ e ∈ es, e = .run) → Inv q → ∀ x ∈ q.ran, x ∈ q'.ran := by
    intro es q q' hr
    induction hr with
    | nil => exact fun _ _ x hx => hx
    | cons he hs _ ih =>
      intro hall hi x hx
      obtain rfl := hall _ List.mem_cons_self
      apply ih (fun e h => hall e (List.mem_cons_of_mem _ h)) (preserves_inv hi he hs) x
      obtain ⟨_, _, _, _, hf⟩ := exists_frame_of_run he
      obtain ⟨c, -, heq⟩ := runNext_eq hi hf
      obtain rfl := Except.ok.inj (heq.symm.trans hs)
      exact List.mem_append_left _ hx
  induction todo with
  | nil =>
    intro q _ hf
    exact ⟨q, Machine.Run.nil q, by rw [← hf], fun e he => nomatch he⟩
  | cons e rest ih =>
    intro q hi hf
    obtain ⟨c, hc, heq⟩ := runNext_eq hi hf
    have henabled : machine.enabled q .run := by simp [machine, Enabled, hf]
    have hi₁ := preserves_inv hi henabled heq
    obtain ⟨q', hrun, hq', hran⟩ := ih hi₁ rfl
    refine ⟨q', Machine.Run.cons henabled heq hrun, hq', fun f hfmem d hd => ?_⟩
    rcases List.mem_cons.mp hfmem with rfl | hfmem
    · obtain rfl := Option.some.inj (hc.symm.trans hd)
      exact hkeep hrun (fun e he => List.eq_of_mem_replicate he) hi₁ _
        (List.mem_append_right _ (List.mem_singleton_self _))
    · exact hran f hfmem d hd

/-- A scheduled timer of an idle queue runs in a later call: the clock can reach its expiration. -/
theorem exists_run_of_mem_timers {t : Timer} (hi : Inv q) (hf : q.frame = none)
    (ht : q.heap.cell p = some (n, t)) (hmem : TimerEntry.mk t.expiration p ∈ q.timers) :
    ∃ es q', machine.Run q es q' ∧ (q.calls + 1, n) ∈ q'.ran := by
  -- the clock is set to the expiration, and `handleRead` takes the timer
  set q₁ : TimerQueue := { q with clock := t.expiration } with hq₁
  have htick : machine.Run q [.tick t.expiration] q₁ := .cons trivial rfl (.nil q₁)
  have hi₁ : Inv q₁ := htick.preserves preserves_inv hi
  obtain ⟨active', heq, -⟩ := handleRead_eq hi₁ hf
  have he : machine.enabled q₁ .handleRead := by simp [machine, Enabled, hq₁, hf]
  obtain ⟨q', hrun, -, hran⟩ := exists_run_todo (preserves_inv hi₁ he heq) rfl
  refine ⟨_, q', htick.append (.cons he heq hrun), hran (TimerEntry.mk t.expiration p) ?_ _ ht⟩
  refine OrderedSet.mem_before.mpr ⟨(lt_sentry_iff ?_).mpr le_rfl, hmem⟩
  exact (hi.owned.address (Heap.get?_eq_some.mpr ⟨n, ht⟩)).2

/-- The loop of `reset` puts a timer of the batch that is to repeat into `timers_`. -/
theorem keptByReset_rescheduled {now : ℤ} :
    KeptByReset now fun q l => ∃ t, q.heap.cell p = some (n, t) ∧
      (TimerEntry.mk t.expiration p ∈ q.timers ∨ TimerEntry.mk t.expiration p ∈ l ∧
        t.repeat_ = true ∧ ActiveTimer.mk p t.sequence ∉ q.cancelingTimers) where
  reinsert := by
    rintro q e l u ho ⟨t, ht, hcond⟩ hu hrep -
    -- either the timer itself is re-inserted, or another one of the batch
    by_cases hpe : p = e.timer
    · subst hpe
      obtain rfl := Option.some.inj (hu.symm.trans (Heap.get?_eq_some.mpr ⟨n, ht⟩))
      refine ⟨u.restart now, by rw [Heap.cell_modify, if_pos rfl, ht]; rfl, .inl ?_⟩
      rw [Timer.expiration_restart now hrep]
      exact OrderedSet.mem_insert.mpr (.inl rfl)
    · refine ⟨t, (Heap.cell_modify_of_ne hpe).trans ht, ?_⟩
      rcases hcond with h | ⟨h, hrest⟩
      · exact .inl (OrderedSet.mem_insert.mpr (.inr h))
      · exact .inr ⟨mem_of_timer_ne h hpe, hrest⟩
  delete := by
    rintro q e l u h' ho ⟨t, ht, hcond⟩ hu hdel hd
    obtain ⟨u', hu', hue, hnt, -⟩ := ho.batch_live List.mem_cons_self
    obtain rfl := Option.some.inj (hu.symm.trans hu')
    -- a deleted timer is one-shot or cancelled, and it is not in `timers_`
    have hpe : p ≠ e.timer := by
      rintro rfl
      obtain rfl := Option.some.inj (hu.symm.trans (Heap.get?_eq_some.mpr ⟨n, ht⟩))
      rcases hcond with h | ⟨-, hrep, hcan⟩
      · rw [hue, TimerEntry.mk_eta] at h
        exact hnt h
      · rcases hdel with h | h
        · rw [hrep] at h
          cases h
        · exact hcan h
    refine ⟨t, (Heap.cell_of_delete_of_ne hd hpe).trans ht, ?_⟩
    rcases hcond with h | ⟨h, hrest⟩
    · exact .inl h
    · exact .inr ⟨mem_of_timer_ne h hpe, hrest⟩

/-- The end of `handleRead` leaves a rescheduled timer in `timers_`. -/
theorem Rescheduled.finish {t : Timer} (hi : Inv q) (h : Rescheduled q p t)
    (ht : q.heap.cell p = some (n, t)) {now : ℤ} {expired todo : List TimerEntry}
    (hf : q.frame = some ⟨now, expired, todo⟩) :
    ∃ q' u, q.finish = .ok q' ∧ q'.frame = none ∧ q'.calls = q.calls ∧
      q'.heap.cell p = some (n, u) ∧ TimerEntry.mk u.expiration p ∈ q'.timers := by
  obtain ⟨q₁, -, ⟨u, hu, hp⟩, hq₁, heq⟩ := finish_eq hi hf keptByReset_rescheduled
    ⟨t, ht, by simpa only [Rescheduled, TimerQueue.batch, hf] using h⟩
  refine ⟨_, u, heq, rfl, ?_, hu, ?_⟩
  · show q₁.calls = q.calls
    rw [hq₁]
  · rcases hp with h | ⟨h, -⟩
    · exact h
    · cases h

/-- A rescheduled timer runs again in some run. -/
theorem Rescheduled.runs_again {t : Timer} (hi : Inv q) (h : Rescheduled q p t)
    (ht : q.heap.cell p = some (n, t)) : ¬ NeverRunsAgain q n := by
  suffices hex : ∃ es q', machine.Run q es q' ∧ (q.calls + 1, n) ∈ q'.ran by
    obtain ⟨es, q', hr, hmem⟩ := hex
    exact fun hnever => absurd (hnever es q' hr _ hmem) (by omega)
  cases hf : q.frame with
  | none =>
    rcases h with h | ⟨h, -⟩
    · exact exists_run_of_mem_timers hi hf ht h
    · simp only [TimerQueue.batch, hf] at h
      cases h
  | some f =>
    -- run the callbacks that are left, end the call, and let the next one take the timer
    obtain ⟨now, expired, todo⟩ := f
    obtain ⟨q₁, hrun, hq₁, -⟩ := exists_run_todo hi hf
    have hi₁ : Inv q₁ := hrun.preserves preserves_inv hi
    have hf₁ : q₁.frame = some ⟨now, expired, []⟩ := by rw [hq₁]
    have ht₁ : q₁.heap.cell p = some (n, t) := by rw [hq₁]; exact ht
    have h₁ : Rescheduled q₁ p t := by
      rw [hq₁]
      simpa only [Rescheduled, TimerQueue.batch, hf] using h
    obtain ⟨q₂, u, heq, hf₂, hcalls, hu, hmem⟩ := h₁.finish hi₁ ht₁ hf₁
    have henabled : machine.enabled q₁ .finish := by simp [machine, Enabled, hf₁]
    obtain ⟨es, q', hr, hran⟩ :=
      exists_run_of_mem_timers (preserves_inv hi₁ henabled heq) hf₂ hu hmem
    refine ⟨_, q', hrun.append (.cons henabled heq hr), ?_⟩
    have hcalls₁ : q₁.calls = q.calls := by rw [hq₁]
    rw [hcalls, hcalls₁] at hran
    exact hran

/-! ## Which cancels are effective -/

/-- After a cancel that matches the sequence number of the timer, or of a timer that is not going
to run again anyway, the timer is doomed. -/
theorem doomed_of_cancelInLoop (hi : Inv q) (hl : Ledger q) (hn : q.created[n]? = some p)
    (hadded : ∀ t, q.heap.cell p = some (n, t) → p ∉ q.functors)
    (hcond : ∀ t, q.heap.cell p = some (n, t) → Rescheduled q p t → t.sequence = 0)
    (hs : q.cancelInLoop (addTimerId p) = .ok q') : Doomed q'.calls n p q' := by
  -- no cancel is a call of `handleRead`
  have hcalls : q'.calls = q.calls := by
    by_cases ha : ActiveTimer.mk p 0 ∈ q.activeTimers
    · obtain ⟨u, h', -, -, -, -, heq⟩ := cancelInLoop_eq_active hi.owned (addTimerId p) ha
      obtain rfl := Except.ok.inj (heq.symm.trans hs)
      rfl
    · obtain rfl := Except.ok.inj
        ((cancelInLoop_eq_notMem hi.owned (addTimerId p) ha).symm.trans hs)
      split <;> rfl
  rw [hcalls]
  rcases hl.isDead_or_cell hn with hdead | ⟨t, ht⟩
  · exact doomed_step (e := .cancelInLoop (addTimerId p)) hi ⟨.inl hdead, hl.ran_le⟩ trivial hs
  have hget : q.heap.get? p = some t := Heap.get?_eq_some.mpr ⟨n, ht⟩
  rcases hi.owned.place hget with hmem | hmem | hmem
  · -- the timer is scheduled: the cancel finds it and deletes it
    have hseq := hcond t ht (.inl hmem)
    have ha : ActiveTimer.mk p 0 ∈ q.activeTimers := hseq ▸ (hi.owned.same hget).mp hmem
    obtain ⟨u, h', -, -, -, hd, heq⟩ := cancelInLoop_eq_active hi.owned (addTimerId p) ha
    obtain rfl := Except.ok.inj (heq.symm.trans hs)
    exact ⟨.inl (Heap.isDead_of_delete ht hd), hl.ran_le⟩
  · exact absurd hmem (hadded t ht)
  · -- the timer is in the batch: the cancel does not find it and is remembered
    obtain ⟨t', ht', -, hnt, -⟩ := hi.owned.batch_live hmem
    obtain rfl := Option.some.inj (ht'.symm.trans hget)
    have ha : ActiveTimer.mk p 0 ∉ q.activeTimers := by
      intro ha
      obtain ⟨u, hu, hus⟩ := hi.owned.active ha
      obtain rfl := Option.some.inj (hu.symm.trans hget)
      rw [ActiveTimer.sequence_mk] at hus
      exact hnt ((hi.owned.same hget).mpr (hus ▸ ha))
    have hcalling : q.callingExpiredTimers = true := by
      rw [hi.calling]
      cases hf : q.frame with
      | none =>
        simp only [TimerQueue.batch, hf] at hmem
        cases hmem
      | some f => rfl
    have heq := cancelInLoop_eq_notMem hi.owned (addTimerId p) ha
    rw [if_pos hcalling] at heq
    obtain rfl := Except.ok.inj (heq.symm.trans hs)
    refine ⟨.inr ⟨rfl, t', ht, hmem, ?_⟩, hl.ran_le⟩
    by_cases hrep : t'.repeat_ = true
    · by_cases hcan : ActiveTimer.mk p t'.sequence ∈ q.cancelingTimers
      · exact .inr (OrderedSet.mem_insert.mpr (.inr hcan))
      · rw [hcond t' ht (.inr ⟨hmem, hrep, hcan⟩)]
        exact .inr (OrderedSet.mem_insert.mpr (.inl rfl))
    · exact .inl (Bool.eq_false_of_not_eq_true hrep)

/-- A cancel that does not match the sequence number of the timer leaves it where it is. -/
theorem rescheduled_of_cancelInLoop {t : Timer} (hi : Inv q) (ht : q.heap.cell p = some (n, t))
    (h : Rescheduled q p t) (hseq : t.sequence ≠ 0)
    (hs : q.cancelInLoop (addTimerId p) = .ok q') :
    q'.heap.cell p = some (n, t) ∧ Rescheduled q' p t := by
  have ha : ActiveTimer.mk p 0 ∉ q.activeTimers := by
    intro ha
    obtain ⟨u, hu, hus⟩ := hi.owned.active ha
    obtain rfl := Option.some.inj (hu.symm.trans (Heap.get?_eq_some.mpr ⟨n, ht⟩))
    exact hseq hus
  obtain rfl := Except.ok.inj
    ((cancelInLoop_eq_notMem hi.owned (addTimerId p) ha).symm.trans hs)
  split
  · refine ⟨ht, h.imp id fun ⟨hmem, hrep, hcan⟩ => ⟨hmem, hrep, fun hmem' => ?_⟩⟩
    rcases OrderedSet.mem_insert.mp hmem' with h | h
    · exact hseq (ActiveTimer.mk_inj.mp h).2
    · exact hcan h
  · exact ⟨ht, h⟩

/-- **Which cancels are effective.** In every reachable state, for every timer that `addTimer`
created and `addTimerInLoop` has added: a cancel with the `TimerId` that `addTimer` returned keeps
every later call of `handleRead` from running its callback if and only if the sequence number of
the timer is 0, unless the timer is not going to be scheduled any more. -/
theorem cancelInLoop_neverRunsAgain_iff (h : machine.Reachable q) (hn : q.created[n]? = some p)
    (hadded : ∀ t, q.heap.cell p = some (n, t) → p ∉ q.functors)
    (hs : q.step (.cancelInLoop (addTimerId p)) = .ok q') :
    NeverRunsAgain q' n ↔
      ∀ t, q.heap.cell p = some (n, t) → Rescheduled q p t → t.sequence = 0 := by
  obtain ⟨hi, hl⟩ := ledger_of_reachable h
  have hi' : Inv q' := preserves_inv (e := .cancelInLoop (addTimerId p)) hi trivial hs
  constructor
  · intro hnever t ht hsched
    by_contra hseq
    obtain ⟨ht', hsched'⟩ := rescheduled_of_cancelInLoop hi ht hsched hseq hs
    exact hsched'.runs_again hi' ht' hnever
  · intro hcond
    exact (doomed_of_cancelInLoop hi hl hn hadded hcond hs).neverRunsAgain hi'

/-- Two timers are added; the second one has sequence number 1. -/
def twoTimers : List Event :=
  [.addTimer 8 50 0, .addTimerInLoop 8, .addTimer 16 60 0, .addTimerInLoop 16]

theorem cancelInLoop_neverRunsAgain_iff_first :
    ∃ q q', machine.exec (init 1 0) twoTimers = some q ∧
      q.step (.cancelInLoop (addTimerId 8)) = .ok q' ∧ NeverRunsAgain q' 0 := by
  have hex : (machine.exec (init 1 0) twoTimers).isSome := by decide +kernel
  obtain ⟨q, hq⟩ := Option.isSome_iff_exists.mp hex
  have hr : machine.Reachable q := ⟨_, _, ⟨1, 0, rfl⟩, Machine.run_of_exec hq⟩
  obtain ⟨q', hs⟩ := neverFaults q (.cancelInLoop (addTimerId 8)) hr trivial
  -- the first timer has serial number 0, has been added and has sequence number 0
  have hstate : ((machine.exec (init 1 0) twoTimers).map fun q =>
      (q.created[0]?, q.functors, (q.heap.get? 8).map Timer.sequence)) =
      some (some 8, [], some 0) := by decide +kernel
  rw [hq, Option.map_some, Option.some_inj, Prod.mk.injEq, Prod.mk.injEq] at hstate
  obtain ⟨hcreated, hfunctors, hseq⟩ := hstate
  refine ⟨q, q', hq, hs, (cancelInLoop_neverRunsAgain_iff hr hcreated ?_ hs).mpr ?_⟩
  · rw [hfunctors]
    exact fun _ _ => List.not_mem_nil
  · intro t ht _
    rw [Heap.get?_eq_some.mpr ⟨0, ht⟩, Option.map_some] at hseq
    exact Option.some.inj hseq

/-- A cancel of the second timer is lost: `handleRead` runs its callback all the same. -/
theorem cancelInLoop_lost :
    ∃ q q', machine.Reachable q ∧ q.created[1]? = some 16 ∧ q.functors = [] ∧
      q.step (.cancelInLoop (addTimerId 16)) = .ok q' ∧ ¬ NeverRunsAgain q' 1 := by
  have hex : ((machine.exec (init 1 0) twoTimers).bind fun q =>
      (q.step (.cancelInLoop (addTimerId 16))).toOption.bind fun q' =>
        (machine.exec q' [.tick 200, .handleRead, .run, .run]).map fun q'' =>
          (q.created[1]?, q.functors, q'.calls, q''.ran)) =
      some (some 16, [], 0, [(1, 0), (1, 1)]) := by decide +kernel
  obtain ⟨q, hq, hex⟩ := Option.bind_eq_some_iff.mp hex
  obtain ⟨q', hq', hex⟩ := Option.bind_eq_some_iff.mp hex
  obtain ⟨q'', hq'', hex⟩ := Option.map_eq_some_iff.mp hex
  simp only [Prod.mk.injEq] at hex
  obtain ⟨hcreated, hfunctors, hcalls, hran⟩ := hex
  have hs : q.step (.cancelInLoop (addTimerId 16)) = .ok q' := by
    cases h : q.step (.cancelInLoop (addTimerId 16)) with
    | error f =>
      rw [h] at hq'
      cases hq'
    | ok r =>
      rw [h] at hq'
      exact congrArg Except.ok (Option.some.inj hq')
  refine ⟨q, q', ⟨_, _, ⟨1, 0, rfl⟩, Machine.run_of_exec hq⟩, hcreated, hfunctors, hs, ?_⟩
  intro hnever
  have hle := hnever _ q'' (Machine.run_of_exec hq'') 1 (by simp [hran])
  omega

end CodingDemo.Libcpp.TimerQueue
