import CodingDemo.Datetime.TimerWheel.Moved

/-!
# Cancelling a timer of the timer wheel

`cancelInLoop` erases the node that `timerHashTable_` has for the timer from the bucket that it
has. A timer without an entry makes it dereference a null pointer, and a timer that `getExpired`
has spliced out of its bucket makes it erase a node of another list. A cancel is therefore safe
exactly when its timer sits in a bucket.

## Main definitions

* `FiledTimer`: the timer with a serial number is alive and in a bucket
* `CancelsFiled`: a cancel names such a timer
* `CancelsSafely`: a cancel finds its timer by the table, deletes it and removes nothing else
* `EntriesFiled`, `TakesNothing`: every entry points to the node of its timer; a step is not the
  start of a `handleRead` that takes timers

## Main results

* `exists_step`: the wheel does not fault as long as the cancels name timers in buckets
* `cancelsSafely_iff`: which cancels are safe
* `entriesFiled_step_iff`: which steps keep all entries pointing to the nodes of their timers
* `cancelsFiled_safe`: the four together, in every run
-/

namespace CodingDemo.Libcpp.TimerWheel

open TimerWheelImpl

variable {W : WheelConfig} {q q' : TimerWheel} {e : Event} {n p : ℕ}

/-- The timer with serial number `n` lives at the address that `addTimer` returned for it, and a
bucket has it. -/
def FiledTimer (q : TimerWheel) (n : ℕ) : Prop :=
  ∃ c t b m, q.created[n]? = some c ∧ q.heap.cell c.1 = some (n, t) ∧
    (m, c.1) ∈ (q.buckets b).timers

/-- A cancel names a timer that is in a bucket. -/
def CancelsFiled (q : TimerWheel) : Event → Prop
  | .cancelInLoop n => q.FiledTimer n
  | _ => True

/-- A cancel of the timer with serial number `n` dereferences an entry of the table that points to
the node of the timer in its bucket, and leaves the wheel with that timer deleted and every other
timer as and where it was. -/
def CancelsSafely (W : WheelConfig) (q : TimerWheel) (n : ℕ) : Prop :=
  ∃ c b m q', q.created[n]? = some c ∧ q.timerHashTable c.1 = some (b, m) ∧
    (m, c.1) ∈ (q.buckets b).timers ∧ q.step W (.cancelInLoop n) = .ok q' ∧ q'.heap.IsDead n ∧
    (∀ r s t, s ≠ n → q.heap.cell r = some (s, t) → q'.heap.cell r = some (s, t)) ∧
    ∀ d k r, (k, r) ∈ (q'.buckets d).timers ↔ r ≠ c.1 ∧ (k, r) ∈ (q.buckets d).timers

/-- The timer that a cancel names is found by the table, in a bucket. -/
def findsTimer (q : TimerWheel) : Event → Bool
  | .cancelInLoop n =>
    match q.created[n]? with
    | some c =>
      match q.timerHashTable c.1 with
      | some (b, m) =>
        (q.heap.cell c.1).map Prod.fst = some n && (q.buckets b).timers.contains (m, c.1)
      | none => false
    | none => false
  | _ => true

instance (q : TimerWheel) (e : Event) :
    Decidable (((machine W).guard fun q e => q.findsTimer e = true).enabled q e) :=
  inferInstanceAs (Decidable (q.Enabled e ∧ q.findsTimer e = true))

/-- Every entry of `timerHashTable_` points to the node of its timer in the bucket that has it. -/
def EntriesFiled (q : TimerWheel) : Prop :=
  ∀ p b n, q.timerHashTable p = some (b, n) → (n, p) ∈ (q.buckets b).timers

/-- If the step is the start of `handleRead`, the expired buckets at the front of the delay queue
have no timers. -/
def TakesNothing (q : TimerWheel) (e : Event) : Prop :=
  e = .handleRead →
    ∀ d ∈ q.delayQueue.takeWhile (fun d => (q.buckets d.2).expirationTime < q.clock),
      (q.buckets d.2).timers = []

/-! ## No step faults -/

/-- In chained wheels the index of the bucket for a timer is not negative. -/
theorem id_nonneg_of_place (hc : q.WheelsChained W) {x : ℤ} {slot : Slot}
    (h : (q.place W x).2 = some slot) : 0 ≤ slot.bucket.id := by
  obtain ⟨k, v, hk, hb, -, hle⟩ := climb_slot (Prod.ext rfl h : q.place W x = (_, some slot))
  -- the wheel of the slot is one of the chained wheels after the climb
  have hchained : Chained W.wheelSize q.timerWheel (q.place W x).1 :=
    chained_climb W.two_le_wheelSize hc
  obtain ⟨htick, htime⟩ := hchained.of_mem v (List.mem_of_getElem? hk)
  have hx : 0 ≤ x := by omega
  rw [hb]
  exact Int.tmod_nonneg _ (Int.tdiv_nonneg hx htick.le)

/-- A restarted timer is inserted without a fault. -/
theorem exists_insert_restarted (hl : Linked q.delayQueue q.delayHashTable q.nextNode)
    (hc : q.WheelsChained W) {t : Timer} (ht : q.heap.get? p = some t) (now : ℤ) :
    ∃ r, { q with heap := q.heap.modify p (Timer.restart now) }.insert W p = .ok r := by
  have hget : (q.heap.modify p (Timer.restart now)).get? p = some (t.restart now) := by
    rw [Heap.get?_modify, if_pos rfl, ht, Option.map_some]
  obtain ⟨q', hok, -⟩ := insert_eq (W := W)
    (q := { q with heap := q.heap.modify p (Timer.restart now) }) hl hget
    fun slot hslot => id_nonneg_of_place hc hslot
  exact ⟨_, hok⟩

theorem exists_addTimerInLoop (hi : Inv q) (hc : q.WheelsChained W) (hp : p ∈ q.functors) :
    ∃ q', q.addTimerInLoop W p = .ok q' := by
  obtain ⟨⟨t, ht⟩, -⟩ := hi.placed.bound hp
  obtain ⟨q₁, hok, -⟩ := insert_eq (W := W) (q := { q with functors := q.functors.erase p })
    hi.linked ht fun slot hslot => id_nonneg_of_place hc hslot
  unfold addTimerInLoop
  simp only [hok, bind, Except.bind]
  split_ifs
  · exact ⟨_, rfl⟩
  · exact ⟨_, rfl⟩

theorem exists_finishAdd (hi : Inv q) (hc : q.WheelsChained W) : ∃ q', q.finishAdd W = .ok q' := by
  unfold finishAdd
  cases hadd : q.adding with
  | nil => exact ⟨_, rfl⟩
  | cons p rest =>
    have hmem : p ∈ q.held := List.mem_append_right _ (hadd ▸ List.mem_cons_self)
    obtain ⟨⟨t, ht⟩, -⟩ := hi.placed.held_live hmem
    simp only [deref, ht, bind, Except.bind]
    split_ifs
    · obtain ⟨r, hok⟩ := exists_insert_restarted (q := { q with adding := rest }) hi.linked hc ht
        q.clock
      exact ⟨r.2, by rw [hok]; rfl⟩
    · obtain ⟨h', hd⟩ := exists_delete ht
      exact ⟨_, deleteTimer_eq (q := { q with adding := rest }) hd⟩

theorem exists_reinsertNext (hi : Inv q) (hc : q.WheelsChained W) :
    ∃ q', q.reinsertNext W = .ok q' := by
  unfold reinsertNext
  split
  · next now p rest hf =>
    have hmem : p ∈ q.held := by
      apply List.mem_append_left
      rw [batch, hf]
      exact List.mem_cons_self
    obtain ⟨⟨t, ht⟩, -⟩ := hi.placed.held_live hmem
    simp only [deref, ht, bind, Except.bind]
    split_ifs
    · obtain ⟨r, hok⟩ := exists_insert_restarted
        (q := { q with frame := some (.reinserting now rest) }) hi.linked hc ht now
      exact ⟨r.2, by rw [hok]; rfl⟩
    · obtain ⟨h', hd⟩ := exists_delete ht
      exact ⟨_, deleteTimer_eq hd⟩
  · exact ⟨_, rfl⟩

theorem exists_runNext (hi : Inv q) : ∃ q', q.runNext = .ok q' := by
  unfold runNext
  split
  · next now expired p rest hf =>
    have hmem : p ∈ q.held := by
      apply List.mem_append_left
      rw [batch, hf]
      exact (hi.todo hf).subset List.mem_cons_self
    obtain ⟨t, ht⟩ := (hi.placed.held_live hmem).1
    obtain ⟨s, hs⟩ := Heap.get?_eq_some.mp ht
    simp only [hs]
    exact ⟨_, rfl⟩
  · exact ⟨_, rfl⟩

/-! ## Which cancels are safe -/

/-- A timer in a bucket is found by the table, and everything else stays. -/
theorem cancelsSafely_of_filed (hi : Inv q) (h : q.FiledTimer n) : CancelsSafely W q n := by
  obtain ⟨c, t, b, m, hc, hcell, hm⟩ := h
  have htable := hi.placed.filed hm
  obtain ⟨timers, he⟩ := NodeList.exists_eraseNode hm
  obtain ⟨h', hd⟩ := Heap.exists_delete (h := q.heap) (p := c.1) (by rw [hcell]; nofun)
  have hok : q.cancelInLoop (addTimerId c.1) = .ok { q.setTimers b timers with
      timerHashTable := Function.update q.timerHashTable c.1 none
      heap := h' } := by
    unfold cancelInLoop
    simp only [addTimerId, htable, he]
    exact deleteTimer_eq hd
  refine ⟨c, b, m, _, hc, htable, hm, by simp only [step, hc, hok]; rfl, ?_, ?_, ?_⟩
  · exact Heap.isDead_of_delete hcell hd
  -- a timer with another serial number is at another address
  · intro r s u hs hr
    have hne : r ≠ c.1 := by
      rintro rfl
      rw [hcell] at hr
      cases hr
      exact hs rfl
    exact (Heap.cell_of_delete hd r).trans ((if_neg hne).trans hr)
  · intro d k r
    show (k, r) ∈ ((q.setTimers b timers).buckets d).timers ↔ _
    rw [timers_setTimers]
    split_ifs with hdb
    · subst hdb
      rw [NodeList.mem_of_eraseNode he, and_comm]
      -- in its bucket the cancelled timer has the node `m` only, and `m` is its node only
      refine and_congr_left fun hk => not_congr ⟨?_, ?_⟩
      · rintro rfl
        exact hi.placed.hash_inj (hi.placed.filed hk) htable
      · rintro rfl
        exact (hi.placed.filed_unique hk hm).2
    · refine ⟨fun hk => ⟨?_, hk⟩, And.right⟩
      rintro rfl
      exact hdb (hi.placed.filed_unique hk hm).1

/-- **A cancel is safe** exactly when the timer that it names is alive and in a bucket. -/
theorem cancelsSafely_iff (hi : Inv q) : CancelsSafely W q n ↔ q.FiledTimer n := by
  refine ⟨?_, cancelsSafely_of_filed hi⟩
  rintro ⟨c, b, m, q', hc, htable, hm, hs, -, hothers, -⟩
  have hn : n < q.created.length := (List.getElem?_eq_some_iff.mp hc).1
  obtain ⟨d, q₁, hd, hcancel, rfl⟩ := cancel_step_ok hs hn
  obtain rfl := Option.some.inj (hc.symm.trans hd)
  obtain ⟨t, ht⟩ := hi.placed.hash_live htable
  obtain ⟨s, hcell⟩ := Heap.get?_eq_some.mp ht
  obtain rfl : s = n := by
    -- another timer that now lives at the address would have been deleted
    by_contra hne
    have hkept := hothers c.1 s t hne hcell
    obtain ⟨_, _, _, h', -, -, hdel, rfl⟩ := cancelInLoop_ok hcancel
    have hgone : h'.cell c.1 = none := (Heap.cell_of_delete hdel c.1).trans (if_pos rfl)
    cases hgone.symm.trans hkept
  exact ⟨c, t, b, m, hc, hcell, hm⟩

/-- The wheel does not fault as long as its cancels name timers that are in buckets. -/
theorem exists_step (hi : Inv q) (hc : q.WheelsChained W) (he : q.Enabled e)
    (hcancel : q.CancelsFiled e) : ∃ q', q.step W e = .ok q' := by
  cases e with
  | addTimerInLoop p => exact exists_addTimerInLoop hi hc he.2
  | finishAdd => exact exists_finishAdd hi hc
  | cancelInLoop n =>
    obtain ⟨-, -, -, q', -, -, -, hs, -⟩ := cancelsSafely_of_filed (W := W) hi hcancel
    exact ⟨q', hs⟩
  | run => exact exists_runNext hi
  | reinsert => exact exists_reinsertNext hi hc
  | _ => exact ⟨_, rfl⟩

/-! ## Which entries of the table are stale -/

theorem EntriesFiled.congr (h : EntriesFiled q) (ht : q'.timerHashTable = q.timerHashTable)
    (hb : q'.buckets = q.buckets) : EntriesFiled q' := by
  intro p b n hp
  rw [ht] at hp
  rw [hb]
  exact h p b n hp

/-- The entry of a timer that is deleted is removed. -/
theorem EntriesFiled.erase (h : EntriesFiled q) (p : ℕ) :
    EntriesFiled { q with timerHashTable := Function.update q.timerHashTable p none } := by
  intro r b n hr
  exact h r b n (update_none_eq_some.mp hr).2

theorem EntriesFiled.inserted {t : Timer} (h : EntriesFiled q) (hins : Inserted W q p t q') :
    EntriesFiled q' := by
  cases hins with
  | skipped => exact h.congr rfl rfl
  | @filed slot =>
    intro r b n hr
    show (n, r) ∈ ((q.pushTimer slot p).buckets b).timers
    rw [mem_pushTimer]
    -- the new entry points to the new node, the others to nodes that stay
    rcases table_pushTimer.mp hr with ⟨rfl, rfl, rfl⟩ | ⟨-, hr⟩
    · exact .inr ⟨rfl, rfl, rfl⟩
    · exact .inl (h r b n hr)

theorem EntriesFiled.cancel (hi : Inv q) (h : EntriesFiled q) {i : TimerId}
    (hs : q.cancelInLoop i = .ok q') : EntriesFiled q' := by
  obtain ⟨b, n, timers, h', htable, he, -, rfl⟩ := cancelInLoop_ok hs
  intro r d k hr
  obtain ⟨hne, hr'⟩ := update_none_eq_some.mp hr
  have hmem := h r d k hr'
  show (k, r) ∈ ((q.setTimers b timers).buckets d).timers
  rw [timers_setTimers]
  split_ifs with hdb
  · subst hdb
    refine (NodeList.mem_of_eraseNode he).mpr ⟨hmem, ?_⟩
    -- the node that is erased is the one of the cancelled timer
    rintro rfl
    exact hne (hi.placed.hash_inj hr' htable)
  · exact hmem

/-- Only the start of `handleRead` makes entries stale. -/
theorem EntriesFiled.step (hi : Inv q) (h : EntriesFiled q) (he : q.Enabled e)
    (hs : q.step W e = .ok q') (hread : e ≠ .handleRead) : EntriesFiled q' := by
  cases e with
  | tick now =>
    obtain rfl := Except.ok.inj hs
    exact h
  | otherTimer =>
    obtain rfl := Except.ok.inj hs
    exact h
  | addTimer r when_ interval =>
    obtain rfl := Except.ok.inj hs
    simp only [TimerWheel.addTimer, he.1, dite_true]
    exact h
  | addTimerInLoop r =>
    obtain ⟨t, q₁, -, hins, rfl⟩ := addTimerInLoop_ok hi.linked hs
    have h₁ : EntriesFiled q₁ :=
      EntriesFiled.inserted (q := { q with functors := q.functors.erase r }) h hins
    split_ifs
    · exact h₁
    · exact h₁
  | finishAdd =>
    obtain ⟨r, rest, hadd⟩ := List.exists_cons_of_ne_nil he
    obtain ⟨t, -, ⟨-, hins⟩ | ⟨-, h', -, rfl⟩⟩ := finishAdd_ok hi.linked hadd hs
    · exact EntriesFiled.inserted (by exact h) hins
    · exact h
  | cancelInLoop k =>
    obtain ⟨c, q₁, -, hcancel, rfl⟩ := cancel_step_ok hs he.2
    exact (h.cancel hi hcancel).congr rfl rfl
  | handleRead => exact absurd rfl hread
  | run =>
    obtain ⟨now, expired, r, rest, hf⟩ := exists_frame_of_run he.2
    obtain ⟨i, -, rfl⟩ := runNext_ok hf hs
    exact h
  | advance =>
    obtain ⟨now, expired, hf⟩ := exists_frame_of_advance he.2
    obtain rfl := Except.ok.inj hs
    rw [advance_eq hf]
    exact h
  | reinsert =>
    obtain ⟨now, r, rest, hf⟩ := exists_frame_of_reinsert he
    obtain ⟨t, -, ⟨-, hins⟩ | ⟨-, h', -, rfl⟩⟩ := reinsertNext_ok hi.linked hf hs
    · exact EntriesFiled.inserted (by exact h) hins
    -- the entry of a timer that is deleted goes with it
    · exact (h.erase r).congr rfl rfl
  | finish =>
    obtain rfl := Except.ok.inj hs
    obtain ⟨fd, hq'⟩ := finish_eq q
    rw [hq']
    exact h

theorem takesNothing_handleRead : q.TakesNothing .handleRead ↔ q.expiredTimers = [] := by
  rw [expiredTimers, NodeList.values, List.map_eq_nil_iff, timersOf, List.flatMap_eq_nil_iff]
  exact ⟨fun h => h rfl, fun h _ => h⟩

/-- A `handleRead` that takes a timer leaves the entry of the timer stale. -/
theorem entriesFiled_handleRead_iff (hi : Inv q) (h : EntriesFiled q) (hadd : q.adding = [])
    (hidle : q.phase = .idle) : EntriesFiled q.handleRead ↔ q.TakesNothing .handleRead := by
  obtain ⟨q₁, hread, hq₁, hdrained⟩ := handleRead_eq hi
  have htable : q₁.timerHashTable = q.timerHashTable := by rw [hq₁]
  rw [takesNothing_handleRead, hread]
  constructor
  · intro hfiled
    by_contra hne
    obtain ⟨p, hp⟩ := List.exists_mem_of_ne_nil _ hne
    obtain ⟨b, n, hn, -⟩ := hdrained.taken p hp
    -- the timer is held by the running `handleRead`, and its entry is still there
    have hheld := (hread ▸ inv_handleRead hi hadd hidle).placed.held_live
      (p := p) (List.mem_append_left _ hp)
    exact hheld.2.2 b n (hfiled p b n (htable.symm ▸ hi.placed.filed hn))
  · intro hnil p b n hp
    have hn := h p b n (htable ▸ hp)
    rcases hdrained.bucket b with ⟨htimers, -⟩ | ⟨-, htaken⟩
    · exact htimers ▸ hn
    · have hmem := htaken _ hn
      rw [hnil] at hmem
      exact absurd hmem List.not_mem_nil

/-- **One step** keeps all entries pointing to the nodes of their timers exactly when it is not the
start of a `handleRead` that takes timers. -/
theorem entriesFiled_step_iff (hi : Inv q) (h : EntriesFiled q) (he : q.Enabled e)
    (hs : q.step W e = .ok q') : EntriesFiled q' ↔ q.TakesNothing e := by
  by_cases hread : e = .handleRead
  · subst hread
    obtain rfl := Except.ok.inj hs
    exact entriesFiled_handleRead_iff hi h he.1 he.2
  · exact ⟨fun _ heq => absurd heq hread, fun _ => h.step hi he hs hread⟩

/-! ## Runs -/

theorem cancelsFiled_of_findsTimer (h : q.findsTimer e = true) : q.CancelsFiled e := by
  cases e with
  | cancelInLoop n =>
    simp only [findsTimer] at h
    split at h
    · next c hc =>
      split at h
      · next b m htable =>
        obtain ⟨hcell, hmem⟩ := (Bool.and_eq_true _ _).mp h
        obtain ⟨⟨s, t⟩, ht, rfl⟩ := Option.map_eq_some_iff.mp (of_decide_eq_true hcell)
        exact ⟨c, t, b, m, hc, ht, List.contains_iff_mem.mp hmem⟩
      · cases h
    · cases h
  | _ => trivial

/-- **Cancelling is safe** in a run all of whose cancels name timers that are in buckets. In every
state of such a run no further step of this kind faults, a cancel is safe exactly if its timer is
in a bucket, the entries of the table are those of living timers and point to the node of a timer
that is in a bucket, and no timer has been deleted twice. All entries point to the nodes of their
timers in all states of the run if and only if no `handleRead` of the run takes a timer. -/
theorem cancelsFiled_safe {clock : ℤ} {numCreated : BitVec 64} {es : List Event}
    (hclock : 0 ≤ clock)
    (hr : ((machine W).guard CancelsFiled).Run (init W clock numCreated) es q) :
    (∀ e, q.Enabled e → q.CancelsFiled e → ∃ q', q.step W e = .ok q') ∧
    (∀ n, CancelsSafely W q n ↔ q.FiledTimer n) ∧
    (∀ p b n, q.timerHashTable p = some (b, n) → (∃ t, q.heap.get? p = some t) ∧
      ∀ c m, (m, p) ∈ (q.buckets c).timers → c = b ∧ m = n) ∧
    q.heap.deleted.Nodup ∧
    ((machine W).Along EntriesFiled (init W clock numCreated) es ↔
      ((machine W).guard TakesNothing).Run (init W clock numCreated) es q) := by
  have hinit : Inv (init W clock numCreated) := Inv.init W clock numCreated
  obtain ⟨hi, hc⟩ := hr.of_guard.preserves preserves_chained ⟨hinit, W.tick_pos, hclock⟩
  refine ⟨fun e he hcancel => exists_step hi hc he hcancel, fun n => cancelsSafely_iff hi, ?_,
    q.heap.deleted_nodup, ?_⟩
  · intro p b n hp
    -- a timer in a bucket has the entry for its node, and no other
    refine ⟨hi.placed.hash_live hp, fun c m hm => ?_⟩
    exact Prod.mk.inj (Option.some.inj ((hi.placed.filed hm).symm.trans hp))
  · exact Machine.along_iff_run_guard preserves_inv
      (fun _ _ _ hi h he hs => entriesFiled_step_iff hi h he hs) hr.of_guard hinit
      fun _ _ _ hp => nomatch hp

/-- One timer is cancelled before it fires, another from the callback of a third. -/
def cancelTwo : List Event :=
  [.addTimer 8 1020 0, .addTimerInLoop 8, .addTimer 16 1030 0, .addTimerInLoop 16,
    .addTimer 24 1100 0.001, .addTimerInLoop 24, .cancelInLoop 0, .tick 1031, .handleRead,
    .run, .cancelInLoop 2, .advance, .reinsert, .finish]

theorem cancelsFiled_safe_cancelTwo : ∃ q, (machine smallWheel).Reachable q ∧
    q.heap.deleted = [0, 2, 1] ∧ ∀ n, CancelsSafely smallWheel q n ↔ q.FiledTimer n := by
  have hex : (((machine smallWheel).guard fun q e => q.findsTimer e = true).exec
      (init smallWheel 1000 0) cancelTwo).map (fun q => q.heap.deleted) = some [0, 2, 1] := by
    decide +kernel
  obtain ⟨q, hq, hdeleted⟩ := Option.map_eq_some_iff.mp hex
  have hr : ((machine smallWheel).guard CancelsFiled).Run (init smallWheel 1000 0) cancelTwo q :=
    (Machine.run_of_exec hq).guard_mono fun _ _ => cancelsFiled_of_findsTimer
  exact ⟨q, ⟨_, _, ⟨1000, 0, rfl⟩, hr.of_guard⟩, hdeleted,
    (cancelsFiled_safe (by decide) hr).2.1⟩

/-- The fault of a cancel of the first timer, if it is enabled. -/
def cancelFault (q : TimerWheel) : Option Fault :=
  if q.Enabled (.cancelInLoop 0) then
    match q.step smallWheel (.cancelInLoop 0) with
    | .ok _ => none
    | .error f => some f
  else none

theorem enabled_of_cancelFault {f : Fault} (h : q.cancelFault = some f) :
    q.Enabled (.cancelInLoop 0) ∧ q.step smallWheel (.cancelInLoop 0) = .error f := by
  unfold cancelFault at h
  split_ifs at h with he
  split at h
  · cases h
  · next g hg =>
    obtain rfl := Option.some.inj h
    exact ⟨he, hg⟩

/-- A cancel from the timer's own callback erases a node that is not in the bucket, and a cancel
after the timer has fired dereferences a null pointer. -/
theorem exists_unsafe_cancel :
    (∃ q, (machine smallWheel).Reachable q ∧ q.Enabled (.cancelInLoop 0) ∧
      q.step smallWheel (.cancelInLoop 0) = .error .invalidIterator) ∧
    ∃ q, (machine smallWheel).Reachable q ∧ q.Enabled (.cancelInLoop 0) ∧
      q.step smallWheel (.cancelInLoop 0) = .error .nullDereference := by
  have hown : ((machine smallWheel).exec (init smallWheel 1000 0)
      [.addTimer 8 1020 0, .addTimerInLoop 8, .tick 1021, .handleRead, .run]).map cancelFault =
      some (some .invalidIterator) := by decide +kernel
  have hfired : ((machine smallWheel).exec (init smallWheel 1000 0)
      [.addTimer 8 1020 0, .addTimerInLoop 8, .tick 1021, .handleRead, .run, .advance, .reinsert,
        .finish]).map cancelFault = some (some .nullDereference) := by decide +kernel
  obtain ⟨q, hq, hqf⟩ := Option.map_eq_some_iff.mp hown
  obtain ⟨r, hr, hrf⟩ := Option.map_eq_some_iff.mp hfired
  exact ⟨⟨q, ⟨_, _, ⟨1000, 0, rfl⟩, Machine.run_of_exec hq⟩, enabled_of_cancelFault hqf⟩,
    ⟨r, ⟨_, _, ⟨1000, 0, rfl⟩, Machine.run_of_exec hr⟩, enabled_of_cancelFault hrf⟩⟩

end CodingDemo.Libcpp.TimerWheel
