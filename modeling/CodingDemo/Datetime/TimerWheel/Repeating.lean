import CodingDemo.Datetime.TimerWheel.Moved

/-!
# Which repeating timers stay in the timer wheel

A repeating timer is restarted and inserted again after its callback. `insert` does not file a
timer that has already expired, and here the flag that says so is dropped: the timer is in no
bucket, and it is never run again. It happens when the next expiration is in the current tick of
the base wheel, so when the interval is shorter than what is left of the tick.

## Main definitions

* `SitsOnce`: a timer is in exactly one bucket of exactly one wheel
* `Kept`: every repeating timer that was added and not cancelled, and that no function is busy
  with, sits in one bucket
* `Reinserted`: the timer that a step restarts does not expire in the current tick
* `Roster`: the timers created are those that live, but for one-shot and cancelled ones

## Main results

* `kept_step_iff`: which steps keep the repeating timers
* `kept_iff_reinserted`: in which runs the repeating timers are kept in every state
-/

namespace CodingDemo.Libcpp.TimerWheel

open TimerWheelImpl

variable {W : WheelConfig} {q q' : TimerWheel} {e : Event} {p : ℕ}

/-- The timer is in exactly one bucket, once. -/
def SitsOnce (q : TimerWheel) (p : ℕ) : Prop :=
  ∃ b, (q.buckets b).timers.values.count p = 1 ∧ ∀ c, c ≠ b → p ∉ (q.buckets c).timers.values

/-- Every repeating timer that was added and not cancelled is alive and sits in exactly one bucket,
unless a running `handleRead` or `addTimerInLoop` is busy with it. -/
def Kept (q : TimerWheel) : Prop :=
  ∀ n c, q.created[n]? = some c → 0 < c.2 → n ∉ q.cancelled → c.1 ∉ q.functors → c.1 ∉ q.held →
    (∃ t, q.heap.cell c.1 = some (n, t)) ∧ SitsOnce q c.1

/-- A timer that the step restarts does not expire in the current tick of the base wheel. -/
def Reinserted (q : TimerWheel) (e : Event) : Prop :=
  ∀ x ∈ q.restarted e, q.isExpired x.2 = false

instance (q : TimerWheel) (e : Event) : Decidable (q.Reinserted e) :=
  inferInstanceAs (Decidable (∀ x ∈ q.restarted e, _))

instance (q : TimerWheel) (e : Event) : Decidable (((machine W).guard Reinserted).enabled q e) :=
  inferInstanceAs (Decidable (q.Enabled e ∧ q.Reinserted e))

/-- The created timers and the living ones. -/
structure Roster (q : TimerWheel) : Prop where
  length : q.created.length = q.heap.next
  cell : ∀ {p x}, q.heap.cell p = some x →
    ∃ i, q.created[x.1]? = some (p, i) ∧ x.2.repeat_ = decide (0 < i)
  alive : ∀ {n c}, q.created[n]? = some c → 0 < c.2 → n ∉ q.cancelled →
    ∃ t, q.heap.cell c.1 = some (n, t)
  cancelled_dead : ∀ {n}, n ∈ q.cancelled → q.heap.IsDead n

/-! ## The timers that live -/

theorem Roster.modify {f : Timer → Timer} (h : Roster q) (hf : ∀ t, (f t).repeat_ = t.repeat_)
    (hheap : q'.heap = q.heap.modify p f) (hcreated : q'.created = q.created)
    (hcancelled : q'.cancelled = q.cancelled) : Roster q' := by
  constructor
  case length =>
    rw [hcreated, hheap]
    exact h.length
  case cell =>
    intro r x hx
    rw [hheap, Heap.cell_modify] at hx
    rw [hcreated]
    split_ifs at hx with hrp
    · obtain ⟨d, hd, rfl⟩ := Option.map_eq_some_iff.mp hx
      obtain ⟨i, hi, hrep⟩ := h.cell hd
      exact ⟨i, hrp ▸ hi, (hf d.2).trans hrep⟩
    · exact h.cell hx
  case alive =>
    intro n c hn hc hcan
    rw [hcreated] at hn
    rw [hcancelled] at hcan
    obtain ⟨t, ht⟩ := h.alive hn hc hcan
    rw [hheap, Heap.cell_modify]
    split_ifs with hcp
    · rw [← hcp, ht]
      exact ⟨f t, rfl⟩
    · exact ⟨t, ht⟩
  case cancelled_dead =>
    intro n hn
    rw [hheap]
    exact (h.cancelled_dead (hcancelled ▸ hn)).modify p f

theorem Roster.delete {h' : Heap Timer} {n : ℕ} {t : Timer} (h : Roster q)
    (ht : q.heap.cell p = some (n, t)) (hd : q.heap.delete p = some h') (hheap : q'.heap = h')
    (hcreated : q'.created = q.created)
    (hcancelled : q'.cancelled = q.cancelled ∧ t.repeat_ = false ∨
      q'.cancelled = q.cancelled ++ [n]) : Roster q' := by
  have hmem : ∀ {m}, m ∉ q'.cancelled → m ∉ q.cancelled := by
    intro m hm hmem
    rcases hcancelled with ⟨heq, -⟩ | heq
    · exact hm (heq ▸ hmem)
    · exact hm (heq ▸ List.mem_append_left _ hmem)
  constructor
  case length =>
    rw [hcreated, hheap, Heap.next_of_delete hd]
    exact h.length
  case cell =>
    intro r x hx
    rw [hheap, Heap.cell_of_delete hd] at hx
    rw [hcreated]
    split_ifs at hx with hrp
    exact h.cell hx
  case alive =>
    intro m c hm hc hcan
    rw [hcreated] at hm
    obtain ⟨u, hu⟩ := h.alive hm hc (hmem hcan)
    -- the deleted timer is a cancelled one or a one-shot, so it is another one
    have hcp : c.1 ≠ p := by
      intro hcp
      rw [hcp, ht] at hu
      obtain ⟨rfl, rfl⟩ := Prod.mk.inj (Option.some.inj hu)
      rcases hcancelled with ⟨-, hrep⟩ | heq
      · obtain ⟨i, hi, hrep'⟩ := h.cell ht
        obtain rfl := Option.some.inj (hm.symm.trans hi)
        rw [hrep] at hrep'
        exact absurd hc (of_decide_eq_false hrep'.symm)
      · exact hcan (heq ▸ List.mem_append_right _ (List.mem_singleton_self _))
    rw [hheap, Heap.cell_of_delete_of_ne hd hcp]
    exact ⟨u, hu⟩
  case cancelled_dead =>
    intro m hm
    rw [hheap]
    rcases hcancelled with ⟨heq, -⟩ | heq
    · exact (h.cancelled_dead (heq ▸ hm)).delete hd
    · rcases List.mem_append.mp (heq ▸ hm) with hm | hm
      · exact (h.cancelled_dead hm).delete hd
      · rw [List.mem_singleton.mp hm]
        exact Heap.isDead_of_delete ht hd

theorem Roster.addTimer (h : Roster q) (when_ : ℤ) (interval : Double) (hp : q.heap.cell p = none) :
    Roster (q.addTimer p when_ interval) := by
  simp only [TimerWheel.addTimer, hp, dite_true]
  constructor
  case length => simp [h.length]
  -- the new timer has the next serial number
  case cell =>
    intro r x hx
    rw [Heap.cell_alloc] at hx
    split_ifs at hx with hrp
    · obtain rfl := Option.some.inj hx
      refine ⟨interval, ?_, rfl⟩
      rw [hrp, ← h.length]
      exact List.getElem?_concat_length
    · obtain ⟨i, hi, hrep⟩ := h.cell hx
      refine ⟨i, ?_, hrep⟩
      rw [List.getElem?_append_left (List.getElem?_eq_some_iff.mp hi).1]
      exact hi
  -- it is the last one created
  case alive =>
    intro n c hn hc hcan
    by_cases hlt : n < q.created.length
    · rw [List.getElem?_append_left hlt] at hn
      obtain ⟨t, ht⟩ := h.alive hn hc hcan
      have hcp : c.1 ≠ p := by
        intro hcp
        rw [hcp, hp] at ht
        cases ht
      exact ⟨t, by rw [Heap.cell_alloc, if_neg hcp]; exact ht⟩
    · have hlen : n < (q.created ++ [(p, interval)]).length := (List.getElem?_eq_some_iff.mp hn).1
      obtain rfl : n = q.created.length := by
        rw [List.length_append, List.length_singleton] at hlen
        omega
      rw [List.getElem?_concat_length] at hn
      obtain rfl := Option.some.inj hn
      refine ⟨Timer.create when_ interval q.numCreated, ?_⟩
      rw [Heap.cell_alloc, if_pos rfl, h.length]
  case cancelled_dead => exact fun hn => (h.cancelled_dead hn).alloc _ hp

theorem roster_step (hi : Inv q) (h : Roster q) (he : q.Enabled e) (hs : q.step W e = .ok q') :
    Roster q' := by
  have hsame := step_unchanged hi he hs
  by_cases hadd : ∃ p when_ interval, e = .addTimer p when_ interval
  · obtain ⟨p, when_, interval, rfl⟩ := hadd
    obtain rfl := Except.ok.inj hs
    exact h.addTimer when_ interval he.1
  have hcreated : q'.created = q.created :=
    hsame.created fun p x i heq => hadd ⟨p, x, i, heq⟩
  by_cases hcancel : ∃ k, e = .cancelInLoop k
  · obtain ⟨k, rfl⟩ := hcancel
    obtain ⟨c, q₁, -, hok, rfl⟩ := cancel_step_ok hs he.2
    obtain ⟨b, m, timers, h', -, -, hd, rfl⟩ := cancelInLoop_ok hok
    obtain ⟨x, hx⟩ : ∃ x, q.heap.cell c.1 = some x := by
      rw [← Option.ne_none_iff_exists', ne_eq, ← Heap.delete_eq_none]
      exact Option.ne_none_iff_exists'.mpr ⟨h', hd⟩
    refine h.delete hx hd rfl rfl (.inr ?_)
    show q.cancelled ++ ((q.heap.cell c.1).map Prod.fst).toList = _
    rw [hx]
    rfl
  have hcancelled : q'.cancelled = q.cancelled := hsame.cancelled fun k heq => hcancel ⟨k, heq⟩
  by_cases hkind : e = .finishAdd ∨ e = .reinsert
  · obtain ⟨r, t, now, -, ht, -, -, -, ⟨-, -, hheap⟩ | ⟨hrep, -, hd⟩⟩ :=
      restart_cases hi he hs hkind
    · exact h.modify (Timer.repeat_restart now) hheap hcreated hcancelled
    · obtain ⟨n, hn⟩ := Heap.get?_eq_some.mp ht
      exact h.delete hn hd rfl hcreated (.inl ⟨hcancelled, hrep⟩)
  · -- the other steps touch no timer
    have htouched : q.touched e = none := by
      cases e <;> simp_all [touched]
    have hcell : ∀ p, q'.heap.cell p = q.heap.cell p := fun p =>
      hsame.heap (by rw [htouched]; exact (Option.some_ne_none p).symm)
    have hnext : q'.heap.next = q.heap.next := hsame.next fun p x i heq => hadd ⟨p, x, i, heq⟩
    constructor
    case length =>
      rw [hcreated, hnext]
      exact h.length
    case cell =>
      intro p x hx
      rw [hcreated]
      exact h.cell (hcell p ▸ hx)
    case alive =>
      intro n c hn hc hcan
      rw [hcell]
      exact h.alive (hcreated ▸ hn) hc (hcancelled ▸ hcan)
    case cancelled_dead =>
      intro n hn
      obtain ⟨hlt, hdead⟩ := h.cancelled_dead (hcancelled ▸ hn)
      exact ⟨hnext ▸ hlt, fun p x hx => hdead p x (hcell p ▸ hx)⟩

/-! ## Which steps keep the repeating timers -/

/-- A timer that is in a bucket is there once. -/
theorem sitsOnce_iff (hi : Inv q) : SitsOnce q p ↔ ∃ b n, (n, p) ∈ (q.buckets b).timers := by
  constructor
  · rintro ⟨b, hcount, -⟩
    have hmem : p ∈ (q.buckets b).timers.values := List.count_pos_iff.mp (by omega)
    exact ⟨b, NodeList.mem_values.mp hmem⟩
  · rintro ⟨b, n, hn⟩
    -- the table has one entry for the timer, so it is at one node only
    refine ⟨b, List.count_eq_one_of_mem (hi.placed.values_nodup b)
      (NodeList.mem_values.mpr ⟨n, hn⟩), fun c hcb hmem => ?_⟩
    obtain ⟨m, hm⟩ := NodeList.mem_values.mp hmem
    exact hcb (hi.placed.filed_unique hm hn).1

/-- A timer that a step inserts, and that has not expired, is in a bucket after it. -/
theorem filed_of_inserts (hi : Inv q) (hc : q.WheelsChained W) (he : q.Enabled e)
    (hs : q.step W e = .ok q') {x : ℤ} (hins : q.inserts e = some (p, x))
    (hexp : q.isExpired x = false) : ∃ b n, (n, p) ∈ (q'.buckets b).timers := by
  have hplace : (q.place W x).2 ≠ none := by
    rw [ne_eq, place_eq_none_iff hc, hexp]
    exact Bool.false_ne_true
  -- the slot is found, so the step is one that files a timer
  cases step_moved hi he hs with
  | kept _ _ _ hnone => exact absurd ((slotOf_eq hins rfl).symm.trans hnone) hplace
  | @filed r t slot hins' hslot ht hw hb hq =>
    obtain ⟨rfl, -⟩ := Prod.mk.inj (Option.some.inj (hins.symm.trans hins'))
    refine ⟨slot.bucket, q.nextNode, ?_⟩
    rw [hb]
    exact mem_pushTimer.mpr (.inr ⟨rfl, rfl, rfl⟩)
  | removed hnone =>
    rw [hins] at hnone
    cases hnone
  | read heq =>
    subst heq
    cases hins

/-- A timer leaves its bucket only when it is cancelled or `handleRead` takes it. -/
theorem filed_or_held (hi : Inv q) (he : q.Enabled e) (hs : q.step W e = .ok q')
    {b : BucketRef} {n : ℕ} (hmem : (n, p) ∈ (q.buckets b).timers) :
    (∃ c m, (m, p) ∈ (q'.buckets c).timers) ∨ p ∈ q'.held ∨
      (∃ k, e = .cancelInLoop k) ∧ q.touched e = some p := by
  cases step_moved hi he hs with
  | kept hb =>
    rw [hb]
    exact .inl ⟨b, n, hmem⟩
  | filed hins hslot ht hw hb hq =>
    rw [hb]
    exact .inl ⟨b, n, mem_pushTimer.mpr (.inl hmem)⟩
  | @removed c m r timers hnone hcancel ht hr herase hb =>
    by_cases hpr : p = r
    · exact .inr (.inr ⟨hcancel, hpr ▸ ht⟩)
    -- only the node of the cancelled timer is erased
    · refine .inl ⟨b, n, ?_⟩
      rw [hb, timers_setTimers]
      split_ifs with hbc
      · subst hbc
        refine (NodeList.mem_of_eraseNode herase).mpr ⟨hmem, fun hnm => hpr ?_⟩
        obtain rfl : n = m := hnm
        exact hi.placed.hash_inj (hi.placed.filed hmem) (hi.placed.filed hr)
      · exact hmem
  | read heq hq =>
    subst heq hq
    obtain ⟨q₁, hread, -, hdrained⟩ := handleRead_eq hi
    rw [hread]
    rcases hdrained.bucket b with ⟨htimers, -⟩ | ⟨-, hall⟩
    · exact .inl ⟨b, n, htimers ▸ hmem⟩
    · exact .inr (.inl (List.mem_append_left _ (hall _ hmem)))

/-- A timer that a step adds without a bucket for it is one whose callback starts. -/
theorem filed_or_held_of_addTimerInLoop (hi : Inv q) (hc : q.WheelsChained W)
    (he : q.Enabled (.addTimerInLoop p)) (hs : q.step W (.addTimerInLoop p) = .ok q') :
    (∃ b n, (n, p) ∈ (q'.buckets b).timers) ∨ p ∈ q'.held := by
  obtain ⟨t, q₁, ht, hins, rfl⟩ := addTimerInLoop_ok hi.linked hs
  cases hexp : q.isExpired t.expiration with
  | true => exact .inr (List.mem_append_right _ List.mem_cons_self)
  | false =>
    have hinserts : q.inserts (.addTimerInLoop p) = some (p, t.expiration) := by
      simp [inserts, ht]
    exact .inl (filed_of_inserts hi hc he (by rw [hs, hexp]) hinserts hexp)

/-- A created timer that is not in a functor was created before the step. -/
theorem created_of_step (hi : Inv q) (he : q.Enabled e) (hs : q.step W e = .ok q') {n : ℕ}
    {c : ℕ × Double} (hn : q'.created[n]? = some c) (hfun : c.1 ∉ q'.functors) :
    q.created[n]? = some c := by
  by_cases hadd : ∃ p when_ interval, e = .addTimer p when_ interval
  · obtain ⟨p, when_, interval, rfl⟩ := hadd
    obtain rfl := Except.ok.inj hs
    simp only [TimerWheel.addTimer, he.1, dite_true] at hn hfun
    rcases List.getElem?_append.symm.trans hn with hn
    split_ifs at hn with hlt
    · exact hn
    · -- the new timer is bound in a functor
      have hc : c ∈ [(p, interval)] := List.mem_of_getElem? hn
      rw [List.mem_singleton.mp hc] at hfun
      exact absurd List.mem_cons_self hfun
  · rw [(step_unchanged hi he hs).created fun p x i heq => hadd ⟨p, x, i, heq⟩] at hn
    exact hn

/-- A timer that was not cancelled after the step was not cancelled before. -/
theorem not_cancelled_of_step (hi : Inv q) (he : q.Enabled e) (hs : q.step W e = .ok q') {n : ℕ}
    (hn : n ∉ q'.cancelled) : n ∉ q.cancelled := by
  by_cases hcancel : ∃ k, e = .cancelInLoop k
  · obtain ⟨k, rfl⟩ := hcancel
    obtain ⟨c, q₁, -, -, rfl⟩ := cancel_step_ok hs he.2
    exact fun hmem => hn (List.mem_append_left _ hmem)
  · rw [(step_unchanged hi he hs).cancelled fun k heq => hcancel ⟨k, heq⟩] at hn
    exact hn

/-- The timer that a cancel touches is cancelled after it. -/
theorem cancelled_of_touched {k n : ℕ} {t : Timer} (he : q.Enabled (.cancelInLoop k))
    (hs : q.step W (.cancelInLoop k) = .ok q') (ht : q.touched (.cancelInLoop k) = some p)
    (hcell : q.heap.cell p = some (n, t)) : n ∈ q'.cancelled := by
  obtain ⟨c, q₁, hk, -, rfl⟩ := cancel_step_ok hs he.2
  obtain rfl : c.1 = p := by simpa [touched, hk] using ht
  apply List.mem_append_right
  rw [hcell]
  exact List.mem_singleton_self n

theorem kept_of_reinserted (hi : Inv q) (hc : q.WheelsChained W) (hro : Roster q) (h : Kept q)
    (he : q.Enabled e) (hs : q.step W e = .ok q') (hrein : q.Reinserted e) : Kept q' := by
  have hi' := inv_step hi he hs
  have hro' := roster_step hi hro he hs
  have hsame := step_unchanged hi he hs
  intro n c hn hpos hcan' hfun' hheld'
  refine ⟨hro'.alive hn hpos hcan', (sitsOnce_iff hi').mpr ?_⟩
  have hn₀ := created_of_step hi he hs hn hfun'
  have hcan := not_cancelled_of_step hi he hs hcan'
  obtain ⟨t, ht⟩ := hro.alive hn₀ hpos hcan
  by_cases hfun : c.1 ∈ q.functors
  · -- its functor has run
    have heq : e = .addTimerInLoop c.1 := by
      by_contra hne
      exact hfun' (hsame.functors hfun hne)
    subst heq
    exact (filed_or_held_of_addTimerInLoop hi hc he hs).resolve_right hheld'
  by_cases hheld : c.1 ∈ q.held
  · -- it was restarted
    have htouched : q.touched e = some c.1 := by
      by_contra hne
      exact hheld' (hsame.held hheld hne)
    have hkind : e = .finishAdd ∨ e = .reinsert := by
      cases e with
      | finishAdd => exact .inl rfl
      | reinsert => exact .inr rfl
      | addTimer r when_ interval =>
        obtain rfl : r = c.1 := Option.some.inj htouched
        rw [he.1] at ht
        cases ht
      | cancelInLoop k =>
        obtain ⟨b, m, hm⟩ := (cancel_touched hi he hs htouched).1
        exact absurd hm ((hi.placed.held_live hheld).2.2 b m)
      | _ => cases htouched
    obtain ⟨r, u, now, htouched', hu, -, -, -, ⟨-, hrestart, -⟩ | ⟨hrep, -, -⟩⟩ :=
      restart_cases hi he hs hkind
    · obtain rfl := Option.some.inj (htouched.symm.trans htouched')
      have hinserts : q.inserts e = some (c.1, (u.restart now).expiration) := by
        rcases hkind with rfl | rfl <;> exact hrestart
      exact filed_of_inserts hi hc he hs hinserts (hrein _ hrestart)
    · obtain rfl := Option.some.inj (htouched.symm.trans htouched')
      obtain rfl := Option.some.inj (hu.symm.trans (Heap.get?_eq_some.mpr ⟨n, ht⟩))
      obtain ⟨i, hi₀, hrep'⟩ := hro.cell ht
      have hci : c = (c.1, i) := Option.some.inj (hn₀.symm.trans hi₀)
      rw [hrep] at hrep'
      rw [hci] at hpos
      exact absurd hpos (of_decide_eq_false hrep'.symm)
  -- it was in a bucket, and leaves it only if it is taken or cancelled
  · obtain ⟨b, m, hm⟩ := (sitsOnce_iff hi).mp (h n c hn₀ hpos hcan hfun hheld).2
    rcases filed_or_held hi he hs hm with hfiled | hheld | ⟨⟨k, rfl⟩, htouched⟩
    · exact hfiled
    · exact absurd hheld hheld'
    · exact absurd (cancelled_of_touched he hs htouched ht) hcan'

/-- A restarted timer that expires in the current tick is in no bucket after the step. -/
theorem reinserted_of_kept (hi : Inv q) (hc : q.WheelsChained W) (hro : Roster q)
    (he : q.Enabled e) (hs : q.step W e = .ok q') (h' : Kept q') : q.Reinserted e := by
  rintro ⟨r, x⟩ hx
  have hi' := inv_step hi he hs
  have hsame := step_unchanged hi he hs
  have hkind : e = .finishAdd ∨ e = .reinsert := by
    cases e with
    | finishAdd => exact .inl rfl
    | reinsert => exact .inr rfl
    | _ => cases hx
  obtain ⟨s, t, now, htouched, ht, hheld, hheld', hfun, ⟨hrep, hrestart, -⟩ | ⟨-, hnone, -⟩⟩ :=
    restart_cases hi he hs hkind
  · obtain ⟨rfl, rfl⟩ := Prod.mk.inj (Option.some.inj (hrestart.symm.trans hx))
    have hnoncancel : ∀ k, e ≠ .cancelInLoop k := by
      rcases hkind with rfl | rfl <;> exact fun _ h => nomatch h
    have hnonadd : ∀ p x i, e ≠ .addTimer p x i := by
      rcases hkind with rfl | rfl <;> exact fun _ _ _ h => nomatch h
    obtain ⟨n, hn⟩ := Heap.get?_eq_some.mp ht
    obtain ⟨i, hi₀, hrep'⟩ := hro.cell hn
    rw [hrep] at hrep'
    -- the timer was created, it repeats, and it is not cancelled
    have hcan : n ∉ q'.cancelled := by
      rw [hsame.cancelled hnoncancel]
      exact fun hmem => (hro.cancelled_dead hmem).2 _ _ hn rfl
    have hcreated : q'.created[n]? = some (s, i) := by
      rw [hsame.created hnonadd]
      exact hi₀
    have hfun' : s ∉ q'.functors := by
      rw [hfun]
      exact (hi.placed.held_live hheld).2.1
    obtain ⟨-, hsits⟩ := h' n (s, i) hcreated (of_decide_eq_true hrep'.symm) hcan hfun' hheld'
    obtain ⟨b, m, hm⟩ := (sitsOnce_iff hi').mp hsits
    rw [Bool.eq_false_iff]
    intro hexp
    have hslot : q.slotOf W e = none := by
      have hinserts : q.inserts e = some (s, (t.restart now).expiration) := by
        rcases hkind with rfl | rfl <;> exact hrestart
      exact slotOf_eq hinserts ((place_eq_none_iff hc).mpr hexp)
    have hunfiled : (m, s) ∉ (q.buckets b).timers := notMem_of_touched hi he hnoncancel htouched b m
    cases step_moved hi he hs with
    | kept hb =>
      rw [hb] at hm
      exact hunfiled hm
    | filed hins hslot' =>
      rw [slotOf_eq hins hslot'] at hslot
      cases hslot
    | removed _ hcancel => exact absurd hcancel (not_exists.mpr hnoncancel)
    | read heq => rcases hkind with rfl | rfl <;> cases heq
  · rw [hnone] at hx
    cases hx

/-- **One step** keeps the repeating timers exactly when the timer it restarts has not expired. -/
theorem kept_step_iff (hi : Inv q) (hc : q.WheelsChained W) (hro : Roster q) (h : Kept q)
    (he : q.Enabled e) (hs : q.step W e = .ok q') : Kept q' ↔ q.Reinserted e :=
  ⟨reinserted_of_kept hi hc hro he hs, kept_of_reinserted hi hc hro h he hs⟩

theorem preserves_roster : (machine W).Preserves fun q =>
    Inv q ∧ q.WheelsChained W ∧ Roster q := by
  intro q e q' h he hs
  obtain ⟨hi, hc⟩ := preserves_chained ⟨h.1, h.2.1⟩ he hs
  exact ⟨hi, hc, roster_step h.1 h.2.2 he hs⟩

theorem roster_init (W : WheelConfig) (clock : ℤ) (numCreated : BitVec 64) :
    Roster (init W clock numCreated) where
  length := rfl
  cell h := nomatch h
  alive h := nomatch h
  cancelled_dead h := nomatch h

/-- **The repeating timers stay in the wheel** in every state of a run, if and only if no step of
the run restarts a timer so that its new expiration is in the current tick of the base wheel. -/
theorem kept_iff_reinserted {clock : ℤ} {numCreated : BitVec 64} {es : List Event}
    (hclock : 0 ≤ clock) (hr : (machine W).Run (init W clock numCreated) es q) :
    (machine W).Along Kept (init W clock numCreated) es ↔
      ((machine W).guard Reinserted).Run (init W clock numCreated) es q :=
  Machine.along_iff_run_guard preserves_roster
    (fun _ _ _ hi h he hs => kept_step_iff hi.1 hi.2.1 hi.2.2 h he hs) hr
    ⟨Inv.init W clock numCreated, ⟨W.tick_pos, hclock⟩, roster_init W clock numCreated⟩
    fun _ _ hn => nomatch hn

/-- Two rounds of a timer with an interval of twenty microseconds, two ticks of the wheel. -/
def twoRounds : List Event :=
  [.addTimer 8 1020 0.00002, .addTimerInLoop 8, .tick 1021, .handleRead, .run, .advance,
    .reinsert, .finish, .tick 1042, .handleRead, .run, .advance, .reinsert, .finish]

theorem kept_iff_reinserted_twoRounds :
    (machine smallWheel).Along Kept (init smallWheel 1000 0) twoRounds := by
  have hex : (((machine smallWheel).guard Reinserted).exec (init smallWheel 1000 0)
      twoRounds).isSome := by decide +kernel
  obtain ⟨q, hq⟩ := Option.isSome_iff_exists.mp hex
  have hr := Machine.run_of_exec hq
  exact (kept_iff_reinserted (by decide) hr.of_guard).mpr hr

/-- A timer with an interval of one microsecond is lost in its first round. -/
theorem exists_lost : ∃ q, (machine smallWheel).Reachable q ∧ q.frame = none ∧ q.adding = [] ∧
    q.functors = [] ∧ q.cancelled = [] ∧ q.created = [(8, 0.000001)] ∧ ¬ SitsOnce q 8 := by
  have hex : ((machine smallWheel).exec (init smallWheel 1000 0)
      [.addTimer 8 1020 0.000001, .addTimerInLoop 8, .tick 1021, .handleRead, .run, .advance,
        .reinsert, .finish]).map (fun q => decide (q.phase = .idle ∧ q.adding = [] ∧
          q.functors = [] ∧ q.cancelled = [] ∧ q.created = [(8, 0.000001)] ∧
          q.timerHashTable 8 = some ({ level := 0, id := 2 }, 0) ∧
          (q.buckets { level := 0, id := 2 }).timers = [])) = some true := by
    decide +kernel
  obtain ⟨q, hq, hstate⟩ := Option.map_eq_some_iff.mp hex
  obtain ⟨hidle, hadding, hfunctors, hcancelled, hcreated, htable, hempty⟩ :=
    of_decide_eq_true hstate
  have hr : (machine smallWheel).Reachable q := ⟨_, _, ⟨1000, 0, rfl⟩, Machine.run_of_exec hq⟩
  refine ⟨q, hr, frame_of_idle hidle, hadding, hfunctors, hcancelled, hcreated, fun hsits => ?_⟩
  -- the table still points to the bucket from which the timer was taken
  obtain ⟨b, n, hn⟩ := (sitsOnce_iff (inv_of_reachable hr)).mp hsits
  have hfiled := (inv_of_reachable hr).placed.filed hn
  rw [htable] at hfiled
  obtain ⟨rfl, rfl⟩ := Prod.mk.inj (Option.some.inj hfiled)
  rw [hempty] at hn
  cases hn

end CodingDemo.Libcpp.TimerWheel
