import CodingDemo.Datetime.TimerWheel.Invariant
import Mathlib.Data.List.TakeWhile

/-!
# How timers move between the buckets

Every step does one of four things to the buckets and the delay queue: it leaves them alone, it
files one timer in a slot, it erases the node of a cancelled timer, or it is the start of
`handleRead`. `inserts` is the timer that a step passes to `insert`, with its expiration; it is a
function of the state before the step.

## Main definitions

* `inserts`, `slotOf`: the timer and the expiration that a step passes to `insert`, and the slot in
  which it is filed
* `Moved`: what a step can do to the buckets
* `touched`, `Unchanged`: the one timer that a step changes, and what it leaves as it is
* `WheelsChained`: the wheels are those of one hierarchy
* `Drained`: what the loop of `getExpired` does to them

## Main results

* `handleRead_eq`: the start of `handleRead`
* `step_moved`: every step is one of the four kinds
* `step_unchanged`: what every step leaves as it is
* `get?_of_filed`: no step changes a timer that stays in the buckets
* `restart_cases`: the steps that restart or delete a timer
* `chained_step`, `preserves_chained`: the wheels stay chained
-/

namespace CodingDemo.Libcpp.TimerWheel

open TimerWheelImpl

variable {W : WheelConfig} {q q' : TimerWheel} {e : Event} {p : ℕ}

/-- A timer that is restarted at `now` if it is a repeating one, with its new expiration. -/
def restarts (q : TimerWheel) (now : ℤ) (timer : ℕ) : Option (ℕ × ℤ) :=
  (q.heap.get? timer).bind fun t =>
    if t.repeat_ then some (timer, addTime now t.intervalSeconds) else none

/-- The repeating timer that a step restarts and inserts again, with its new expiration. -/
def restarted (q : TimerWheel) : Event → Option (ℕ × ℤ)
  | .finishAdd =>
    match q.adding with
    | timer :: _ => q.restarts q.clock timer
    | [] => none
  | .reinsert =>
    match q.frame with
    | some (.reinserting now (timer :: _)) => q.restarts now timer
    | _ => none
  | _ => none

/-- The timer that a step passes to `insert`, with its expiration then. -/
def inserts (q : TimerWheel) (e : Event) : Option (ℕ × ℤ) :=
  match e with
  | .addTimerInLoop timer => (q.heap.get? timer).map fun t => (timer, t.expiration)
  | e => q.restarted e

/-- The slot in which a step files a timer. -/
def slotOf (W : WheelConfig) (q : TimerWheel) (e : Event) : Option Slot :=
  (q.inserts e).bind fun x => (q.place W x.2).2

/-- The timer that a step creates, restarts or deletes. -/
def touched (q : TimerWheel) : Event → Option ℕ
  | .addTimer timer _ _ => some timer
  | .finishAdd => q.adding.head?
  | .cancelInLoop n => (q.created[n]?).map Prod.fst
  | .reinsert =>
    match q.frame with
    | some (.reinserting _ (timer :: _)) => some timer
    | _ => none
  | _ => none

/-- What a step can do to the buckets and the delay queue. -/
inductive Moved (W : WheelConfig) (q : TimerWheel) (e : Event) (q' : TimerWheel) : Prop
  /-- Nothing; if a timer is passed to `insert`, no bucket is found for it. -/
  | kept (hb : q'.buckets = q.buckets) (hqueue : q'.delayQueue = q.delayQueue)
      (htable : q'.delayHashTable = q.delayHashTable)
      (hnone : q.slotOf W e = none)
  /-- A timer is filed in a slot. -/
  | filed {p : ℕ} {t : Timer} {slot : Slot} (hins : q.inserts e = some (p, t.expiration))
      (hslot : (q.place W t.expiration).2 = some slot) (ht : q'.heap.get? p = some t)
      (hw : q'.timerWheel = q.timerWheel ∧ q'.upperTimerWheels = (q.place W t.expiration).1)
      (hb : q'.buckets = (q.pushTimer slot p).buckets)
      (hq : Requeued q slot q'.delayQueue q'.delayHashTable q'.nextNode)
  /-- A node is erased. -/
  | removed {b : BucketRef} {n p : ℕ} {timers : NodeList ℕ} (hnone : q.inserts e = none)
      (hcancel : ∃ k, e = .cancelInLoop k) (ht : q.touched e = some p)
      (hmem : (n, p) ∈ (q.buckets b).timers)
      (he : (q.buckets b).timers.eraseNode n = some timers)
      (hb : q'.buckets = (q.setTimers b timers).buckets) (hqueue : q'.delayQueue = q.delayQueue)
      (htable : q'.delayHashTable = q.delayHashTable)
  /-- `handleRead` starts. -/
  | read (he : e = .handleRead) (hq : q' = q.handleRead)

/-- The events that are steps of `handleRead` itself. -/
def Event.ofHandleRead : Event → Bool
  | .handleRead | .run | .advance | .reinsert | .finish => true
  | _ => false

/-- The base wheel and those above it. -/
def wheels (q : TimerWheel) : List TimerWheelImpl := q.timerWheel :: q.upperTimerWheels

/-- The clocks of the wheels are those of one hierarchy. -/
def WheelsChained (W : WheelConfig) (q : TimerWheel) : Prop :=
  Chained W.wheelSize q.timerWheel q.upperTimerWheels

/-- What a step leaves as it is. -/
structure Unchanged (q : TimerWheel) (e : Event) (q' : TimerWheel) : Prop where
  heap : ∀ {p}, q.touched e ≠ some p → q'.heap.cell p = q.heap.cell p
  clock : (∀ now, e ≠ .tick now) → q'.clock = q.clock
  grows : Grows q.wheels q'.wheels
  ran : e ≠ .run → q'.ran = q.ran
  frame : e.ofHandleRead = false → q'.frame = q.frame
  created : (∀ p x i, e ≠ .addTimer p x i) → q'.created = q.created
  cancelled : (∀ n, e ≠ .cancelInLoop n) → q'.cancelled = q.cancelled
  next : (∀ p x i, e ≠ .addTimer p x i) → q'.heap.next = q.heap.next
  functors : ∀ {p}, p ∈ q.functors → e ≠ .addTimerInLoop p → p ∈ q'.functors
  held : ∀ {p}, p ∈ q.held → q.touched e ≠ some p → p ∈ q'.held

/-! ## The start of `handleRead` -/

/-- What `getExpired` leaves of the buckets, and which timers it takes: a bucket is left as it is,
or it is before the clock reading and all its timers are taken. -/
structure Drained (q : TimerWheel) (now : ℤ) (expired : List ℕ) (q' : TimerWheel) : Prop where
  same_time : ∀ b, (q'.buckets b).expirationTime = (q.buckets b).expirationTime
  bucket : ∀ b, (q'.buckets b).timers = (q.buckets b).timers ∧
      q'.delayHashTable b = q.delayHashTable b ∨
    (q'.buckets b).timers = [] ∧ ∀ x ∈ (q.buckets b).timers, x.2 ∈ expired
  taken : ∀ p ∈ expired, ∃ b n, (n, p) ∈ (q.buckets b).timers ∧
    (q.buckets b).expirationTime < now

/-- **The start of `handleRead`.** -/
theorem handleRead_eq (hi : Inv q) :
    ∃ q₁, q.handleRead =
        { q₁ with frame := some (.running q.clock q.expiredTimers q.expiredTimers) } ∧
      q₁ = { q with
        timerfd := readTimerfd q.timerfd q.clock
        buckets := q₁.buckets
        delayQueue := q₁.delayQueue
        delayHashTable := q₁.delayHashTable } ∧
      Drained q q.clock q.expiredTimers q₁ := by
  obtain ⟨table, hread, -, htable⟩ := handleRead_ok hi.linked
  refine ⟨{ q with
    timerfd := readTimerfd q.timerfd q.clock
    buckets := q.emptied (q.delayQueue.takeWhile (q.due q.clock))
    delayQueue := q.delayQueue.dropWhile (q.due q.clock)
    delayHashTable := table }, hread, rfl, fun b => ?_, fun b => ?_, fun p hp => ?_⟩
  · show (q.emptied _ b).expirationTime = _
    unfold emptied
    split_ifs <;> rfl
  · show (q.emptied _ b).timers = _ ∧ table b = _ ∨ (q.emptied _ b).timers = [] ∧ _
    unfold emptied
    split_ifs with hb
    -- the bucket is emptied, and all that it held is taken
    · obtain ⟨n, hn⟩ := NodeList.mem_values.mp hb
      exact .inr ⟨rfl, fun x hx => List.mem_map_of_mem (List.mem_flatMap.mpr ⟨_, hn, hx⟩)⟩
    · exact .inl ⟨rfl, htable b hb⟩
  · obtain ⟨n, hn⟩ := NodeList.mem_values.mp hp
    obtain ⟨d, hd, hx⟩ := List.mem_flatMap.mp hn
    have hdue : q.due q.clock d := List.mem_takeWhile_imp hd
    exact ⟨d.2, n, hx, of_decide_eq_true hdue⟩

/-! ## The kinds of steps -/

theorem restarts_eq {t : Timer} (ht : q.heap.get? p = some t) (hrep : t.repeat_ = true)
    (now : ℤ) : q.restarts now p = some (p, (t.restart now).expiration) := by
  rw [Timer.expiration_restart now hrep]
  simp [restarts, ht, hrep]

theorem restarts_eq_none {t : Timer} (ht : q.heap.get? p = some t) (hrep : t.repeat_ = false)
    (now : ℤ) : q.restarts now p = none := by
  simp [restarts, ht, hrep]

theorem slotOf_eq {x : ℕ × ℤ} {o : Option Slot} (hins : q.inserts e = some x)
    (hslot : (q.place W x.2).2 = o) : q.slotOf W e = o := by
  rw [slotOf, hins, Option.bind_some, hslot]

/-- A step that ends with `insert` files the timer it inserts, or leaves the buckets as they are. -/
theorem Inserted.moved {t : Timer} {functors adding adding' : List ℕ} {heap : Heap Timer}
    {frame : Option WheelRead} (ht : heap.get? p = some t)
    (h : Inserted W { q with
      functors := functors, adding := adding, heap := heap, frame := frame } p t q')
    (hinserts : q.inserts e = some (p, t.expiration)) :
    Moved W q e { q' with adding := adding' } := by
  cases h with
  | skipped hslot => exact .kept rfl rfl rfl (slotOf_eq hinserts hslot)
  | filed hslot _ hq =>
    exact .filed hinserts hslot ht ⟨rfl, rfl⟩ rfl ⟨hq.linked, hq.lt_next, hq.table_eq⟩

theorem get?_restart {t : Timer} (ht : q.heap.get? p = some t) (now : ℤ) :
    (q.heap.modify p (Timer.restart now)).get? p = some (t.restart now) := by
  rw [Heap.get?_modify, if_pos rfl, ht, Option.map_some]

/-- **The four kinds of steps.** -/
theorem step_moved (hi : Inv q) (he : q.Enabled e) (hs : q.step W e = .ok q') :
    Moved W q e q' := by
  cases e with
  | tick now =>
    obtain rfl := Except.ok.inj hs
    exact .kept rfl rfl rfl rfl
  | otherTimer =>
    obtain rfl := Except.ok.inj hs
    exact .kept rfl rfl rfl rfl
  | addTimer p when_ interval =>
    obtain rfl := Except.ok.inj hs
    simp only [TimerWheel.addTimer, he.1, dite_true]
    exact .kept rfl rfl rfl rfl
  | addTimerInLoop p =>
    obtain ⟨t, q₁, ht, hins, rfl⟩ := addTimerInLoop_ok hi.linked hs
    have hinserts : q.inserts (.addTimerInLoop p) = some (p, t.expiration) := by
      simp [inserts, ht]
    split_ifs
    · exact hins.moved ht hinserts
    · exact hins.moved ht hinserts
  | finishAdd =>
    obtain ⟨p, rest, hadd⟩ := List.exists_cons_of_ne_nil he
    obtain ⟨t, ht, ⟨hrep, hins⟩ | ⟨hrep, h', hd, rfl⟩⟩ := finishAdd_ok hi.linked hadd hs
    · have hinserts : q.inserts .finishAdd = some (p, (t.restart q.clock).expiration) := by
        simp only [inserts, restarted, hadd, restarts_eq ht hrep]
      exact hins.moved (get?_restart ht q.clock) hinserts
    · have hnone : q.slotOf W .finishAdd = none := by
        simp only [slotOf, inserts, restarted, hadd, restarts_eq_none ht hrep, Option.bind_none]
      exact .kept rfl rfl rfl hnone
  | cancelInLoop n =>
    obtain ⟨c, q₁, hc, hcancel, rfl⟩ := cancel_step_ok hs he.2
    obtain ⟨b, m, timers, h', htable, herase, -, rfl⟩ := cancelInLoop_ok hcancel
    obtain ⟨⟨r, hr⟩, -⟩ := NodeList.eraseNode_eq_some.mp herase
    obtain rfl : r = c.1 := hi.placed.hash_inj (hi.placed.filed hr) htable
    exact .removed rfl ⟨n, rfl⟩ (by rw [touched, hc]; rfl) hr herase rfl rfl rfl
  | handleRead =>
    obtain rfl := Except.ok.inj hs
    exact .read rfl rfl
  | run =>
    obtain ⟨now, expired, p, rest, hf⟩ := exists_frame_of_run he.2
    obtain ⟨c, -, rfl⟩ := runNext_ok hf hs
    exact .kept rfl rfl rfl rfl
  | advance =>
    obtain ⟨now, expired, hf⟩ := exists_frame_of_advance he.2
    obtain rfl := Except.ok.inj hs
    rw [advance_eq hf]
    exact .kept rfl rfl rfl rfl
  | reinsert =>
    obtain ⟨now, p, rest, hf⟩ := exists_frame_of_reinsert he
    obtain ⟨t, ht, ⟨hrep, hins⟩ | ⟨hrep, h', hd, rfl⟩⟩ := reinsertNext_ok hi.linked hf hs
    · have hinserts : q.inserts .reinsert = some (p, (t.restart now).expiration) := by
        simp only [inserts, restarted, hf, restarts_eq ht hrep]
      exact hins.moved (get?_restart ht now) hinserts
    · have hnone : q.slotOf W .reinsert = none := by
        simp only [slotOf, inserts, restarted, hf, restarts_eq_none ht hrep, Option.bind_none]
      exact .kept rfl rfl rfl hnone
  | finish =>
    obtain rfl := Except.ok.inj hs
    obtain ⟨fd, hq'⟩ := finish_eq q
    rw [hq']
    exact .kept rfl rfl rfl rfl

/-! ## What a step leaves as it is -/

theorem Inserted.grows {t : Timer} (h : Inserted W q p t q') : Grows q.wheels q'.wheels := by
  cases h with
  | skipped => exact grows_place
  | filed => exact grows_place

theorem Unchanged.refl (q : TimerWheel) (e : Event) : Unchanged q e q where
  heap _ := rfl
  clock _ := rfl
  grows := Grows.refl _
  ran _ := rfl
  frame _ := rfl
  created _ := rfl
  cancelled _ := rfl
  next _ := rfl
  functors hp _ := hp
  held hp _ := hp

/-- `insert` adds nothing to what a step changes. -/
theorem Inserted.unchanged {q₀ : TimerWheel} {t : Timer} (h : Inserted W q₀ p t q')
    (hu : Unchanged q e q₀) : Unchanged q e q' := by
  obtain ⟨hframe, hadding, hheap, hfunctors, hcreated, hcancelled, hran, hclock, -⟩ := h.same
  exact {
    heap := fun hs => by rw [hheap, hu.heap hs]
    clock := fun hs => by rw [hclock, hu.clock hs]
    grows := hu.grows.trans h.grows
    ran := fun hs => by rw [hran, hu.ran hs]
    frame := fun hs => by rw [hframe, hu.frame hs]
    created := fun hs => by rw [hcreated, hu.created hs]
    cancelled := fun hs => by rw [hcancelled, hu.cancelled hs]
    next := fun hs => by rw [hheap, hu.next hs]
    functors := fun hs he => hfunctors ▸ hu.functors hs he
    held := fun hs he => by
      rw [TimerWheel.held, batch_of_frame_eq hframe, hadding]
      exact hu.held hs he }

theorem unchanged_finishAdd (hi : Inv q) (he : q.Enabled .finishAdd)
    (hs : q.step W .finishAdd = .ok q') : Unchanged q .finishAdd q' := by
  obtain ⟨r, rest, hadd⟩ := List.exists_cons_of_ne_nil he
  have hne : ∀ {s}, q.touched .finishAdd ≠ some s → s ≠ r := by
    rintro s hs rfl
    exact hs (by rw [touched, hadd, List.head?_cons])
  have hheld : ∀ {s}, s ∈ q.held → q.touched .finishAdd ≠ some s → s ∈ q.batch ++ rest := by
    intro s hmem hs
    rw [TimerWheel.held, hadd] at hmem
    exact (List.mem_cons.mp (List.perm_middle.subset hmem)).resolve_left (hne hs)
  obtain ⟨t, -, ⟨-, hins⟩ | ⟨-, h', hd, rfl⟩⟩ := finishAdd_ok hi.linked hadd hs
  · exact hins.unchanged { (Unchanged.refl q _) with
      heap := fun hs => Heap.cell_modify_of_ne (hne hs)
      held := hheld }
  · exact { (Unchanged.refl q _) with
      heap := fun hs => Heap.cell_of_delete_of_ne hd (hne hs)
      next := fun _ => Heap.next_of_delete hd
      held := hheld }

theorem unchanged_reinsert (hi : Inv q) (he : q.Enabled .reinsert)
    (hs : q.step W .reinsert = .ok q') : Unchanged q .reinsert q' := by
  obtain ⟨now, r, rest, hf⟩ := exists_frame_of_reinsert he
  have hne : ∀ {s}, q.touched .reinsert ≠ some s → s ≠ r := by
    rintro s hs rfl
    exact hs (by simp only [touched, hf])
  have hheld : ∀ {s}, s ∈ q.held → q.touched .reinsert ≠ some s → s ∈ rest ++ q.adding := by
    intro s hmem hs
    rw [TimerWheel.held, batch, hf] at hmem
    exact (List.mem_cons.mp hmem).resolve_left (hne hs)
  obtain ⟨t, -, ⟨-, hins⟩ | ⟨-, h', hd, rfl⟩⟩ := reinsertNext_ok hi.linked hf hs
  · exact hins.unchanged { (Unchanged.refl q _) with
      heap := fun hs => Heap.cell_modify_of_ne (hne hs)
      frame := fun h => absurd h.symm Bool.false_ne_true
      held := hheld }
  · exact { (Unchanged.refl q _) with
      heap := fun hs => Heap.cell_of_delete_of_ne hd (hne hs)
      frame := fun h => absurd h.symm Bool.false_ne_true
      next := fun _ => Heap.next_of_delete hd
      held := hheld }

theorem step_unchanged (hi : Inv q) (he : q.Enabled e) (hs : q.step W e = .ok q') :
    Unchanged q e q' := by
  cases e with
  | tick now =>
    obtain rfl := Except.ok.inj hs
    exact { (Unchanged.refl q _) with clock := fun h => absurd rfl (h now) }
  | otherTimer =>
    obtain rfl := Except.ok.inj hs
    exact { (Unchanged.refl q _) with }
  | addTimer r when_ interval =>
    obtain rfl := Except.ok.inj hs
    simp only [TimerWheel.addTimer, he.1, dite_true]
    refine { (Unchanged.refl q _) with
      heap := fun {s} hs => ?_
      created := fun h => absurd rfl (h r when_ interval)
      next := fun h => absurd rfl (h r when_ interval)
      functors := fun hp _ => List.mem_cons_of_mem _ hp }
    have hne : s ≠ r := fun heq => hs (congrArg some heq.symm)
    rw [Heap.cell_alloc, if_neg hne]
  | addTimerInLoop r =>
    obtain ⟨t, q₁, -, hins, rfl⟩ := addTimerInLoop_ok hi.linked hs
    have h₁ : Unchanged q (.addTimerInLoop r) q₁ := hins.unchanged { (Unchanged.refl q _) with
      functors := fun hp hne =>
        (List.mem_erase_of_ne fun heq => hne (congrArg Event.addTimerInLoop heq.symm)).mpr hp }
    split_ifs
    · refine { h₁ with held := fun hp hne => ?_ }
      exact List.perm_middle.symm.subset (List.mem_cons_of_mem r (h₁.held hp hne))
    · exact h₁
  | finishAdd => exact unchanged_finishAdd hi he hs
  | cancelInLoop k =>
    obtain ⟨i, q₁, hk, hcancel, rfl⟩ := cancel_step_ok hs he.2
    obtain ⟨d, o, timers, h', -, -, hd, rfl⟩ := cancelInLoop_ok hcancel
    refine { (Unchanged.refl q _) with
      heap := fun {s} hs => Heap.cell_of_delete_of_ne hd ?_
      cancelled := fun h => absurd rfl (h k)
      next := fun _ => Heap.next_of_delete hd }
    rintro rfl
    exact hs (by rw [touched, hk]; rfl)
  | handleRead =>
    obtain rfl := Except.ok.inj hs
    obtain ⟨q₁, hread, hq₁, -⟩ := handleRead_eq hi
    rw [hread, hq₁]
    refine { (Unchanged.refl q _) with
      frame := fun h => absurd h.symm Bool.false_ne_true
      held := fun hp _ => ?_ }
    rw [TimerWheel.held, batch, frame_of_idle he.2, he.1] at hp
    cases hp
  | run =>
    obtain ⟨now, expired, r, rest, hf⟩ := exists_frame_of_run he.2
    obtain ⟨i, -, rfl⟩ := runNext_ok hf hs
    exact { (Unchanged.refl q _) with
      ran := fun h => absurd rfl h
      frame := fun h => absurd h.symm Bool.false_ne_true
      held := fun hp _ => by simpa only [TimerWheel.held, batch, hf] using hp }
  | advance =>
    obtain ⟨now, expired, hf⟩ := exists_frame_of_advance he.2
    obtain rfl := Except.ok.inj hs
    rw [advance_eq hf]
    exact { (Unchanged.refl q _) with
      grows := grows_advanceClock hi.ticks
      frame := fun h => absurd h.symm Bool.false_ne_true
      held := fun hp _ => by simpa only [TimerWheel.held, batch, hf] using hp }
  | reinsert => exact unchanged_reinsert hi he hs
  | finish =>
    obtain ⟨now, hf⟩ := exists_frame_of_finish he
    obtain rfl := Except.ok.inj hs
    obtain ⟨fd, hq'⟩ := finish_eq q
    rw [hq']
    exact { (Unchanged.refl q _) with
      frame := fun h => absurd h.symm Bool.false_ne_true
      held := fun hp _ => by simpa only [TimerWheel.held, batch, hf] using hp }

/-- The timer that a step touches is in no bucket, except for a cancelled one. -/
theorem notMem_of_touched (hi : Inv q) (he : q.Enabled e) (hcancel : ∀ n, e ≠ .cancelInLoop n)
    (ht : q.touched e = some p) (b : BucketRef) (n : ℕ) : (n, p) ∉ (q.buckets b).timers := by
  -- a touched timer is a new one or a held one, and neither is in a bucket
  have hheld : p ∈ q.held → (n, p) ∉ (q.buckets b).timers := fun hp =>
    (hi.placed.held_live hp).2.2 b n
  cases e with
  | addTimer r when_ interval =>
    obtain rfl := Option.some.inj ht
    intro hmem
    obtain ⟨t, ht⟩ := hi.placed.hash_live (hi.placed.filed hmem)
    rw [Heap.get?_eq_none.mpr he.1] at ht
    cases ht
  | finishAdd => exact hheld (List.mem_append_right _ (List.mem_of_mem_head? ht))
  | cancelInLoop k => exact absurd rfl (hcancel k)
  | reinsert =>
    obtain ⟨now, r, rest, hf⟩ := exists_frame_of_reinsert he
    simp only [touched, hf, Option.some_inj] at ht
    refine hheld (List.mem_append_left _ ?_)
    rw [batch, hf, ht]
    exact List.mem_cons_self
  | _ => cases ht

/-- A cancel that does not fault finds its timer in a bucket, and after it the timer is in none. -/
theorem cancel_touched (hi : Inv q) {k : ℕ} (he : q.Enabled (.cancelInLoop k))
    (hs : q.step W (.cancelInLoop k) = .ok q') (ht : q.touched (.cancelInLoop k) = some p) :
    (∃ b n, (n, p) ∈ (q.buckets b).timers) ∧ ∀ b n, (n, p) ∉ (q'.buckets b).timers := by
  obtain ⟨i, q₁, hk, hcancel, rfl⟩ := cancel_step_ok hs he.2
  obtain rfl : i.1 = p := by simpa [touched, hk] using ht
  have hpl := (inv_cancelInLoop hi hcancel).placed
  obtain ⟨b, n, timers, h', htable, herase, -, rfl⟩ := cancelInLoop_ok hcancel
  obtain ⟨⟨r, hr⟩, -⟩ := NodeList.eraseNode_eq_some.mp herase
  obtain rfl : r = i.1 := hi.placed.hash_inj (hi.placed.filed hr) htable
  refine ⟨⟨b, n, hr⟩, fun c m hm => ?_⟩
  exact absurd ((hpl.filed hm).symm.trans (Function.update_self _ _ _)) (Option.some_ne_none _)

theorem get?_of_cell (h : q'.heap.cell p = q.heap.cell p) : q'.heap.get? p = q.heap.get? p := by
  unfold Heap.get?
  rw [h]

/-- A timer in a bucket that is in a bucket after the step too is not changed by the step. -/
theorem get?_of_filed (hi : Inv q) (he : q.Enabled e) (hs : q.step W e = .ok q')
    {b c : BucketRef} {n m : ℕ} (hold : (n, p) ∈ (q.buckets b).timers)
    (hnew : (m, p) ∈ (q'.buckets c).timers) : q'.heap.get? p = q.heap.get? p := by
  apply get?_of_cell
  apply (step_unchanged hi he hs).heap
  -- a touched timer would leave its bucket, or would not have been there
  intro ht
  by_cases hcancel : ∃ k, e = .cancelInLoop k
  · obtain ⟨k, rfl⟩ := hcancel
    exact (cancel_touched hi he hs ht).2 c m hnew
  · exact notMem_of_touched hi he (fun k hk => hcancel ⟨k, hk⟩) ht b n hold

/-- No step touches the timers of the batch while their callbacks run. -/
theorem get?_of_batch (hi : Inv q) (he : q.Enabled e) (hs : q.step W e = .ok q') {now : ℤ}
    {expired todo : List ℕ} (hf : q.frame = some (.running now expired todo)) (hp : p ∈ expired) :
    q'.heap.get? p = q.heap.get? p := by
  apply get?_of_cell
  apply (step_unchanged hi he hs).heap
  -- the timers of the batch are held, and no other function is busy with them
  intro ht
  have hpl := hi.placed
  simp only [held, batch, hf] at hpl
  obtain ⟨hlive, -, hunfiled⟩ := hpl.held_live (List.mem_append_left _ hp)
  cases e with
  | addTimer r when_ interval =>
    obtain rfl := Option.some.inj ht
    obtain ⟨t, ht⟩ := hlive
    rw [Heap.get?_eq_none.mpr he.1] at ht
    cases ht
  | finishAdd =>
    -- the timers whose callbacks `addTimerInLoop` runs are not in the batch
    have hadd : p ∈ q.adding := List.mem_of_mem_head? ht
    exact (List.nodup_append.mp hpl.held_nodup).2.2 p hp p hadd rfl
  | cancelInLoop k =>
    obtain ⟨b, n, hmem⟩ := (cancel_touched hi he hs ht).1
    exact hunfiled b n hmem
  | reinsert => simp only [touched, hf, reduceCtorEq] at ht
  | _ => cases ht

/-! ## The steps that end with a timer restarted or deleted -/

/-- What the steps `finishAdd` and `reinsert` do: the timer is held no more, and it is restarted and
passed to `insert`, or deleted if it is not a repeating one. -/
theorem restart_cases (hi : Inv q) (he : q.Enabled e) (hs : q.step W e = .ok q')
    (hkind : e = .finishAdd ∨ e = .reinsert) :
    ∃ r t now, q.touched e = some r ∧ q.heap.get? r = some t ∧ r ∈ q.held ∧ r ∉ q'.held ∧
      q'.functors = q.functors ∧
      (t.repeat_ = true ∧ q.restarted e = some (r, (t.restart now).expiration) ∧
          q'.heap = q.heap.modify r (Timer.restart now) ∨
        t.repeat_ = false ∧ q.restarted e = none ∧ q.heap.delete r = some q'.heap) := by
  rcases hkind with rfl | rfl
  -- `finishAdd` ends with the timer of the innermost `addTimerInLoop`
  · obtain ⟨r, rest, hadd⟩ := List.exists_cons_of_ne_nil he
    have hheld : q.held.Perm (r :: (q.batch ++ rest)) := by
      rw [held, hadd]
      exact List.perm_middle
    have hnotMem : r ∉ q.batch ++ rest :=
      (List.nodup_cons.mp (hheld.nodup_iff.mp hi.placed.held_nodup)).1
    have htouched : q.touched .finishAdd = some r := by rw [touched, hadd, List.head?_cons]
    have hmem : r ∈ q.held := hheld.symm.subset List.mem_cons_self
    obtain ⟨t, ht, ⟨hrep, hins⟩ | ⟨hrep, h', hd, rfl⟩⟩ := finishAdd_ok hi.linked hadd hs
    · obtain ⟨hframe, hadding, hheap, hfunctors, -⟩ := hins.same
      refine ⟨r, t, q.clock, htouched, ht, hmem, ?_, hfunctors, .inl ⟨hrep, ?_, hheap⟩⟩
      · rw [held, batch_of_frame_eq hframe, hadding]
        exact hnotMem
      · simp only [restarted, hadd, restarts_eq ht hrep]
    · refine ⟨r, t, q.clock, htouched, ht, hmem, hnotMem, rfl, .inr ⟨hrep, ?_, hd⟩⟩
      simp only [restarted, hadd, restarts_eq_none ht hrep]
  -- `reinsert` ends with the first timer that is left of the batch
  · obtain ⟨now, r, rest, hf⟩ := exists_frame_of_reinsert he
    have hheld : q.held = r :: (rest ++ q.adding) := by
      rw [held, batch, hf]
      rfl
    have hnotMem : r ∉ rest ++ q.adding :=
      (List.nodup_cons.mp (hheld ▸ hi.placed.held_nodup)).1
    have htouched : q.touched .reinsert = some r := by simp only [touched, hf]
    have hmem : r ∈ q.held := hheld ▸ List.mem_cons_self
    obtain ⟨t, ht, ⟨hrep, hins⟩ | ⟨hrep, h', hd, rfl⟩⟩ := reinsertNext_ok hi.linked hf hs
    · obtain ⟨hframe, hadding, hheap, hfunctors, -⟩ := hins.same
      refine ⟨r, t, now, htouched, ht, hmem, ?_, hfunctors, .inl ⟨hrep, ?_, hheap⟩⟩
      · rw [held, batch_of_frame_eq hframe, hadding]
        exact hnotMem
      · simp only [restarted, hf, restarts_eq ht hrep]
    · refine ⟨r, t, now, htouched, ht, hmem, hnotMem, rfl, .inr ⟨hrep, ?_, hd⟩⟩
      simp only [restarted, hf, restarts_eq_none ht hrep]

/-! ## The wheels stay chained -/

theorem chained_inserted {t : Timer} (hc : q.WheelsChained W) (h : Inserted W q p t q') :
    q'.WheelsChained W := by
  cases h with
  | skipped => exact chained_climb W.two_le_wheelSize hc
  | filed => exact chained_climb W.two_le_wheelSize hc

theorem chained_step (hi : Inv q) (hc : q.WheelsChained W) (he : q.Enabled e)
    (hs : q.step W e = .ok q') : q'.WheelsChained W := by
  cases e with
  | tick now =>
    obtain rfl := Except.ok.inj hs
    exact hc
  | otherTimer =>
    obtain rfl := Except.ok.inj hs
    exact hc
  | addTimer r when_ interval =>
    obtain rfl := Except.ok.inj hs
    simp only [TimerWheel.addTimer, he.1, dite_true]
    exact hc
  | addTimerInLoop r =>
    obtain ⟨t, q₁, -, hins, rfl⟩ := addTimerInLoop_ok hi.linked hs
    have hc₁ : q₁.WheelsChained W := chained_inserted (by exact hc) hins
    split_ifs
    · exact hc₁
    · exact hc₁
  | finishAdd =>
    obtain ⟨r, rest, hadd⟩ := List.exists_cons_of_ne_nil he
    obtain ⟨t, -, ⟨-, hins⟩ | ⟨-, h', -, rfl⟩⟩ := finishAdd_ok hi.linked hadd hs
    · exact chained_inserted (by exact hc) hins
    · exact hc
  | cancelInLoop k =>
    obtain ⟨i, q₁, -, hcancel, rfl⟩ := cancel_step_ok hs he.2
    obtain ⟨b, n, timers, h', -, -, -, rfl⟩ := cancelInLoop_ok hcancel
    exact hc
  | handleRead =>
    obtain rfl := Except.ok.inj hs
    obtain ⟨q₁, hread, hq₁, -⟩ := handleRead_eq hi
    rw [hread, hq₁]
    exact hc
  | run =>
    obtain ⟨now, expired, r, rest, hf⟩ := exists_frame_of_run he.2
    obtain ⟨i, -, rfl⟩ := runNext_ok hf hs
    exact hc
  | advance =>
    obtain ⟨now, expired, hf⟩ := exists_frame_of_advance he.2
    obtain rfl := Except.ok.inj hs
    rw [advance_eq hf]
    exact chained_advanceClock hc
  | reinsert =>
    obtain ⟨now, r, rest, hf⟩ := exists_frame_of_reinsert he
    obtain ⟨t, -, ⟨-, hins⟩ | ⟨-, h', -, rfl⟩⟩ := reinsertNext_ok hi.linked hf hs
    · exact chained_inserted (by exact hc) hins
    · exact hc
  | finish =>
    obtain rfl := Except.ok.inj hs
    obtain ⟨fd, hq'⟩ := finish_eq q
    rw [hq']
    exact hc

theorem preserves_chained : (machine W).Preserves fun q => Inv q ∧ q.WheelsChained W :=
  preserves_inv.and fun _ _ _ hi hc he hs => chained_step hi hc he hs

/-- In chained wheels `insert` finds a slot unless the timer has expired. -/
theorem place_eq_none_iff (hc : q.WheelsChained W) {x : ℤ} :
    (q.place W x).2 = none ↔ q.isExpired x = true := by
  rw [place, TimerWheelImpl.place_eq_none W.two_le_wheelSize hc, isExpired, decide_eq_true_iff]

end CodingDemo.Libcpp.TimerWheel
