import CodingDemo.Datetime.TimerWheel.Model

/-!
# The invariant of the timer wheel

Every step without a fault keeps the tables, the lists and the timer objects consistent, whatever
the callbacks add and cancel. A timer that is in a bucket is found by `timerHashTable_` at its
node there; a bucket that is in the delay queue is found by `delayHashTable_` at its node. The
timers that `handleRead` and `addTimerInLoop` are busy with are in no bucket; `Placed q held` says
so for a list `held`, so that it can be stated between two rounds of a loop.

## Main definitions

* `Placed`: the buckets, the functors and the held timers are apart, and `timerHashTable_` finds
  the timers in the buckets
* `Linked`: `delayHashTable_` finds the buckets in the delay queue
* `Inserted`: what `insert` can do to the wheel
* `Inv`: the invariant

## Main results

* `insert_ok`, `finishAdd_ok`, `cancelInLoop_ok`, `reinsertNext_ok`: what the member functions do
  when they do not fault
* `getExpired_eq`, `handleRead_ok`: what `getExpired` and the start of `handleRead` take
* `preserves_inv`: the invariant is kept by every step
-/

namespace CodingDemo.Libcpp.TimerWheel

open TimerWheelImpl

variable {W : WheelConfig} {q q' : TimerWheel} {l : List ℕ} {p : ℕ} {t : Timer} {slot : Slot}

/-- The timers in the buckets, those bound in functors, and those of the list `held`. -/
structure Placed (q : TimerWheel) (held : List ℕ) : Prop where
  filed : ∀ {b n p}, (n, p) ∈ (q.buckets b).timers → q.timerHashTable p = some (b, n)
  nodup : ∀ b, (q.buckets b).timers.Nodup
  hash_live : ∀ {p x}, q.timerHashTable p = some x → ∃ t, q.heap.get? p = some t
  hash_inj : ∀ {p r b c n}, q.timerHashTable p = some (b, n) → q.timerHashTable r = some (c, n) →
    p = r
  hash_lt : ∀ {p b n}, q.timerHashTable p = some (b, n) → n < q.nextNode
  bound : ∀ {p}, p ∈ q.functors → (∃ t, q.heap.get? p = some t) ∧ q.timerHashTable p = none
  bound_nodup : q.functors.Nodup
  held_live : ∀ {p}, p ∈ held → (∃ t, q.heap.get? p = some t) ∧ p ∉ q.functors ∧
    ∀ b n, (n, p) ∉ (q.buckets b).timers
  held_nodup : held.Nodup
  adding_hash : ∀ {p}, p ∈ q.adding → q.timerHashTable p = none

/-- The table maps a bucket to its node in the queue, and the nodes are older than `next`. -/
structure Linked (queue : NodeList BucketRef) (table : BucketRef → Option ℕ) (next : ℕ) :
    Prop where
  mem_iff : ∀ {n b}, (n, b) ∈ queue ↔ table b = some n
  nodup : (queue.map Prod.fst).Nodup
  lt : ∀ {n b}, (n, b) ∈ queue → n < next

/-- The timers that the running `handleRead` has taken out of the buckets. -/
def batch (q : TimerWheel) : List ℕ :=
  match q.frame with
  | none => []
  | some (.running _ expired _) => expired
  | some (.reinserting _ todo) => todo

/-- The timers that the running functions are busy with. -/
def held (q : TimerWheel) : List ℕ := q.batch ++ q.adding

/-- The invariant. -/
structure Inv (q : TimerWheel) : Prop where
  placed : Placed q q.held
  linked : Linked q.delayQueue q.delayHashTable q.nextNode
  ticks : TicksPos q.timerWheel q.upperTimerWheels
  todo : ∀ {now expired todo}, q.frame = some (.running now expired todo) → todo <:+ expired

theorem deref_eq (h : q.heap.get? p = some t) : q.deref p = .ok t := by
  simp [deref, h]

theorem exists_delete (h : q.heap.get? p = some t) : ∃ h', q.heap.delete p = some h' := by
  obtain ⟨n, hn⟩ := Heap.get?_eq_some.mp h
  exact Heap.exists_delete (by simp [hn])

theorem deleteTimer_eq {h' : Heap Timer} (h : q.heap.delete p = some h') :
    q.deleteTimer p = .ok { q with heap := h' } := by
  simp [deleteTimer, h]

theorem timers_setTimers (b c : BucketRef) (timers : NodeList ℕ) :
    ((q.setTimers b timers).buckets c).timers = if c = b then timers else (q.buckets c).timers := by
  simp only [setTimers, Function.update_apply]
  split <;> rfl

@[simp] theorem expirationTime_setTimers (b c : BucketRef) (timers : NodeList ℕ) :
    ((q.setTimers b timers).buckets c).expirationTime = (q.buckets c).expirationTime := by
  simp only [setTimers, Function.update_apply]
  split_ifs with hc
  · rw [hc]
  · rfl

/-! ## The delay queue -/

section Linked

variable {queue : NodeList BucketRef} {table : BucketRef → Option ℕ} {next : ℕ} {b : BucketRef}

/-- A bucket is in the queue at most once. -/
theorem Linked.values_nodup (h : Linked queue table next) : queue.values.Nodup := by
  refine List.Nodup.map_on ?_ (List.Nodup.of_map _ h.nodup)
  rintro ⟨n, b⟩ hn ⟨m, c⟩ hm (rfl : b = c)
  have hnm := (h.mem_iff.mp hn).symm.trans (h.mem_iff.mp hm)
  rw [Option.some.inj hnm]

theorem Linked.mono {m : ℕ} (h : Linked queue table next) (hle : next ≤ m) :
    Linked queue table m :=
  ⟨h.mem_iff, h.nodup, fun hn => (h.lt hn).trans_le hle⟩

/-- The queue without its first bucket. -/
theorem Linked.tail {d : ℕ × BucketRef} (h : Linked (d :: queue) table next) :
    Linked queue (Function.update table d.2 none) next := by
  have hv := List.nodup_cons.mp h.values_nodup
  refine ⟨fun {n b} => ?_, (List.nodup_cons.mp h.nodup).2, fun hn =>
    h.lt (List.mem_cons_of_mem _ hn)⟩
  -- only the first bucket loses its entry, and it is not queued again
  by_cases hb : b = d.2
  · subst hb
    rw [Function.update_self]
    exact ⟨fun hn => absurd (NodeList.mem_values.mpr ⟨n, hn⟩) hv.1, fun hn => nomatch hn⟩
  · rw [Function.update_of_ne hb, ← h.mem_iff, List.mem_cons]
    refine ⟨.inr, fun hn => ?_⟩
    rcases hn with hn | hn
    · exact absurd (congrArg Prod.snd hn) hb
    · exact hn

/-- The queue with the bucket `b` moved to a new node. -/
theorem Linked.move {queue' : NodeList BucketRef} (h : Linked queue table next)
    (hmem : ∀ {n c}, (n, c) ∈ queue' ↔ c ≠ b ∧ (n, c) ∈ queue)
    (hnodup : (queue'.map Prod.fst).Nodup) {sorted : NodeList BucketRef}
    (hperm : sorted.Perm (queue' ++ [(next, b)])) :
    Linked sorted (Function.update table b (some next)) (next + 1) := by
  refine ⟨fun {n c} => ?_, ?_, fun {n c} hn => ?_⟩
  -- the bucket `b` is at the new node, the others are where they were
  · rw [hperm.mem_iff, List.mem_append, List.mem_singleton, hmem, Prod.mk.injEq]
    by_cases hc : c = b
    · subst hc
      rw [Function.update_self, Option.some_inj]
      exact ⟨fun hn => (hn.resolve_left fun h => h.1 rfl).1.symm, fun hn => .inr ⟨hn.symm, rfl⟩⟩
    · rw [Function.update_of_ne hc, ← h.mem_iff]
      exact ⟨fun hn => (hn.resolve_right fun h => hc h.2).2, fun hn => .inl ⟨hc, hn⟩⟩
  -- the new node is newer than the others
  · rw [(hperm.map Prod.fst).nodup_iff, List.map_append, List.nodup_append]
    refine ⟨hnodup, by simp, fun n hn m hm hnm => ?_⟩
    obtain ⟨⟨n', c⟩, hc, rfl⟩ := List.mem_map.mp hn
    obtain rfl : m = next := by simpa using hm
    exact absurd hnm (h.lt (hmem.mp hc).2).ne
  · rw [hperm.mem_iff, List.mem_append, List.mem_singleton, Prod.mk.injEq] at hn
    rcases hn with hn | hn
    · exact (h.lt (hmem.mp hn).2).trans (Nat.lt_succ_self _)
    · rw [hn.1]
      exact Nat.lt_succ_self _

end Linked

/-- `eraseBucket` finds the node of a bucket that is queued. -/
theorem eraseBucket_eq (hl : Linked q.delayQueue q.delayHashTable q.nextNode) (b : BucketRef) :
    ∃ queue, q.eraseBucket b = .ok queue ∧
      (∀ {n c}, (n, c) ∈ queue ↔ c ≠ b ∧ (n, c) ∈ q.delayQueue) ∧
      (queue.map Prod.fst).Nodup := by
  unfold eraseBucket
  cases htable : q.delayHashTable b with
  | none =>
    refine ⟨_, rfl, fun {n c} => ⟨fun hn => ⟨?_, hn⟩, And.right⟩, hl.nodup⟩
    rintro rfl
    rw [hl.mem_iff, htable] at hn
    cases hn
  | some iter =>
    have hiter := hl.mem_iff.mpr htable
    obtain ⟨queue, hq⟩ := NodeList.exists_eraseNode hiter
    refine ⟨queue, by simp only [hq], fun {n c} => ?_,
      hl.nodup.sublist ((NodeList.sublist_of_eraseNode hq).map _)⟩
    rw [NodeList.mem_of_eraseNode hq, and_comm]
    -- in the queue, the node `iter` is the one of the bucket `b`
    refine and_congr_left fun hn => not_congr ⟨fun hni => ?_, fun hcb => ?_⟩
    · obtain rfl : n = iter := hni
      exact congrArg Prod.snd (List.inj_on_of_nodup_map hl.nodup hn hiter rfl)
    · obtain rfl : c = b := hcb
      exact Option.some.inj ((hl.mem_iff.mp hn).symm.trans htable)

/-- `updateDelayQueue` leaves the bucket in the queue once. -/
theorem updateDelayQueue_eq (hl : Linked q.delayQueue q.delayHashTable q.nextNode)
    (b : BucketRef) :
    ∃ queue fd, q.updateDelayQueue W b = .ok { q with
        delayQueue := queue
        delayHashTable := Function.update q.delayHashTable b (some q.nextNode)
        nextNode := q.nextNode + 1
        timerfd := fd } ∧
      Linked queue (Function.update q.delayHashTable b (some q.nextNode)) (q.nextNode + 1) := by
  -- sorting permutes the queue, so it finds the same nodes
  have hsorted : ∀ {queue : NodeList BucketRef},
      (∀ {n c}, (n, c) ∈ queue ↔ c ≠ b ∧ (n, c) ∈ q.delayQueue) → (queue.map Prod.fst).Nodup →
      Linked (q.requeue W queue b).delayQueue
        (Function.update q.delayHashTable b (some q.nextNode)) (q.nextNode + 1) :=
    fun hmem hnodup => hl.move hmem hnodup (List.perm_insertionSort _ _)
  unfold updateDelayQueue
  cases hfront : q.frontExpiration with
  | none =>
    have hnil : q.delayQueue = [] := by
      simpa [frontExpiration] using hfront
    exact ⟨_, _, rfl, hsorted (by simp [hnil]) List.nodup_nil⟩
  | some currentExpiration =>
    obtain ⟨queue, hok, hmem, hnodup⟩ := eraseBucket_eq hl b
    simp only [hok, bind, Except.bind]
    split
    · split
      · exact ⟨_, _, rfl, hsorted hmem hnodup⟩
      · exact ⟨_, _, rfl, hsorted hmem hnodup⟩
    · exact ⟨_, _, rfl, hsorted hmem hnodup⟩

/-! ## Inserting a timer -/

/-- The delay queue and its table after a timer is filed in a slot: the bucket is queued anew when
its expiration time changes. -/
structure Requeued (q : TimerWheel) (slot : Slot) (queue : NodeList BucketRef)
    (table : BucketRef → Option ℕ) (next : ℕ) : Prop where
  linked : Linked queue table next
  lt_next : q.nextNode < next
  table_eq : table = if (q.buckets slot.bucket).expirationTime = slot.time then q.delayHashTable
    else Function.update q.delayHashTable slot.bucket (some (q.nextNode + 1))

/-- What `insert` can do to the wheel with a timer `t` at the address `p`. -/
inductive Inserted (W : WheelConfig) (q : TimerWheel) (p : ℕ) (t : Timer) : TimerWheel → Prop
  /-- No bucket is found for it. -/
  | skipped (hslot : (q.place W t.expiration).2 = none) :
      Inserted W q p t { q with upperTimerWheels := (q.place W t.expiration).1 }
  /-- It is filed in a slot. -/
  | filed {slot : Slot} {queue : NodeList BucketRef} {table : BucketRef → Option ℕ}
      {fd : Option Timerfd} {next : ℕ} (hslot : (q.place W t.expiration).2 = some slot)
      (hid : 0 ≤ slot.bucket.id) (hq : Requeued q slot queue table next) :
      Inserted W q p t { q.pushTimer slot p with
        upperTimerWheels := (q.place W t.expiration).1
        delayQueue := queue
        delayHashTable := table
        timerfd := fd
        nextNode := next }

/-- A timer is filed in a bucket that exists without a fault. -/
theorem fileTimer_eq (hl : Linked q.delayQueue q.delayHashTable q.nextNode) (p : ℕ)
    (hid : 0 ≤ slot.bucket.id) :
    ∃ queue table fd next, q.fileTimer W slot p = .ok { q.pushTimer slot p with
        delayQueue := queue
        delayHashTable := table
        timerfd := fd
        nextNode := next } ∧ Requeued q slot queue table next := by
  have hpush : Linked (q.pushTimer slot p).delayQueue (q.pushTimer slot p).delayHashTable
      (q.pushTimer slot p).nextNode := hl.mono (Nat.le_succ _)
  unfold fileTimer
  rw [if_neg (not_lt.mpr hid)]
  split_ifs with htime
  -- the time of the bucket is the old one, and the queue is left as it is
  · exact ⟨_, _, _, _, rfl, hpush, Nat.lt_succ_self _, by rw [if_pos htime]⟩
  -- the bucket is queued anew
  · obtain ⟨queue, fd, hok, hlinked⟩ := updateDelayQueue_eq (W := W) hpush slot.bucket
    exact ⟨_, _, _, _, hok, hlinked, (Nat.lt_succ_self _).trans (Nat.lt_succ_self _),
      by rw [if_neg htime]; rfl⟩

/-- `insert` faults only if the index of the bucket is negative. -/
theorem insert_eq (hl : Linked q.delayQueue q.delayHashTable q.nextNode)
    (ht : q.heap.get? p = some t)
    (hid : ∀ slot, (q.place W t.expiration).2 = some slot → 0 ≤ slot.bucket.id) :
    ∃ q', q.insert W p = .ok (q.isExpired t.expiration, q') ∧ Inserted W q p t q' := by
  cases hslot : (q.place W t.expiration).2 with
  | none =>
    exact ⟨_, by simp [insert, deref_eq ht, hslot, bind, Except.bind, pure, Except.pure],
      .skipped hslot⟩
  | some slot =>
    obtain ⟨queue, table, fd, next, hok, hq⟩ := fileTimer_eq (W := W)
      (q := { q with upperTimerWheels := (q.place W t.expiration).1 }) hl p (hid slot hslot)
    have hfiled : Inserted W q p t { q.pushTimer slot p with
        upperTimerWheels := (q.place W t.expiration).1
        delayQueue := queue
        delayHashTable := table
        timerfd := fd
        nextNode := next } :=
      .filed hslot (hid slot hslot) ⟨hq.linked, hq.lt_next, hq.table_eq⟩
    refine ⟨_, ?_, hfiled⟩
    simp only [insert, deref_eq ht, hslot, hok, bind, Except.bind, pure, Except.pure]
    rfl

theorem insert_ok (hl : Linked q.delayQueue q.delayHashTable q.nextNode) {expired : Bool}
    (h : q.insert W p = .ok (expired, q')) :
    ∃ t, q.heap.get? p = some t ∧ expired = q.isExpired t.expiration ∧ Inserted W q p t q' := by
  cases ht : q.heap.get? p with
  | none => simp [insert, deref, ht, bind, Except.bind] at h
  | some t =>
    -- a bucket with a negative index would have been a fault
    have hid : ∀ slot, (q.place W t.expiration).2 = some slot → 0 ≤ slot.bucket.id := by
      intro slot hslot
      by_contra hneg
      simp [insert, deref_eq ht, hslot, fileTimer, not_le.mp hneg, bind, Except.bind] at h
    obtain ⟨q₁, hok, hins⟩ := insert_eq hl ht hid
    obtain ⟨rfl, rfl⟩ := Prod.mk.inj (Except.ok.inj (h.symm.trans hok))
    exact ⟨t, rfl, rfl, hins⟩

/-- An expired timer is not filed. -/
theorem Inserted.of_isExpired (h : Inserted W q p t q')
    (hticks : TicksPos q.timerWheel q.upperTimerWheels) (hexp : q.isExpired t.expiration = true) :
    q' = { q with upperTimerWheels := (q.place W t.expiration).1 } := by
  have hnone : (q.place W t.expiration).2 = none := by
    unfold place
    rw [place_eq W.two_le_wheelSize hticks, if_pos (of_decide_eq_true hexp)]
  cases h with
  | skipped hslot => rfl
  | filed hslot hid hq =>
    rw [hnone] at hslot
    cases hslot

/-! ## Where the timers are -/

theorem Placed.congr (h : Placed q l) (hb : q'.buckets = q.buckets)
    (ht : q'.timerHashTable = q.timerHashTable) (hh : q'.heap = q.heap)
    (hf : q'.functors = q.functors) (ha : q'.adding = q.adding) (hn : q.nextNode ≤ q'.nextNode) :
    Placed q' l := by
  obtain ⟨h₁, h₂, h₃, h₄, h₅, h₆, h₇, h₈, h₉, h₁₀⟩ := h
  refine ⟨?_, ?_, ?_, ?_, fun hp => ?_, ?_, ?_, ?_, h₉, ?_⟩ <;> simp only [hb, ht, hh, hf, ha] at *
  · exact h₁
  · exact h₂
  · exact h₃
  · exact h₄
  · exact (h₅ hp).trans_le hn
  · exact h₆
  · exact h₇
  · exact h₈
  · exact h₁₀

/-- Some of the held timers, in another order. -/
theorem Placed.subperm {l' : List ℕ} (h : Placed q l) (hl : l'.Subperm l) : Placed q l' :=
  { h with
    held_live := fun hp => h.held_live (hl.subset hp)
    held_nodup := by
      obtain ⟨l'', hperm, hsub⟩ := hl
      exact hperm.nodup_iff.mp (h.held_nodup.sublist hsub) }

/-- A timer in a bucket is in one place only. -/
theorem Placed.filed_unique (h : Placed q l) {b c : BucketRef} {n m : ℕ}
    (hb : (n, p) ∈ (q.buckets b).timers) (hc : (m, p) ∈ (q.buckets c).timers) : b = c ∧ n = m := by
  have heq := (h.filed hb).symm.trans (h.filed hc)
  exact Prod.mk.inj (Option.some.inj heq)

/-- A timer in a bucket is not bound in a functor. -/
theorem Placed.not_bound (h : Placed q l) {b : BucketRef} {n : ℕ}
    (hn : (n, p) ∈ (q.buckets b).timers) : p ∉ q.functors := by
  intro hbound
  have hnone := (h.bound hbound).2
  rw [h.filed hn] at hnone
  cases hnone

theorem Placed.values_nodup (h : Placed q l) (b : BucketRef) :
    (q.buckets b).timers.values.Nodup := by
  refine List.Nodup.map_on ?_ (h.nodup b)
  rintro ⟨n, p⟩ hn ⟨m, r⟩ hm (rfl : p = r)
  rw [(h.filed_unique hn hm).2]

/-- The timer objects may change as long as none is deleted. -/
theorem Placed.heap {h' : Heap Timer} (h : Placed q l)
    (hlive : ∀ {p}, (∃ t, q.heap.get? p = some t) → ∃ t, h'.get? p = some t) :
    Placed { q with heap := h' } l :=
  { h with
    hash_live := fun hp => hlive (h.hash_live hp)
    bound := fun hp => ⟨hlive (h.bound hp).1, (h.bound hp).2⟩
    held_live := fun hp => ⟨hlive (h.held_live hp).1, (h.held_live hp).2⟩ }

theorem Placed.modify {f : Timer → Timer} (h : Placed q l) :
    Placed { q with heap := q.heap.modify p f } l := by
  refine h.heap fun {r} ⟨t, ht⟩ => ?_
  rw [Heap.get?_modify]
  split_ifs with hr
  · exact ⟨f t, by rw [← hr, ht]; rfl⟩
  · exact ⟨t, ht⟩

theorem Placed.addTimer (h : Placed q l) (when_ : ℤ) (interval : Double)
    (hp : q.heap.cell p = none) : Placed (q.addTimer p when_ interval) l := by
  have hfree : q.heap.get? p = none := Heap.get?_eq_none.mpr hp
  have hne : ∀ {r}, (∃ t, q.heap.get? r = some t) → r ≠ p := by
    rintro r ⟨t, ht⟩ rfl
    rw [hfree] at ht
    cases ht
  have hlive : ∀ {r}, (∃ t, q.heap.get? r = some t) →
      ∃ t, (q.heap.alloc p (Timer.create when_ interval q.numCreated) hp).get? r = some t := by
    intro r hr
    obtain ⟨t, ht⟩ := hr
    rw [Heap.get?_alloc, if_neg (hne ⟨t, ht⟩)]
    exact ⟨t, ht⟩
  -- the table has entries of living timers only
  have hhash : q.timerHashTable p = none := by
    by_contra hsome
    obtain ⟨x, hx⟩ := Option.ne_none_iff_exists'.mp hsome
    exact hne (h.hash_live hx) rfl
  have hold := h.heap hlive
  simp only [TimerWheel.addTimer, hp, dite_true]
  refine { hold with bound := fun {r} hr => ?_, bound_nodup := ?_, held_live := fun {r} hr => ?_ }
  · rcases List.mem_cons.mp hr with rfl | hr
    · exact ⟨⟨_, by rw [Heap.get?_alloc, if_pos rfl]⟩, hhash⟩
    · exact hold.bound hr
  · exact List.nodup_cons.mpr ⟨fun hmem => hne (h.bound hmem).1 rfl, h.bound_nodup⟩
  · obtain ⟨hr₁, hr₂, hr₃⟩ := hold.held_live hr
    refine ⟨hr₁, fun hmem => ?_, hr₃⟩
    rcases List.mem_cons.mp hmem with hmem | hmem
    · exact hne (h.held_live hr).1 hmem
    · exact hr₂ hmem

/-- A functor starts: its timer is now held. -/
theorem Placed.unbind (h : Placed q l) (hp : p ∈ q.functors) :
    Placed { q with functors := q.functors.erase p } (p :: l) := by
  have hunfiled : ∀ b n, (n, p) ∉ (q.buckets b).timers := by
    intro b n hmem
    have hfiled := h.filed hmem
    rw [(h.bound hp).2] at hfiled
    cases hfiled
  refine { h with
    bound := fun hr => h.bound (List.mem_of_mem_erase hr)
    bound_nodup := h.bound_nodup.erase p
    held_live := fun {r} hr => ?_
    held_nodup := List.nodup_cons.mpr ⟨fun hmem => (h.held_live hmem).2.1 hp, h.held_nodup⟩ }
  rcases List.mem_cons.mp hr with rfl | hr
  · exact ⟨(h.bound hp).1, fun hmem => ((h.bound_nodup.mem_erase_iff).mp hmem).1 rfl, hunfiled⟩
  · obtain ⟨hr₁, hr₂, hr₃⟩ := h.held_live hr
    exact ⟨hr₁, fun hmem => hr₂ (List.mem_of_mem_erase hmem), hr₃⟩

theorem mem_pushTimer {b : BucketRef} {n r : ℕ} :
    (n, r) ∈ ((q.pushTimer slot p).buckets b).timers ↔
      (n, r) ∈ (q.buckets b).timers ∨ b = slot.bucket ∧ n = q.nextNode ∧ r = p := by
  simp only [pushTimer]
  by_cases hb : b = slot.bucket
  · subst hb
    rw [Function.update_self, List.mem_append, List.mem_singleton, Prod.mk.injEq]
    simp
  · rw [Function.update_of_ne hb]
    simp [hb]

theorem table_pushTimer {r : ℕ} {b : BucketRef} {n : ℕ} :
    (q.pushTimer slot p).timerHashTable r = some (b, n) ↔
      r = p ∧ b = slot.bucket ∧ n = q.nextNode ∨
        r ≠ p ∧ q.timerHashTable r = some (b, n) := by
  rw [← Prod.mk.injEq]
  exact update_some_eq_some

/-- A held timer is filed in a slot. -/
theorem Placed.pushTimer (h : Placed q (p :: l)) (hadd : p ∉ q.adding) (slot : Slot) :
    Placed (q.pushTimer slot p) l := by
  obtain ⟨hlive, hbound, hunfiled⟩ := h.held_live List.mem_cons_self
  have htable : ∀ {r}, r ≠ p → (q.pushTimer slot p).timerHashTable r = q.timerHashTable r :=
    fun hr => Function.update_of_ne hr _ _
  -- the new node is newer than every node the table knows
  have hnew : ∀ {r b}, q.timerHashTable r ≠ some (b, q.nextNode) := fun hr =>
    absurd (h.hash_lt hr) (lt_irrefl _)
  have hl := List.nodup_cons.mp h.held_nodup
  constructor
  -- the entry of a filed timer is the old one, or the new one
  case filed =>
    intro b n r hr
    rcases mem_pushTimer.mp hr with hold | ⟨rfl, rfl, rfl⟩
    · have hrp : r ≠ p := by
        rintro rfl
        exact hunfiled b n hold
      exact table_pushTimer.mpr (.inr ⟨hrp, h.filed hold⟩)
    · exact table_pushTimer.mpr (.inl ⟨rfl, rfl, rfl⟩)
  case nodup =>
    intro b
    simp only [TimerWheel.pushTimer]
    by_cases hb : b = slot.bucket
    · subst hb
      rw [Function.update_self, List.nodup_append]
      refine ⟨h.nodup _, List.nodup_singleton _, ?_⟩
      rintro x hx y hy rfl
      obtain rfl := List.mem_singleton.mp hy
      exact hunfiled _ _ hx
    · rw [Function.update_of_ne hb]
      exact h.nodup b
  case hash_live =>
    rintro r ⟨b, n⟩ hr
    rcases table_pushTimer.mp hr with ⟨rfl, -, -⟩ | ⟨-, hr⟩
    · exact hlive
    · exact h.hash_live hr
  -- the new node is in no other entry
  case hash_inj =>
    intro r s b c n hr hs
    rcases table_pushTimer.mp hr with ⟨rfl, -, rfl⟩ | ⟨-, hr⟩
    · rcases table_pushTimer.mp hs with ⟨rfl, -, -⟩ | ⟨-, hs⟩
      · rfl
      · exact absurd hs hnew
    · rcases table_pushTimer.mp hs with ⟨-, -, rfl⟩ | ⟨-, hs⟩
      · exact absurd hr hnew
      · exact h.hash_inj hr hs
  case hash_lt =>
    intro r b n hr
    rcases table_pushTimer.mp hr with ⟨-, -, rfl⟩ | ⟨-, hr⟩
    · exact Nat.lt_succ_self _
    · exact (h.hash_lt hr).trans (Nat.lt_succ_self _)
  -- a bound timer is not held, so it is another one
  case bound =>
    intro r hr
    have hrp : r ≠ p := fun heq => hbound (heq ▸ hr)
    rw [htable hrp]
    exact h.bound hr
  case bound_nodup => exact h.bound_nodup
  -- the other held timers are still in no bucket
  case held_live =>
    intro r hr
    obtain ⟨hr₁, hr₂, hr₃⟩ := h.held_live (List.mem_cons_of_mem _ hr)
    refine ⟨hr₁, hr₂, fun b n hmem => ?_⟩
    rcases mem_pushTimer.mp hmem with hmem | ⟨-, -, rfl⟩
    · exact hr₃ b n hmem
    · exact hl.1 hr
  case held_nodup => exact hl.2
  case adding_hash =>
    intro r hr
    have hrp : r ≠ p := fun heq => hadd (heq ▸ hr)
    rw [htable hrp]
    exact h.adding_hash hr

/-- After `insert` the timer is not held any more. -/
theorem Placed.inserted (h : Placed q (p :: l)) (hadd : p ∉ q.adding)
    (hins : Inserted W q p t q') : Placed q' l := by
  cases hins with
  | skipped hslot =>
    exact (h.subperm (List.sublist_cons_self p l).subperm).congr rfl rfl rfl rfl rfl le_rfl
  | filed hslot hid hq =>
    exact (h.pushTimer hadd _).congr rfl rfl rfl rfl rfl hq.lt_next

/-- A held timer is deleted, and its entry in the table too. -/
theorem Placed.delete {h' : Heap Timer} (h : Placed q (p :: l))
    (hd : q.heap.delete p = some h') :
    Placed { q with timerHashTable := Function.update q.timerHashTable p none, heap := h' } l := by
  obtain ⟨-, hbound, hunfiled⟩ := h.held_live List.mem_cons_self
  have hl := List.nodup_cons.mp h.held_nodup
  have hlive : ∀ {r}, r ≠ p → (∃ t, q.heap.get? r = some t) → ∃ t, h'.get? r = some t := by
    rintro r hr ⟨t, ht⟩
    exact ⟨t, (Heap.get?_eq_some_of_delete hd).mpr ⟨hr, ht⟩⟩
  have htable : ∀ {r x}, Function.update q.timerHashTable p none r = some x →
      r ≠ p ∧ q.timerHashTable r = some x := update_none_eq_some.mp
  constructor
  -- a held timer is in no bucket, so the timers in the buckets are others
  case filed =>
    intro b n r hr
    have hrp : r ≠ p := by
      rintro rfl
      exact hunfiled b n hr
    exact (Function.update_of_ne hrp _ _).trans (h.filed hr)
  case nodup => exact h.nodup
  -- the entries that are left are of other timers
  case hash_live => exact fun hr => hlive (htable hr).1 (h.hash_live (htable hr).2)
  case hash_inj => exact fun hr hs => h.hash_inj (htable hr).2 (htable hs).2
  case hash_lt => exact fun hr => h.hash_lt (htable hr).2
  case bound =>
    intro r hr
    have hrp : r ≠ p := fun heq => hbound (heq ▸ hr)
    exact ⟨hlive hrp (h.bound hr).1, (Function.update_of_ne hrp _ _).trans (h.bound hr).2⟩
  case bound_nodup => exact h.bound_nodup
  -- a timer is held once
  case held_live =>
    intro r hr
    have hrp : r ≠ p := fun heq => hl.1 (heq ▸ hr)
    obtain ⟨hr₁, hr₂⟩ := h.held_live (List.mem_cons_of_mem _ hr)
    exact ⟨hlive hrp hr₁, hr₂⟩
  case held_nodup => exact hl.2
  case adding_hash =>
    intro r hr
    by_cases hrp : r = p
    · subst hrp
      exact Function.update_self _ _ _
    · exact (Function.update_of_ne hrp _ _).trans (h.adding_hash hr)

/-- The nodes of a bucket leave it: their timers are now held. -/
theorem Placed.popBucket (h : Placed q l) (b : BucketRef) (rest : NodeList BucketRef) :
    Placed (q.popBucket b rest) (l ++ (q.buckets b).timers.values) := by
  have hmem : ∀ {c x}, x ∈ ((q.popBucket b rest).buckets c).timers ↔
      c ≠ b ∧ x ∈ (q.buckets c).timers := by
    intro c x
    show x ∈ ((q.setTimers b []).buckets c).timers ↔ _
    rw [timers_setTimers]
    split_ifs with hc <;> simp [hc]
  constructor
  -- a timer in another bucket is where it was
  case filed => exact fun hr => h.filed (hmem.mp hr).2
  case nodup =>
    intro c
    show ((q.setTimers b []).buckets c).timers.Nodup
    rw [timers_setTimers]
    split_ifs
    · exact List.nodup_nil
    · exact h.nodup c
  case hash_live => exact h.hash_live
  case hash_inj => exact h.hash_inj
  case hash_lt => exact h.hash_lt
  case bound => exact h.bound
  case bound_nodup => exact h.bound_nodup
  -- a timer that leaves the bucket is in no other one
  case held_live =>
    intro r hr
    rcases List.mem_append.mp hr with hr | hr
    · obtain ⟨hr₁, hr₂, hr₃⟩ := h.held_live hr
      exact ⟨hr₁, hr₂, fun c n hn => hr₃ c n (hmem.mp hn).2⟩
    · obtain ⟨n, hn⟩ := NodeList.mem_values.mp hr
      refine ⟨h.hash_live (h.filed hn), h.not_bound hn, fun c m hm => ?_⟩
      exact (hmem.mp hm).1 (h.filed_unique (hmem.mp hm).2 hn).1
  -- a held timer was in no bucket
  case held_nodup =>
    refine List.nodup_append.mpr ⟨h.held_nodup, h.values_nodup b, ?_⟩
    rintro r hr s hs rfl
    obtain ⟨n, hn⟩ := NodeList.mem_values.mp hs
    exact (h.held_live hr).2.2 b n hn
  case adding_hash => exact h.adding_hash

/-- The node of a timer leaves its bucket: the timer is now held. -/
theorem Placed.eraseNode (h : Placed q l) {b : BucketRef} {n : ℕ} {timers : NodeList ℕ}
    (hmem : (n, p) ∈ (q.buckets b).timers)
    (he : (q.buckets b).timers.eraseNode n = some timers) :
    Placed (q.setTimers b timers) (p :: l) := by
  have hsub : ∀ {c x}, x ∈ ((q.setTimers b timers).buckets c).timers →
      x ∈ (q.buckets c).timers ∧ x ≠ (n, p) := by
    intro c x hx
    rw [timers_setTimers] at hx
    split_ifs at hx with hc
    · subst hc
      obtain ⟨hx, hne⟩ := (NodeList.mem_of_eraseNode he).mp hx
      exact ⟨hx, fun heq => hne (heq ▸ rfl)⟩
    · refine ⟨hx, ?_⟩
      rintro rfl
      exact hc (h.filed_unique hx hmem).1
  -- the timer was at one node only, so it is in no bucket any more
  refine { h with
    filed := fun hx => h.filed (hsub hx).1
    nodup := fun c => ?_
    held_live := fun {r} hr => ?_
    held_nodup := List.nodup_cons.mpr ⟨fun hp => (h.held_live hp).2.2 b n hmem, h.held_nodup⟩ }
  · rw [timers_setTimers]
    split_ifs with hc
    · exact (h.nodup b).sublist (NodeList.sublist_of_eraseNode he)
    · exact h.nodup c
  · rcases List.mem_cons.mp hr with rfl | hr
    · refine ⟨h.hash_live (h.filed hmem), h.not_bound hmem, fun c m hm => ?_⟩
      obtain ⟨hm, hne⟩ := hsub hm
      exact hne (by rw [(h.filed_unique hm hmem).2])
    · obtain ⟨hr₁, hr₂, hr₃⟩ := h.held_live hr
      exact ⟨hr₁, hr₂, fun c m hm => hr₃ c m (hsub hm).1⟩

/-! ## What the member functions do -/

theorem addTimerInLoop_ok (hl : Linked q.delayQueue q.delayHashTable q.nextNode)
    (h : q.addTimerInLoop W p = .ok q') :
    ∃ t q₁, q.heap.get? p = some t ∧
      Inserted W { q with functors := q.functors.erase p } p t q₁ ∧
      q' = if q.isExpired t.expiration then { q₁ with adding := p :: q₁.adding } else q₁ := by
  unfold addTimerInLoop at h
  cases hins : { q with functors := q.functors.erase p }.insert W p with
  | error f => simp [hins, bind, Except.bind] at h
  | ok r =>
    obtain ⟨expired, q₁⟩ := r
    obtain ⟨t, ht, hexp, hi⟩ :=
      insert_ok (q := { q with functors := q.functors.erase p }) hl hins
    refine ⟨t, q₁, ht, hi, ?_⟩
    obtain rfl : expired = q.isExpired t.expiration := hexp
    simp only [hins, bind, Except.bind] at h
    split at h <;> obtain rfl := Except.ok.inj h <;> simp_all

/-- A restarted timer is inserted; the expired flag that `insert` returns is dropped. -/
theorem insert_restarted_ok (hl : Linked q.delayQueue q.delayHashTable q.nextNode) {now : ℤ}
    (ht : q.heap.get? p = some t)
    (h : ({ q with heap := q.heap.modify p (Timer.restart now) }.insert W p >>=
      fun r => pure r.2) = .ok q') :
    Inserted W { q with heap := q.heap.modify p (Timer.restart now) } p (t.restart now) q' := by
  cases hins : { q with heap := q.heap.modify p (Timer.restart now) }.insert W p with
  | error f => simp [hins, bind, Except.bind] at h
  | ok r =>
    obtain ⟨u, hu, -, hi⟩ :=
      insert_ok (q := { q with heap := q.heap.modify p (Timer.restart now) }) hl hins
    rw [hins] at h
    obtain rfl := Except.ok.inj h
    have hget : (q.heap.modify p (Timer.restart now)).get? p = some (t.restart now) := by
      rw [Heap.get?_modify, if_pos rfl, ht, Option.map_some]
    obtain rfl := Option.some.inj (hu.symm.trans hget)
    exact hi

theorem finishAdd_ok (hl : Linked q.delayQueue q.delayHashTable q.nextNode) {rest : List ℕ}
    (hadd : q.adding = p :: rest) (h : q.finishAdd W = .ok q') :
    ∃ t, q.heap.get? p = some t ∧
      (t.repeat_ = true ∧ Inserted W
          { q with adding := rest, heap := q.heap.modify p (Timer.restart q.clock) } p
          (t.restart q.clock) q' ∨
        t.repeat_ = false ∧ ∃ h', q.heap.delete p = some h' ∧
          q' = { q with adding := rest, heap := h' }) := by
  unfold finishAdd at h
  rw [hadd] at h
  cases ht : q.heap.get? p with
  | none => simp [deref, ht, bind, Except.bind] at h
  | some t =>
    refine ⟨t, rfl, ?_⟩
    simp only [deref, ht] at h
    cases hrep : t.repeat_ with
    | true =>
      refine .inl ⟨rfl, ?_⟩
      have h' : ({ q with adding := rest, heap := q.heap.modify p (Timer.restart q.clock) }.insert
          W p >>= fun r => pure r.2) = .ok q' := by
        simpa [hrep, bind, Except.bind] using h
      exact insert_restarted_ok (q := { q with adding := rest }) hl ht h'
    | false =>
      obtain ⟨h', hd⟩ := exists_delete ht
      have heq : ({ q with adding := rest } : TimerWheel).deleteTimer p = .ok q' := by
        simpa [hrep, bind, Except.bind] using h
      rw [deleteTimer_eq (q := { q with adding := rest }) hd] at heq
      exact .inr ⟨rfl, h', hd, (Except.ok.inj heq).symm⟩

theorem reinsertNext_ok (hl : Linked q.delayQueue q.delayHashTable q.nextNode) {now : ℤ}
    {rest : List ℕ} (hf : q.frame = some (.reinserting now (p :: rest)))
    (h : q.reinsertNext W = .ok q') :
    ∃ t, q.heap.get? p = some t ∧
      (t.repeat_ = true ∧ Inserted W
          { q with
            frame := some (.reinserting now rest)
            heap := q.heap.modify p (Timer.restart now) } p (t.restart now) q' ∨
        t.repeat_ = false ∧ ∃ h', q.heap.delete p = some h' ∧
          q' = { q with
            frame := some (.reinserting now rest)
            timerHashTable := Function.update q.timerHashTable p none
            heap := h' }) := by
  unfold reinsertNext at h
  rw [hf] at h
  cases ht : q.heap.get? p with
  | none => simp [deref, ht, bind, Except.bind] at h
  | some t =>
    refine ⟨t, rfl, ?_⟩
    simp only [deref, ht] at h
    cases hrep : t.repeat_ with
    | true =>
      refine .inl ⟨rfl, ?_⟩
      have h' : ({ q with
          frame := some (.reinserting now rest)
          heap := q.heap.modify p (Timer.restart now) }.insert W p >>= fun r => pure r.2) =
          .ok q' := by
        simpa [hrep, bind, Except.bind] using h
      exact insert_restarted_ok (q := { q with frame := some (.reinserting now rest) }) hl ht h'
    | false =>
      obtain ⟨h', hd⟩ := exists_delete ht
      have heq : ({ q with
          frame := some (.reinserting now rest)
          timerHashTable := Function.update q.timerHashTable p none } : TimerWheel).deleteTimer p =
          .ok q' := by
        simpa [hrep, bind, Except.bind] using h
      refine .inr ⟨rfl, h', hd, ?_⟩
      simpa only [deleteTimer, hd, Except.ok.injEq] using heq.symm

/-- A cancel that does not fault has found the timer at its node in its bucket. -/
theorem cancelInLoop_ok {i : TimerId} (h : q.cancelInLoop i = .ok q') :
    ∃ b n timers h', q.timerHashTable i.timer = some (b, n) ∧
      (q.buckets b).timers.eraseNode n = some timers ∧ q.heap.delete i.timer = some h' ∧
      q' = { q.setTimers b timers with
        timerHashTable := Function.update q.timerHashTable i.timer none
        heap := h' } := by
  unfold cancelInLoop at h
  split at h
  · cases h
  · next b n htable =>
    split at h
    · cases h
    · next timers he =>
      simp only [deleteTimer] at h
      split at h
      · next h' hd => exact ⟨b, n, timers, h', htable, he, hd, (Except.ok.inj h).symm⟩
      · cases h

/-- The step of a cancel: the timer that lived at the address is noted as cancelled. -/
theorem cancel_step_ok {n : ℕ} (h : q.step W (.cancelInLoop n) = .ok q')
    (hn : n < q.created.length) :
    ∃ c q₁, q.created[n]? = some c ∧ q.cancelInLoop (addTimerId c.1) = .ok q₁ ∧
      q' = { q₁ with cancelled := q.cancelled ++ ((q.heap.cell c.1).map Prod.fst).toList } := by
  -- the number is one of a created timer
  obtain ⟨c, hc⟩ : ∃ c, q.created[n]? = some c := ⟨_, List.getElem?_eq_getElem hn⟩
  simp only [step, hc] at h
  cases hcancel : q.cancelInLoop (addTimerId c.1) with
  | error f => simp [hcancel, bind, Except.bind] at h
  | ok q₁ =>
    refine ⟨c, q₁, hc, hcancel, ?_⟩
    simpa [hcancel, bind, Except.bind, pure, Except.pure] using h.symm

/-! ## The loop of `getExpired` -/

/-- A queued bucket has expired. -/
def due (q : TimerWheel) (now : ℤ) (d : ℕ × BucketRef) : Bool :=
  (q.buckets d.2).expirationTime < now

/-- The timers of some buckets of the queue. -/
def timersOf (q : TimerWheel) (queue : NodeList BucketRef) : NodeList ℕ :=
  queue.flatMap fun d => (q.buckets d.2).timers

/-- The wheel without the timers of the buckets that are taken from the queue. -/
def emptied (q : TimerWheel) (taken : NodeList BucketRef) (b : BucketRef) : Bucket :=
  if b ∈ taken.values then { q.buckets b with timers := [] } else q.buckets b

/-- The timers that `handleRead` takes out of the buckets. -/
def expiredTimers (q : TimerWheel) : List ℕ :=
  (q.timersOf (q.delayQueue.takeWhile (q.due q.clock))).values

theorem emptied_nil : q.emptied [] = q.buckets := funext fun _ => if_neg List.not_mem_nil

/-- A bucket that is emptied first is not taken again. -/
theorem emptied_popBucket (d : ℕ × BucketRef) (rest taken : NodeList BucketRef) :
    (q.popBucket d.2 rest).emptied taken = q.emptied (d :: taken) := by
  funext b
  have hcons : NodeList.values (d :: taken) = d.2 :: taken.values := rfl
  simp only [emptied, hcons]
  by_cases hb : b = d.2
  · subst hb
    have hpop : (q.popBucket d.2 rest).buckets d.2 = { q.buckets d.2 with timers := [] } :=
      Function.update_self ..
    rw [hpop, if_pos List.mem_cons_self, ite_self]
  · have hpop : (q.popBucket d.2 rest).buckets b = q.buckets b := Function.update_of_ne hb ..
    have hmem : b ∈ d.2 :: taken.values ↔ b ∈ taken.values := by
      rw [List.mem_cons, or_iff_right hb]
    rw [hpop]
    exact if_congr hmem.symm rfl rfl

theorem timersOf_popBucket {d : ℕ × BucketRef} {rest taken : NodeList BucketRef}
    (hd : d.2 ∉ taken.values) : (q.popBucket d.2 rest).timersOf taken = q.timersOf taken := by
  refine List.flatMap_congr fun x hx => ?_
  have hne : x.2 ≠ d.2 := fun heq => hd (heq ▸ List.mem_map_of_mem hx)
  simp only [popBucket, timers_setTimers, if_neg hne]

/-- `getExpired` takes the timers of the expired buckets at the front of the queue. -/
theorem getExpired_eq (now : ℤ) {queue : NodeList BucketRef} :
    ∀ {q : TimerWheel}, q.delayQueue = queue → Linked queue q.delayHashTable q.nextNode →
      ∃ table, getExpired now queue q = (q.timersOf (queue.takeWhile (q.due now)), { q with
          buckets := q.emptied (queue.takeWhile (q.due now))
          delayQueue := queue.dropWhile (q.due now)
          delayHashTable := table }) ∧
        Linked (queue.dropWhile (q.due now)) table q.nextNode ∧
        ∀ b, b ∉ NodeList.values (queue.takeWhile (q.due now)) → table b = q.delayHashTable b := by
  induction queue with
  | nil =>
    intro q hq hl
    refine ⟨q.delayHashTable, Prod.ext rfl ?_, hl, fun _ _ => rfl⟩
    show q = { q with buckets := q.emptied [], delayQueue := [] }
    rw [emptied_nil, ← hq]
  | cons d rest ih =>
    intro q hq hl
    by_cases hlt : (q.buckets d.2).expirationTime < now
    · have hdue : q.due now d := decide_eq_true hlt
      have hsame : (q.popBucket d.2 rest).due now = q.due now := by
        funext x
        simp only [due, popBucket, expirationTime_setTimers]
      obtain ⟨table, hget, hlinked, htable⟩ := ih (q := q.popBucket d.2 rest) rfl hl.tail
      rw [hsame] at hget hlinked htable
      have hd : d.2 ∉ NodeList.values (rest.takeWhile (q.due now)) := fun hmem =>
        (List.nodup_cons.mp hl.values_nodup).1 (((List.takeWhile_sublist _).map _).subset hmem)
      rw [List.takeWhile_cons_of_pos hdue, List.dropWhile_cons_of_pos hdue]
      refine ⟨table, ?_, hlinked, fun b hb => ?_⟩
      · rw [getExpired, if_pos hlt, hget, timersOf_popBucket hd, emptied_popBucket]
        rfl
      · have hne : b ≠ d.2 := List.ne_of_not_mem_cons hb
        exact (htable b (List.not_mem_of_not_mem_cons hb)).trans (Function.update_of_ne hne ..)
    · have hdue : ¬q.due now d := by simpa [due] using hlt
      rw [List.takeWhile_cons_of_neg hdue, List.dropWhile_cons_of_neg hdue]
      refine ⟨q.delayHashTable, ?_, hl, fun _ _ => rfl⟩
      rw [getExpired, if_neg hlt, emptied_nil, ← hq]
      rfl

/-- The timers of the buckets that are emptied are held afterwards. -/
theorem Placed.emptied {taken : NodeList BucketRef} (hnodup : taken.values.Nodup) :
    ∀ {q : TimerWheel} {l : List ℕ}, Placed q l →
      Placed { q with buckets := q.emptied taken } (l ++ (q.timersOf taken).values) := by
  induction taken with
  | nil =>
    intro q l h
    rw [emptied_nil]
    exact (List.append_nil l).symm ▸ h
  | cons d taken ih =>
    intro q l h
    obtain ⟨hd, hrest⟩ := List.nodup_cons.mp hnodup
    have hpop := ih hrest (h.popBucket d.2 q.delayQueue)
    -- the timers of this bucket come before those of the later ones
    have hvalues : l ++ (q.timersOf (d :: taken)).values =
        l ++ (q.buckets d.2).timers.values ++ (q.timersOf taken).values := by
      rw [List.append_assoc]
      exact congrArg (l ++ ·) List.map_append
    rw [timersOf_popBucket hd, emptied_popBucket] at hpop
    rw [hvalues]
    exact hpop.congr rfl rfl rfl rfl rfl le_rfl

/-! ## The phases of `handleRead` -/

theorem frame_of_idle (h : q.phase = .idle) : q.frame = none := by
  unfold phase at h
  split at h <;> simp_all

theorem exists_frame_of_run (h : q.phase = .run) :
    ∃ now expired p rest, q.frame = some (.running now expired (p :: rest)) := by
  unfold phase at h
  split at h
  case h_2 now expired p rest hf => exact ⟨now, expired, p, rest, hf⟩
  all_goals cases h

theorem exists_frame_of_advance (h : q.phase = .advance) :
    ∃ now expired, q.frame = some (.running now expired []) := by
  unfold phase at h
  split at h
  case h_3 now expired hf => exact ⟨now, expired, hf⟩
  all_goals cases h

theorem exists_frame_of_reinsert (h : q.phase = .reinsert) :
    ∃ now p rest, q.frame = some (.reinserting now (p :: rest)) := by
  unfold phase at h
  split at h
  case h_4 now p rest hf => exact ⟨now, p, rest, hf⟩
  all_goals cases h

theorem exists_frame_of_finish (h : q.phase = .finish) :
    ∃ now, q.frame = some (.reinserting now []) := by
  unfold phase at h
  split at h
  case h_5 now hf => exact ⟨now, hf⟩
  all_goals cases h

theorem runNext_eq {now : ℤ} {expired rest : List ℕ} {c : ℕ × Timer}
    (hf : q.frame = some (.running now expired (p :: rest))) (hc : q.heap.cell p = some c) :
    q.runNext = .ok { q with
      frame := some (.running now expired rest)
      ran := q.ran ++ [{ serial := c.1, expiration := c.2.expiration, now }] } := by
  unfold runNext
  rw [hf]
  simp only [hc]

theorem runNext_ok {now : ℤ} {expired rest : List ℕ}
    (hf : q.frame = some (.running now expired (p :: rest))) (h : q.runNext = .ok q') :
    ∃ c, q.heap.cell p = some c ∧ q' = { q with
      frame := some (.running now expired rest)
      ran := q.ran ++ [{ serial := c.1, expiration := c.2.expiration, now }] } := by
  cases hc : q.heap.cell p with
  | none => simp [runNext, hf, hc] at h
  | some c => exact ⟨c, rfl, (Except.ok.inj ((runNext_eq hf hc).symm.trans h)).symm⟩

theorem advance_eq {now : ℤ} {expired todo : List ℕ}
    (hf : q.frame = some (.running now expired todo)) :
    q.advance = { q with
      timerWheel := (q.timerWheel.advanceClock now q.upperTimerWheels).1
      upperTimerWheels := (q.timerWheel.advanceClock now q.upperTimerWheels).2
      frame := some (.reinserting now expired) } := by
  unfold advance
  rw [hf]

/-- The end of `handleRead` sets the descriptor and nothing else. -/
theorem finish_eq (q : TimerWheel) : ∃ fd, q.finish = { q with frame := none, timerfd := fd } := by
  unfold finish
  simp only
  split
  · split
    · exact ⟨_, rfl⟩
    · exact ⟨_, rfl⟩
  · exact ⟨_, rfl⟩

/-! ## Every step keeps the invariant -/

theorem batch_of_frame_eq (h : q'.frame = q.frame) : q'.batch = q.batch := by
  unfold batch
  rw [h]

theorem Inv.init (W : WheelConfig) (clock : ℤ) (numCreated : BitVec 64) :
    Inv (init W clock numCreated) := by
  refine ⟨?_, ⟨fun {n b} => ?_, List.nodup_nil, fun h => nomatch h⟩, ?_, fun h => nomatch h⟩
  · exact {
      filed := fun h => nomatch h
      nodup := fun _ => List.nodup_nil
      hash_live := fun h => nomatch h
      hash_inj := fun h => nomatch h
      hash_lt := fun h => nomatch h
      bound := fun h => nomatch h
      bound_nodup := List.nodup_nil
      held_live := fun h => nomatch h
      held_nodup := List.nodup_nil
      adding_hash := fun h => nomatch h }
  · exact ⟨(fun h => nomatch h), fun h => nomatch h⟩
  · intro v hv
    obtain rfl := List.mem_singleton.mp hv
    exact W.tick_pos

theorem Inserted.ticks (h : Inserted W q p t q')
    (hticks : TicksPos q.timerWheel q.upperTimerWheels) :
    TicksPos q'.timerWheel q'.upperTimerWheels := by
  have hplace : TicksPos q.timerWheel (q.place W t.expiration).1 :=
    ticksPos_climb W.two_le_wheelSize hticks
  cases h with
  | skipped => exact hplace
  | filed => exact hplace

theorem Inserted.linked (h : Inserted W q p t q')
    (hl : Linked q.delayQueue q.delayHashTable q.nextNode) :
    Linked q'.delayQueue q'.delayHashTable q'.nextNode := by
  cases h with
  | skipped => exact hl
  | filed _ _ hq => exact hq.linked

/-- What `insert` leaves as it is. -/
theorem Inserted.same (h : Inserted W q p t q') :
    q'.frame = q.frame ∧ q'.adding = q.adding ∧ q'.heap = q.heap ∧ q'.functors = q.functors ∧
      q'.created = q.created ∧ q'.cancelled = q.cancelled ∧ q'.ran = q.ran ∧
      q'.clock = q.clock ∧ q'.timerWheel = q.timerWheel := by
  cases h <;> exact ⟨rfl, rfl, rfl, rfl, rfl, rfl, rfl, rfl, rfl⟩

theorem inv_addTimerInLoop (hi : Inv q) (hp : p ∈ q.functors)
    (hs : q.addTimerInLoop W p = .ok q') : Inv q' := by
  obtain ⟨t, q₁, -, hins, rfl⟩ := addTimerInLoop_ok hi.linked hs
  have hpl := hi.placed.unbind hp
  have hadd : p ∉ q.adding := fun hmem =>
    (hi.placed.held_live (List.mem_append_right _ hmem)).2.1 hp
  split_ifs with hexp
  · -- the timer is not filed, and its callback starts
    obtain rfl := hins.of_isExpired hi.ticks hexp
    have hmiddle : (q.batch ++ p :: q.adding).Subperm (p :: q.held) := List.perm_middle.subperm
    refine ⟨?_, hi.linked, hins.ticks hi.ticks, hi.todo⟩
    refine { (hpl.subperm hmiddle).congr rfl rfl rfl rfl rfl le_rfl with
      adding_hash := fun {r} hr => ?_ }
    rcases List.mem_cons.mp hr with rfl | hr
    · exact (hi.placed.bound hp).2
    · exact hi.placed.adding_hash hr
  · obtain ⟨hframe, hadding, -⟩ := hins.same
    refine ⟨?_, hins.linked hi.linked, hins.ticks hi.ticks, fun hf => hi.todo (hframe ▸ hf)⟩
    rw [held, batch_of_frame_eq hframe, hadding]
    exact hpl.inserted hadd hins

theorem inv_finishAdd (hi : Inv q) {rest : List ℕ} (hadd : q.adding = p :: rest)
    (hs : q.finishAdd W = .ok q') : Inv q' := by
  have hnone : q.timerHashTable p = none := hi.placed.adding_hash (hadd ▸ List.mem_cons_self)
  -- the timer of the innermost call is held, and is not so any more
  have hmiddle : (p :: (q.batch ++ rest)).Subperm q.held := by
    rw [held, hadd]
    exact List.perm_middle.symm.subperm
  have hrest : p ∉ rest := by
    have hnodup := (hi.placed.subperm hmiddle).held_nodup
    exact fun hmem => (List.nodup_cons.mp hnodup).1 (List.mem_append_right _ hmem)
  have hpl : Placed { q with adding := rest } (p :: (q.batch ++ rest)) :=
    { hi.placed.subperm hmiddle with
      adding_hash := fun hr => hi.placed.adding_hash (hadd ▸ List.mem_cons_of_mem _ hr) }
  obtain ⟨t, -, ⟨-, hins⟩ | ⟨-, h', hd, rfl⟩⟩ := finishAdd_ok hi.linked hadd hs
  · obtain ⟨hframe, hadding, -⟩ := hins.same
    refine ⟨?_, hins.linked hi.linked, hins.ticks hi.ticks, fun hf => hi.todo (hframe ▸ hf)⟩
    rw [held, batch_of_frame_eq hframe, hadding]
    exact hpl.modify.inserted hrest hins
  · refine ⟨?_, hi.linked, hi.ticks, hi.todo⟩
    -- the timer has no entry that could be left
    have hupdate : Function.update q.timerHashTable p none = q.timerHashTable := by
      rw [← hnone]
      exact Function.update_eq_self p _
    have hdel := hpl.delete hd
    rw [hupdate] at hdel
    exact hdel

theorem inv_reinsertNext (hi : Inv q) {now : ℤ} {rest : List ℕ}
    (hf : q.frame = some (.reinserting now (p :: rest))) (hs : q.reinsertNext W = .ok q') :
    Inv q' := by
  -- the timer is the first of the batch
  have hheld : q.held = p :: (rest ++ q.adding) := by
    rw [held, batch, hf]
    rfl
  have hpl : Placed { q with frame := some (.reinserting now rest) } (p :: (rest ++ q.adding)) :=
    (hheld ▸ hi.placed).congr rfl rfl rfl rfl rfl le_rfl
  have hadd : p ∉ q.adding := fun hmem =>
    (List.nodup_cons.mp hpl.held_nodup).1 (List.mem_append_right _ hmem)
  obtain ⟨t, -, ⟨-, hins⟩ | ⟨-, h', hd, rfl⟩⟩ := reinsertNext_ok hi.linked hf hs
  · obtain ⟨hframe, hadding, -⟩ := hins.same
    refine ⟨?_, hins.linked hi.linked, hins.ticks hi.ticks, fun hf' => ?_⟩
    · rw [held, batch_of_frame_eq hframe, hadding]
      exact hpl.modify.inserted hadd hins
    · rw [hframe] at hf'
      cases hf'
  · exact ⟨hpl.delete hd, hi.linked, hi.ticks, fun hf' => nomatch hf'⟩

theorem inv_cancelInLoop (hi : Inv q) {i : TimerId} (hs : q.cancelInLoop i = .ok q') : Inv q' := by
  obtain ⟨b, n, timers, h', htable, he, hd, rfl⟩ := cancelInLoop_ok hs
  obtain ⟨⟨r, hr⟩, -⟩ := NodeList.eraseNode_eq_some.mp he
  -- the node that is erased is the one of the cancelled timer
  obtain rfl : r = i.timer := hi.placed.hash_inj (hi.placed.filed hr) htable
  refine ⟨?_, hi.linked, hi.ticks, hi.todo⟩
  exact (hi.placed.eraseNode hr he).delete hd

/-- The start of `handleRead`. -/
theorem handleRead_ok (hl : Linked q.delayQueue q.delayHashTable q.nextNode) :
    ∃ table, q.handleRead = { q with
        timerfd := readTimerfd q.timerfd q.clock
        buckets := q.emptied (q.delayQueue.takeWhile (q.due q.clock))
        delayQueue := q.delayQueue.dropWhile (q.due q.clock)
        delayHashTable := table
        frame := some (.running q.clock q.expiredTimers q.expiredTimers) } ∧
      Linked (q.delayQueue.dropWhile (q.due q.clock)) table q.nextNode ∧
      ∀ b, b ∉ NodeList.values (q.delayQueue.takeWhile (q.due q.clock)) →
        table b = q.delayHashTable b := by
  obtain ⟨table, hget, hlinked, htable⟩ := getExpired_eq q.clock
    (q := { q with timerfd := readTimerfd q.timerfd q.clock }) rfl hl
  refine ⟨table, ?_, hlinked, htable⟩
  simp only [handleRead, hget]
  rfl

theorem inv_handleRead (hi : Inv q) (hadd : q.adding = []) (hidle : q.phase = .idle) :
    Inv q.handleRead := by
  obtain ⟨table, hread, hlinked, -⟩ := handleRead_ok hi.linked
  -- nothing is held before, and the batch is all that is held afterwards
  have hheld : q.held = [] := by
    rw [held, batch, frame_of_idle hidle, hadd]
    rfl
  have hnodup : (NodeList.values (q.delayQueue.takeWhile (q.due q.clock))).Nodup :=
    hi.linked.values_nodup.sublist ((List.takeWhile_sublist _).map _)
  have hpl := Placed.emptied hnodup (hheld ▸ hi.placed)
  rw [hread]
  refine ⟨?_, hlinked, hi.ticks, ?_⟩
  · have hbatch : q.expiredTimers ++ q.adding = [] ++ q.expiredTimers := by
      rw [hadd, List.append_nil, List.nil_append]
    show Placed _ (q.expiredTimers ++ q.adding)
    rw [hbatch]
    exact hpl.congr rfl rfl rfl rfl rfl le_rfl
  · rintro now expired todo ⟨⟩
    exact List.suffix_refl _

theorem inv_step {e : Event} (hi : Inv q) (he : q.Enabled e) (hs : q.step W e = .ok q') :
    Inv q' := by
  cases e with
  | tick now =>
    obtain rfl := Except.ok.inj hs
    exact ⟨hi.placed.congr rfl rfl rfl rfl rfl le_rfl, hi.linked, hi.ticks, hi.todo⟩
  | otherTimer =>
    obtain rfl := Except.ok.inj hs
    exact ⟨hi.placed.congr rfl rfl rfl rfl rfl le_rfl, hi.linked, hi.ticks, hi.todo⟩
  | addTimer p when_ interval =>
    obtain rfl := Except.ok.inj hs
    have hpl := hi.placed.addTimer when_ interval he.1
    simp only [TimerWheel.addTimer, he.1, dite_true] at hpl ⊢
    exact ⟨hpl, hi.linked, hi.ticks, hi.todo⟩
  | addTimerInLoop p => exact inv_addTimerInLoop hi he.2 hs
  | finishAdd =>
    obtain ⟨p, rest, hadd⟩ := List.exists_cons_of_ne_nil he
    exact inv_finishAdd hi hadd hs
  | cancelInLoop n =>
    obtain ⟨c, q₁, -, hcancel, rfl⟩ := cancel_step_ok hs he.2
    have hi₁ := inv_cancelInLoop hi hcancel
    exact ⟨hi₁.placed.congr rfl rfl rfl rfl rfl le_rfl, hi₁.linked, hi₁.ticks, hi₁.todo⟩
  | handleRead =>
    obtain rfl := Except.ok.inj hs
    exact inv_handleRead hi he.1 he.2
  | run =>
    obtain ⟨now, expired, p, rest, hf⟩ := exists_frame_of_run he.2
    obtain ⟨c, -, rfl⟩ := runNext_ok hf hs
    have hpl := hi.placed
    simp only [held, batch, hf] at hpl
    refine ⟨hpl.congr rfl rfl rfl rfl rfl le_rfl, hi.linked, hi.ticks, ?_⟩
    have hsuffix : rest <:+ expired := (List.suffix_cons p rest).trans (hi.todo hf)
    rintro now' expired' todo' ⟨⟩
    exact hsuffix
  | advance =>
    obtain ⟨now, expired, hf⟩ := exists_frame_of_advance he.2
    obtain rfl := Except.ok.inj hs
    have hpl := hi.placed
    simp only [held, batch, hf] at hpl
    rw [advance_eq hf]
    exact ⟨hpl.congr rfl rfl rfl rfl rfl le_rfl, hi.linked, ticksPos_advanceClock hi.ticks,
      fun hf' => nomatch hf'⟩
  | reinsert =>
    obtain ⟨now, p, rest, hf⟩ := exists_frame_of_reinsert he
    exact inv_reinsertNext hi hf hs
  | finish =>
    obtain ⟨now, hf⟩ := exists_frame_of_finish he
    obtain rfl := Except.ok.inj hs
    obtain ⟨fd, hq'⟩ := finish_eq q
    have hpl := hi.placed
    simp only [held, batch, hf] at hpl
    rw [hq']
    exact ⟨hpl.congr rfl rfl rfl rfl rfl le_rfl, hi.linked, hi.ticks, fun hf' => nomatch hf'⟩

theorem preserves_inv : (machine W).Preserves Inv :=
  fun _ _ _ hi he hs => inv_step hi he hs

theorem inv_of_init (h : (machine W).init q) : Inv q := by
  obtain ⟨clock, numCreated, rfl⟩ := h
  exact Inv.init W clock numCreated

/-- The invariant holds in every reachable state. -/
theorem inv_of_reachable (h : (machine W).Reachable q) : Inv q :=
  h.invariant preserves_inv fun _ => inv_of_init

end CodingDemo.Libcpp.TimerWheel
