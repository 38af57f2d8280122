import CodingDemo.Datetime.TimerWheel.Invariant
import CodingDemo.Machine.Run

/-!
# The order of the delay queue

The delay queue should be in the order of the expiration times: `getExpired` takes buckets from the
front as long as they are due, and the descriptor is armed for the front. `updateDelayQueue` sorts
the queue after each change of an expiration time, but it compares the pointers to the buckets.

## Main definitions

* `QueueEvent`, `queueMachine`: the calls of `updateDelayQueue` and `getExpired`
* `Timely`: what the calls should do
* `InAddressOrder`: the condition on the addresses
* `QueueInv`: the queue is in the order of the addresses

## Main results

* `QueueInv.frontEarliest_iff`, `QueueInv.takesDue_iff`: when one call does what it should
* `queue_neverFaults`: the calls do not fault
* `timely_iff_inAddressOrder`: in which runs the calls do what they should
-/

namespace CodingDemo.Libcpp

/-! ## Removing from the front -/

section DropWhile

variable {α : Type*} {p : α → Bool} {l : List α}

/-- The front has all elements with `p` exactly when no element without `p` is before one. -/
theorem dropWhile_eq_filter_iff :
    l.dropWhile p = l.filter (fun x => !p x) ↔ l.Pairwise fun x y => p y → p x := by
  induction l with
  | nil => simp
  | cons a l ih =>
    rw [List.pairwise_cons]
    by_cases ha : p a
    · -- the first element is dropped, and can be before any other one
      rw [List.dropWhile_cons_of_pos ha, List.filter_cons_of_neg (by simp [ha]), ih]
      exact ⟨fun h => ⟨fun _ _ _ => ha, h⟩, And.right⟩
    · -- nothing is dropped, so no element may have `p`
      rw [List.dropWhile_cons_of_neg ha, List.filter_cons_of_pos (by simp [ha])]
      constructor
      · intro h
        have hnone : ∀ y ∈ l, ¬p y := fun y hy => by
          simpa using List.filter_eq_self.mp (List.cons.inj h).2.symm y hy
        exact ⟨fun y hy hpy => absurd hpy (hnone y hy),
          List.pairwise_of_forall_mem_list fun _ _ y hy hpy => absurd hpy (hnone y hy)⟩
      · intro h
        have hnone : ∀ y ∈ l, ¬p y := fun y hy hpy => ha (h.1 y hy hpy)
        rw [List.filter_eq_self.mpr fun y hy => by simpa using hnone y hy]

theorem takeWhile_eq_filter (h : l.Pairwise fun x y => p y → p x) :
    l.takeWhile p = l.filter p := by
  induction l with
  | nil => rfl
  | cons a l ih =>
    rw [List.pairwise_cons] at h
    by_cases ha : p a
    · rw [List.takeWhile_cons_of_pos ha, List.filter_cons_of_pos ha, ih h.2]
    · rw [List.takeWhile_cons_of_neg ha, List.filter_cons_of_neg ha]
      exact (List.filter_eq_nil_iff.mpr fun y hy hpy => ha (h.1 y hy hpy)).symm

end DropWhile

namespace WheelConfig

/-- The wheels have the bucket. -/
def HasBucket (W : WheelConfig) (b : BucketRef) : Prop := 0 ≤ b.id ∧ b.id < W.wheelSize

instance (W : WheelConfig) (b : BucketRef) : Decidable (W.HasBucket b) :=
  inferInstanceAs (Decidable (0 ≤ b.id ∧ b.id < W.wheelSize))

/-- The buckets are at different addresses. -/
def Distinct (W : WheelConfig) : Prop :=
  ∀ ⦃b c⦄, W.HasBucket b → W.HasBucket c → W.address b = W.address c → b = c

end WheelConfig

theorem smallWheel_distinct : smallWheel.Distinct := by
  rintro ⟨l, i⟩ ⟨m, j⟩ ⟨hi, hi'⟩ ⟨hj, hj'⟩ heq
  have hid : ∀ k, k < smallWheel.wheelSize ↔ k < 4 := fun _ => Iff.rfl
  have hadd : l * 4 + i.toNat = m * 4 + j.toNat := heq
  rw [hid] at hi' hj'
  simp only at hi hi' hj hj'
  obtain ⟨rfl, rfl⟩ : l = m ∧ i = j := by omega
  rfl

namespace TimerWheel

open Machine

variable (W : WheelConfig)

/-! ## The calls -/

/-- `Bucket::setExpiredTime`, where the time has changed. -/
def setExpiredTime (q : TimerWheel) (b : BucketRef) (expired : ℤ) : TimerWheel :=
  { q with buckets := Function.update q.buckets b { q.buckets b with expirationTime := expired } }

/-- What happens to the buckets and to the delay queue. -/
inductive QueueEvent
  /-- Timers are put into a bucket or cancelled. -/
  | setTimers (b : BucketRef) (timers : NodeList ℕ)
  /-- The call of `updateDelayQueue` for a bucket whose expiration time has been set. -/
  | updateDelayQueue (b : BucketRef) (expired : ℤ)
  | getExpired (now : ℤ)
  deriving DecidableEq

def QueueEnabled : QueueEvent → Prop
  | .setTimers b _ => W.HasBucket b
  | .updateDelayQueue b _ => W.HasBucket b
  | .getExpired _ => True

def queueStep (q : TimerWheel) : QueueEvent → Except Fault TimerWheel
  | .setTimers b timers => .ok (q.setTimers b timers)
  | .updateDelayQueue b expired => (q.setExpiredTime b expired).updateDelayQueue W b
  | .getExpired now => .ok (q.getExpired now q.delayQueue).2

/-- The runs of a timer wheel that has just been constructed. -/
def queueMachine : Machine TimerWheel QueueEvent Fault where
  init q := ∃ clock numCreated, q = TimerWheel.init W clock numCreated
  enabled _ e := QueueEnabled W e
  step := queueStep W

/-- The bucket at the front has the smallest expiration time. -/
def FrontEarliest (q : TimerWheel) : Prop :=
  ∃ d ∈ q.delayQueue.head?, ∀ c ∈ q.delayQueue,
    (q.buckets d.2).expirationTime ≤ (q.buckets c.2).expirationTime

/-- From `q` to `q'` the expired buckets are removed, and their timers are the result. -/
structure TakesDue (q : TimerWheel) (now : ℤ) (expired : NodeList ℕ) (q' : TimerWheel) : Prop where
  queue : q'.delayQueue = q.delayQueue.filter fun d => !q.due now d
  returned : expired.Perm (q.timersOf (q.delayQueue.filter (q.due now)))
  removed : ∀ b, (q'.buckets b).timers =
    if b ∈ NodeList.values (q.delayQueue.filter (q.due now)) then [] else (q.buckets b).timers

/-- What a step should do. -/
def Timely (q : TimerWheel) : QueueEvent → TimerWheel → Prop
  | .setTimers _ _, _ => True
  | .updateDelayQueue _ _, q' => q'.FrontEarliest
  | .getExpired now, q' => q.TakesDue now (q.getExpired now q.delayQueue).1 q'

/-- The bucket at the lowest address has the smallest expiration time. -/
def LowestEarliest (q : TimerWheel) (queued : List BucketRef) : Prop :=
  ∀ b ∈ queued, (∀ c ∈ queued, W.address b ≤ W.address c) →
    ∀ c ∈ queued, (q.buckets b).expirationTime ≤ (q.buckets c).expirationTime

/-- The buckets at lower addresses than an expired one have expired. -/
def LowerDue (q : TimerWheel) (now : ℤ) (queued : List BucketRef) : Prop :=
  ∀ b ∈ queued, ∀ c ∈ queued, W.address b < W.address c →
    (q.buckets c).expirationTime < now → (q.buckets b).expirationTime < now

/-- The addresses of the buckets are in the order of the times, as far as the call needs it. -/
def InAddressOrder (q : TimerWheel) : QueueEvent → Prop
  | .setTimers _ _ => True
  | .updateDelayQueue b expired =>
    LowestEarliest W (q.setExpiredTime b expired) (b :: q.delayQueue.values)
  | .getExpired now => LowerDue W q now q.delayQueue.values

variable {W} {q q' : TimerWheel} {b : BucketRef} {now : ℤ}

/-- A timer is filed by the calls for its bucket: it is put into the list, and the queue is updated
if the time of the bucket changes. -/
theorem fileTimer_eq_queueStep {slot : Slot} (hb : W.HasBucket slot.bucket) (timer : ℕ) :
    q.fileTimer W slot timer =
      let table := Function.update q.timerHashTable timer (some (slot.bucket, q.nextNode))
      let filed := { q with timerHashTable := table, nextNode := q.nextNode + 1 }.setTimers
        slot.bucket ((q.buckets slot.bucket).timers ++ [(q.nextNode, timer)])
      if (q.buckets slot.bucket).expirationTime = slot.time then .ok filed
      else filed.queueStep W (.updateDelayQueue slot.bucket slot.time) := by
  have hpush : q.pushTimer slot timer = ({ q with
      timerHashTable := Function.update q.timerHashTable timer (some (slot.bucket, q.nextNode))
      nextNode := q.nextNode + 1 }.setTimers slot.bucket
        ((q.buckets slot.bucket).timers ++ [(q.nextNode, timer)])).setExpiredTime slot.bucket
          slot.time := by
    simp only [pushTimer, setTimers, setExpiredTime, Function.update_self, Function.update_idem]
  rw [fileTimer, if_neg (not_lt.mpr hb.1)]
  split_ifs with htime
  · rw [hpush]
    simp only [setTimers, setExpiredTime, Function.update_self, Function.update_idem, htime]
  · rw [hpush, queueStep]

/-! ## The order of the queue -/

/-- Both branches of `updateDelayQueue` leave a queue that is sorted by the addresses. -/
theorem sorted_updateDelayQueue (h : q.updateDelayQueue W b = .ok q') :
    q'.delayQueue.Pairwise fun x y => W.address x.2 ≤ W.address y.2 := by
  have hsorted : ∀ queue, ((q.requeue W queue b).delayQueue).Pairwise fun x y =>
      W.address x.2 ≤ W.address y.2 := fun queue =>
    List.pairwise_insertionSort (fun x y : ℕ × BucketRef => W.address x.2 ≤ W.address y.2) _
  unfold updateDelayQueue at h
  cases hfront : q.frontExpiration with
  | none =>
    -- the queue is empty
    simp only [hfront] at h
    obtain rfl := Except.ok.inj h
    exact hsorted []
  | some currentExpiration =>
    simp only [hfront] at h
    cases herase : q.eraseBucket b with
    | error f => simp [herase, bind, Except.bind] at h
    | ok queue =>
      -- the descriptor may be armed or not, the queue is the same
      simp only [herase, bind, Except.bind] at h
      split at h
      · split at h
        · obtain rfl := Except.ok.inj h
          exact hsorted queue
        · obtain rfl := Except.ok.inj h
          exact hsorted queue
      · obtain rfl := Except.ok.inj h
        exact hsorted queue

/-- The queue is in the order of the addresses, and `delayHashTable_` finds the buckets in it. -/
structure QueueInv (W : WheelConfig) (q : TimerWheel) : Prop where
  linked : Linked q.delayQueue q.delayHashTable q.nextNode
  sorted : q.delayQueue.Pairwise fun x y => W.address x.2 < W.address y.2
  hasBucket : ∀ d ∈ q.delayQueue, W.HasBucket d.2

theorem QueueInv.of_init (h : (queueMachine W).init q) : QueueInv W q := by
  obtain ⟨clock, numCreated, rfl⟩ := h
  exact ⟨(Inv.init W clock numCreated).linked, List.Pairwise.nil, fun _ h => absurd h
    List.not_mem_nil⟩

/-- The buckets of the queue are at different addresses. -/
theorem strictSorted (hW : W.Distinct) {queue : NodeList BucketRef} (hnodup : queue.values.Nodup)
    (hbuckets : ∀ d ∈ queue, W.HasBucket d.2)
    (hsorted : queue.Pairwise fun x y => W.address x.2 ≤ W.address y.2) :
    queue.Pairwise fun x y => W.address x.2 < W.address y.2 := by
  have hne : queue.Pairwise fun x y => x.2 ≠ y.2 := List.pairwise_map.mp hnodup
  refine (hsorted.and hne).imp_of_mem fun hx hy h => lt_of_le_of_ne h.1 fun heq => h.2 ?_
  exact hW (hbuckets _ hx) (hbuckets _ hy) heq

/-- `updateDelayQueue` puts the bucket to its place. -/
theorem QueueInv.exists_updateDelayQueue (hW : W.Distinct) (h : QueueInv W q)
    (hb : W.HasBucket b) :
    ∃ q', q.updateDelayQueue W b = .ok q' ∧ QueueInv W q' ∧ q'.buckets = q.buckets ∧
      ∀ c, c ∈ q'.delayQueue.values ↔ c ∈ b :: q.delayQueue.values := by
  obtain ⟨queue, fd, hok, hlinked⟩ := updateDelayQueue_eq (W := W) h.linked b
  have hmem : ∀ c, c ∈ queue.values ↔ c ∈ b :: q.delayQueue.values := by
    intro c
    rw [NodeList.mem_values, List.mem_cons, NodeList.mem_values]
    simp only [hlinked.mem_iff, h.linked.mem_iff]
    by_cases hc : c = b
    · subst hc
      simp
    · rw [Function.update_of_ne hc]
      exact ⟨.inr, fun hn => hn.resolve_left hc⟩
  have hbuckets : ∀ d ∈ queue, W.HasBucket d.2 := by
    intro d hd
    rcases List.mem_cons.mp ((hmem d.2).mp (List.mem_map_of_mem hd)) with heq | hold
    · rwa [heq]
    · obtain ⟨d', hd', heq⟩ := List.mem_map.mp hold
      exact heq ▸ h.hasBucket d' hd'
  exact ⟨_, hok, ⟨hlinked, strictSorted hW hlinked.values_nodup hbuckets
    (sorted_updateDelayQueue hok), hbuckets⟩, rfl, hmem⟩

/-- The bucket at the front is the one at the lowest address. -/
theorem QueueInv.frontEarliest_iff (h : QueueInv W q) (hne : q.delayQueue ≠ []) :
    q.FrontEarliest ↔ LowestEarliest W q q.delayQueue.values := by
  obtain ⟨d, rest, hq⟩ := List.exists_cons_of_ne_nil hne
  have hsorted := h.sorted
  rw [hq, List.pairwise_cons] at hsorted
  have hlowest : ∀ c ∈ q.delayQueue.values, W.address d.2 ≤ W.address c := by
    intro c hc
    obtain ⟨x, hx, rfl⟩ := List.mem_map.mp hc
    rw [hq] at hx
    rcases List.mem_cons.mp hx with rfl | hx
    · exact le_rfl
    · exact (hsorted.1 x hx).le
  have hd : d.2 ∈ q.delayQueue.values := List.mem_map_of_mem (hq ▸ List.mem_cons_self)
  constructor
  · rintro ⟨d', hd', hfront⟩ b hb hb' c hc
    obtain rfl : d = d' := by simpa [hq] using hd'
    -- no other bucket has the address of the front
    obtain ⟨x, hx, rfl⟩ := List.mem_map.mp hb
    obtain rfl : x = d := by
      rw [hq] at hx
      rcases List.mem_cons.mp hx with rfl | hx
      · rfl
      · exact absurd (hb' d.2 hd) (not_le.mpr (hsorted.1 x hx))
    obtain ⟨y, hy, rfl⟩ := List.mem_map.mp hc
    exact hfront y hy
  · intro hfront
    exact ⟨d, by rw [hq]; rfl, fun c hc => hfront d.2 hd hlowest c.2 (List.mem_map_of_mem hc)⟩

/-! ## What `getExpired` takes -/

/-- In the queue the buckets at lower addresses are before those at higher ones. -/
theorem QueueInv.pairwise_due_iff (h : QueueInv W q) (now : ℤ) :
    q.delayQueue.Pairwise (fun x y => q.due now y → q.due now x) ↔
      LowerDue W q now q.delayQueue.values := by
  constructor
  · intro hdue b hb c hc hlt hc'
    obtain ⟨x, hx, rfl⟩ := List.mem_map.mp hb
    obtain ⟨y, hy, rfl⟩ := List.mem_map.mp hc
    have hbelow : q.delayQueue.Pairwise fun x y =>
        W.address x.2 < W.address y.2 → q.due now y → q.due now x :=
      hdue.imp fun {x y} h (_ : W.address x.2 < W.address y.2) => h
    -- a bucket is not at a lower address than one before it
    have hflip : q.delayQueue.Pairwise (flip fun x y =>
        W.address x.2 < W.address y.2 → q.due now y → q.due now x) :=
      h.sorted.imp fun hlt hgt => absurd hgt hlt.asymm
    have hall := List.Pairwise.forall_of_forall_of_flip (fun _ _ _ => id) hbelow hflip
    exact of_decide_eq_true (hall hx hy hlt (decide_eq_true hc'))
  · intro hlower
    refine h.sorted.imp_of_mem fun hx hy hlt hy' => decide_eq_true ?_
    exact hlower _ (List.mem_map_of_mem hx) _ (List.mem_map_of_mem hy) hlt (of_decide_eq_true hy')

theorem QueueInv.getExpired (h : QueueInv W q) (now : ℤ) :
    QueueInv W (q.getExpired now q.delayQueue).2 := by
  obtain ⟨table, hget, hlinked, -⟩ := getExpired_eq now rfl h.linked
  have hsub := List.dropWhile_sublist (l := q.delayQueue) (q.due now)
  rw [hget]
  exact ⟨hlinked, h.sorted.sublist hsub, fun d hd => h.hasBucket d (hsub.subset hd)⟩

theorem QueueInv.takesDue_iff (h : QueueInv W q) (now : ℤ) :
    q.TakesDue now (q.getExpired now q.delayQueue).1 (q.getExpired now q.delayQueue).2 ↔
      LowerDue W q now q.delayQueue.values := by
  obtain ⟨table, hget, -, -⟩ := getExpired_eq now rfl h.linked
  rw [hget, ← h.pairwise_due_iff]
  constructor
  · -- what is left in the queue already tells that no bucket that is due was behind another one
    exact fun htakes => dropWhile_eq_filter_iff.mp htakes.queue
  · intro hdue
    have htaken := takeWhile_eq_filter hdue
    rw [htaken]
    refine ⟨dropWhile_eq_filter_iff.mpr hdue, List.Perm.refl _, fun b => ?_⟩
    exact apply_ite Bucket.timers ..

/-! ## Every run -/

/-- A call does not fault, and does what it should exactly when the addresses are in order. -/
theorem QueueInv.exists_queueStep (hW : W.Distinct) (h : QueueInv W q) {e : QueueEvent}
    (he : QueueEnabled W e) :
    ∃ q', q.queueStep W e = .ok q' ∧ QueueInv W q' ∧ (q.Timely e q' ↔ InAddressOrder W q e) := by
  cases e with
  | setTimers b timers => exact ⟨_, rfl, ⟨h.linked, h.sorted, h.hasBucket⟩, Iff.rfl⟩
  | updateDelayQueue b expired =>
    have hset : QueueInv W (q.setExpiredTime b expired) := ⟨h.linked, h.sorted, h.hasBucket⟩
    obtain ⟨q', hok, hinv, hbuckets, hmem⟩ := hset.exists_updateDelayQueue hW he
    refine ⟨q', hok, hinv, ?_⟩
    -- the bucket itself is queued, so there is a front
    have hne : q'.delayQueue ≠ [] := by
      intro hnil
      have hb := (hmem b).mpr List.mem_cons_self
      rw [hnil] at hb
      exact absurd hb List.not_mem_nil
    show q'.FrontEarliest ↔ _
    rw [hinv.frontEarliest_iff hne]
    simp only [LowestEarliest, InAddressOrder, hbuckets, hmem]
    exact Iff.rfl
  | getExpired now => exact ⟨_, rfl, h.getExpired now, h.takesDue_iff now⟩

theorem queue_neverFaults (hW : W.Distinct) : (queueMachine W).NeverFaults := by
  refine Machine.neverFaults_of_invariant (I := QueueInv W) (fun q e q' h he hs => ?_)
    (fun _ => QueueInv.of_init) fun q e h he => ?_
  · obtain ⟨q₁, hok, hinv, -⟩ := h.exists_queueStep hW he
    obtain rfl := Except.ok.inj (hs.symm.trans hok)
    exact hinv
  · obtain ⟨q₁, hok, -⟩ := h.exists_queueStep hW he
    exact ⟨q₁, hok⟩

/-- **The delay queue is in the order of the times** in exactly those runs in which the addresses
of the buckets are in the order of the times at each call. -/
theorem timely_iff_inAddressOrder (hW : W.Distinct) {es : List QueueEvent}
    (hi : (queueMachine W).init q) (hr : (queueMachine W).Run q es q') :
    (queueMachine W).Each Timely q es ↔
      ((queueMachine W).guard (InAddressOrder W)).Run q es q' := by
  refine Machine.each_iff_run_guard (Q := QueueInv W) (fun q e q' h he hs _ => ?_)
    (fun q e q' h he hs => ?_) hr (QueueInv.of_init hi)
  · obtain ⟨q₁, hok, hinv, -⟩ := h.exists_queueStep hW he
    obtain rfl := Except.ok.inj (hs.symm.trans hok)
    exact hinv
  · obtain ⟨q₁, hok, -, hiff⟩ := h.exists_queueStep hW he
    obtain rfl := Except.ok.inj (hs.symm.trans hok)
    exact hiff

instance (e : QueueEvent) : Decidable (QueueEnabled W e) :=
  match e with
  | .setTimers b _ => inferInstanceAs (Decidable (W.HasBucket b))
  | .updateDelayQueue b _ => inferInstanceAs (Decidable (W.HasBucket b))
  | .getExpired _ => isTrue trivial

instance (q : TimerWheel) (e : QueueEvent) : Decidable (InAddressOrder W q e) :=
  match e with
  | .setTimers _ _ => isTrue trivial
  | .updateDelayQueue b expired => inferInstanceAs (Decidable
      (∀ c ∈ b :: q.delayQueue.values,
        (∀ d ∈ b :: q.delayQueue.values, W.address c ≤ W.address d) →
          ∀ d ∈ b :: q.delayQueue.values, ((q.setExpiredTime b expired).buckets c).expirationTime ≤
            ((q.setExpiredTime b expired).buckets d).expirationTime))
  | .getExpired now => inferInstanceAs (Decidable
      (∀ b ∈ q.delayQueue.values, ∀ c ∈ q.delayQueue.values, W.address b < W.address c →
        (q.buckets c).expirationTime < now → (q.buckets b).expirationTime < now))

instance (q : TimerWheel) (e : QueueEvent) :
    Decidable (((queueMachine W).guard (InAddressOrder W)).enabled q e) :=
  inferInstanceAs (Decidable (QueueEnabled W e ∧ InAddressOrder W q e))

/-- A bucket of the second wheel has the higher address and the later time. -/
def upward : List QueueEvent :=
  [.setTimers ⟨1, 2⟩ [(0, 7)], .updateDelayQueue ⟨1, 2⟩ 80, .setTimers ⟨0, 3⟩ [(2, 9)],
    .updateDelayQueue ⟨0, 3⟩ 30, .getExpired 50]

theorem timely_iff_inAddressOrder_upward :
    (queueMachine smallWheel).Each Timely (init smallWheel 0 0) upward := by
  have hexec : (((queueMachine smallWheel).guard (InAddressOrder smallWheel)).exec
      (init smallWheel 0 0) upward).isSome := by decide +kernel
  obtain ⟨q, hq⟩ := Option.isSome_iff_exists.mp hexec
  have hr := Machine.run_of_exec hq
  exact (timely_iff_inAddressOrder smallWheel_distinct ⟨0, 0, rfl⟩ hr.of_guard).mpr hr

/-- The bucket of the second wheel has the higher address and the earlier time: it is queued at 80,
and the other one at 90, when the clock is at 60. -/
def downward : List QueueEvent :=
  [.updateDelayQueue ⟨1, 2⟩ 80, .updateDelayQueue ⟨0, 3⟩ 90]

/-- The bucket that expires later is at the front. -/
theorem exists_not_timely :
    ∃ q, (queueMachine smallWheel).Run (init smallWheel 0 0) downward q ∧
      ¬(queueMachine smallWheel).Each Timely (init smallWheel 0 0) downward := by
  have hfirst : smallWheel.HasBucket ⟨1, 2⟩ := by decide
  have hsecond : smallWheel.HasBucket ⟨0, 3⟩ := by decide
  refine ⟨_, Run.cons hfirst rfl (Run.cons hsecond rfl (Run.nil _)), fun heach => ?_⟩
  -- the second call leaves the bucket at the lower address at the front
  obtain ⟨d, hd, hfront⟩ := ((heach _ rfl).2 _ rfl).1
  obtain rfl := Option.some.inj hd
  exact absurd (hfront (0, ⟨1, 2⟩) (by decide)) (by decide)

end TimerWheel

end CodingDemo.Libcpp
