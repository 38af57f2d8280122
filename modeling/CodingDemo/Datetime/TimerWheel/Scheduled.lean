import CodingDemo.Datetime.TimerWheel.Moved

/-!
# Which buckets are scheduled

`getExpired` takes a bucket out of the delay queue and leaves its expiration time as it was, and
`insert` queues a bucket only when that time changes. A timer that is filed in such a bucket with
the same time is therefore in a bucket that is not queued.

## Main definitions

* `Scheduled`: every bucket with timers is in the delay queue once, and the table finds it there
* `Reschedules`: a step does not file a timer in a bucket that is not queued and has its time

## Main results

* `scheduled_step_iff`: which steps keep the buckets scheduled
* `scheduled_iff_reschedules`: in which runs all buckets are scheduled in every state
-/

namespace CodingDemo.Libcpp.TimerWheel

variable {W : WheelConfig} {q q' : TimerWheel} {e : Event}

/-- Every bucket with timers is in the delay queue exactly once, and `delayHashTable_` maps it to
that node. -/
def Scheduled (q : TimerWheel) : Prop :=
  ∀ b, (q.buckets b).timers ≠ [] →
    q.delayQueue.values.count b = 1 ∧ ∃ n, (n, b) ∈ q.delayQueue ∧ q.delayHashTable b = some n

/-- A bucket in which the step files a timer is queued already, or its expiration time changes. -/
def Reschedules (W : WheelConfig) (q : TimerWheel) (e : Event) : Prop :=
  ∀ slot ∈ q.slotOf W e, q.delayHashTable slot.bucket = none →
    (q.buckets slot.bucket).expirationTime ≠ slot.time

instance (q : TimerWheel) (e : Event) : Decidable (q.Reschedules W e) :=
  inferInstanceAs (Decidable (∀ slot ∈ q.slotOf W e, _))

instance (q : TimerWheel) (e : Event) :
    Decidable (((machine W).guard (Reschedules W)).enabled q e) :=
  inferInstanceAs (Decidable (q.Enabled e ∧ q.Reschedules W e))

/-- The queue and its table agree, so a bucket is scheduled if the table has it. -/
theorem scheduled_iff (hi : Inv q) :
    Scheduled q ↔ ∀ b, (q.buckets b).timers ≠ [] → q.delayHashTable b ≠ none := by
  refine forall₂_congr fun b _ => ⟨?_, fun h => ?_⟩
  · rintro ⟨-, n, -, hn⟩
    rw [hn]
    exact Option.some_ne_none n
  · obtain ⟨n, hn⟩ := Option.ne_none_iff_exists'.mp h
    have hmem := hi.linked.mem_iff.mpr hn
    refine ⟨List.count_eq_one_of_mem hi.linked.values_nodup ?_, n, hmem, hn⟩
    exact NodeList.mem_values.mpr ⟨n, hmem⟩

/-- **One step** keeps every bucket scheduled exactly when the bucket in which it files a timer is
queued or gets a new expiration time. -/
theorem scheduled_step_iff (hi : Inv q) (h : Scheduled q) (he : q.Enabled e)
    (hs : q.step W e = .ok q') : Scheduled q' ↔ q.Reschedules W e := by
  rw [scheduled_iff hi] at h
  rw [scheduled_iff (inv_step hi he hs)]
  cases step_moved hi he hs with
  | kept hb hqueue htable hnone =>
    have hresched : q.Reschedules W e := by
      intro slot hslot
      rw [hnone] at hslot
      cases hslot
    rw [hb, htable]
    exact ⟨fun _ => hresched, fun _ => h⟩
  | @filed p t slot hins hslot ht hw hb hq =>
    have hslot' : q.slotOf W e = some slot := slotOf_eq hins hslot
    have hmem : ∀ {b x}, x ∈ (q'.buckets b).timers ↔
        x ∈ (q.buckets b).timers ∨ b = slot.bucket ∧ x.1 = q.nextNode ∧ x.2 = p := by
      rintro b ⟨n, r⟩
      rw [hb]
      exact mem_pushTimer
    have htable := hq.table_eq
    constructor
    · intro hsched slot' hslot'' hnone htime
      obtain rfl := Option.some.inj (hslot'.symm.trans hslot'')
      -- the bucket is not queued before the step, and its time does not change
      rw [if_pos htime] at htable
      have hne : (q'.buckets slot.bucket).timers ≠ [] :=
        List.ne_nil_of_mem (hmem.mpr (.inr ⟨rfl, rfl, rfl⟩) : (q.nextNode, p) ∈ _)
      exact hsched _ hne (htable ▸ hnone)
    -- the bucket of the slot is queued after the step, and the others are queued as before
    · intro hresched b hne
      obtain ⟨x, hx⟩ := List.exists_mem_of_ne_nil _ hne
      rw [htable]
      split_ifs with htime
      · rcases hmem.mp hx with hx | ⟨rfl, -⟩
        · exact h b (List.ne_nil_of_mem hx)
        · exact fun hnone => hresched slot hslot' hnone htime
      · by_cases hbs : b = slot.bucket
        · subst hbs
          rw [Function.update_self]
          exact Option.some_ne_none _
        · rw [Function.update_of_ne hbs]
          rcases hmem.mp hx with hx | ⟨heq, -⟩
          · exact h b (List.ne_nil_of_mem hx)
          · exact absurd heq hbs
  | @removed b n p timers hnone _ _ _ herase hb hqueue htable =>
    have hresched : q.Reschedules W e := by
      intro slot hslot
      rw [slotOf, hnone] at hslot
      cases hslot
    refine ⟨fun _ => hresched, fun _ c hne => ?_⟩
    obtain ⟨x, hx⟩ := List.exists_mem_of_ne_nil _ hne
    rw [hb, timers_setTimers] at hx
    rw [htable]
    split_ifs at hx with hcb
    · subst hcb
      exact h c (List.ne_nil_of_mem ((NodeList.mem_of_eraseNode herase).mp hx).1)
    · exact h c (List.ne_nil_of_mem hx)
  | read heq hq =>
    subst heq hq
    refine ⟨(fun _ slot hslot => absurd hslot (Option.not_mem_none slot)), fun _ b hne => ?_⟩
    obtain ⟨q₁, hread, -, hdrained⟩ := handleRead_eq hi
    rw [hread] at hne ⊢
    -- a bucket that is taken out of the queue is emptied
    rcases hdrained.bucket b with ⟨htimers, htable⟩ | ⟨hnil, -⟩
    · exact htable.trans_ne (h b (htimers ▸ hne))
    · exact absurd hnil hne

/-- **Every loaded bucket is scheduled** in every state of a run, whatever the clock readings, if
and only if no step of the run files a timer in a bucket that is not queued and whose stored
expiration time is the one it would get. -/
theorem scheduled_iff_reschedules {clock : ℤ} {numCreated : BitVec 64} {es : List Event}
    (hr : (machine W).Run (init W clock numCreated) es q) :
    (machine W).Along Scheduled (init W clock numCreated) es ↔
      ((machine W).guard (Reschedules W)).Run (init W clock numCreated) es q :=
  Machine.along_iff_run_guard preserves_inv
    (fun _ _ _ hi h he hs => scheduled_step_iff hi h he hs) hr (Inv.init W clock numCreated)
    fun _ hne => absurd rfl hne

/-- A repeating timer goes round the wheel, and another timer is added on the way. -/
def roundTheWheel : List Event :=
  [.addTimer 8 1020 0.00002, .addTimerInLoop 8, .tick 1021, .handleRead, .run, .advance,
    .reinsert, .finish, .addTimer 16 1300 0, .addTimerInLoop 16]

theorem scheduled_iff_reschedules_roundTheWheel :
    (machine smallWheel).Along Scheduled (init smallWheel 1000 0) roundTheWheel := by
  have hex : (((machine smallWheel).guard (Reschedules smallWheel)).exec (init smallWheel 1000 0)
      roundTheWheel).isSome := by decide +kernel
  obtain ⟨q, hq⟩ := Option.isSome_iff_exists.mp hex
  have hr := Machine.run_of_exec hq
  exact (scheduled_iff_reschedules hr.of_guard).mpr hr

/-- A callback files a timer in the bucket that `getExpired` has just taken out of the queue: the
bucket is loaded and not queued. -/
theorem exists_unscheduled : ∃ q, (machine smallWheel).Reachable q ∧ ¬ Scheduled q := by
  have hex : ((machine smallWheel).exec (init smallWheel 1000 0)
      [.addTimer 8 1020 0, .addTimerInLoop 8, .tick 1021, .handleRead, .run, .addTimer 16 1025 0,
        .addTimerInLoop 16]).map
      (fun q => ((q.buckets { level := 0, id := 2 }).timers.isEmpty, q.delayQueue)) =
      some (false, []) := by decide +kernel
  obtain ⟨q, hq, hstate⟩ := Option.map_eq_some_iff.mp hex
  obtain ⟨hloaded, hqueue⟩ := Prod.mk.inj hstate
  refine ⟨q, ⟨_, _, ⟨1000, 0, rfl⟩, Machine.run_of_exec hq⟩, fun hsched => ?_⟩
  obtain ⟨-, n, hmem, -⟩ := hsched { level := 0, id := 2 } fun hnil => by
    rw [hnil] at hloaded
    cases hloaded
  rw [hqueue] at hmem
  cases hmem

end CodingDemo.Libcpp.TimerWheel
