import Mathlib.Data.Set.Insert
import Mathlib.Logic.Relation
import Mathlib.Order.Interval.Set.Basic

/-!
# Automatic repeat request

A sender numbers what it is given and sends each item again until it is acknowledged. The receiver
keeps what arrives out of order, and acknowledges single numbers and, by a count, all numbers below
it. The network loses, repeats and reorders packets: what has been sent once can arrive at any time,
any number of times, or never.

## Main definitions

* `Arq`: the sender, the receiver and the packets of one direction
* `Arq.Step`: what can happen
* `Arq.Arrived`: the receiver has an item
* `Arq.Safe`: the invariant

## Main results

* `Arq.Safe.steps`: the invariant holds in every run
* `Arq.Safe.arrived_of_acked`: what the sender has been told is true
* `Arq.Steps.le`: the log and the packets only grow, and the receiver goes on
-/

namespace CodingDemo

universe u

structure Arq (α : Type u) where
  /-- What the sender has been given, in order. -/
  log : List α
  /-- How many items have a number. -/
  next : ℕ
  /-- The numbers that the sender keeps. -/
  unacked : Set ℕ
  /-- The receiver has all items below. -/
  base : ℕ
  /-- The items that have arrived out of order. -/
  held : Set (ℕ × α)
  /-- The packets with data that have been sent. -/
  data : Set (ℕ × α)
  /-- The acknowledgements of single numbers that have been sent. -/
  acks : Set ℕ
  /-- The counts below which all numbers have been acknowledged. -/
  counts : Set ℕ

namespace Arq

variable {α : Type u} {a b c : Arq α} {n : ℕ} {x : α}

def init : Arq α where
  log := []
  next := 0
  unacked := ∅
  base := 0
  held := ∅
  data := ∅
  acks := ∅
  counts := ∅

def Arrived (a : Arq α) (n : ℕ) : Prop := n < a.base ∨ ∃ x, (n, x) ∈ a.held

/-- The sender has been told that the receiver has an item. -/
def Acked (a : Arq α) (n : ℕ) : Prop := n ∈ a.acks ∨ ∃ c ∈ a.counts, n < c

inductive Step (a : Arq α) : Arq α → Prop
  | submit (xs : List α) : Step a { a with log := a.log ++ xs }
  | number (h : a.next < a.log.length) :
      Step a { a with next := a.next + 1, unacked := insert a.next a.unacked }
  | transmit (n : ℕ) (x : α) (hn : n ∈ a.unacked) (hx : a.log[n]? = some x) :
      Step a { a with data := insert (n, x) a.data }
  | receive (n : ℕ) (x : α) (h : (n, x) ∈ a.data) : Step a { a with held := insert (n, x) a.held }
  | advance (x : α) (h : (a.base, x) ∈ a.held) :
      Step a { a with base := a.base + 1, held := a.held \ {(a.base, x)} }
  | ack (n : ℕ) (h : a.Arrived n) : Step a { a with acks := insert n a.acks }
  | count : Step a { a with counts := insert a.base a.counts }
  | drop (u : Set ℕ) (hsub : u ⊆ a.unacked) (h : ∀ n ∈ a.unacked, n ∉ u → a.Acked n) :
      Step a { a with unacked := u }

abbrev Steps : Arq α → Arq α → Prop := Relation.ReflTransGen Step

structure Safe (a : Arq α) : Prop where
  next_le : a.next ≤ a.log.length
  lt_next : ∀ n ∈ a.unacked, n < a.next
  data : ∀ p ∈ a.data, p.1 < a.next ∧ a.log[p.1]? = some p.2
  held : ∀ p ∈ a.held, p.1 < a.next ∧ a.log[p.1]? = some p.2
  base_le : a.base ≤ a.next
  acks : ∀ n ∈ a.acks, a.Arrived n
  counts : ∀ n ∈ a.counts, n ≤ a.base
  arrived : ∀ n < a.next, n ∉ a.unacked → a.Arrived n

theorem Safe.init : (init : Arq α).Safe where
  next_le := le_rfl
  lt_next n h := absurd h (Set.notMem_empty n)
  data p h := absurd h (Set.notMem_empty p)
  held p h := absurd h (Set.notMem_empty p)
  base_le := le_rfl
  acks n h := absurd h (Set.notMem_empty n)
  counts n h := absurd h (Set.notMem_empty n)
  arrived n h := absurd h (Nat.not_lt_zero n)

/-- What the log held, it holds when more is submitted. -/
theorem getElem?_submit (h : n < a.next ∧ a.log[n]? = some x) (ys : List α) :
    n < a.next ∧ (a.log ++ ys)[n]? = some x := by
  refine ⟨h.1, ?_⟩
  obtain ⟨hlt, -⟩ := List.getElem?_eq_some_iff.mp h.2
  rw [List.getElem?_append_left hlt]
  exact h.2

/-- What the sender has been told is true. -/
theorem Safe.arrived_of_acked (h : a.Safe) (hn : a.Acked n) : a.Arrived n := by
  rcases hn with hn | ⟨c, hc, hlt⟩
  · exact h.acks n hn
  · exact .inl (hlt.trans_le (h.counts c hc))

/-- What has arrived stays there. -/
theorem Step.arrived (hs : Step a b) (hn : a.Arrived n) : b.Arrived n := by
  cases hs with
  | receive m x h =>
    rcases hn with hlt | ⟨y, hy⟩
    · exact .inl hlt
    · exact .inr ⟨y, Set.mem_insert_of_mem _ hy⟩
  | advance x h =>
    rcases hn with hlt | ⟨y, hy⟩
    · exact .inl (Nat.lt_succ_of_lt hlt)
    · by_cases heq : n = a.base
      · exact .inl (heq ▸ Nat.lt_succ_self _)
      · exact .inr ⟨y, hy, fun h => heq (congrArg Prod.fst h)⟩
  | submit | number | transmit | ack | count | drop => exact hn

/-- **One step** keeps the invariant. -/
theorem Safe.step (h : a.Safe) (hs : Step a b) : b.Safe := by
  have hmono : ∀ n, a.Arrived n → b.Arrived n := fun _ => hs.arrived
  cases hs with
  | submit xs =>
    exact { h with
      next_le := h.next_le.trans (by rw [List.length_append]; exact Nat.le_add_right _ _)
      data := fun p hp => getElem?_submit (h.data p hp) xs
      held := fun p hp => getElem?_submit (h.held p hp) xs }
  | number hlt =>
    refine { h with
      next_le := hlt
      lt_next := ?_
      data := fun p hp => ⟨Nat.lt_succ_of_lt (h.data p hp).1, (h.data p hp).2⟩
      held := fun p hp => ⟨Nat.lt_succ_of_lt (h.held p hp).1, (h.held p hp).2⟩
      base_le := Nat.le_succ_of_le h.base_le
      arrived := ?_ }
    · rintro n (rfl | hn)
      · exact Nat.lt_succ_self _
      · exact Nat.lt_succ_of_lt (h.lt_next n hn)
    · intro n hn hkept
      rw [Set.mem_insert_iff, not_or] at hkept
      rcases Nat.lt_succ_iff_lt_or_eq.mp hn with hlt | heq
      · exact h.arrived n hlt hkept.2
      · exact absurd heq hkept.1
  | transmit n x hn hx =>
    refine { h with data := ?_ }
    rintro p (rfl | hp)
    · exact ⟨h.lt_next n hn, hx⟩
    · exact h.data p hp
  | receive n x hdata =>
    refine { h with
      held := ?_
      acks := fun m hm => hmono m (h.acks m hm)
      arrived := fun m hm hkept => hmono m (h.arrived m hm hkept) }
    rintro p (rfl | hp)
    · exact h.data _ hdata
    · exact h.held p hp
  | advance x hheld =>
    exact { h with
      held := fun p hp => h.held p hp.1
      base_le := (h.held _ hheld).1
      acks := fun m hm => hmono m (h.acks m hm)
      counts := fun m hm => Nat.le_succ_of_le (h.counts m hm)
      arrived := fun m hm hkept => hmono m (h.arrived m hm hkept) }
  | ack n harrived =>
    refine { h with acks := ?_ }
    rintro m (rfl | hm)
    · exact harrived
    · exact h.acks m hm
  | count =>
    refine { h with counts := ?_ }
    rintro m (rfl | hm)
    · exact le_rfl
    · exact h.counts m hm
  | drop u hsub hacked =>
    refine { h with
      lt_next := fun m hm => h.lt_next m (hsub hm)
      arrived := fun m hm hkept => ?_ }
    -- The item was not kept before, or has been acknowledged.
    by_cases hold : m ∈ a.unacked
    · exact h.arrived_of_acked (hacked m hold hkept)
    · exact h.arrived m hm hold

/-- **A run** keeps the invariant. -/
theorem Safe.steps (h : a.Safe) (hs : Steps a b) : b.Safe := by
  induction hs with
  | refl => exact h
  | tail _ hs ih => exact ih.step hs

/-! ## What only grows -/

/-- The log and the packets only grow, and the receiver goes on. -/
structure Le (a b : Arq α) : Prop where
  log : a.log <+: b.log
  next : a.next ≤ b.next
  base : a.base ≤ b.base
  data : a.data ⊆ b.data
  acks : a.acks ⊆ b.acks
  counts : a.counts ⊆ b.counts

theorem Le.refl (a : Arq α) : Le a a :=
  ⟨List.prefix_rfl, le_rfl, le_rfl, subset_rfl, subset_rfl, subset_rfl⟩

theorem Le.trans (h : Le a b) (h' : Le b c) : Le a c :=
  ⟨h.log.trans h'.log, h.next.trans h'.next, h.base.trans h'.base, h.data.trans h'.data,
    h.acks.trans h'.acks, h.counts.trans h'.counts⟩

theorem Step.le (h : Step a b) : Le a b := by
  cases h with
  | submit xs => exact { Le.refl a with log := List.prefix_append _ _ }
  | transmit n x hn hx => exact { Le.refl a with data := Set.subset_insert _ _ }
  | ack n h => exact { Le.refl a with acks := Set.subset_insert _ _ }
  | count => exact { Le.refl a with counts := Set.subset_insert _ _ }
  | number h => exact { Le.refl a with next := Nat.le_succ _ }
  | advance x h => exact { Le.refl a with base := Nat.le_succ _ }
  | receive | drop => exact { Le.refl a with }

theorem Steps.arrived (h : Steps a b) (hn : a.Arrived n) : b.Arrived n := by
  induction h with
  | refl => exact hn
  | tail _ hs ih => exact hs.arrived ih

theorem Steps.le (h : Steps a b) : Le a b := by
  induction h with
  | refl => exact Le.refl a
  | tail _ hs ih => exact ih.trans hs.le

/-! ## Several steps at once -/

/-- The next items get numbers. -/
theorem steps_number (a : Arq α) {k : ℕ} (h : a.next + k ≤ a.log.length) :
    Steps a { a with
      next := a.next + k
      unacked := a.unacked ∪ Set.Ico a.next (a.next + k) } := by
  induction k with
  | zero =>
    rw [Nat.add_zero, Set.Ico_self, Set.union_empty]
  | succ k ih =>
    have hset : insert (a.next + k) (a.unacked ∪ Set.Ico a.next (a.next + k)) =
        a.unacked ∪ Set.Ico a.next (a.next + (k + 1)) := by
      ext n
      have hiff : n = a.next + k ∨ (a.next ≤ n ∧ n < a.next + k) ↔
          a.next ≤ n ∧ n < a.next + (k + 1) := by omega
      simp only [Set.mem_insert_iff, Set.mem_union, Set.mem_Ico]
      rw [or_left_comm, hiff]
    rw [← hset]
    exact (ih (by omega)).tail (.number (by simp only; omega))

/-- Some items are transmitted. -/
theorem steps_transmit (a : Arq α) (ps : List (ℕ × α))
    (h : ∀ p ∈ ps, p.1 ∈ a.unacked ∧ a.log[p.1]? = some p.2) :
    Steps a { a with data := a.data ∪ {p | p ∈ ps} } := by
  induction ps with
  | nil =>
    rw [show a.data ∪ {p | p ∈ ([] : List (ℕ × α))} = a.data by simp]
  | cons p ps ih =>
    obtain ⟨⟨hn, hx⟩, hrest⟩ := List.forall_mem_cons.mp h
    have hset : insert (p.1, p.2) (a.data ∪ {q | q ∈ ps}) = a.data ∪ {q | q ∈ p :: ps} := by
      ext q
      simp only [Set.mem_insert_iff, Set.mem_union, Set.mem_ofPred_eq, List.mem_cons]
      exact or_left_comm
    rw [← hset]
    exact (ih hrest).tail (.transmit p.1 p.2 hn hx)

/-- Some numbers are acknowledged. -/
theorem steps_ack (a : Arq α) (ns : List ℕ) (h : ∀ n ∈ ns, a.Arrived n) :
    Steps a { a with acks := a.acks ∪ {n | n ∈ ns} } := by
  induction ns with
  | nil =>
    rw [show a.acks ∪ {n | n ∈ ([] : List ℕ)} = a.acks by simp]
  | cons n ns ih =>
    obtain ⟨hn, hrest⟩ := List.forall_mem_cons.mp h
    have hset : insert n (a.acks ∪ {m | m ∈ ns}) = a.acks ∪ {m | m ∈ n :: ns} := by
      ext m
      simp only [Set.mem_insert_iff, Set.mem_union, Set.mem_ofPred_eq, List.mem_cons]
      exact or_left_comm
    rw [← hset]
    exact (ih hrest).tail (.ack n hn)

/-- The receiver goes on over the items that are next. -/
theorem steps_advance (a : Arq α) (ps : List (ℕ × α)) (held : Set (ℕ × α))
    (hcounts : ps.map Prod.fst = List.range' a.base ps.length)
    (hheld : a.held = held ∪ {p | p ∈ ps}) (hlt : ∀ p ∈ held, a.base + ps.length ≤ p.1) :
    Steps a { a with base := a.base + ps.length, held := held } := by
  induction ps generalizing a with
  | nil =>
    have hset : held = a.held := by
      rw [hheld]
      simp
    rw [hset]
    exact Relation.ReflTransGen.refl
  | cons p ps ih =>
    rw [List.map_cons, List.length_cons, List.range'_succ] at hcounts
    obtain ⟨hp, hrest⟩ := List.cons.inj hcounts
    have hmem : (a.base, p.2) ∈ a.held := by
      rw [hheld, ← hp]
      exact .inr List.mem_cons_self
    have hset : a.held \ {(a.base, p.2)} = held ∪ {q | q ∈ ps} := by
      rw [hheld, ← hp]
      ext q
      simp only [Set.mem_sdiff, Set.mem_union, Set.mem_ofPred_eq, List.mem_cons,
        Set.mem_singleton_iff]
      constructor
      · rintro ⟨hq | rfl | hq, hne⟩
        · exact .inl hq
        · exact absurd rfl hne
        · exact .inr hq
      · -- The others have greater numbers.
        rintro (hq | hq)
        · refine ⟨.inl hq, fun heq => ?_⟩
          have hge := hlt q hq
          rw [heq, hp, List.length_cons] at hge
          omega
        · refine ⟨.inr (.inr hq), fun heq => ?_⟩
          have hcount : q.1 ∈ List.range' (a.base + 1) ps.length :=
            hrest ▸ List.mem_map_of_mem hq
          rw [heq, hp, List.mem_range'_1] at hcount
          omega
    have hfirst : Step a { a with base := a.base + 1, held := held ∪ {q | q ∈ ps} } := by
      rw [← hset]
      exact .advance p.2 hmem
    have hlen : a.base + 1 + ps.length = a.base + (p :: ps).length := by
      rw [List.length_cons]
      omega
    have hsteps := ih { a with base := a.base + 1, held := held ∪ {q | q ∈ ps} } hrest rfl
      fun q hq => hlen ▸ hlt q hq
    simp only [hlen] at hsteps
    exact (Relation.ReflTransGen.single hfirst).trans hsteps

end Arq

end CodingDemo
