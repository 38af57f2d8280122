import Mathlib.Data.List.Basic
import Mathlib.Tactic.Common

/-!
# Machines that can fault, and their runs

A machine has initial states, a condition that says which events can happen in a state, and
a step function that either moves to the next state or ends in a fault. A run is a sequence
of enabled events none of which faults. Invariants are proved one step at a time; properties
that hold only as long as a condition is met are proved on the machine guarded by it.

## Main definitions

* `Machine`: initial states, enabled events and a step function with faults
* `Machine.Run`, `Machine.Reachable`: the fault-free runs, and the states they reach
* `Machine.Preserves`: a property kept by every fault-free step
* `Machine.NeverFaults`: no enabled event faults in a reachable state
* `Machine.CanFault`: a run from the state ends in a fault
* `Machine.exec`: the state a list of events leads to, computed
* `Machine.guard C`: the machine restricted to the steps that meet `C`
* `Machine.Along P`: a property of every state of a run
* `Machine.Each R`: a relation that every step of a run has
* `Machine.Meets C`: a condition on every event, up to the first fault

## Main results

* `Machine.Reachable.invariant`: a preserved property that holds initially holds of every
  reachable state
* `Machine.neverFaults_of_invariant`: an invariant that rules out the faults of one step rules
  them out in every run
* `Machine.along_iff_run_guard`: a property that one step keeps exactly when it meets `C` holds
  along a run exactly when all steps of the run meet `C`
* `Machine.each_iff_run_guard`: the same for what each step of a run does
* `Machine.exists_run_iff_meets`: if one event does not fault exactly when it meets `C`, the events
  are those of a run exactly when all of them meet `C`
* `Machine.run_and_each_iff_meets`: the same for what each step does
* `Machine.Run.simulated`: a machine that simulates the steps of another one simulates its runs
-/

namespace CodingDemo

universe u v w

/-- A transition system whose step function may fault. -/
structure Machine (σ : Type u) (ε : Type v) (φ : Type w) where
  /-- The initial states. -/
  init : σ → Prop
  /-- The events that can happen in a state. -/
  enabled : σ → ε → Prop
  /-- The effect of an event. -/
  step : σ → ε → Except φ σ

namespace Machine

variable {σ : Type u} {ε : Type v} {φ : Type w} {M : Machine σ ε φ}

/-! ## Runs -/

/-- `M.Run s es s'`: the events `es` happen one after the other from `s`, none of them faults,
and they lead to `s'`. -/
inductive Run (M : Machine σ ε φ) : σ → List ε → σ → Prop
  | nil (s : σ) : Run M s [] s
  | cons {s s' s'' : σ} {e : ε} {es : List ε} :
      M.enabled s e → M.step s e = .ok s' → Run M s' es s'' → Run M s (e :: es) s''

/-- The states of the runs that start in an initial state. -/
def Reachable (M : Machine σ ε φ) (s : σ) : Prop := ∃ s₀ es, M.init s₀ ∧ M.Run s₀ es s

/-- A property that every fault-free step keeps. -/
def Preserves (M : Machine σ ε φ) (I : σ → Prop) : Prop :=
  ∀ ⦃s e s'⦄, I s → M.enabled s e → M.step s e = .ok s' → I s'

/-- No enabled event faults in a reachable state. -/
def NeverFaults (M : Machine σ ε φ) : Prop :=
  ∀ s e, M.Reachable s → M.enabled s e → ∃ s', M.step s e = .ok s'

theorem Run.append {s s' s'' : σ} {es es' : List ε} (h : M.Run s es s') (h' : M.Run s' es' s'') :
    M.Run s (es ++ es') s'' := by
  induction h with
  | nil => exact h'
  | cons he hs _ ih => exact Run.cons he hs (ih h')

/-- A run from the state ends in a fault. -/
def CanFault (M : Machine σ ε φ) (s : σ) : Prop :=
  ∃ es s' e f, M.Run s es s' ∧ M.enabled s' e ∧ M.step s' e = .error f

theorem canFault_of_error {s : σ} {e : ε} {f : φ} (he : M.enabled s e)
    (hs : M.step s e = .error f) : M.CanFault s :=
  ⟨[], s, e, f, Run.nil s, he, hs⟩

theorem CanFault.cons {s s' : σ} {e : ε} (h : M.CanFault s') (he : M.enabled s e)
    (hs : M.step s e = .ok s') : M.CanFault s := by
  obtain ⟨es, s'', e', f, hr, he', hs'⟩ := h
  exact ⟨e :: es, s'', e', f, Run.cons he hs hr, he', hs'⟩

/-! ## Invariants -/

/-- What one step keeps, a run keeps. -/
theorem Run.preserves {I : σ → Prop} (hI : M.Preserves I) {s s' : σ} {es : List ε}
    (hr : M.Run s es s') (h : I s) : I s' := by
  induction hr with
  | nil => exact h
  | cons he hs _ ih => exact ih (hI h he hs)

/-- A preserved property that holds initially holds of every reachable state. -/
theorem Reachable.invariant {I : σ → Prop} (hI : M.Preserves I) (h₀ : ∀ s, M.init s → I s)
    {s : σ} (h : M.Reachable s) : I s := by
  obtain ⟨s₀, es, hi, hr⟩ := h
  exact hr.preserves hI (h₀ s₀ hi)

/-- An invariant may be used to prove the next one. -/
theorem Preserves.and {I J : σ → Prop} (hI : M.Preserves I)
    (hJ : ∀ ⦃s e s'⦄, I s → J s → M.enabled s e → M.step s e = .ok s' → J s') :
    M.Preserves fun s => I s ∧ J s :=
  fun _ _ _ h he hs => ⟨hI h.1 he hs, hJ h.1 h.2 he hs⟩

/-- An invariant that rules out the faults of one step rules them out in every run. -/
theorem neverFaults_of_invariant {I : σ → Prop} (hI : M.Preserves I)
    (h₀ : ∀ s, M.init s → I s)
    (hok : ∀ ⦃s e⦄, I s → M.enabled s e → ∃ s', M.step s e = .ok s') : M.NeverFaults :=
  fun _ _ hr he => hok (hr.invariant hI h₀) he

/-! ## Executing a run -/

/-- The state the events lead to, if they are all enabled and none faults. -/
def exec (M : Machine σ ε φ) [∀ s e, Decidable (M.enabled s e)] : σ → List ε → Option σ
  | s, [] => some s
  | s, e :: es =>
    if M.enabled s e then
      match M.step s e with
      | .ok s' => exec M s' es
      | .error _ => none
    else none

theorem run_of_exec [∀ s e, Decidable (M.enabled s e)] {s s' : σ} {es : List ε}
    (h : M.exec s es = some s') : M.Run s es s' := by
  induction es generalizing s with
  | nil =>
    obtain rfl := Option.some.inj h
    exact Run.nil s
  | cons e es ih =>
    simp only [exec] at h
    split at h
    · next he =>
      split at h
      · next s₁ hs => exact Run.cons he hs (ih h)
      · cases h
    · cases h

theorem exec_of_run [∀ s e, Decidable (M.enabled s e)] {s s' : σ} {es : List ε}
    (h : M.Run s es s') : M.exec s es = some s' := by
  induction h with
  | nil => rfl
  | cons he hs _ ih =>
    simp only [exec, if_pos he, hs]
    exact ih

/-! ## Runs all of whose steps meet a condition -/

/-- The machine restricted to the steps that meet `C`. -/
def guard (M : Machine σ ε φ) (C : σ → ε → Prop) : Machine σ ε φ where
  init := M.init
  enabled s e := M.enabled s e ∧ C s e
  step := M.step

@[simp] theorem guard_enabled (C : σ → ε → Prop) (s : σ) (e : ε) :
    (M.guard C).enabled s e ↔ M.enabled s e ∧ C s e := Iff.rfl

theorem Run.of_guard {C : σ → ε → Prop} {s s' : σ} {es : List ε}
    (h : (M.guard C).Run s es s') : M.Run s es s' := by
  induction h with
  | nil => exact Run.nil _
  | cons he hs _ ih => exact Run.cons he.1 hs ih

theorem Run.guard_mono {C D : σ → ε → Prop} (hCD : ∀ s e, C s e → D s e) {s s' : σ}
    {es : List ε} (h : (M.guard C).Run s es s') : (M.guard D).Run s es s' := by
  induction h with
  | nil => exact Run.nil _
  | cons he hs _ ih => exact Run.cons ⟨he.1, hCD _ _ he.2⟩ hs ih

theorem Run.guard_of_forall {C : ε → Prop} {s s' : σ} {es : List ε} (h : M.Run s es s')
    (hC : ∀ e ∈ es, C e) : (M.guard fun _ e => C e).Run s es s' := by
  induction h with
  | nil => exact Run.nil _
  | cons he hs _ ih =>
    obtain ⟨hce, hces⟩ := List.forall_mem_cons.mp hC
    exact Run.cons ⟨he, hce⟩ hs (ih hces)

theorem Reachable.of_guard {C : σ → ε → Prop} {s : σ} (h : (M.guard C).Reachable s) :
    M.Reachable s := by
  obtain ⟨s₀, es, hi, hr⟩ := h
  exact ⟨s₀, es, hi, hr.of_guard⟩

theorem Preserves.guard {I : σ → Prop} (h : M.Preserves I) (C : σ → ε → Prop) :
    (M.guard C).Preserves I :=
  fun _ _ _ hI he hs => h hI he.1 hs

/-- `P` holds in every state of the run of `es` from `s`. -/
def Along (M : Machine σ ε φ) (P : σ → Prop) : σ → List ε → Prop
  | s, [] => P s
  | s, e :: es => P s ∧ ∀ s', M.step s e = .ok s' → Along M P s' es

theorem Along.head {P : σ → Prop} {s : σ} {es : List ε} (h : M.Along P s es) : P s := by
  cases es with
  | nil => exact h
  | cons e es => exact h.1

/-- If the steps that meet `C` keep an invariant that implies `P`, and no other step leads to `P`
again, then `P` holds along a run exactly when all steps of the run meet `C`. -/
theorem along_iff_run_guard_of_invariant {P Q : σ → Prop} {C : σ → ε → Prop}
    (hP : ∀ ⦃s⦄, Q s → P s)
    (hkeep : ∀ ⦃s e s'⦄, Q s → M.enabled s e → M.step s e = .ok s' → C s e → Q s')
    (hneed : ∀ ⦃s e s'⦄, Q s → M.enabled s e → M.step s e = .ok s' → P s' → C s e)
    {s s' : σ} {es : List ε} (hr : M.Run s es s') (h : Q s) :
    M.Along P s es ↔ (M.guard C).Run s es s' := by
  induction hr with
  | nil s => exact ⟨fun _ => Run.nil s, fun _ => hP h⟩
  | @cons s s₁ s₂ e es he hs hr ih =>
    constructor
    · rintro ⟨-, hrest⟩
      have hc : C s e := hneed h he hs (hrest s₁ hs).head
      exact Run.cons ⟨he, hc⟩ hs ((ih (hkeep h he hs hc)).mp (hrest s₁ hs))
    · intro hg
      cases hg with
      | cons he' hs' hr' =>
        have hs' : M.step s e = .ok _ := hs'
        obtain rfl : s₁ = _ := Except.ok.inj (hs.symm.trans hs')
        refine ⟨hP h, fun t ht => ?_⟩
        obtain rfl : s₁ = t := Except.ok.inj (hs.symm.trans ht)
        exact (ih (hkeep h he hs he'.2)).mpr hr'

/-- If, under an invariant, one step keeps `P` exactly when it meets `C`, then `P` holds along a
run exactly when all steps of the run meet `C`. -/
theorem along_iff_run_guard {I P : σ → Prop} {C : σ → ε → Prop} (hI : M.Preserves I)
    (hstep : ∀ ⦃s e s'⦄, I s → P s → M.enabled s e → M.step s e = .ok s' → (P s' ↔ C s e))
    {s s' : σ} {es : List ε} (hr : M.Run s es s') (h : I s) (hp : P s) :
    M.Along P s es ↔ (M.guard C).Run s es s' :=
  along_iff_run_guard_of_invariant (Q := fun s => I s ∧ P s) (fun _ h => h.2)
    (fun _ _ _ h he hs hc => ⟨hI h.1 he hs, (hstep h.1 h.2 he hs).mpr hc⟩)
    (fun _ _ _ h he hs hp => (hstep h.1 h.2 he hs).mp hp) hr ⟨h, hp⟩

/-! ## What each step of a run does -/

/-- `R` holds of every step of the run of `es` from `s`. -/
def Each (M : Machine σ ε φ) (R : σ → ε → σ → Prop) : σ → List ε → Prop
  | _, [] => True
  | s, e :: es => ∀ s', M.step s e = .ok s' → R s e s' ∧ Each M R s' es

/-- If, under an invariant that the steps meeting `C` keep, a step has `R` exactly when it meets
`C`, then every step of a run has `R` exactly when all its steps meet `C`. -/
theorem each_iff_run_guard {Q : σ → Prop} {C : σ → ε → Prop} {R : σ → ε → σ → Prop}
    (hkeep : ∀ ⦃s e s'⦄, Q s → M.enabled s e → M.step s e = .ok s' → C s e → Q s')
    (hstep : ∀ ⦃s e s'⦄, Q s → M.enabled s e → M.step s e = .ok s' → (R s e s' ↔ C s e))
    {s s' : σ} {es : List ε} (hr : M.Run s es s') (h : Q s) :
    M.Each R s es ↔ (M.guard C).Run s es s' := by
  induction hr with
  | nil s => exact ⟨fun _ => Run.nil s, fun _ => trivial⟩
  | @cons s s₁ s₂ e es he hs hr ih =>
    constructor
    · intro heach
      obtain ⟨hR, hrest⟩ := heach s₁ hs
      have hc : C s e := (hstep h he hs).mp hR
      exact Run.cons ⟨he, hc⟩ hs ((ih (hkeep h he hs hc)).mp hrest)
    · intro hg
      cases hg with
      | cons he' hs' hr' =>
        have hs' : M.step s e = .ok _ := hs'
        obtain rfl : s₁ = _ := Except.ok.inj (hs.symm.trans hs')
        intro t ht
        obtain rfl : s₁ = t := Except.ok.inj (hs.symm.trans ht)
        exact ⟨(hstep h he hs).mpr he'.2, (ih (hkeep h he hs he'.2)).mpr hr'⟩

/-- What each step that keeps an invariant does, each step of a run does. -/
theorem Run.each {Q : σ → Prop} {R : σ → ε → σ → Prop}
    (hstep : ∀ ⦃s e s'⦄, Q s → M.enabled s e → M.step s e = .ok s' → Q s' ∧ R s e s')
    {s s' : σ} {es : List ε} (hr : M.Run s es s') (h : Q s) : M.Each R s es := by
  induction hr with
  | nil => trivial
  | @cons s s₁ s₂ e es he hs hr ih =>
    intro t ht
    obtain rfl : s₁ = t := Except.ok.inj (hs.symm.trans ht)
    obtain ⟨h₁, hR⟩ := hstep h he hs
    exact ⟨hR, ih h₁⟩

/-! ## Which events can happen without a fault -/

/-- `C` holds of every event, up to the first fault. -/
def Meets (M : Machine σ ε φ) (C : σ → ε → Prop) : σ → List ε → Prop
  | _, [] => True
  | s, e :: es => C s e ∧ ∀ s', M.step s e = .ok s' → Meets M C s' es

/-- If, under an invariant that the events meeting `C` keep, an event leads to a state with `R`
exactly when it meets `C`, then events are those of a run with `R` at each step exactly when all of
them meet `C`. -/
theorem run_and_each_iff_meets {Q : σ → Prop} {C : σ → ε → Prop} {R : σ → ε → σ → Prop}
    (hen : ∀ s e, M.enabled s e)
    (hkeep : ∀ ⦃s e s'⦄, Q s → M.step s e = .ok s' → C s e → Q s')
    (hstep : ∀ ⦃s e⦄, Q s → ((∃ s', M.step s e = .ok s' ∧ R s e s') ↔ C s e))
    {s : σ} (h : Q s) (es : List ε) :
    ((∃ s', M.Run s es s') ∧ M.Each R s es) ↔ M.Meets C s es := by
  induction es generalizing s with
  | nil => exact iff_of_true ⟨⟨s, Run.nil s⟩, trivial⟩ trivial
  | cons e es ih =>
    constructor
    · rintro ⟨⟨s', hr⟩, heach⟩
      cases hr with
      | cons he hs hr =>
        obtain ⟨hR, hrest⟩ := heach _ hs
        have hc : C s e := (hstep h).mp ⟨_, hs, hR⟩
        refine ⟨hc, fun t ht => ?_⟩
        obtain rfl := Except.ok.inj (hs.symm.trans ht)
        exact (ih (hkeep h hs hc)).mp ⟨⟨s', hr⟩, hrest⟩
    · rintro ⟨hc, hrest⟩
      obtain ⟨s₁, hs, hR⟩ := (hstep h).mpr hc
      obtain ⟨⟨s', hr⟩, heach⟩ := (ih (hkeep h hs hc)).mpr (hrest s₁ hs)
      refine ⟨⟨s', Run.cons (hen s e) hs hr⟩, fun t ht => ?_⟩
      obtain rfl := Except.ok.inj (hs.symm.trans ht)
      exact ⟨hR, heach⟩

/-- If, under an invariant, an enabled event does not fault exactly when it meets `C`, then events
are those of a run exactly when all of them meet `C`. -/
theorem exists_run_iff_meets {Q : σ → Prop} {C : σ → ε → Prop} (hen : ∀ s e, M.enabled s e)
    (hQ : M.Preserves Q) (hok : ∀ ⦃s e⦄, Q s → ((∃ s', M.step s e = .ok s') ↔ C s e))
    {s : σ} (h : Q s) (es : List ε) : (∃ s', M.Run s es s') ↔ M.Meets C s es := by
  have hiff : ((∃ s', M.Run s es s') ∧ M.Each (fun _ _ _ => True) s es) ↔ M.Meets C s es := by
    apply run_and_each_iff_meets hen (fun _ _ _ hq hs _ => hQ hq (hen _ _) hs) _ h
    intro s e hq
    simp only [and_true]
    exact hok hq
  rw [← hiff]
  refine (and_iff_left_of_imp ?_).symm
  rintro ⟨s', hr⟩
  exact hr.each (fun _ _ _ hq he hs => ⟨hQ hq he hs, trivial⟩) h

/-! ## Two machines side by side -/

/-- A machine that simulates the steps of another one simulates its runs. -/
theorem Run.simulated {σ' : Type*} {φ' : Type*} {N : Machine σ' ε φ'} {R : σ → σ' → Prop}
    (hR : ∀ ⦃s t e s'⦄, R s t → M.enabled s e → M.step s e = .ok s' →
      ∃ t', N.enabled t e ∧ N.step t e = .ok t' ∧ R s' t')
    {s s' : σ} {t : σ'} {es : List ε} (hr : M.Run s es s') (h : R s t) :
    ∃ t', N.Run t es t' ∧ R s' t' := by
  induction hr generalizing t with
  | nil => exact ⟨t, Run.nil t, h⟩
  | cons he hs _ ih =>
    obtain ⟨t₁, he', hs', h₁⟩ := hR h he hs
    obtain ⟨t', hr', h'⟩ := ih h₁
    exact ⟨t', Run.cons he' hs' hr', h'⟩

end Machine

end CodingDemo
