import CodingDemo.Container.PartialMap
import CodingDemo.Reactor.Channel
import Mathlib.Data.Fintype.Defs
import Mathlib.Logic.Function.Basic

/-!
# The channels of a poller

A poller is asked to watch channels. Each open descriptor has at most one channel. A channel calls
`updateChannel` whenever its interest changes, and is then registered until `removeChannel`; while
it is registered it is not destroyed.

## Main definitions

* `PolledChannel`: a channel with its descriptor and its index, which belongs to the poller
* `LiveChannels`: the channels, and which of them are registered
* `PollerCall`: the calls that reach a poller
* `Enabled`: the calls that can be made
-/

namespace CodingDemo.Libcpp

universe u

/-- A channel with what a poller uses of it. -/
structure PolledChannel extends Channel where
  fd : ℤ
  index : ℤ := -1
  deriving DecidableEq

/-- The channels that exist. -/
structure LiveChannels (ι : Type u) where
  channel : ι → Option PolledChannel
  /-- The channels that have called `updateChannel` and not been removed since. -/
  registered : ι → Bool

/-- The calls that reach a poller. -/
inductive PollerCall (ι : Type u)
  | create (c : ι) (fd : ℤ)
  | destroy (c : ι)
  /-- The channel `c` changes its interest, and then calls `updateChannel`. -/
  | update (c : ι) (interest : Interest)
  | removeChannel (c : ι)
  deriving DecidableEq

namespace LiveChannels

variable {ι : Type u} [DecidableEq ι]

def none : LiveChannels ι where
  channel _ := .none
  registered _ := false

/-- The constructor of a channel. -/
def create (q : LiveChannels ι) (c : ι) (fd : ℤ) : LiveChannels ι :=
  { q with channel := Function.update q.channel c (some { fd := fd }) }

def destroy (q : LiveChannels ι) (c : ι) : LiveChannels ι :=
  { q with channel := Function.update q.channel c .none }

/-- The channel with other events. -/
def setEvents (q : LiveChannels ι) (c : ι) (interest : Interest) : LiveChannels ι where
  channel := Function.update q.channel c
    ((q.channel c).map fun ch => { ch with toChannel := interest.apply ch.toChannel })
  registered := Function.update q.registered c true

def setIndex (q : LiveChannels ι) (c : ι) (index : ℤ) : LiveChannels ι :=
  { q with channel :=
      Function.update q.channel c ((q.channel c).map fun ch => { ch with index := index }) }

def unregister (q : LiveChannels ι) (c : ι) : LiveChannels ι :=
  { q with registered := Function.update q.registered c false }

/-- What a poller is asked to watch: the channels without their indices. -/
def watched (q : LiveChannels ι) (c : ι) : Option (Channel × ℤ) :=
  (q.channel c).map fun ch => (ch.toChannel, ch.fd)

omit [DecidableEq ι] in
theorem watched_eq_some {q : LiveChannels ι} {c : ι} {ch : Channel} {fd : ℤ} :
    q.watched c = some (ch, fd) ↔
      ∃ ch', q.channel c = some ch' ∧ ch'.toChannel = ch ∧ ch'.fd = fd := by
  simp [watched]

theorem watched_eq_update {q q' : LiveChannels ι} {c : ι} (ch : Option PolledChannel)
    (h : q'.channel = Function.update q.channel c ch) :
    q'.watched = Function.update q.watched c (ch.map fun ch => (ch.toChannel, ch.fd)) := by
  funext d
  unfold watched
  rw [h]
  by_cases hdc : d = c
  · rw [hdc, Function.update_self, Function.update_self]
  · rw [Function.update_of_ne hdc, Function.update_of_ne hdc]

@[simp] theorem watched_create (q : LiveChannels ι) (c : ι) (fd : ℤ) :
    (q.create c fd).watched = Function.update q.watched c (some ({}, fd)) :=
  watched_eq_update (some { fd := fd }) rfl

@[simp] theorem watched_destroy (q : LiveChannels ι) (c : ι) :
    (q.destroy c).watched = Function.update q.watched c .none :=
  watched_eq_update .none rfl

/-- The calls that can be made: a descriptor has no second channel, and a registered channel is not
destroyed. -/
def Enabled (q : LiveChannels ι) : PollerCall ι → Prop
  | .create c fd => q.channel c = .none ∧ 0 ≤ fd ∧ ∀ c', ∀ ch ∈ q.channel c', ch.fd ≠ fd
  | .destroy c => (q.channel c).isSome ∧ q.registered c = false
  | .update c _ => (q.channel c).isSome
  | .removeChannel c => (q.channel c).isSome

instance [Fintype ι] (q : LiveChannels ι) : (call : PollerCall ι) → Decidable (q.Enabled call)
  | .create c fd => inferInstanceAs (Decidable
      (q.channel c = .none ∧ 0 ≤ fd ∧ ∀ c', ∀ ch ∈ q.channel c', ch.fd ≠ fd))
  | .destroy c => inferInstanceAs (Decidable ((q.channel c).isSome = true ∧ q.registered c = false))
  | .update c _ => inferInstanceAs (Decidable ((q.channel c).isSome = true))
  | .removeChannel c => inferInstanceAs (Decidable ((q.channel c).isSome = true))

omit [DecidableEq ι] in
theorem isSome_watched (q : LiveChannels ι) (c : ι) :
    (q.watched c).isSome = (q.channel c).isSome :=
  Option.isSome_map

omit [DecidableEq ι] in
/-- Whether a call can be made does not depend on the indices. -/
theorem Enabled.congr {q r : LiveChannels ι} {call : PollerCall ι} (h : q.Enabled call)
    (hregistered : q.registered = r.registered) (hwatched : q.watched = r.watched) :
    r.Enabled call := by
  have hsome : ∀ c, (q.channel c).isSome = (r.channel c).isSome := by
    intro c
    rw [← isSome_watched, hwatched, isSome_watched]
  cases call with
  | create c fd =>
    obtain ⟨hc, hfd, hfree⟩ := h
    refine ⟨?_, hfd, fun d chd hd => ?_⟩
    · rw [← Option.not_isSome_iff_eq_none, ← hsome, hc]
      exact Bool.false_ne_true
    · have hw : q.watched d = some (chd.toChannel, chd.fd) := by
        rw [hwatched]
        exact watched_eq_some.mpr ⟨chd, hd, rfl, rfl⟩
      obtain ⟨chd', hd', -, hfd'⟩ := watched_eq_some.mp hw
      rw [← hfd']
      exact hfree d chd' hd'
  | destroy c => exact ⟨hsome c ▸ h.1, hregistered ▸ h.2⟩
  | update c interest =>
    exact (hsome c).symm.trans h
  | removeChannel c =>
    exact (hsome c).symm.trans h

end LiveChannels

end CodingDemo.Libcpp
