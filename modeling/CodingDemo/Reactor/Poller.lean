import CodingDemo.Reactor.EPoller

/-!
# The poller with poll

`Poller` keeps a vector of `pollfd`, in which the index of a channel is the place of its entry. An
entry whose channel has no interest hides its descriptor by a negative number. A channel that is
removed leaves its place to the last entry.

## Main definitions

* `Pollfd`, `Poller`: the entries and the members
* `updateChannel`, `removeChannel`: the member functions
* `Poller.machine`: the runs of a poller
* `Represents`: the entries represent the registered channels
* `DisablesOnce`: the condition on the calls

## Main results

* `represents_iff_disablesOnce`: in which runs the entries represent the channels, and that the
  poller then watches what an `EPoller` does
-/

namespace CodingDemo.Libcpp

universe u

structure Pollfd where
  fd : ℤ
  events : BitVec 16
  deriving DecidableEq

/-- Undefined behaviour of a poller. -/
inductive PollerFault
  /-- An entry is used that the vector does not have. -/
  | outOfRange
  /-- `channels_` has no channel for the last entry. -/
  | nullPointer
  deriving DecidableEq

structure Poller (ι : Type u) extends LiveChannels ι where
  pollfds : List Pollfd
  /-- The map `channels_`. -/
  channels : ℤ → Option ι

namespace Poller

variable {ι : Type u} [DecidableEq ι]

def init : Poller ι where
  toLiveChannels := LiveChannels.none
  pollfds := []
  channels _ := none

def set_index (q : Poller ι) (c : ι) (index : ℤ) : Poller ι :=
  { q with toLiveChannels := q.toLiveChannels.setIndex c index }

/-- `updateChannel` of the channel `c`, which is `ch`. -/
def updateChannel (q : Poller ι) (c : ι) (ch : PolledChannel) : Except PollerFault (Poller ι) :=
  if ch.index < 0 then
    let pfd : Pollfd := { fd := ch.fd, events := ch.events.setWidth 16 }
    let q := { q with pollfds := q.pollfds ++ [pfd] }
    let q := q.set_index c (q.pollfds.length - 1)
    .ok { q with channels := Function.update q.channels ch.fd (some c) }
  else
    match q.pollfds[ch.index.toNat]? with
    | none => .error .outOfRange
    | some pfd =>
      let pfd := { pfd with events := ch.events.setWidth 16 }
      let pfd := if ch.isNoneEvent then { pfd with fd := -pfd.fd - 1 } else pfd
      .ok { q with pollfds := q.pollfds.set ch.index.toNat pfd }

/-- `removeChannel` of the channel `c`, which is `ch`. A negative index is a large `size_t`, which
is the last index only of an empty vector. -/
def removeChannel (q : Poller ι) (ch : PolledChannel) : Except PollerFault (Poller ι) :=
  let idx := ch.index
  let q := { q with channels := Function.update q.channels ch.fd none }
  match q.pollfds.getLast? with
  | none => .error .outOfRange
  | some back =>
    if idx = q.pollfds.length - 1 then .ok { q with pollfds := q.pollfds.dropLast }
    else if 0 ≤ idx ∧ idx < q.pollfds.length then
      let channelAtEnd := if back.fd < 0 then -back.fd - 1 else back.fd
      match q.channels channelAtEnd with
      | none => .error .nullPointer
      | some d =>
        .ok ({ q with pollfds := (q.pollfds.set idx.toNat back).dropLast }.set_index d idx)
    else .error .outOfRange

/-! ## The machine -/

def step (q : Poller ι) : PollerCall ι → Except PollerFault (Poller ι)
  | .create c fd => .ok { q with toLiveChannels := q.toLiveChannels.create c fd }
  | .destroy c => .ok { q with toLiveChannels := q.toLiveChannels.destroy c }
  | .update c interest =>
    let q := { q with toLiveChannels := q.toLiveChannels.setEvents c interest }
    match q.channel c with
    | some ch => q.updateChannel c ch
    | none => .ok q
  | .removeChannel c =>
    let q := { q with toLiveChannels := q.toLiveChannels.unregister c }
    match q.channel c with
    | some ch => q.removeChannel ch
    | none => .ok q

/-- The runs of a poller that has just been constructed. -/
def machine : Machine (Poller ι) (PollerCall ι) PollerFault where
  init q := q = init
  enabled q := q.toLiveChannels.Enabled
  step := step

instance [Fintype ι] (q : Poller ι) (call : PollerCall ι) : Decidable (machine.enabled q call) :=
  inferInstanceAs (Decidable (q.toLiveChannels.Enabled call))

/-! ## What the entries represent -/

/-- The descriptor in the entry of a channel. -/
def entryFd (ch : PolledChannel) : ℤ := if ch.isNoneEvent then -ch.fd - 1 else ch.fd

/-- The entry of a channel, with its events and its descriptor. -/
structure HasEntry (q : Poller ι) (c : ι) (ch : PolledChannel) : Prop where
  index_nonneg : 0 ≤ ch.index
  entry : ∃ pfd, q.pollfds[ch.index.toNat]? = some pfd ∧ pfd.events.signExtend 32 = ch.events ∧
    pfd.fd = entryFd ch
  channels : q.channels ch.fd = some c

/-- Every registered channel has its entry, and no two have the same. -/
structure Represents (q : Poller ι) : Prop where
  entry : ∀ {c ch}, q.channel c = some ch → q.registered c = true → q.HasEntry c ch
  index_inj : ∀ {c c' ch ch'}, q.channel c = some ch → q.channel c' = some ch' →
    q.registered c = true → q.registered c' = true → ch.index = ch'.index → c = c'

/-- A channel is registered with an interest, is not updated any more once it has disabled all its
events, and is not used any more once it has been removed. -/
def DisablesOnce (q : Poller ι) : PollerCall ι → Prop
  | .update c interest => ∀ ch ∈ q.channel c,
      if q.registered c then ch.isNoneEvent = false
      else ch.index < 0 ∧ (interest.apply ch.toChannel).isNoneEvent = false
  | .removeChannel c => q.registered c = true
  | _ => True

instance (q : Poller ι) : (call : PollerCall ι) → Decidable (DisablesOnce q call)
  | .create _ _ | .destroy _ => isTrue trivial
  | .update c interest => inferInstanceAs (Decidable (∀ ch ∈ q.channel c,
      if q.registered c then ch.isNoneEvent = false
      else ch.index < 0 ∧ (interest.apply ch.toChannel).isNoneEvent = false))
  | .removeChannel c => inferInstanceAs (Decidable (q.registered c = true))

instance [Fintype ι] (q : Poller ι) (call : PollerCall ι) :
    Decidable ((machine.guard DisablesOnce).enabled q call) :=
  inferInstanceAs (Decidable (q.toLiveChannels.Enabled call ∧ DisablesOnce q call))

/-- `poll` watches the descriptor for these events. -/
def Watches (q : Poller ι) (fd : ℤ) (events : BitVec 32) : Prop :=
  0 ≤ fd ∧ ∃ pfd ∈ q.pollfds, pfd.fd = fd ∧ pfd.events.signExtend 32 = events

/-! ## The invariant -/

/-- The entries represent the registered channels, and all of them belong to one. -/
structure Faithful (q : Poller ι) : Prop where
  represents : Represents q
  fd_inj : ∀ {c c' ch ch'}, q.channel c = some ch → q.channel c' = some ch' → ch.fd = ch'.fd →
    c = c'
  fd_nonneg : ∀ {c ch}, q.channel c = some ch → 0 ≤ ch.fd
  events : ∀ {c ch}, q.channel c = some ch → ch.events ∈ Channel.interests
  live : ∀ {c}, q.registered c = true → ∃ ch, q.channel c = some ch
  owner : ∀ i < q.pollfds.length, ∃ c ch, q.channel c = some ch ∧ q.registered c = true ∧
    ch.index = i
  channels : ∀ {fd c}, q.channels fd = some c →
    ∃ ch, q.channel c = some ch ∧ q.registered c = true ∧ ch.fd = fd

variable {q q' : Poller ι} {c d : ι} {ch ch' chd : PolledChannel} {call : PollerCall ι}
  {pollfds : List Pollfd}

omit [DecidableEq ι] in
theorem faithful_init : Faithful (init : Poller ι) where
  represents := ⟨(nomatch ·), (nomatch ·)⟩
  fd_inj hc := nomatch hc
  fd_nonneg hc := nomatch hc
  events hc := nomatch hc
  live hr := nomatch hr
  owner _ hi := nomatch hi
  channels hc := nomatch hc

/-! ## Updates -/

/-- The poller after a call of the channel `c`, which is then registered as `ch`. -/
def entered (q : Poller ι) (c : ι) (ch : PolledChannel) (pollfds : List Pollfd) : Poller ι where
  channel := Function.update q.channel c (some ch)
  registered := Function.update q.registered c true
  pollfds := pollfds
  channels := Function.update q.channels ch.fd (some c)

/-- A channel of the new state is the one that has called, or an old one. -/
theorem entered_cases (hd : (q.entered c ch pollfds).channel d = some chd) :
    d = c ∧ chd = ch ∨ d ≠ c ∧ q.channel d = some chd :=
  update_some_eq_some.mp hd

theorem registered_entered (hdc : d ≠ c) :
    (q.entered c ch pollfds).registered d = q.registered d :=
  Function.update_of_ne hdc _ _

@[simp] theorem watched_entered :
    (q.entered c ch pollfds).toLiveChannels.watched =
      Function.update q.toLiveChannels.watched c (some (ch.toChannel, ch.fd)) :=
  LiveChannels.watched_eq_update (some ch) rfl

/-- A channel with an entry of its own leaves those of the others as they are. -/
theorem Faithful.entered (h : Faithful q) (hc : q.channel c = some ch) (hfd : ch'.fd = ch.fd)
    (hevents : ch'.events ∈ Channel.interests) (hindex : 0 ≤ ch'.index)
    (hentry : ∃ pfd, pollfds[ch'.index.toNat]? = some pfd ∧
      pfd.events.signExtend 32 = ch'.events ∧ pfd.fd = entryFd ch')
    (hother : ∀ d chd, d ≠ c → q.channel d = some chd → q.registered d = true →
      chd.index ≠ ch'.index ∧ pollfds[chd.index.toNat]? = q.pollfds[chd.index.toNat]?)
    (howner : ∀ i < pollfds.length, (i : ℤ) ≠ ch'.index →
      ∃ d chd, d ≠ c ∧ q.channel d = some chd ∧ q.registered d = true ∧ chd.index = i) :
    Faithful (q.entered c ch' pollfds) := by
  have hself : (q.entered c ch' pollfds).channel c = some ch' := Function.update_self ..
  have hrself : (q.entered c ch' pollfds).registered c = true := Function.update_self ..
  have hne : ∀ {d chd}, d ≠ c → q.channel d = some chd → chd.fd ≠ ch'.fd :=
    fun hdc hd heq => hdc (h.fd_inj hd hc (heq.trans hfd))
  have hkept : ∀ {d chd}, d ≠ c → q.channel d = some chd →
      (q.entered c ch' pollfds).channel d = some chd :=
    fun hdc hd => (Function.update_of_ne hdc _ _).trans hd
  constructor
  case represents =>
    constructor
    · intro d chd hd hr
      rcases entered_cases hd with ⟨rfl, rfl⟩ | ⟨hdc, hold⟩
      · exact ⟨hindex, hentry, Function.update_self ..⟩
      · rw [registered_entered hdc] at hr
        obtain ⟨hnonneg, ⟨pfd, hpfd, hentry⟩, hchannels⟩ := h.represents.entry hold hr
        refine ⟨hnonneg, ⟨pfd, (hother d chd hdc hold hr).2.trans hpfd, hentry⟩, ?_⟩
        exact (Function.update_of_ne (hne hdc hold) _ _).trans hchannels
    · intro d d' chd chd' hd hd' hr hr' heq
      rcases entered_cases hd with ⟨rfl, rfl⟩ | ⟨hdc, hold⟩ <;>
        rcases entered_cases hd' with ⟨rfl, rfl⟩ | ⟨hdc', hold'⟩
      · rfl
      · rw [registered_entered hdc'] at hr'
        exact absurd heq.symm (hother d' chd' hdc' hold' hr').1
      · rw [registered_entered hdc] at hr
        exact absurd heq (hother d chd hdc hold hr).1
      · rw [registered_entered hdc] at hr
        rw [registered_entered hdc'] at hr'
        exact h.represents.index_inj hold hold' hr hr' heq
  case fd_inj =>
    intro d d' chd chd' hd hd' heq
    rcases entered_cases hd with ⟨rfl, rfl⟩ | ⟨hdc, hold⟩ <;>
      rcases entered_cases hd' with ⟨rfl, rfl⟩ | ⟨hdc', hold'⟩
    · rfl
    · exact absurd heq.symm (hne hdc' hold')
    · exact absurd heq (hne hdc hold)
    · exact h.fd_inj hold hold' heq
  case fd_nonneg =>
    intro d chd hd
    rcases entered_cases hd with ⟨rfl, rfl⟩ | ⟨-, hold⟩
    · exact hfd ▸ h.fd_nonneg hc
    · exact h.fd_nonneg hold
  case events =>
    intro d chd hd
    rcases entered_cases hd with ⟨rfl, rfl⟩ | ⟨-, hold⟩
    · exact hevents
    · exact h.events hold
  case live =>
    intro d hr
    by_cases hdc : d = c
    · exact ⟨ch', hdc ▸ hself⟩
    · rw [registered_entered hdc] at hr
      obtain ⟨chd, hd⟩ := h.live hr
      exact ⟨chd, hkept hdc hd⟩
  case owner =>
    intro i hi
    by_cases hic : (i : ℤ) = ch'.index
    · exact ⟨c, ch', hself, hrself, hic.symm⟩
    · obtain ⟨d, chd, hdc, hd, hr, hid⟩ := howner i hi hic
      exact ⟨d, chd, hkept hdc hd, (registered_entered hdc).trans hr, hid⟩
  case channels =>
    intro fd d hd
    rcases update_some_eq_some.mp hd with ⟨hfdc, rfl⟩ | ⟨hfdc, hd⟩
    · exact ⟨ch', hself, hrself, hfdc.symm⟩
    · obtain ⟨chd, hold, hr, hchd⟩ := h.channels hd
      -- a channel with another descriptor is not the one that has called
      have hdc : d ≠ c := by
        rintro rfl
        obtain rfl := Option.some.inj (hc.symm.trans hold)
        exact hfdc (hchd.symm.trans hfd.symm)
      exact ⟨chd, hkept hdc hold, (registered_entered hdc).trans hr, hchd⟩

/-- A channel with other events. -/
abbrev changed (ch : PolledChannel) (interest : Interest) : PolledChannel :=
  { ch with toChannel := interest.apply ch.toChannel }

/-- The entry of a registered channel is changed in its place. -/
theorem update_step_registered (h : Faithful q) (hc : q.channel c = some ch)
    (hr : q.registered c = true) (interest : Interest) :
    q.step (.update c interest) = .ok (q.entered c (changed ch interest)
      (q.pollfds.set ch.index.toNat
        { fd := if (changed ch interest).isNoneEvent then -entryFd ch - 1 else entryFd ch
          events := (changed ch interest).events.setWidth 16 })) := by
  obtain ⟨hindex, ⟨pfd, hpfd, -, hfd⟩, hchannels⟩ := h.represents.entry hc hr
  have hmap : Function.update q.channels ch.fd (some c) = q.channels :=
    Function.update_eq_self_iff.mpr hchannels.symm
  cases hnone : (interest.apply ch.toChannel).isNoneEvent <;>
    simp [step, LiveChannels.setEvents, updateChannel, entered, hc, hpfd, hfd, hmap, hnone,
      not_lt.mpr hindex]

/-- A channel that has not been registered yet gets a new entry. -/
theorem update_step_append (hc : q.channel c = some ch) (hindex : ch.index < 0)
    (interest : Interest) :
    q.step (.update c interest) = .ok (q.entered c
      { changed ch interest with index := q.pollfds.length }
      (q.pollfds ++
        [{ fd := ch.fd, events := (changed ch interest).events.setWidth 16 }])) := by
  simp [step, LiveChannels.setEvents, LiveChannels.setIndex, updateChannel, set_index, entered, hc,
    hindex]

/-- A channel that has been removed and is used again changes the entry of another one, if any. -/
theorem update_step_stale (hc : q.channel c = some ch) (hindex : 0 ≤ ch.index)
    {interest : Interest} (hs : q.step (.update c interest) = .ok q') :
    q'.channel c = some (changed ch interest) ∧ q'.registered c = true ∧
      q'.channels = q.channels := by
  simp only [step, LiveChannels.setEvents, hc, Option.map_some, Function.update_self,
    updateChannel, not_lt.mpr hindex, if_false] at hs
  split at hs
  · cases hs
  · obtain rfl := Except.ok.inj hs
    exact ⟨Function.update_self .., Function.update_self .., rfl⟩

omit [DecidableEq ι] in
theorem Faithful.changed_mem (h : Faithful q) (hc : q.channel c = some ch) (interest : Interest) :
    (changed ch interest).events ∈ Channel.interests :=
  interest.apply_mem (h.events hc)

/-- An interest that has been enabled is changed faithfully. -/
theorem Faithful.update_registered (h : Faithful q) (hc : q.channel c = some ch)
    (hr : q.registered c = true) (hnone : ch.isNoneEvent = false) (interest : Interest) :
    Faithful (q.entered c (changed ch interest) (q.pollfds.set ch.index.toNat
      { fd := if (changed ch interest).isNoneEvent then -entryFd ch - 1 else entryFd ch
        events := (changed ch interest).events.setWidth 16 })) := by
  have hentry := h.represents.entry hc hr
  obtain ⟨hindex, ⟨pfd, hpfd, -⟩, -⟩ := hentry
  have hlt : ch.index.toNat < q.pollfds.length := (List.getElem?_eq_some_iff.mp hpfd).1
  have hmem := h.changed_mem hc interest
  have hfd : (changed ch interest).fd = ch.fd := rfl
  apply h.entered hc hfd hmem hindex
  · refine ⟨_, List.getElem?_set_self hlt, Channel.signExtend_setWidth hmem, ?_⟩
    simp [entryFd, hnone]
  · intro d chd hdc hd hrd
    have hne : chd.index ≠ ch.index := fun heq => hdc (h.represents.index_inj hd hc hrd hr heq)
    have hnonneg := (h.represents.entry hd hrd).index_nonneg
    exact ⟨hne, List.getElem?_set_ne (by omega)⟩
  · intro i hi hic
    rw [List.length_set] at hi
    obtain ⟨d, chd, hd, hrd, hid⟩ := h.owner i hi
    refine ⟨d, chd, ?_, hd, hrd, hid⟩
    rintro rfl
    obtain rfl := Option.some.inj (hc.symm.trans hd)
    exact hic hid.symm

/-- A channel with an interest is registered faithfully. -/
theorem Faithful.update_append (h : Faithful q) (hc : q.channel c = some ch)
    (hr : q.registered c = false) {interest : Interest}
    (hnone : (interest.apply ch.toChannel).isNoneEvent = false) :
    Faithful (q.entered c { changed ch interest with index := q.pollfds.length }
      (q.pollfds ++ [{ fd := ch.fd, events := (changed ch interest).events.setWidth 16 }])) := by
  have hmem := h.changed_mem hc interest
  have hfd : { changed ch interest with index := (q.pollfds.length : ℤ) }.fd = ch.fd := rfl
  apply h.entered hc hfd hmem
  · exact Int.natCast_nonneg _
  · refine ⟨_, List.getElem?_concat_length .., Channel.signExtend_setWidth hmem, ?_⟩
    simp [entryFd, hnone]
  · intro d chd hdc hd hrd
    obtain ⟨hnonneg, ⟨pfd, hpfd, -⟩, -⟩ := h.represents.entry hd hrd
    have hlt : chd.index.toNat < q.pollfds.length := (List.getElem?_eq_some_iff.mp hpfd).1
    refine ⟨?_, List.getElem?_append_left hlt⟩
    show chd.index ≠ (q.pollfds.length : ℤ)
    omega
  · intro i hi hic
    have hne : i ≠ q.pollfds.length := fun heq => hic (congrArg _ heq)
    rw [List.length_append, List.length_singleton] at hi
    obtain ⟨d, chd, hd, hrd, hid⟩ := h.owner i (by omega)
    refine ⟨d, chd, ?_, hd, hrd, hid⟩
    rintro rfl
    rw [hr] at hrd
    cases hrd

/-- No other update leaves the channels represented. -/
theorem Faithful.needs_update (h : Faithful q) {interest : Interest}
    (hs : q.step (.update c interest) = .ok q') (hq' : Represents q') :
    DisablesOnce q (.update c interest) := by
  intro ch hc
  by_cases hr : q.registered c = true
  · rw [if_pos hr]
    rw [update_step_registered h hc hr] at hs
    obtain rfl := Except.ok.inj hs
    have hindex := (h.represents.entry hc hr).index_nonneg
    obtain ⟨-, ⟨pfd, hpfd, -, hfd⟩, -⟩ := hq'.entry (c := c)
      (Function.update_self ..) (Function.update_self ..)
    -- the descriptor has been negated once more, or not been negated back
    have hset : pfd.fd =
        if (changed ch interest).isNoneEvent then -entryFd ch - 1 else entryFd ch := by
      obtain ⟨old, hold, -⟩ := (h.represents.entry hc hr).entry
      have hlt : ch.index.toNat < q.pollfds.length := (List.getElem?_eq_some_iff.mp hold).1
      rw [← Option.some.inj ((List.getElem?_set_self hlt).symm.trans hpfd)]
    have hnonneg := h.fd_nonneg hc
    by_contra hnone
    rw [Bool.not_eq_false] at hnone
    simp only [hset, entryFd, hnone, if_true] at hfd
    split_ifs at hfd <;> omega
  · rw [if_neg hr]
    by_cases hindex : ch.index < 0
    · refine ⟨hindex, ?_⟩
      rw [update_step_append hc hindex] at hs
      obtain rfl := Except.ok.inj hs
      obtain ⟨-, ⟨pfd, hpfd, -, hfd⟩, -⟩ := hq'.entry (c := c)
        (Function.update_self ..) (Function.update_self ..)
      have happend : pfd.fd = ch.fd := by
        rw [← Option.some.inj ((List.getElem?_concat_length ..).symm.trans hpfd)]
      have hnonneg := h.fd_nonneg hc
      by_contra hnone
      rw [Bool.not_eq_false] at hnone
      simp only [happend, entryFd, hnone, if_true] at hfd
      omega
    · -- the map has no channel for the descriptor
      exfalso
      obtain ⟨hc', hr', hchannels⟩ := update_step_stale hc (not_lt.mp hindex) hs
      obtain ⟨-, -, hmap⟩ := hq'.entry hc' hr'
      rw [hchannels] at hmap
      obtain ⟨-, -, hreg, -⟩ := h.channels hmap
      exact hr hreg

/-! ## Removals -/

/-- The last entry moves, with its channel `d`, to the place of the channel `c`, which is `ch`. -/
def moved (q : Poller ι) (c : ι) (ch : PolledChannel) (back : Pollfd) (d : ι) : Poller ι where
  channel :=
    Function.update q.channel d ((q.channel d).map fun chd => { chd with index := ch.index })
  registered := Function.update q.registered c false
  pollfds := (q.pollfds.set ch.index.toNat back).dropLast
  channels := Function.update q.channels ch.fd none

variable {back : Pollfd}

@[simp] theorem watched_moved :
    (q.moved c ch back d).toLiveChannels.watched = q.toLiveChannels.watched := by
  refine (LiveChannels.watched_eq_update _ rfl).trans (Function.update_eq_self_iff.mpr ?_)
  rw [Option.map_map]
  rfl

omit [DecidableEq ι] in
/-- The last entry has the descriptor of its channel. -/
theorem Faithful.back_fd (h : Faithful q) (hd : q.channel d = some chd)
    (hr : q.registered d = true) (hlast : chd.index = q.pollfds.length - 1)
    (hback : q.pollfds.getLast? = some back) :
    (if back.fd < 0 then -back.fd - 1 else back.fd) = chd.fd := by
  obtain ⟨hindex, ⟨pfd, hpfd, -, hfd⟩, -⟩ := h.represents.entry hd hr
  have hnonneg := h.fd_nonneg hd
  have htoNat : chd.index.toNat = q.pollfds.length - 1 := by omega
  rw [htoNat, ← List.getLast?_eq_getElem?, hback] at hpfd
  obtain rfl := Option.some.inj hpfd
  rw [hfd, entryFd]
  split_ifs <;> omega

/-- A registered channel is removed, and the last entry takes its place. -/
theorem removeChannel_step_eq (h : Faithful q) (hc : q.channel c = some ch)
    (hr : q.registered c = true) (hd : q.channel d = some chd) (hrd : q.registered d = true)
    (hlast : chd.index = q.pollfds.length - 1) (hback : q.pollfds.getLast? = some back) :
    q.step (.removeChannel c) = .ok (q.moved c ch back d) := by
  obtain ⟨hindex, ⟨pfd, hpfd, -⟩, -⟩ := h.represents.entry hc hr
  have hlt : ch.index.toNat < q.pollfds.length := (List.getElem?_eq_some_iff.mp hpfd).1
  by_cases hcd : c = d
  · obtain rfl := hcd
    obtain rfl := Option.some.inj (hc.symm.trans hd)
    have hself : Function.update q.channel c
        ((q.channel c).map fun chd => { chd with index := ch.index }) = q.channel := by
      rw [hc]
      exact Function.update_eq_self_iff.mpr hc.symm
    have hset : q.pollfds.set ch.index.toNat back = q.pollfds := by
      have htoNat : ch.index.toNat = q.pollfds.length - 1 := by omega
      rw [List.getLast?_eq_getElem?, ← htoNat] at hback
      apply List.ext_getElem?
      intro i
      by_cases hi : ch.index.toNat = i
      · rw [← hi, List.getElem?_set_self hlt, hback]
      · rw [List.getElem?_set_ne hi]
    rw [moved, hself, hset]
    simp [step, LiveChannels.unregister, removeChannel, hc, hback, hlast]
  · have hne : ch.index ≠ q.pollfds.length - 1 :=
      fun heq => hcd (h.represents.index_inj hc hd hr hrd (heq.trans hlast.symm))
    have hrange : 0 ≤ ch.index ∧ ch.index < q.pollfds.length := by omega
    have hfd : chd.fd ≠ ch.fd := fun heq => hcd (h.fd_inj hd hc heq).symm
    have hmap : Function.update q.channels ch.fd none chd.fd = some d :=
      (Function.update_of_ne hfd _ _).trans (h.represents.entry hd hrd).channels
    simp [step, LiveChannels.unregister, LiveChannels.setIndex, removeChannel, set_index, moved, hc,
      hback, hne, hrange, h.back_fd hd hrd hlast hback, hmap]

omit [DecidableEq ι] in
/-- Some channel has the last entry. -/
theorem Faithful.exists_last (h : Faithful q) (hback : q.pollfds.getLast? = some back) :
    ∃ d chd, q.channel d = some chd ∧ q.registered d = true ∧
      chd.index = q.pollfds.length - 1 := by
  have hpos : 0 < q.pollfds.length :=
    List.length_pos_iff.mpr fun hnil => by simp [hnil] at hback
  obtain ⟨d, chd, hd, hr, hindex⟩ := h.owner (q.pollfds.length - 1) (by omega)
  exact ⟨d, chd, hd, hr, by omega⟩

/-- The place of an entry after a removal. -/
theorem getElem?_moved {i : ℕ} (hi : i < q.pollfds.length - 1) :
    (q.moved c ch back d).pollfds[i]? =
      if ch.index.toNat = i then some back else q.pollfds[i]? := by
  have hlt : i < q.pollfds.length := by omega
  simp only [moved]
  rw [List.getElem?_dropLast, List.length_set, if_pos hi, List.getElem?_set]
  by_cases hplace : ch.index.toNat = i
  · rw [if_pos hplace, if_pos hplace, if_pos (hplace ▸ hlt)]
  · rw [if_neg hplace, if_neg hplace]

/-- A channel of the new state is the moved one, or an old one. -/
theorem channel_moved_cases {e : ι} {che : PolledChannel} (hd : q.channel d = some chd)
    (he : (q.moved c ch back d).channel e = some che) :
    e = d ∧ che = { chd with index := ch.index } ∨ e ≠ d ∧ q.channel e = some che := by
  simp only [moved, hd, Option.map_some] at he
  exact update_some_eq_some.mp he

/-- An old channel has the same descriptor and the same events. -/
theorem exists_channel_of_moved {e : ι} {che : PolledChannel} (hd : q.channel d = some chd)
    (he : (q.moved c ch back d).channel e = some che) :
    ∃ che', q.channel e = some che' ∧ che'.fd = che.fd ∧ che'.toChannel = che.toChannel := by
  rcases channel_moved_cases hd he with ⟨rfl, rfl⟩ | ⟨-, he⟩
  · exact ⟨chd, hd, rfl, rfl⟩
  · exact ⟨che, he, rfl, rfl⟩

theorem channel_moved_self (hd : q.channel d = some chd) :
    (q.moved c ch back d).channel d = some { chd with index := ch.index } := by
  simp only [moved, hd, Option.map_some, Function.update_self]

theorem channel_moved_of_ne {e : ι} (h : e ≠ d) :
    (q.moved c ch back d).channel e = q.channel e :=
  Function.update_of_ne h ..

/-- Only the removed channel is not registered any more. -/
theorem registered_moved_iff {e : ι} :
    (q.moved c ch back d).registered e = true ↔ e ≠ c ∧ q.registered e = true := by
  simp only [moved]
  by_cases hec : e = c
  · simp [hec]
  · rw [Function.update_of_ne hec]
    exact (and_iff_right hec).symm

theorem Faithful.channels_moved (h : Faithful q) (hc : q.channel c = some ch) {e : ι}
    {che : PolledChannel} (hec : e ≠ c) (he : q.channel e = some che)
    (hre : q.registered e = true) : (q.moved c ch back d).channels che.fd = some e := by
  have hfd : che.fd ≠ ch.fd := fun heq => hec (h.fd_inj he hc heq)
  exact (Function.update_of_ne hfd _ _).trans (h.represents.entry he hre).channels

omit [DecidableEq ι] in
/-- The channels but the one with the last entry have their entries before it. -/
theorem Faithful.index_lt (h : Faithful q) (hd : q.channel d = some chd)
    (hrd : q.registered d = true) (hlast : chd.index = q.pollfds.length - 1) {e : ι}
    {che : PolledChannel} (he : q.channel e = some che) (hre : q.registered e = true)
    (hed : e ≠ d) : 0 ≤ che.index ∧ che.index.toNat < q.pollfds.length - 1 := by
  obtain ⟨hindex, ⟨pfd, hpfd, -⟩, -⟩ := h.represents.entry he hre
  have hlen : che.index.toNat < q.pollfds.length := (List.getElem?_eq_some_iff.mp hpfd).1
  have hne : che.index ≠ chd.index := fun heq => hed (h.represents.index_inj he hd hre hrd heq)
  omega

/-- The last entry takes the place of the one that is removed. -/
theorem Faithful.represents_moved (h : Faithful q) (hc : q.channel c = some ch)
    (hr : q.registered c = true) (hd : q.channel d = some chd) (hrd : q.registered d = true)
    (hlast : chd.index = q.pollfds.length - 1) (hback : q.pollfds.getLast? = some back) :
    Represents (q.moved c ch back d) := by
  constructor
  case entry =>
    intro e che he hre
    obtain ⟨hec, hregd⟩ := registered_moved_iff.mp hre
    rcases channel_moved_cases hd he with ⟨hed, rfl⟩ | ⟨hed, hche⟩
    · obtain ⟨hindex, hplace⟩ := h.index_lt hd hrd hlast hc hr (hed ▸ Ne.symm hec)
      obtain ⟨-, ⟨pfd, hpfd, hentry⟩, -⟩ := h.represents.entry hd hrd
      have hown : (q.moved c ch back d).channels chd.fd = some d :=
        h.channels_moved hc (hed ▸ hec) hd hrd
      refine ⟨hindex, ⟨back, ?_, ?_⟩, hown.trans (congrArg some hed.symm)⟩
      · rw [getElem?_moved hplace, if_pos rfl]
      · have htoNat : chd.index.toNat = q.pollfds.length - 1 := by omega
        rw [htoNat, ← List.getLast?_eq_getElem?, hback] at hpfd
        obtain rfl := Option.some.inj hpfd
        exact hentry
    · obtain ⟨hindex, hplace⟩ := h.index_lt hd hrd hlast hche hregd hed
      obtain ⟨-, ⟨pfd, hpfd, hentry⟩, -⟩ := h.represents.entry hche hregd
      refine ⟨hindex, ⟨pfd, ?_, hentry⟩, h.channels_moved hc hec hche hregd⟩
      have hne : ch.index ≠ che.index :=
        fun heq => hec (h.represents.index_inj hc hche hr hregd heq).symm
      have hnonneg := (h.represents.entry hc hr).index_nonneg
      rw [getElem?_moved hplace, if_neg (by omega), hpfd]
  case index_inj =>
    intro e e' che che' he he' hre hre' heq
    obtain ⟨hec, hregd⟩ := registered_moved_iff.mp hre
    obtain ⟨hec', hregd'⟩ := registered_moved_iff.mp hre'
    rcases channel_moved_cases hd he with ⟨hed, rfl⟩ | ⟨-, hche⟩ <;>
      rcases channel_moved_cases hd he' with ⟨hed', rfl⟩ | ⟨-, hche'⟩
    · exact hed.trans hed'.symm
    · exact absurd (h.represents.index_inj hche' hc hregd' hr heq.symm) hec'
    · exact absurd (h.represents.index_inj hche hc hregd hr heq) hec
    · exact h.represents.index_inj hche hche' hregd hregd' heq

theorem Faithful.moved (h : Faithful q) (hc : q.channel c = some ch)
    (hr : q.registered c = true) (hd : q.channel d = some chd) (hrd : q.registered d = true)
    (hlast : chd.index = q.pollfds.length - 1) (hback : q.pollfds.getLast? = some back) :
    Faithful (q.moved c ch back d) := by
  constructor
  case represents => exact h.represents_moved hc hr hd hrd hlast hback
  case fd_inj =>
    intro e e' che che' he he' heq
    obtain ⟨che₀, he₀, hfd, -⟩ := exists_channel_of_moved hd he
    obtain ⟨che₀', he₀', hfd', -⟩ := exists_channel_of_moved hd he'
    exact h.fd_inj he₀ he₀' (hfd.trans (heq.trans hfd'.symm))
  case fd_nonneg =>
    intro e che he
    obtain ⟨che₀, he₀, hfd, -⟩ := exists_channel_of_moved hd he
    exact hfd ▸ h.fd_nonneg he₀
  case events =>
    intro e che he
    obtain ⟨che₀, he₀, -, hevents⟩ := exists_channel_of_moved hd he
    exact hevents ▸ h.events he₀
  case live =>
    intro e hre
    by_cases hed : e = d
    · rw [hed]
      exact ⟨_, channel_moved_self hd⟩
    · obtain ⟨che, he⟩ := h.live (registered_moved_iff.mp hre).2
      exact ⟨che, (channel_moved_of_ne hed).trans he⟩
  case owner =>
    intro i hi
    have hi : i < ((q.pollfds.set ch.index.toNat back).dropLast).length := hi
    rw [List.length_dropLast, List.length_set] at hi
    obtain ⟨e, che, he, hre, hindex⟩ := h.owner i (by omega)
    have hed : e ≠ d := by
      rintro rfl
      obtain rfl := Option.some.inj (he.symm.trans hd)
      omega
    by_cases hec : e = c
    · -- the place of the removed channel belongs to the moved one
      obtain rfl := Option.some.inj (hc.symm.trans (hec ▸ he))
      have hdc : d ≠ c := fun hdc => hed (hec.trans hdc.symm)
      exact ⟨d, _, channel_moved_self hd, registered_moved_iff.mpr ⟨hdc, hrd⟩, hindex⟩
    · refine ⟨e, che, ?_, registered_moved_iff.mpr ⟨hec, hre⟩, hindex⟩
      exact (channel_moved_of_ne hed).trans he
  case channels =>
    intro fd e he
    obtain ⟨hfd, he⟩ := update_none_eq_some.mp he
    obtain ⟨che, hche, hre, rfl⟩ := h.channels he
    have hec : e ≠ c := by
      rintro rfl
      exact hfd (congrArg _ (Option.some.inj (hche.symm.trans hc)))
    have hregistered : (q.moved c ch back d).registered e = true :=
      registered_moved_iff.mpr ⟨hec, hre⟩
    by_cases hed : e = d
    · subst hed
      obtain rfl := Option.some.inj (hche.symm.trans hd)
      exact ⟨_, channel_moved_self hd, hregistered, rfl⟩
    · exact ⟨che, (channel_moved_of_ne hed).trans hche, hregistered, rfl⟩

/-- A registered channel is removed faithfully. -/
theorem Faithful.exists_moved (h : Faithful q) (hc : q.channel c = some ch)
    (hr : q.registered c = true) : ∃ back d,
      q.step (.removeChannel c) = .ok (q.moved c ch back d) ∧ Faithful (q.moved c ch back d) := by
  obtain ⟨-, ⟨pfd, hpfd, -⟩, -⟩ := h.represents.entry hc hr
  have hne : q.pollfds ≠ [] := by
    rintro hnil
    simp [hnil] at hpfd
  have hback := List.getLast?_eq_some_getLast hne
  obtain ⟨d, chd, hd, hrd, hlast⟩ := h.exists_last hback
  exact ⟨_, d, removeChannel_step_eq h hc hr hd hrd hlast hback,
    h.moved hc hr hd hrd hlast hback⟩

/-- Only the removal of a registered channel leaves the channels represented. -/
theorem Faithful.needs_removeChannel (h : Faithful q) (hc : q.channel c = some ch)
    (hs : q.step (.removeChannel c) = .ok q') (hq' : Represents q') : q.registered c = true := by
  by_contra hr
  have hs : Poller.removeChannel { q with toLiveChannels := q.toLiveChannels.unregister c } ch =
      .ok q' := by
    simpa [step, LiveChannels.unregister, hc] using hs
  cases hback : q.pollfds.getLast? with
  | none =>
    simp [Poller.removeChannel, hback] at hs
  | some back =>
    obtain ⟨d, chd, hd, hrd, hlast⟩ := h.exists_last hback
    have hdc : d ≠ c := by
      rintro rfl
      exact hr hrd
    have hfd : chd.fd ≠ ch.fd := fun heq => hdc (h.fd_inj hd hc heq)
    have hmap : Function.update q.channels ch.fd none chd.fd = some d :=
      (Function.update_of_ne hfd _ _).trans (h.represents.entry hd hrd).channels
    have hindex := (h.represents.entry hd hrd).index_nonneg
    have hpos : 0 < q.pollfds.length := by omega
    by_cases heq : ch.index = q.pollfds.length - 1
    · -- the entry of another channel is popped
      simp [Poller.removeChannel, hback, heq] at hs
      subst hs
      have hrd' : Function.update q.registered c false d = true :=
        (Function.update_of_ne hdc _ _).trans hrd
      obtain ⟨-, ⟨pfd, hpfd, -⟩, -⟩ := hq'.entry (c := d) hd hrd'
      obtain ⟨hlt, -⟩ := List.getElem?_eq_some_iff.mp hpfd
      have hlt : chd.index.toNat < q.pollfds.dropLast.length := hlt
      rw [List.length_dropLast] at hlt
      omega
    · by_cases hrange : 0 ≤ ch.index ∧ ch.index < q.pollfds.length
      · -- the last channel gets the index of another one
        obtain ⟨e, che, he, hre, hindexe⟩ := h.owner ch.index.toNat (by omega)
        have hec : e ≠ c := by
          rintro rfl
          exact hr hre
        have hed : e ≠ d := by
          rintro rfl
          obtain rfl := Option.some.inj (he.symm.trans hd)
          omega
        simp [Poller.removeChannel, hback, heq, hrange, h.back_fd hd hrd hlast hback, hmap,
          set_index, LiveChannels.setIndex, LiveChannels.unregister] at hs
        have he' : q'.channel e = some che := by
          rw [← hs]
          exact (Function.update_of_ne hed _ _).trans he
        have hd' : q'.channel d = some { chd with index := ch.index } := by
          rw [← hs]
          simp [hd]
        have hreg : ∀ {f}, f ≠ c → q.registered f = true → q'.registered f = true := by
          intro f hfc hrf
          rw [← hs]
          exact (Function.update_of_ne hfc _ _).trans hrf
        apply hed
        apply hq'.index_inj he' hd' (hreg hec hre) (hreg hdc hrd)
        show che.index = ch.index
        omega
      · simp [Poller.removeChannel, hback, heq, hrange] at hs

/-! ## Constructors and destructors -/

theorem Faithful.create (h : Faithful q) {fd : ℤ} (hc : q.channel c = none) (hfd : 0 ≤ fd)
    (hfree : ∀ c', ∀ ch ∈ q.channel c', ch.fd ≠ fd) :
    Faithful { q with toLiveChannels := q.toLiveChannels.create c fd } := by
  -- a channel of the new state is the new one, or an old one
  have hcases : ∀ {d chd}, (q.toLiveChannels.create c fd).channel d = some chd →
      d = c ∧ chd = { fd := fd } ∨ d ≠ c ∧ q.channel d = some chd :=
    fun hd => update_some_eq_some.mp hd
  have hkept : ∀ {d chd}, q.channel d = some chd →
      (q.toLiveChannels.create c fd).channel d = some chd := by
    intro d chd hd
    have hdc : d ≠ c := by
      rintro rfl
      cases hc.symm.trans hd
    exact (Function.update_of_ne hdc _ _).trans hd
  have hreg : ∀ {d chd}, (q.toLiveChannels.create c fd).channel d = some chd →
      q.registered d = true → q.channel d = some chd := by
    intro d chd hd hr
    rcases hcases hd with ⟨rfl, -⟩ | ⟨-, hold⟩
    · obtain ⟨ch, hch⟩ := h.live hr
      cases hc.symm.trans hch
    · exact hold
  constructor
  case represents =>
    refine ⟨fun hd hr => ?_, fun hd hd' hr hr' => ?_⟩
    · obtain ⟨hindex, hentry, hchannels⟩ := h.represents.entry (hreg hd hr) hr
      exact ⟨hindex, hentry, hchannels⟩
    · exact h.represents.index_inj (hreg hd hr) (hreg hd' hr') hr hr'
  case fd_inj =>
    intro d d' chd chd' hd hd' heq
    rcases hcases hd with ⟨hdc, rfl⟩ | ⟨-, hold⟩ <;>
      rcases hcases hd' with ⟨hdc', rfl⟩ | ⟨-, hold'⟩
    · exact hdc.trans hdc'.symm
    · exact absurd heq.symm (hfree d' chd' hold')
    · exact absurd heq (hfree d chd hold)
    · exact h.fd_inj hold hold' heq
  case fd_nonneg =>
    intro d chd hd
    rcases hcases hd with ⟨-, rfl⟩ | ⟨-, hold⟩
    · exact hfd
    · exact h.fd_nonneg hold
  case events =>
    intro d chd hd
    rcases hcases hd with ⟨-, rfl⟩ | ⟨-, hold⟩
    · exact Channel.mem_interests.mpr (.inl rfl)
    · exact h.events hold
  case live =>
    intro d hr
    obtain ⟨chd, hd⟩ := h.live hr
    exact ⟨chd, hkept hd⟩
  case owner =>
    intro i hi
    obtain ⟨d, chd, hd, hr, hindex⟩ := h.owner i hi
    exact ⟨d, chd, hkept hd, hr, hindex⟩
  case channels =>
    intro fd d hd
    obtain ⟨chd, hold, hr, hfd⟩ := h.channels hd
    exact ⟨chd, hkept hold, hr, hfd⟩

theorem Faithful.destroy (h : Faithful q) (hr : q.registered c = false) :
    Faithful { q with toLiveChannels := q.toLiveChannels.destroy c } := by
  have hold : ∀ {d chd}, (q.toLiveChannels.destroy c).channel d = some chd →
      q.channel d = some chd := fun hd => (update_none_eq_some.mp hd).2
  have hkept : ∀ {d chd}, q.channel d = some chd → q.registered d = true →
      (q.toLiveChannels.destroy c).channel d = some chd := by
    intro d chd hd hrd
    have hdc : d ≠ c := by
      rintro rfl
      exact Bool.false_ne_true (hr.symm.trans hrd)
    exact (Function.update_of_ne hdc _ _).trans hd
  constructor
  case represents =>
    refine ⟨fun hd hrd => ?_, fun hd hd' => h.represents.index_inj (hold hd) (hold hd')⟩
    obtain ⟨hindex, hentry, hchannels⟩ := h.represents.entry (hold hd) hrd
    exact ⟨hindex, hentry, hchannels⟩
  case fd_inj => exact fun hd hd' => h.fd_inj (hold hd) (hold hd')
  case fd_nonneg => exact fun hd => h.fd_nonneg (hold hd)
  case events => exact fun hd => h.events (hold hd)
  case live =>
    intro d hrd
    obtain ⟨chd, hd⟩ := h.live hrd
    exact ⟨chd, hkept hd hrd⟩
  case owner =>
    intro i hi
    obtain ⟨d, chd, hd, hrd, hindex⟩ := h.owner i hi
    exact ⟨d, chd, hkept hd hrd, hrd, hindex⟩
  case channels =>
    intro fd d hd
    obtain ⟨chd, hchd, hrd, hfd⟩ := h.channels hd
    exact ⟨chd, hkept hchd hrd, hrd, hfd⟩

/-- The calls that meet the condition keep the invariant, and none of them has a fault. -/
theorem Faithful.step (h : Faithful q) (he : q.toLiveChannels.Enabled call)
    (hcall : DisablesOnce q call) : ∃ q', q.step call = .ok q' ∧ Faithful q' := by
  cases call with
  | create c fd =>
    obtain ⟨hc, hfd, hfree⟩ := he
    exact ⟨_, rfl, h.create hc hfd hfree⟩
  | destroy c => exact ⟨_, rfl, h.destroy he.2⟩
  | update c interest =>
    obtain ⟨ch, hc⟩ := Option.isSome_iff_exists.mp he
    have hcall := hcall ch hc
    by_cases hr : q.registered c = true
    · rw [if_pos hr] at hcall
      exact ⟨_, update_step_registered h hc hr interest, h.update_registered hc hr hcall interest⟩
    · rw [if_neg hr] at hcall
      obtain ⟨hindex, hnone⟩ := hcall
      exact ⟨_, update_step_append hc hindex interest,
        h.update_append hc (Bool.not_eq_true _ ▸ hr) hnone⟩
  | removeChannel c =>
    obtain ⟨ch, hc⟩ := Option.isSome_iff_exists.mp he
    obtain ⟨back, d, hs, hfaithful⟩ := h.exists_moved hc hcall
    exact ⟨_, hs, hfaithful⟩

/-- Only the calls that meet the condition leave the channels represented. -/
theorem Faithful.needs (h : Faithful q) (he : q.toLiveChannels.Enabled call)
    (hs : q.step call = .ok q') (hq' : Represents q') : DisablesOnce q call := by
  cases call with
  | create | destroy => trivial
  | update c interest => exact h.needs_update hs hq'
  | removeChannel c =>
    obtain ⟨ch, hc⟩ := Option.isSome_iff_exists.mp he
    exact h.needs_removeChannel hc hs hq'

/-! ## What an EPoller watches -/

/-- The poller and an `EPoller` after the same calls, in which a channel is in the interest list if
it is registered with an interest. -/
structure SameChannels (q : Poller ι) (r : EPoller ι) : Prop where
  faithful : Faithful q
  inStep : EPoller.InStep r
  registered : q.registered = r.registered
  channel : q.toLiveChannels.watched = r.toLiveChannels.watched
  kAdded : ∀ {c ch}, r.channel c = some ch → r.registered c = true →
    (ch.index = EPoller.kAdded ↔ ch.isNoneEvent = false)

variable {r : EPoller ι}

omit [DecidableEq ι] in
theorem sameChannels_init : SameChannels (init : Poller ι) EPoller.init where
  faithful := faithful_init
  inStep := EPoller.inStep_init
  registered := rfl
  channel := rfl
  kAdded hc := nomatch hc

omit [DecidableEq ι] in
theorem SameChannels.exists_channel (h : SameChannels q r) (hc : q.channel c = some ch) :
    ∃ ch', r.channel c = some ch' ∧ ch'.toChannel = ch.toChannel ∧ ch'.fd = ch.fd := by
  have hw : r.toLiveChannels.watched c = some (ch.toChannel, ch.fd) := by
    rw [← h.channel]
    exact LiveChannels.watched_eq_some.mpr ⟨ch, hc, rfl, rfl⟩
  exact LiveChannels.watched_eq_some.mp hw

omit [DecidableEq ι] in
theorem SameChannels.exists_channel' (h : SameChannels q r) (hc : r.channel c = some ch) :
    ∃ ch', q.channel c = some ch' ∧ ch'.toChannel = ch.toChannel ∧ ch'.fd = ch.fd := by
  have hw : q.toLiveChannels.watched c = some (ch.toChannel, ch.fd) := by
    rw [h.channel]
    exact LiveChannels.watched_eq_some.mpr ⟨ch, hc, rfl, rfl⟩
  exact LiveChannels.watched_eq_some.mp hw

omit [DecidableEq ι] in
/-- `poll` watches what `epoll_wait` does. -/
theorem SameChannels.watches_iff (h : SameChannels q r) (fd : ℤ) (events : BitVec 32) :
    q.Watches fd events ↔ r.epoll fd = some events := by
  constructor
  · rintro ⟨hnonneg, pfd, hmem, hpfdfd, hevents⟩
    obtain ⟨i, hpfd⟩ := List.mem_iff_getElem?.mp hmem
    have hi : i < q.pollfds.length := (List.getElem?_eq_some_iff.mp hpfd).1
    obtain ⟨c, ch, hc, hr, hindex⟩ := h.faithful.owner i hi
    obtain ⟨-, ⟨pfd', hpfd', hch, hentry⟩, -⟩ := h.faithful.represents.entry hc hr
    have htoNat : ch.index.toNat = i := by omega
    rw [htoNat] at hpfd'
    obtain rfl := Option.some.inj (hpfd.symm.trans hpfd')
    -- a hidden descriptor is negative
    have hfdnonneg := h.faithful.fd_nonneg hc
    rw [hpfdfd, entryFd] at hentry
    have hnone : ch.isNoneEvent = false := by
      by_contra hnone
      rw [if_pos (by simpa using hnone)] at hentry
      omega
    rw [if_neg (by simp [hnone])] at hentry
    obtain ⟨ch', hc', hch', hfd'⟩ := h.exists_channel hc
    have hadded : ch'.index = EPoller.kAdded :=
      (h.kAdded hc' (h.registered ▸ hr)).mpr (by rw [hch', hnone])
    rw [hentry, ← hfd', h.inStep.epoll hc', if_pos hadded, hch', ← hch, hevents]
  · intro hepoll
    obtain ⟨c, ch, hc, rfl⟩ : ∃ c ch, r.channel c = some ch ∧ ch.fd = fd := by
      by_contra hfree
      have hfd : ∀ c, ∀ ch ∈ r.channel c, ch.fd ≠ fd := fun c ch hc hfd => hfree ⟨c, ch, hc, hfd⟩
      cases (h.inStep.free hfd).1.symm.trans hepoll
    rw [h.inStep.epoll hc] at hepoll
    split_ifs at hepoll with hadded
    have hr : r.registered c = true := by
      by_contra hr
      have hnew := (h.inStep.unregistered hc).mp (by simpa using hr)
      exact absurd (hadded.symm.trans hnew) (by decide)
    have hnone := (h.kAdded hc hr).mp hadded
    obtain ⟨ch', hc', hch', hfd'⟩ := h.exists_channel' hc
    obtain ⟨-, ⟨pfd, hpfd, hevents, hentry⟩, -⟩ :=
      h.faithful.represents.entry hc' (h.registered ▸ hr)
    have hnone' : ch'.isNoneEvent = false := by rw [hch', hnone]
    rw [entryFd, if_neg (by simp [hnone']), hfd'] at hentry
    refine ⟨hfd' ▸ h.faithful.fd_nonneg hc', pfd, List.mem_of_getElem? hpfd, hentry, ?_⟩
    rw [hevents, hch', Option.some.inj hepoll]

theorem SameChannels.step (h : SameChannels q r) (he : q.toLiveChannels.Enabled call)
    (hcall : DisablesOnce q call) (hs : q.step call = .ok q') :
    ∃ r', r.toLiveChannels.Enabled call ∧ r.step call = .ok r' ∧ SameChannels q' r' := by
  have her := he.congr h.registered h.channel
  obtain ⟨r', hsr, hinStep⟩ := EPoller.inStep_step h.inStep her
  obtain ⟨q₁, hq₁, hfaithful⟩ := h.faithful.step he hcall
  obtain rfl : q₁ = q' := Except.ok.inj (hq₁.symm.trans hs)
  refine ⟨r', her, hsr, ?_⟩
  cases call with
  | create c fd =>
    obtain rfl := Except.ok.inj hs
    obtain rfl := Except.ok.inj hsr
    refine ⟨hfaithful, hinStep, h.registered, by simp [h.channel], fun {d chd} hd hr => ?_⟩
    have hdc : d ≠ c := by
      rintro rfl
      obtain ⟨ch, hch⟩ := h.inStep.live hr
      cases her.1.symm.trans hch
    exact h.kAdded ((Function.update_of_ne hdc _ _).symm.trans hd) hr
  | destroy c =>
    obtain rfl := Except.ok.inj hs
    obtain rfl := Except.ok.inj hsr
    refine ⟨hfaithful, hinStep, h.registered, by simp [h.channel], fun {d chd} hd hr => ?_⟩
    have hdc : d ≠ c := by
      rintro rfl
      exact Bool.false_ne_true (her.2.symm.trans hr)
    exact h.kAdded ((Function.update_of_ne hdc _ _).symm.trans hd) hr
  | update c interest =>
    obtain ⟨ch, hc⟩ := Option.isSome_iff_exists.mp he
    obtain ⟨ch', hc', hch', hfd'⟩ := h.exists_channel hc
    rw [EPoller.update_step_eq h.inStep hc' interest] at hsr
    obtain rfl := Except.ok.inj hsr
    have hcall := hcall ch hc
    -- the poller has the channel with the new events as well
    obtain ⟨index, pollfds, hq'⟩ : ∃ index pollfds,
        q₁ = q.entered c { changed ch interest with index := index } pollfds := by
      by_cases hr : q.registered c = true
      · rw [update_step_registered h.faithful hc hr] at hs
        exact ⟨ch.index, _, (Except.ok.inj hs).symm⟩
      · rw [if_neg hr] at hcall
        rw [update_step_append hc hcall.1] at hs
        exact ⟨q.pollfds.length, _, (Except.ok.inj hs).symm⟩
    refine ⟨hfaithful, hinStep, ?_, ?_, fun {d chd} hd hr => ?_⟩
    · rw [hq']
      exact congrArg (Function.update · c true) h.registered
    · simp [hq', EPoller.updated, h.channel, hch', hfd']
    · rcases EPoller.synced_cases hd with ⟨rfl, rfl⟩ | ⟨hdc, hold⟩
      · rw [EPoller.index_updated_eq_kAdded]
        show _ ↔ (interest.apply ch'.toChannel).isNoneEvent = false
        split_ifs at hcall with hregistered
        · -- a channel that is registered with an interest is in the interest list
          rw [← hch'] at hcall
          rw [(h.kAdded hc' (h.registered ▸ hregistered)).mpr hcall]
          simp
        · simp [hch', hcall.2]
      · exact h.kAdded hold ((Function.update_of_ne hdc _ _).symm.trans hr)
  | removeChannel c =>
    obtain ⟨ch, hc⟩ := Option.isSome_iff_exists.mp he
    obtain ⟨ch', hc', hch', hfd'⟩ := h.exists_channel hc
    rw [EPoller.removeChannel_step_eq h.inStep hc'] at hsr
    obtain rfl := Except.ok.inj hsr
    obtain ⟨back, d, hq', -⟩ := h.faithful.exists_moved hc hcall
    obtain rfl := Except.ok.inj (hq'.symm.trans hs)
    refine ⟨hfaithful, hinStep, ?_, ?_, fun {e che} he hr => ?_⟩
    · exact congrArg (Function.update · c false) h.registered
    · have hw := LiveChannels.watched_eq_some.mpr ⟨ch, hc, rfl, rfl⟩
      rw [h.channel] at hw
      rw [watched_moved, EPoller.watched_synced, h.channel, hch', hfd']
      exact (Function.update_eq_self_iff.mpr hw.symm).symm
    · rcases EPoller.synced_cases he with ⟨rfl, -⟩ | ⟨hec, hold⟩
      · cases (Function.update_self ..).symm.trans hr
      · exact h.kAdded hold ((Function.update_of_ne hec _ _).symm.trans hr)

/-! ## The runs in which the channels are represented -/

/-- A run represents its channels in every state exactly if no channel is updated any more once it
has disabled all its events, and none is used again once it has been removed. Such runs have no
faults, and the poller watches in them what an `EPoller` watches after the same calls. -/
theorem represents_iff_disablesOnce :
    (∀ calls (q : Poller ι), machine.Run init calls q →
      (machine.Along Represents init calls ↔ (machine.guard DisablesOnce).Run init calls q)) ∧
    (machine (ι := ι).guard DisablesOnce).NeverFaults ∧
    ∀ calls (q : Poller ι), (machine.guard DisablesOnce).Run init calls q →
      ∃ r, EPoller.machine.Run EPoller.init calls r ∧
        ∀ fd events, q.Watches fd events ↔ r.epoll fd = some events := by
  refine ⟨fun calls q hrun => ?_, ?_, fun calls q hrun => ?_⟩
  · apply Machine.along_iff_run_guard_of_invariant (Q := Faithful) _ _ _ hrun faithful_init
    · exact fun q h => h.represents
    · intro q call q' h he hs hcall
      obtain ⟨q₁, hq₁, hfaithful⟩ := h.step he hcall
      obtain rfl := Except.ok.inj (hq₁.symm.trans hs)
      exact hfaithful
    · exact fun q call q' h he hs hq' => h.needs he hs hq'
  · apply Machine.neverFaults_of_invariant (I := Faithful)
    · intro q call q' h he hs
      obtain ⟨q₁, hq₁, hfaithful⟩ := h.step he.1 he.2
      obtain rfl := Except.ok.inj (hq₁.symm.trans hs)
      exact hfaithful
    · rintro q rfl
      exact faithful_init
    · intro q call h he
      obtain ⟨q', hs, -⟩ := h.step he.1 he.2
      exact ⟨q', hs⟩
  · obtain ⟨r, hr, hsame⟩ := hrun.simulated (N := EPoller.machine)
      (fun q r call q' h he hs => h.step he.1 he.2 hs) sameChannels_init
    exact ⟨r, hr, hsame.watches_iff⟩

/-- The first of two channels is removed, and the second one moves to its place. -/
def removesFirst : List (PollerCall (Fin 2)) :=
  [.create 0 5, .create 1 6, .update 0 .enableReading, .update 1 .enableReading,
    .removeChannel 0, .update 1 .enableWriting]

theorem represents_iff_disablesOnce_removesFirst : ∃ q : Poller (Fin 2),
    machine.Along Represents init removesFirst ∧
    q.pollfds = [{ fd := 6, events := 0x2007 }] ∧
    ∃ r, EPoller.machine.Run EPoller.init removesFirst r ∧ r.epoll 6 = some 0x2007 := by
  have hex : ((machine.guard DisablesOnce).exec init removesFirst).map Poller.pollfds =
      some [{ fd := 6, events := 0x2007 }] := by decide
  obtain ⟨q, hq, hpollfds⟩ := Option.map_eq_some_iff.mp hex
  have hrun := Machine.run_of_exec hq
  obtain ⟨hiff, -, hsame⟩ := represents_iff_disablesOnce (ι := Fin 2)
  obtain ⟨r, hr, hwatches⟩ := hsame _ q hrun
  refine ⟨q, (hiff _ q hrun.of_guard).mpr hrun, hpollfds, r, hr, (hwatches 6 0x2007).mp ?_⟩
  exact ⟨by decide, _, hpollfds ▸ List.mem_singleton_self _, rfl, by decide⟩

/-- A channel is registered, disabled, and enabled again. -/
def togglesTwice : List (PollerCall Unit) :=
  [.create () 5, .update () .enableReading, .update () .disableAllEvents,
    .update () .enableReading]

/-- The entry of a channel with an interest still hides its descriptor. -/
theorem exists_hidden : ∃ q : Poller Unit, machine.Run init togglesTwice q ∧
    ¬Represents q ∧ q.pollfds = [{ fd := -6, events := 0x2003 }] := by
  have hex : (machine.exec init togglesTwice).map
      (fun q => (q.channel (), q.registered (), q.pollfds)) =
      some (some { events := Channel.kReadEvent, fd := 5, index := 0 }, true,
        [{ fd := -6, events := 0x2003 }]) := by decide
  obtain ⟨q, hq, hstate⟩ := Option.map_eq_some_iff.mp hex
  obtain ⟨hc, hr, hpollfds⟩ : _ ∧ _ ∧ _ := by simpa using hstate
  refine ⟨q, Machine.run_of_exec hq, fun h => ?_, hpollfds⟩
  obtain ⟨-, ⟨pfd, hpfd, -, hfd⟩, -⟩ := h.entry hc hr
  rw [hpollfds] at hpfd
  obtain rfl := Option.some.inj hpfd
  exact absurd hfd (by decide)

end Poller

end CodingDemo.Libcpp
