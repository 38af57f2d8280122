import CodingDemo.Machine.Run
import CodingDemo.Reactor.LiveChannels

/-!
# The poller with epoll

`EPoller` keeps the interest list of an epoll descriptor in step with the channels. The index of a
channel tells whether it is new, added to the interest list, or deleted from it and still in
`channels_`.

## Main definitions

* `EPoller`: the members with the interest list of the kernel
* `updateChannel`, `removeChannel`, `update`: the member functions
* `EPoller.machine`: the runs of a poller
* `InStep`: the invariant
* `Interested`: the channels that are polled have events
* `AddsInterest`: the condition on a call for that

## Main results

* `inStep_step`: the calls keep the invariant, and none of them is fatal
* `epoll_iff_kAdded`: the interest list is in step with the channels
* `interested_iff_addsInterest`: in which runs no channel without events is polled
-/

namespace CodingDemo.Libcpp

universe u

/-- The operations of `::epoll_ctl`. -/
inductive EpollOp
  | add
  | mod
  | del
  deriving DecidableEq

/-- An interest list: the events for which a descriptor is registered. -/
abbrev InterestList := ℤ → Option (BitVec 32)

/-- `::epoll_ctl` fails to add a descriptor that is registered, and to modify or delete one that is
not. -/
def epoll_ctl (set : InterestList) (op : EpollOp) (fd : ℤ) (events : BitVec 32) :
    Option InterestList :=
  match op, set fd with
  | .add, none => some (Function.update set fd (some events))
  | .mod, some _ => some (Function.update set fd (some events))
  | .del, some _ => some (Function.update set fd none)
  | _, _ => none

/-- `LOG_SYSFATAL` ends the process. -/
inductive SysFatal
  | epollCtl
  deriving DecidableEq

structure EPoller (ι : Type u) extends LiveChannels ι where
  /-- The map `channels_`. -/
  channels : ℤ → Option ι
  /-- The interest list of `epollfd_`. -/
  epoll : InterestList
  /-- The calls of `::epoll_ctl` that have failed. -/
  failed : List EpollOp

namespace EPoller

def kNew : ℤ := -1

def kAdded : ℤ := 1

def kDeleted : ℤ := 2

variable {ι : Type u} [DecidableEq ι]

def init : EPoller ι where
  toLiveChannels := LiveChannels.none
  channels _ := none
  epoll _ := none
  failed := []

/-- A failure is logged; to add or to modify it is fatal. -/
def update (q : EPoller ι) (op : EpollOp) (ch : PolledChannel) : Except SysFatal (EPoller ι) :=
  match epoll_ctl q.epoll op ch.fd ch.events with
  | some epoll => .ok { q with epoll := epoll }
  | none =>
    if op = .del then .ok { q with failed := q.failed ++ [op] } else .error .epollCtl

def set_index (q : EPoller ι) (c : ι) (index : ℤ) : EPoller ι :=
  { q with toLiveChannels := q.toLiveChannels.setIndex c index }

/-- `updateChannel` of the channel `c`, which is `ch`. -/
def updateChannel (q : EPoller ι) (c : ι) (ch : PolledChannel) : Except SysFatal (EPoller ι) :=
  if ch.index = kNew ∨ ch.index = kDeleted then
    let q :=
      if ch.index = kNew then { q with channels := Function.update q.channels ch.fd (some c) }
      else q
    (q.set_index c kAdded).update .add ch
  else if ch.isNoneEvent then do
    let q ← q.update .del ch
    return q.set_index c kDeleted
  else q.update .mod ch

/-- `removeChannel` of the channel `c`, which is `ch`. -/
def removeChannel (q : EPoller ι) (c : ι) (ch : PolledChannel) : Except SysFatal (EPoller ι) := do
  let q := { q with channels := Function.update q.channels ch.fd none }
  let q ← if ch.index = kAdded then q.update .del ch else pure q
  return q.set_index c kNew

/-! ## The machine -/

def step (q : EPoller ι) : PollerCall ι → Except SysFatal (EPoller ι)
  | .create c fd => .ok { q with toLiveChannels := q.toLiveChannels.create c fd }
  | .destroy c => .ok { q with toLiveChannels := q.toLiveChannels.destroy c }
  | .update c interest =>
    let q := { q with toLiveChannels := q.toLiveChannels.setEvents c interest }
    match q.channel c with
    | some ch => q.updateChannel c ch
    | none => .ok q
  | .removeChannel c =>
    let q := { q with toLiveChannels := q.toLiveChannels.unregister c }
    match q.channel c with
    | some ch => q.removeChannel c ch
    | none => .ok q

/-- The runs of a poller that has just been constructed. -/
def machine : Machine (EPoller ι) (PollerCall ι) SysFatal where
  init q := q = init
  enabled q := q.toLiveChannels.Enabled
  step := step

instance [Fintype ι] (q : EPoller ι) (call : PollerCall ι) : Decidable (machine.enabled q call) :=
  inferInstanceAs (Decidable (q.toLiveChannels.Enabled call))

/-! ## The invariant -/

/-- What `updateChannel` and `removeChannel` make of a channel: its index says whether it is in the
interest list and in the map. -/
structure InStep (q : EPoller ι) : Prop where
  fd_inj : ∀ {c c' ch ch'}, q.channel c = some ch → q.channel c' = some ch' → ch.fd = ch'.fd →
    c = c'
  index : ∀ {c ch}, q.channel c = some ch →
    ch.index = kNew ∨ ch.index = kAdded ∨ ch.index = kDeleted
  live : ∀ {c}, q.registered c = true → ∃ ch, q.channel c = some ch
  unregistered : ∀ {c ch}, q.channel c = some ch → (q.registered c = false ↔ ch.index = kNew)
  epoll : ∀ {c ch}, q.channel c = some ch →
    q.epoll ch.fd = if ch.index = kAdded then some ch.events else none
  channels : ∀ {c ch}, q.channel c = some ch →
    q.channels ch.fd = if ch.index = kNew then none else some c
  free : ∀ {fd}, (∀ c, ∀ ch ∈ q.channel c, ch.fd ≠ fd) → q.epoll fd = none ∧ q.channels fd = none
  failed : q.failed = []

variable {q q' : EPoller ι} {c : ι} {ch ch' : PolledChannel} {call : PollerCall ι}

omit [DecidableEq ι] in
theorem inStep_init : InStep (init : EPoller ι) where
  fd_inj hc := nomatch hc
  index hc := nomatch hc
  live hr := nomatch hr
  unregistered hc := nomatch hc
  epoll hc := nomatch hc
  channels hc := nomatch hc
  free _ := ⟨rfl, rfl⟩
  failed := rfl

/-- The poller after a call of the channel `c`, which is then `ch`. -/
def synced (q : EPoller ι) (c : ι) (registered : Bool) (ch : PolledChannel) : EPoller ι where
  channel := Function.update q.channel c (some ch)
  registered := Function.update q.registered c registered
  channels := Function.update q.channels ch.fd (if ch.index = kNew then none else some c)
  epoll := Function.update q.epoll ch.fd (if ch.index = kAdded then some ch.events else none)
  failed := q.failed

/-- A channel of the new state is the one that has called, or an old one. -/
theorem synced_cases {registered : Bool} {d : ι} {chd : PolledChannel}
    (hd : (q.synced c registered ch').channel d = some chd) :
    d = c ∧ chd = ch' ∨ d ≠ c ∧ q.channel d = some chd :=
  update_some_eq_some.mp hd

@[simp] theorem watched_synced (registered : Bool) :
    (q.synced c registered ch').toLiveChannels.watched =
      Function.update q.toLiveChannels.watched c (some (ch'.toChannel, ch'.fd)) :=
  LiveChannels.watched_eq_update (some ch') rfl

/-- A channel that is in step itself leaves the others in step. -/
theorem InStep.synced (h : InStep q) (hsame : ∀ ch ∈ q.channel c, ch.fd = ch'.fd)
    (hother : ∀ d ≠ c, ∀ chd ∈ q.channel d, chd.fd ≠ ch'.fd)
    (hindex : ch'.index = kNew ∨ ch'.index = kAdded ∨ ch'.index = kDeleted) {registered : Bool}
    (hreg : registered = false ↔ ch'.index = kNew) : InStep (q.synced c registered ch') := by
  -- a channel of the new state is `ch'`, or an old one with another descriptor
  have hcases : ∀ {d chd}, (q.synced c registered ch').channel d = some chd →
      d = c ∧ chd = ch' ∨ d ≠ c ∧ q.channel d = some chd ∧ chd.fd ≠ ch'.fd := by
    intro d chd hd
    rcases synced_cases hd with heq | ⟨hdc, hold⟩
    · exact .inl heq
    · exact .inr ⟨hdc, hold, hother d hdc chd hold⟩
  constructor
  case fd_inj =>
    intro d d' chd chd' hd hd' heq
    rcases hcases hd with ⟨rfl, rfl⟩ | ⟨-, hold, hne⟩ <;>
      rcases hcases hd' with ⟨rfl, rfl⟩ | ⟨-, hold', hne'⟩
    · rfl
    · exact absurd heq.symm hne'
    · exact absurd heq hne
    · exact h.fd_inj hold hold' heq
  case index =>
    intro d chd hd
    rcases hcases hd with ⟨rfl, rfl⟩ | ⟨-, hold, -⟩
    · exact hindex
    · exact h.index hold
  case live =>
    intro d hr
    by_cases hdc : d = c
    · exact ⟨ch', hdc ▸ Function.update_self ..⟩
    · obtain ⟨chd, hd⟩ := h.live ((Function.update_of_ne hdc _ _).symm.trans hr)
      exact ⟨chd, (Function.update_of_ne hdc _ _).trans hd⟩
  case unregistered =>
    intro d chd hd
    rcases hcases hd with ⟨rfl, rfl⟩ | ⟨hdc, hold, -⟩
    · rw [← hreg]
      simp [EPoller.synced]
    · rw [← h.unregistered hold]
      simp [EPoller.synced, hdc]
  case epoll =>
    intro d chd hd
    rcases hcases hd with ⟨rfl, rfl⟩ | ⟨-, hold, hne⟩
    · exact Function.update_self ..
    · exact (Function.update_of_ne hne _ _).trans (h.epoll hold)
  case channels =>
    intro d chd hd
    rcases hcases hd with ⟨rfl, rfl⟩ | ⟨-, hold, hne⟩
    · exact Function.update_self ..
    · exact (Function.update_of_ne hne _ _).trans (h.channels hold)
  case free =>
    intro fd hfree
    have hne : fd ≠ ch'.fd := fun heq => hfree c ch' (Function.update_self ..) heq.symm
    have hold : q.epoll fd = none ∧ q.channels fd = none := by
      refine h.free fun d chd hd heq => ?_
      by_cases hdc : d = c
      · exact hne (heq.symm.trans (hsame chd (hdc ▸ hd)))
      · exact hfree d chd ((Function.update_of_ne hdc _ _).trans hd) heq
    exact ⟨(Function.update_of_ne hne _ _).trans hold.1,
      (Function.update_of_ne hne _ _).trans hold.2⟩
  case failed => exact h.failed

/-! ## The calls -/

/-- A channel after a change of its interest. -/
def updated (ch : PolledChannel) (interest : Interest) : PolledChannel where
  toChannel := interest.apply ch.toChannel
  fd := ch.fd
  index :=
    if ch.index = kAdded ∧ (interest.apply ch.toChannel).isNoneEvent then kDeleted else kAdded

theorem index_updated (ch : PolledChannel) (interest : Interest) :
    (updated ch interest).index = kAdded ∨ (updated ch interest).index = kDeleted := by
  unfold updated
  split_ifs
  · exact .inr rfl
  · exact .inl rfl

theorem index_updated_eq_kAdded (ch : PolledChannel) (interest : Interest) :
    (updated ch interest).index = kAdded ↔
      ¬(ch.index = kAdded ∧ (interest.apply ch.toChannel).isNoneEvent = true) := by
  unfold updated
  split_ifs with hdeleted
  · exact iff_of_false (show kDeleted ≠ kAdded by decide) (not_not.mpr hdeleted)
  · exact iff_of_true rfl hdeleted

omit [DecidableEq ι] in
theorem InStep.other (h : InStep q) (hc : q.channel c = some ch) (hfd : ch'.fd = ch.fd) :
    ∀ d ≠ c, ∀ chd ∈ q.channel d, chd.fd ≠ ch'.fd :=
  fun _ hdc _ hd heq => hdc (h.fd_inj hd hc (heq.trans hfd))

omit [DecidableEq ι] in
theorem InStep.same (hc : q.channel c = some ch) (hfd : ch'.fd = ch.fd) :
    ∀ chd ∈ q.channel c, chd.fd = ch'.fd := by
  intro chd hd
  rw [hfd, Option.some.inj (hd.symm.trans hc)]

theorem update_step_eq (h : InStep q) (hc : q.channel c = some ch) (interest : Interest) :
    q.step (.update c interest) = .ok (q.synced c true (updated ch interest)) := by
  have hepoll := h.epoll hc
  have hchannels := h.channels hc
  have hstep : q.step (.update c interest) = EPoller.updateChannel
      { q with toLiveChannels := q.toLiveChannels.setEvents c interest } c
      { ch with toChannel := interest.apply ch.toChannel } := by
    simp [step, LiveChannels.setEvents, hc]
  rw [hstep]
  -- a channel that is not new is in the map
  have hmap : ch.index ≠ kNew → Function.update q.channels ch.fd (some c) = q.channels :=
    fun hne => Function.update_eq_self_iff.mpr (hchannels.trans (if_neg hne)).symm
  rcases h.index hc with hindex | hindex | hindex
  -- a new channel is entered in the map and added
  · simp [updateChannel, update, epoll_ctl, set_index, LiveChannels.setIndex,
      LiveChannels.setEvents, synced, updated, hindex, hc, hepoll, kNew, kAdded, kDeleted]
  -- a channel that has been added is deleted if it has no interest any more
  · have hmap := hmap (by rw [hindex]; decide)
    cases hnone : (interest.apply ch.toChannel).isNoneEvent <;>
      simp_all [updateChannel, update, epoll_ctl, set_index, LiveChannels.setIndex,
        LiveChannels.setEvents, synced, updated, kNew, kAdded, kDeleted]
  -- a channel that has been deleted is added again
  · have hmap := hmap (by rw [hindex]; decide)
    simp [updateChannel, update, epoll_ctl, set_index, LiveChannels.setIndex,
      LiveChannels.setEvents, synced, updated, hindex, hc, hepoll, hmap, kNew, kAdded, kDeleted]

theorem removeChannel_step_eq (h : InStep q) (hc : q.channel c = some ch) :
    q.step (.removeChannel c) = .ok (q.synced c false { ch with index := kNew }) := by
  have hepoll := h.epoll hc
  have hstep : q.step (.removeChannel c) = EPoller.removeChannel
      { q with toLiveChannels := q.toLiveChannels.unregister c } c ch := by
    simp [step, LiveChannels.unregister, hc]
  rw [hstep]
  by_cases hadded : ch.index = kAdded
  · simp [EPoller.removeChannel, update, epoll_ctl, set_index, LiveChannels.setIndex,
      LiveChannels.unregister, synced, hadded, hc, hepoll, kNew, kAdded, bind, Except.bind, pure,
      Except.pure]
  -- a channel that is not in the interest list is not deleted from it
  · have hnone : Function.update q.epoll ch.fd none = q.epoll :=
      Function.update_eq_self_iff.mpr (hepoll.trans (if_neg hadded)).symm
    have hnew : kNew ≠ kAdded := by decide
    simp [EPoller.removeChannel, set_index, LiveChannels.setIndex, LiveChannels.unregister, synced,
      hadded, hc, hnone, hnew, bind, Except.bind, pure, Except.pure]

/-- A new channel has a descriptor that no other channel has. -/
theorem create_eq (h : InStep q) {fd : ℤ} (hc : q.channel c = none)
    (hfree : ∀ c', ∀ ch ∈ q.channel c', ch.fd ≠ fd) :
    { q with toLiveChannels := q.toLiveChannels.create c fd } =
      q.synced c false { fd := fd } := by
  have hregistered : Function.update q.registered c false = q.registered := by
    refine Function.update_eq_self_iff.mpr (Bool.eq_false_iff.mpr fun hr => ?_).symm
    obtain ⟨ch, hch⟩ := h.live hr
    cases hc.symm.trans hch
  obtain ⟨hepoll, hchannels⟩ := h.free hfree
  simp [LiveChannels.create, EPoller.synced, hregistered, hepoll.symm, hchannels.symm, kNew,
    kAdded]

/-- A channel that is not registered leaves nothing behind. -/
theorem InStep.destroy (h : InStep q) (hc : q.channel c = some ch) (hr : q.registered c = false) :
    InStep { q with toLiveChannels := q.toLiveChannels.destroy c } := by
  have hnew : ch.index = kNew := (h.unregistered hc).mp hr
  have hold : ∀ {d chd}, (q.toLiveChannels.destroy c).channel d = some chd →
      q.channel d = some chd := fun hd => (update_none_eq_some.mp hd).2
  refine ⟨fun hd hd' => h.fd_inj (hold hd) (hold hd'), fun hd => h.index (hold hd),
    fun {d} hd => ?_, fun hd => h.unregistered (hold hd), fun hd => h.epoll (hold hd),
    fun hd => h.channels (hold hd), fun {fd} hfree => ?_, h.failed⟩
  · obtain ⟨chd, hchd⟩ := h.live hd
    have hdc : d ≠ c := fun heq => by
      rw [heq] at hd
      exact Bool.false_ne_true (hr.symm.trans hd)
    exact ⟨chd, (Function.update_of_ne hdc _ _).trans hchd⟩
  · by_cases hfd : ch.fd = fd
    · rw [← hfd, h.epoll hc, h.channels hc, hnew]
      exact ⟨rfl, rfl⟩
    · refine h.free fun d chd hd => ?_
      by_cases hdc : d = c
      · obtain rfl := Option.some.inj (hc.symm.trans (hdc ▸ hd))
        exact hfd
      · exact hfree d chd ((Function.update_of_ne hdc _ _).trans hd)

/-- The calls keep the invariant, and none of them is fatal. -/
theorem inStep_step (h : InStep q) (he : q.toLiveChannels.Enabled call) :
    ∃ q', q.step call = .ok q' ∧ InStep q' := by
  cases call with
  | create c fd =>
    obtain ⟨hc, -, hfree⟩ := he
    refine ⟨_, rfl, ?_⟩
    rw [create_eq h hc hfree]
    apply h.synced
    · simp [hc]
    · exact fun d _ chd hd => hfree d chd hd
    · exact .inl rfl
    · exact Iff.intro (fun _ => rfl) fun _ => rfl
  | destroy c =>
    obtain ⟨ch, hc⟩ := Option.isSome_iff_exists.mp he.1
    exact ⟨_, rfl, h.destroy hc he.2⟩
  | update c interest =>
    obtain ⟨ch, hc⟩ := Option.isSome_iff_exists.mp he
    refine ⟨_, update_step_eq h hc interest, ?_⟩
    apply h.synced
    · exact InStep.same hc rfl
    · exact h.other hc rfl
    · exact .inr (index_updated ch interest)
    · refine ⟨nofun, fun hnew => ?_⟩
      rcases index_updated ch interest with hindex | hindex
      · exact absurd (hindex.symm.trans hnew) (by decide)
      · exact absurd (hindex.symm.trans hnew) (by decide)
  | removeChannel c =>
    obtain ⟨ch, hc⟩ := Option.isSome_iff_exists.mp he
    refine ⟨_, removeChannel_step_eq h hc, ?_⟩
    apply h.synced
    · exact InStep.same hc rfl
    · exact h.other hc rfl
    · exact .inl rfl
    · exact Iff.intro (fun _ => rfl) fun _ => rfl

theorem preserves_inStep : (machine (ι := ι)).Preserves InStep := by
  intro q call q' h he hs
  obtain ⟨q₁, hs₁, h₁⟩ := inStep_step h he
  obtain rfl := Except.ok.inj (hs₁.symm.trans hs)
  exact h₁

theorem inStep_of_reachable (h : machine.Reachable q) : InStep q := by
  apply h.invariant preserves_inStep
  rintro _ rfl
  exact inStep_init

/-- **The interest list is in step with the channels**, whatever is enabled, disabled, removed and
used again: no call of `epoll_ctl` fails; a descriptor is in the interest list exactly when the
index of its channel is `kAdded`, and with the events of the channel; and `channels_` holds a
channel exactly when its index is not `kNew`. -/
theorem epoll_iff_kAdded : (machine (ι := ι)).NeverFaults ∧
    ∀ q : EPoller ι, machine.Reachable q → q.failed = [] ∧
      (∀ fd, (q.epoll fd).isSome ↔ ∃ c, ∃ ch ∈ q.channel c, ch.fd = fd ∧ ch.index = kAdded) ∧
      (∀ c, ∀ ch ∈ q.channel c, ∀ events ∈ q.epoll ch.fd, events = ch.events) ∧
      ∀ fd c, q.channels fd = some c ↔ ∃ ch ∈ q.channel c, ch.fd = fd ∧ ch.index ≠ kNew := by
  constructor
  · intro q call hr he
    obtain ⟨q', hs, -⟩ := inStep_step (inStep_of_reachable hr) he
    exact ⟨q', hs⟩
  intro q hr
  have h := inStep_of_reachable hr
  -- a descriptor that the poller knows has a channel
  have hlive : ∀ fd, q.epoll fd ≠ none ∨ q.channels fd ≠ none →
      ∃ c ch, q.channel c = some ch ∧ ch.fd = fd := by
    intro fd hknown
    by_contra hfree
    have hfd : ∀ c, ∀ ch ∈ q.channel c, ch.fd ≠ fd := fun c ch hc hfd => hfree ⟨c, ch, hc, hfd⟩
    have hnone := h.free hfd
    exact hknown.elim (· hnone.1) (· hnone.2)
  refine ⟨h.failed, fun fd => ⟨fun hsome => ?_, ?_⟩, ?_, fun fd c => ⟨fun hchannels => ?_, ?_⟩⟩
  · obtain ⟨c, ch, hc, rfl⟩ := hlive fd (.inl (Option.isSome_iff_ne_none.mp hsome))
    refine ⟨c, ch, hc, rfl, ?_⟩
    rw [h.epoll hc] at hsome
    by_contra hindex
    rw [if_neg hindex] at hsome
    cases hsome
  · rintro ⟨c, ch, hc, rfl, hindex⟩
    rw [h.epoll hc, if_pos hindex]
    rfl
  · intro c ch hc events hevents
    rw [h.epoll hc] at hevents
    split_ifs at hevents
    · exact (Option.some.inj hevents).symm
    · cases hevents
  · obtain ⟨d, ch, hd, rfl⟩ := hlive fd (.inr (hchannels ▸ Option.some_ne_none c))
    rw [h.channels hd] at hchannels
    split_ifs at hchannels with hindex
    obtain rfl := Option.some.inj hchannels
    exact ⟨ch, hd, rfl, hindex⟩
  · rintro ⟨ch, hc, rfl, hindex⟩
    rw [h.channels hc, if_neg hindex]

/-- Interest is enabled, disabled and enabled again, and the channel is removed and used again. -/
def toggles : List (PollerCall (Fin 1)) :=
  [.create 0 5, .update 0 .enableReading, .update 0 .disableAllEvents, .update 0 .enableWriting,
    .removeChannel 0, .update 0 .enableReading]

theorem epoll_iff_kAdded_toggles : ∃ q : EPoller (Fin 1), machine.Reachable q ∧ q.failed = [] ∧
    q.epoll 5 = some (Channel.kReadEvent ||| Channel.kWriteEvent) ∧ q.channels 5 = some 0 := by
  have hex : (machine.exec init toggles).map
      (fun q => (q.channel 0, q.epoll 5, q.channels 5)) =
      some (some { events := Channel.kReadEvent ||| Channel.kWriteEvent, fd := 5, index := kAdded },
        some (Channel.kReadEvent ||| Channel.kWriteEvent), some 0) := by decide
  obtain ⟨q, hq, hstate⟩ := Option.map_eq_some_iff.mp hex
  obtain ⟨hc, hepoll, -⟩ : _ ∧ _ ∧ _ := by simpa using hstate
  have hr : machine.Reachable q := ⟨_, _, rfl, Machine.run_of_exec hq⟩
  obtain ⟨hfailed, -, -, hchannels⟩ := epoll_iff_kAdded.2 q hr
  exact ⟨q, hr, hfailed, hepoll, (hchannels 5 0).mpr ⟨_, hc, rfl, by decide⟩⟩

/-! ## Channels without interest -/

/-- Each descriptor in the interest list belongs to a channel that has events. -/
def Interested (q : EPoller ι) : Prop :=
  ∀ fd, (q.epoll fd).isSome →
    ∃ c, ∃ ch ∈ q.channel c, ch.fd = fd ∧ ch.events ≠ Channel.kNoneEvent

/-- A channel that is not in the interest list does not call while it has no events. -/
def AddsInterest (q : EPoller ι) : PollerCall ι → Prop
  | .update c interest =>
    ∀ ch ∈ q.channel c, ch.index ≠ kAdded → (interest.apply ch.toChannel).isNoneEvent = false
  | _ => True

omit [DecidableEq ι] in
theorem interested_init : Interested (init : EPoller ι) := fun _ h => nomatch h

omit [DecidableEq ι] in
/-- The channels whose index is `kAdded` have events. -/
theorem InStep.interested_iff (h : InStep q) : q.Interested ↔
    ∀ c ch, q.channel c = some ch → ch.index = kAdded → ch.events ≠ Channel.kNoneEvent := by
  constructor
  · intro hall c ch hc hindex
    have hsome : (q.epoll ch.fd).isSome := by
      rw [h.epoll hc, if_pos hindex]
      rfl
    obtain ⟨d, chd, hd, hfd, hevents⟩ := hall ch.fd hsome
    obtain rfl := h.fd_inj hd hc hfd
    obtain rfl := Option.some.inj (hc.symm.trans hd)
    exact hevents
  · intro hall fd hsome
    by_cases hknown : ∃ c ch, q.channel c = some ch ∧ ch.fd = fd
    · obtain ⟨c, ch, hc, rfl⟩ := hknown
      refine ⟨c, ch, hc, rfl, hall c ch hc ?_⟩
      by_contra hindex
      rw [h.epoll hc, if_neg hindex] at hsome
      cases hsome
    -- a descriptor without a channel is not in the interest list
    · have hfree : ∀ c, ∀ ch ∈ q.channel c, ch.fd ≠ fd :=
        fun c ch hc hfd => hknown ⟨c, ch, hc, hfd⟩
      rw [(h.free hfree).1] at hsome
      cases hsome

/-- A call keeps the channels interested exactly when the channel that calls is. -/
theorem interested_synced_iff (hq : q.Interested) (h : InStep q) {registered : Bool}
    (h' : InStep (q.synced c registered ch')) :
    (q.synced c registered ch').Interested ↔
      (ch'.index = kAdded → ch'.events ≠ Channel.kNoneEvent) := by
  rw [h.interested_iff] at hq
  rw [h'.interested_iff]
  constructor
  · exact fun hall => hall c ch' (Function.update_self ..)
  · intro hown d chd hd
    rcases synced_cases hd with ⟨-, rfl⟩ | ⟨-, hold⟩
    · exact hown
    · exact hq d chd hold

/-- A change of interest is the only call that can leave a channel without events in the interest
list, and does so exactly when the channel was not in it. -/
theorem interested_step_iff (h : InStep q) (hq : q.Interested) (he : q.toLiveChannels.Enabled call)
    (hs : q.step call = .ok q') : q'.Interested ↔ q.AddsInterest call := by
  obtain ⟨q₁, hs₁, h'⟩ := inStep_step h he
  obtain rfl := Except.ok.inj (hs₁.symm.trans hs)
  cases call with
  | create c fd =>
    obtain rfl := Except.ok.inj hs
    rw [create_eq h he.1 he.2.2] at h' ⊢
    rw [interested_synced_iff hq h h']
    exact iff_of_true (fun hadded => absurd hadded (show (-1 : ℤ) ≠ kAdded by decide)) trivial
  | destroy c =>
    obtain rfl := Except.ok.inj hs
    refine iff_of_true (h'.interested_iff.mpr fun d chd hd => ?_) trivial
    exact h.interested_iff.mp hq d chd (update_none_eq_some.mp hd).2
  | update c interest =>
    obtain ⟨ch, hc⟩ := Option.isSome_iff_exists.mp he
    obtain rfl := Except.ok.inj ((update_step_eq h hc interest).symm.trans hs)
    rw [interested_synced_iff hq h h', index_updated_eq_kAdded]
    have hnone : (interest.apply ch.toChannel).isNoneEvent = false ↔
        (updated ch interest).events ≠ Channel.kNoneEvent := decide_eq_false_iff_not
    simp only [AddsInterest, hc, Option.mem_some_iff, forall_eq', hnone]
    -- a channel in the list that loses its last event is deleted from the list
    by_cases hadded : ch.index = kAdded
    · refine iff_of_true (fun hkept => ?_) fun hnot => absurd hadded hnot
      rw [← hnone]
      exact Bool.eq_false_iff.mpr fun hno => hkept ⟨hadded, hno⟩
    · exact ⟨fun hall _ => hall fun hboth => hadded hboth.1, fun hall _ => hall hadded⟩
  | removeChannel c =>
    obtain ⟨ch, hc⟩ := Option.isSome_iff_exists.mp he
    obtain rfl := Except.ok.inj ((removeChannel_step_eq h hc).symm.trans hs)
    rw [interested_synced_iff hq h h']
    exact iff_of_true (fun hadded => absurd hadded (show kNew ≠ kAdded by decide)) trivial

instance (q : EPoller ι) (call : PollerCall ι) : Decidable (q.AddsInterest call) :=
  match call with
  | .create _ _ => isTrue trivial
  | .destroy _ => isTrue trivial
  | .update c interest => inferInstanceAs (Decidable (∀ ch ∈ q.channel c, ch.index ≠ kAdded →
      (interest.apply ch.toChannel).isNoneEvent = false))
  | .removeChannel _ => isTrue trivial

instance [Fintype ι] (q : EPoller ι) (call : PollerCall ι) :
    Decidable ((machine.guard AddsInterest).enabled q call) :=
  inferInstanceAs (Decidable (machine.enabled q call ∧ q.AddsInterest call))

/-- **A channel without interest is not polled** along exactly those runs in which a channel that
is not in the interest list only calls `updateChannel` with events. -/
theorem interested_iff_addsInterest {calls : List (PollerCall ι)}
    (hr : machine.Run init calls q) :
    machine.Along Interested init calls ↔ (machine.guard AddsInterest).Run init calls q :=
  Machine.along_iff_run_guard preserves_inStep
    (fun _ _ _ h hq he hs => interested_step_iff h hq he hs) hr inStep_init interested_init

/-- The events of a connection are disabled when it is closed, and once more when it is
destroyed. -/
def disabledTwice : List (PollerCall (Fin 1)) :=
  [.create 0 5, .update 0 .enableReading, .update 0 .disableAllEvents, .update 0 .disableAllEvents]

/-- The second call adds the descriptor again, with no events. -/
theorem exists_not_interested : ∃ q, machine.Run init disabledTwice q ∧ ¬q.Interested := by
  have hex : (machine.exec init disabledTwice).map (fun q => (q.channel 0, q.epoll 5)) =
      some (some { events := 0, fd := 5, index := kAdded }, some 0) := by decide
  obtain ⟨q, hq, hstate⟩ := Option.map_eq_some_iff.mp hex
  obtain ⟨hc, -⟩ := Prod.mk.inj hstate
  have hr := Machine.run_of_exec hq
  refine ⟨q, hr, fun hint => ?_⟩
  exact (inStep_of_reachable ⟨_, _, rfl, hr⟩).interested_iff.mp hint 0 _ hc rfl rfl

theorem interested_iff_addsInterest_toggles :
    machine.Along Interested (init : EPoller (Fin 1)) toggles := by
  have hex : ((machine.guard AddsInterest).exec (init : EPoller (Fin 1)) toggles).isSome := by
    decide
  obtain ⟨q, hq⟩ := Option.isSome_iff_exists.mp hex
  have hr := Machine.run_of_exec hq
  exact (interested_iff_addsInterest hr.of_guard).mpr hr

end EPoller

end CodingDemo.Libcpp
