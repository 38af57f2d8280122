import CodingDemo.Container.Slice
import CodingDemo.Machine.Run
import Mathlib.Data.Fintype.Basic
import Mathlib.Data.List.TakeDrop

/-!
# The echo server over epoll

The server reads from a client into a buffer, and writes the string in the buffer back when the
client is writable. There is one buffer for all clients, and the string ends at the first zero byte.

## Main definitions

* `State`, `EpollEvent`: what a descriptor is watched for, and what `epoll_wait` reports
* `EpollServer`: the descriptors watched, the buffer, the events that are left to handle, and what
  has been read from and written to each client
* `handle_accept`, `do_read`, `do_write`: the handlers
* `machine`: the runs of the server, with events delivered in batches
* `Apart`: the bytes written to each client are the first of those read from it
* `OneAtATime`: the condition on a read

## Main results

* `Echo.exists_read`, `Echo.exists_write`: the buffer has what is left to be written
* `apart_of_oneAtATime`: the clients are kept apart if only one of them is served at a time
* `exists_not_apart`: two clients are not
-/

namespace CodingDemo.Epoll

def MAXSIZE : ℕ := 1024

def EPOLLEVENTS : ℕ := 100

/-- The buffer after `memset(buf, 0, MAXSIZE)`. -/
def zeros : List UInt8 := List.replicate MAXSIZE 0

/-- What a descriptor is watched for. -/
inductive State
  | EPOLLIN
  | EPOLLOUT
  deriving DecidableEq

/-- An event of a client, or of `listenfd` if there is no client. -/
structure EpollEvent (Client : Type) where
  fd : Option Client
  events : State
  deriving DecidableEq

structure EpollServer (Client : Type) where
  /-- The clients in the interest list. -/
  interest : Client → Option State
  buf : List UInt8
  /-- The events of the last `epoll_wait` that are left to handle. -/
  batch : List (EpollEvent Client)
  /-- The bytes read from each client. -/
  received : Client → List UInt8
  /-- The bytes written to each client. -/
  sent : Client → List UInt8

/-- The result of `read`. -/
inductive Nread
  | error
  | close
  | data (bytes : List UInt8)
  deriving DecidableEq

/-- Something is read, and no more than asked for. -/
def Nread.Fits : Nread → Prop
  | .error => True
  | .close => True
  | .data bytes => bytes ≠ [] ∧ bytes.length ≤ MAXSIZE

instance (nread : Nread) : Decidable nread.Fits :=
  match nread with
  | .error => isTrue trivial
  | .close => isTrue trivial
  | .data bytes => inferInstanceAs (Decidable (bytes ≠ [] ∧ bytes.length ≤ MAXSIZE))

/-- The string in the buffer does not end, and what is behind the buffer is read. -/
inductive Fault
  | overread
  deriving DecidableEq

namespace EpollServer

variable {Client : Type} [DecidableEq Client]

def init : EpollServer Client where
  interest _ := none
  buf := zeros
  batch := []
  received _ := []
  sent _ := []

/-! ## The handlers -/

/-- The string in the buffer, up to the first zero byte. -/
def str (buf : List UInt8) : Except Fault (List UInt8) :=
  let s := buf.takeWhile (· ≠ 0)
  if s.length < buf.length then .ok s else .error .overread

def setInterest (s : EpollServer Client) (fd : Client) (state : Option State) :
    EpollServer Client :=
  { s with interest := Function.update s.interest fd state }

def handle_accept (s : EpollServer Client) (clifd : Option Client) : EpollServer Client :=
  match clifd with
  | none => s
  | some clifd => s.setInterest clifd (some .EPOLLIN)

/-- The message is printed after it has been read. -/
def do_read (s : EpollServer Client) (fd : Client) (nread : Nread) :
    Except Fault (EpollServer Client) :=
  match nread with
  | .error => .ok (s.setInterest fd none)
  | .close => .ok (s.setInterest fd none)
  | .data bytes =>
    -- what an earlier message has left behind the new one stays in the buffer
    let buf := overwrite s.buf 0 bytes
    let received := Function.update s.received fd (s.received fd ++ bytes)
    match str buf with
    | .error f => .error f
    | .ok _ => .ok ({ s with buf, received }.setInterest fd (some .EPOLLOUT))

/-- The whole string is written. -/
def do_write (s : EpollServer Client) (fd : Client) : Except Fault (EpollServer Client) :=
  match str s.buf with
  | .error f => .error f
  | .ok bytes =>
    let sent := Function.update s.sent fd (s.sent fd ++ bytes)
    .ok ({ s with buf := zeros, sent }.setInterest fd (some .EPOLLIN))

/-! ## The loop -/

inductive Event (Client : Type)
  | epoll_wait (events : List (EpollEvent Client))
  | accept (clifd : Option Client)
  | read (nread : Nread)
  | write
  deriving DecidableEq

/-- An event is reported for what its descriptor is watched for. -/
def Reported (s : EpollServer Client) (ev : EpollEvent Client) : Prop :=
  match ev.fd with
  | none => ev.events = .EPOLLIN
  | some fd => s.interest fd = some ev.events

/-- The first event that is left is of a client. -/
def Next (s : EpollServer Client) (state : State) : Prop :=
  ∃ fd, s.batch.head? = some ⟨some fd, state⟩

/-- `epoll_wait` is called after all events have been handled, and reports each descriptor once. A
handler is called for the first event that is left. -/
def Enabled (s : EpollServer Client) : Event Client → Prop
  | .epoll_wait events =>
    s.batch = [] ∧ events.length ≤ EPOLLEVENTS ∧ (events.map EpollEvent.fd).Nodup ∧
      ∀ ev ∈ events, s.Reported ev
  | .accept clifd =>
    s.batch.head? = some ⟨none, .EPOLLIN⟩ ∧ ∀ fd ∈ clifd, s.interest fd = none
  | .read nread => s.Next .EPOLLIN ∧ nread.Fits
  | .write => s.Next .EPOLLOUT

/-- One event; the handlers are called for the descriptor of the first event in the batch. -/
def step (s : EpollServer Client) : Event Client → Except Fault (EpollServer Client)
  | .epoll_wait events => .ok { s with batch := events }
  | .accept clifd => .ok ({ s with batch := s.batch.tail }.handle_accept clifd)
  | .read nread =>
    match s.batch with
    | ⟨some fd, _⟩ :: batch => { s with batch }.do_read fd nread
    | _ => .ok s
  | .write =>
    match s.batch with
    | ⟨some fd, _⟩ :: batch => { s with batch }.do_write fd
    | _ => .ok s

/-- The server starts without clients. -/
def machine (Client : Type) [DecidableEq Client] :
    Machine (EpollServer Client) (Event Client) Fault where
  init s := s = init
  enabled := Enabled
  step := step

/-- The bytes written to each client are the first of those read from it. -/
def Apart (s : EpollServer Client) : Prop := ∀ fd, s.sent fd <+: s.received fd

/-- A client is only read while no other one waits for its echo. What is read has no zero byte, and
does not fill the buffer. -/
def OneAtATime (s : EpollServer Client) : Event Client → Prop
  | .read (.data bytes) =>
    (∀ fd, s.interest fd ≠ some .EPOLLOUT) ∧ 0 ∉ bytes ∧ bytes.length < MAXSIZE
  | _ => True

section Decidable

variable (s : EpollServer Client)

instance (ev : EpollEvent Client) : Decidable (s.Reported ev) :=
  match ev with
  | ⟨none, state⟩ => inferInstanceAs (Decidable (state = .EPOLLIN))
  | ⟨some fd, state⟩ => inferInstanceAs (Decidable (s.interest fd = some state))

instance (state : State) : Decidable (s.Next state) :=
  match h : s.batch.head? with
  | none => isFalse fun ⟨_, hfd⟩ => nomatch h.symm.trans hfd
  | some ⟨none, _⟩ => isFalse fun ⟨_, hfd⟩ => nomatch h.symm.trans hfd
  | some ⟨some fd, state'⟩ =>
    if hstate : state' = state then isTrue ⟨fd, hstate ▸ h⟩
    else isFalse fun ⟨_, hfd⟩ =>
      hstate (congrArg EpollEvent.events (Option.some.inj (h.symm.trans hfd)))

instance (e : Event Client) : Decidable (s.Enabled e) :=
  match e with
  | .epoll_wait events => inferInstanceAs (Decidable (s.batch = [] ∧ events.length ≤ EPOLLEVENTS ∧
      (events.map EpollEvent.fd).Nodup ∧ ∀ ev ∈ events, s.Reported ev))
  | .accept clifd => inferInstanceAs (Decidable
      (s.batch.head? = some ⟨none, .EPOLLIN⟩ ∧ ∀ fd ∈ clifd, s.interest fd = none))
  | .read nread => inferInstanceAs (Decidable (s.Next .EPOLLIN ∧ nread.Fits))
  | .write => inferInstanceAs (Decidable (s.Next .EPOLLOUT))

instance (e : Event Client) : Decidable ((machine Client).enabled s e) :=
  inferInstanceAs (Decidable (s.Enabled e))

end Decidable

instance [Fintype Client] (s : EpollServer Client) (e : Event Client) :
    Decidable (s.OneAtATime e) :=
  match e with
  | .read (.data bytes) => inferInstanceAs (Decidable
      ((∀ fd, s.interest fd ≠ some .EPOLLOUT) ∧ 0 ∉ bytes ∧ bytes.length < MAXSIZE))
  | .read .error => isTrue trivial
  | .read .close => isTrue trivial
  | .epoll_wait _ => isTrue trivial
  | .accept _ => isTrue trivial
  | .write => isTrue trivial

instance [Fintype Client] (s : EpollServer Client) (e : Event Client) :
    Decidable (((machine Client).guard OneAtATime).enabled s e) :=
  inferInstanceAs (Decidable (s.Enabled e ∧ s.OneAtATime e))

variable {s s' : EpollServer Client} {e : Event Client} {fd : Client} {data bytes : List UInt8}

/-! ## The string in the buffer -/

/-- The buffer after a short string has been read into it. -/
def filled (data : List UInt8) : List UInt8 := data ++ List.replicate (MAXSIZE - data.length) 0

theorem overwrite_zeros (data : List UInt8) : overwrite zeros 0 data = filled data := by
  rw [overwrite, zeros, List.take_zero, List.nil_append, List.drop_replicate, Nat.zero_add, filled]

theorem str_filled (hzero : 0 ∉ data) (hlen : data.length < MAXSIZE) :
    str (filled data) = .ok data := by
  obtain ⟨n, hn⟩ : ∃ n, MAXSIZE - data.length = n + 1 := ⟨MAXSIZE - data.length - 1, by omega⟩
  have htake : (filled data).takeWhile (· ≠ 0) = data := by
    rw [filled, hn, List.replicate_succ, List.takeWhile_append_of_pos]
    · simp
    · intro b hb
      simpa using ne_of_mem_of_not_mem hb hzero
  have hlt : data.length < (filled data).length := by
    rw [filled, List.length_append, List.length_replicate]
    omega
  unfold str
  rw [htake]
  exact if_pos hlt

/-! ## The events that are left -/

/-- The events that are left are of different descriptors, and still apply. -/
structure Ready (s : EpollServer Client) : Prop where
  nodup : (s.batch.map EpollEvent.fd).Nodup
  reported : ∀ ev ∈ s.batch, s.Reported ev

omit [DecidableEq Client] in
theorem Ready.tail (h : s.Ready) : Ready { s with batch := s.batch.tail } where
  nodup := by
    show (s.batch.tail.map EpollEvent.fd).Nodup
    rw [List.map_tail]
    exact h.nodup.tail
  reported ev hev := h.reported ev (List.mem_of_mem_tail hev)

/-- A descriptor without events may be watched for something else. -/
theorem Ready.setInterest (h : s.Ready) (hfd : ∀ ev ∈ s.batch, ev.fd ≠ some fd)
    (state : Option State) : (s.setInterest fd state).Ready where
  nodup := h.nodup
  reported ev hev := by
    have hold := h.reported ev hev
    unfold Reported at hold ⊢
    cases hev' : ev.fd with
    | none => rwa [hev'] at hold
    | some fd' =>
      rw [hev'] at hold
      have hne : fd' ≠ fd := by
        rintro rfl
        exact hfd ev hev hev'
      exact (Function.update_of_ne hne ..).trans hold

omit [DecidableEq Client] in
theorem Ready.of_eq (h : s.Ready) (hinterest : s'.interest = s.interest)
    (hbatch : s'.batch = s.batch) : s'.Ready where
  nodup := by rw [hbatch]; exact h.nodup
  reported ev hev := by
    have hold := h.reported ev (hbatch ▸ hev)
    unfold Reported at hold ⊢
    rwa [hinterest]

/-- The first event is handled, and its descriptor is watched for something else. -/
theorem Ready.handle (h : s.Ready) {state : State} {batch : List (EpollEvent Client)}
    (hbatch : s.batch = ⟨some fd, state⟩ :: batch) (state' : Option State) :
    ({ s with batch }.setInterest fd state').Ready := by
  have htail := h.tail
  rw [hbatch, List.tail_cons] at htail
  refine htail.setInterest (fun ev hev hfd => ?_) state'
  have hnodup := h.nodup
  rw [hbatch, List.map_cons, List.nodup_cons] at hnodup
  exact hnodup.1 (List.mem_map.mpr ⟨ev, hev, hfd⟩)

/-! ## The echo that is left -/

/-- Either no client waits for its echo, or one does, and its echo is in the buffer. -/
inductive Echo (s : EpollServer Client) : Prop
  | idle : (∀ fd, s.interest fd ≠ some .EPOLLOUT) → s.buf = zeros →
      (∀ fd, s.received fd = s.sent fd) → Echo s
  | waiting {fd : Client} {data : List UInt8} : s.interest fd = some .EPOLLOUT →
      (∀ fd' ≠ fd, s.interest fd' ≠ some .EPOLLOUT) → 0 ∉ data → data.length < MAXSIZE →
      s.buf = filled data → s.received fd = s.sent fd ++ data →
      (∀ fd' ≠ fd, s.received fd' = s.sent fd') → Echo s

omit [DecidableEq Client] in
theorem Echo.apart (h : s.Echo) : s.Apart := by
  intro fd
  cases h with
  | idle _ _ heq => exact ⟨[], by rw [heq, List.append_nil]⟩
  | @waiting fd' data _ _ _ _ _ heq hother =>
    by_cases hfd : fd = fd'
    · subst hfd
      exact ⟨data, heq.symm⟩
    · exact ⟨[], by rw [hother fd hfd, List.append_nil]⟩

omit [DecidableEq Client] in
theorem Echo.setBatch (h : s.Echo) (batch : List (EpollEvent Client)) :
    Echo { s with batch } := by
  cases h with
  | idle hnone hbuf heq => exact .idle hnone hbuf heq
  | waiting hfd hnone hzero hlen hbuf heq hother =>
    exact .waiting hfd hnone hzero hlen hbuf heq hother

/-- A client that does not wait for its echo may be watched for something else, but not for that. -/
theorem Echo.setInterest (h : s.Echo) {state : Option State}
    (hold : s.interest fd ≠ some .EPOLLOUT) (hnew : state ≠ some .EPOLLOUT) :
    (s.setInterest fd state).Echo := by
  have hkeep : ∀ fd', s.interest fd' ≠ some .EPOLLOUT →
      Function.update s.interest fd state fd' ≠ some .EPOLLOUT := by
    intro fd' hfd'
    by_cases heq : fd' = fd
    · subst heq
      rwa [Function.update_self]
    · rwa [Function.update_of_ne heq]
  cases h with
  | idle hnone hbuf heq => exact .idle (fun fd' => hkeep fd' (hnone fd')) hbuf heq
  | @waiting fd' data hfd' hnone hzero hlen hbuf heq hother =>
    have hne : fd' ≠ fd := by
      rintro rfl
      exact hold hfd'
    exact .waiting ((Function.update_of_ne hne ..).trans hfd')
      (fun fd'' hne' => hkeep fd'' (hnone fd'' hne')) hzero hlen hbuf heq hother

/-- A client is read while nobody waits. -/
theorem Echo.exists_read (h : s.Echo) (fd : Client)
    (hone : s.OneAtATime (.read (.data bytes))) :
    ∃ s', s.do_read fd (.data bytes) = .ok s' ∧ s'.Echo ∧
      s'.interest = Function.update s.interest fd (some .EPOLLOUT) ∧ s'.batch = s.batch := by
  obtain ⟨hnone, hzero, hlen⟩ := hone
  cases h with
  | waiting hfd => exact absurd hfd (hnone _)
  | idle _ hbuf heq =>
    -- the buffer is zero, so the string ends where the new bytes end
    have hstr : str (overwrite s.buf 0 bytes) = .ok bytes := by
      rw [hbuf, overwrite_zeros, str_filled hzero hlen]
    simp only [do_read, hstr]
    refine ⟨_, rfl, ?_, rfl, rfl⟩
    refine .waiting (Function.update_self ..) (fun fd' hne => ?_) hzero hlen ?_ ?_ fun fd' hne => ?_
    · exact fun h => hnone fd' ((Function.update_of_ne hne ..).symm.trans h)
    · show overwrite s.buf 0 bytes = _
      rw [hbuf, overwrite_zeros]
    · show Function.update s.received fd _ fd = _
      rw [Function.update_self, heq]
      rfl
    · exact (Function.update_of_ne hne ..).trans (heq fd')

/-- The client that waits gets its echo. -/
theorem Echo.exists_write (h : s.Echo) (hfd : s.interest fd = some .EPOLLOUT) :
    ∃ s', s.do_write fd = .ok s' ∧ s'.Echo ∧
      s'.interest = Function.update s.interest fd (some .EPOLLIN) ∧ s'.batch = s.batch := by
  cases h with
  | idle hnone => exact absurd hfd (hnone fd)
  | @waiting fd' data _ hnone hzero hlen hbuf heq hother =>
    -- only one client waits
    obtain rfl : fd = fd' := by
      by_contra hne
      exact hnone fd hne hfd
    have hstr : str s.buf = .ok data := by rw [hbuf, str_filled hzero hlen]
    simp only [do_write, hstr]
    refine ⟨_, rfl, .idle (fun fd' => ?_) rfl fun fd' => ?_, rfl, rfl⟩
    · show Function.update s.interest fd (some .EPOLLIN) fd' ≠ _
      by_cases hne : fd' = fd
      · subst hne
        rw [Function.update_self]
        nofun
      · rw [Function.update_of_ne hne]
        exact hnone fd' hne
    · show s.received fd' = Function.update s.sent fd _ fd'
      by_cases hne : fd' = fd
      · subst hne
        rw [Function.update_self, heq]
      · rw [Function.update_of_ne hne, hother fd' hne]

/-! ## Every run -/

structure Inv (s : EpollServer Client) : Prop where
  ready : s.Ready
  echo : s.Echo

omit [DecidableEq Client] in
theorem Inv.init : (init : EpollServer Client).Inv where
  ready := ⟨List.nodup_nil, fun _ h => absurd h List.not_mem_nil⟩
  echo := .idle (fun _ => nofun) rfl fun _ => rfl

theorem Inv.exists_accept (h : s.Inv) {clifd : Option Client}
    (he : s.Enabled (.accept clifd)) : ∃ s', s.step (.accept clifd) = .ok s' ∧ s'.Inv := by
  refine ⟨_, rfl, ?_⟩
  cases clifd with
  | none => exact ⟨h.ready.tail, h.echo.setBatch _⟩
  | some fd =>
    have hnew := he.2 fd rfl
    constructor
    · -- no event can be left for a descriptor that was not watched
      refine h.ready.tail.setInterest (fun ev hev hfd => ?_) _
      have hreported := h.ready.reported ev (List.mem_of_mem_tail hev)
      rw [Reported, hfd] at hreported
      exact absurd (hnew.symm.trans hreported) nofun
    · refine (h.echo.setBatch s.batch.tail).setInterest ?_ nofun
      show s.interest fd ≠ _
      rw [hnew]
      nofun

theorem Inv.exists_read (h : s.Inv) {nread : Nread} (he : s.Enabled (.read nread))
    (hone : s.OneAtATime (.read nread)) : ∃ s', s.step (.read nread) = .ok s' ∧ s'.Inv := by
  obtain ⟨⟨fd, hhead⟩, -⟩ := he
  obtain ⟨batch, hbatch⟩ := List.head?_eq_some_iff.mp hhead
  have hin : s.interest fd = some .EPOLLIN :=
    h.ready.reported ⟨some fd, .EPOLLIN⟩ (hbatch ▸ List.mem_cons_self)
  have hout : s.interest fd ≠ some .EPOLLOUT := by
    rw [hin]
    nofun
  -- a client that has closed is not watched any more, whoever waits meanwhile
  have hready := h.ready.handle hbatch
  have hclose : Inv ({ s with batch }.setInterest fd none) :=
    ⟨hready none, (h.echo.setBatch batch).setInterest hout nofun⟩
  simp only [step, hbatch]
  cases nread with
  | error => exact ⟨_, rfl, hclose⟩
  | close => exact ⟨_, rfl, hclose⟩
  | data bytes =>
    obtain ⟨s', hs, hecho, hinterest, hbatch'⟩ :=
      (h.echo.setBatch batch).exists_read fd hone
    exact ⟨s', hs, (hready _).of_eq hinterest hbatch', hecho⟩

theorem Inv.exists_write (h : s.Inv) (he : s.Enabled .write) :
    ∃ s', s.step .write = .ok s' ∧ s'.Inv := by
  obtain ⟨fd, hhead⟩ := he
  obtain ⟨batch, hbatch⟩ := List.head?_eq_some_iff.mp hhead
  have hout : s.interest fd = some .EPOLLOUT :=
    h.ready.reported ⟨some fd, .EPOLLOUT⟩ (hbatch ▸ List.mem_cons_self)
  obtain ⟨s', hs, hecho, hinterest, hbatch'⟩ := (h.echo.setBatch batch).exists_write hout
  simp only [step, hbatch]
  exact ⟨s', hs, (h.ready.handle hbatch _).of_eq hinterest hbatch', hecho⟩

/-- A step of one client at a time does not fault, and keeps the clients apart. -/
theorem Inv.exists_step (h : s.Inv) (he : s.Enabled e) (hone : s.OneAtATime e) :
    ∃ s', s.step e = .ok s' ∧ s'.Inv := by
  cases e with
  | epoll_wait events => exact ⟨_, rfl, ⟨he.2.2.1, he.2.2.2⟩, h.echo.setBatch events⟩
  | accept clifd => exact h.exists_accept he
  | read nread => exact h.exists_read he hone
  | write => exact h.exists_write he

theorem Inv.of_reachable (h : ((machine Client).guard OneAtATime).Reachable s) : s.Inv := by
  refine h.invariant (fun s e s' h he hs => ?_) ?_
  · obtain ⟨s₁, hs₁, hinv⟩ := h.exists_step he.1 he.2
    obtain rfl := Except.ok.inj (hs.symm.trans hs₁)
    exact hinv
  · rintro _ rfl
    exact Inv.init

/-- **The clients are kept apart** in every run in which one client is served at a time: the string
in the buffer always ends, and each client is written the first bytes that were read from it. -/
theorem apart_of_oneAtATime (h : ((machine Client).guard OneAtATime).Reachable s) :
    s.Apart ∧ ∀ e, ((machine Client).guard OneAtATime).enabled s e →
      ∃ s', (machine Client).step s e = .ok s' := by
  have hinv : s.Inv := Inv.of_reachable h
  refine ⟨hinv.echo.apart, fun e he => ?_⟩
  obtain ⟨s', hs, -⟩ := hinv.exists_step he.1 he.2
  exact ⟨s', hs⟩

/-- Both clients are read before the first one is written. -/
def crossing : List (Event Bool) :=
  [.epoll_wait [⟨none, .EPOLLIN⟩], .accept (some false), .epoll_wait [⟨none, .EPOLLIN⟩],
    .accept (some true), .epoll_wait [⟨some false, .EPOLLIN⟩, ⟨some true, .EPOLLIN⟩],
    .read (.data [97]), .read (.data [98, 99]), .epoll_wait [⟨some false, .EPOLLOUT⟩], .write]

/-- A client is written what was read from the other one. -/
theorem exists_not_apart : ∃ s, (machine Bool).Run init crossing s ∧ ¬s.Apart := by
  have hexec : ((machine Bool).exec init crossing).map (fun s => (s.sent false, s.received false)) =
      some ([98, 99], [97]) := by decide +kernel
  obtain ⟨s, hs, heq⟩ := Option.map_eq_some_iff.mp hexec
  obtain ⟨hsent, hreceived⟩ := Prod.mk.inj heq
  refine ⟨s, Machine.run_of_exec hs, fun hapart => ?_⟩
  have hprefix := hapart false
  rw [hsent, hreceived] at hprefix
  exact absurd hprefix (by decide)

/-- Each of two clients is read, and then written. -/
def inTurn : List (Event Bool) :=
  [.epoll_wait [⟨none, .EPOLLIN⟩], .accept (some false), .epoll_wait [⟨none, .EPOLLIN⟩],
    .accept (some true), .epoll_wait [⟨some false, .EPOLLIN⟩], .read (.data [97]),
    .epoll_wait [⟨some false, .EPOLLOUT⟩], .write, .epoll_wait [⟨some true, .EPOLLIN⟩],
    .read (.data [98, 99]), .epoll_wait [⟨some true, .EPOLLOUT⟩], .write]

theorem apart_of_oneAtATime_inTurn :
    ∃ s : EpollServer Bool, (machine Bool).Run init inTurn s ∧ s.Apart := by
  have hexec : (((machine Bool).guard OneAtATime).exec init inTurn).isSome := by
    decide +kernel
  obtain ⟨s, hs⟩ := Option.isSome_iff_exists.mp hexec
  have hr := Machine.run_of_exec hs
  exact ⟨s, hr.of_guard, (apart_of_oneAtATime ⟨init, inTurn, rfl, hr⟩).1⟩

end EpollServer

end CodingDemo.Epoll
