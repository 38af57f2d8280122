import CodingDemo.Machine.Run
import Mathlib.Data.Finset.Card
import Mathlib.Data.Fintype.Basic
import Mathlib.Data.Finset.Filter

/-!
# The server over select

The server records the descriptors of its clients in slots. A slot becomes free when its client
closes, but a new client always gets the next slot, up to the last one; when the slots are used up,
what is accepted is not recorded. A new descriptor that is not the largest so far ends the loop, and
what comes after the loop looks at more slots than there are.

## Main definitions

* `SelectServer`, `step`: the variables of `main`, and one round of its loop
* `machine`: the runs of the server
* `Accounted`, `Keeps`: what should hold after each round
* `Serves`: the condition on a round

## Main results

* `recvClients_eq`: the clients whose connections are closed in a round
* `accounts_iff`: the server accounts for its connections exactly as long as each round meets the
  condition
-/

namespace CodingDemo.Select

def MAX_LISTEN_NUM : ℕ := 10

def MAX_LIVE_FD_NUM : ℕ := 5

structure SelectServer where
  serverfd : ℕ
  client_sockfd : Fin MAX_LIVE_FD_NUM → ℕ
  conn_amount : ℕ
  maxfd : ℕ
  /-- The open descriptors of the process. -/
  fds : Finset ℕ
  /-- What `accept` has returned so far. -/
  returned : List ℕ
  /-- `main` has not returned. -/
  running : Bool

inductive Fault
  | outOfBounds
  deriving DecidableEq

/-- A new descriptor is the smallest one that is not open. -/
def lowest (fds : Finset ℕ) : ℕ := ((List.range (fds.card + 1)).find? (· ∉ fds)).getD 0

namespace SelectServer

/-- The state before the loop. The process has inherited descriptors. -/
def init (inherited : Finset ℕ) : SelectServer where
  serverfd := lowest inherited
  client_sockfd _ := 0
  conn_amount := 0
  maxfd := lowest inherited
  fds := insert (lowest inherited) inherited
  returned := []
  running := true

def get (s : SelectServer) (i : ℕ) : Except Fault ℕ :=
  if h : i < MAX_LIVE_FD_NUM then .ok (s.client_sockfd ⟨i, h⟩) else .error .outOfBounds

/-- `client_sockfd[i] = fd`. -/
def set (s : SelectServer) (i fd : ℕ) : Except Fault SelectServer :=
  if h : i < MAX_LIVE_FD_NUM then
    .ok { s with client_sockfd := Function.update s.client_sockfd ⟨i, h⟩ fd }
  else .error .outOfBounds

def close (s : SelectServer) (fd : ℕ) : SelectServer := { s with fds := s.fds.erase fd }

/-- All descriptors are closed when `main` returns. -/
def exit (s : SelectServer) : SelectServer := { s with fds := ∅, running := false }

/-- What comes after the loop. -/
def finish (s : SelectServer) : Except Fault SelectServer := do
  let s ← (List.range MAX_LISTEN_NUM).foldlM (fun s i => do
    let fd ← s.get i
    .ok (if fd ≠ 0 then s.close fd else s)) s
  .ok (s.close s.serverfd).exit

/-- The descriptors that `select` is called for. -/
def watch (s : SelectServer) : Except Fault (Finset ℕ) :=
  (List.range MAX_LIVE_FD_NUM).foldlM (fun client_fdset i => do
    let fd ← s.get i
    .ok (if fd ≠ 0 then insert fd client_fdset else client_fdset)) {s.serverfd}

/-- A client that is readable, and whose connection is closed if nothing can be received. -/
def recvClient (recv : ℕ → ℤ) (p : SelectServer × Finset ℕ) (i : ℕ) :
    Except Fault (SelectServer × Finset ℕ) := do
  let fd ← p.1.get i
  if fd ∈ p.2 ∧ recv fd ≤ 0 then
    let s ← (p.1.close fd).set i 0
    .ok (s, p.2.erase fd)
  else .ok p

def recvClients (s : SelectServer) (recv : ℕ → ℤ) (client_fdset : Finset ℕ) :
    Except Fault (SelectServer × Finset ℕ) :=
  (List.range s.conn_amount).foldlM (recvClient recv) (s, client_fdset)

/-- A new connection, if `accept` does not fail: the result of receiving its first message. -/
def acceptClient (s : SelectServer) : Option ℤ → Except Fault SelectServer
  | none => .ok s
  | some ret =>
    let clifd := lowest s.fds
    let s := { s with fds := insert clifd s.fds, returned := s.returned ++ [clifd] }
    if s.conn_amount < MAX_LIVE_FD_NUM then do
      let s ← s.set s.conn_amount clifd
      let s := { s with conn_amount := s.conn_amount + 1 }
      if ret < 0 then .ok (s.close s.serverfd).exit
      else if clifd > s.maxfd then .ok { s with maxfd := clifd }
      else s.finish
    else .ok s

/-- What happens in a round of the loop: `select` fails, or some descriptors are readable. What is
received from a client is given by its descriptor. -/
inductive Event
  | error
  | select (readable : Finset ℕ) (recv : ℕ → ℤ) (accept : Option ℤ)

/-- One round. `select` also fails if one of the descriptors is not open, and reports those that
are readable and not larger than `maxfd`. -/
def round (s : SelectServer) : Event → Except Fault SelectServer
  | .error => s.finish
  | .select readable recv accept => do
    let client_fdset ← s.watch
    if client_fdset ⊆ s.fds then do
      let client_fdset := client_fdset.filter fun fd => fd ≤ s.maxfd ∧ fd ∈ readable
      if client_fdset = ∅ then .ok s
      else do
        let (s, client_fdset) ← s.recvClients recv client_fdset
        if s.serverfd ∈ client_fdset then s.acceptClient accept else .ok s
    else s.finish

/-- Nothing happens after `main` has returned. -/
def step (s : SelectServer) (e : Event) : Except Fault SelectServer :=
  if s.running then s.round e else .ok s

def machine : Machine SelectServer Event Fault where
  init s := ∃ inherited, s = init inherited
  enabled _ _ := True
  step := step

/-! ## What the server should do -/

/-- The descriptor is in a slot. -/
def Recorded (s : SelectServer) (fd : ℕ) : Prop := fd ≠ 0 ∧ ∃ i, s.client_sockfd i = fd

/-- The open descriptors that `accept` has returned. -/
def live (s : SelectServer) : Finset ℕ := s.fds.filter (· ∈ s.returned)

/-- What `accept` has returned is recorded or closed, and no open descriptor in a slot is larger
than `maxfd`. -/
structure Accounted (s : SelectServer) : Prop where
  recorded : ∀ fd ∈ s.returned, s.Recorded fd ∨ fd ∉ s.fds
  le_maxfd : ∀ fd, s.Recorded fd → fd ∈ s.fds → fd ≤ s.maxfd

/-- All connections are accounted for, and a new one has been recorded if there were fewer than
`MAX_LIVE_FD_NUM` others. -/
structure Keeps (s : SelectServer) (_ : Event) (s' : SelectServer) : Prop where
  accounted : s'.Accounted
  connects : ∀ fd, s'.returned = s.returned ++ [fd] →
    (s'.live.erase fd).card < MAX_LIVE_FD_NUM → s'.Recorded fd

/-- No round leaves the slots or the accounts. -/
def Accounts (s : SelectServer) (es : List Event) : Prop :=
  (∃ s', machine.Run s es s') ∧ machine.Each Keeps s es

/-! ## What happens in a round -/

/-- The server's descriptor, and those in the slots. -/
def watched (s : SelectServer) : Finset ℕ :=
  insert s.serverfd ((Finset.univ.image s.client_sockfd).erase 0)

/-- The descriptors that `select` reports. -/
def reported (s : SelectServer) (readable : Finset ℕ) : Finset ℕ :=
  s.watched.filter fun fd => fd ≤ s.maxfd ∧ fd ∈ readable

/-- What is closed by the first `n` rounds of the loop over the clients, because nothing can be
received. -/
def closed (s : SelectServer) (recv : ℕ → ℤ) (set : Finset ℕ) (n : ℕ) : Finset ℕ :=
  set.filter fun fd => recv fd ≤ 0 ∧ ∃ i : Fin MAX_LIVE_FD_NUM, i < n ∧ s.client_sockfd i = fd

/-- The descriptors that are closed in a round. -/
def closing (s : SelectServer) (readable : Finset ℕ) (recv : ℕ → ℤ) : Finset ℕ :=
  s.closed recv (s.reported readable) s.conn_amount

/-- `select` does not fail. What is accepted gets a slot and, unless the server ends at once, a
descriptor that is larger than all others: those up to `maxfd` are open and stay so. -/
def Serves (s : SelectServer) : Event → Prop
  | .error => s.running = false
  | .select readable recv accept => s.running = true → s.serverfd ∈ s.fds ∧
      ∀ ret ∈ accept, s.serverfd ∈ readable → s.serverfd ∉ s.closing readable recv →
        s.conn_amount < MAX_LIVE_FD_NUM ∧
          (ret < 0 ∨ ∀ fd ≤ s.maxfd, fd ∈ s.fds ∧ fd ∉ s.closing readable recv)

/-! ## Descriptors -/

section Lowest

theorem lowest_spec (fds : Finset ℕ) : lowest fds ∉ fds ∧ ∀ fd < lowest fds, fd ∈ fds := by
  have hcard : fds.card < (Finset.range (fds.card + 1)).card := by
    rw [Finset.card_range]
    exact Nat.lt_succ_self _
  obtain ⟨n, hn, hnew⟩ := Finset.exists_mem_notMem_of_card_lt_card hcard
  have hsome : ((List.range (fds.card + 1)).find? (· ∉ fds)).isSome := by
    rw [List.find?_isSome]
    exact ⟨n, List.mem_range.mpr (Finset.mem_range.mp hn), decide_eq_true hnew⟩
  obtain ⟨fd, hfd⟩ := Option.isSome_iff_exists.mp hsome
  have heq : lowest fds = fd := by rw [lowest, hfd, Option.getD_some]
  obtain ⟨hnotMem, -, hbelow⟩ := List.find?_range_eq_some.mp hfd
  rw [heq]
  refine ⟨of_decide_eq_true hnotMem, fun fd' hlt => ?_⟩
  have hmem := hbelow fd' hlt
  simpa using hmem

theorem lowest_notMem (fds : Finset ℕ) : lowest fds ∉ fds := (lowest_spec fds).1

/-- A new descriptor is larger than `m` if all up to `m` are open. -/
theorem lt_lowest_iff {fds : Finset ℕ} {m : ℕ} : m < lowest fds ↔ ∀ fd ≤ m, fd ∈ fds := by
  constructor
  · intro h fd hfd
    exact (lowest_spec fds).2 fd (hfd.trans_lt h)
  · intro h
    by_contra hle
    exact lowest_notMem fds (h _ (not_lt.mp hle))

end Lowest

/-! ## The loops -/

section Loops

variable {s : SelectServer} {i n fd : ℕ} {readable C set : Finset ℕ} {recv : ℕ → ℤ}
  {accept : Option ℤ}

theorem get_eq_ok (h : i < MAX_LIVE_FD_NUM) : s.get i = .ok (s.client_sockfd ⟨i, h⟩) := dif_pos h

theorem range_succ_foldlM {σ : Type} (f : σ → ℕ → Except Fault σ) (s : σ) (n : ℕ) :
    (List.range (n + 1)).foldlM f s = (List.range n).foldlM f s >>= fun s => f s n := by
  rw [List.range_succ, List.foldlM_append]
  congr 1
  funext s
  rw [List.foldlM_cons]
  cases f s n <;> rfl

/-- **What comes after the loop** goes on after the last slot. -/
theorem finish_eq_error (s : SelectServer) : s.finish = .error .outOfBounds := by
  have hloop : ∀ (is : List ℕ) (s : SelectServer), (∃ i ∈ is, MAX_LIVE_FD_NUM ≤ i) →
      is.foldlM (fun s i => do
        let fd ← s.get i
        .ok (if fd ≠ 0 then s.close fd else s)) s = .error .outOfBounds := by
    intro is
    induction is with
    | nil =>
      rintro s ⟨i, hi, -⟩
      cases hi
    | cons i is ih =>
      intro s hout
      rw [List.foldlM_cons]
      by_cases hi : i < MAX_LIVE_FD_NUM
      · rw [get_eq_ok hi]
        apply ih
        obtain ⟨j, hj, hle⟩ := hout
        rcases List.mem_cons.mp hj with rfl | hj
        · exact absurd hi (not_lt.mpr hle)
        · exact ⟨j, hj, hle⟩
      · rw [get, dif_neg hi]
        rfl
  rw [finish, hloop _ s ⟨5, by decide, le_rfl⟩]
  rfl

/-- The slot with index `n` is the last one with an index below `n + 1`. -/
theorem exists_lt_succ {P : Fin MAX_LIVE_FD_NUM → Prop} (hn : n < MAX_LIVE_FD_NUM) :
    (∃ i : Fin MAX_LIVE_FD_NUM, i < n + 1 ∧ P i) ↔
      (∃ i : Fin MAX_LIVE_FD_NUM, i < n ∧ P i) ∨ P ⟨n, hn⟩ := by
  constructor
  · rintro ⟨i, hi, hP⟩
    rcases Nat.lt_succ_iff_lt_or_eq.mp hi with hlt | heq
    · exact .inl ⟨i, hlt, hP⟩
    · obtain rfl : i = ⟨n, hn⟩ := Fin.ext heq
      exact .inr hP
  · rintro (⟨i, hi, hP⟩ | hP)
    · exact ⟨i, Nat.lt_succ_of_lt hi, hP⟩
    · exact ⟨⟨n, hn⟩, Nat.lt_succ_self n, hP⟩

theorem mem_watched : fd ∈ s.watched ↔ fd = s.serverfd ∨ s.Recorded fd := by
  rw [watched, Finset.mem_insert, Finset.mem_erase, Finset.mem_image, Recorded]
  refine or_congr_right (and_congr_right fun _ => ?_)
  constructor
  · rintro ⟨i, -, hfd⟩
    exact ⟨i, hfd⟩
  · rintro ⟨i, hfd⟩
    exact ⟨i, Finset.mem_univ i, hfd⟩

theorem watch_eq (s : SelectServer) : s.watch = .ok s.watched := by
  have hloop : ∀ n ≤ MAX_LIVE_FD_NUM, ∃ set,
      (List.range n).foldlM (fun client_fdset i => do
        let fd ← s.get i
        .ok (if fd ≠ 0 then insert fd client_fdset else client_fdset)) {s.serverfd} =
          (.ok set : Except Fault (Finset ℕ)) ∧ ∀ fd, fd ∈ set ↔ fd = s.serverfd ∨
            fd ≠ 0 ∧ ∃ i : Fin MAX_LIVE_FD_NUM, i < n ∧ s.client_sockfd i = fd := by
    intro n
    induction n with
    | zero =>
      intro _
      refine ⟨{s.serverfd}, rfl, fun fd => ?_⟩
      simp
    | succ n ih =>
      intro hn
      obtain ⟨set, hset, hmem⟩ := ih (Nat.le_of_succ_le hn)
      rw [range_succ_foldlM, hset]
      refine ⟨_, by
        change (s.get n >>= _) = _
        rw [get_eq_ok hn]
        rfl, fun fd => ?_⟩
      rw [exists_lt_succ hn]
      split_ifs with hne
      · rw [Finset.mem_insert, hmem]
        constructor
        · rintro (rfl | hserver | ⟨hfd, hi⟩)
          · exact .inr ⟨hne, .inr rfl⟩
          · exact .inl hserver
          · exact .inr ⟨hfd, .inl hi⟩
        · rintro (hserver | ⟨hfd, hi | rfl⟩)
          · exact .inr (.inl hserver)
          · exact .inr (.inr ⟨hfd, hi⟩)
          · exact .inl rfl
      · rw [hmem]
        refine or_congr_right (and_congr_right fun hfd => (or_iff_left ?_).symm)
        rintro rfl
        exact hne hfd
  obtain ⟨set, hset, hmem⟩ := hloop MAX_LIVE_FD_NUM le_rfl
  rw [watch, hset]
  congr 1
  ext fd
  rw [hmem, mem_watched, Recorded]
  refine or_congr_right (and_congr_right fun _ => ?_)
  exact exists_congr fun i => and_iff_right i.isLt

/-! ## Closed connections -/

/-- The connections of these descriptors are closed, and their slots are free. -/
def without (s : SelectServer) (C : Finset ℕ) : SelectServer :=
  { s with
    client_sockfd := fun i => if s.client_sockfd i ∈ C then 0 else s.client_sockfd i
    fds := s.fds \ C }

/-- No descriptor is in two slots. -/
def Distinct (s : SelectServer) : Prop :=
  ∀ i j, s.client_sockfd i = s.client_sockfd j → s.client_sockfd i ≠ 0 → i = j

theorem mem_closed : fd ∈ s.closed recv set n ↔
    fd ∈ set ∧ recv fd ≤ 0 ∧ ∃ i : Fin MAX_LIVE_FD_NUM, i < n ∧ s.client_sockfd i = fd :=
  Finset.mem_filter

theorem closed_succ (hn : n < MAX_LIVE_FD_NUM) : s.closed recv set (n + 1) =
    if s.client_sockfd ⟨n, hn⟩ ∈ set ∧ recv (s.client_sockfd ⟨n, hn⟩) ≤ 0 then
      insert (s.client_sockfd ⟨n, hn⟩) (s.closed recv set n) else s.closed recv set n := by
  ext fd
  rw [mem_closed, exists_lt_succ hn]
  split_ifs with hclose
  · rw [Finset.mem_insert, mem_closed]
    constructor
    · rintro ⟨hset, hrecv, hi | rfl⟩
      · exact .inr ⟨hset, hrecv, hi⟩
      · exact .inl rfl
    · rintro (rfl | ⟨hset, hrecv, hi⟩)
      · exact ⟨hclose.1, hclose.2, .inr rfl⟩
      · exact ⟨hset, hrecv, .inl hi⟩
  · rw [mem_closed]
    refine and_congr_right fun hset => and_congr_right fun hrecv => or_iff_left ?_
    rintro rfl
    exact hclose ⟨hset, hrecv⟩

/-- One more connection is closed. -/
theorem without_insert (hdist : s.Distinct) (hn : n < MAX_LIVE_FD_NUM) :
    ((s.without C).close (s.client_sockfd ⟨n, hn⟩)).set n 0 =
      .ok (s.without (insert (s.client_sockfd ⟨n, hn⟩) C)) := by
  rw [SelectServer.set, dif_pos hn]
  congr 1
  have hslots : Function.update (s.without C).client_sockfd ⟨n, hn⟩ 0 =
      (s.without (insert (s.client_sockfd ⟨n, hn⟩) C)).client_sockfd := by
    funext i
    by_cases hi : i = ⟨n, hn⟩
    · subst hi
      rw [Function.update_self]
      exact (if_pos (Finset.mem_insert_self _ _)).symm
    · rw [Function.update_of_ne hi]
      by_cases heq : s.client_sockfd i = s.client_sockfd ⟨n, hn⟩
      · -- Only a free slot has the value of another one.
        have hzero : s.client_sockfd i = 0 := by
          by_contra hne
          exact hi (hdist _ _ heq hne)
        simp only [without, hzero, ite_self]
      · simp only [without, Finset.mem_insert, heq, false_or]
  have hfds : (s.fds \ C).erase (s.client_sockfd ⟨n, hn⟩) =
      s.fds \ insert (s.client_sockfd ⟨n, hn⟩) C := (Finset.sdiff_insert _ _ _).symm
  simp only [close]
  rw [hslots]
  simp only [without, hfds]

theorem recvClient_without (hdist : s.Distinct) (hn : n < MAX_LIVE_FD_NUM) :
    recvClient recv (s.without (s.closed recv set n), set \ s.closed recv set n) n =
      .ok (s.without (s.closed recv set (n + 1)), set \ s.closed recv set (n + 1)) := by
  rw [recvClient, get_eq_ok hn, closed_succ hn]
  change (if (s.without (s.closed recv set n)).client_sockfd ⟨n, hn⟩ ∈ _ ∧ _ then _ else _) = _
  by_cases hmem : s.client_sockfd ⟨n, hn⟩ ∈ s.closed recv set n
  · -- The slot is free, and the 0 in it has already been removed from the set.
    have hzero : s.client_sockfd ⟨n, hn⟩ = 0 := by
      by_contra hne
      obtain ⟨-, -, i, hi, heq⟩ := mem_closed.mp hmem
      exact hi.ne (congrArg Fin.val (hdist i ⟨n, hn⟩ heq (heq ▸ hne)))
    have hslot : (s.without (s.closed recv set n)).client_sockfd ⟨n, hn⟩ = 0 := if_pos hmem
    rw [hslot, if_neg, Finset.insert_eq_of_mem hmem, ite_self]
    rintro ⟨hset, -⟩
    exact (Finset.mem_sdiff.mp hset).2 (hzero ▸ hmem)
  · have hslot : (s.without (s.closed recv set n)).client_sockfd ⟨n, hn⟩ =
        s.client_sockfd ⟨n, hn⟩ := if_neg hmem
    rw [hslot]
    by_cases hclose : s.client_sockfd ⟨n, hn⟩ ∈ set ∧ recv (s.client_sockfd ⟨n, hn⟩) ≤ 0
    · rw [if_pos hclose, if_pos ⟨Finset.mem_sdiff.mpr ⟨hclose.1, hmem⟩, hclose.2⟩]
      dsimp only
      rw [without_insert hdist hn, Finset.sdiff_insert]
      rfl
    · rw [if_neg hclose, if_neg fun h => hclose ⟨(Finset.mem_sdiff.mp h.1).1, h.2⟩]

/-- **The clients whose connections are closed** in a round. -/
theorem recvClients_eq (hdist : s.Distinct) (hle : s.conn_amount ≤ MAX_LIVE_FD_NUM) :
    s.recvClients recv set = .ok (s.without (s.closed recv set s.conn_amount),
      set \ s.closed recv set s.conn_amount) := by
  have hloop : ∀ n ≤ MAX_LIVE_FD_NUM,
      (List.range n).foldlM (recvClient recv) (s, set) =
        .ok (s.without (s.closed recv set n), set \ s.closed recv set n) := by
    intro n
    induction n with
    | zero =>
      intro _
      have hempty : s.closed recv set 0 = ∅ :=
        Finset.filter_eq_empty_iff.mpr fun fd _ ⟨_, i, hi, _⟩ => absurd hi (Nat.not_lt_zero _)
      rw [hempty, Finset.sdiff_empty]
      simp only [without, Finset.notMem_empty, if_false, Finset.sdiff_empty]
      rfl
    | succ n ih =>
      intro hn
      rw [range_succ_foldlM, ih (Nat.le_of_succ_le hn)]
      exact recvClient_without hdist hn
  exact hloop s.conn_amount hle

end Loops

/-! ## Every run -/

section Runs

variable {s s' t : SelectServer} {fd : ℕ} {readable C : Finset ℕ} {recv : ℕ → ℤ}
  {accept : Option ℤ} {ret : ℤ} {e : Event}

/-- The slots that have been used hold open descriptors, none of them twice. -/
structure Inv (s : SelectServer) : Prop where
  conn_amount_le : s.conn_amount ≤ MAX_LIVE_FD_NUM
  free : ∀ i : Fin MAX_LIVE_FD_NUM, s.conn_amount ≤ i → s.client_sockfd i = 0
  distinct : s.Distinct
  isOpen : ∀ fd, s.Recorded fd → fd ∈ s.fds
  recorded : ∀ fd ∈ s.returned, fd ∈ s.fds → s.Recorded fd
  le_maxfd : ∀ fd, s.Recorded fd → fd ≤ s.maxfd
  serverfd_le : s.serverfd ≤ s.maxfd
  zero : s.serverfd ∈ s.fds → 0 ∈ s.fds

theorem Inv.init (inherited : Finset ℕ) : (init inherited).Inv where
  conn_amount_le := Nat.zero_le _
  free _ _ := rfl
  distinct _ _ _ hne := absurd rfl hne
  isOpen fd h := by
    obtain ⟨hne, i, hi⟩ := h
    exact absurd hi.symm hne
  recorded _ h := by cases h
  le_maxfd fd h := by
    obtain ⟨hne, i, hi⟩ := h
    exact absurd hi.symm hne
  serverfd_le := le_rfl
  zero _ := by
    -- The smallest descriptor that was not open is 0, or 0 was open.
    rcases Nat.eq_zero_or_pos (lowest inherited) with hzero | hpos
    · exact Finset.mem_insert.mpr (.inl hzero.symm)
    · exact Finset.mem_insert_of_mem ((lowest_spec inherited).2 0 hpos)

theorem Inv.accounted (h : s.Inv) : s.Accounted where
  recorded fd hfd := by
    by_cases hopen : fd ∈ s.fds
    · exact .inl (h.recorded fd hfd hopen)
    · exact .inr hopen
  le_maxfd fd hfd _ := h.le_maxfd fd hfd

theorem recorded_without : (s.without C).Recorded fd ↔ s.Recorded fd ∧ fd ∉ C := by
  constructor
  · rintro ⟨hne, i, hi⟩
    change (if s.client_sockfd i ∈ C then 0 else s.client_sockfd i) = fd at hi
    split_ifs at hi with hmem
    · exact absurd hi.symm hne
    · exact ⟨⟨hne, i, hi⟩, hi ▸ hmem⟩
  · rintro ⟨⟨hne, i, rfl⟩, hmem⟩
    exact ⟨hne, i, if_neg hmem⟩

/-- Descriptors are closed; if 0 is one of them it is the server's. -/
theorem Inv.without (h : s.Inv) (hC : 0 ∈ C → s.serverfd ∈ C) : (s.without C).Inv where
  conn_amount_le := h.conn_amount_le
  free i hi := by
    simp only [SelectServer.without, h.free i hi, ite_self]
  distinct i j heq hne := by
    have hslot : ∀ k, (s.without C).client_sockfd k ≠ 0 →
        (s.without C).client_sockfd k = s.client_sockfd k := by
      intro k hk
      by_cases hmem : s.client_sockfd k ∈ C
      · exact absurd (if_pos hmem) hk
      · exact if_neg hmem
    have hi := hslot i hne
    have hj := hslot j (heq ▸ hne)
    exact h.distinct i j (by rw [← hi, ← hj, heq]) (hi ▸ hne)
  isOpen fd hfd := by
    obtain ⟨hrec, hmem⟩ := recorded_without.mp hfd
    exact Finset.mem_sdiff.mpr ⟨h.isOpen fd hrec, hmem⟩
  recorded fd hfd hopen := by
    obtain ⟨hold, hmem⟩ := Finset.mem_sdiff.mp hopen
    exact recorded_without.mpr ⟨h.recorded fd hfd hold, hmem⟩
  le_maxfd fd hfd := h.le_maxfd fd (recorded_without.mp hfd).1
  serverfd_le := h.serverfd_le
  zero hserver := by
    obtain ⟨hopen, hmem⟩ := Finset.mem_sdiff.mp hserver
    exact Finset.mem_sdiff.mpr ⟨h.zero hopen, fun hzero => hmem (hC hzero)⟩

/-- The slots do not hold 0, so only the server's descriptor can be 0. -/
theorem serverfd_mem_closing (h : 0 ∈ s.closing readable recv) :
    s.serverfd ∈ s.closing readable recv := by
  have hmem := (Finset.mem_filter.mp (mem_closed.mp h).1).1
  rcases mem_watched.mp hmem with hzero | ⟨hne, -⟩
  · rw [← hzero]
    exact h
  · exact absurd rfl hne

theorem without_empty (s : SelectServer) : s.without ∅ = s := by
  simp only [without, Finset.notMem_empty, if_false, Finset.sdiff_empty]

/-- A round in which `select` does not fail. It fails when the server's descriptor is closed. -/
theorem Inv.round_select (h : s.Inv) : s.round (.select readable recv accept) =
    if s.serverfd ∈ s.fds then
      if s.serverfd ∈ readable ∧ s.serverfd ∉ s.closing readable recv then
        (s.without (s.closing readable recv)).acceptClient accept
      else .ok (s.without (s.closing readable recv))
    else .error .outOfBounds := by
  have hwatched : s.watched ⊆ s.fds ↔ s.serverfd ∈ s.fds := by
    constructor
    · intro hsub
      exact hsub (mem_watched.mpr (.inl rfl))
    · intro hserver fd hfd
      rcases mem_watched.mp hfd with rfl | hrec
      · exact hserver
      · exact h.isOpen fd hrec
  have hreported : s.serverfd ∈ s.reported readable ↔ s.serverfd ∈ readable := by
    rw [reported, Finset.mem_filter, and_iff_right (mem_watched.mpr (.inl rfl)),
      and_iff_right h.serverfd_le]
  have hfilter : (s.watched.filter fun fd => fd ≤ s.maxfd ∧ fd ∈ readable) =
      s.reported readable := rfl
  rw [round, watch_eq]
  simp only [Bind.bind, Except.bind, hfilter]
  by_cases hserver : s.serverfd ∈ s.fds
  · rw [if_pos hserver, if_pos (hwatched.mpr hserver)]
    by_cases hempty : s.reported readable = ∅
    · have hnone : s.closing readable recv = ∅ := by
        rw [closing, hempty]
        rfl
      have hnot : s.serverfd ∉ readable := by
        rw [← hreported, hempty]
        exact Finset.notMem_empty _
      rw [if_pos hempty, if_neg fun hnew => hnot hnew.1, hnone, without_empty]
    · have hrecv : s.recvClients recv (s.reported readable) =
          .ok (s.without (s.closing readable recv),
            s.reported readable \ s.closing readable recv) := by
        rw [closing]
        exact recvClients_eq h.distinct h.conn_amount_le
      rw [if_neg hempty, hrecv]
      generalize s.closing readable recv = C
      generalize s.reported readable = set at hreported
      dsimp only [Bind.bind, Except.bind]
      by_cases hnew : s.serverfd ∈ readable ∧ s.serverfd ∉ C
      · rw [if_pos hnew]
        exact if_pos (Finset.mem_sdiff.mpr ⟨hreported.mpr hnew.1, hnew.2⟩)
      · rw [if_neg hnew]
        refine if_neg fun hmem => hnew ?_
        exact ⟨hreported.mp (Finset.mem_sdiff.mp hmem).1, (Finset.mem_sdiff.mp hmem).2⟩
  · rw [if_neg hserver, if_neg (fun hsub => hserver (hwatched.mp hsub)), finish_eq_error]

/-- A new connection is in the next slot. -/
def connected (s : SelectServer) (h : s.conn_amount < MAX_LIVE_FD_NUM) : SelectServer :=
  { s with
    client_sockfd := Function.update s.client_sockfd ⟨s.conn_amount, h⟩ (lowest s.fds)
    conn_amount := s.conn_amount + 1
    fds := insert (lowest s.fds) s.fds
    returned := s.returned ++ [lowest s.fds] }

theorem acceptClient_of_lt (h : s.conn_amount < MAX_LIVE_FD_NUM) :
    s.acceptClient (some ret) =
      if ret < 0 then .ok ((s.connected h).close s.serverfd).exit
      else if s.maxfd < lowest s.fds then .ok { s.connected h with maxfd := lowest s.fds }
      else .error .outOfBounds := by
  have hset : SelectServer.set
      { s with fds := insert (lowest s.fds) s.fds, returned := s.returned ++ [lowest s.fds] }
      s.conn_amount (lowest s.fds) = .ok { s.connected h with conn_amount := s.conn_amount } :=
    dif_pos h
  rw [acceptClient]
  dsimp only
  rw [if_pos h, hset, ← finish_eq_error (s.connected h)]
  rfl

/-- The slots are used up. -/
theorem acceptClient_of_le (h : MAX_LIVE_FD_NUM ≤ s.conn_amount) :
    s.acceptClient (some ret) = .ok { s with
      fds := insert (lowest s.fds) s.fds
      returned := s.returned ++ [lowest s.fds] } :=
  if_neg (not_lt.mpr h)

theorem Inv.lowest_ne_zero (h : s.Inv) (hserver : s.serverfd ∈ s.fds) : lowest s.fds ≠ 0 := by
  intro hzero
  exact lowest_notMem s.fds (hzero ▸ h.zero hserver)

theorem Inv.recorded_connected (h : s.Inv) (hserver : s.serverfd ∈ s.fds)
    (hlt : s.conn_amount < MAX_LIVE_FD_NUM) :
    (s.connected hlt).Recorded fd ↔ fd = lowest s.fds ∨ s.Recorded fd := by
  constructor
  · rintro ⟨hne, i, hi⟩
    by_cases heq : i = ⟨s.conn_amount, hlt⟩
    · subst heq
      exact .inl (hi.symm.trans (Function.update_self ..))
    · exact .inr ⟨hne, i, (Function.update_of_ne heq ..).symm.trans hi⟩
  · rintro (rfl | ⟨hne, i, hi⟩)
    · exact ⟨h.lowest_ne_zero hserver, ⟨s.conn_amount, hlt⟩, Function.update_self ..⟩
    · have heq : i ≠ ⟨s.conn_amount, hlt⟩ := by
        rintro rfl
        exact hne (hi.symm.trans (h.free _ le_rfl))
      exact ⟨hne, i, (Function.update_of_ne heq ..).trans hi⟩

/-- A new connection with the largest descriptor. -/
theorem Inv.connected (h : s.Inv) (hserver : s.serverfd ∈ s.fds)
    (hlt : s.conn_amount < MAX_LIVE_FD_NUM) (hmax : s.maxfd < lowest s.fds) :
    Inv { s.connected hlt with maxfd := lowest s.fds } where
  conn_amount_le := hlt
  free i hi := by
    have hne : i ≠ ⟨s.conn_amount, hlt⟩ := by
      rintro rfl
      exact absurd hi (Nat.not_succ_le_self _)
    exact (Function.update_of_ne hne ..).trans (h.free i (Nat.le_of_succ_le hi))
  distinct i j heq hne := by
    -- The new descriptor was not open, and those in the other slots are.
    have hother : ∀ k, k ≠ ⟨s.conn_amount, hlt⟩ →
        Function.update s.client_sockfd ⟨s.conn_amount, hlt⟩ (lowest s.fds) k = lowest s.fds →
          False := by
      intro k hk hslot
      rw [Function.update_of_ne hk] at hslot
      exact lowest_notMem s.fds
        (h.isOpen _ ⟨h.lowest_ne_zero hserver, k, hslot⟩)
    simp only [SelectServer.connected] at heq hne
    by_cases hi : i = ⟨s.conn_amount, hlt⟩
    · by_cases hj : j = ⟨s.conn_amount, hlt⟩
      · rw [hi, hj]
      · subst hi
        rw [Function.update_self] at heq
        exact (hother j hj heq.symm).elim
    · by_cases hj : j = ⟨s.conn_amount, hlt⟩
      · subst hj
        rw [Function.update_self] at heq
        exact (hother i hi heq).elim
      · rw [Function.update_of_ne hi, Function.update_of_ne hj] at heq
        rw [Function.update_of_ne hi] at hne
        exact h.distinct i j heq hne
  isOpen fd hfd := by
    rcases (h.recorded_connected hserver hlt).mp hfd with rfl | hrec
    · exact Finset.mem_insert_self _ _
    · exact Finset.mem_insert_of_mem (h.isOpen fd hrec)
  recorded fd hfd hopen := by
    apply (h.recorded_connected hserver hlt).mpr
    rcases Finset.mem_insert.mp hopen with heq | hold
    · exact .inl heq
    · rcases List.mem_append.mp hfd with hreturned | hnew
      · exact .inr (h.recorded fd hreturned hold)
      · exact .inl (List.mem_singleton.mp hnew)
  le_maxfd fd hfd := by
    rcases (h.recorded_connected hserver hlt).mp hfd with rfl | hrec
    · exact le_rfl
    · exact (h.le_maxfd fd hrec).trans hmax.le
  serverfd_le := h.serverfd_le.trans hmax.le
  zero _ := Finset.mem_insert_of_mem (h.zero hserver)

/-- What a round returned, it has recorded. -/
theorem Inv.keeps_connected (h : s.Inv) (hserver : s.serverfd ∈ s.fds)
    (hlt : s.conn_amount < MAX_LIVE_FD_NUM) (hs' : s'.Accounted)
    (hslots : s'.client_sockfd = (s.connected hlt).client_sockfd)
    (hreturned : s'.returned = s.returned ++ [lowest s.fds]) : Keeps s e s' where
  accounted := hs'
  connects fd hfd _ := by
    rw [hreturned] at hfd
    obtain rfl := List.singleton_inj.mp (List.append_cancel_left hfd)
    have hrec := (h.recorded_connected hserver hlt).mpr (.inl rfl)
    rwa [Recorded, hslots]

theorem accounted_exit (s : SelectServer) : s.exit.Accounted where
  recorded _ _ := .inr (Finset.notMem_empty _)
  le_maxfd _ _ h := absurd h (Finset.notMem_empty _)

theorem keeps_of_returned_eq (hs' : s'.Accounted) (h : s'.returned = s.returned) :
    Keeps s e s' where
  accounted := hs'
  connects fd hfd _ := by
    rw [h] at hfd
    exact absurd (List.self_eq_append_right.mp hfd) (List.cons_ne_nil fd [])

/-- **A new connection** is accounted for exactly if there is a slot for it, and the server returns
at once or the descriptor is the largest. -/
theorem Inv.exists_accept_iff (h : s.Inv) (hserver : s.serverfd ∈ s.fds) :
    (∃ s', s.acceptClient accept = .ok s' ∧ Keeps s e s') ↔
      ∀ ret ∈ accept, s.conn_amount < MAX_LIVE_FD_NUM ∧
        (ret < 0 ∨ ∀ fd ≤ s.maxfd, fd ∈ s.fds) := by
  cases accept with
  | none =>
    refine iff_of_true ⟨s, rfl, keeps_of_returned_eq h.accounted rfl⟩ ?_
    rintro ret ⟨⟩
  | some ret =>
    simp only [Option.mem_some_iff, forall_eq']
    rw [← lt_lowest_iff]
    by_cases hlt : s.conn_amount < MAX_LIVE_FD_NUM
    · rw [acceptClient_of_lt hlt, and_iff_right hlt]
      by_cases hret : ret < 0
      · rw [if_pos hret]
        exact iff_of_true
          ⟨_, rfl, h.keeps_connected hserver hlt (accounted_exit _) rfl rfl⟩ (.inl hret)
      · rw [if_neg hret, or_iff_right hret]
        by_cases hmax : s.maxfd < lowest s.fds
        · rw [if_pos hmax]
          exact iff_of_true ⟨_, rfl, h.keeps_connected hserver hlt
            (h.connected hserver hlt hmax).accounted rfl rfl⟩ hmax
        · rw [if_neg hmax]
          refine iff_of_false ?_ hmax
          rintro ⟨s', hs', -⟩
          cases hs'
    · -- What is accepted is open, and in no slot.
      rw [acceptClient_of_le (not_lt.mp hlt)]
      refine iff_of_false ?_ (fun hc => hlt hc.1)
      rintro ⟨s', hs', hkeeps⟩
      cases hs'
      rcases hkeeps.accounted.recorded (lowest s.fds)
        (List.mem_append_right _ (List.mem_singleton_self _)) with hrec | hclosed
      · exact lowest_notMem s.fds (h.isOpen _ hrec)
      · exact hclosed (Finset.mem_insert_self _ _)

theorem Inv.inv_acceptClient (h : s.Inv) (hserver : s.serverfd ∈ s.fds)
    (hs : s.acceptClient accept = .ok s') (hkeeps : Keeps s e s') (hrun : s'.running = true) :
    s'.Inv := by
  have hc := (h.exists_accept_iff hserver).mp ⟨s', hs, hkeeps⟩
  cases accept with
  | none =>
    cases hs
    exact h
  | some ret =>
    obtain ⟨hlt, -⟩ := hc ret rfl
    rw [acceptClient_of_lt hlt] at hs
    split_ifs at hs with hret hmax
    · cases hs
      cases hrun
    · cases hs
      exact h.connected hserver hlt hmax

/-- What holds of the states that the rounds lead to. -/
structure Sound (s : SelectServer) : Prop where
  accounted : s.Accounted
  inv : s.running = true → s.Inv

theorem Sound.init (inherited : Finset ℕ) : (init inherited).Sound :=
  ⟨(Inv.init inherited).accounted, fun _ => Inv.init inherited⟩

theorem serverfd_mem_without (hserver : s.serverfd ∈ s.fds) (hnew : s.serverfd ∉ C) :
    (s.without C).serverfd ∈ (s.without C).fds :=
  Finset.mem_sdiff.mpr ⟨hserver, hnew⟩

/-- **A round** keeps the accounts exactly if it meets the condition. -/
theorem Sound.exists_step_iff (h : s.Sound) :
    (∃ s', s.step e = .ok s' ∧ Keeps s e s') ↔ s.Serves e := by
  rw [step]
  by_cases hrun : s.running = true
  · have hinv := h.inv hrun
    rw [if_pos hrun]
    cases e with
    | error =>
      rw [round, finish_eq_error]
      refine iff_of_false ?_ fun hend => absurd (hrun.symm.trans hend) (by decide)
      rintro ⟨s', hs', -⟩
      cases hs'
    | select readable recv accept =>
      have hwithout := hinv.without (C := s.closing readable recv) serverfd_mem_closing
      rw [hinv.round_select, Serves, imp_iff_right hrun]
      generalize s.closing readable recv = C at hwithout
      by_cases hserver : s.serverfd ∈ s.fds
      · rw [if_pos hserver, and_iff_right hserver]
        by_cases hnew : s.serverfd ∈ readable ∧ s.serverfd ∉ C
        · have hiff : (∃ s', (s.without C).acceptClient accept = .ok s' ∧
              Keeps (s.without C) (.select readable recv accept) s') ↔ _ :=
            hwithout.exists_accept_iff (serverfd_mem_without hserver hnew.2)
          rw [if_pos hnew]
          constructor
          · rintro ⟨s', hs', hkeeps⟩ ret hret - -
            have hc := hiff.mp ⟨s', hs', hkeeps.accounted, hkeeps.connects⟩ ret hret
            refine ⟨hc.1, hc.2.imp_right fun hopen fd hfd => ?_⟩
            exact Finset.mem_sdiff.mp (hopen fd hfd)
          · intro hc
            obtain ⟨s', hs', hkeeps⟩ := hiff.mpr fun ret hret => by
              obtain ⟨hlt, hlarge⟩ := hc ret hret hnew.1 hnew.2
              exact ⟨hlt, hlarge.imp_right fun hopen fd hfd =>
                Finset.mem_sdiff.mpr (hopen fd hfd)⟩
            exact ⟨s', hs', hkeeps.accounted, hkeeps.connects⟩
        · rw [if_neg hnew]
          refine iff_of_true ⟨_, rfl, keeps_of_returned_eq hwithout.accounted rfl⟩ ?_
          intro ret _ hread hnot
          exact absurd ⟨hread, hnot⟩ hnew
      · rw [if_neg hserver]
        refine iff_of_false ?_ fun hc => hserver hc.1
        rintro ⟨s', hs', -⟩
        cases hs'
  · -- Nothing happens any more.
    rw [if_neg hrun]
    refine iff_of_true ⟨s, rfl, keeps_of_returned_eq h.accounted rfl⟩ ?_
    cases e with
    | error => exact Bool.eq_false_of_not_eq_true hrun
    | select => exact fun hrun' => absurd hrun' hrun

theorem Sound.step (h : s.Sound) (hs : s.step e = .ok s') (hc : s.Serves e) : s'.Sound := by
  obtain ⟨t, ht, hkeeps⟩ := h.exists_step_iff.mpr hc
  obtain rfl := Except.ok.inj (hs.symm.trans ht)
  refine ⟨hkeeps.accounted, fun hrun' => ?_⟩
  rw [SelectServer.step] at hs
  by_cases hrun : s.running = true
  · have hinv := h.inv hrun
    rw [if_pos hrun] at hs
    cases e with
    | error => exact absurd (hrun.symm.trans hc) (by decide)
    | select readable recv accept =>
      have hwithout := hinv.without (C := s.closing readable recv) serverfd_mem_closing
      rw [hinv.round_select] at hs
      generalize s.closing readable recv = C at hwithout hs
      split_ifs at hs with hserver hnew
      · exact hwithout.inv_acceptClient (e := .select readable recv accept)
          (serverfd_mem_without hserver hnew.2) hs ⟨hkeeps.accounted, hkeeps.connects⟩ hrun'
      · cases hs
        exact hwithout
  · rw [if_neg hrun] at hs
    cases hs
    exact absurd hrun' hrun

/-- **The server accounts for its connections** in a run exactly if each round meets the
condition. -/
theorem accounts_iff (inherited : Finset ℕ) (es : List Event) :
    Accounts (SelectServer.init inherited) es ↔
      machine.Meets Serves (SelectServer.init inherited) es :=
  Machine.run_and_each_iff_meets (fun _ _ => trivial) (fun _ _ _ h hs hc => h.step hs hc)
    (fun _ _ h => h.exists_step_iff) (Sound.init inherited) es

instance (s : SelectServer) (e : Event) : Decidable (machine.enabled s e) :=
  inferInstanceAs (Decidable True)

/-- Two clients connect, the first one closes, and the third one gets its descriptor. -/
def reusing : List Event :=
  [.select {3} (fun _ => 1) (some 5), .select {3} (fun _ => 1) (some 5),
    .select {4} (fun _ => 0) none, .select {3} (fun _ => 1) (some 5)]

/-- The server leaves its slots although only one client is connected. -/
theorem not_accounts_reusing : ¬Accounts (SelectServer.init {0, 1, 2}) reusing := by
  rintro ⟨⟨s', hr⟩, -⟩
  have hnone : (machine.exec (SelectServer.init {0, 1, 2}) reusing).isNone := by decide +kernel
  rw [Machine.exec_of_run hr] at hnone
  cases hnone

end Runs

end SelectServer

end CodingDemo.Select
