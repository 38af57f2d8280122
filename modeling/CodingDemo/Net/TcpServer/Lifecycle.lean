import CodingDemo.Net.TcpServer.Model
import Mathlib.Data.List.Count

/-!
# The lifecycle of a server's connections

No assertion of the server fails, whatever the order in which the loops run their functors and
callbacks.

A call that one function leaves to another is due: its functor is queued at the loop that runs it,
or it is the call that is about to be made. The invariant counts, for each connection, the calls
that have been made and those that are due.

## Main definitions

* `due`: the calls that are due
* `Tracked`: the calls for one connection and its state
* `Consistent`: the invariant

## Main results

* `Consistent.call`, `Consistent.runInLoop`: a call that is due does not fail
* `lifecycle`: what holds in every run
-/

namespace CodingDemo.Libcpp.TcpServer

variable {q q' : TcpServer} {i c : ℕ} {cb cb' : ServerFunctor} {hand : Option ServerFunctor}
  {conn : ServerConn} {loop : ServerLoop} {e : Event}

@[simp] theorem conn_setConn_self : (q.setConn c conn).conn c = conn := Function.update_self ..

theorem conn_setConn_of_ne {c' : ℕ} (h : c' ≠ c) : (q.setConn c conn).conn c' = q.conn c' :=
  Function.update_of_ne h ..

@[simp] theorem loops_setLoop_self : (q.setLoop i loop).loops i = loop := Function.update_self ..

theorem loops_setLoop_of_ne {j : ℕ} (h : j ≠ i) : (q.setLoop i loop).loops j = q.loops j :=
  Function.update_of_ne h ..

@[simp] theorem assertInLoopThread_self (i : ℕ) : assertInLoopThread i i = .ok () := if_pos rfl

/-! ## The calls that are due -/

/-- The loop that runs a functor. -/
def loopOf (q : TcpServer) : ServerFunctor → ℕ
  | .connectEstablished c | .connectDestroyed c => (q.conn c).loop
  | .removeConnectionInLoop _ => 0

/-- How often a functor is still to be called: by its loop, and as the call that is about to be
made. -/
def due (q : TcpServer) (hand : Option ServerFunctor) (cb : ServerFunctor) : ℕ :=
  (q.loops (q.loopOf cb)).queue.todo.count cb + if hand = some cb then 1 else 0

theorem due_some (q : TcpServer) (cb cb' : ServerFunctor) :
    q.due (some cb) cb' = q.due none cb' + if cb = cb' then 1 else 0 := by
  simp [due]

theorem due_self (q : TcpServer) (cb : ServerFunctor) : q.due (some cb) cb = q.due none cb + 1 := by
  rw [due_some, if_pos rfl]

theorem due_of_ne (h : cb ≠ cb') : q.due (some cb) cb' = q.due none cb' := by
  rw [due_some, if_neg h, Nat.add_zero]

theorem loopOf_setConn (h : conn.loop = (q.conn c).loop) :
    (q.setConn c conn).loopOf = q.loopOf := by
  have hloop : ∀ c', ((q.setConn c conn).conn c').loop = (q.conn c').loop := by
    intro c'
    by_cases hc : c' = c
    · rw [hc, conn_setConn_self, h]
    · rw [conn_setConn_of_ne hc]
  ext cb
  cases cb with
  | connectEstablished c' => exact hloop c'
  | removeConnectionInLoop c' => rfl
  | connectDestroyed c' => exact hloop c'

theorem due_setConn (h : conn.loop = (q.conn c).loop) : (q.setConn c conn).due = q.due := by
  ext hand cb
  rw [due, due, loopOf_setConn h]
  rfl

/-- The functors of a loop may be moved. -/
theorem due_setLoop (h : loop.queue.todo = (q.loops i).queue.todo) :
    (q.setLoop i loop).due hand = q.due hand := by
  ext cb
  have hloop : ((q.setLoop i loop).loops (q.loopOf cb)).queue.todo =
      (q.loops (q.loopOf cb)).queue.todo := by
    by_cases hi : q.loopOf cb = i
    · rw [hi, loops_setLoop_self, h]
    · rw [loops_setLoop_of_ne hi]
  show ((q.setLoop i loop).loops (q.loopOf cb)).queue.todo.count cb + _ = _
  rw [hloop]
  rfl

/-- A functor that is queued is due. -/
theorem due_queueInLoop (q : TcpServer) (cb : ServerFunctor) :
    (q.queueInLoop (q.loopOf cb) cb).due none = q.due (some cb) := by
  ext cb'
  rw [due_some]
  show ((q.setLoop (q.loopOf cb) _).loops (q.loopOf cb')).queue.todo.count cb' + 0 = _ + 0 + _
  by_cases hi : q.loopOf cb' = q.loopOf cb
  · rw [hi, loops_setLoop_self]
    simp [List.count_append, List.count_cons]
  · have hcb : cb ≠ cb' := fun h => hi (h ▸ rfl)
    rw [loops_setLoop_of_ne hi, if_neg hcb]

/-- A functor that is taken from the queue is the one that is about to be called. -/
theorem due_pop {rest : List ServerFunctor}
    (h : (q.loops (q.loopOf cb)).queue.functors = cb :: rest)
    (hloop : loop.queue = (q.loops (q.loopOf cb)).queue.pop) :
    (q.setLoop (q.loopOf cb) loop).due (some cb) = q.due none := by
  have htodo := FunctorQueue.todo_pop h
  ext cb'
  rw [due_some]
  show ((q.setLoop (q.loopOf cb) _).loops (q.loopOf cb')).queue.todo.count cb' + 0 + _ = _ + 0
  by_cases hi : q.loopOf cb' = q.loopOf cb
  · rw [hi, loops_setLoop_self, hloop, htodo, List.count_cons]
    simp
  · have hcb : cb ≠ cb' := fun h => hi (h ▸ rfl)
    rw [loops_setLoop_of_ne hi, if_neg hcb]

/-! ## The invariant -/

/-- The calls that have been made for connection `c`, those that are due, and what its state and its
channel say about them. -/
structure Tracked (conn : ServerConn) (c : ℕ) (due : ServerFunctor → ℕ) : Prop where
  established : conn.established + due (.connectEstablished c) = 1
  closed : conn.closed = conn.removed + due (.removeConnectionInLoop c)
  removed : conn.removed = conn.destroyed + due (.connectDestroyed c)
  closed_le : conn.closed ≤ conn.established
  connecting : conn.established = 0 → conn.state = .kConnecting
  connected : conn.established = 1 → conn.destroyed = 0 →
    conn.state = .kConnected ∨ conn.state = .kDisconnecting
  reading : conn.channel.isReading → conn.established = 1 ∧ conn.closed = 0
  shutting : 0 < conn.shutting → conn.established = 1

theorem Tracked.of_due {due due' : ServerFunctor → ℕ} (h : Tracked conn c due)
    (hdue : ∀ cb, cb.conn = c → due' cb = due cb) : Tracked conn c due' :=
  { h with
    established := (hdue (.connectEstablished c) rfl).symm ▸ h.established
    closed := (hdue (.removeConnectionInLoop c) rfl).symm ▸ h.closed
    removed := (hdue (.connectDestroyed c) rfl).symm ▸ h.removed }

/-- A connection that is to be established. -/
theorem tracked_new {due : ServerFunctor → ℕ} {name : List UInt8} {ioLoop : ℕ}
    (hestablish : due (.connectEstablished c) = 1) (hremove : due (.removeConnectionInLoop c) = 0)
    (hdestroy : due (.connectDestroyed c) = 0) :
    Tracked { name := name, loop := ioLoop } c due where
  established := by rw [hestablish]
  closed := by rw [hremove]
  removed := by rw [hdestroy]
  closed_le := Nat.le_refl _
  connecting _ := rfl
  connected h := absurd h Nat.zero_ne_one
  reading hreading := by
    have hempty : ({} : Channel).isReading = false := by decide
    exact absurd (hempty.symm.trans hreading) Bool.false_ne_true
  shutting h := absurd h (Nat.lt_irrefl _)

/-- The functors and the callbacks of a loop are those of connections of the loop. -/
structure Placed (q : TcpServer) : Prop where
  functor : ∀ {i cb}, cb ∈ (q.loops i).queue.todo → cb.conn < q.accepted ∧ q.loopOf cb = i
  callback : ∀ {i p}, p ∈ (q.loops i).active → p.1 < q.accepted ∧ (q.conn p.1).loop = i
  nodup : ∀ i, (q.loops i).active.Nodup
  handling : ∀ {i}, (q.loops i).handling → (q.loops i).queue.functors = []

/-- `connections_` has the connections that have not been removed, under their names. -/
structure Registered (q : TcpServer) : Prop where
  nextConnId : q.nextConnId = q.accepted + 1
  name : ∀ {c}, c < q.accepted → (q.conn c).name = connName q.name (c + 1)
  loop_le : ∀ {c}, c < q.accepted → (q.conn c).loop ≤ q.numLoops
  next_lt : q.numLoops ≠ 0 → q.next < q.numLoops
  connections : ∀ {name c}, q.connections name = some c ↔
    c < q.accepted ∧ (q.conn c).name = name ∧ (q.conn c).removed = 0

/-- All connections are tracked, with the call that is about to be made. -/
structure Counted (q : TcpServer) (hand : Option ServerFunctor) : Prop where
  placed : q.Placed
  tracked : ∀ {c}, c < q.accepted → Tracked (q.conn c) c (q.due hand)
  hand : ∀ cb ∈ hand, cb.conn < q.accepted
  reading : ∀ {i c}, (c, .readCallback) ∈ (q.loops i).active → (q.conn c).channel.isReading

/-- The invariant. -/
structure Consistent (q : TcpServer) (hand : Option ServerFunctor) : Prop
    extends Counted q hand where
  registered : q.Registered

theorem consistent_init (name : List UInt8) (numLoops : ℕ) :
    Consistent { name := name, numLoops := numLoops } none where
  placed := {
    functor := fun h => absurd h List.not_mem_nil
    callback := fun h => absurd h List.not_mem_nil
    nodup := fun _ => List.nodup_nil
    handling := fun _ => rfl }
  registered := {
    nextConnId := rfl
    name := fun h => absurd h (Nat.not_lt_zero _)
    loop_le := fun h => absurd h (Nat.not_lt_zero _)
    next_lt := Nat.pos_of_ne_zero
    connections := by simp }
  tracked h := absurd h (Nat.not_lt_zero _)
  hand cb h := absurd h (Option.not_mem_none cb)
  reading h := absurd h List.not_mem_nil

theorem connName_inj {name : List UInt8} {id id' : ℕ} (h : connName name id = connName name id') :
    id = id' := by
  have hid := List.append_cancel_left h
  rw [List.cons.injEq] at hid
  rw [← decimalValue_decimal id, hid.2, decimalValue_decimal]

/-! ## Changes of one connection or one loop -/

theorem Registered.setConn (h : q.Registered) (hname : conn.name = (q.conn c).name)
    (hloop : conn.loop = (q.conn c).loop) (hremoved : conn.removed = (q.conn c).removed) :
    (q.setConn c conn).Registered := by
  have hsame : ∀ c', ((q.setConn c conn).conn c').name = (q.conn c').name ∧
      ((q.setConn c conn).conn c').loop = (q.conn c').loop ∧
        ((q.setConn c conn).conn c').removed = (q.conn c').removed := by
    intro c'
    by_cases hc : c' = c
    · rw [hc, conn_setConn_self]
      exact ⟨hname, hloop, hremoved⟩
    · rw [conn_setConn_of_ne hc]
      exact ⟨rfl, rfl, rfl⟩
  constructor
  case nextConnId => exact h.nextConnId
  case name =>
    intro c' hc'
    rw [(hsame c').1]
    exact h.name hc'
  case loop_le =>
    intro c' hc'
    rw [(hsame c').2.1]
    exact h.loop_le hc'
  case next_lt => exact h.next_lt
  case connections =>
    intro name c'
    rw [(hsame c').1, (hsame c').2.2]
    exact h.connections

theorem Placed.setConn (h : q.Placed) (hloop : conn.loop = (q.conn c).loop) :
    (q.setConn c conn).Placed := by
  constructor
  case functor =>
    intro i cb hcb
    rw [loopOf_setConn hloop]
    exact h.functor hcb
  case callback =>
    intro i p hp
    refine ⟨(h.callback hp).1, ?_⟩
    by_cases hc : p.1 = c
    · rw [hc, conn_setConn_self, hloop, ← hc]
      exact (h.callback hp).2
    · rw [conn_setConn_of_ne hc]
      exact (h.callback hp).2
  case nodup => exact h.nodup
  case handling => exact h.handling

/-- A connection changes, and the calls that are due for it. -/
theorem Counted.setConn (h : Counted q hand) {hand' : Option ServerFunctor}
    (hloop : conn.loop = (q.conn c).loop) (hhand : ∀ cb ∈ hand', cb.conn < q.accepted)
    (hother : ∀ cb, cb.conn ≠ c → q.due hand' cb = q.due hand cb)
    (htracked : c < q.accepted → Tracked conn c (q.due hand'))
    (hreading : ∀ i, (c, .readCallback) ∈ (q.loops i).active → conn.channel.isReading) :
    Counted (q.setConn c conn) hand' := by
  constructor
  case placed => exact h.placed.setConn hloop
  case tracked =>
    intro c' hc'
    rw [due_setConn hloop]
    by_cases hc : c' = c
    · rw [hc] at hc' ⊢
      rw [conn_setConn_self]
      exact htracked hc'
    · rw [conn_setConn_of_ne hc]
      exact (h.tracked hc').of_due fun cb hcb => hother cb (hcb ▸ hc)
  case hand => exact hhand
  case reading =>
    intro i c' hc'
    by_cases hc : c' = c
    · rw [hc] at hc' ⊢
      rw [conn_setConn_self]
      exact hreading i hc'
    · rw [conn_setConn_of_ne hc]
      exact h.reading hc'

/-- The other members of a connection may change as well. -/
theorem Consistent.setConn (h : Consistent q hand) (hname : conn.name = (q.conn c).name)
    (hloop : conn.loop = (q.conn c).loop) (hremoved : conn.removed = (q.conn c).removed)
    (htracked : c < q.accepted → Tracked conn c (q.due hand))
    (hreading : ∀ i, (c, .readCallback) ∈ (q.loops i).active → conn.channel.isReading) :
    Consistent (q.setConn c conn) hand where
  toCounted := h.toCounted.setConn hloop h.hand (fun _ _ => rfl) htracked hreading
  registered := h.registered.setConn hname hloop hremoved

/-- A loop changes, and the calls that are due stay the same. -/
theorem Consistent.setLoop (h : Consistent q hand) {hand' : Option ServerFunctor}
    (hdue : (q.setLoop i loop).due hand' = q.due hand)
    (hhand : ∀ cb ∈ hand', cb.conn < q.accepted)
    (hfunctor : ∀ cb ∈ loop.queue.todo, cb.conn < q.accepted ∧ q.loopOf cb = i)
    (hcallback : ∀ p ∈ loop.active, p.1 < q.accepted ∧ (q.conn p.1).loop = i)
    (hnodup : loop.active.Nodup) (hhandling : loop.handling → loop.queue.functors = [])
    (hreading : ∀ c, (c, .readCallback) ∈ loop.active → (q.conn c).channel.isReading) :
    Consistent (q.setLoop i loop) hand' := by
  -- what holds of the loop and of all other loops before holds of all loops afterwards
  have hall : ∀ P : ℕ → ServerLoop → Prop, P i loop → (∀ j, P j (q.loops j)) →
      ∀ j, P j ((q.setLoop i loop).loops j) := by
    intro P hi hP j
    by_cases hj : j = i
    · rw [hj, loops_setLoop_self]
      exact hi
    · rw [loops_setLoop_of_ne hj]
      exact hP j
  refine ⟨⟨?placed, ?tracked, hhand, ?reading⟩, ?registered⟩
  case placed =>
    constructor
    case functor =>
      intro j cb
      exact hall (fun j l => ∀ cb ∈ l.queue.todo, cb.conn < q.accepted ∧ q.loopOf cb = j) hfunctor
        (fun j cb => h.placed.functor) j cb
    case callback =>
      intro j p
      exact hall (fun j l => ∀ p ∈ l.active, p.1 < q.accepted ∧ (q.conn p.1).loop = j) hcallback
        (fun j p => h.placed.callback) j p
    case nodup => exact hall (fun _ l => l.active.Nodup) hnodup h.placed.nodup
    case handling =>
      intro j
      exact hall (fun _ l => l.handling = true → l.queue.functors = []) hhandling
        (fun j => h.placed.handling) j
  case registered =>
    obtain ⟨hnextConnId, hname, hloop, hnext, hconnections⟩ := h.registered
    exact ⟨hnextConnId, hname, hloop, hnext, hconnections⟩
  case tracked =>
    intro c hc
    rw [hdue]
    exact h.tracked hc
  case reading =>
    intro j c
    exact hall (fun _ l => ∀ c, (c, .readCallback) ∈ l.active → (q.conn c).channel.isReading = true)
      hreading (fun j c => h.reading) j c

/-! ## Calls that are due -/

theorem connectEstablished_eq (h : (q.conn c).state = .kConnecting) :
    q.connectEstablished (q.conn c).loop c = .ok (q.setConn c { q.conn c with
      state := .kConnected
      channel := (q.conn c).channel.enableReading
      established := (q.conn c).established + 1 }) := by
  rw [connectEstablished, assertInLoopThread_self, if_pos h]
  rfl

theorem connectDestroyed_eq
    (h : (q.conn c).state = .kConnected ∨ (q.conn c).state = .kDisconnecting) :
    q.connectDestroyed (q.conn c).loop c = .ok (q.setConn c { q.conn c with
      state := .kDisconnected
      channel := (q.conn c).channel.disableAllEvents
      destroyed := (q.conn c).destroyed + 1 }) := by
  rw [connectDestroyed, assertInLoopThread_self, if_pos h]
  rfl

/-- The call that is about to be made may be queued instead. -/
theorem Consistent.queueInLoop (h : Consistent q (some cb)) :
    Consistent (q.queueInLoop (q.loopOf cb) cb) none := by
  apply h.setLoop
  case hdue => exact due_queueInLoop q cb
  case hhand => exact nofun
  case hfunctor =>
    intro cb' hcb'
    rw [FunctorQueue.todo_queueInLoop] at hcb'
    rcases List.mem_append.mp hcb' with hcb' | hcb'
    · exact h.placed.functor hcb'
    · rw [List.mem_singleton.mp hcb']
      exact ⟨h.hand cb rfl, rfl⟩
  case hcallback => exact fun p => h.placed.callback
  case hnodup => exact h.placed.nodup _
  case hhandling => exact h.placed.handling
  case hreading => exact fun c => h.reading

/-- The call that is about to be made for a connection changes the connection. -/
theorem Consistent.setConn_of_call (h : Consistent q (some cb)) (hc : cb.conn = c)
    (hname : conn.name = (q.conn c).name) (hloop : conn.loop = (q.conn c).loop)
    (hremoved : conn.removed = (q.conn c).removed) (htracked : Tracked conn c (q.due none))
    (hreading : ∀ i, (c, .readCallback) ∈ (q.loops i).active → conn.channel.isReading) :
    Consistent (q.setConn c conn) none where
  toCounted := by
    apply h.toCounted.setConn hloop
    case hhand => exact nofun
    case hother =>
      intro cb' hcb'
      have hne : cb ≠ cb' := fun heq => hcb' (heq ▸ hc)
      exact (due_of_ne hne).symm
    case htracked => exact fun _ => htracked
    case hreading => exact hreading
  registered := h.registered.setConn hname hloop hremoved

theorem Consistent.connectEstablished (h : Consistent q (some (.connectEstablished c))) :
    ∃ q', q.connectEstablished (q.conn c).loop c = .ok q' ∧ Consistent q' none := by
  have ht : Tracked (q.conn c) c _ := h.tracked (h.hand _ rfl)
  obtain ⟨hestablished, hclosed, hremoved, hle, hconnecting, -, -, -⟩ := ht
  simp only [due_self, due_some, reduceCtorEq, if_false] at hestablished hclosed hremoved
  have hzero : (q.conn c).established = 0 := by omega
  refine ⟨_, connectEstablished_eq (hconnecting hzero), ?_⟩
  apply Consistent.setConn_of_call h rfl
  case hname | hloop | hremoved => rfl
  case htracked =>
    constructor
    case established =>
      show (q.conn c).established + 1 + q.due none (.connectEstablished c) = 1
      omega
    case closed => exact hclosed
    case removed => exact hremoved
    case closed_le => exact Nat.le_succ_of_le hle
    case connecting => exact fun h => absurd h (Nat.succ_ne_zero _)
    case connected => exact fun _ _ => .inl rfl
    case reading =>
      intro _
      show (q.conn c).established + 1 = 1 ∧ (q.conn c).closed = 0
      omega
    case shutting =>
      intro _
      show (q.conn c).established + 1 = 1
      omega
  case hreading => exact fun _ _ => Channel.isReading_enableReading _

theorem Consistent.connectDestroyed (h : Consistent q (some (.connectDestroyed c))) :
    ∃ q', q.connectDestroyed (q.conn c).loop c = .ok q' ∧ Consistent q' none := by
  have ht : Tracked (q.conn c) c _ := h.tracked (h.hand _ rfl)
  have hnotReading := ht.reading
  obtain ⟨hestablished, hclosed, hremoved, hle, -, hconnected, -, -⟩ := ht
  simp only [due_self, due_some, reduceCtorEq, if_false] at hestablished hclosed hremoved
  -- the connection has been closed once, so it has been established, and it is destroyed now
  have hone : (q.conn c).established = 1 := by omega
  have hzero : (q.conn c).destroyed = 0 := by omega
  refine ⟨_, connectDestroyed_eq (hconnected hone hzero), ?_⟩
  apply Consistent.setConn_of_call h rfl
  case hname | hloop | hremoved => rfl
  case htracked =>
    constructor
    case established => exact hestablished
    case closed => exact hclosed
    case removed =>
      show (q.conn c).removed = (q.conn c).destroyed + 1 + q.due none (.connectDestroyed c)
      omega
    case closed_le => exact hle
    case connecting => exact fun h => absurd (hone.symm.trans h) Nat.one_ne_zero
    case connected => exact fun _ h => absurd h (Nat.succ_ne_zero _)
    case reading =>
      intro hreading
      rw [Channel.isReading_disableAllEvents] at hreading
      cases hreading
    case shutting => exact fun _ => hone
  case hreading =>
    intro i hi
    have hopen := (hnotReading (h.reading hi)).2
    omega

/-- `removeConnectionInLoop` up to `queueInLoop`. -/
def eraseConn (q : TcpServer) (c : ℕ) : TcpServer :=
  (q.erase (q.conn c).name).2.setConn c { q.conn c with removed := (q.conn c).removed + 1 }

theorem loop_eraseConn (q : TcpServer) (c : ℕ) :
    ((q.eraseConn c).conn c).loop = (q.conn c).loop := by
  rw [eraseConn, conn_setConn_self]

theorem removeConnectionInLoop_eq (h : (q.connections (q.conn c).name).isSome) :
    q.removeConnectionInLoop 0 c =
      .ok ((q.eraseConn c).queueInLoop (q.conn c).loop (.connectDestroyed c)) := by
  have hn : (q.erase (q.conn c).name).1 = 1 := if_pos h
  rw [← loop_eraseConn q c, removeConnectionInLoop, assertInLoopThread_self]
  show (if (q.erase (q.conn c).name).1 = 1 then _ else _) = _
  rw [if_pos hn]
  rfl

theorem Registered.eraseConn (h : q.Registered) (hc : c < q.accepted) :
    (q.eraseConn c).Registered := by
  unfold TcpServer.eraseConn
  constructor
  case nextConnId => exact h.nextConnId
  case name =>
    intro c' hc'
    by_cases heq : c' = c
    · rw [heq, conn_setConn_self]
      exact h.name hc
    · rw [conn_setConn_of_ne heq]
      exact h.name hc'
  case loop_le =>
    intro c' hc'
    by_cases heq : c' = c
    · rw [heq, conn_setConn_self]
      exact h.loop_le hc
    · rw [conn_setConn_of_ne heq]
      exact h.loop_le hc'
  case next_lt => exact h.next_lt
  case connections =>
    intro name c'
    show Function.update q.connections (q.conn c).name none name = some c' ↔ c' < q.accepted ∧ _
    by_cases heq : c' = c
    · rw [heq, conn_setConn_self]
      by_cases hname : name = (q.conn c).name
      · simp [hname]
      · have hne : q.connections name ≠ some c :=
          fun h' => hname (h.connections.mp h').2.1.symm
        simp [hname, hne]
    · rw [conn_setConn_of_ne heq]
      show _ ↔ c' < q.accepted ∧ (q.conn c').name = name ∧ (q.conn c').removed = 0
      by_cases hname : name = (q.conn c).name
      · -- no other connection has this name
        rw [hname, Function.update_self]
        refine ⟨nofun, fun h' => absurd ?_ heq⟩
        have hnames := (h.name h'.1).symm.trans (h'.2.1.trans (h.name hc))
        exact Nat.succ.inj (connName_inj hnames)
      · rw [Function.update_of_ne hname]
        exact h.connections

/-- The connection is taken out of `connections_`, and is to be destroyed. -/
theorem Consistent.eraseConn (h : Consistent q (some (.removeConnectionInLoop c))) :
    Consistent (q.eraseConn c) (some (.connectDestroyed c)) := by
  have hc : c < q.accepted := h.hand _ rfl
  have ht : Tracked (q.conn c) c _ := h.tracked hc
  obtain ⟨hestablished, hclosed, hremoved, hle, hconnecting, hconnected, hreading, hshutting⟩ := ht
  simp only [due_self, due_some, reduceCtorEq, if_false] at hestablished hclosed hremoved
  have herased : Counted (q.erase (q.conn c).name).2 (some (.removeConnectionInLoop c)) :=
    ⟨⟨h.placed.functor, h.placed.callback, h.placed.nodup, h.placed.handling⟩, h.tracked, h.hand,
      h.reading⟩
  refine ⟨?_, h.registered.eraseConn hc⟩
  apply herased.setConn
  case hloop => rfl
  case hhand => exact fun cb hcb => Option.some.inj hcb ▸ hc
  case hother =>
    intro cb hcb
    show q.due (some (.connectDestroyed c)) cb = q.due (some (.removeConnectionInLoop c)) cb
    have hne : ServerFunctor.connectDestroyed c ≠ cb := fun heq => hcb (heq ▸ rfl)
    have hne' : ServerFunctor.removeConnectionInLoop c ≠ cb := fun heq => hcb (heq ▸ rfl)
    rw [due_of_ne hne, due_of_ne hne']
  case htracked =>
    intro _
    show Tracked _ c (q.due (some (.connectDestroyed c)))
    constructor
    case established =>
      simp only [due_some, reduceCtorEq, if_false]
      exact hestablished
    case closed =>
      simp only [due_some, reduceCtorEq, if_false]
      omega
    case removed =>
      show (q.conn c).removed + 1 = (q.conn c).destroyed + q.due _ (.connectDestroyed c)
      rw [due_self]
      omega
    case closed_le => exact hle
    case connecting => exact hconnecting
    case connected => exact hconnected
    case reading => exact hreading
    case shutting => exact hshutting
  case hreading => exact fun _ => h.reading

theorem Consistent.removeConnectionInLoop (h : Consistent q (some (.removeConnectionInLoop c))) :
    ∃ q', q.removeConnectionInLoop 0 c = .ok q' ∧ Consistent q' none := by
  have hc : c < q.accepted := h.hand _ rfl
  have ht : Tracked (q.conn c) c _ := h.tracked hc
  obtain ⟨hestablished, hclosed, -, hle, -, -, -, -⟩ := ht
  rw [due_self] at hclosed
  have hzero : (q.conn c).removed = 0 := by omega
  have hsome : q.connections (q.conn c).name = some c :=
    h.registered.connections.mpr ⟨hc, rfl, hzero⟩
  have hqueue := h.eraseConn.queueInLoop
  rw [loopOf, loop_eraseConn] at hqueue
  exact ⟨_, removeConnectionInLoop_eq (Option.isSome_of_eq_some hsome), hqueue⟩

/-- A call that is due does not fail in the thread of its loop. -/
theorem Consistent.call (h : Consistent q (some cb)) :
    ∃ q', q.call (q.loopOf cb) cb = .ok q' ∧ Consistent q' none := by
  cases cb with
  | connectEstablished c => exact h.connectEstablished
  | removeConnectionInLoop c => exact h.removeConnectionInLoop
  | connectDestroyed c => exact h.connectDestroyed

theorem Consistent.runInLoop (h : Consistent q (some cb)) (thread : ℕ) :
    ∃ q', q.runInLoop (q.loopOf cb) thread cb = .ok q' ∧ Consistent q' none := by
  unfold TcpServer.runInLoop
  by_cases hthread : q.loopOf cb = thread
  · rw [if_pos hthread, ← hthread]
    exact h.call
  · rw [if_neg hthread]
    exact ⟨_, rfl, h.queueInLoop⟩

/-- The next functor of a loop does not fail. -/
theorem Consistent.runFunctor (h : Consistent q none) (i : ℕ) :
    ∃ q', q.runFunctor i = .ok q' ∧ Consistent q' none := by
  unfold TcpServer.runFunctor
  cases hfunctors : (q.loops i).queue.functors with
  | nil => exact ⟨q, rfl, h⟩
  | cons cb rest =>
    have hmem : ∀ cb' ∈ (q.loops i).queue.pop.todo, cb' ∈ (q.loops i).queue.todo := by
      intro cb' hcb'
      rw [FunctorQueue.todo_pop hfunctors]
      exact List.mem_cons_of_mem _ hcb'
    have hcb : cb ∈ (q.loops i).queue.todo := by
      rw [FunctorQueue.todo_pop hfunctors]
      exact List.mem_cons_self
    obtain ⟨hconn, rfl⟩ := h.placed.functor hcb
    have hpop : Consistent (q.setLoop (q.loopOf cb) { q.loops (q.loopOf cb) with
        queue := (q.loops (q.loopOf cb)).queue.pop }) (some cb) := by
      apply h.setLoop
      case hdue => exact due_pop hfunctors rfl
      case hhand => exact fun cb' hcb' => Option.some.inj hcb' ▸ hconn
      case hfunctor => exact fun cb' hcb' => h.placed.functor (hmem cb' hcb')
      case hcallback => exact fun p => h.placed.callback
      case hnodup => exact h.placed.nodup _
      case hhandling =>
        intro hhandling
        have hnil := h.placed.handling hhandling
        rw [hfunctors] at hnil
        cases hnil
      case hreading => exact fun c => h.reading
    exact hpop.call

/-! ## Accepting and closing -/

theorem handleClose_eq (h : (q.conn c).state = .kConnected ∨ (q.conn c).state = .kDisconnecting) :
    q.handleClose (q.conn c).loop c = (q.setConn c { q.conn c with
      channel := (q.conn c).channel.disableAllEvents
      closed := (q.conn c).closed + 1 }).removeConnection (q.conn c).loop c := by
  rw [handleClose, assertInLoopThread_self, if_pos h]
  rfl

/-- A connection that is read from is open. It is closed when its read callback is not to be called
again. -/
theorem Consistent.handleClose (h : Consistent q none) (hc : c < q.accepted)
    (hreading : (q.conn c).channel.isReading)
    (hactive : ∀ i, (c, .readCallback) ∉ (q.loops i).active) :
    ∃ q', q.handleClose (q.conn c).loop c = .ok q' ∧ Consistent q' none := by
  have ht := h.tracked hc
  obtain ⟨hone, hzero⟩ := ht.reading hreading
  obtain ⟨hestablished, hclosed, hremoved, -, -, hconnected, -, -⟩ := ht
  have hdestroyed : (q.conn c).destroyed = 0 := by omega
  rw [handleClose_eq (hconnected hone hdestroyed)]
  have hnext : Consistent (q.setConn c { q.conn c with
      channel := (q.conn c).channel.disableAllEvents
      closed := (q.conn c).closed + 1 }) (some (.removeConnectionInLoop c)) := by
    refine ⟨?_, h.registered.setConn rfl rfl rfl⟩
    apply h.toCounted.setConn
    case hloop => rfl
    case hhand => exact fun cb hcb => Option.some.inj hcb ▸ hc
    case hother =>
      intro cb hcb
      have hne : ServerFunctor.removeConnectionInLoop c ≠ cb := fun heq => hcb (heq ▸ rfl)
      exact due_of_ne hne
    case htracked =>
      intro _
      constructor
      case established =>
        simp only [due_some, reduceCtorEq, if_false]
        exact hestablished
      case closed =>
        show (q.conn c).closed + 1 = (q.conn c).removed + q.due _ (.removeConnectionInLoop c)
        rw [due_self]
        omega
      case removed =>
        simp only [due_some, reduceCtorEq, if_false]
        exact hremoved
      case closed_le =>
        show (q.conn c).closed + 1 ≤ (q.conn c).established
        omega
      case connecting => exact fun h => absurd (hone.symm.trans h) Nat.one_ne_zero
      case connected => exact hconnected
      case reading =>
        intro hreading
        rw [Channel.isReading_disableAllEvents] at hreading
        cases hreading
      case shutting => exact fun _ => hone
    case hreading => exact fun i hi => absurd hi (hactive i)
  exact hnext.runInLoop _

/-- The interest of a connection in writing changes. -/
theorem Consistent.setChannel (h : Consistent q none) (hc : c < q.accepted) {channel : Channel}
    (hreading : channel.isReading = (q.conn c).channel.isReading) :
    Consistent (q.setConn c { q.conn c with channel := channel }) none := by
  apply h.setConn
  case hname | hloop | hremoved => rfl
  case htracked =>
    have ht := h.tracked hc
    exact fun _ => { ht with reading := fun h => ht.reading (hreading ▸ h) }
  case hreading => exact fun i hi => hreading.trans (h.reading hi)

theorem Consistent.handleWrite (h : Consistent q none) (hc : c < q.accepted) (drained : Bool) :
    ∃ q', q.handleWrite (q.conn c).loop c drained = .ok q' ∧ Consistent q' none := by
  rw [TcpServer.handleWrite, assertInLoopThread_self]
  cases hwriting : (q.conn c).channel.isWriting && drained with
  | false => exact ⟨q, rfl, h⟩
  | true => exact ⟨_, rfl, h.setChannel hc (Channel.isReading_disableWriting _)⟩

theorem Consistent.sendInLoop (h : Consistent q none) (hc : c < q.accepted) (remain : Bool) :
    ∃ q', q.sendInLoop (q.conn c).loop c remain = .ok q' ∧ Consistent q' none := by
  rw [TcpServer.sendInLoop, assertInLoopThread_self]
  cases hwriting : remain && !(q.conn c).channel.isWriting with
  | false => exact ⟨q, rfl, h⟩
  | true => exact ⟨_, rfl, h.setChannel hc (Channel.isReading_enableWriting _)⟩

/-- The callbacks of the active channels do not fail. -/
theorem Consistent.handleNext (h : Consistent q none) (i : ℕ) (result : ReadResult)
    (drained : Bool) : ∃ q', q.handleNext i result drained = .ok q' ∧ Consistent q' none := by
  unfold TcpServer.handleNext
  cases hactive : (q.loops i).active with
  | nil => exact ⟨q, rfl, h⟩
  | cons p active =>
    obtain ⟨c, callback⟩ := p
    have hhead : (c, callback) ∈ (q.loops i).active := hactive ▸ List.mem_cons_self
    have htail : ∀ p ∈ active, p ∈ (q.loops i).active :=
      fun p hp => hactive ▸ List.mem_cons_of_mem _ hp
    have hnodup := h.placed.nodup i
    rw [hactive, List.nodup_cons] at hnodup
    obtain ⟨hc, hloop⟩ := h.placed.callback hhead
    have hrest : Consistent (q.setLoop i { q.loops i with active := active }) none := by
      apply h.setLoop
      case hdue => exact due_setLoop rfl
      case hhand => exact nofun
      case hfunctor => exact fun cb => h.placed.functor
      case hcallback => exact fun p hp => h.placed.callback (htail p hp)
      case hnodup => exact hnodup.2
      case hhandling => exact h.placed.handling
      case hreading => exact fun c hc => h.reading (htail _ hc)
    obtain rfl : (q.conn c).loop = i := hloop
    cases callback with
    | errorCallback => exact ⟨_, rfl, hrest⟩
    | readCallback =>
      cases result with
      | positive | error => exact ⟨_, rfl, hrest⟩
      | zero =>
        apply hrest.handleClose hc (h.reading hhead)
        intro j hj
        by_cases hloop : j = (q.conn c).loop
        · rw [hloop, loops_setLoop_self] at hj
          exact hnodup.1 hj
        · rw [loops_setLoop_of_ne hloop] at hj
          exact hloop (h.placed.callback hj).2.symm
    | writeCallback => exact hrest.handleWrite hc drained

theorem addConnection_conn_self (q : TcpServer) (ioLoop next : ℕ) :
    (q.addConnection ioLoop next).conn q.accepted =
      { name := connName q.name q.nextConnId, loop := ioLoop } :=
  Function.update_self ..

theorem addConnection_conn_of_lt (ioLoop next : ℕ) (h : c < q.accepted) :
    (q.addConnection ioLoop next).conn c = q.conn c :=
  Function.update_of_ne (Nat.ne_of_lt h) ..

theorem loopOf_addConnection (ioLoop next : ℕ) (h : cb.conn < q.accepted) :
    (q.addConnection ioLoop next).loopOf cb = q.loopOf cb := by
  cases cb with
  | connectEstablished c => exact congrArg ServerConn.loop (addConnection_conn_of_lt ioLoop next h)
  | removeConnectionInLoop c => rfl
  | connectDestroyed c => exact congrArg ServerConn.loop (addConnection_conn_of_lt ioLoop next h)

/-- Nothing is due for a connection that has not been accepted. -/
theorem Placed.count_eq_zero (h : q.Placed) (hcb : q.accepted ≤ cb.conn) (i : ℕ) :
    (q.loops i).queue.todo.count cb = 0 := by
  rw [List.count_eq_zero]
  intro hmem
  exact absurd (h.functor hmem).1 (Nat.not_lt.mpr hcb)

/-- The new connection is entered in `connections_` under a new name. -/
theorem Registered.connections_addConnection (h : q.Registered) (ioLoop next : ℕ)
    (name : List UInt8) : (q.addConnection ioLoop next).connections name = some c ↔
      c < q.accepted + 1 ∧ ((q.addConnection ioLoop next).conn c).name = name ∧
        ((q.addConnection ioLoop next).conn c).removed = 0 := by
  have hid := h.nextConnId
  show Function.update q.connections (connName q.name q.nextConnId) _ name = some c ↔ _
  by_cases hname : name = connName q.name q.nextConnId
  · rw [hname, Function.update_self, Option.some.injEq]
    constructor
    · rintro rfl
      rw [addConnection_conn_self]
      exact ⟨Nat.lt_succ_self _, rfl, rfl⟩
    · rintro ⟨hc, hcname, -⟩
      rcases Nat.lt_succ_iff_lt_or_eq.mp hc with hc | rfl
      · -- the names of the earlier connections have smaller numbers
        rw [addConnection_conn_of_lt _ _ hc, h.name hc, hid] at hcname
        exact absurd (Nat.succ.inj (connName_inj hcname)) (Nat.ne_of_lt hc)
      · rfl
  · rw [Function.update_of_ne hname, h.connections]
    constructor
    · rintro ⟨hc, hrest⟩
      rw [addConnection_conn_of_lt _ _ hc]
      exact ⟨Nat.lt_succ_of_lt hc, hrest⟩
    · rintro ⟨hc, hrest⟩
      rcases Nat.lt_succ_iff_lt_or_eq.mp hc with hc | rfl
      · rw [addConnection_conn_of_lt _ _ hc] at hrest
        exact ⟨hc, hrest⟩
      · rw [addConnection_conn_self] at hrest
        exact absurd hrest.1.symm hname

theorem Registered.addConnection (h : q.Registered) {ioLoop next : ℕ}
    (hloop : ioLoop ≤ q.numLoops) (hnext : q.numLoops ≠ 0 → next < q.numLoops) :
    (q.addConnection ioLoop next).Registered := by
  constructor
  case nextConnId => exact congrArg (· + 1) h.nextConnId
  case name =>
    intro c hc
    rcases Nat.lt_succ_iff_lt_or_eq.mp hc with hc | rfl
    · rw [addConnection_conn_of_lt _ _ hc]
      exact h.name hc
    · rw [addConnection_conn_self, h.nextConnId]
      rfl
  case loop_le =>
    intro c hc
    rcases Nat.lt_succ_iff_lt_or_eq.mp hc with hc | rfl
    · rw [addConnection_conn_of_lt _ _ hc]
      exact h.loop_le hc
    · rw [addConnection_conn_self]
      exact hloop
  case next_lt => exact hnext
  case connections => exact h.connections_addConnection ioLoop next _

/-- Nothing changes for the connections that have been accepted before. -/
theorem due_addConnection (ioLoop next : ℕ) (h : cb.conn < q.accepted) :
    (q.addConnection ioLoop next).due (some (.connectEstablished q.accepted)) cb =
      q.due none cb := by
  have hne : ServerFunctor.connectEstablished q.accepted ≠ cb := by
    rintro rfl
    exact Nat.lt_irrefl _ h
  rw [due_of_ne hne, due, loopOf_addConnection _ _ h]
  rfl

/-- A new connection is to be established. -/
theorem Consistent.addConnection (h : Consistent q none) {ioLoop next : ℕ}
    (hioLoop : ioLoop ≤ q.numLoops) (hnext : q.numLoops ≠ 0 → next < q.numLoops) :
    Consistent (q.addConnection ioLoop next) (some (.connectEstablished q.accepted)) := by
  refine ⟨⟨?placed, ?tracked, ?hand, ?reading⟩, h.registered.addConnection hioLoop hnext⟩
  case placed =>
    constructor
    case functor =>
      intro i cb hcb
      obtain ⟨hconn, hloop⟩ := h.placed.functor hcb
      exact ⟨Nat.lt_succ_of_lt hconn, (loopOf_addConnection ioLoop next hconn).trans hloop⟩
    case callback =>
      intro i p hp
      obtain ⟨hconn, hloop⟩ := h.placed.callback hp
      rw [addConnection_conn_of_lt _ _ hconn]
      exact ⟨Nat.lt_succ_of_lt hconn, hloop⟩
    case nodup => exact h.placed.nodup
    case handling => exact h.placed.handling
  case tracked =>
    intro c hc
    rcases Nat.lt_succ_iff_lt_or_eq.mp hc with hc | rfl
    · rw [addConnection_conn_of_lt _ _ hc]
      exact (h.tracked hc).of_due fun cb hcb => due_addConnection ioLoop next (hcb ▸ hc)
    · have hnone : ∀ cb : ServerFunctor, cb.conn = q.accepted →
          (q.addConnection ioLoop next).due none cb = 0 :=
        fun cb hcb => h.placed.count_eq_zero (Nat.le_of_eq hcb.symm) _
      rw [addConnection_conn_self]
      apply tracked_new
      case hestablish => rw [due_self, hnone _ rfl]
      case hremove =>
        simp only [due_some, reduceCtorEq, if_false]
        exact hnone _ rfl
      case hdestroy =>
        simp only [due_some, reduceCtorEq, if_false]
        exact hnone _ rfl
  case hand => exact fun cb hcb => Option.some.inj hcb ▸ Nat.lt_succ_self _
  case reading =>
    intro i c hc
    rw [addConnection_conn_of_lt _ _ (h.placed.callback hc).1]
    exact h.reading hc

/-- `getNextLoop` chooses one of the loops. -/
theorem Registered.getNextLoop (h : q.Registered) : q.getNextLoop.1 ≤ q.numLoops ∧
    (q.numLoops ≠ 0 → q.getNextLoop.2 < q.numLoops) := by
  unfold TcpServer.getNextLoop
  by_cases hzero : q.numLoops = 0
  · rw [if_pos hzero]
    exact ⟨Nat.zero_le _, h.next_lt⟩
  · have hlt := h.next_lt hzero
    rw [if_neg hzero]
    refine ⟨hlt, fun _ => ?_⟩
    show (if q.numLoops ≤ q.next + 1 then 0 else q.next + 1) < q.numLoops
    by_cases hend : q.numLoops ≤ q.next + 1
    · rw [if_pos hend]
      exact Nat.pos_of_ne_zero hzero
    · rw [if_neg hend]
      exact Nat.lt_of_not_le hend

theorem Consistent.newConnection (h : Consistent q none) :
    ∃ q', q.newConnection 0 = .ok q' ∧ Consistent q' none := by
  obtain ⟨hioLoop, hnext⟩ := h.registered.getNextLoop
  have hnext := (h.addConnection hioLoop hnext).runInLoop 0
  rw [loopOf, addConnection_conn_self] at hnext
  exact hnext

/-! ## The loops -/

theorem mem_handleEvent {a : ActiveChannel} {p : ℕ × ChannelCallback} (h : p ∈ a.handleEvent) :
    p.1 = a.conn ∧ (p.2 = .readCallback → a.readable = true) := by
  simp only [ActiveChannel.handleEvent, List.mem_append, List.mem_ite_nil_right,
    List.mem_singleton] at h
  rcases h with ⟨-, rfl⟩ | ⟨hreadable, rfl⟩ | ⟨-, rfl⟩
  · exact ⟨rfl, nofun⟩
  · exact ⟨rfl, fun _ => hreadable⟩
  · exact ⟨rfl, nofun⟩

theorem nodup_handleEvent (a : ActiveChannel) : a.handleEvent.Nodup := by
  obtain ⟨conn, error, readable, writable⟩ := a
  cases error <;> cases readable <;> cases writable <;> simp [ActiveChannel.handleEvent]

/-- The callbacks of different channels are different. -/
theorem nodup_flatMap_handleEvent {activeChannels : List ActiveChannel}
    (h : (activeChannels.map ActiveChannel.conn).Nodup) :
    (activeChannels.flatMap ActiveChannel.handleEvent).Nodup := by
  induction activeChannels with
  | nil => exact List.nodup_nil
  | cons a rest ih =>
    rw [List.map_cons, List.nodup_cons] at h
    rw [List.flatMap_cons, List.nodup_append]
    refine ⟨nodup_handleEvent a, ih h.2, ?_⟩
    rintro p hp p' hp' rfl
    obtain ⟨a', ha', hp'⟩ := List.mem_flatMap.mp hp'
    have hconn : a'.conn = a.conn := (mem_handleEvent hp').1.symm.trans (mem_handleEvent hp).1
    exact h.1 (hconn ▸ List.mem_map_of_mem ha')

theorem Consistent.poll (h : Consistent q none) {activeChannels : List ActiveChannel}
    (hfunctors : (q.loops i).queue.functors = [])
    (hnodup : (activeChannels.map ActiveChannel.conn).Nodup)
    (hreport : ∀ a ∈ activeChannels, q.MayReport i a) :
    Consistent (q.poll i activeChannels) none := by
  apply h.setLoop
  case hdue => exact due_setLoop rfl
  case hhand => exact nofun
  case hfunctor => exact fun cb => h.placed.functor
  case hcallback =>
    intro p hp
    obtain ⟨a, ha, hp⟩ := List.mem_flatMap.mp hp
    rw [(mem_handleEvent hp).1]
    exact ⟨(hreport a ha).1, (hreport a ha).2.1⟩
  case hnodup => exact nodup_flatMap_handleEvent hnodup
  case hhandling => exact fun _ => hfunctors
  case hreading =>
    intro c hc
    obtain ⟨a, ha, hp⟩ := List.mem_flatMap.mp hc
    obtain ⟨rfl, hreadable⟩ := mem_handleEvent hp
    exact (hreport a ha).2.2.1 (hreadable rfl)

theorem Consistent.doPendingFunctors (h : Consistent q none) (hhandling : (q.loops i).handling) :
    Consistent (q.doPendingFunctors i) none := by
  have htodo := FunctorQueue.todo_swap (h.placed.handling hhandling)
  apply h.setLoop
  case hdue => exact due_setLoop htodo
  case hhand => exact nofun
  case hfunctor => exact fun cb hcb => h.placed.functor (htodo ▸ hcb)
  case hcallback => exact fun p => h.placed.callback
  case hnodup => exact h.placed.nodup i
  case hhandling => exact nofun
  case hreading => exact fun c => h.reading

/-! ## Shutting down -/

theorem Consistent.shutdown (h : Consistent q none) (hc : c < q.accepted) :
    Consistent (q.shutdown c) none := by
  have ht := h.tracked hc
  have hestablished := ht.established
  unfold TcpServer.shutdown
  by_cases hstate : (q.conn c).state = .kConnected
  · have hone : (q.conn c).established = 1 := by
      by_contra hne
      have hzero : (q.conn c).established = 0 := by omega
      cases hstate.symm.trans (ht.connecting hzero)
    rw [if_pos hstate]
    apply h.setConn
    case hname | hloop | hremoved => rfl
    case htracked => exact fun _ => { ht with shutting := fun _ => hone }
    case hreading => exact fun _ => h.reading
  · rw [if_neg hstate]
    exact h

/-- The state may be set after the connection has been destroyed. -/
theorem Consistent.setDisconnecting (h : Consistent q none) (hshutting : 0 < (q.conn c).shutting) :
    Consistent (q.setDisconnecting c) none := by
  apply h.setConn
  case hname | hloop | hremoved => rfl
  case htracked =>
    intro hc
    have ht := h.tracked hc
    have hone := ht.shutting hshutting
    exact { ht with
      connecting := fun hzero => absurd (hone.symm.trans hzero) Nat.one_ne_zero
      connected := fun _ _ => .inr rfl
      shutting := fun _ => hone }
  case hreading => exact fun _ => h.reading

/-! ## Runs -/

/-- No event fails, and every event keeps the invariant. -/
theorem Consistent.step (h : Consistent q none) (he : q.Enabled e) :
    ∃ q', q.step e = .ok q' ∧ Consistent q' none := by
  cases e with
  | newConnection => exact h.newConnection
  | poll i activeChannels =>
    obtain ⟨-, -, hfunctors, hnodup, hreport⟩ := he
    exact ⟨_, rfl, h.poll hfunctors hnodup hreport⟩
  | handleNext i result drained => exact h.handleNext i result drained
  | doPendingFunctors i => exact ⟨_, rfl, h.doPendingFunctors he.1⟩
  | runFunctor i => exact h.runFunctor i
  | sendInLoop c remain => exact h.sendInLoop he remain
  | shutdown c => exact ⟨_, rfl, h.shutdown he⟩
  | setDisconnecting c => exact ⟨_, rfl, h.setDisconnecting he⟩

theorem preserves_consistent : machine.Preserves fun q => Consistent q none := by
  intro q e q' h he hs
  obtain ⟨q'', hok, h'⟩ := h.step he
  exact Except.ok.inj (hok.symm.trans hs) ▸ h'

theorem consistent_of_init (h : machine.init q) : Consistent q none := by
  obtain ⟨name, numLoops, rfl⟩ := h
  exact consistent_init name numLoops

/-- No assertion fails. Every connection that has been accepted has been established once, or its
loop is to do that; it is closed and destroyed at most once, and not destroyed before it is
established; and `connections_` has the connections that have not been removed. -/
theorem lifecycle : machine.NeverFaults ∧ ∀ q, machine.Reachable q →
    (∀ c < q.accepted, (q.conn c).loop ≤ q.numLoops ∧
      (q.conn c).established +
          (q.loops (q.conn c).loop).queue.todo.count (.connectEstablished c) = 1 ∧
        (q.conn c).destroyed ≤ (q.conn c).established ∧
          (q.conn c).closed ≤ 1 ∧ (q.conn c).destroyed ≤ 1) ∧
      ∀ connName c, q.connections connName = some c ↔
        c < q.accepted ∧ (q.conn c).name = connName ∧ (q.conn c).removed = 0 := by
  constructor
  · apply Machine.neverFaults_of_invariant preserves_consistent fun q => consistent_of_init
    intro q e h he
    obtain ⟨q', hok, -⟩ := h.step he
    exact ⟨q', hok⟩
  · intro q hq
    have h : Consistent q none := hq.invariant preserves_consistent fun q => consistent_of_init
    refine ⟨?_, fun connName c => h.registered.connections⟩
    intro c hc
    obtain ⟨hestablished, hclosed, hremoved, hle, -, -, -, -⟩ := h.tracked hc
    refine ⟨h.registered.loop_le hc, hestablished, ?_, ?_, ?_⟩ <;> omega

/-- A connection of an io loop is closed by the peer. -/
def closedByPeer : List Event :=
  [.poll 0 [], .newConnection, .poll 1 [], .doPendingFunctors 1, .runFunctor 1,
    .poll 1 [{ conn := 0, error := false, readable := true, writable := false }],
    .handleNext 1 .zero false, .doPendingFunctors 1, .doPendingFunctors 0, .runFunctor 0,
    .poll 1 [], .doPendingFunctors 1, .runFunctor 1]

theorem lifecycle_closedByPeer : ∃ q : TcpServer, machine.Reachable q ∧
    (q.conn 0).destroyed = 1 ∧ (q.conn 0).established = 1 ∧
      ∀ connName, q.connections connName ≠ some 0 := by
  have hex : (machine.exec { name := [], numLoops := 1 } closedByPeer).map (fun q =>
      (q.accepted, (q.conn 0).removed, (q.conn 0).destroyed)) = some (1, 1, 1) := by decide
  obtain ⟨q, hq, hstate⟩ := Option.map_eq_some_iff.mp hex
  obtain ⟨haccepted, hremoved, hdestroyed⟩ :
      q.accepted = 1 ∧ (q.conn 0).removed = 1 ∧ (q.conn 0).destroyed = 1 := by
    simpa using hstate
  have hreachable : machine.Reachable q := ⟨_, _, ⟨[], 1, rfl⟩, Machine.run_of_exec hq⟩
  obtain ⟨hcalls, hconnections⟩ := lifecycle.2 q hreachable
  obtain ⟨-, hestablished, hle, -⟩ := hcalls 0 (haccepted ▸ Nat.one_pos)
  refine ⟨q, hreachable, hdestroyed, by omega, ?_⟩
  intro connName hconn
  have hzero := ((hconnections connName 0).mp hconn).2.2
  omega

end CodingDemo.Libcpp.TcpServer
