import CodingDemo.Net.TcpConnection.Step

/-!
# The life of a connection

`connectEstablished`, `handleClose` and `connectDestroyed` assert the state in which they are
called. Each of them happens once, and in this order: the constructor binds the first, which makes
the poller report that there is nothing to read any more, upon which `handleClose` binds the last.
So the assertions hold, and the only step that can abort is a `send` in another thread.

## Main definitions

* `lifecycle`: those of the functors on their way that change the state
* `Lifecycle`: the four stages of a connection

## Main results

* `lifecycle_step`: the steps go from stage to stage
* `exists_step`: only a `send` outside the thread of the loop can abort
-/

namespace CodingDemo.Libcpp.TcpConnection

variable {q q' : TcpConnection} {e : Event} {msg : Message} {result : WriteResult}

/-- A functor that changes the state of the connection. -/
def changesState : Functor → Bool
  | .connectEstablished | .connectDestroyed => true
  | _ => false

/-- The functors on their way that change the state. -/
def lifecycle (q : TcpConnection) : List Functor := q.owed.filter changesState

/-- The stages of a connection. -/
inductive Lifecycle (q : TcpConnection) : Prop
  | connecting (hstate : q.state = .kConnecting) (howed : q.lifecycle = [.connectEstablished])
      (hreading : q.channel.isReading = false)
  | established (hstate : q.state = .kConnected ∨ q.state = .kDisconnecting)
      (howed : q.lifecycle = [])
  | closing (hstate : q.state = .kConnected ∨ q.state = .kDisconnecting)
      (howed : q.lifecycle = [.connectDestroyed]) (hreading : q.channel.isReading = false)
  | destroyed (hstate : q.state = .kDisconnected) (howed : q.lifecycle = [])
      (hreading : q.channel.isReading = false)

theorem lifecycle_bind (f : Functor) : (lifecycle { q with bound := q.bound ++ [f] }).Perm
    (if changesState f then f :: q.lifecycle else q.lifecycle) := by
  rw [lifecycle, lifecycle, ← List.filter_cons]
  exact (owed_bind f).filter _

theorem lifecycle_runFunctor {f : Functor} {rest : List Functor} (hf : q.functors = f :: rest) :
    q.lifecycle.Perm (if changesState f then f :: lifecycle { q with functors := rest }
      else lifecycle { q with functors := rest }) := by
  rw [lifecycle, lifecycle, ← List.filter_cons]
  exact (owed_runFunctor hf).filter _

/-! ## The steps -/

theorem Lifecycle.congr (h : Lifecycle q) (hstate : q'.state = q.state)
    (howed : q'.lifecycle.Perm q.lifecycle)
    (hreading : q'.channel.isReading = q.channel.isReading) : Lifecycle q' := by
  cases h with
  | connecting hs ho hr =>
    exact .connecting (hstate.trans hs) (List.perm_singleton.mp (ho ▸ howed)) (hreading.trans hr)
  | established hs ho => exact .established (hstate ▸ hs) (List.perm_nil.mp (ho ▸ howed))
  | closing hs ho hr =>
    exact .closing (hstate ▸ hs) (List.perm_singleton.mp (ho ▸ howed)) (hreading.trans hr)
  | destroyed hs ho hr =>
    exact .destroyed (hstate.trans hs) (List.perm_nil.mp (ho ▸ howed)) (hreading.trans hr)

/-- `shutdown` changes the state within a stage. -/
theorem Lifecycle.shutdown (h : Lifecycle q) (hstate : q.state = .kConnected)
    (hstate' : q'.state = .kDisconnecting) (howed : q'.lifecycle.Perm q.lifecycle)
    (hreading : q'.channel.isReading = q.channel.isReading) : Lifecycle q' := by
  cases h with
  | connecting hs => cases hstate.symm.trans hs
  | established _ ho => exact .established (.inr hstate') (List.perm_nil.mp (ho ▸ howed))
  | closing _ ho hr =>
    exact .closing (.inr hstate') (List.perm_singleton.mp (ho ▸ howed)) (hreading.trans hr)
  | destroyed hs => cases hstate.symm.trans hs

theorem Lifecycle.sends (h : Lifecycle q) (hs : Sends q msg q') : Lifecycle q' := by
  obtain ⟨hstate, howed, hreading, -⟩ := hs.same
  exact h.congr hstate (by rw [lifecycle, howed]; exact .refl _) hreading

theorem Lifecycle.finish (h : Lifecycle q) (hs : q.finishWrite = .ok q') : Lifecycle q' := by
  rw [finishWrite_eq] at hs
  obtain rfl := Except.ok.inj hs
  split_ifs
  · exact h.congr rfl (.refl _) rfl
  · exact h

theorem Lifecycle.writes (h : Lifecycle q) (hs : Writes q q') : Lifecycle q' := by
  cases hs with
  | kept => exact h
  | some => exact h.congr rfl (.refl _) rfl
  | called => exact h.congr rfl (.refl _) (Channel.isReading_disableWriting _)
  | finished _ _ hfinish =>
    refine Lifecycle.finish ?_ hfinish
    exact h.congr rfl (.refl _) (Channel.isReading_disableWriting _)

/-- A functor that is run goes from stage to stage. -/
theorem Lifecycle.runFunctor {f : Functor} {rest : List Functor} (h : Lifecycle q)
    (hf : q.functors = f :: rest) (hs : Called { q with functors := rest } f q') :
    Lifecycle q' := by
  cases hs with
  | sendInLoop hsends =>
    refine Lifecycle.sends ?_ hsends
    exact h.congr rfl (lifecycle_runFunctor hf).symm rfl
  | shutdownInLoop =>
    have hkept : Lifecycle { q with functors := rest } :=
      h.congr rfl (lifecycle_runFunctor hf).symm rfl
    split_ifs
    · exact hkept
    · exact hkept.congr rfl (.refl _) rfl
  | connectEstablished hstate =>
    have hstate : q.state = .kConnecting := hstate
    cases h with
    | connecting _ howed _ =>
      -- the functor that runs is the only one
      have hperm := lifecycle_runFunctor hf
      rw [howed] at hperm
      exact .established (.inl rfl) (List.cons.inj (List.singleton_perm.mp hperm)).2.symm
    | established hs _ => simp [hstate] at hs
    | closing hs _ _ => simp [hstate] at hs
    | destroyed hs _ _ => cases hstate.symm.trans hs
  | connectDestroyed hstate =>
    have hstate : q.state = .kConnected ∨ q.state = .kDisconnecting := hstate
    have hperm := lifecycle_runFunctor hf
    -- the functor that runs is the only one, so the connection was closing
    have howed : lifecycle { q with functors := rest } = [] := by
      cases h with
      | connecting hs _ _ => simp [hs] at hstate
      | established _ howed =>
        rw [howed] at hperm
        cases hperm.nil_eq
      | closing _ howed _ =>
        rw [howed] at hperm
        exact (List.cons.inj (List.singleton_perm.mp hperm)).2.symm
      | destroyed hs _ _ => simp [hs] at hstate
    exact .destroyed rfl howed (Channel.isReading_disableAllEvents q.channel)

theorem lifecycle_step (h : Lifecycle q) (he : q.Enabled e) (hs : q.step e = .ok q') :
    Lifecycle q' := by
  cases step_effect he hs with
  | send hsends =>
    refine Lifecycle.sends ?_ hsends
    exact h.congr rfl (.refl _) rfl
  | @bindSend data _ _ =>
    exact h.congr rfl (lifecycle_bind (.sendInLoop { bytes := data, state := q.state })) rfl
  | shutdownNot => exact h
  | shutdown hstate hcalled =>
    cases hcalled with
    | shutdownInLoop =>
      split_ifs
      · exact h.shutdown hstate rfl (.refl _) rfl
      · exact h.shutdown hstate rfl (.refl _) rfl
  | bindShutdown hstate =>
    exact h.shutdown hstate rfl (lifecycle_bind .shutdownInLoop) rfl
  | setWriteCompleteCallback => exact h.congr rfl (.refl _) rfl
  | queueInLoop hf => exact h.congr rfl ((owed_queueInLoop hf).filter _) rfl
  | doPendingFunctors hnil =>
    refine h.congr rfl ?_ rfl
    rw [lifecycle, owed_doPendingFunctors hnil]
    exact .refl _
  | runFunctor hf hcalled => exact h.runFunctor hf hcalled
  | handleWrite hwrites => exact h.writes hwrites
  | handleClose hstate hreading =>
    cases h with
    | established _ howed =>
      -- nothing that changes the state was on its way, and now one functor is
      have hperm := lifecycle_bind (q := q) .connectDestroyed
      rw [howed] at hperm
      exact .closing hstate (List.perm_singleton.mp hperm)
        (Channel.isReading_disableAllEvents q.channel)
    | connecting _ _ hr => cases hreading.symm.trans hr
    | closing _ _ hr => cases hreading.symm.trans hr
    | destroyed _ _ hr => cases hreading.symm.trans hr
  | retWrite _ hfinish =>
    refine Lifecycle.finish ?_ hfinish
    exact h.congr rfl (.refl _) rfl
  | ret => exact h.congr rfl (.refl _) rfl

theorem preserves_lifecycle : machine.Preserves Lifecycle :=
  fun _ _ _ h he hs => lifecycle_step h he hs

theorem lifecycle_of_init (h : machine.init q) : Lifecycle q := by
  obtain ⟨writeCompleteCallback, rfl⟩ := h
  exact .connecting rfl rfl (by simp [init, Channel.isReading])

/-! ## No step aborts -/

/-- A functor on its way is run in the state that it asserts. -/
theorem exists_call {f : Functor} {rest : List Functor} (h : Lifecycle q)
    (hf : q.functors = f :: rest) (hle : AtMost result f.size) :
    ∃ q', { q with functors := rest }.call result f = .ok q' := by
  cases f with
  | sendInLoop msg =>
    obtain ⟨q', hok, -⟩ := sendInLoop_eq { q with functors := rest } hle
    exact ⟨q', hok⟩
  | shutdownInLoop => exact ⟨_, shutdownInLoop_eq _⟩
  | connectEstablished =>
    have hmem : Functor.connectEstablished ∈ q.lifecycle :=
      List.mem_filter.mpr ⟨(owed_runFunctor hf).symm.subset List.mem_cons_self, rfl⟩
    cases h with
    | connecting hstate _ _ => exact ⟨_, if_pos hstate⟩
    | established _ howed => simp [howed] at hmem
    | closing _ howed _ => simp [howed] at hmem
    | destroyed _ howed _ => simp [howed] at hmem
  | connectDestroyed =>
    have hmem : Functor.connectDestroyed ∈ q.lifecycle :=
      List.mem_filter.mpr ⟨(owed_runFunctor hf).symm.subset List.mem_cons_self, rfl⟩
    cases h with
    | connecting _ howed _ => simp [howed] at hmem
    | established _ howed => simp [howed] at hmem
    | closing hstate _ _ => exact ⟨_, if_pos hstate⟩
    | destroyed _ howed _ => simp [howed] at hmem

/-- **Only one step aborts**: a `send` of a connected connection outside the thread of the loop. -/
theorem exists_step (h : Lifecycle q) (he : q.Enabled e)
    (hsend : ∀ msg result, e = .send false msg result → q.state ≠ .kConnected) :
    ∃ q', q.step e = .ok q' := by
  cases e with
  | send isInLoopThread msg result =>
    simp only [step, TcpConnection.send]
    cases isInLoopThread with
    | false =>
      rw [if_neg (hsend msg result rfl)]
      exact ⟨_, rfl⟩
    | true =>
      have hle : AtMost result (Message.mk msg q.state).bytes.length := he
      obtain ⟨q', hok, -⟩ := sendInLoop_eq { q with passed := q.passed ++ msg } hle
      refine ⟨q', ?_⟩
      split_ifs
      · exact hok
      · exact hok
  | shutdown isInLoopThread =>
    simp only [step, TcpConnection.shutdown]
    split_ifs
    · cases isInLoopThread with
      | false => exact ⟨_, rfl⟩
      | true => exact ⟨_, shutdownInLoop_eq _⟩
    · exact ⟨q, rfl⟩
  | runFunctor result =>
    obtain ⟨f, hf, hle⟩ := he.2
    obtain ⟨rest, hf⟩ : ∃ rest, q.functors = f :: rest := List.head?_eq_some_iff.mp hf
    simp only [step, TcpConnection.runFunctor, hf]
    exact exists_call h hf hle
  | handleWrite result =>
    obtain ⟨q', hok, -⟩ := handleWrite_eq q he.2
    exact ⟨q', hok⟩
  | handleClose =>
    -- there is read interest only while the connection is established
    have hstate : q.state = .kConnected ∨ q.state = .kDisconnecting := by
      cases h with
      | established hstate _ => exact hstate
      | connecting _ _ hr => cases he.2.symm.trans hr
      | closing hstate _ _ => exact hstate
      | destroyed _ _ hr => cases he.2.symm.trans hr
    exact ⟨_, if_pos hstate⟩
  | ret =>
    simp only [step, TcpConnection.ret]
    split
    · exact ⟨q, rfl⟩
    · exact ⟨_, finishWrite_eq _⟩
    · exact ⟨_, rfl⟩
    · exact ⟨_, rfl⟩
  | _ => exact ⟨_, rfl⟩

end CodingDemo.Libcpp.TcpConnection
