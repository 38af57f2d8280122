import CodingDemo.Logging.LogAsync.Output
import CodingDemo.Text.Ascii
import Mathlib.Data.List.TakeDrop

/-!
# The bytes in the buffers of the asynchronous logger

No buffer is lost or used after it has been freed, and there is always a current buffer. The bytes
of a message are copied to the begin of the current buffer, though, whatever has been there.

## Main definitions

* `Intact`: the log file and the buffers contain the messages, and no pointer dangles
* `Fits`: no message is copied over other bytes

## Main results

* `Buffer.content_append_eq_iff`: when a message comes after the bytes of a buffer
* `intact_iff_fits`: in which runs the messages are in the log file and in the buffers
-/

namespace CodingDemo.Libc

namespace Buffer

variable {b : Buffer} {msg c : List UInt8} {n : ℕ}

/-! ## Copying to the begin -/

theorem eq_zero_of_append_comm (hn : 0 < n)
    (h : msg ++ List.replicate n 0 = List.replicate n 0 ++ msg) : ∀ x ∈ msg, x = 0 := by
  obtain ⟨n, rfl⟩ := Nat.exists_eq_succ_of_ne_zero hn.ne'
  induction msg with
  | nil => exact List.forall_mem_nil _
  | cons a msg ih =>
    rw [List.replicate_succ, List.cons_append, List.cons_append, List.cons.injEq] at h
    obtain ⟨rfl, h⟩ := h
    refine List.forall_mem_cons.mpr ⟨rfl, ih ?_⟩
    rw [List.replicate_succ, h, ← List.replicate_succ, List.replicate_succ', List.append_assoc]
    rfl

/-- Bytes that are copied over the first ones come after them only if all of these are zero. -/
theorem overwrite_eq_append_iff :
    msg ++ c.drop msg.length ++ List.replicate (min c.length msg.length) 0 = c ++ msg ↔
      c = [] ∨ (∀ x ∈ msg, x = 0) ∧ ∀ x ∈ c.take msg.length, x = 0 := by
  constructor
  · intro h
    by_cases hc : c = []
    · exact .inl hc
    -- the bytes that are lost are as many zeros as the array had after the old bytes
    have hperm : (List.replicate (min c.length msg.length) 0).Perm (c.take msg.length) := by
      have hall : (c.drop msg.length ++ List.replicate (min c.length msg.length) 0).Perm c := by
        rw [List.append_assoc] at h
        exact (List.perm_append_left_iff msg).mp ((List.Perm.of_eq h).trans List.perm_append_comm)
      refine (List.perm_append_left_iff (c.drop msg.length)).mp (hall.trans ?_)
      exact (List.Perm.of_eq (List.take_append_drop msg.length c).symm).trans
        List.perm_append_comm
    have htake : ∀ x ∈ c.take msg.length, x = 0 := fun x hx =>
      List.eq_of_mem_replicate (hperm.mem_iff.mpr hx)
    refine .inr ⟨?_, htake⟩
    rcases Nat.le_total msg.length c.length with hle | hle
    · have hsplit : msg ++ (c.drop msg.length ++ List.replicate (min c.length msg.length) 0) =
          c.take msg.length ++ (c.drop msg.length ++ msg) := by
        rw [← List.append_assoc, h, ← List.append_assoc, List.take_append_drop]
      have hlength : msg.length = (c.take msg.length).length := by
        rw [List.length_take, Nat.min_eq_left hle]
      rw [List.append_inj_left hsplit hlength]
      exact htake
    · rw [List.take_of_length_le hle] at htake
      rw [List.drop_eq_nil_of_le hle, List.append_nil, Nat.min_eq_left hle] at h
      have hzeros : c = List.replicate c.length 0 := List.eq_replicate_iff.mpr ⟨rfl, htake⟩
      exact eq_zero_of_append_comm (List.length_pos_of_ne_nil hc) (h.trans (hzeros ▸ rfl))
  · rintro (rfl | ⟨hmsg, htake⟩)
    · simp
    · have hmsg' : msg = List.replicate msg.length 0 := List.eq_replicate_iff.mpr ⟨rfl, hmsg⟩
      rcases Nat.le_total msg.length c.length with hle | hle
      · have htake' : c.take msg.length = msg := by
          rw [List.eq_replicate_iff.mpr ⟨List.length_take_of_le hle, htake⟩]
          exact hmsg'.symm
        rw [Nat.min_eq_right hle, ← hmsg']
        have hsplit := List.take_append_drop msg.length c
        rw [htake'] at hsplit
        exact congrArg (· ++ msg) hsplit
      · rw [List.take_of_length_le hle] at htake
        have hzeros : c = List.replicate c.length 0 := List.eq_replicate_iff.mpr ⟨rfl, htake⟩
        rw [List.drop_eq_nil_of_le hle, List.append_nil, Nat.min_eq_left hle, hmsg', hzeros]
        simp [Nat.add_comm]

theorem takeD_eq_append (h : c.length ≤ n) :
    c.takeD n 0 = c ++ List.replicate (n - c.length) 0 := by
  induction c generalizing n with
  | nil => rw [List.takeD_nil, List.nil_append, List.length_nil, Nat.sub_zero]
  | cons a c ih =>
    obtain ⟨n, rfl⟩ := Nat.exists_eq_succ_of_ne_zero (Nat.ne_zero_of_lt h)
    rw [List.length_cons, Nat.succ_sub_succ, List.cons_append, ← ih (Nat.le_of_succ_le_succ h)]
    rfl

/-- What is in the buffer after a message has been copied to its begin. -/
theorem content_append (h : b.Valid) (havail : msg.length < b.avail) :
    (b.append msg).content = msg ++ b.content.drop msg.length ++
      List.replicate (min b.content.length msg.length) 0 := by
  have hle := h.buf_le
  have hlength : (msg ++ b.buf.drop msg.length).length ≤ b.len + msg.length := by
    rw [List.length_append, List.length_drop]
    omega
  have hcount : b.len + msg.length - (msg ++ b.buf.drop msg.length).length =
      b.len - b.buf.length - (msg.length - b.buf.length) + min b.len msg.length := by
    rw [List.length_append, List.length_drop]
    omega
  rw [append, if_pos havail, content, takeD_eq_append hlength, hcount, content,
    List.takeD_length, takeD_eq_append hle, List.drop_append, List.drop_replicate,
    List.replicate_add]
  simp only [List.append_assoc]

/-- The buffer is empty, or zeros are copied over zeros. -/
def Fits (b : Buffer) (msg : List UInt8) : Prop :=
  b.len = 0 ∨ (∀ x ∈ msg, x = 0) ∧ ∀ x ∈ b.content.take msg.length, x = 0

instance (b : Buffer) (msg : List UInt8) : Decidable (b.Fits msg) :=
  inferInstanceAs
    (Decidable (b.len = 0 ∨ (∀ x ∈ msg, x = 0) ∧ ∀ x ∈ b.content.take msg.length, x = 0))

/-- A message comes after the other bytes of a buffer only if it overwrites none. -/
theorem content_append_eq_iff (h : b.Valid) (havail : msg.length < b.avail) :
    (b.append msg).content = b.content ++ msg ↔ b.Fits msg := by
  have hlen : b.content = [] ↔ b.len = 0 := by
    rw [← List.length_eq_zero_iff, content, List.takeD_length]
  rw [content_append h havail, overwrite_eq_append_iff, hlen]
  rfl

end Buffer

namespace LogAsync

open Nodes (Walk)

/-- The buffers in the list are these. -/
def Listed (q : LogAsync) (l : List ℕ) : Prop :=
  ∃ first, q.nodes.next .buffers = some first ∧ Walk q.nodes .buffers first (l.map Addr.node)

/-- The buffers that the backend has taken and not yet written are these. -/
def Unwritten (q : LogAsync) (l : List ℕ) : Prop :=
  match q.pc with
  | .write p => Walk q.nodes .buffersToWrite p (l.map Addr.node)
  | .alloc | .check | .lock | .wait | .free _ _ | .done => l = []

/-- There is a current buffer, the log file and the buffers contain all messages in order, and
whatever happens next uses neither a null pointer nor a buffer that has been freed. -/
structure Intact (q : LogAsync) : Prop where
  currentBuffer : q.currentBuffer ≠ none
  msgs : ∃ unwritten listed current, q.Unwritten unwritten ∧ q.Listed listed ∧
    q.currentBuffer = some current ∧
    q.output ++ q.contents unwritten ++ q.contents listed ++ q.content current = q.msgs.flatten
  noFault : ∀ e, q.Enabled e → ∃ q', q.step e = .ok q'

/-- If a message is put into the current buffer, this is empty, or zeros are copied over zeros. -/
def Fits (q : LogAsync) : Event → Prop
  | .log_async_get_log msg => ∀ b ∈ q.currentBuffer.bind q.bufs, msg.length < b.avail → b.Fits msg
  | .log_async_output | .log_async_exit => True

instance (q : LogAsync) (e : Event) : Decidable (q.Fits e) :=
  match e with
  | .log_async_get_log msg => inferInstanceAs
      (Decidable (∀ b ∈ q.currentBuffer.bind q.bufs, msg.length < b.avail → b.Fits msg))
  | .log_async_output | .log_async_exit => inferInstanceAs (Decidable True)

instance (q : LogAsync) (e : Event) : Decidable ((machine.guard Fits).enabled q e) :=
  inferInstanceAs (Decidable (q.Enabled e ∧ q.Fits e))

/-- The invariant of the pointers. -/
def Inv (q : LogAsync) : Prop := ∃ s, q.Owns s ∧ q.Phase s

variable {q q' : LogAsync} {s s' : Slots} {b : Buffer} {msg : List UInt8} {l : List ℕ} {e : Event}
  {es : List Event}

/-! ## Calls -/

theorem fits_iff (ho : q.Owns s) (hb : q.bufs s.current = some b) :
    q.Fits (.log_async_get_log msg) ↔ (msg.length < b.avail → b.Fits msg) := by
  simp [Fits, ho.currentBuffer, hb]

/-- A message is the content of a new buffer. -/
theorem content_init_append (he : msg.length < AYSNC_BUF_SIZE) :
    (Buffer.init.append msg).content = msg :=
  (Buffer.content_append_eq_iff Buffer.valid_init he).mpr (.inl rfl)

/-- A call with a message. -/
structure Logs (q : LogAsync) (s : Slots) (msg : List UInt8) (q' : LogAsync) (s' : Slots) :
    Prop where
  owns : q'.Owns s'
  phase : q'.Phase s'
  msgs : q'.msgs = q.msgs ++ [msg]
  bytes_iff : q'.bytes s' = q.bytes s ++ msg ↔ q.Fits (.log_async_get_log msg)

theorem ne_current (ho : q.Owns s) : ∀ p ∈ s.spare ++ s.listed ++ s.taken, p ≠ s.current :=
  fun _ hp heq => (List.nodup_cons.mp ho.live.nodup).1 (heq ▸ hp)

theorem ne_mallocs (ho : q.Owns s) : ∀ p ∈ s.owned, p ≠ q.mallocs :=
  fun _ hp heq => ho.live.not_mem_mallocs (heq ▸ hp)

theorem not_listed_of_taken (ho : q.Owns s) : ∀ p ∈ s.taken, p ∉ s.listed := by
  intro p htaken hlisted
  have hnodup := (List.nodup_cons.mp ho.live.nodup).2
  exact List.disjoint_of_nodup_append hnodup (List.mem_append_right _ hlisted) htaken

theorem Phase.unwritten_subset (hp : q.Phase s) : s.unwritten ⊆ s.taken := by
  cases hp with
  | write _ _ _ _ _ hsuffix => exact hsuffix.subset
  | idle _ _ _ _ _ hunwritten | rest _ _ _ hunwritten | free _ _ _ _ hunwritten
  | freed _ _ _ hunwritten => exact hunwritten ▸ List.nil_subset _

theorem logs_room (ho : q.Owns s) (hp : q.Phase s) (hb : q.bufs s.current = some b)
    (havail : msg.length < b.avail) : q.Logs s msg (q.appendCurrent s.current b msg) s where
  owns := ho.getLog_room hb
  phase := hp.congr rfl rfl rfl rfl rfl
    (fun p hp => Function.update_of_ne (ne_current ho p (by simp [hp])) _ _) fun _ _ => rfl
  msgs := rfl
  bytes_iff := by
    obtain ⟨b', hb', hvalid⟩ := ho.live.buf _ ho.current_mem
    obtain rfl := Option.some.inj (hb.symm.trans hb')
    have hsame : ∀ p ∈ s.spare ++ s.listed ++ s.taken,
        (q.appendCurrent s.current b msg).bufs p = q.bufs p :=
      fun p hmem => Function.update_of_ne (ne_current ho p hmem) _ _
    have hunwritten : (q.appendCurrent s.current b msg).contents s.unwritten =
        q.contents s.unwritten :=
      contents_congr fun p hmem => hsame p (by simp [hp.unwritten_subset hmem])
    have hlisted : (q.appendCurrent s.current b msg).contents s.listed = q.contents s.listed :=
      contents_congr fun p hmem => hsame p (by simp [hmem])
    have hcurrent : (q.appendCurrent s.current b msg).content s.current = (b.append msg).content :=
      content_eq (Function.update_self _ _ _)
    rw [fits_iff ho hb, bytes, bytes, hunwritten, hlisted, hcurrent, content_eq hb,
      List.append_assoc _ _ msg]
    refine (List.append_right_inj _).trans ((Buffer.content_append_eq_iff hvalid havail).trans ?_)
    exact ⟨fun h _ => h, fun h => h havail⟩

theorem logs_full {nodes : Nodes Addr} (ho : q.Owns s) (hp : q.Phase s)
    (hb : q.bufs s.current = some b) (hfull : ¬msg.length < b.avail)
    (he : msg.length < AYSNC_BUF_SIZE)
    (hring : Nodes.Ring nodes .buffers ((s.listed ++ [s.current]).map Addr.node))
    (hframe : Nodes.Frame q.nodes nodes (.node s.current :: .buffers :: s.listed.map Addr.node)) :
    q.Logs s msg (q.appendNew nodes msg) (s.push q.mallocs) where
  owns := ho.getLog_full hring hframe
  phase := by
    refine hp.congr rfl rfl rfl rfl rfl (fun p hp => ?_) fun a ha => ?_
    · exact Function.update_of_ne (ne_mallocs ho p (by simp [Slots.owned, hp])) _ _
    · have hnew : a ≠ .node q.mallocs := by
        rintro rfl
        have htaken : q.mallocs ∈ s.taken := by simpa using ha
        exact ne_mallocs ho _ (by simp [Slots.owned, htaken]) rfl
      have hold : a ∉ Addr.node s.current :: .buffers :: s.listed.map Addr.node := by
        rcases List.mem_cons.mp ha with rfl | ha
        · simp
        · obtain ⟨p, htaken, rfl⟩ := List.mem_map.mp ha
          have hcurrent := ne_current ho p (by simp [htaken])
          have hlisted := not_listed_of_taken ho p htaken
          simpa using ⟨hcurrent, hlisted⟩
      exact (Nodes.next_congr (Function.update_of_ne hnew _ _)).trans (hframe.next hold)
  msgs := rfl
  bytes_iff := by
    have hsame : ∀ p ∈ s.owned, (q.appendNew nodes msg).bufs p = q.bufs p :=
      fun p hmem => Function.update_of_ne (ne_mallocs ho p hmem) _ _
    have hunwritten : (q.appendNew nodes msg).contents s.unwritten = q.contents s.unwritten :=
      contents_congr fun p hmem => hsame p (by simp [Slots.owned, hp.unwritten_subset hmem])
    have hlisted : (q.appendNew nodes msg).contents (s.listed ++ [s.current]) =
        q.contents (s.listed ++ [s.current]) :=
      contents_congr fun p hmem => hsame p <| by
        rcases List.mem_append.mp hmem with hmem | hmem
        · simp [Slots.owned, hmem]
        · exact List.mem_singleton.mp hmem ▸ ho.current_mem
    have hcurrent : (q.appendNew nodes msg).content q.mallocs = msg :=
      (content_eq (Function.update_self _ _ _)).trans (content_init_append he)
    have hcontents : q.contents (s.listed ++ [s.current]) =
        q.contents s.listed ++ q.content s.current := by simp [contents]
    refine iff_of_true ?_ ((fits_iff ho hb).mpr fun havail => absurd havail hfull)
    rw [bytes, Slots.push, hunwritten, hlisted, hcurrent, hcontents, bytes, ← List.append_assoc]
    rfl

theorem exists_getLog (ho : q.Owns s) (hp : q.Phase s) (he : msg.length < AYSNC_BUF_SIZE) :
    ∃ q' s', q.log_async_get_log msg = .ok q' ∧ q.Logs s msg q' s' := by
  obtain ⟨b, hb, -⟩ := ho.live.buf _ ho.current_mem
  by_cases havail : msg.length < b.avail
  · exact ⟨_, s, getLog_room ho hb havail, logs_room ho hp hb havail⟩
  · obtain ⟨nodes, hring, hframe, hlog⟩ := getLog_full ho hb havail
    exact ⟨_, _, hlog, logs_full ho hp hb havail he hring hframe⟩

/-! ## Runs -/

theorem exists_step (ho : q.Owns s) (hp : q.Phase s) (he : q.Enabled e) : ∃ q' s',
    q.step e = .ok q' ∧ q'.Owns s' ∧ q'.Phase s' ∧
      (q.bytes s = q.msgs.flatten → (q'.bytes s' = q'.msgs.flatten ↔ q.Fits e)) := by
  cases e with
  | log_async_get_log msg =>
    obtain ⟨q', s', hlog, howns, hphase, hmsgs, hbytes⟩ := exists_getLog ho hp he
    refine ⟨q', s', hlog, howns, hphase, fun h => ?_⟩
    rw [hmsgs, List.flatten_append, List.flatten_singleton, ← h]
    exact hbytes
  | log_async_output =>
    obtain ⟨q', s', houtput, howns, hphase, hbytes, hmsgs⟩ := exists_output ho hp he
    refine ⟨q', s', houtput, howns, hphase, fun h => iff_of_true ?_ trivial⟩
    rw [hbytes, hmsgs, h]
  | log_async_exit =>
    exact ⟨_, s, rfl, ho.congr rfl rfl rfl rfl rfl,
      hp.congr rfl rfl rfl rfl rfl (fun _ _ => rfl) fun _ _ => rfl, fun h => iff_of_true h trivial⟩

theorem preserves_inv : machine.Preserves Inv := by
  rintro q e q' ⟨s, ho, hp⟩ he hs
  obtain ⟨q₁, s', hs', howns, hphase, -⟩ := exists_step ho hp he
  obtain rfl := Except.ok.inj (hs.symm.trans hs')
  exact ⟨s', howns, hphase⟩

theorem listed_iff (ho : q.Owns s) : q.Listed l ↔ l = s.listed := by
  obtain ⟨first, hfirst, hwalk⟩ := ho.ring.walk
  constructor
  · rintro ⟨first', hfirst', hwalk'⟩
    obtain rfl := Option.some.inj (hfirst.symm.trans hfirst')
    exact List.map_injective_iff.mpr (fun _ _ => Addr.node.inj)
      (hwalk'.unique hwalk (by simp) (by simp))
  · rintro rfl
    exact ⟨first, hfirst, hwalk⟩

theorem unwritten_iff (hp : q.Phase s) : q.Unwritten l ↔ l = s.unwritten := by
  cases hp with
  | idle hpc _ _ _ _ hunwritten =>
    rw [hunwritten]
    rcases hpc with hpc | hpc | hpc <;> simp only [Unwritten, hpc]
  | rest hpc _ _ hunwritten =>
    rw [hunwritten]
    rcases hpc with hpc | hpc <;> simp only [Unwritten, hpc]
  | free hpc _ _ _ hunwritten | freed hpc _ _ hunwritten =>
    rw [hunwritten]
    simp only [Unwritten, hpc]
  | write hpc _ _ _ hrest _ =>
    simp only [Unwritten, hpc]
    refine ⟨fun hwalk => ?_, fun h => h ▸ hrest⟩
    exact List.map_injective_iff.mpr (fun _ _ => Addr.node.inj)
      (hwalk.unique hrest (by simp) (by simp))

/-- With the pointers in order, it depends on the bytes only. -/
theorem intact_iff (ho : q.Owns s) (hp : q.Phase s) : q.Intact ↔ q.bytes s = q.msgs.flatten := by
  constructor
  · rintro ⟨-, ⟨unwritten, listed, current, hunwritten, hlisted, hcurrent, hmsgs⟩, -⟩
    rw [(unwritten_iff hp).mp hunwritten, (listed_iff ho).mp hlisted,
      ← Option.some.inj (ho.currentBuffer.symm.trans hcurrent)] at hmsgs
    exact hmsgs
  · intro h
    refine ⟨ho.currentBuffer ▸ Option.some_ne_none _, ⟨_, _, _, (unwritten_iff hp).mpr rfl,
      (listed_iff ho).mpr rfl, ho.currentBuffer, h⟩, fun e he => ?_⟩
    obtain ⟨q', _, hs, -⟩ := exists_step ho hp he
    exact ⟨q', hs⟩

theorem intact_step_iff (hi : q.Inv) (h : q.Intact) (he : q.Enabled e) (hs : q.step e = .ok q') :
    q'.Intact ↔ q.Fits e := by
  obtain ⟨s, ho, hp⟩ := hi
  obtain ⟨q₁, s', hs', howns, hphase, hbytes⟩ := exists_step ho hp he
  obtain rfl := Except.ok.inj (hs.symm.trans hs')
  exact (intact_iff howns hphase).trans (hbytes ((intact_iff ho hp).mp h))

def Slots.init : Slots where
  current := 0
  spare := []
  listed := []
  taken := []
  unwritten := []

theorem owns_init : Owns .init .init where
  currentBuffer := rfl
  nextBuffer := Option.some_ne_none _
  ring := ⟨List.nodup_singleton _, rfl, rfl⟩
  head := Option.some_ne_none _
  live :=
    { nodup := List.nodup_singleton _
      lt := fun p hp => by
        obtain rfl := List.mem_singleton.mp hp
        exact Nat.zero_lt_two
      node := fun p hp => by
        obtain rfl := List.mem_singleton.mp hp
        exact Option.some_ne_none _
      buf := fun p hp => by
        obtain rfl := List.mem_singleton.mp hp
        exact ⟨_, rfl, Buffer.valid_init⟩ }

theorem phase_init : Phase .init .init := .rest (.inl rfl) rfl rfl rfl

theorem inv_init : Inv .init := ⟨_, owns_init, phase_init⟩

theorem intact_init : Intact .init := (intact_iff owns_init phase_init).mpr rfl

/-- In a run the log file and the buffers contain all messages if and only if no message is copied
over other bytes. -/
theorem intact_iff_fits (hr : machine.Run .init es q) :
    machine.Along Intact .init es ↔ (machine.guard Fits).Run .init es q :=
  Machine.along_iff_run_guard preserves_inv (fun _ _ _ hi h he hs => intact_step_iff hi h he hs) hr
    inv_init intact_init

theorem intact_iff_fits_iteration : ∃ q,
    machine.Run .init (.log_async_get_log (asciiBytes "ab") ::
      List.replicate 8 .log_async_output ++ [.log_async_get_log (asciiBytes "cd")]) q ∧
    machine.Along Intact .init (.log_async_get_log (asciiBytes "ab") ::
      List.replicate 8 .log_async_output ++ [.log_async_get_log (asciiBytes "cd")]) ∧
    q.output = asciiBytes "ab" ∧ q.currentBuffer.map q.content = some (asciiBytes "cd") := by
  have hex : ((machine.guard Fits).exec .init (.log_async_get_log (asciiBytes "ab") ::
      List.replicate 8 .log_async_output ++ [.log_async_get_log (asciiBytes "cd")])).map
      (fun q => (q.output, q.currentBuffer.map q.content)) =
      some (asciiBytes "ab", some (asciiBytes "cd")) := by decide
  obtain ⟨q, hq, heq⟩ := Option.map_eq_some_iff.mp hex
  obtain ⟨houtput, hcurrent⟩ := Prod.mk.inj heq
  have hr := Machine.run_of_exec hq
  exact ⟨q, hr.of_guard, (intact_iff_fits hr.of_guard).mpr hr, houtput, hcurrent⟩

/-- The second message is copied over the first one. -/
theorem exists_not_intact : ∃ q,
    machine.Run .init
      [.log_async_get_log (asciiBytes "ab"), .log_async_get_log (asciiBytes "cd")] q ∧
    ¬q.Intact ∧ q.currentBuffer.map q.content = some (asciiBytes "cd" ++ [0, 0]) := by
  have hex : (machine.exec .init [.log_async_get_log (asciiBytes "ab"),
      .log_async_get_log (asciiBytes "cd")]).map
      (fun q => (q.currentBuffer.map q.content, q.msgs)) =
      some (some (asciiBytes "cd" ++ [0, 0]), [asciiBytes "ab", asciiBytes "cd"]) := by decide
  obtain ⟨q, hq, heq⟩ := Option.map_eq_some_iff.mp hex
  obtain ⟨hcurrent, hmsgs⟩ := Prod.mk.inj heq
  have hr := Machine.run_of_exec hq
  obtain ⟨s, ho, hp⟩ := hr.preserves preserves_inv inv_init
  rw [ho.currentBuffer, Option.map_some, Option.some.injEq] at hcurrent
  refine ⟨q, hr, fun h => ?_, by rw [ho.currentBuffer, Option.map_some, hcurrent]⟩
  have hsuffix : q.content s.current <:+ q.msgs.flatten :=
    (intact_iff ho hp).mp h ▸ List.suffix_append _ _
  rw [hcurrent, hmsgs] at hsuffix
  revert hsuffix
  decide

end LogAsync

end CodingDemo.Libc
