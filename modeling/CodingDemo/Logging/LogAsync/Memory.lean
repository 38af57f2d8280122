import CodingDemo.Logging.LogAsync.Model
import Mathlib.Order.Nat

/-!
# The buffers of the asynchronous logger

Every buffer that the logger can still use has one place: it is the current one, it is in the list,
the backend has taken it, or the backend holds it to leave it in place of the current one. The
pointers always lead to these buffers, so none is used after it has been freed.

## Main definitions

* `Slots`: the places of the buffers
* `Owns`, `Phase`: the pointers lead to the buffers in their places

## Main results

* `getLog_room`, `getLog_full`: what a call does
* `Owns.getLog_room`, `Owns.getLog_full`: the places of the buffers after it
-/

namespace CodingDemo.Libc

/-- The length and the room of a buffer make up the array. -/
structure Buffer.Valid (b : Buffer) : Prop where
  buf_le : b.buf.length ≤ b.len
  size : b.len + b.avail = AYSNC_BUF_SIZE

theorem Buffer.valid_init : Buffer.init.Valid := ⟨le_rfl, Nat.zero_add _⟩

theorem Buffer.Valid.append {b : Buffer} (h : b.Valid) (msg : List UInt8) :
    (b.append msg).Valid := by
  unfold Buffer.append
  split_ifs with havail
  · refine ⟨?_, ?_⟩
    · have hle := h.buf_le
      simp only [List.length_append, List.length_drop]
      omega
    · have hsize := h.size
      dsimp only
      omega
  · exact h

namespace LogAsync

open Nodes (Ring Walk Frame)

/-- The buffers in use. -/
structure Slots where
  current : ℕ
  /-- The buffer that the backend leaves in place of the current one. -/
  spare : List ℕ
  listed : List ℕ
  /-- The buffers that the backend has taken and not freed. -/
  taken : List ℕ
  /-- Those of them that it has still to write. -/
  unwritten : List ℕ

def Slots.owned (s : Slots) : List ℕ := s.current :: (s.spare ++ s.listed ++ s.taken)

/-- The buffers are different, and have not been freed. -/
structure Live (q : LogAsync) (owned : List ℕ) : Prop where
  nodup : owned.Nodup
  lt : ∀ p ∈ owned, p < q.mallocs
  node : ∀ p ∈ owned, q.nodes (.node p) ≠ none
  buf : ∀ p ∈ owned, ∃ b, q.bufs p = some b ∧ b.Valid

/-- The pointers of the threads lead to the buffers in their places. -/
structure Owns (q : LogAsync) (s : Slots) : Prop where
  currentBuffer : q.currentBuffer = some s.current
  nextBuffer : q.nextBuffer ≠ none
  ring : Ring q.nodes .buffers (s.listed.map Addr.node)
  head : q.nodes .buffersToWrite ≠ none
  live : Live q s.owned

/-- The pointers of the backend lead to the buffers in their places. -/
inductive Phase (q : LogAsync) (s : Slots) : Prop
  /-- The backend holds a buffer. -/
  | idle {spare : ℕ} (hpc : q.pc = .check ∨ q.pc = .lock ∨ q.pc = .wait)
      (hspare : s.spare = [spare]) (hnew : q.newBuffer1 = some spare)
      (hinit : q.bufs spare = some .init) (htaken : s.taken = []) (hunwritten : s.unwritten = [])
  | rest (hpc : q.pc = .alloc ∨ q.pc = .done) (hspare : s.spare = []) (htaken : s.taken = [])
      (hunwritten : s.unwritten = [])
  | write {p first : Addr} (hpc : q.pc = .write p) (hspare : s.spare = [])
      (hfirst : q.nodes.next .buffersToWrite = some first)
      (hwalk : Walk q.nodes .buffersToWrite first (s.taken.map Addr.node))
      (hrest : Walk q.nodes .buffersToWrite p (s.unwritten.map Addr.node))
      (hsuffix : s.unwritten <:+ s.taken)
  | free {c : ℕ} {t : List ℕ} {next : Addr} (hpc : q.pc = .free (.node c) next)
      (hspare : s.spare = []) (htaken : s.taken = c :: t)
      (hwalk : Walk q.nodes .buffersToWrite next (t.map Addr.node)) (hunwritten : s.unwritten = [])
  | freed {next : Addr} (hpc : q.pc = .free .buffersToWrite next) (hspare : s.spare = [])
      (htaken : s.taken = []) (hunwritten : s.unwritten = [])

variable {q q' : LogAsync} {s : Slots} {b : Buffer} {msg : List UInt8} {l l' : List ℕ} {p : ℕ}

/-! ## Live buffers -/

theorem Live.perm (h : Live q l) (hperm : l.Perm l') : Live q l' where
  nodup := hperm.nodup_iff.mp h.nodup
  lt p hp := h.lt p (hperm.mem_iff.mpr hp)
  node p hp := h.node p (hperm.mem_iff.mpr hp)
  buf p hp := h.buf p (hperm.mem_iff.mpr hp)

theorem Live.sublist (h : Live q l) (hsub : l'.Sublist l) : Live q l' where
  nodup := h.nodup.sublist hsub
  lt p hp := h.lt p (hsub.subset hp)
  node p hp := h.node p (hsub.subset hp)
  buf p hp := h.buf p (hsub.subset hp)

/-- Where the backend is, and what the pointers are, does not matter. -/
theorem Live.congr (h : Live q l) (hnodes : q'.nodes = q.nodes) (hbufs : q'.bufs = q.bufs)
    (hmallocs : q'.mallocs = q.mallocs) : Live q' l where
  nodup := h.nodup
  lt p hp := hmallocs.symm ▸ h.lt p hp
  node p hp := hnodes.symm ▸ h.node p hp
  buf p hp := hbufs.symm ▸ h.buf p hp

theorem Live.not_mem_mallocs (h : Live q l) : q.mallocs ∉ l :=
  fun hmem => lt_irrefl _ (h.lt _ hmem)

/-- A buffer is live when it has been allocated. -/
theorem Live.alloc (h : Live q l) : Live q.buf_alloc.1 (q.mallocs :: l) where
  nodup := List.nodup_cons.mpr ⟨h.not_mem_mallocs, h.nodup⟩
  lt p hp := by
    rcases List.mem_cons.mp hp with rfl | hp
    · exact Nat.lt_succ_self _
    · exact (h.lt p hp).trans (Nat.lt_succ_self _)
  node p hp := by
    simp only [buf_alloc, Function.update_apply]
    split_ifs with heq
    · exact Option.some_ne_none _
    · exact h.node p ((List.mem_cons.mp hp).resolve_left fun hp => heq (hp ▸ rfl))
  buf p hp := by
    simp only [buf_alloc, Function.update_apply]
    split_ifs with heq
    · exact ⟨_, rfl, Buffer.valid_init⟩
    · exact h.buf p ((List.mem_cons.mp hp).resolve_left heq)

/-- The nodes may be changed in place. -/
theorem Live.nodes {nodes : Nodes Addr} (h : Live q l)
    (hlive : ∀ a, nodes a = none ↔ q.nodes a = none) : Live { q with nodes := nodes } l :=
  ⟨h.nodup, h.lt, fun p hp hnone => h.node p hp ((hlive _).mp hnone), h.buf⟩

theorem Live.append (h : Live q l) (hvalid : b.Valid) (p : ℕ) (msg : List UInt8) :
    Live { q with bufs := Function.update q.bufs p (some (b.append msg)) } l where
  nodup := h.nodup
  lt := h.lt
  node := h.node
  buf p' hp' := by
    simp only [Function.update_apply]
    split_ifs
    · exact ⟨_, rfl, hvalid.append msg⟩
    · exact h.buf p' hp'

/-! ## Calls -/

theorem Owns.current_mem (_ : q.Owns s) : s.current ∈ s.owned := List.mem_cons_self

theorem Slots.not_mem_listed (h : s.owned.Nodup) : s.current ∉ s.listed := by
  intro hmem
  exact (List.nodup_cons.mp h).1 (by simp [hmem])

/-- The state when the message has been copied to the current buffer. -/
def appendCurrent (q : LogAsync) (p : ℕ) (b : Buffer) (msg : List UInt8) : LogAsync :=
  { q with
    msgs := q.msgs ++ [msg]
    bufs := Function.update q.bufs p (some (b.append msg)) }

/-- The state when the message has been copied to a new buffer. -/
def appendNew (q : LogAsync) (nodes : Nodes Addr) (msg : List UInt8) : LogAsync :=
  { q with
    msgs := q.msgs ++ [msg]
    nodes := Function.update nodes (.node q.mallocs) (some ⟨.node q.mallocs, .node q.mallocs⟩)
    bufs := Function.update q.bufs q.mallocs (some (Buffer.init.append msg))
    mallocs := q.mallocs + 1
    buffers_len := q.buffers_len + 1
    currentBuffer := some q.mallocs }

/-- There is room in the current buffer. -/
theorem getLog_room (ho : q.Owns s) (hb : q.bufs s.current = some b)
    (havail : msg.length < b.avail) :
    q.log_async_get_log msg = .ok (q.appendCurrent s.current b msg) := by
  simp [log_async_get_log, appendCurrent, deref, append, ho.currentBuffer, hb, orFreed, havail,
    bind, Except.bind, pure, Except.pure]

/-- The current buffer is full. -/
theorem getLog_full (ho : q.Owns s) (hb : q.bufs s.current = some b)
    (hfull : ¬msg.length < b.avail) : ∃ nodes,
      Ring nodes .buffers ((s.listed ++ [s.current]).map Addr.node) ∧
      Frame q.nodes nodes (.node s.current :: .buffers :: s.listed.map Addr.node) ∧
      q.log_async_get_log msg = .ok (q.appendNew nodes msg) := by
  have hcurrent : Addr.node s.current ∉ Addr.buffers :: s.listed.map Addr.node := by
    have hlisted := Slots.not_mem_listed ho.live.nodup
    simpa using hlisted
  obtain ⟨nodes, hpush, hring, hframe⟩ :=
    Nodes.ring_push_back ho.ring hcurrent (ho.live.node _ ho.current_mem)
  refine ⟨nodes, by simpa using hring, hframe, ?_⟩
  simp [log_async_get_log, appendNew, deref, append, nextCurrent, pushBack, buf_alloc,
    ho.currentBuffer, hb, orFreed, hfull, hpush, ho.nextBuffer, bind, Except.bind, pure,
    Except.pure]

theorem Owns.getLog_room (ho : q.Owns s) (hb : q.bufs s.current = some b) :
    Owns (q.appendCurrent s.current b msg) s := by
  obtain ⟨b', hb', hvalid⟩ := ho.live.buf _ ho.current_mem
  obtain rfl := Option.some.inj (hb.symm.trans hb')
  exact ⟨ho.currentBuffer, ho.nextBuffer, ho.ring, ho.head,
    (ho.live.append hvalid s.current msg).congr rfl rfl rfl⟩

/-- The places when a full buffer is put into the list. -/
def Slots.push (s : Slots) (current : ℕ) : Slots :=
  { s with current := current, listed := s.listed ++ [s.current] }

theorem Slots.perm_push (s : Slots) (current : ℕ) :
    (current :: s.owned).Perm (s.push current).owned := by
  have hsplit : s.spare ++ (s.listed ++ [s.current]) ++ s.taken =
      (s.spare ++ s.listed) ++ s.current :: s.taken := by simp
  rw [owned, owned, push, hsplit]
  exact (List.perm_middle.symm).cons current

theorem Owns.getLog_full {nodes : Nodes Addr} (ho : q.Owns s)
    (hring : Ring nodes .buffers ((s.listed ++ [s.current]).map Addr.node))
    (hframe : Frame q.nodes nodes (.node s.current :: .buffers :: s.listed.map Addr.node)) :
    Owns (q.appendNew nodes msg) (s.push q.mallocs) where
  currentBuffer := rfl
  nextBuffer := ho.nextBuffer
  ring := by
    refine hring.congr fun a ha => Function.update_of_ne ?_ _ _
    rintro rfl
    have hmem : q.mallocs ∈ s.owned := by
      simp only [List.mem_cons, reduceCtorEq, false_or, List.mem_map, Addr.node.injEq,
        exists_eq_right, List.mem_append, List.not_mem_nil, or_false] at ha
      rcases ha with ha | ha
      · simp [Slots.owned, ha]
      · exact ha ▸ ho.current_mem
    exact ho.live.not_mem_mallocs hmem
  head := by
    have hhead : nodes .buffersToWrite ≠ none := fun hnone => ho.head ((hframe.live _).mp hnone)
    simpa [appendNew, Function.update_apply] using hhead
  live := by
    have halloc := (ho.live.nodes hframe.live).alloc.perm (s.perm_push q.mallocs)
    refine (halloc.append Buffer.valid_init q.mallocs msg).congr rfl ?_ rfl
    simp [appendNew, buf_alloc]

/-- Where the backend is does not matter to the places of the buffers. -/
theorem Owns.congr (ho : q.Owns s) (hnodes : q'.nodes = q.nodes) (hbufs : q'.bufs = q.bufs)
    (hmallocs : q'.mallocs = q.mallocs) (hcurrent : q'.currentBuffer = q.currentBuffer)
    (hnext : q'.nextBuffer = q.nextBuffer) : q'.Owns s where
  currentBuffer := hcurrent.trans ho.currentBuffer
  nextBuffer := hnext.symm ▸ ho.nextBuffer
  ring := hnodes.symm ▸ ho.ring
  head := hnodes.symm ▸ ho.head
  live := ho.live.congr hnodes hbufs hmallocs

/-- The backend does not see what is done to other buffers and nodes. -/
theorem Phase.congr {s' : Slots} (h : q.Phase s) (hpc : q'.pc = q.pc)
    (hnew : q'.newBuffer1 = q.newBuffer1) (hspare : s'.spare = s.spare)
    (htaken : s'.taken = s.taken) (hunwritten : s'.unwritten = s.unwritten)
    (hbufs : ∀ p ∈ s.spare, q'.bufs p = q.bufs p)
    (hnext : ∀ a ∈ .buffersToWrite :: s.taken.map Addr.node, q'.nodes.next a = q.nodes.next a) :
    q'.Phase s' := by
  cases h with
  | @idle spare hpc' hspare' hnew' hinit htaken' hunwritten' =>
    have hbuf := hbufs spare (hspare' ▸ List.mem_cons_self)
    exact .idle (hpc.symm ▸ hpc') (hspare.trans hspare') (hnew.trans hnew') (hbuf.trans hinit)
      (htaken.trans htaken') (hunwritten.trans hunwritten')
  | rest hpc' hspare' htaken' hunwritten' =>
    exact .rest (hpc.symm ▸ hpc') (hspare.trans hspare') (htaken.trans htaken')
      (hunwritten.trans hunwritten')
  | write hpc' hspare' hfirst hwalk hrest hsuffix =>
    obtain ⟨hhead, hnodes⟩ := List.forall_mem_cons.mp hnext
    have hsub : s.unwritten.map Addr.node ⊆ s.taken.map Addr.node :=
      List.map_subset _ hsuffix.subset
    refine .write (hpc.trans hpc') (hspare.trans hspare') (hhead.trans hfirst) ?_ ?_ ?_
    · exact htaken ▸ hwalk.congr hnodes
    · exact hunwritten ▸ hrest.congr fun a ha => hnodes a (hsub ha)
    · exact htaken ▸ hunwritten ▸ hsuffix
  | @free c t next hpc' hspare' htaken' hwalk hunwritten' =>
    refine .free (hpc.trans hpc') (hspare.trans hspare') (htaken.trans htaken')
      (hwalk.congr fun a ha => hnext a ?_) (hunwritten.trans hunwritten')
    rw [htaken', List.map_cons]
    exact List.mem_cons_of_mem _ (List.mem_cons_of_mem _ ha)
  | freed hpc' hspare' htaken' hunwritten' =>
    exact .freed (hpc.trans hpc') (hspare.trans hspare') (htaken.trans htaken')
      (hunwritten.trans hunwritten')

end LogAsync

end CodingDemo.Libc
