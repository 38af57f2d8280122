import CodingDemo.Logging.LogAsync.Memory

/-!
# The backend of the asynchronous logger

A step of the backend moves buffers from one place to another. No bytes are lost in this, and the
order of the bytes stays the same.

## Main definitions

* `bytes`: what has been handed to the log file, and what is in the buffers after it

## Main results

* `take_eq`: what the critical section of the backend does
* `exists_output`: a step of the backend keeps all bytes
-/

namespace CodingDemo.Libc.LogAsync

open Nodes (Ring Walk Frame)

def content (q : LogAsync) (p : ℕ) : List UInt8 := (q.bufs p).elim [] Buffer.content

def contents (q : LogAsync) (l : List ℕ) : List UInt8 := l.flatMap q.content

/-- The bytes in the log file and in the buffers, in order. -/
def bytes (q : LogAsync) (s : Slots) : List UInt8 :=
  q.output ++ q.contents s.unwritten ++ q.contents s.listed ++ q.content s.current

/-- All pointers lead to the buffers in their places, and the bytes are the same as before. -/
structure Keeps (q : LogAsync) (s : Slots) (q' : LogAsync) (s' : Slots) : Prop where
  owns : q'.Owns s'
  phase : q'.Phase s'
  bytes : q'.bytes s' = q.bytes s
  msgs : q'.msgs = q.msgs

variable {q q' : LogAsync} {s : Slots} {l : List ℕ} {p : ℕ}

theorem content_eq {b : Buffer} (h : q.bufs p = some b) : q.content p = b.content := by
  rw [content, h]
  rfl

theorem content_congr (h : q'.bufs p = q.bufs p) : q'.content p = q.content p := by
  rw [content, content, h]

theorem contents_congr (h : ∀ p ∈ l, q'.bufs p = q.bufs p) : q'.contents l = q.contents l :=
  List.flatMap_congr fun p hp => content_congr (h p hp)

/-! ## The critical section -/

/-- The places when the backend takes the list and the current buffer. -/
def Slots.take (s : Slots) (spare : ℕ) : Slots where
  current := spare
  spare := []
  listed := []
  taken := s.listed ++ [s.current]
  unwritten := s.listed ++ [s.current]

/-- The backend takes the list and the current buffer, and leaves its own buffer. -/
theorem take_eq (ho : q.Owns s) : ∃ nodes first,
    Ring nodes .buffersToWrite ((s.listed ++ [s.current]).map Addr.node) ∧
    Ring nodes .buffers [] ∧ (∀ a, nodes a = none ↔ q.nodes a = none) ∧
    nodes.next .buffersToWrite = some first ∧
    Walk nodes .buffersToWrite first ((s.listed ++ [s.current]).map Addr.node) ∧
    q.take = .ok
      { q with
        nodes := nodes
        currentBuffer := q.newBuffer1
        buffers_len := 0
        pc := .write first } := by
  have hcurrent : Addr.node s.current ∉ Addr.buffers :: s.listed.map Addr.node := by
    have hlisted := Slots.not_mem_listed ho.live.nodup
    simpa using hlisted
  obtain ⟨nodes₁, hpush, hring₁, hframe₁⟩ :=
    Nodes.ring_push_back ho.ring hcurrent (ho.live.node _ ho.current_mem)
  have hhead : Addr.buffersToWrite ∉
      Addr.buffers :: (s.listed.map Addr.node ++ [.node s.current]) := by simp
  obtain ⟨nodes₂, hswap, hring₂, hold, hframe₂⟩ := Nodes.ring_swap hring₁ (by simp) hhead
    fun hnone => ho.head ((hframe₁.live _).mp hnone)
  obtain ⟨first, hfirst, hwalk⟩ := hring₂.walk
  refine ⟨nodes₂, first, by simpa using hring₂, hold, fun a => (hframe₂.live a).trans
    (hframe₁.live a), hfirst, by simpa using hwalk, ?_⟩
  simp [take, pushBack, ptr_move, ho.currentBuffer, ho.nextBuffer, hpush, hswap, hfirst, orFreed,
    bind, Except.bind, pure, Except.pure]

theorem keeps_take {spare : ℕ} (ho : q.Owns s) (hspare : s.spare = [spare])
    (hnew : q.newBuffer1 = some spare) (hinit : q.bufs spare = some .init) (htaken : s.taken = [])
    (hunwritten : s.unwritten = []) : ∃ q', q.take = .ok q' ∧ q.Keeps s q' (s.take spare) := by
  obtain ⟨nodes, first, hring, hold, hlive, hfirst, hwalk, htake⟩ := take_eq ho
  refine ⟨_, htake, ?_⟩
  constructor
  case owns =>
    have hperm : s.owned.Perm (s.take spare).owned := by
      simpa [Slots.owned, Slots.take, hspare, htaken] using
        (List.perm_append_singleton s.current (spare :: s.listed)).symm
    exact ⟨hnew, ho.nextBuffer, hold, fun hnone => ho.head ((hlive _).mp hnone),
      ((ho.live.nodes hlive).perm hperm).congr rfl rfl rfl⟩
  case phase => exact .write rfl rfl hfirst hwalk hwalk (List.suffix_refl _)
  case bytes =>
    have hcontent : q.content spare = [] := content_eq hinit
    have hbytes : q.bytes (s.take spare) = q.bytes s := by
      simp [bytes, Slots.take, hcontent, hunwritten, contents]
    exact hbytes
  case msgs => rfl

/-! ## Steps -/

/-- A step that changes none of the places that the bytes are in. -/
theorem bytes_congr {s' : Slots} (hlisted : s'.listed = s.listed)
    (hcurrent : s'.current = s.current) (hunwritten : s'.unwritten = s.unwritten)
    (hsub : s.unwritten ⊆ s.taken) (hbufs : ∀ p ∈ s.owned, q'.bufs p = q.bufs p)
    (houtput : q'.output = q.output) : q'.bytes s' = q.bytes s := by
  have hun : q'.contents s.unwritten = q.contents s.unwritten :=
    contents_congr fun p hp => hbufs p (by simp [Slots.owned, hsub hp])
  have hli : q'.contents s.listed = q.contents s.listed :=
    contents_congr fun p hp => hbufs p (by simp [Slots.owned, hp])
  have hcu : q'.content s.current = q.content s.current :=
    content_congr (hbufs _ List.mem_cons_self)
  rw [bytes, bytes, hlisted, hcurrent, hunwritten, houtput, hun, hli, hcu]

/-- The backend allocates its buffers. The second one is never used. -/
theorem keeps_alloc (ho : q.Owns s) (hspare : s.spare = []) (htaken : s.taken = [])
    (hunwritten : s.unwritten = []) :
    q.Keeps s
      { q.buf_alloc.1.buf_alloc.1 with
        newBuffer1 := some q.mallocs
        newBuffer2 := some (q.mallocs + 1)
        pc := .check }
      { s with spare := [q.mallocs] } := by
  have hbufs : ∀ p, p ≠ q.mallocs → p ≠ q.mallocs + 1 →
      q.buf_alloc.1.buf_alloc.1.bufs p = q.bufs p := by
    intro p hp hp'
    simp [buf_alloc, hp, hp']
  have hnodes : ∀ a, a ≠ .node q.mallocs → a ≠ .node (q.mallocs + 1) →
      q.buf_alloc.1.buf_alloc.1.nodes a = q.nodes a := by
    intro a ha ha'
    simp [buf_alloc, ha, ha']
  have hold : ∀ p ∈ s.owned, p ≠ q.mallocs ∧ p ≠ q.mallocs + 1 := by
    intro p hp
    have hlt := ho.live.lt p hp
    omega
  constructor
  case owns =>
    have hperm : (q.mallocs :: s.owned).Perm (Slots.owned { s with spare := [q.mallocs] }) := by
      simpa [Slots.owned, hspare] using List.Perm.swap _ _ _
    have hlive := (ho.live.alloc.alloc.sublist (List.sublist_cons_self _ _)).perm hperm
    refine ⟨ho.currentBuffer, ho.nextBuffer, ho.ring.congr fun a ha => ?_, ?_,
      hlive.congr rfl rfl rfl⟩
    · rcases List.mem_cons.mp ha with rfl | ha
      · exact hnodes .buffers (by simp) (by simp)
      · obtain ⟨p, hp, rfl⟩ := List.mem_map.mp ha
        obtain ⟨hne, hne'⟩ := hold p (by simp [Slots.owned, hp])
        exact hnodes (.node p) (by simpa using hne) (by simpa using hne')
    · have hhead := hnodes .buffersToWrite (by simp) (by simp)
      exact hhead ▸ ho.head
  case phase =>
    refine .idle (.inl rfl) rfl rfl ?_ htaken hunwritten
    simp [buf_alloc]
  case bytes =>
    refine bytes_congr rfl rfl rfl (by simp [hunwritten]) (fun p hp => ?_) rfl
    exact hbufs p (hold p hp).1 (hold p hp).2
  case msgs => rfl

/-- The backend goes on without doing anything. -/
theorem keeps_pc {pc : OutputPc} (ho : q.Owns s) (hp : Phase { q with pc := pc } s) :
    q.Keeps s { q with pc := pc } s where
  owns := ho.congr rfl rfl rfl rfl rfl
  phase := hp
  bytes := rfl
  msgs := rfl

/-- The backend ends, and its buffer is never used. -/
theorem Owns.leave_spare (ho : q.Owns s) : q.Owns { s with spare := [] } where
  currentBuffer := ho.currentBuffer
  nextBuffer := ho.nextBuffer
  ring := ho.ring
  head := ho.head
  live := ho.live.sublist
    (.cons_cons _ (((List.nil_sublist s.spare).append_right s.listed).append_right s.taken))

/-- The backend writes the next buffer. -/
theorem keeps_write {c : ℕ} {t : List ℕ} {next : Addr} (ho : q.Owns s) (hspare : s.spare = [])
    {first : Addr} (hfirst : q.nodes.next .buffersToWrite = some first)
    (hwalk : Walk q.nodes .buffersToWrite first (s.taken.map Addr.node))
    (hrest : Walk q.nodes .buffersToWrite next (t.map Addr.node))
    (hunwritten : s.unwritten = c :: t) (hsuffix : s.unwritten <:+ s.taken) :
    q.Keeps s { q with output := q.output ++ q.content c, pc := .write next }
      { s with unwritten := t } where
  owns := ⟨ho.currentBuffer, ho.nextBuffer, ho.ring, ho.head, ho.live.congr rfl rfl rfl⟩
  phase := .write rfl hspare hfirst hwalk hrest
    ((hunwritten ▸ List.suffix_cons c t : t <:+ s.unwritten).trans hsuffix)
  bytes := by
    have hcontents : q.contents s.unwritten = q.content c ++ q.contents t := by
      rw [hunwritten]
      rfl
    have hbytes : q.bytes s = q.output ++ q.content c ++ q.contents t ++ q.contents s.listed ++
        q.content s.current := by
      rw [bytes, hcontents, ← List.append_assoc]
    exact hbytes.symm
  msgs := rfl

/-- The loop that frees, with the rest of the list before it. -/
theorem phase_free {next next' : Addr} (hpc : q.pc = .free next next') (hspare : s.spare = [])
    (hwalk : Walk q.nodes .buffersToWrite next (s.taken.map Addr.node))
    (hnext : q.nodes.next next = some next') (hunwritten : s.unwritten = []) : q.Phase s := by
  cases htaken : s.taken with
  | nil =>
    rw [htaken] at hwalk
    obtain rfl : next = .buffersToWrite := hwalk
    exact .freed hpc hspare htaken hunwritten
  | cons c t =>
    rw [htaken] at hwalk
    obtain ⟨rfl, next₁, hnext₁, hwalk⟩ := hwalk
    obtain rfl := Option.some.inj (hnext.symm.trans hnext₁)
    exact .free hpc hspare htaken hwalk hunwritten

/-- A buffer that has been written is freed. -/
theorem keeps_free {c : ℕ} {t : List ℕ} {next : Addr} (ho : q.Owns s)
    (hpc : q.pc = .free (.node c) next) (hspare : s.spare = []) (htaken : s.taken = c :: t)
    (hwalk : Walk q.nodes .buffersToWrite next (t.map Addr.node)) (hunwritten : s.unwritten = []) :
    ∃ q', q.log_async_output = .ok q' ∧ q.Keeps s q' { s with taken := t } := by
  have hc : c ∈ s.owned := by simp [Slots.owned, htaken]
  have hperm : s.owned.Perm (c :: Slots.owned { s with taken := t }) := by
    rw [Slots.owned, htaken, Slots.owned, ← List.cons_append, ← List.cons_append]
    exact List.perm_middle
  obtain ⟨hnotin, -⟩ := List.nodup_cons.mp (hperm.nodup_iff.mp ho.live.nodup)
  have hne : ∀ p ∈ Slots.owned { s with taken := t }, p ≠ c := fun p hp heq => hnotin (heq ▸ hp)
  have hbufs : ∀ p, p ≠ c → Function.update q.bufs c none p = q.bufs p :=
    fun p hp => Function.update_of_ne hp _ _
  obtain ⟨nodes, hnodes⟩ : ∃ nodes, nodes = Function.update q.nodes (.node c) none := ⟨_, rfl⟩
  have hsame : ∀ a, a ≠ .node c → nodes a = q.nodes a :=
    fun a ha => hnodes ▸ Function.update_of_ne ha _ _
  have hhead : nodes .buffersToWrite ≠ none := by
    rw [hsame _ (by simp)]
    exact ho.head
  have hwalk : Walk nodes .buffersToWrite next (t.map Addr.node) := by
    refine hwalk.congr fun a ha => ?_
    obtain ⟨p, hp, rfl⟩ := List.mem_map.mp ha
    exact Nodes.next_congr (hsame _ (by simpa using hne p (by simp [Slots.owned, hp])))
  obtain ⟨next', hnext'⟩ := hwalk.exists_next hhead
  obtain ⟨b, hb, -⟩ := ho.live.buf c hc
  refine ⟨{ q with
    nodes := nodes
    bufs := Function.update q.bufs c none
    pc := .free next next' }, ?_, ?_⟩
  · simp [log_async_output, hpc, free, Addr.entry, hb, ← hnodes, hnext', orFreed, bind, Except.bind,
      pure, Except.pure]
  constructor
  case owns =>
    obtain ⟨hnodup, hlt, hnode, hbuf⟩ := (ho.live.perm hperm).sublist (List.sublist_cons_self _ _)
    refine ⟨ho.currentBuffer, ho.nextBuffer, ho.ring.congr fun a ha => hsame a ?_, hhead, hnodup,
      hlt, fun p hp => ?_, fun p hp => ?_⟩
    · rintro rfl
      have hlisted : c ∈ s.listed := by simpa using ha
      exact hne c (by simp [Slots.owned, hlisted]) rfl
    · have hnode := hnode p hp
      rwa [← hsame _ (by simpa using hne p hp)] at hnode
    · obtain ⟨b, hb, hvalid⟩ := hbuf p hp
      exact ⟨b, (hbufs p (hne p hp)).trans hb, hvalid⟩
  case phase => exact phase_free rfl hspare hwalk hnext' hunwritten
  case bytes =>
    have hbytes : q.bytes { s with taken := t } = q.bytes s := rfl
    rw [← hbytes]
    exact bytes_congr rfl rfl rfl (by simp [hunwritten]) (fun p hp => hbufs p (hne p hp)) rfl
  case msgs => rfl

/-- A step of the backend uses only buffers in their places, and keeps all bytes. -/
theorem exists_output (ho : q.Owns s) (hp : q.Phase s) (he : q.pc ≠ .done) :
    ∃ q' s', q.log_async_output = .ok q' ∧ q.Keeps s q' s' := by
  cases hp with
  | idle hpc hspare hnew hinit htaken hunwritten =>
    obtain ⟨q₁, htake, hkeeps⟩ := keeps_take ho hspare hnew hinit htaken hunwritten
    rcases hpc with hpc | hpc | hpc
    · cases hrunning : q.log_async_running
      · obtain ⟨howns, hphase, hbytes, hmsgs⟩ :=
          keeps_pc ho.leave_spare (.rest (.inr rfl) rfl htaken hunwritten)
        exact ⟨{ q with pc := .done }, _, by simp [log_async_output, hpc, hrunning],
          howns, hphase, hbytes, hmsgs⟩
      · exact ⟨{ q with pc := .lock }, s, by simp [log_async_output, hpc, hrunning],
          keeps_pc ho (.idle (.inr (.inl rfl)) hspare hnew hinit htaken hunwritten)⟩
    · by_cases hlen : q.buffers_len = 0
      · exact ⟨{ q with pc := .wait }, s, by simp [log_async_output, hpc, hlen],
          keeps_pc ho (.idle (.inr (.inr rfl)) hspare hnew hinit htaken hunwritten)⟩
      · exact ⟨q₁, _, by rw [log_async_output, hpc]; exact (if_neg hlen).trans htake, hkeeps⟩
    · exact ⟨q₁, _, by rw [log_async_output, hpc]; exact htake, hkeeps⟩
  | rest hpc hspare htaken hunwritten =>
    obtain hpc := hpc.resolve_right he
    exact ⟨_, _, by rw [log_async_output, hpc]; rfl, keeps_alloc ho hspare htaken hunwritten⟩
  | @write p first hpc hspare hfirst hwalk hrest hsuffix =>
    cases hunwritten : s.unwritten with
    | nil =>
      rw [hunwritten] at hrest
      obtain rfl : p = .buffersToWrite := hrest
      obtain ⟨next, hnext⟩ := hwalk.exists_next ho.head
      refine ⟨{ q with pc := .free first next }, s, ?_,
        keeps_pc ho (phase_free rfl hspare hwalk hnext hunwritten)⟩
      simp [log_async_output, hpc, hfirst, hnext, orFreed, bind, Except.bind, pure, Except.pure]
    | cons c t =>
      rw [hunwritten] at hrest
      obtain ⟨rfl, next, hnext, hrest⟩ := hrest
      have hc : c ∈ s.unwritten := hunwritten ▸ List.mem_cons_self
      obtain ⟨b, hb, -⟩ := ho.live.buf c (by simp [Slots.owned, hsuffix.subset hc])
      refine ⟨{ q with output := q.output ++ q.content c, pc := .write next }, _, ?_,
        keeps_write ho hspare hfirst hwalk hrest hunwritten hsuffix⟩
      simp [log_async_output, hpc, deref, Addr.entry, content, hb, hnext, orFreed, bind,
        Except.bind, pure, Except.pure]
  | free hpc hspare htaken hwalk hunwritten =>
    obtain ⟨q₁, hfree, hkeeps⟩ := keeps_free ho hpc hspare htaken hwalk hunwritten
    exact ⟨q₁, _, hfree, hkeeps⟩
  | freed hpc hspare htaken hunwritten =>
    exact ⟨{ q with pc := .alloc }, s, by simp [log_async_output, hpc],
      keeps_pc ho (.rest (.inl rfl) hspare htaken hunwritten)⟩

end CodingDemo.Libc.LogAsync
