import CodingDemo.Logging.AsyncLogging.Model
import CodingDemo.Text.Ascii

/-!
# The lines in the buffers

No line is lost as long as every buffer that is used is there. The backend moves its first buffer to
the place of the current one in each iteration, but it never gets a new one: the buffers that it
creates at the end of an iteration are other variables.

## Main definitions

* `NoLoss`: there is a current buffer, and no line is lost
* `Restocked`: the backend has a buffer when it takes the current one

## Main results

* `lines_eq`: every line is in the file or in a buffer
* `noLoss_iff_restocked`: in which runs there is always a current buffer
-/

namespace CodingDemo.Libcpp.AsyncLogging

/-- There is a current buffer, and each line is in the file or in a buffer. -/
def NoLoss (q : AsyncLogging) : Prop :=
  q.currentBuffer ≠ none ∧ q.output ++ q.unwritten ++ q.pending = q.lines.flatten

/-- The backend has a buffer of its own when it takes the current one. -/
def Restocked (q : AsyncLogging) (e : Event) : Prop :=
  e = .threadFunc → q.Swaps → q.newBuffer1 ≠ none

instance (q : AsyncLogging) (e : Event) : Decidable ((machine.guard Restocked).enabled q e) :=
  inferInstanceAs (Decidable (q.Enabled e ∧ (e = .threadFunc → q.Swaps → q.newBuffer1 ≠ none)))

/-! ## The invariant -/

/-- The invariant of the buffers. -/
structure Inv (q : AsyncLogging) : Prop where
  lines_eq : q.output ++ q.unwritten ++ q.pending = q.lines.flatten
  nextBuffer : content q.nextBuffer = []
  newBuffer1 : content q.newBuffer1 = []
  newBuffer2 : content q.newBuffer2 = []
  buffersToWrite : (∀ i, q.pc ≠ .write i) → q.buffersToWrite = []

variable {q q' : AsyncLogging} {logline : List UInt8} {e : Event} {es : List Event}

theorem unwritten_of_not_write (h : q.Inv) (hpc : ∀ i, q.pc ≠ .write i) : q.unwritten = [] := by
  rw [unwritten, h.buffersToWrite hpc]
  exact congrArg contents List.drop_nil

theorem inv_append (h : q.Inv) (hq : Appended logline q q') : q'.Inv where
  lines_eq := by
    have hunwritten : q'.unwritten = q.unwritten := by
      rw [unwritten, unwritten, hq.buffersToWrite, written, written, hq.pc]
    rw [hq.output, hunwritten, hq.pending, hq.lines, List.flatten_append, ← h.lines_eq]
    simp
  nextBuffer := hq.nextBuffer
  newBuffer1 := hq.newBuffer1 ▸ h.newBuffer1
  newBuffer2 := hq.newBuffer2 ▸ h.newBuffer2
  buffersToWrite hpc := by
    rw [hq.buffersToWrite]
    exact h.buffersToWrite (hq.pc ▸ hpc)

theorem inv_swap (h : q.Inv) (hswaps : q.Swaps) (hq : q.Swapped q') : q'.Inv where
  lines_eq := by
    have hpending : q'.pending = [] := by
      rw [pending, hq.buffers, h.buffersToWrite hswaps.not_write, hq.currentBuffer, h.newBuffer1]
      rfl
    rw [hq.output, hq.unwritten, hpending, hq.lines, ← h.lines_eq,
      unwritten_of_not_write h hswaps.not_write, List.append_nil, List.append_nil]
  nextBuffer := by
    rcases hq.spare with ⟨hnext, -⟩ | ⟨hnext, -⟩
    · exact hnext ▸ h.nextBuffer
    · exact hnext ▸ h.newBuffer2
  newBuffer1 := by
    rw [hq.newBuffer1]
    rfl
  newBuffer2 := by
    rcases hq.spare with ⟨-, hnew⟩ | ⟨-, hnew⟩
    · exact hnew ▸ h.newBuffer2
    · rw [hnew]
      rfl
  buffersToWrite hpc := absurd hq.pc (hpc 0)

/-- Outside of the loop that writes, it does not matter where the backend is. -/
theorem Inv.setPc (h : q.Inv) (hpc : ∀ i, q.pc ≠ .write i) (pc : Pc) : Inv { q with pc := pc } where
  lines_eq := by
    have hunwritten : unwritten { q with pc := pc } = [] := by
      rw [unwritten, h.buffersToWrite hpc]
      exact congrArg contents List.drop_nil
    rw [hunwritten, ← unwritten_of_not_write h hpc]
    exact h.lines_eq
  nextBuffer := h.nextBuffer
  newBuffer1 := h.newBuffer1
  newBuffer2 := h.newBuffer2
  buffersToWrite _ := h.buffersToWrite hpc

/-- The bytes of a buffer that is written leave those that are unwritten. -/
theorem unwritten_write {i : ℕ} {buffer : LargeBuffer} (hpc : q.pc = .write i)
    (hbuffer : q.buffersToWrite[i]? = some (some buffer)) :
    q.unwritten = buffer.data ++
      unwritten { q with output := q.output ++ buffer.data, pc := .write (i + 1) } := by
  obtain ⟨hlt, hget⟩ := List.getElem?_eq_some_iff.mp hbuffer
  rw [unwritten, written, hpc]
  dsimp only
  rw [List.drop_eq_getElem_cons hlt, hget]
  rfl

theorem unwritten_clear {i : ℕ} (hpc : q.pc = .write i) (hend : q.buffersToWrite[i]? = none) :
    q.unwritten = [] := by
  rw [unwritten, written, hpc]
  dsimp only
  rw [List.drop_eq_nil_of_le (List.getElem?_eq_none_iff.mp hend)]
  rfl

theorem inv_backendStep (h : q.Inv) (hs : BackendStep q q') : q'.Inv := by
  cases hs with
  | check hpc | wait hpc | refill hpc => exact h.setPc (by simp [hpc]) _
  | swap hswaps hq => exact inv_swap h hswaps hq
  | @write i buffer hpc hbuffer =>
    refine ⟨?_, h.nextBuffer, h.newBuffer1, h.newBuffer2, fun hpc' => absurd rfl (hpc' (i + 1))⟩
    have hlines := h.lines_eq
    rw [unwritten_write hpc hbuffer, ← List.append_assoc q.output] at hlines
    exact hlines
  | clear hpc hend =>
    refine ⟨?_, h.nextBuffer, h.newBuffer1, h.newBuffer2, fun _ => rfl⟩
    have hlines := h.lines_eq
    rw [unwritten_clear hpc hend] at hlines
    exact hlines

theorem inv_step (h : q.Inv) (he : q.Enabled e) (hs : q.step e = .ok q') : q'.Inv := by
  cases e with
  | append logline => exact inv_append h (appended_append h.nextBuffer he hs)
  | threadFunc => exact inv_backendStep h (backendStep_threadFunc he hs)
  | stop =>
    obtain rfl := Except.ok.inj hs
    exact ⟨h.lines_eq, h.nextBuffer, h.newBuffer1, h.newBuffer2, h.buffersToWrite⟩

theorem preserves_inv : machine.Preserves Inv := fun _ _ _ h he hs => inv_step h he hs

theorem inv_init : Inv {} := ⟨rfl, rfl, rfl, rfl, fun _ => rfl⟩

/-- As long as no null pointer is used, every line is in the file or in a buffer. -/
theorem lines_eq (hr : machine.Run {} es q) :
    q.output ++ q.unwritten ++ q.pending = q.lines.flatten :=
  (hr.preserves preserves_inv inv_init).lines_eq

/-! ## The current buffer -/

/-- A step leaves a current buffer if and only if the backend has one when it takes the old one. -/
theorem noLoss_step_iff (hi : q.Inv) (h : q.NoLoss) (he : q.Enabled e)
    (hs : q.step e = .ok q') : q'.NoLoss ↔ q.Restocked e := by
  have hlines := (inv_step hi he hs).lines_eq
  cases e with
  | append logline =>
    have hq := appended_append hi.nextBuffer he hs
    exact iff_of_true ⟨hq.currentBuffer, hlines⟩ fun heq => Event.noConfusion heq
  | stop =>
    obtain rfl := Except.ok.inj hs
    exact iff_of_true ⟨h.1, hlines⟩ fun heq => Event.noConfusion heq
  | threadFunc =>
    have hstep := backendStep_threadFunc he hs
    by_cases hswaps : q.Swaps
    · rw [NoLoss, (backendStep_swaps hstep hswaps).currentBuffer]
      exact ⟨fun hq _ _ => hq.1, fun hq => ⟨hq rfl hswaps, hlines⟩⟩
    · refine iff_of_true ⟨?_, hlines⟩ fun _ hswaps' => absurd hswaps' hswaps
      rw [backendStep_not_swaps hstep hswaps]
      exact h.1

/-- In a run there is always a current buffer, and no line is lost, if and only if the backend has
a buffer of its own whenever it takes the current one. -/
theorem noLoss_iff_restocked (hr : machine.Run {} es q) :
    machine.Along NoLoss {} es ↔ (machine.guard Restocked).Run {} es q :=
  Machine.along_iff_run_guard preserves_inv (fun _ _ _ hi h he hs => noLoss_step_iff hi h he hs) hr
    inv_init ⟨Option.some_ne_none _, rfl⟩

theorem noLoss_iff_restocked_once : ∃ q,
    machine.Run {} [.append (asciiBytes "a"), .threadFunc, .threadFunc, .threadFunc,
      .append (asciiBytes "b"), .threadFunc] q ∧
    machine.Along NoLoss {} [.append (asciiBytes "a"), .threadFunc, .threadFunc, .threadFunc,
      .append (asciiBytes "b"), .threadFunc] ∧
    q.output = asciiBytes "a" ∧ q.pending = asciiBytes "b" := by
  have hex : ((machine.guard Restocked).exec {} [.append (asciiBytes "a"), .threadFunc,
      .threadFunc, .threadFunc, .append (asciiBytes "b"), .threadFunc]).map
      (fun q => (q.output, q.pending)) = some (asciiBytes "a", asciiBytes "b") := by decide
  obtain ⟨q, hq, heq⟩ := Option.map_eq_some_iff.mp hex
  obtain ⟨houtput, hpending⟩ := Prod.mk.inj heq
  have hr := Machine.run_of_exec hq
  exact ⟨q, hr.of_guard, (noLoss_iff_restocked hr.of_guard).mpr hr, houtput, hpending⟩

/-- When the backend swaps for the second time, there is no current buffer left, and the next call
of `append` uses a null pointer. -/
theorem exists_not_noLoss : ∃ q, machine.Run {} (List.replicate 9 .threadFunc) q ∧
    ¬q.NoLoss ∧ ∀ logline, q.append logline = .error .nullBuffer := by
  have hex : (machine.exec {} (List.replicate 9 .threadFunc)).map
      (fun q => q.currentBuffer.isNone) = some true := by decide
  obtain ⟨q, hq, hnull⟩ := Option.map_eq_some_iff.mp hex
  have hnone : q.currentBuffer = none := Option.isNone_iff_eq_none.mp hnull
  refine ⟨q, Machine.run_of_exec hq, fun h => h.1 hnone, fun logline => ?_⟩
  simp only [append, hnone]

end CodingDemo.Libcpp.AsyncLogging
