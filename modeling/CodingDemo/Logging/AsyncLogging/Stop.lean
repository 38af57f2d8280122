import CodingDemo.Logging.AsyncLogging.NoLoss

/-!
# Stopping

`stop` makes the backend leave its loop, and waits until it is done. The backend does not look for
lines that have come since it took the buffers for the last time.

## Main definitions

* `Flushed`: the log file has the lines of a state
* `Takes`: the backend takes the buffers before it reads `running_` again

## Main results

* `output_of_run`: a backend that leaves writes what it has taken
* `flushed_iff_takes`: when the lines before `stop` are in the file after it
-/

namespace CodingDemo.Libcpp.AsyncLogging

/-- The log file in the state `q'` begins with the lines of the state `q`. -/
def Flushed (q q' : AsyncLogging) : Prop := q.lines.flatten <+: q'.output

/-- The backend has read `running_`, and has not taken the buffers since. -/
def Takes (q : AsyncLogging) : Prop := q.pc = .lock ∨ q.pc = .wait

variable {q q' : AsyncLogging} {e : Event} {es es' : List Event}

theorem Appended.takes_iff {logline : List UInt8} (h : Appended logline q q') :
    q'.Takes ↔ q.Takes := by
  rw [Takes, Takes, h.pc]

/-! ## Leaving the loop -/

/-- What the backend of a stopped logger gives the file in the end does not change, unless it takes
the buffers once more. -/
theorem output_of_step (hi : q.Inv) (he : q.Enabled e) (hs : q.step e = .ok q')
    (hstop : q.running = false) (htakes : ¬q.Takes) :
    q'.running = false ∧ ¬q'.Takes ∧ q'.output ++ q'.unwritten = q.output ++ q.unwritten := by
  cases e with
  | append logline =>
    have hq := appended_append hi.nextBuffer he hs
    refine ⟨hq.running.trans hstop, fun h => htakes (hq.takes_iff.mp h), ?_⟩
    rw [unwritten, hq.buffersToWrite, written, hq.pc, hq.output]
    rfl
  | stop =>
    have hrunning : q.running = true := he
    rw [hstop] at hrunning
    cases hrunning
  | threadFunc =>
    have hi' := inv_step hi he hs
    cases backendStep_threadFunc he hs with
    | check hpc =>
      refine ⟨hstop, ?_, ?_⟩
      · simp [Takes, hstop]
      · rw [unwritten_of_not_write hi (by simp [hpc]), unwritten_of_not_write hi' (by simp [hstop])]
    | wait hpc => exact absurd (.inl hpc) htakes
    | swap hswaps => exact absurd (hswaps.elim .inr fun h => .inl h.1) htakes
    | write hpc hbuffer =>
      refine ⟨hstop, by simp [Takes], ?_⟩
      rw [unwritten_write hpc hbuffer, ← List.append_assoc]
    | clear hpc hend =>
      refine ⟨hstop, by simp [Takes], ?_⟩
      rw [unwritten_clear hpc hend]
      rfl
    | refill hpc =>
      refine ⟨hstop, by simp [Takes], ?_⟩
      rw [unwritten_of_not_write hi (by simp [hpc]), unwritten_of_not_write hi' (by simp)]

theorem output_of_run (hi : q.Inv) (hr : machine.Run q es q') (hstop : q.running = false)
    (htakes : ¬q.Takes) : q'.output ++ q'.unwritten = q.output ++ q.unwritten := by
  induction hr with
  | nil => rfl
  | cons he hs _ ih =>
    obtain ⟨hstop', htakes', houtput⟩ := output_of_step hi he hs hstop htakes
    exact (ih (inv_step hi he hs) hstop' htakes').trans houtput

/-- When the backend is done, the file has all that it had taken. -/
theorem output_of_done (hi : q.Inv) (hr : machine.Run q es q') (hstop : q.running = false)
    (htakes : ¬q.Takes) (hdone : q'.pc = .done) : q'.output = q.output ++ q.unwritten := by
  have hunwritten := unwritten_of_not_write (hr.preserves preserves_inv hi) (by simp [hdone])
  rw [← output_of_run hi hr hstop htakes, hunwritten, List.append_nil]

/-! ## Taking the buffers once more -/

/-- A backend that takes the buffers once more takes all lines. -/
theorem flushed_of_takes (hi : q.Inv) (hr : machine.Run q es q') (hstop : q.running = false)
    (htakes : q.Takes) (hdone : q'.pc = .done) : Flushed q q' := by
  induction hr with
  | nil q => rcases htakes with h | h <;> cases hdone.symm.trans h
  | @cons q q₁ q' e es he hs hr ih =>
    have hi' := inv_step hi he hs
    cases e with
    | append logline =>
      have hq := appended_append hi.nextBuffer he hs
      have hflushed := ih hi' (hq.running.trans hstop) (hq.takes_iff.mpr htakes) hdone
      rw [Flushed, hq.lines, List.flatten_append] at hflushed
      exact (List.prefix_append _ _).trans hflushed
    | stop =>
      have hrunning : q.running = true := he
      rw [hstop] at hrunning
      cases hrunning
    | threadFunc =>
      cases backendStep_threadFunc he hs with
      | wait => exact ih hi' hstop (.inr rfl) hdone
      | swap hswaps hq =>
        have hpc : ¬q₁.Takes := by simp [Takes, hq.pc]
        have hlines := hi.lines_eq
        rw [unwritten_of_not_write hi hswaps.not_write, List.append_nil] at hlines
        have houtput : q.lines.flatten = q'.output := by
          rw [output_of_done hi' hr (hq.running.trans hstop) hpc hdone, hq.output, hq.unwritten,
            hlines]
        have hprefix : q.lines.flatten <+: q'.output := houtput ▸ List.prefix_rfl
        exact hprefix
      | check hpc | write hpc | clear hpc | refill hpc =>
        rcases htakes with h | h <;> cases hpc.symm.trans h

/-! ## The lines before `stop` -/

/-- When `stop` returns, the file has the lines that came before it if and only if the backend was
about to take them when `stop` was called, or there were none left to take. -/
theorem flushed_iff_takes (hr : machine.Run {} es q) (hr' : machine.Run q (.stop :: es') q')
    (hdone : q'.pc = .done) : Flushed q q' ↔ q.Takes ∨ q.pending = [] := by
  have hi := hr.preserves preserves_inv inv_init
  obtain _ | ⟨he, hs, hrest⟩ := hr'
  have hi' := preserves_inv hi he hs
  obtain rfl := Except.ok.inj hs
  by_cases htakes : q.Takes
  · have hflushed : Flushed q.stop q' := flushed_of_takes hi' hrest rfl htakes hdone
    exact iff_of_true hflushed (.inl htakes)
  · have houtput : q'.output = q.stop.output ++ q.stop.unwritten :=
      output_of_done hi' hrest rfl htakes hdone
    have hstop : q.stop.output ++ q.stop.unwritten = q.output ++ q.unwritten := rfl
    rw [Flushed, houtput, hstop, ← hi.lines_eq, or_iff_right htakes]
    constructor
    · intro hprefix
      have hlength : (q.output ++ q.unwritten ++ q.pending).length =
          (q.output ++ q.unwritten).length + q.pending.length := List.length_append
      have hle := hprefix.length_le
      exact List.eq_nil_of_length_eq_zero (by omega)
    · intro hnil
      exact hnil ▸ (List.append_nil _).symm ▸ List.prefix_rfl

theorem flushed_iff_takes_wait : ∃ q q',
    machine.Run {} [.append (asciiBytes "a"), .threadFunc, .threadFunc] q ∧
    machine.Run q (.stop :: List.replicate 5 .threadFunc) q' ∧ q'.pc = .done ∧
    q'.output = asciiBytes "a" ∧ (Flushed q q' ↔ q.Takes ∨ q.pending = []) := by
  have hex : (machine.exec {} [.append (asciiBytes "a"), .threadFunc, .threadFunc]).bind
      (fun q => (machine.exec q (.stop :: List.replicate 5 .threadFunc)).map
        fun q' => (q'.pc, q'.output)) = some (.done, asciiBytes "a") := by decide
  obtain ⟨q, hq, hmap⟩ := Option.bind_eq_some_iff.mp hex
  obtain ⟨q', hq', heq⟩ := Option.map_eq_some_iff.mp hmap
  obtain ⟨hdone, houtput⟩ := Prod.mk.inj heq
  have hr := Machine.run_of_exec hq
  have hr' := Machine.run_of_exec hq'
  exact ⟨q, q', hr, hr', hdone, houtput, flushed_iff_takes hr hr' hdone⟩

/-- A line that comes while the backend writes is not in the file when `stop` returns. -/
theorem exists_not_flushed : ∃ q q',
    machine.Run {} [.append (asciiBytes "a"), .threadFunc, .threadFunc, .threadFunc,
      .append (asciiBytes "b")] q ∧
    machine.Run q (.stop :: List.replicate 4 .threadFunc) q' ∧ q'.pc = .done ∧
    q'.output = asciiBytes "a" ∧ ¬Flushed q q' := by
  have hex : (machine.exec {} [.append (asciiBytes "a"), .threadFunc, .threadFunc, .threadFunc,
      .append (asciiBytes "b")]).bind
      (fun q => (machine.exec q (.stop :: List.replicate 4 .threadFunc)).map
        fun q' => (q.lines, q'.pc, q'.output)) =
      some ([asciiBytes "a", asciiBytes "b"], .done, asciiBytes "a") := by decide
  obtain ⟨q, hq, hmap⟩ := Option.bind_eq_some_iff.mp hex
  obtain ⟨q', hq', heq⟩ := Option.map_eq_some_iff.mp hmap
  obtain ⟨hlines, heq⟩ := Prod.mk.inj heq
  obtain ⟨hdone, houtput⟩ := Prod.mk.inj heq
  refine ⟨q, q', Machine.run_of_exec hq, Machine.run_of_exec hq', hdone, houtput, fun h => ?_⟩
  rw [Flushed, hlines, houtput] at h
  exact absurd h.length_le (by decide)

end CodingDemo.Libcpp.AsyncLogging
