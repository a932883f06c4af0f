import TapeLang.Proofs.Lockstep
import TapeLang.Streams.Console

/-!
# Standard streams in step

One program on two pairs of standard streams. If the streams give the same answers to each call, and
the call keeps what their states have to do with each other, then the runs are in step to the end.

* `Stdio.Follows`: what has to be shown of each of the three calls that a program makes.
* `Stdio.Follows.exists_run`, `Stdio.Follows.exists_run_followed`: if one run ends, so does the
  other, in step.
-/

namespace TapeLang

variable {σ' σ : Type}

/-! ### Calls and their answers -/

namespace Call

/-- The call that is on record for a write with the given answer. -/
def ofWrite (data : List UInt8) : Except String Unit → Call
  | .ok _ => wrote data
  | .error _ => writeFailed

/-- The call that is on record for a flush with the given answer. -/
def ofFlush : Except String Unit → Call
  | .ok _ => flushed
  | .error _ => flushFailed

/-- The call that is on record for a read with the given answer. -/
def ofRead : Except String (List UInt8) → Call
  | .ok data => received data
  | .error _ => readFailed

end Call

/-- Streams that answer each call of a program as others do, with the states and the calls on record
related by `R`. -/
structure Stdio.Follows (R : σ' → Array Call → σ → Array Call → Prop) (std' : Stdio σ')
    (std : Stdio σ) : Prop where
  write {x' : σ'} {calls' : Array Call} {x : σ} {calls : Array Call} (h : R x' calls' x calls)
    (data : List UInt8) : (std'.write data x').1 = (std.write data x).1 ∧
      R (std'.write data x').2 (calls'.push (.ofWrite data (std.write data x).1))
        (std.write data x).2 (calls.push (.ofWrite data (std.write data x).1))
  flush {x' : σ'} {calls' : Array Call} {x : σ} {calls : Array Call} (h : R x' calls' x calls) :
    (std'.flush x').1 = (std.flush x).1 ∧
      R (std'.flush x').2 (calls'.push (.ofFlush (std.flush x).1))
        (std.flush x).2 (calls.push (.ofFlush (std.flush x).1))
  read {x' : σ'} {calls' : Array Call} {x : σ} {calls : Array Call} (h : R x' calls' x calls) :
    (std'.read x').1 = (std.read x).1 ∧
      R (std'.read x').2 (calls'.push (.ofRead (std.read x).1))
        (std.read x).2 (calls.push (.ofRead (std.read x).1))

namespace Stdio.Follows

variable {R : σ' → Array Call → σ → Array Call → Prop} {std' : Stdio σ'} {std : Stdio σ}
  {s' : State σ'} {s : State σ}

/-! ### Actions -/

theorem write_inStep (h : Follows R std' std) (hs : State.InStep R s' s) (data : List UInt8) :
    State.InStepResult R (s'.write std'.device data) (s.write std.device data) := by
  obtain ⟨answer, kept⟩ := h.write hs.streams data
  simp only [State.write, device]
  rcases hr' : std'.write data s'.streams with ⟨a', y'⟩
  rcases hr : std.write data s.streams with ⟨a, y⟩
  rw [hr', hr] at answer kept
  obtain rfl : a' = a := answer
  rcases a' with why | u
  · exact ⟨rfl, hs.record kept⟩
  · exact ⟨rfl, hs.record kept⟩

theorem flush_inStep (h : Follows R std' std) (hs : State.InStep R s' s) :
    State.InStepResult R (s'.flush std'.device) (s.flush std.device) := by
  obtain ⟨answer, kept⟩ := h.flush hs.streams
  simp only [State.flush, device]
  rcases hr' : std'.flush s'.streams with ⟨a', y'⟩
  rcases hr : std.flush s.streams with ⟨a, y⟩
  rw [hr', hr] at answer kept
  obtain rfl : a' = a := answer
  rcases a' with why | u
  · exact ⟨rfl, hs.record kept⟩
  · exact ⟨rfl, hs.record kept⟩

theorem read_inStep (h : Follows R std' std) (hs : State.InStep R s' s) (policy : EofPolicy) :
    State.InStepResult R (s'.read std'.device policy) (s.read std.device policy) := by
  obtain ⟨answer, kept⟩ := h.read hs.streams
  simp only [State.read, device]
  rcases hr' : std'.read s'.streams with ⟨a', y'⟩
  rcases hr : std.read s.streams with ⟨a, y⟩
  rw [hr', hr] at answer kept
  obtain rfl : a' = a := answer
  rcases a' with why | _ | ⟨b, data⟩
  · exact ⟨rfl, hs.record kept⟩
  · exact (hs.record kept).endOfInput policy
  · have htape : (s'.record (.received (b :: data)) y').tape = s.tape := hs.tape
    simp only [htape]
    exact ⟨rfl, (hs.record kept).withTape _⟩

theorem input_inStep (h : Follows R std' std) (hs : State.InStep R s' s) (policy : EofPolicy) :
    State.InStepResult R (s'.input std'.device policy) (s.input std.device policy) := by
  obtain ⟨hf, ht⟩ := h.flush_inStep hs
  unfold State.input
  rcases hr' : s'.flush std'.device with ⟨f', t'⟩
  rcases hr : s.flush std.device with ⟨f, t⟩
  rw [hr', hr] at hf ht
  obtain rfl : f' = f := hf
  rcases f' with _ | f'
  · exact h.read_inStep ht policy
  · exact ⟨rfl, ht⟩

theorem actsAlike (h : Follows R std' std) (cfg : Settings) (i : Instr)
    (hs : State.InStep R s' s) :
    i.ActsAlike (State.InStep R) std'.device cfg std.device cfg s'.tick s.tick := by
  refine State.InStep.actsAlike ?_
  cases i with
  | output p =>
    unfold Instr.attempt
    rw [hs.tick.tape]
    exact h.write_inStep hs.tick _
  | input p => exact h.input_inStep hs.tick cfg.eof
  | _ => exact hs.tick.attempt_silent rfl

theorem finish_alike (h : Follows R std' std) (hs : State.InStep R s' s) :
    (Machine.finish std'.device s').Alike (State.InStep R) (Machine.finish std.device s) := by
  obtain ⟨hf, ht⟩ := h.flush_inStep hs
  unfold Machine.finish
  rcases hr' : s'.flush std'.device with ⟨f', t'⟩
  rcases hr : s.flush std.device with ⟨f, t⟩
  rw [hr', hr] at hf ht
  obtain rfl : f' = f := hf
  rcases f' with _ | f'
  · exact ⟨rfl, ht⟩
  · exact ⟨rfl, ht⟩

/-! ### Runs -/

variable {x' : σ'} {x : σ} {p : Program} {tape : Tape} {cfg : Settings} {fuel : Nat}

theorem after_alike (h : Follows R std' std) (start : R x' #[] x #[]) (p : Program) (tape : Tape)
    (cfg : Settings) (fuel : Nat) : Progress.Alike (State.InStep R)
      ((Machine.start p (.start tape x')).after std'.device cfg fuel)
      ((Machine.start p (.start tape x)).after std.device cfg fuel) := by
  have hstart : State.InStep R (.start tape x') (.start tape x) := ⟨rfl, rfl, rfl, start⟩
  -- no moment uses anything up, so the number on which the relation may depend is not needed
  exact (Machine.after_inStep (R := fun _ => R) (fun _ => false)
    (fun _ i _ _ hs _ => h.actsAlike cfg i hs) (fun _ _ _ hs => h.finish_alike hs) fuel 0
    (Machine.start p (.start tape x')) (Machine.start p (.start tape x)) rfl hstart (by simp)).1

/-- **A run on streams in step**: if the one that is followed ends, the other does. -/
theorem exists_run (h : Follows R std' std) (start : R x' #[] x #[]) {e : Ending σ}
    (ends : (Machine.start p (.start tape x)).run std.device cfg fuel = some e) :
    ∃ e', (Machine.start p (.start tape x')).run std'.device cfg fuel = some e' ∧
      e'.Alike (State.InStep R) e := by
  have alike := h.after_alike start p tape cfg fuel
  rw [Machine.after_of_run ends] at alike
  obtain ⟨e', he', same⟩ := alike.exists_ended
  exact ⟨e', by rw [Machine.run_eq_after, he', Progress.ending?], same⟩

/-- If the one that follows ends, the other does. -/
theorem exists_run_followed (h : Follows R std' std) (start : R x' #[] x #[]) {e' : Ending σ'}
    (ends : (Machine.start p (.start tape x')).run std'.device cfg fuel = some e') :
    ∃ e, (Machine.start p (.start tape x)).run std.device cfg fuel = some e ∧
      e'.Alike (State.InStep R) e := by
  have alike := h.after_alike start p tape cfg fuel
  rw [Machine.after_of_run ends] at alike
  rcases he : (Machine.start p (.start tape x)).after std.device cfg fuel with m | e <;>
    rw [he] at alike
  · cases alike
  · cases alike with
    | ended failure states =>
      exact ⟨e, by rw [Machine.run_eq_after, he, Progress.ending?], failure, states⟩

end Stdio.Follows

end TapeLang
