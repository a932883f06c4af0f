import TapeLang.Proofs.Exec

/-!
# What actions write

The record of the stream calls tells what has been written. Only an output instruction writes, and
only if it succeeds. An action that fails leaves the tape as it was, whichever of the things it does
has failed: the move, the write, the flush before a read, the read, or the end of the input.

* `State.Wrote`: what was written on the way from one state to another; `State.Untouched`: nothing,
  and the tape is the same.
* `State.wrote_of_write`: a write that succeeds; `State.wrote_move`, `State.wrote_input`: nothing
  else writes.
* `Instr.untouched_of_failed`: an action that fails.
-/

namespace TapeLang

variable {σ : Type} {dev : Device σ} {cfg : Settings}

/-! ### What is written on the way -/

/-- On the way from `s` to `t` the bytes `data` were written and no step was counted. -/
structure State.Wrote (data : List UInt8) (s t : State σ) : Prop where
  steps : t.steps = s.steps
  calls : ∃ said, t.calls.toList = s.calls.toList ++ said ∧ Call.output said = data

/-- On the way from `s` to `t` at most the streams were touched, and nothing was written. -/
structure State.Untouched (s t : State σ) : Prop extends State.Wrote [] s t where
  tape : t.tape = s.tape
  growths : t.growths = s.growths

namespace State

variable {s t u : State σ} {data more : List UInt8} {policy : EofPolicy} {f : Fault}

theorem Wrote.of_calls (steps : t.steps = s.steps) (calls : t.calls = s.calls) : s.Wrote [] t :=
  ⟨steps, [], by rw [calls, List.append_nil], rfl⟩

theorem Wrote.trans (h : s.Wrote data t) (h' : t.Wrote more u) : s.Wrote (data ++ more) u := by
  obtain ⟨said, hsaid, hdata⟩ := h.calls
  obtain ⟨said', hsaid', hmore⟩ := h'.calls
  refine ⟨h'.steps.trans h.steps, said ++ said', ?_, ?_⟩
  · rw [hsaid', hsaid, List.append_assoc]
  · rw [← hdata, ← hmore]
    exact List.flatMap_append

theorem Wrote.output (h : s.Wrote data t) :
    Call.output t.calls.toList = Call.output s.calls.toList ++ data := by
  obtain ⟨said, hsaid, hdata⟩ := h.calls
  rw [hsaid, ← hdata]
  exact List.flatMap_append

theorem wrote_record (s : State σ) (c : Call) (x : σ) :
    s.Wrote (Call.output [c]) (s.record c x) := ⟨rfl, [c], Array.toList_push, rfl⟩

theorem Untouched.refl (s : State σ) : s.Untouched s := ⟨.of_calls rfl rfl, rfl, rfl⟩

theorem Untouched.trans (h : s.Untouched t) (h' : t.Untouched u) : s.Untouched u :=
  ⟨h.toWrote.trans h'.toWrote, h'.tape.trans h.tape, h'.growths.trans h.growths⟩

/-- A call by which nothing is written. -/
theorem untouched_record (s : State σ) {c : Call} (silent : Call.output [c] = []) (x : σ) :
    s.Untouched (s.record c x) := by
  have h := s.wrote_record c x
  rw [silent] at h
  exact ⟨h, rfl, rfl⟩

theorem untouched_flush (dev : Device σ) (s : State σ) : s.Untouched (s.flush dev).2 := by
  unfold flush
  split
  · exact .refl s
  · split
    · exact s.untouched_record rfl _
    · exact s.untouched_record rfl _

/-! ### Actions that fail -/

theorem untouched_of_move {d : Int} (h : s.move d = (some f, t)) : s.Untouched t := by
  unfold move at h
  split at h
  · cases h
  · cases h
    exact .refl s

theorem untouched_of_write (h : s.write dev data = (some f, t)) : s.Untouched t := by
  unfold write at h
  split at h
  · cases h
  · cases h
    exact s.untouched_record rfl _

theorem eq_of_endOfInput (h : s.endOfInput policy = (some f, t)) : t = s := by
  cases policy <;> cases h
  rfl

theorem untouched_of_read (h : s.read dev policy = (some f, t)) : s.Untouched t := by
  unfold read at h
  split at h
  · rw [eq_of_endOfInput h]
    exact .refl s
  · split at h
    · cases h
      exact s.untouched_record rfl _
    · rw [eq_of_endOfInput h]
      exact s.untouched_record rfl _
    · cases h

theorem untouched_of_input (h : s.input dev policy = (some f, t)) : s.Untouched t := by
  have hflush := s.untouched_flush dev
  unfold input at h
  rcases hf : s.flush dev with ⟨_ | g, u⟩
  · rw [hf] at h hflush
    exact hflush.trans (untouched_of_read h)
  · rw [hf] at h hflush
    cases h
    exact hflush

/-- An input that cannot flush does not read. -/
theorem input_of_flush_failed {flush : σ → Except String Unit × σ} {reason : String} {x : σ}
    (hflush : dev.flush? = some flush) (failed : flush s.streams = (.error reason, x)) :
    s.input dev policy = (some (.flushFailed reason), s.record .flushFailed x) := by
  have h : s.flush dev = (some (.flushFailed reason), s.record .flushFailed x) := by
    simp only [State.flush, hflush, failed]
  rw [input, h]

/-! ### Actions that succeed -/

theorem wrote_of_write (h : s.write dev data = (none, t)) : s.Wrote data t := by
  unfold write at h
  split at h
  · next x _ =>
    cases h
    have hw := s.wrote_record (.wrote data) x
    rwa [show Call.output [.wrote data] = data from List.flatMap_singleton _ _] at hw
  · cases h

theorem wrote_move (s : State σ) (d : Int) : s.Wrote [] (s.move d).2 := by
  unfold move
  split
  · exact .of_calls rfl rfl
  · exact .of_calls rfl rfl

theorem wrote_endOfInput (policy : EofPolicy) (s : State σ) :
    s.Wrote [] (s.endOfInput policy).2 := by
  cases policy <;> exact .of_calls rfl rfl

theorem wrote_read (dev : Device σ) (policy : EofPolicy) (s : State σ) :
    s.Wrote [] (s.read dev policy).2 := by
  unfold read
  split
  · exact s.wrote_endOfInput policy
  · split
    · exact (s.untouched_record rfl _).toWrote
    · exact (s.untouched_record rfl _).toWrote.trans (wrote_endOfInput policy _)
    · next b data x _ =>
      have hgot := (s.untouched_record (c := .received (b :: data)) rfl x).toWrote
      exact hgot.trans (.of_calls rfl rfl)

theorem wrote_input (dev : Device σ) (policy : EofPolicy) (s : State σ) :
    s.Wrote [] (s.input dev policy).2 := by
  have hflush := (s.untouched_flush dev).toWrote
  unfold input
  rcases hf : s.flush dev with ⟨_ | g, u⟩
  · rw [hf] at hflush
    exact hflush.trans (u.wrote_read dev policy)
  · rw [hf] at hflush
    exact hflush

end State

/-- **An action that fails** leaves all but the streams as it was. -/
theorem Instr.untouched_of_failed {i : Instr} {s t : State σ} {g : Failure}
    (h : i.act dev cfg s = (some g, t)) : s.Untouched t := by
  obtain ⟨n, -, -, rfl⟩ | ⟨f, hf, -⟩ := failed_cases h
  · exact .refl t
  cases i with
  | moveLeft n p trail => exact State.untouched_of_move hf
  | moveRight n p trail => exact State.untouched_of_move hf
  | output p => exact State.untouched_of_write hf
  | input p => exact State.untouched_of_input hf
  | add | sub | set | loop | unknown => cases hf

end TapeLang
