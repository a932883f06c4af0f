import TapeLang.Proofs.Printing
import TapeLang.Streams.Scripted

/-!
# Failures leave no trace

A run that fails leaves what was there before it failed: the instructions that it has met have been
performed one after the other, up to the one that fails, and that one changes nothing but the
streams. So a session can go on with the tape that is left.

* `Performs`: instructions performed one after the other, in the states in which they are met;
  `Performs.steps` and `Performs.output`: the steps it takes and the bytes it writes.
* `Fails`: the two ways in which a run fails after that; `Fails.untouched`: neither touches the
  tape.
* `Machine.fails_after`: a run that fails has performed what it has met, up to the last instruction.
* `failing_changes_nothing`: what is left of a run that fails.
-/

namespace TapeLang

variable {σ : Type} {dev : Device σ} {cfg : Settings}

/-! ### Instructions that succeed -/

/-- The instructions at the moments `done` succeed one after the other and lead from `s` to `t`. To
test a loop is to perform it: this does nothing, but counts as a step. -/
inductive Performs (dev : Device σ) (cfg : Settings) :
    State σ → List (Moment σ) → State σ → Prop where
  | nil {s : State σ} : Performs dev cfg s [] s
  | cons {i : Instr} {s t u : State σ} {done : List (Moment σ)}
      (act : i.act dev cfg s.tick = (none, t)) (next : Performs dev cfg t done u) :
      Performs dev cfg s (⟨i, s⟩ :: done) u

namespace Performs

variable {s t : State σ} {done : List (Moment σ)}

/-- One step is counted for each instruction. -/
theorem steps (h : Performs dev cfg s done t) : t.steps = s.steps + done.length := by
  induction h with
  | nil => rfl
  | @cons i s t u done act next ih =>
    have hstep : t.steps = s.steps + 1 := (Instr.wrote_of_done act).steps
    rw [ih, hstep, List.length_cons]
    omega

/-- Each output writes its cell once. -/
theorem output (h : Performs dev cfg s done t) : Call.output t.calls.toList =
    Call.output s.calls.toList ++
      (done.filterMap Moment.printed?).flatMap cfg.mode.bytes := by
  induction h with
  | nil => exact (List.append_nil _).symm
  | @cons i s t u done act next ih =>
    have hwrote := (Instr.wrote_of_done act).output
    rw [ih, hwrote, List.append_assoc, ← List.flatMap_append, ← List.filterMap_append]
    rfl

end Performs

/-! ### The failure -/

/-- From the state `t`, the instruction at the moment `last` fails with `f`, or, if there is none,
the flush at the end of the program; either leaves the state `u`. -/
inductive Fails (dev : Device σ) (cfg : Settings) (t : State σ) :
    Option (Moment σ) → Failure → State σ → Prop where
  | act {i : Instr} {f : Failure} {u : State σ} (failed : i.act dev cfg t.tick = (some f, u)) :
      Fails dev cfg t (some ⟨i, t⟩) f u
  | flush {g : Fault} {u : State σ} (failed : t.flush dev = (some g, u)) :
      Fails dev cfg t none (.fault g.report) u

namespace Fails

variable {t u : State σ} {last : Option (Moment σ)} {f : Failure}

/-- A failing instruction counts as a step, a failing flush does not; nothing else happens but calls
by which nothing is written. -/
theorem untouched (h : Fails dev cfg t last f u) :
    State.Untouched { t with steps := t.steps + last.toList.length } u := by
  cases h with
  | act failed => exact Instr.untouched_of_failed failed
  | flush failed =>
    have hflush := t.untouched_flush dev
    rw [failed] at hflush
    exact hflush

/-- An input whose flush fails makes no other call. -/
theorem state_of_input {a : Moment σ} {pos : Option Position} (h : Fails dev cfg t (some a) f u)
    (input : a.instr = .input pos) {flush : σ → Except String Unit × σ} {reason : String} {x : σ}
    (hflush : dev.flush? = some flush) (failed : flush t.streams = (.error reason, x)) :
    u = t.tick.record .flushFailed x := by
  cases h with
  | @act i f u hact =>
    obtain rfl : i = .input pos := input
    obtain ⟨n, hunknown, -⟩ | ⟨g, hinput, -⟩ := Instr.failed_cases hact
    · cases hunknown
    have hflushed : (Instr.input pos).attempt dev cfg t.tick = _ :=
      State.input_of_flush_failed (s := t.tick) hflush failed
    cases hflushed.symm.trans hinput
    rfl

end Fails

namespace Machine

/-- **A run that fails has performed what it has met**, up to the last instruction, and that one or
the last flush fails. -/
theorem fails_after (n : Nat) (m : Machine σ) {e : Ending σ} {f : Failure}
    (ended : m.after dev cfg n = .ended e) (failed : e.failure = some f) :
    ∃ done last t, m.history dev cfg n = done ++ last.toList ∧ Performs dev cfg m.state done t ∧
      Fails dev cfg t last f e.state := by
  refine after_induction (P := fun m h r => r = .ended e → ∃ done last t,
    h = done ++ last.toList ∧ Performs dev cfg m.state done t ∧ Fails dev cfg t last f e.state)
    (fun m hr => nomatch hr) (fun m m' h r hstep ih hr => ?_) (fun m e' hstep hr => ?_) n m ended
  · obtain ⟨done, last, t, rfl, hdone, hlast⟩ := ih hr
    rcases running_cases hstep with ⟨hm, hs⟩ | ⟨i, hm, hact⟩
    · rw [hm, ← hs]
      exact ⟨done, last, t, rfl, hdone, hlast⟩
    · rw [hm]
      exact ⟨⟨i, m.state⟩ :: done, last, t, rfl, .cons hact hdone, hlast⟩
  · cases hr
    rcases ended_cases hstep with ⟨hm, rfl⟩ | ⟨i, g, t, hm, hact, rfl⟩
    · unfold finish at failed ⊢
      rcases hflush : m.state.flush dev with ⟨_ | g, t⟩
      · rw [hflush] at failed
        cases failed
      · rw [hflush] at failed
        cases failed
        rw [hm]
        exact ⟨[], none, m.state, rfl, .nil, .flush hflush⟩
    · cases failed
      rw [hm]
      exact ⟨[], some ⟨i, m.state⟩, m.state, rfl, .nil, .act hact⟩

end Machine

/-- **A failing instruction changes nothing.** If a run fails, then the instructions that it has met
before, in order and with every test of a loop, have succeeded and led to a state `t`, and from
there the last instruction that it has met fails, or the flush at the end of the program. The run
leaves the tape of `t`. The bytes that were written are those of the cells printed before, each
once, in order. The steps are one for each instruction or test, the failing one included, and none
for the last flush. And an input whose flush fails does not read. -/
theorem failing_changes_nothing (dev : Device σ) (cfg : Settings) {m : Machine σ} {n : Nat}
    {e : Ending σ} {f : Failure} (ended : m.run dev cfg n = some e)
    (failed : e.failure = some f) :
    ∃ done last t, m.history dev cfg n = done ++ last.toList ∧ Performs dev cfg m.state done t ∧
      Fails dev cfg t last f e.state ∧
      e.state.tape = t.tape ∧
      Call.output e.state.calls.toList = Call.output m.state.calls.toList ++
        (done.filterMap Moment.printed?).flatMap cfg.mode.bytes ∧
      t.Continues e.state ∧
      e.state.steps = m.state.steps + done.length + last.toList.length ∧
      ∀ a pos flush reason x, last = some a → a.instr = .input pos → dev.flush? = some flush →
        flush t.streams = (.error reason, x) → e.state = t.tick.record .flushFailed x := by
  obtain ⟨done, last, t, hmet, hdone, hlast⟩ := m.fails_after n (Machine.after_of_run ended) failed
  have hleft := hlast.untouched
  refine ⟨done, last, t, hmet, hdone, hlast, hleft.tape, ?_, ?_, ?_, ?_⟩
  · rw [hleft.output, List.append_nil]
    exact hdone.output
  · obtain ⟨said, hsaid, -⟩ := hleft.calls
    exact ⟨said, hsaid.symm⟩
  · rw [hleft.steps, hdone.steps]
  · rintro a pos flush reason x rfl hinput hflush hfails
    exact hlast.state_of_input hinput hflush hfails

/-- Streams on which the second flush fails. -/
def Script.stuck : Script := ⟨none, some ⟨1, "stuck"⟩, none, true, true, 1⟩

/-- A loop that prints its cell and reads the next: in the second pass the flush before the read
fails, and the cell that was printed is still there, as is the input that was not read. -/
theorem failing_changes_nothing_stuck :
    ∃ e f done last t, (Machine.start [.add 1 none, .loop [.output none, .input none] none]
        (.start (.blank 1 4) (.start [65, 66]))).run (Scripted.device .stuck) ⟨.zero, .byte⟩ 8 =
          some e ∧
      e.failure = some f ∧
      Performs (Scripted.device .stuck) ⟨.zero, .byte⟩
        (.start (.blank 1 4) (.start [65, 66])) done t ∧
      Fails (Scripted.device .stuck) ⟨.zero, .byte⟩ t last f e.state ∧
      e.state.tape = t.tape ∧ e.state.tape.read = 65 ∧
      e.state.steps = 7 ∧ done.length + last.toList.length = 7 ∧
      Call.output e.state.calls.toList = [1, 65] ∧ e.state.streams.input = [66] := by
  have ended : (Machine.start [.add 1 none, .loop [.output none, .input none] none]
      (.start (.blank 1 4) (.start [65, 66]))).run (Scripted.device .stuck) ⟨.zero, .byte⟩ 8 =
        some ⟨some (.fault _), _⟩ := rfl
  obtain ⟨done, last, t, -, hdone, hlast, htape, -, -, hsteps, -⟩ :=
    failing_changes_nothing (Scripted.device .stuck) ⟨.zero, .byte⟩ ended rfl
  have hcount : 7 = 0 + done.length + last.toList.length := hsteps
  refine ⟨_, _, done, last, t, ended, rfl, hdone, hlast, htape, rfl, rfl, by omega, rfl, rfl⟩

end TapeLang
