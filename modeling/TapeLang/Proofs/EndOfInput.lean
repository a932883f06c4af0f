import TapeLang.Proofs.Lockstep

/-!
# The end of the input

Where an input instruction stores zero at the end of the input, zeros at the end of the input do as
well, and then it does not matter what is done at the end of the input: a run that gets enough zeros
does not come to it.

* `Moment.isStarved`: an input instruction is met when there is no input left.
* `State.InStep.read_fed`: reading, on an input with zeros behind it and on one without. Only a
  starved read uses up a zero.
* `zeros_stand_for_end_of_input`: whole runs.
-/

namespace TapeLang

variable {τ : Type}

/-- Streams that write to a sink and read a list of bytes, one byte at a call. -/
def Sink.bytewise (out : Sink τ) : Device (τ × List UInt8) :=
  out.device (some fun bytes => (.ok (bytes.take 1), bytes.drop 1))

/-- Whether an input instruction is met when there is no input left. -/
def Moment.isStarved (a : Moment (τ × List UInt8)) : Bool :=
  match a.instr with
  | .input _ => a.state.streams.2.isEmpty
  | _ => false

/-- The call with a zero in place of the end of the input. -/
def Call.filled : Call → Call
  | received [] => received [0]
  | c => c

theorem Call.output_map_filled (calls : List Call) :
    Call.output (calls.map Call.filled) = Call.output calls := by
  unfold Call.output
  rw [List.flatMap_map]
  congr 1
  funext c
  cases c with
  | received data => rcases data with _ | ⟨b, data⟩ <;> rfl
  | _ => rfl

/-- The first run has `n` zeros behind its input, and has got zeros where the second was at the end
of the input. -/
structure Fed (n : Nat) (x' : τ × List UInt8) (calls' : Array Call) (x : τ × List UInt8)
    (calls : Array Call) : Prop where
  sink : x'.1 = x.1
  input : x'.2 = x.2 ++ List.replicate n 0
  calls : calls' = calls.map Call.filled

theorem Fed.push {n n' : Nat} {x' x : τ × List UInt8} {calls' calls : Array Call}
    (h : Fed n x' calls' x calls) (c : Call) (y : τ) {input' input : List UInt8}
    (hinput : input' = input ++ List.replicate n' 0) :
    Fed n' (y, input') (calls'.push c.filled) (y, input) (calls.push c) :=
  ⟨rfl, hinput, by rw [h.calls, Array.map_push]⟩

/-! ### Reading -/

section
variable {out : Sink τ} {s : State (τ × List UInt8)} {x : τ} {b : UInt8} {bytes : List UInt8}

theorem Sink.read_nil (h : s.streams = (x, [])) (policy : EofPolicy) :
    s.read out.bytewise policy = (s.record (.received []) (x, [])).endOfInput policy := by
  simp only [State.read, bytewise, device, Option.map_some, h, List.take_nil, List.drop_nil]

theorem Sink.read_cons (h : s.streams = (x, b :: bytes)) (policy : EofPolicy) :
    s.read out.bytewise policy =
      (none, { s.record (.received [b]) (x, bytes) with tape := s.tape.write b.toNat }) := by
  simp only [State.read, bytewise, device, Option.map_some, h]
  rfl

end

namespace State.InStep

variable (out : Sink τ) {n : Nat} {s' s : State (τ × List UInt8)}

theorem flushed_fed (h : InStep (Fed n) s' s) :
    InStep (Fed n) (out.flushed s') (out.flushed s) := by
  refine Sink.inStep_flushed h fun flush => ?_
  rw [h.streams.sink]
  exact h.streams.push .flushed _ h.streams.input

theorem write_fed (h : InStep (Fed n) s' s) (data : List UInt8) :
    InStepResult (Fed n) (s'.write out.bytewise data) (s.write out.bytewise data) := by
  unfold Sink.bytewise
  rw [Sink.write_eq, Sink.write_eq, h.streams.sink]
  exact ⟨rfl, h.record (h.streams.push (.wrote data) _ h.streams.input)⟩

/-- **A zero stands for the end of the input**, whatever would be done there. -/
theorem read_fed (h : InStep (Fed n) s' s) (policy : EofPolicy)
    (enough : s.streams.2.isEmpty = true → 0 < n) :
    InStepResult (Fed (n - if s.streams.2.isEmpty then 1 else 0)) (s'.read out.bytewise policy)
      (s.read out.bytewise .zero) := by
  have hstreams := h.streams
  rcases hx' : s'.streams with ⟨x', input'⟩
  rcases hx : s.streams with ⟨x, input⟩
  rw [hx', hx] at hstreams
  rw [hx] at enough
  obtain rfl : x' = x := hstreams.sink
  obtain rfl : input' = input ++ List.replicate n 0 := hstreams.input
  rcases input with _ | ⟨b, input⟩
  · obtain ⟨k, rfl⟩ : ∃ k, n = k + 1 := Nat.exists_eq_succ_of_ne_zero (enough rfl).ne'
    rw [List.nil_append, List.replicate_succ] at hx'
    rw [Sink.read_cons hx', Sink.read_nil hx, h.tape]
    have hpush : Fed k (x', List.replicate k 0) (s'.calls.push (.received [0])) (x', [])
        (s.calls.push (.received [])) := hstreams.push (.received []) x' rfl
    exact ⟨rfl, (h.record hpush).withTape (s.tape.write 0)⟩
  · rw [Sink.read_cons hx', Sink.read_cons hx, h.tape]
    exact ⟨rfl, (h.record (hstreams.push (.received [b]) x' rfl)).withTape _⟩

end State.InStep

/-! ### Actions and runs -/

section
variable (out : Sink τ)

theorem Sink.streams_flushed (s : State (τ × List UInt8)) :
    (out.flushed s).streams.2 = s.streams.2 := by
  unfold flushed
  rcases out.flush? with _ | flush <;> rfl

theorem Instr.actsAlike_fed (mode : OutputMode) (policy : EofPolicy) {n : Nat} (i : Instr)
    {s' s : State (τ × List UInt8)} (h : State.InStep (Fed n) s' s)
    (enough : Moment.isStarved ⟨i, s⟩ = true → 0 < n) :
    i.ActsAlike (State.InStep (Fed (n - if Moment.isStarved ⟨i, s⟩ then 1 else 0))) out.bytewise
      ⟨policy, mode⟩ out.bytewise ⟨.zero, mode⟩ s'.tick s.tick := by
  refine State.InStep.actsAlike ?_
  cases i with
  | output p =>
    unfold Instr.attempt
    rw [h.tick.tape]
    exact h.tick.write_fed out _
  | input p =>
    unfold Instr.attempt Sink.bytewise
    rw [Sink.input_eq, Sink.input_eq]
    have hempty : (out.flushed s.tick).streams.2 = s.streams.2 := out.streams_flushed s.tick
    have hread := (h.tick.flushed_fed out).read_fed out policy (by rwa [hempty])
    rwa [hempty] at hread
  | _ => exact h.tick.attempt_silent rfl

end

/-- Endings with the same outcome, the same bytes written, the same tape and the same steps. -/
structure Ending.Matches {σ' σ : Type} (e' : Ending σ') (e : Ending σ) : Prop where
  failure : e'.failure = e.failure
  output : Call.output e'.state.calls.toList = Call.output e.state.calls.toList
  tape : e'.state.tape = e.state.tape
  steps : e'.state.steps = e.state.steps

theorem Ending.Alike.matches {n : Nat} {e' e : Ending (τ × List UInt8)}
    (h : e'.Alike (State.InStep (Fed n)) e) : e'.Matches e where
  failure := h.1
  output := by rw [h.2.streams.calls, Array.toList_map, Call.output_map_filled]
  tape := h.2.tape
  steps := h.2.steps

/-- A program at its start, with the input that is to be read. -/
def Machine.withInput (p : Program) (tape : Tape) (x : τ) (input : List UInt8) :
    Machine (τ × List UInt8) :=
  start p (.start tape (x, input))

/-- The number of input instructions that are met when there is no input left, in a run that stores
zero there. -/
def Machine.starvations (out : Sink τ) (mode : OutputMode) (turns : Nat)
    (m : Machine (τ × List UInt8)) : Nat :=
  (m.history out.bytewise ⟨.zero, mode⟩ turns).countP Moment.isStarved

/-- A run that stores zero at the end of the input and ends, and a run on an input with enough zeros
behind it. The latter leaves those zeros that the former does not miss. -/
theorem Machine.exists_run_fed (out : Sink τ) (mode : OutputMode) (policy : EofPolicy) {p : Program}
    {tape : Tape} {x : τ} {input : List UInt8} {turns n : Nat} {e : Ending (τ × List UInt8)}
    (ends : (withInput p tape x input).run out.bytewise ⟨.zero, mode⟩ turns = some e)
    (enough : (withInput p tape x input).starvations out mode turns ≤ n) :
    ∃ e', (withInput p tape x (input ++ List.replicate n 0)).run out.bytewise ⟨policy, mode⟩
        turns = some e' ∧ e'.Alike
          (State.InStep (Fed (n - (withInput p tape x input).starvations out mode turns))) e := by
  have hstart : State.InStep (Fed n) (.start tape (x, input ++ List.replicate n 0))
      (.start tape (x, input)) := ⟨rfl, rfl, rfl, rfl, rfl, Array.map_empty.symm⟩
  obtain ⟨halike, -⟩ := after_inStep Moment.isStarved
    (fun n i s' s h => i.actsAlike_fed out mode policy h)
    (fun n s' s h => Sink.finish_alike (h.flushed_fed out)) turns n
    (withInput p tape x (input ++ List.replicate n 0)) (withInput p tape x input) rfl hstart enough
  rw [after_of_run ends] at halike
  obtain ⟨e', he', same⟩ := halike.exists_ended
  exact ⟨e', by rw [run_eq_after, he']; rfl, same⟩

/-- **Zeros stand for the end of the input.** Take a run that stores zero at the end of the input
and ends, in success or in a failure, having met `k` input instructions when there was no input
left. On the input with `k` or more zeros behind it the program ends in the same way, with the same
bytes written, the same tape and the same steps, whatever is done at the end of the input. So if `k`
is zero, then on the input itself it does not matter what is done there. -/
theorem zeros_stand_for_end_of_input (out : Sink τ) (mode : OutputMode) (p : Program) (tape : Tape)
    (x : τ) (input : List UInt8) (turns : Nat) (e : Ending (τ × List UInt8))
    (ends : (Machine.withInput p tape x input).run out.bytewise ⟨.zero, mode⟩ turns = some e)
    (k : Nat) (starved : (Machine.withInput p tape x input).starvations out mode turns = k)
    (policy : EofPolicy) :
    (∀ n, k ≤ n → ∃ e', (Machine.withInput p tape x (input ++ List.replicate n 0)).run out.bytewise
      ⟨policy, mode⟩ turns = some e' ∧ e'.Matches e) ∧
    (k = 0 → ∃ e', (Machine.withInput p tape x input).run out.bytewise ⟨policy, mode⟩ turns =
      some e' ∧ e'.Matches e) := by
  have padded : ∀ n, k ≤ n → ∃ e', (Machine.withInput p tape x (input ++ List.replicate n 0)).run
      out.bytewise ⟨policy, mode⟩ turns = some e' ∧ e'.Matches e := by
    intro n hn
    obtain ⟨e', he', same⟩ := Machine.exists_run_fed out mode policy ends (starved.trans_le hn)
    exact ⟨e', he', same.matches⟩
  refine ⟨padded, fun hk => ?_⟩
  have h := padded 0 hk.le
  rwa [List.replicate_zero, List.append_nil] at h

/-- A sink that keeps what is written. -/
def Sink.keeping : Sink (List UInt8) := ⟨fun data kept => kept ++ data, none⟩

/-- Two bytes are asked for and one is there: with two zeros behind it, the second input is no
failure even if the end of the input is one, and a zero is left. -/
theorem zeros_stand_for_end_of_input_once :
    ∃ e e', (Machine.withInput [.input none, .output none, .input none, .output none] (.blank 1 4)
        [] [65]).run Sink.keeping.bytewise ⟨.zero, .byte⟩ 5 = some e ∧
      (Machine.withInput [.input none, .output none, .input none, .output none] (.blank 1 4)
        [] [65, 0, 0]).run Sink.keeping.bytewise ⟨.error, .byte⟩ 5 = some e' ∧
      e'.Matches e ∧ e.failure = none ∧ Call.output e.state.calls.toList = [65, 0] := by
  have h := zeros_stand_for_end_of_input Sink.keeping .byte
    [.input none, .output none, .input none, .output none] (.blank 1 4) [] [65] 5 _ rfl 1 rfl .error
  obtain ⟨e', he', same⟩ := h.1 2 (by decide)
  exact ⟨_, e', rfl, he', same, rfl, rfl⟩

end TapeLang
