import TapeLang.Proofs.Lockstep
import TapeLang.Proofs.Utf8
import TapeLang.Proofs.Writing

/-!
# What is printed

On a sink, each output instruction that is met prints the cell under the cursor, and nothing else is
written. The cells that are printed do not depend on how they are turned into bytes, because the
output mode has no bearing on anything but the bytes.

* `Machine.output_after`: what has been written is what the printed cells come to.
* `State.InStep.read_muted`: reading is the same, whatever has been written before;
  `Machine.after_muted`: the output mode does not change a run otherwise.
* `OutputMode.bytes_utf8`: a cell is printed as the character `Cell.char`.
* `utf8_output_decodes`: both modes, for whole runs.
-/

namespace TapeLang

/-- The character that a cell is printed as: the one whose code point it is, and a blank if it is
none. -/
def Cell.char (c : Cell) : Char := if h : c.isValidChar then ⟨c, h⟩ else ' '

/-- The cell that an instruction prints when it is met on a tape, if any. -/
def Instr.prints? (t : Tape) : Instr → Option Cell
  | output _ => some t.read
  | _ => none

/-- The cell that is printed at a moment, if any. -/
def Moment.printed? {σ : Type} (a : Moment σ) : Option Cell := a.instr.prints? a.state.tape

/-- The cells that are printed in `n` transitions, in order. -/
def Machine.printed {σ : Type} (dev : Device σ) (cfg : Settings) (n : Nat) (m : Machine σ) :
    List Cell :=
  (m.history dev cfg n).filterMap Moment.printed?

theorem OutputMode.bytes_utf8 (c : Cell) :
    OutputMode.utf8.bytes c = String.utf8EncodeChar (Cell.char c) := by
  show Utf8.encodeOrBlank c.toNat = _
  unfold Utf8.encodeOrBlank Cell.char
  by_cases h : c.isValidChar
  · rw [if_pos ((Utf8.isScalar_iff _).2 h), dif_pos h]
    exact Utf8.encode_toNat ⟨c, h⟩
  · rw [if_neg (mt (Utf8.isScalar_iff _).1 h), dif_neg h]
    rfl

/-! ### Bytes -/

/-- **An action that succeeds** writes the cell under the cursor if it is an output, and nothing
otherwise. -/
theorem Instr.wrote_of_done {σ : Type} {dev : Device σ} {cfg : Settings} {i : Instr} {s t : State σ}
    (h : i.act dev cfg s = (none, t)) :
    s.Wrote (([⟨i, s⟩].filterMap Moment.printed?).flatMap cfg.mode.bytes) t := by
  have hdone := attempt_of_done h
  cases i with
  | output p =>
    show s.Wrote (cfg.mode.bytes s.tape.read ++ []) t
    rw [List.append_nil]
    exact State.wrote_of_write hdone
  | input p =>
    have hw := s.wrote_input dev cfg.eof
    rwa [show s.input dev cfg.eof = (none, t) from hdone] at hw
  | moveLeft n p trail =>
    have hw := s.wrote_move (-n)
    rwa [show s.move (-n) = (none, t) from hdone] at hw
  | moveRight n p trail =>
    have hw := s.wrote_move n
    rwa [show s.move n = (none, t) from hdone] at hw
  | _ =>
    cases hdone
    exact .of_calls rfl rfl

section
variable {τ ρ : Type} (out : Sink τ) (read? : Option (ρ → Except String (List UInt8) × ρ))

/-- On a sink an output always succeeds, so the same is written by an action that fails: nothing. -/
theorem Instr.wrote_act (cfg : Settings) (i : Instr) (s : State (τ × ρ)) :
    s.Wrote (([⟨i, s⟩].filterMap Moment.printed?).flatMap cfg.mode.bytes)
      (i.act (out.device read?) cfg s).2 := by
  rcases h : i.act (out.device read?) cfg s with ⟨_ | g, t⟩
  · exact wrote_of_done h
  · cases i with
    | output p => cases h
    | _ => exact (untouched_of_failed h).toWrote

/-- **What has been written is what the printed cells come to**, at every point of a run. -/
theorem Machine.output_after (cfg : Settings) (n : Nat) (m : Machine (τ × ρ)) :
    Call.output (m.after (out.device read?) cfg n).state.calls.toList =
      Call.output m.state.calls.toList ++
        (m.printed (out.device read?) cfg n).flatMap cfg.mode.bytes := by
  refine after_induction (P := fun m h r => Call.output r.state.calls.toList =
    Call.output m.state.calls.toList ++ (h.filterMap Moment.printed?).flatMap cfg.mode.bytes)
    (fun m => (List.append_nil _).symm) (fun m m' h r hstep ih => ?_) (fun m e hstep => ?_) n m
  · rw [ih, List.filterMap_append, List.flatMap_append, ← List.append_assoc]
    congr 1
    rcases running_cases hstep with ⟨hm, hs⟩ | ⟨i, hm, hact⟩
    · rw [hm, hs]
      exact (List.append_nil _).symm
    · have hout := (i.wrote_act out read? cfg m.state.tick).output
      rw [hact] at hout
      rw [hm]
      exact hout
  · rcases ended_cases hstep with ⟨hm, rfl⟩ | ⟨i, f, t, hm, hact, rfl⟩
    · have hflush := (m.state.untouched_flush (out.device read?)).output
      rw [Sink.flush_eq] at hflush
      rw [hm, Sink.finish_eq]
      exact hflush
    · have hout := (i.wrote_act out read? cfg m.state.tick).output
      rw [hact] at hout
      rw [hm]
      exact hout

end

/-! ### Modes -/

/-- The call without what is written. -/
def Call.muted : Call → Call
  | wrote _ => wrote []
  | c => c

/-- The same source and the same calls, whatever has been written. -/
structure SameReads {τ ρ : Type} (x' : τ × ρ) (calls' : Array Call) (x : τ × ρ)
    (calls : Array Call) : Prop where
  source : x'.2 = x.2
  calls : calls'.map Call.muted = calls.map Call.muted

section
variable {τ ρ : Type} (out : Sink τ) (read? : Option (ρ → Except String (List UInt8) × ρ))

theorem SameReads.push {x' x : τ × ρ} {calls' calls : Array Call} (h : SameReads x' calls' x calls)
    (c' c : Call) (hc : c'.muted = c.muted) (z' z : τ) (y : ρ) :
    SameReads (z', y) (calls'.push c') (z, y) (calls.push c) :=
  ⟨rfl, by rw [Array.map_push, Array.map_push, h.calls, hc]⟩

namespace State.InStep

variable {s' s : State (τ × ρ)}

theorem write_muted (h : InStep SameReads s' s) (data' data : List UInt8) :
    InStepResult SameReads (s'.write (out.device read?) data')
      (s.write (out.device read?) data) := by
  rw [Sink.write_eq, Sink.write_eq, h.streams.source]
  exact ⟨rfl, h.record (h.streams.push (.wrote data') (.wrote data) rfl _ _ _)⟩

theorem flushed_muted (h : InStep SameReads s' s) :
    InStep SameReads (out.flushed s') (out.flushed s) := by
  refine Sink.inStep_flushed h fun flush => ?_
  rw [h.streams.source]
  exact h.streams.push .flushed .flushed rfl _ _ _

theorem read_muted (h : InStep SameReads s' s) (policy : EofPolicy) :
    InStepResult SameReads (s'.read (out.device read?) policy)
      (s.read (out.device read?) policy) := by
  unfold State.read Sink.device
  rcases read? with _ | read
  · exact h.endOfInput policy
  · simp only [Option.map_some, h.streams.source]
    rcases read s.streams.2 with ⟨_ | _ | ⟨b, data⟩, y⟩
    · exact ⟨rfl, h.record (h.streams.push .readFailed .readFailed rfl _ _ y)⟩
    · have hend := h.record (h.streams.push (.received []) (.received []) rfl s'.streams.1
        s.streams.1 y)
      exact hend.endOfInput policy
    · have hgot := h.record (h.streams.push (.received (b :: data)) (.received (b :: data)) rfl
        s'.streams.1 s.streams.1 y)
      refine ⟨rfl, ?_⟩
      simp only [hgot.tape]
      exact hgot.withTape _

end State.InStep

/-- An action does the same in both modes, but for what is written. -/
theorem Instr.actsAlike_muted (eof : EofPolicy) (mode' mode : OutputMode) (i : Instr)
    {s' s : State (τ × ρ)} (h : State.InStep SameReads s' s) :
    i.ActsAlike (State.InStep SameReads) (out.device read?) ⟨eof, mode'⟩ (out.device read?)
      ⟨eof, mode⟩ s' s := by
  refine State.InStep.actsAlike ?_
  cases i with
  | output p => exact h.write_muted out read? _ _
  | input p =>
    unfold attempt
    rw [Sink.input_eq, Sink.input_eq]
    exact (h.flushed_muted out).read_muted out read? eof
  | _ => exact h.attempt_silent rfl

/-- **The output mode changes nothing but what is written**: the cells that are printed are the
same, and so is all else at every point of the run. -/
theorem Machine.after_muted (eof : EofPolicy) (mode' mode : OutputMode) (n : Nat)
    (m : Machine (τ × ρ)) :
    Progress.Alike (State.InStep SameReads) (m.after (out.device read?) ⟨eof, mode'⟩ n)
        (m.after (out.device read?) ⟨eof, mode⟩ n) ∧
      m.printed (out.device read?) ⟨eof, mode'⟩ n = m.printed (out.device read?) ⟨eof, mode⟩ n := by
  -- nothing is used up on the way
  obtain ⟨halike, hscenes⟩ := after_inStep (R := fun _ => SameReads) (fun _ => false)
    (fun _ i s' s h _ => i.actsAlike_muted out read? eof mode' mode h.tick)
    (fun _ s' s h => Sink.finish_alike (h.flushed_muted out)) n 0 m m rfl
    ⟨rfl, rfl, rfl, rfl, rfl⟩ (congrFun List.countP_false _).le
  have hprinted : ∀ l : List (Moment (τ × ρ)), l.filterMap Moment.printed? =
      (l.map Moment.scene).filterMap fun scene => scene.1.prints? scene.2 := by
    intro l
    rw [List.filterMap_map]
    rfl
  exact ⟨halike, by rw [printed, printed, hprinted, hprinted, hscenes]⟩

/-- **UTF-8 output is the text that was printed.** At every point of a run of a program on a sink,
let `cells` be the cells that it has printed, one for each output instruction it has met, in order.
In UTF-8 the bytes written are the UTF-8 of one character for each of them: the character whose code
point the cell is, and a blank if it is none; and the strict decoder gives back these characters. As
bytes, the lowest eight bits of the same cells are written, and in all else the two runs are the
same: in the failure if they have ended, in the tape, the steps, and the calls, but for what is
written. -/
theorem utf8_output_decodes (eof : EofPolicy) (p : Program) (tape : Tape) (x : τ) (y : ρ)
    (n : Nat) :
    let m := Machine.start p (.start tape (x, y))
    let text := m.after (out.device read?) ⟨eof, .utf8⟩ n
    let raw := m.after (out.device read?) ⟨eof, .byte⟩ n
    let cells := m.printed (out.device read?) ⟨eof, .utf8⟩ n
    m.run (out.device read?) ⟨eof, .utf8⟩ n = text.ending? ∧
    m.run (out.device read?) ⟨eof, .byte⟩ n = raw.ending? ∧
    Call.output text.state.calls.toList = (cells.map Cell.char).flatMap String.utf8EncodeChar ∧
    Utf8.decode (Call.output text.state.calls.toList) = .ok (cells.map Cell.char) ∧
    Call.output raw.state.calls.toList = cells.map (fun c => UInt8.ofNat c.toNat) ∧
    Progress.Alike (State.InStep SameReads) raw text := by
  intro m text raw cells
  obtain ⟨halike, hcells⟩ := m.after_muted out read? eof .byte .utf8 n
  have htext : Call.output text.state.calls.toList =
      (cells.map Cell.char).flatMap String.utf8EncodeChar := by
    rw [List.flatMap_map]
    refine (m.output_after out read? ⟨eof, .utf8⟩ n).trans ?_
    exact congrArg (fun f => cells.flatMap f) (funext OutputMode.bytes_utf8)
  have hraw : Call.output raw.state.calls.toList = cells.map fun c => UInt8.ofNat c.toNat := by
    refine (m.output_after out read? ⟨eof, .byte⟩ n).trans ?_
    rw [hcells]
    exact List.flatMap_pure_eq_map _ cells
  have hdecode := Utf8.decode_text (cells.map Cell.char)
  rw [← htext] at hdecode
  exact ⟨m.run_eq_after _ _ n, m.run_eq_after _ _ n, htext, hdecode, hraw, halike⟩

end

end TapeLang
