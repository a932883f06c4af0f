import TapeLang.Machine.Step

/-!
# Running by frames

A `Runner` runs a program in passes over a stack of frames. A frame keeps its sequence whole and
counts how much of it is done. At a loop that is entered the count stays, and a frame for the body
is put on top. When that frame is done it is dropped, and the loop is tested again in the same pass:
if the cell is zero the frame below goes on behind its loop, and otherwise the body of the loop is
looked up there and run once more.

Nothing in the types says that a frame below stands at a loop.

* `Runner.passes`: what a number of passes lead to.
* `Runner.step_end`, `Runner.step_last`, `Runner.step_leave`, `Runner.step_again`,
  `Runner.step_skip`, `Runner.step_enter`, `Runner.step_act`: the kinds of passes, by what is left
  of the frames.
-/

namespace TapeLang

/-- A place in a sequence of instructions. -/
structure Mark where
  body : Program
  /-- How many instructions of the sequence are done. -/
  index : Nat

namespace Mark

/-- The place at the beginning of a sequence. -/
def start (p : Program) : Mark := ⟨p, 0⟩

/-- The instruction at the place, none at the end. -/
def current? (m : Mark) : Option Instr := m.body[m.index]?

/-- The next place. -/
def advance (m : Mark) : Mark := ⟨m.body, m.index + 1⟩

/-- The instructions that are not done. -/
def rest (m : Mark) : Program := m.body.drop m.index

theorem rest_advance (m : Mark) : m.advance.rest = m.rest.tail := List.tail_drop.symm

theorem current?_eq_head? (m : Mark) : m.current? = m.rest.head? := List.head?_drop.symm

end Mark

/-- A run in progress. -/
structure Runner (σ : Type) where
  /-- Where the run stands, innermost sequence first. -/
  frames : List Mark
  state : State σ

namespace Runner

variable {σ : Type}

/-- What a pass leads to. -/
inductive Outcome (σ : Type) where
  | running (r : Runner σ)
  | ended (e : Ending σ)
  /-- A loop body is to be run again, but the frame below does not stand at a loop. -/
  | lost

/-- The run before its first pass. -/
def start (p : Program) (s : State σ) : Runner σ := ⟨[.start p], s⟩

/-- What follows an action: the run goes on in `frames` if it succeeded. -/
def proceed (frames : List Mark) : Option Failure × State σ → Outcome σ
  | (none, s) => .running ⟨frames, s⟩
  | (some f, s) => .ended ⟨some f, s⟩

/-- A loop body is done: the loop in the frame `f` below is tested again. -/
def retest (f : Mark) (below : List Mark) (s : State σ) : Outcome σ :=
  if s.tape.read = 0 then .running ⟨f.advance :: below, s.tick⟩
  else
    match f.current? with
    | some (.loop body _) => .running ⟨.start body :: f :: below, s.tick⟩
    | _ => .lost

/-- One pass. -/
def step (dev : Device σ) (cfg : Settings) (r : Runner σ) : Outcome σ :=
  match r.frames with
  | [] => .ended (Machine.finish dev r.state)
  | top :: below =>
    match top.current? with
    | none =>
      match below with
      | [] => .running ⟨[], r.state⟩
      | f :: below => retest f below r.state
    | some (.loop body _) =>
      if r.state.tape.read = 0 then .running ⟨top.advance :: below, r.state.tick⟩
      else .running ⟨.start body :: top :: below, r.state.tick⟩
    | some i => proceed (top.advance :: below) (i.act dev cfg r.state.tick)

/-- What `n` passes lead to. There are no more of them after the end. -/
def passes (dev : Device σ) (cfg : Settings) : (n : Nat) → Runner σ → Outcome σ
  | 0, r => .running r
  | n + 1, r =>
    match r.step dev cfg with
    | .running r => passes dev cfg n r
    | .ended e => .ended e
    | .lost => .lost

/-! ### The passes -/

section Passes
variable (dev : Device σ) (cfg : Settings) {top f : Mark} {body more : Program}
  {pos : Option Position} (below : List Mark) (s : State σ)

/-- Behind the program. -/
theorem step_end : step dev cfg ⟨[], s⟩ = .ended (Machine.finish dev s) := rfl

/-- At the end of the program. -/
theorem step_last (h : top.rest = []) : step dev cfg ⟨[top], s⟩ = .running ⟨[], s⟩ := by
  simp only [step, Mark.current?_eq_head?, h, List.head?_nil]

/-- At the end of a loop body, if the cell is zero. -/
theorem step_leave (h : top.rest = []) (zero : s.tape.read = 0) :
    step dev cfg ⟨top :: f :: below, s⟩ = .running ⟨f.advance :: below, s.tick⟩ := by
  simp only [step, Mark.current?_eq_head?, h, List.head?_nil, retest, if_pos zero]

/-- At the end of a loop body, if the cell is not zero. -/
theorem step_again (h : top.rest = []) (hf : f.rest = .loop body pos :: more)
    (nonzero : s.tape.read ≠ 0) :
    step dev cfg ⟨top :: f :: below, s⟩ = .running ⟨.start body :: f :: below, s.tick⟩ := by
  simp only [step, Mark.current?_eq_head?, h, hf, List.head?_nil, List.head?_cons, retest,
    if_neg nonzero]

/-- At a loop whose cell is zero. -/
theorem step_skip (h : top.rest = .loop body pos :: more) (zero : s.tape.read = 0) :
    step dev cfg ⟨top :: below, s⟩ = .running ⟨top.advance :: below, s.tick⟩ := by
  simp only [step, Mark.current?_eq_head?, h, List.head?_cons, if_pos zero]

/-- At a loop whose cell is not zero. -/
theorem step_enter (h : top.rest = .loop body pos :: more) (nonzero : s.tape.read ≠ 0) :
    step dev cfg ⟨top :: below, s⟩ = .running ⟨.start body :: top :: below, s.tick⟩ := by
  simp only [step, Mark.current?_eq_head?, h, List.head?_cons, if_neg nonzero]

/-- At any other instruction. -/
theorem step_act {i : Instr} (hi : i.isLoop = false) (h : top.rest = i :: more) :
    step dev cfg ⟨top :: below, s⟩ = proceed (top.advance :: below) (i.act dev cfg s.tick) := by
  simp only [step, Mark.current?_eq_head?, h, List.head?_cons]
  cases i with
  | loop => cases hi
  | _ => rfl

end Passes

end Runner

end TapeLang
