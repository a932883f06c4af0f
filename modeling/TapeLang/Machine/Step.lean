import TapeLang.Machine.State

/-!
# The machine

A program is run with a stack of frames, each of which is what is left of a sequence. Below the
frame of a loop body stands the frame that begins with the loop itself. When the body is finished
its frame is dropped, so that the loop is met again and tests its cell once more; nesting costs no
recursion.

One step is counted per instruction met, a failing one included, and per test of a loop. At the end
of the program the output is flushed, which belongs to no instruction.

* `Machine.run`: as many transitions as needed, up to a bound; `none` if that is not enough.
* `Machine.run_add`: a larger bound gives the same ending.
-/

namespace TapeLang

/-- A run in progress. -/
structure Machine (σ : Type) where
  /-- What is left to do, innermost sequence first. -/
  frames : List Program
  state : State σ

/-- How a run ended: the failure, if it failed, and the state it left. -/
structure Ending (σ : Type) where
  failure : Option Failure
  state : State σ

/-- What a run raised that came to this ending, if it failed. -/
def Ending.raised {σ : Type} (e : Ending σ) : Option Raised := e.failure.map Failure.raised

/-- What a transition leads to. -/
inductive Progress (σ : Type) where
  | running (m : Machine σ)
  | ended (e : Ending σ)

namespace Machine

variable {σ : Type}

/-- The machine before its first transition. -/
def start (p : Program) (s : State σ) : Machine σ := ⟨[p], s⟩

/-- The end of the program: the output is flushed. -/
def finish (dev : Device σ) (s : State σ) : Ending σ :=
  match s.flush dev with
  | (none, s) => ⟨none, s⟩
  | (some f, s) => ⟨some (.fault f.report), s⟩

/-- What follows an action: `frames` is left to do if it succeeded. -/
def proceed (frames : List Program) : Option Failure × State σ → Progress σ
  | (none, s) => .running ⟨frames, s⟩
  | (some f, s) => .ended ⟨some f, s⟩

/-- One transition. -/
def step (dev : Device σ) (cfg : Settings) (m : Machine σ) : Progress σ :=
  match m.frames with
  | [] | [[]] => .ended (finish dev m.state)
  | [] :: frames => .running ⟨frames, m.state⟩
  | (.loop body pos :: rest) :: frames =>
    let s := m.state.tick
    if s.tape.read = 0 then .running ⟨rest :: frames, s⟩
    else .running ⟨body :: (.loop body pos :: rest) :: frames, s⟩
  | (i :: rest) :: frames => proceed (rest :: frames) (i.act dev cfg m.state.tick)

/-- At most `fuel` transitions. -/
def run (dev : Device σ) (cfg : Settings) : (fuel : Nat) → Machine σ → Option (Ending σ)
  | 0, _ => none
  | fuel + 1, m =>
    match m.step dev cfg with
    | .running m => run dev cfg fuel m
    | .ended e => some e

/-! ### The transitions -/

section Transitions
variable (dev : Device σ) (cfg : Settings) (s : State σ)

/-- At the end of the program. -/
theorem step_end : step dev cfg ⟨[[]], s⟩ = .ended (finish dev s) := rfl

/-- At the end of a loop body. -/
theorem step_pop (f : Program) (frames : List Program) :
    step dev cfg ⟨[] :: f :: frames, s⟩ = .running ⟨f :: frames, s⟩ := rfl

/-- At a loop whose cell is zero. -/
theorem step_skip (h : s.tape.read = 0) (body rest : Program) (pos : Option Position)
    (frames : List Program) :
    step dev cfg ⟨(.loop body pos :: rest) :: frames, s⟩ = .running ⟨rest :: frames, s.tick⟩ :=
  if_pos h

/-- At a loop whose cell is not zero. -/
theorem step_enter (h : s.tape.read ≠ 0) (body rest : Program) (pos : Option Position)
    (frames : List Program) :
    step dev cfg ⟨(.loop body pos :: rest) :: frames, s⟩ =
      .running ⟨body :: (.loop body pos :: rest) :: frames, s.tick⟩ := if_neg h

/-- At any other instruction. -/
theorem step_act {i : Instr} (h : i.isLoop = false) (rest : Program) (frames : List Program) :
    step dev cfg ⟨(i :: rest) :: frames, s⟩ = proceed (rest :: frames) (i.act dev cfg s.tick) := by
  cases i with
  | loop => exact absurd h Bool.noConfusion
  | _ => rfl

end Transitions

theorem run_add {dev : Device σ} {cfg : Settings} {n : Nat} {m : Machine σ} {e : Ending σ}
    (h : run dev cfg n m = some e) (k : Nat) : run dev cfg (n + k) m = some e := by
  induction n generalizing m with
  | zero => simp [run] at h
  | succ n ih =>
    rw [Nat.add_right_comm]
    unfold run at h ⊢
    split at h
    · exact ih h
    · exact h

end Machine

end TapeLang
