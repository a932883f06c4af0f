import TapeLang.Position
import TapeLang.Text.Decimal

/-!
# Instructions and programs

A program is a list of instructions; a loop holds a program of its own. Counts, deltas and values
are arbitrary integers: a program that was read from source has only units, a compacted one only
counts from 1, but nothing else is excluded.

Each instruction remembers the first source symbol it was built from, and a move also its *trail*,
one place per symbol of the run, so that a failing step can be traced to its symbol. Places never
influence what a program does.

* `Program.induction`: a property of programs is proved along the list and into the loop bodies.
-/

namespace TapeLang

/-- An instruction. -/
inductive Instr where
  /-- Moves the cursor left by `count` cells. -/
  | moveLeft (count : Int) (pos : Option Position) (trail : List Position)
  /-- Moves the cursor right by `count` cells. -/
  | moveRight (count : Int) (pos : Option Position) (trail : List Position)
  /-- Adds `delta` to the cell. -/
  | add (delta : Int) (pos : Option Position)
  /-- Subtracts `delta` from the cell. -/
  | sub (delta : Int) (pos : Option Position)
  /-- Assigns `value` to the cell. -/
  | set (value : Int) (pos : Option Position)
  /-- Prints the cell. -/
  | output (pos : Option Position)
  /-- Reads a byte into the cell. -/
  | input (pos : Option Position)
  /-- Repeats `body` while the cell is not zero. -/
  | loop (body : List Instr) (pos : Option Position)
  /-- A number where an instruction should stand. It can be carried along, but neither printed as
  source nor run. -/
  | unknown (code : Int)

/-- A program is a list of instructions. -/
abbrev Program := List Instr

/-- The complaint about an `unknown` instruction. -/
structure UnknownInstr where
  code : Int
deriving DecidableEq

namespace Instr

/-- The place of the first symbol of an instruction. -/
def pos : Instr → Option Position
  | moveLeft _ p _ | moveRight _ p _ | add _ p | sub _ p | set _ p | output p | input p
  | loop _ p => p
  | unknown _ => none

/-- The place of the symbol that performs step `step` of a move. Without a trail of the right
length, or off the move, that is the place of the instruction. -/
def positionAt (i : Instr) (step : Int) : Option Position :=
  match i with
  | moveLeft count p trail | moveRight count p trail =>
    if trail.length = count ∧ 0 ≤ step ∧ step < count then (trail[step.toNat]?).or p else p
  | i => i.pos

/-- The name of the kind of an instruction, as error messages give it. -/
def kindName : Instr → String
  | moveLeft .. => "MoveLeft"
  | moveRight .. => "MoveRight"
  | add .. => "Add"
  | sub .. => "Sub"
  | set .. => "Set"
  | output _ => "Output"
  | input _ => "Input"
  | loop .. => "Loop"
  | unknown _ => "Unknown"

/-- Whether an instruction is a loop. -/
def isLoop : Instr → Bool
  | loop .. => true
  | _ => false

theorem isLoop_cases : ∀ i : Instr, i.isLoop = false ∨ ∃ body pos, i = loop body pos
  | loop body pos => .inr ⟨body, pos, rfl⟩
  | moveLeft .. | moveRight .. | add .. | sub .. | set .. | output _ | input _ | unknown _ =>
    .inl rfl

end Instr

mutual

/-- Every loop body inside the instruction has the property, if the property passes from the bodies
in a program to the program. -/
theorem Instr.induction_body {P : Program → Prop} (nil : P [])
    (cons : ∀ i r, (∀ b p, i = .loop b p → P b) → P r → P (i :: r)) :
    ∀ i : Instr, ∀ b p, i = .loop b p → P b
  | .loop c _, _, _, rfl => Program.induction nil cons c

/-- A property of programs holds if it holds of the empty one and passes from the loop body at the
head, if there is one, and the rest to the whole. -/
theorem Program.induction {P : Program → Prop} (nil : P [])
    (cons : ∀ i r, (∀ b p, i = .loop b p → P b) → P r → P (i :: r)) : ∀ p : Program, P p
  | [] => nil
  | i :: r => cons i r (Instr.induction_body nil cons i) (Program.induction nil cons r)

end

/-- The text of the complaint. -/
def UnknownInstr.message (e : UnknownInstr) : String :=
  "unknown instruction " ++ Text.decimal e.code

end TapeLang
