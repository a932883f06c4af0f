import TapeLang.Compact.Merge
import TapeLang.Program.Measure

/-!
# Compacting programs

Compacting merges the runs of a program, innermost loops first. At the higher of the two levels a
loop that only clears its cell becomes an assignment of zero, which merges with its neighbours in
turn. Loops, input and output end a run.

`Program.compact` walks the program with a stack of unfinished loops, so that nesting costs no
recursion; `Program.compactRec` says the same as a recursion on the tree.
-/

namespace TapeLang

/-- How far a program is compacted. -/
inductive Level where
  /-- Merge runs. -/
  | runs
  /-- Merge runs and fold clear loops. -/
  | loops
deriving DecidableEq

/-- The level of a number: what is below 0 counts as 0, what is above 1 as 1. -/
def Level.ofInt (n : Int) : Level := if 1 ≤ n then .loops else .runs

/-- The number of a level. -/
def Level.number : Level → Nat
  | .runs => 0
  | .loops => 1

/-- The level of loaded programs, where nothing else is asked for. -/
def Level.default : Int := 1

/-- The instructions `out`, last first, followed by a loop whose compacted body is `body`. -/
def Program.extendLoop (level : Level) (out : List Instr) (body : Program) (pos : Option Position) :
    List Instr :=
  if level = .loops ∧ body.isClearLoop then Program.extend out (.set 0 pos)
  else .loop body pos :: out

/-- A loop whose body is being compacted. -/
structure OpenLoop where
  pos : Option Position
  /-- What follows the loop. -/
  rest : Program
  /-- What stands before the loop, compacted and last first. -/
  out : List Instr

/-- The work left in unfinished loops. -/
def OpenLoop.work : List OpenLoop → Nat
  | [] => 0
  | l :: loops => 2 * l.rest.size + 1 + work loops

/-- Compacts `rest` behind `out`, then what the unfinished loops leave to do. -/
def Program.walk (level : Level) (rest : Program) (out : List Instr) (loops : List OpenLoop) :
    Program :=
  match rest, loops with
  | [], [] => out.reverse
  | [], l :: loops => walk level l.rest (extendLoop level l.out out.reverse l.pos) loops
  | .loop body pos :: rest, loops => walk level body [] (⟨pos, rest, out⟩ :: loops)
  | i :: rest, loops => walk level rest (extend out i) loops
termination_by 2 * rest.size + OpenLoop.work loops
decreasing_by
  · rw [OpenLoop.work, Program.size_nil]; omega
  · show 2 * Program.size body + (2 * Program.size rest + 1 + OpenLoop.work loops) < _
    rw [Program.size_cons, Instr.size]; omega
  · have := i.size_pos
    rw [Program.size_cons]; omega

/-- The compacted program. -/
def Program.compact (level : Int) (p : Program) : Program := Program.walk (.ofInt level) p [] []

/-! ### As a recursion on the tree -/

mutual

/-- The instructions `out`, last first, followed by `i`, compacted. -/
def Instr.compactOnto (level : Level) (out : List Instr) : Instr → List Instr
  | .loop body pos => Program.extendLoop level out (Program.compactOnto level [] body).reverse pos
  | i => Program.extend out i

/-- The instructions `out`, last first, followed by a program, compacted. -/
def Program.compactOnto (level : Level) (out : List Instr) : Program → List Instr
  | [] => out
  | i :: rest => Program.compactOnto level (i.compactOnto level out) rest

end

/-- The compacted program, by recursion on the tree. -/
def Program.compactRec (level : Int) (p : Program) : Program :=
  (Program.compactOnto (.ofInt level) [] p).reverse

end TapeLang
