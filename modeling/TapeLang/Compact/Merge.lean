import TapeLang.Cell
import TapeLang.Instr

/-!
# Merging neighbours

Moves and cell changes come in runs. A run of either kind is summed up in a `Run`, two runs of the
same kind that follow each other merge into one, and a run becomes one instruction again, or none if
it cancels out.

* A merged move keeps the trail of the symbols that are left. Of two moves in opposite directions
  the longer one survives: the earlier loses its last symbols, the later its first.
* A merged cell change is the sum modulo the cell range, with the sign of the sum. An assignment
  makes what was done to the cell before it void, and takes in what follows it.
-/

namespace TapeLang

/-- The sum of a run of moves: the signed displacement, its place and its trail, which is empty if
it is not known symbol by symbol. -/
structure Move where
  offset : Int
  pos : Option Position
  trail : List Position

/-- What a run of cell operations does to the cell. -/
inductive CellOp where
  | shift (delta : Int) (pos : Option Position)
  | assign (value : Int) (pos : Option Position)

/-- A run of instructions that merge. -/
inductive Run where
  | move (m : Move)
  | cell (c : CellOp)

namespace Move

/-- The trail, if it has one place per step. -/
def fittingTrail (count : Int) (trail : List Position) : List Position :=
  if trail.length = count then trail else []

/-- One move after the other. -/
def merge (a b : Move) : Move :=
  let net := a.offset + b.offset
  if 0 < a.offset ↔ 0 < b.offset then
    ⟨net, a.pos, if a.trail.isEmpty || b.trail.isEmpty then [] else a.trail ++ b.trail⟩
  else if b.offset.natAbs < a.offset.natAbs then
    ⟨net, a.pos, a.trail.take net.natAbs⟩
  else
    let left := b.trail.drop (b.offset.natAbs - net.natAbs)
    ⟨net, left.head?.or b.pos, left⟩

/-- The move as an instruction; a move by nothing is none. -/
def toInstr? (m : Move) : Option Instr :=
  if 0 < m.offset then some (.moveRight m.offset m.pos m.trail)
  else if m.offset < 0 then some (.moveLeft (-m.offset) m.pos m.trail)
  else none

end Move

namespace CellOp

/-- One cell operation after the other. -/
def merge : CellOp → CellOp → CellOp
  | _, assign v p => assign v p
  | assign v p, shift d _ => assign (v + d) p
  | shift c p, shift d _ => shift (c + d) p

/-- The operation as an instruction; a change by a multiple of the cell range is none. -/
def toInstr? : CellOp → Option Instr
  | shift d p =>
    if d % Cell.modulus = 0 then none
    else if 0 < d then some (.add (d % Cell.modulus) p)
    else some (.sub (-d % Cell.modulus) p)
  | assign v p => some (.set (v % Cell.modulus) p)

end CellOp

namespace Run

/-- The run that consists of one instruction, if it is of a kind that merges. -/
def ofInstr? : Instr → Option Run
  | .moveRight n p t => some (move ⟨n, p, Move.fittingTrail n t⟩)
  | .moveLeft n p t => some (move ⟨-n, p, Move.fittingTrail n t⟩)
  | .add d p => some (cell (.shift d p))
  | .sub d p => some (cell (.shift (-d) p))
  | .set v p => some (cell (.assign v p))
  | _ => none

/-- One run after the other, if they are of the same kind. -/
def merge? : Run → Run → Option Run
  | move a, move b => some (move (a.merge b))
  | cell a, cell b => some (cell (a.merge b))
  | _, _ => none

/-- The run as an instruction, or none if it does nothing. -/
def toInstr? : Run → Option Instr
  | move m => m.toInstr?
  | cell c => c.toInstr?

end Run

/-- The instructions `out`, last first, followed by `i`: a run at the end of `out` takes in `i`. A
run that cancels out is dropped, so that its neighbours meet. -/
def Program.extend (out : List Instr) (i : Instr) : List Instr :=
  match Run.ofInstr? i with
  | none => i :: out
  | some run =>
    match out with
    | [] => run.toInstr?.toList
    | prev :: before =>
      match (Run.ofInstr? prev).bind (·.merge? run) with
      | some merged => merged.toInstr?.toList ++ before
      | none => run.toInstr?.toList ++ out

/-- Whether a loop with this body always ends with the cell at zero and does nothing else: the body
is one change by an odd number, and odd numbers are the units modulo the cell range. -/
def Program.isClearLoop : Program → Bool
  | [.add d _] | [.sub d _] => d % 2 = 1
  | _ => false

end TapeLang
