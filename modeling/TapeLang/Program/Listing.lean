import TapeLang.Instr
import TapeLang.Text.Decimal

/-!
# Listings

The listing of a program names every instruction with its number, loops with the listing of their
body, as in `[Add(delta=2), Loop(body=[Output(), Sub(delta=1)])]`. Places are left out, so programs
of the same code have the same listing. A program with a number that is too long to be written has
none.
-/

namespace TapeLang

open Text (decimal?)

/-- A listed instruction with one named field. -/
def Instr.field (name field : String) (value? : Option String) : Option String :=
  value?.map fun value => name ++ "(" ++ field ++ "=" ++ value ++ ")"

/-- Listings, one behind the other. -/
def Program.bracket (listings : List String) : String := "[" ++ ", ".intercalate listings ++ "]"

mutual

/-- The listing of an instruction. -/
def Instr.listing : Instr → Option String
  | .moveLeft n _ _ => Instr.field "MoveLeft" "count" (decimal? n)
  | .moveRight n _ _ => Instr.field "MoveRight" "count" (decimal? n)
  | .add d _ => Instr.field "Add" "delta" (decimal? d)
  | .sub d _ => Instr.field "Sub" "delta" (decimal? d)
  | .set v _ => Instr.field "Set" "value" (decimal? v)
  | .output _ => some "Output()"
  | .input _ => some "Input()"
  | .loop body _ => Instr.field "Loop" "body" ((Program.listings body).map Program.bracket)
  | .unknown n => decimal? n

/-- The listings of the instructions of a program. -/
def Program.listings : Program → Option (List String)
  | [] => some []
  | i :: rest => do return (← i.listing) :: (← Program.listings rest)

end

/-- The listing of a program. -/
def Program.listing (p : Program) : Option String := (Program.listings p).map Program.bracket

end TapeLang
