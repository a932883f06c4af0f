import TapeLang.Tape.Basic
import TapeLang.Text.Decimal

/-!
# Tape dumps

A dump shows the used cells of a tape in rows of a given width, each row with the index of its first
cell in front:

```text
     0: 1 1 1 1
     4: 7
```
-/

namespace TapeLang.Tape

/-- The one width that is refused. -/
inductive DumpError where
  | zeroWidth
deriving DecidableEq

/-- The text of the refusal. -/
def DumpError.message : DumpError → String
  | .zeroWidth => "range() arg 3 must not be zero"

/-- The width of a dump, where nothing else is asked for. -/
def defaultWidth : Nat := 8

/-- The row of the cells from index `first`. -/
def row (first : Nat) (cells : List Cell) : String :=
  Text.alignRight 6 first.repr ++ ": " ++ " ".intercalate (cells.map fun c => c.toNat.repr)

/-- The rows of `width` cells each, the last one possibly shorter. -/
def rows (cells : Array Cell) (width : Nat) : List String :=
  (List.range ((cells.size + width - 1) / width)).map fun r =>
    row (r * width) (cells.extract (r * width) (r * width + width)).toList

/-- The dump of a tape in rows of at least one cell. -/
def dumpRows (t : Tape) (width : Nat) : String :=
  "\n".intercalate (rows (t.snapshot none).toArray width)

/-- The dump of a tape. A negative width leaves no rows. -/
def dump (t : Tape) (width : Int) : Except DumpError String :=
  if width = 0 then .error .zeroWidth
  else if width < 0 then .ok ""
  else .ok (t.dumpRows width.toNat)

end TapeLang.Tape
