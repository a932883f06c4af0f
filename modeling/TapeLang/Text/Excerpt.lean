import TapeLang.Position
import TapeLang.Text.Decimal

/-!
# Source excerpts

An excerpt shows a line of a text with a few lines around it. Each line has its number in front of a
gutter, the line in question is marked, and a caret below it points at the column:

```text
     1 | [
>    2 |   [+
       |   ^
```
-/

namespace TapeLang.Excerpt

open Text (decimal alignRight)

/-- The lines of a text, split at newlines. -/
def linesOf (source : String) : List String := (source.toList.splitOn '\n').map String.ofList

/-- The number of lines shown before and after the marked one, where nothing else is asked for. -/
def defaultContext : Int := 2

/-- The marked line: the given one, or the nearest that there is. -/
def marked (count : Nat) (line : Int) : Int := max 1 (min line count)

/-- The number of the first line shown. -/
def first (count : Nat) (line context : Int) : Int := max 1 (marked count line - context)

/-- The number of the last line shown. -/
def last (count : Nat) (line context : Int) : Int := min count (marked count line + context)

/-- A line with its number. -/
def row (isMarked : Bool) (number : Nat) (text : String) : String :=
  (if isMarked then ">" else " ") ++ " " ++ alignRight 4 number.repr ++ " | " ++ text

/-- The caret under column `col`; there is none left of the first column. -/
def caret (col : Int) : List String :=
  if 1 ≤ col then ["       | " ++ String.ofList (List.replicate (col - 1).toNat ' ') ++ "^"] else []

/-- The rows of an excerpt. -/
def rows (lines : List String) (line col context : Int) : List String :=
  ((lines.zipIdx 1).filter fun (_, number) =>
      first lines.length line context ≤ number ∧ number ≤ last lines.length line context).flatMap
    fun (text, number) =>
      if (number : Int) = marked lines.length line then row true number text :: caret col
      else [row false number text]

/-- The excerpt of `lines` around a line, with a caret under column `col`. -/
def render (lines : List String) (line col context : Int) : String :=
  "\n".intercalate (rows lines line col context)

/-- The excerpt around a place of a source text. -/
def ofSource (source : String) (p : Position) : String :=
  render (linesOf source) p.line p.col defaultContext

end TapeLang.Excerpt
