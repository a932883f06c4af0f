import TapeLang.Text.Decimal

/-!
# Positions in a source text

Lines and columns start at 1, and a column counts characters. A newline starts the next line, every
other character, comments included, takes one column.
-/

namespace TapeLang

/-- A place in a source text. Places that come from outside may lie anywhere, so both numbers are
integers. -/
structure Position where
  line : Int
  col : Int
deriving DecidableEq

namespace Position

/-- The place of the first character. -/
def start : Position := ⟨1, 1⟩

/-- The place after the character `c` at `p`. -/
def advance (p : Position) (c : Char) : Position :=
  if c = '\n' then ⟨p.line + 1, 1⟩ else ⟨p.line, p.col + 1⟩

/-- The place after the characters `cs`, the first of which stands at `p`. -/
def advanceAll (p : Position) (cs : List Char) : Position := cs.foldl advance p

/-- The line and the column with a colon between them. -/
def text (p : Position) : String := Text.decimal p.line ++ ":" ++ Text.decimal p.col

theorem advance_newline (p : Position) : p.advance '\n' = ⟨p.line + 1, 1⟩ := rfl

theorem advance_of_ne {c : Char} (h : c ≠ '\n') (p : Position) :
    p.advance c = ⟨p.line, p.col + 1⟩ := if_neg h

@[simp] theorem advanceAll_nil (p : Position) : p.advanceAll [] = p := rfl

@[simp] theorem advanceAll_cons (p : Position) (c : Char) (cs : List Char) :
    p.advanceAll (c :: cs) = (p.advance c).advanceAll cs := rfl

end Position

end TapeLang
