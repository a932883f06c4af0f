import TapeLang.Text.Excerpt

/-!
# Syntax errors

A syntax error says what is wrong and where, shows the place in the source if the source is known,
and ends with a hint on how to mend an unmatched bracket.
-/

namespace TapeLang

/-- What kind of syntax error it is. -/
inductive SyntaxError.Category where
  | general
  | unmatchedOpen
  | unmatchedClose
deriving DecidableEq

/-- A syntax error. -/
structure SyntaxError where
  category : SyntaxError.Category
  text : String
  position : Position
  /-- The place in the source, empty if the source is not known. -/
  excerpt : String
deriving DecidableEq

namespace SyntaxError

/-- How to mend it. -/
def Category.hint? : Category → Option String
  | .general => none
  | .unmatchedOpen => some "Every \"[\" needs a matching \"]\" later in the program."
  | .unmatchedClose =>
    some "This \"]\" has no \"[\" before it. Remove it or add the missing \"[\"."

/-- The error at a place, with the excerpt if there is a source. -/
def make (category : Category) (text : String) (source : Option String) (position : Position) :
    SyntaxError where
  category
  text
  position
  excerpt := source.elim "" (Excerpt.ofSource · position)

/-- The error as it is printed. -/
def message (e : SyntaxError) : String :=
  "SyntaxError: " ++ e.text ++
    " (line " ++ Text.decimal e.position.line ++ " col " ++ Text.decimal e.position.col ++ ")" ++
    (if e.excerpt.isEmpty then "" else "\n" ++ e.excerpt) ++
    e.category.hint?.elim "" ("\nHint: " ++ ·)

/-- A closing bracket without its opening one. -/
def unmatchedClose (source : Option String) (position : Position) : SyntaxError :=
  make .unmatchedClose "Unmatched ']'" source position

/-- An opening bracket without its closing one. -/
def unmatchedOpen (source : Option String) (position : Position) : SyntaxError :=
  make .unmatchedOpen "Unmatched '['" source position

end SyntaxError

end TapeLang
