import TapeLang.Text.Decimal
import TapeLang.Text.Digit

/-!
# Reading integers

An integer is a sequence of decimal digits of any script, with single underscores between digits if
one likes, a sign in front, and blanks around it all. More digits than `maxDigits` are refused.
-/

namespace TapeLang.Text

/-- The values of a sequence of digits with single underscores between them. -/
def digitValues? : List Char → Option (List Nat)
  | [] => none
  | [c] => (digitValue? c).map ([·])
  | c :: '_' :: rest => do return (← digitValue? c) :: (← digitValues? rest)
  | c :: rest => do return (← digitValue? c) :: (← digitValues? rest)

/-- The number with the given digits, first one highest. -/
def ofDigits (digits : List Nat) : Nat := digits.foldl (fun n d => 10 * n + d) 0

/-- The number that a sequence of digits stands for. -/
def natural? (s : List Char) : Option Nat := do
  let digits ← digitValues? s
  if digits.length ≤ maxDigits then some (ofDigits digits) else none

/-- The text without blanks at its ends. -/
def trimBlanks (s : List Char) : List Char :=
  ((s.dropWhile isBlank).reverse.dropWhile isBlank).reverse

/-- The integer that a text stands for. -/
def integer? (s : String) : Option Int :=
  match trimBlanks s.toList with
  | '-' :: digits => (natural? digits).map fun n => -(n : Int)
  | '+' :: digits => (natural? digits).map fun n => (n : Int)
  | digits => (natural? digits).map fun n => (n : Int)

end TapeLang.Text
