import TapeLang.Text.Printable

/-!
# Quoted text

Messages quote a text between apostrophes, or between quotation marks if it holds an apostrophe and
no quotation mark. A backslash and the mark in use are written with a backslash in front, line feed,
carriage return and tab by their letter, and every other unprintable character by the digits of its
code point in two, four or eight hexadecimal places.
-/

namespace TapeLang.Text

/-- The last `places` hexadecimal digits of `n`, highest first. -/
def hexDigits (places n : Nat) : List Char :=
  match places with
  | 0 => []
  | places + 1 => hexDigits places (n / 16) ++ [Nat.digitChar (n % 16)]

/-- The mark that encloses a text by default. -/
def apostrophe : Char := '\x27'

/-- The mark that encloses a text with an apostrophe in it. -/
def quotationMark : Char := '\x22'

/-- The mark in front of an escaped character. -/
def backslash : Char := '\x5c'

/-- The mark that encloses a quoted text. -/
def quoteMark (s : List Char) : Char :=
  if s.contains apostrophe && !s.contains quotationMark then quotationMark else apostrophe

/-- An unprintable character by its code point. -/
def escapeCode (n : Nat) : List Char :=
  if n < 0x100 then backslash :: 'x' :: hexDigits 2 n
  else if n < 0x10000 then backslash :: 'u' :: hexDigits 4 n
  else backslash :: 'U' :: hexDigits 8 n

/-- A character inside a quoted text. -/
def escapeChar (mark c : Char) : List Char :=
  if c = mark ∨ c = backslash then [backslash, c]
  else if c = '\n' then [backslash, 'n']
  else if c = '\r' then [backslash, 'r']
  else if c = '\t' then [backslash, 't']
  else if isPrintable c then [c]
  else escapeCode c.toNat

/-- The quoted text. -/
def quoted (s : String) : String :=
  let mark := quoteMark s.toList
  String.ofList (mark :: (s.toList.flatMap (escapeChar mark) ++ [mark]))

theorem length_hexDigits (places n : Nat) : (hexDigits places n).length = places := by
  induction places generalizing n with
  | zero => rfl
  | succ places ih => simp [hexDigits, ih]

end TapeLang.Text
