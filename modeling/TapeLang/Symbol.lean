/-!
# Command symbols

The eight characters that mean something in a source text. All other characters are comments.

* `Symbol.ofChar?_char` and `Symbol.char_of_ofChar?`: symbols and command characters correspond one
  to one.
-/

namespace TapeLang

/-- A command of the source language. -/
inductive Symbol where
  /-- `<` moves the cursor left. -/
  | left
  /-- `>` moves the cursor right. -/
  | right
  /-- `+` increments the cell. -/
  | plus
  /-- `-` decrements the cell. -/
  | minus
  /-- `.` prints the cell. -/
  | dot
  /-- `,` reads into the cell. -/
  | comma
  /-- `[` opens a loop. -/
  | opening
  /-- `]` closes a loop. -/
  | closing
deriving DecidableEq

namespace Symbol

/-- The character of a symbol. -/
def char : Symbol → Char
  | left => '<'
  | right => '>'
  | plus => '+'
  | minus => '-'
  | dot => '.'
  | comma => ','
  | opening => '['
  | closing => ']'

/-- The symbol of a character, if it is a command. -/
def ofChar? : Char → Option Symbol
  | '<' => some left
  | '>' => some right
  | '+' => some plus
  | '-' => some minus
  | '.' => some dot
  | ',' => some comma
  | '[' => some opening
  | ']' => some closing
  | _ => none

@[simp] theorem ofChar?_char (s : Symbol) : ofChar? s.char = some s := by cases s <;> rfl

theorem char_of_ofChar? {c : Char} {s : Symbol} (h : ofChar? c = some s) : s.char = c := by
  unfold ofChar? at h
  split at h <;> simp_all [char] <;> subst h <;> rfl

/-- The source text of a list of symbols. -/
def text (l : List Symbol) : String := String.ofList (l.map char)

/-- The command symbols of a text, in order. -/
def ofText (code : String) : List Symbol := code.toList.filterMap ofChar?

/-- Writing symbols and reading them back loses nothing. -/
@[simp] theorem ofText_text (l : List Symbol) : ofText (text l) = l := by
  have h : ofChar? ∘ char = some := funext ofChar?_char
  rw [ofText, text, String.toList_ofList, List.filterMap_map, h, List.filterMap_some]

end Symbol

end TapeLang
