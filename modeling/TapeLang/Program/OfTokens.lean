import TapeLang.Instr
import TapeLang.SyntaxError
import TapeLang.Token

/-!
# Reading programs

A program is built from its tokens in one pass that keeps the unfinished loops on a stack. The pass
stops at the first closing bracket that has no opening one, or at the first token that is no
command; at the end the innermost loop still open is to blame.
-/

namespace TapeLang

/-- Why tokens make no program. -/
inductive ParseError where
  | malformed (error : SyntaxError)
  | unknownKind (text : String)
deriving DecidableEq

/-- A program under construction. -/
structure Builder where
  /-- The instructions of the innermost unfinished sequence, last first. -/
  current : List Instr
  /-- The unfinished loops, innermost first: the place of the opening bracket and the instructions
  before it, last first. -/
  pending : List (Position × List Instr)

namespace Builder

/-- Nothing read yet. -/
def empty : Builder := ⟨[], []⟩

/-- The builder with one more instruction. -/
def push (b : Builder) (i : Instr) : Builder := { b with current := i :: b.current }

/-- One token. The source is only used to show the place of an error. -/
def step (source : Option String) (b : Builder) (t : Token) : Except ParseError Builder :=
  let p := t.position
  match t.kind with
  | .command .right => .ok (b.push (.moveRight 1 p [p]))
  | .command .left => .ok (b.push (.moveLeft 1 p [p]))
  | .command .plus => .ok (b.push (.add 1 p))
  | .command .minus => .ok (b.push (.sub 1 p))
  | .command .dot => .ok (b.push (.output p))
  | .command .comma => .ok (b.push (.input p))
  | .command .opening => .ok ⟨[], (p, b.current) :: b.pending⟩
  | .command .closing =>
    match b.pending with
    | [] => .error (.malformed (.unmatchedClose source p))
    | (opener, before) :: rest => .ok ⟨.loop b.current.reverse opener :: before, rest⟩
  | .other text => .error (.unknownKind text)

/-- The finished program. -/
def finish (source : Option String) (b : Builder) : Except ParseError Program :=
  match b.pending with
  | [] => .ok b.current.reverse
  | (opener, _) :: _ => .error (.malformed (.unmatchedOpen source opener))

end Builder

/-- The program of a list of tokens. -/
def Program.ofTokens (tokens : List Token) (source : Option String) :
    Except ParseError Program := do
  (← tokens.foldlM (Builder.step source) .empty).finish source

/-- The program of a source text. -/
def Program.parse (code : String) : Except ParseError Program :=
  Program.ofTokens (Token.scan code) code

end TapeLang
