import TapeLang.Position
import TapeLang.Symbol

/-!
# Tokens

A token is a command with its place in the source. `Token.scan` lists the commands of a text;
everything else is skipped.

* `scan_eq_scanFrom`: the scan as a recursion on the text.
* `scanFrom_append`: a text is scanned piece by piece.
-/

namespace TapeLang

/-- What a token stands for. Token lists need not come from a scan, so a token may carry a text that
is no command. -/
inductive Token.Kind where
  | command (symbol : Symbol)
  | other (text : String)
deriving DecidableEq

/-- A token and its place. -/
structure Token where
  kind : Token.Kind
  position : Position
deriving DecidableEq

namespace Token

/-- The text of a token kind. -/
def Kind.text : Kind → String
  | .command s => Symbol.text [s]
  | .other t => t

/-- The kind with the given text: a command if the text is one command character. -/
def Kind.ofText (t : String) : Kind :=
  match t.toList with
  | [c] =>
    match Symbol.ofChar? c with
    | some s => .command s
    | none => .other t
  | _ => .other t

/-! ### Scanning -/

/-- A scan in progress: the place of the next character and the tokens so far. -/
structure Scan where
  position : Position
  tokens : Array Token

/-- One character of a scan. -/
def Scan.step (s : Scan) (c : Char) : Scan where
  position := s.position.advance c
  tokens :=
    match Symbol.ofChar? c with
    | some x => s.tokens.push ⟨.command x, s.position⟩
    | none => s.tokens

/-- The tokens of a text. -/
def scan (code : String) : List Token :=
  (code.toList.foldl Scan.step ⟨.start, #[]⟩).tokens.toList

/-- The tokens of the characters `cs`, the first of which stands at `p`. -/
def scanFrom (p : Position) : List Char → List Token
  | [] => []
  | c :: cs =>
    match Symbol.ofChar? c with
    | some x => ⟨.command x, p⟩ :: scanFrom (p.advance c) cs
    | none => scanFrom (p.advance c) cs

theorem toList_foldl_step (cs : List Char) (s : Scan) :
    (cs.foldl Scan.step s).tokens.toList = s.tokens.toList ++ scanFrom s.position cs := by
  induction cs generalizing s with
  | nil => simp [scanFrom]
  | cons c cs ih =>
    rw [List.foldl_cons, ih, scanFrom, Scan.step]
    cases Symbol.ofChar? c <;> simp

theorem scanFrom_append (p : Position) (cs ds : List Char) :
    scanFrom p (cs ++ ds) = scanFrom p cs ++ scanFrom (p.advanceAll cs) ds := by
  induction cs generalizing p with
  | nil => rfl
  | cons c cs ih =>
    rw [List.cons_append, scanFrom, scanFrom, ih, Position.advanceAll_cons]
    cases Symbol.ofChar? c <;> rfl

theorem scan_eq_scanFrom (code : String) : scan code = scanFrom .start code.toList := by
  simp [scan, toList_foldl_step]

end Token

end TapeLang
