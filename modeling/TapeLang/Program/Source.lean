import TapeLang.Cell
import TapeLang.Instr
import TapeLang.Symbol

/-!
# Programs as source

Every instruction is printed as symbols that do the same: a move or a change by a count as that many
unit symbols, none if the count is not positive; an assignment as a clear loop followed by the
shorter way from zero to the value, up or, past the middle of the cell range, down.

* `Program.symbols_append`: the symbols of a sequence are those of its parts, in order.
-/

namespace TapeLang

/-- As many copies of a symbol as `n` says, none if `n` is negative. -/
def Symbol.times (s : Symbol) (n : Int) : List Symbol := List.replicate n.toNat s

/-- The symbols `[-]`, which clear a cell. -/
def Symbol.clear : List Symbol := [.opening, .minus, .closing]

mutual

/-- The symbols of an instruction. -/
def Instr.symbols : Instr → Except UnknownInstr (List Symbol)
  | .moveRight n _ _ => .ok (Symbol.right.times n)
  | .moveLeft n _ _ => .ok (Symbol.left.times n)
  | .add d _ => .ok (Symbol.plus.times d)
  | .sub d _ => .ok (Symbol.minus.times d)
  | .set v _ =>
    .ok (Symbol.clear ++
      if Cell.modulus / 2 < v then Symbol.minus.times (Cell.modulus - v) else Symbol.plus.times v)
  | .output _ => .ok [.dot]
  | .input _ => .ok [.comma]
  | .loop body _ => do
    let inner ← Program.symbols body
    return .opening :: (inner ++ [.closing])
  | .unknown n => .error ⟨n⟩

/-- The symbols of a program. -/
def Program.symbols : Program → Except UnknownInstr (List Symbol)
  | [] => .ok []
  | i :: rest => do
    let first ← i.symbols
    let others ← Program.symbols rest
    return first ++ others

end

/-- The source text of a program. -/
def Program.emit (p : Program) : Except UnknownInstr String := p.symbols.map Symbol.text

@[simp] theorem Program.symbols_nil : Program.symbols [] = .ok [] := rfl

theorem Program.symbols_cons (i : Instr) (r : Program) :
    Program.symbols (i :: r) = (do
      let first ← i.symbols
      let others ← Program.symbols r
      return first ++ others) := rfl

theorem Program.symbols_append (p q : Program) :
    Program.symbols (p ++ q) = (do
      let first ← Program.symbols p
      let others ← Program.symbols q
      return first ++ others) := by
  induction p with
  | nil => simp [bind, Except.bind]; cases Program.symbols q <;> rfl
  | cons i p ih =>
    rw [List.cons_append, Program.symbols_cons, Program.symbols_cons, ih]
    cases i.symbols <;> cases Program.symbols p <;> cases Program.symbols q <;>
      simp [bind, Except.bind, pure, Except.pure]

end TapeLang
