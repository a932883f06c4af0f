import TapeLang.Instr

/-!
# Size and depth of a program

`Program.size` counts the instructions of a program with those of its loop bodies, `Program.depth`
how deep its loops are nested. On a concatenation the first adds up and the second is the maximum.
-/

namespace TapeLang

mutual

/-- The number of instructions in an instruction: a loop counts with its body. -/
def Instr.size : Instr → Nat
  | .loop body _ => Program.size body + 1
  | _ => 1

/-- The number of instructions of a program, loop bodies included. -/
def Program.size : Program → Nat
  | [] => 0
  | i :: rest => i.size + Program.size rest

end

mutual

/-- The nesting depth of an instruction: a loop is one deeper than its body. -/
def Instr.depth : Instr → Nat
  | .loop body _ => Program.depth body + 1
  | _ => 0

/-- The nesting depth of a program: that of its deepest instruction, 0 without loops. -/
def Program.depth : Program → Nat
  | [] => 0
  | i :: rest => max i.depth (Program.depth rest)

end

theorem Instr.size_pos (i : Instr) : 0 < i.size := by
  cases i <;> simp [Instr.size]

@[simp] theorem Program.size_nil : Program.size [] = 0 := rfl

@[simp] theorem Program.size_cons (i : Instr) (r : Program) :
    Program.size (i :: r) = i.size + Program.size r := rfl

@[simp] theorem Program.depth_nil : Program.depth [] = 0 := rfl

@[simp] theorem Program.depth_cons (i : Instr) (r : Program) :
    Program.depth (i :: r) = max i.depth (Program.depth r) := rfl

@[simp] theorem Program.depth_append (p q : Program) :
    Program.depth (p ++ q) = max (Program.depth p) (Program.depth q) := by
  induction p with
  | nil => simp
  | cons i p ih => simp [ih, Nat.max_assoc]

end TapeLang
