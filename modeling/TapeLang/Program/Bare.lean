import TapeLang.Instr

/-!
# Programs without places

Two programs are the same code if they differ at most in places and trails: `Program.bare` forgets
both, and `Program.sameCode` compares what is left.

* `Program.sameCode_iff`: the comparison decides equality of the bare programs.
-/

namespace TapeLang

mutual

/-- The instruction without places. -/
def Instr.bare : Instr → Instr
  | .moveLeft n _ _ => .moveLeft n none []
  | .moveRight n _ _ => .moveRight n none []
  | .add d _ => .add d none
  | .sub d _ => .sub d none
  | .set v _ => .set v none
  | .output _ => .output none
  | .input _ => .input none
  | .loop body _ => .loop (Program.bare body) none
  | .unknown n => .unknown n

/-- The program without places. -/
def Program.bare : Program → Program
  | [] => []
  | i :: rest => i.bare :: Program.bare rest

end

mutual

/-- Whether two instructions differ at most in places. -/
def Instr.sameCode : Instr → Instr → Bool
  | .moveLeft n _ _, .moveLeft m _ _ => n == m
  | .moveRight n _ _, .moveRight m _ _ => n == m
  | .add d _, .add e _ => d == e
  | .sub d _, .sub e _ => d == e
  | .set v _, .set w _ => v == w
  | .output _, .output _ => true
  | .input _, .input _ => true
  | .loop b _, .loop c _ => Program.sameCode b c
  | .unknown n, .unknown m => n == m
  | _, _ => false

/-- Whether two programs differ at most in places. -/
def Program.sameCode : Program → Program → Bool
  | [], [] => true
  | i :: p, j :: q => i.sameCode j && Program.sameCode p q
  | _, _ => false

end

@[simp] theorem Program.bare_nil : Program.bare [] = [] := rfl

@[simp] theorem Program.bare_cons (i : Instr) (r : Program) :
    Program.bare (i :: r) = i.bare :: Program.bare r := rfl

theorem Program.bare_eq_map (p : Program) : Program.bare p = p.map Instr.bare := by
  induction p with
  | nil => rfl
  | cons i p ih => rw [Program.bare_cons, ih, List.map_cons]

theorem Program.bare_append (p q : Program) : Program.bare (p ++ q) = p.bare ++ q.bare := by
  rw [Program.bare_eq_map, Program.bare_eq_map, Program.bare_eq_map, List.map_append]

theorem Program.bare_reverse (p : Program) : Program.bare p.reverse = p.bare.reverse := by
  rw [Program.bare_eq_map, Program.bare_eq_map, List.map_reverse]

mutual

theorem Instr.sameCode_iff : ∀ i j : Instr, i.sameCode j = true ↔ i.bare = j.bare
  | .moveLeft .., j => by cases j <;> simp [Instr.sameCode, Instr.bare]
  | .moveRight .., j => by cases j <;> simp [Instr.sameCode, Instr.bare]
  | .add .., j => by cases j <;> simp [Instr.sameCode, Instr.bare]
  | .sub .., j => by cases j <;> simp [Instr.sameCode, Instr.bare]
  | .set .., j => by cases j <;> simp [Instr.sameCode, Instr.bare]
  | .output _, j => by cases j <;> simp [Instr.sameCode, Instr.bare]
  | .input _, j => by cases j <;> simp [Instr.sameCode, Instr.bare]
  | .loop b _, j => by
    cases j <;> simp [Instr.sameCode, Instr.bare]
    exact Program.sameCode_iff b _
  | .unknown _, j => by cases j <;> simp [Instr.sameCode, Instr.bare]

theorem Program.sameCode_iff : ∀ p q : Program, Program.sameCode p q = true ↔ p.bare = q.bare
  | [], [] => by simp [Program.sameCode]
  | [], _ :: _ => by simp [Program.sameCode]
  | _ :: _, [] => by simp [Program.sameCode]
  | i :: p, j :: q => by
    simp [Program.sameCode, Instr.sameCode_iff i j, Program.sameCode_iff p q]

end

end TapeLang
