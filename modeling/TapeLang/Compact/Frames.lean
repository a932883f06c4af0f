import TapeLang.Compact.Walk

/-!
# Compacting by frames

A `Compactor` compacts a program in passes over a stack of frames. A frame keeps its program whole
and counts how much of it is done. At a loop it waits: the count stays, and a frame for the body is
put on top. When that frame is done it is dropped, the loop is looked up in the frame below, where
it still stands, and only then is it added there and passed.

Nothing in the types says that a frame below stands at a loop, or that the passes come to an end.

* `Compactor.run`: as many passes as needed, up to a bound; `none` if that is not enough or a loop
  is not found.
* `Compactor.step_end`, `Compactor.step_close`, `Compactor.step_open`, `Compactor.step_add`: the
  four kinds of passes, by what is left of the frames.
-/

namespace TapeLang

/-- A program that is being compacted. -/
structure Frame where
  body : Program
  /-- How many instructions of the program are done. -/
  index : Nat
  /-- What has become of them, last first. -/
  out : List Instr

namespace Frame

/-- The frame of a program of which nothing is done. -/
def start (p : Program) : Frame := ⟨p, 0, []⟩

/-- The instruction at which a frame stands, none at the end. -/
def current? (f : Frame) : Option Instr := f.body[f.index]?

/-- The frame after one more instruction, with what has become of it added. -/
def advance (f : Frame) (out : List Instr) : Frame := ⟨f.body, f.index + 1, out⟩

/-- The instructions of a frame that are not done. -/
def rest (f : Frame) : Program := f.body.drop f.index

@[simp] theorem rest_advance (f : Frame) (out : List Instr) :
    (f.advance out).rest = f.rest.tail := List.tail_drop.symm

@[simp] theorem out_advance (f : Frame) (out : List Instr) : (f.advance out).out = out := rfl

theorem current?_eq_head? (f : Frame) : f.current? = f.rest.head? := List.head?_drop.symm

end Frame

/-- A stack of frames. -/
structure Compactor where
  top : Frame
  /-- The frames below the top, innermost first. -/
  waiting : List Frame

namespace Compactor

/-- What a pass leads to. -/
inductive Outcome where
  | running (c : Compactor)
  | ended (p : Program)
  /-- A loop body is done, but the frame below does not stand at a loop. -/
  | lost

/-- The compactor before its first pass. -/
def start (p : Program) : Compactor := ⟨.start p, []⟩

/-- One pass. -/
def step (level : Level) (c : Compactor) : Outcome :=
  match c.top.current? with
  | none =>
    match c.waiting with
    | [] => .ended c.top.out.reverse
    | f :: waiting =>
      match f.current? with
      | some (.loop _ pos) =>
        .running ⟨f.advance (Program.extendLoop level f.out c.top.out.reverse pos), waiting⟩
      | _ => .lost
  | some (.loop body _) => .running ⟨.start body, c.top :: c.waiting⟩
  | some i => .running ⟨c.top.advance (Program.extend c.top.out i), c.waiting⟩

/-- At most `fuel` passes. -/
def run (level : Level) : (fuel : Nat) → Compactor → Option Program
  | 0, _ => none
  | fuel + 1, c =>
    match c.step level with
    | .running c => run level fuel c
    | .ended p => some p
    | .lost => none

/-! ### The passes -/

section Passes
variable {top f : Frame} {body more : Program} {pos : Option Position} (level : Level)
  (waiting : List Frame)

/-- At the end of the program. -/
theorem step_end (h : top.rest = []) : step level ⟨top, []⟩ = .ended top.out.reverse := by
  simp only [step, Frame.current?_eq_head?, h, List.head?_nil]

/-- At the end of a loop body. -/
theorem step_close (h : top.rest = []) (hf : f.rest = .loop body pos :: more) :
    step level ⟨top, f :: waiting⟩ =
      .running ⟨f.advance (Program.extendLoop level f.out top.out.reverse pos), waiting⟩ := by
  simp only [step, Frame.current?_eq_head?, h, hf, List.head?_nil, List.head?_cons]

/-- At a loop. -/
theorem step_open (h : top.rest = .loop body pos :: more) :
    step level ⟨top, waiting⟩ = .running ⟨.start body, top :: waiting⟩ := by
  simp only [step, Frame.current?_eq_head?, h, List.head?_cons]

/-- At any other instruction. -/
theorem step_add {i : Instr} (hi : i.isLoop = false) (h : top.rest = i :: more) :
    step level ⟨top, waiting⟩ =
      .running ⟨top.advance (Program.extend top.out i), waiting⟩ := by
  simp only [step, Frame.current?_eq_head?, h, List.head?_cons]
  cases i with
  | loop => cases hi
  | _ => rfl

end Passes

end Compactor

end TapeLang
