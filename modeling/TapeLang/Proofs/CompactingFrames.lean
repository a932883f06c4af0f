import TapeLang.Compact.Frames
import TapeLang.Proofs.Weights

/-!
# The frames of a compactor follow the recursion

A compactor works on a stack of frames that wait at loops; the recursion on the tree compacts the
body of a loop and adds what becomes of it. They agree, and the number of passes is known: one per
instruction, one more per loop, when its body is done, and one at the end of the program.

* `Compactor.Nested`: each waiting frame stands at the loop whose body is on top of it. So a body
  that is done finds its loop.
* `Compactor.Follows`: the compactor is where the walk is, with the same rest, the same output and
  the same unfinished loops. Each pass is one step of the walk.
* `Compactor.passesLeft`: the passes that are left, for the rest of the top frame and for what
  follows the loops at which the others wait. Each pass takes one off.
* `Compactor.Follows.endsAfter`: so a compactor ends, after exactly these passes, with what the walk
  gives.
* `Program.compactRec_eq_foldl`: the recursion as a fold over the instructions.
-/

namespace TapeLang

/-! ### The number of loops -/

mutual

/-- The number of loops in an instruction, itself included. -/
def Instr.loopCount : Instr → Nat
  | .loop body _ => Program.loopCount body + 1
  | _ => 0

/-- The number of loops of a program, at any depth. -/
def Program.loopCount : Program → Nat
  | [] => 0
  | i :: rest => i.loopCount + Program.loopCount rest

end

theorem Instr.loopCount_of_simple {i : Instr} (h : i.isLoop = false) : i.loopCount = 0 := by
  cases i with
  | loop => cases h
  | _ => simp [Instr.loopCount]

theorem Instr.loopCount_loop (body : Program) (pos : Option Position) :
    (Instr.loop body pos).loopCount = body.loopCount + 1 := by
  simp [Instr.loopCount]

@[simp] theorem Program.loopCount_nil : Program.loopCount [] = 0 := rfl

@[simp] theorem Program.loopCount_cons (i : Instr) (r : Program) :
    Program.loopCount (i :: r) = i.loopCount + Program.loopCount r := rfl

namespace Compactor

/-! ### Endings -/

/-- The compactor ends with `p`, in pass number `n`. -/
def EndsAfter (level : Level) (c : Compactor) (n : Nat) (p : Program) : Prop :=
  ∀ fuel, c.run level fuel = if n ≤ fuel then some p else none

variable {c c' : Compactor} {p : Program}

theorem EndsAfter.of_ended {level : Level} (h : c.step level = .ended p) :
    c.EndsAfter level 1 p := by
  intro fuel
  cases fuel with
  | zero => rfl
  | succ fuel =>
    have hle : 1 ≤ fuel + 1 := by omega
    simp only [run, h, if_pos hle]

theorem EndsAfter.of_running {level : Level} {n : Nat} (h : c.step level = .running c')
    (he : c'.EndsAfter level n p) : c.EndsAfter level (n + 1) p := by
  intro fuel
  cases fuel with
  | zero => rfl
  | succ fuel => simp only [run, h, he fuel, Nat.add_le_add_iff_right]

/-! ### The stack -/

/-- The frames below a frame of the program `body`, innermost first, and the unfinished loops they
stand for: each frame waits at the loop whose body is the program of the frame on top of it. -/
inductive Nested : (body : Program) → List Frame → List OpenLoop → Prop where
  | base {body : Program} : Nested body [] []
  | wait {body : Program} {f : Frame} {l : OpenLoop} {waiting : List Frame} {loops : List OpenLoop}
      (stands : f.rest = .loop body l.pos :: l.rest) (out_eq : f.out = l.out)
      (below : Nested f.body waiting loops) : Nested body (f :: waiting) (l :: loops)

/-- The compactor is where the walk is with `rest` left behind `out`, in the unfinished `loops`. -/
structure Follows (c : Compactor) (rest : Program) (out : List Instr) (loops : List OpenLoop) :
    Prop where
  rest_eq : c.top.rest = rest
  out_eq : c.top.out = out
  nested : Nested c.top.body c.waiting loops

theorem follows_start (p : Program) : (start p).Follows p [] [] := ⟨rfl, rfl, .base⟩

variable {rest body : Program} {out : List Instr} {loops : List OpenLoop}

namespace Follows

/-- At the end of the program. -/
theorem step_nil (level : Level) (h : c.Follows [] out []) : c.step level = .ended out.reverse := by
  obtain ⟨top, waiting⟩ := c
  obtain ⟨hrest, rfl, hnested⟩ := h
  cases hnested with
  | base => exact step_end level hrest

/-- At the end of a loop body the frame below is found at its loop, and goes on behind it. -/
theorem step_close (level : Level) {l : OpenLoop} (h : c.Follows [] out (l :: loops)) :
    ∃ c', c.step level = .running c' ∧
      c'.Follows l.rest (Program.extendLoop level l.out out.reverse l.pos) loops := by
  obtain ⟨top, waiting⟩ := c
  obtain ⟨hrest, rfl, hnested⟩ := h
  cases hnested with
  | @wait _ f _ waiting _ stands out_eq below =>
    refine ⟨_, Compactor.step_close level waiting hrest stands, ?_, ?_, below⟩
    · rw [Frame.rest_advance, stands, List.tail_cons]
    · rw [Frame.out_advance, out_eq]

/-- At a loop the frame waits. -/
theorem step_open (level : Level) {pos : Option Position}
    (h : c.Follows (.loop body pos :: rest) out loops) :
    ∃ c', c.step level = .running c' ∧ c'.Follows body [] (⟨pos, rest, out⟩ :: loops) := by
  obtain ⟨top, waiting⟩ := c
  obtain ⟨hrest, hout, hnested⟩ := h
  exact ⟨_, Compactor.step_open level waiting hrest, rfl, rfl, .wait hrest hout hnested⟩

/-- Any other instruction is added. -/
theorem step_add (level : Level) {i : Instr} (hi : i.isLoop = false)
    (h : c.Follows (i :: rest) out loops) :
    ∃ c', c.step level = .running c' ∧ c'.Follows rest (Program.extend out i) loops := by
  obtain ⟨top, waiting⟩ := c
  obtain ⟨hrest, rfl, hnested⟩ := h
  refine ⟨_, Compactor.step_add level waiting hi hrest, ?_, rfl, hnested⟩
  rw [Frame.rest_advance, hrest, List.tail_cons]

end Follows

/-! ### The passes that are left -/

/-- The passes that are left with `rest` in the top frame and unfinished loops below. -/
def passesLeft (rest : Program) : List OpenLoop → Nat
  | [] => rest.size + rest.loopCount + 1
  | l :: loops => rest.size + rest.loopCount + 1 + passesLeft l.rest loops

theorem passesLeft_cons (i : Instr) (rest : Program) (loops : List OpenLoop) :
    passesLeft (i :: rest) loops = i.size + i.loopCount + passesLeft rest loops := by
  cases loops with
  | nil => simp only [passesLeft, Program.size_cons, Program.loopCount_cons]; omega
  | cons l loops => simp only [passesLeft, Program.size_cons, Program.loopCount_cons]; omega

theorem passesLeft_close (l : OpenLoop) (loops : List OpenLoop) :
    passesLeft [] (l :: loops) = passesLeft l.rest loops + 1 := by
  simp only [passesLeft, Program.size_nil, Program.loopCount_nil]
  omega

theorem passesLeft_open (body rest : Program) (pos : Option Position) (out : List Instr)
    (loops : List OpenLoop) : passesLeft (.loop body pos :: rest) loops =
      passesLeft body (⟨pos, rest, out⟩ :: loops) + 1 := by
  simp only [passesLeft_cons, passesLeft, Instr.loopCount_loop, Instr.size]
  omega

theorem passesLeft_add {i : Instr} (hi : i.isLoop = false) (rest : Program)
    (loops : List OpenLoop) : passesLeft (i :: rest) loops = passesLeft rest loops + 1 := by
  rw [passesLeft_cons, Instr.size_of_simple hi, Instr.loopCount_of_simple hi]
  omega

/-- **A compactor that follows the walk ends**, with what the walk gives, after the passes that are
left. -/
theorem Follows.endsAfter (level : Level) (h : c.Follows rest out loops) :
    c.EndsAfter level (passesLeft rest loops) (Program.walk level rest out loops) := by
  -- along the walk: a pass leads to a compactor that follows its next step, with one pass less left
  fun_induction Program.walk level rest out loops generalizing c with
  | case1 out => exact .of_ended (h.step_nil level)
  | case2 out l loops ih =>
    rw [List.unattach_reverse, List.unattach_attach] at ih
    obtain ⟨c', hstep, hc'⟩ := h.step_close level
    rw [passesLeft_close]
    exact .of_running hstep (ih hc')
  | case3 out body pos rest loops ih =>
    obtain ⟨c', hstep, hc'⟩ := h.step_open level
    rw [passesLeft_open body rest pos out]
    exact .of_running hstep (ih hc')
  | case4 out i rest loops hi ih =>
    have hs := Instr.isLoop_of_ne_loop hi
    obtain ⟨c', hstep, hc'⟩ := h.step_add level hs
    rw [passesLeft_add hs]
    exact .of_running hstep (ih hc')

end Compactor

/-! ### The recursion as a fold -/

/-- The instructions `out`, last first, followed by an instruction, where `compacted` says what
becomes of a loop body: a clear loop is folded from level 1 on, any other loop is put behind `out`
as it is. -/
def Instr.addTo (level : Int) (compacted : Program → Program) (out : List Instr) :
    Instr → List Instr
  | .loop body pos =>
    if 1 ≤ level ∧ (compacted body).isClearLoop then Program.extend out (.set 0 pos)
    else .loop (compacted body) pos :: out
  | i => Program.extend out i

theorem Level.ofInt_eq_loops {level : Int} : Level.ofInt level = .loops ↔ 1 ≤ level := by
  unfold Level.ofInt
  split
  · next h => exact iff_of_true rfl h
  · next h => exact iff_of_false Level.noConfusion h

theorem Instr.addTo_of_simple {i : Instr} (h : i.isLoop = false) (level : Int)
    (compacted : Program → Program) (out : List Instr) :
    i.addTo level compacted out = Program.extend out i := by
  cases i with
  | loop => cases h
  | _ => rfl

theorem Instr.addTo_compactRec (level : Int) (out : List Instr) (i : Instr) :
    i.addTo level (Program.compactRec level) out = i.compactOnto (.ofInt level) out := by
  rcases i.isLoop_cases with hi | ⟨body, pos, rfl⟩
  · rw [Instr.addTo_of_simple hi, Instr.compactOnto_of_simple hi]
  · rw [Instr.compactOnto_loop]
    exact if_congr (and_congr_left' Level.ofInt_eq_loops.symm) rfl rfl

theorem Program.foldl_addTo (level : Int) (p : Program) (out : List Instr) :
    p.foldl (Instr.addTo level (Program.compactRec level)) out =
      Program.compactOnto (.ofInt level) out p := by
  induction p generalizing out with
  | nil => rw [List.foldl_nil, compactOnto_nil]
  | cons i p ih => rw [List.foldl_cons, Instr.addTo_compactRec, ih, compactOnto_cons]

theorem Program.compactRec_eq_foldl (level : Int) (p : Program) : p.compactRec level =
    (p.foldl (Instr.addTo level (Program.compactRec level)) []).reverse := by
  rw [foldl_addTo, compactRec]

/-- **Frames compact as the recursion does.** The passes of a compactor end: there are as many as
instructions, one more for each loop and a last one, and no loop is looked up in vain. What they end
with is the result of the recursion, and so is the compacted program. The recursion adds one
instruction after the other, from left to right. For a loop it compacts the body first; then it adds
an assignment of zero if the level is at least 1 and the compacted body is that of a clear loop, and
otherwise puts the loop with the compacted body behind the rest, unmerged. -/
theorem frames_follow_recursion (level : Int) (p : Program) :
    (∀ fuel, (Compactor.start p).run (.ofInt level) fuel =
        if p.size + p.loopCount + 1 ≤ fuel then some (p.compactRec level) else none) ∧
      p.compact level = p.compactRec level ∧
      p.compactRec level =
        (p.foldl (Instr.addTo level (Program.compactRec level)) []).reverse := by
  have hrec : p.compact level = p.compactRec level := Program.compact_eq level p
  have hends := (Compactor.follows_start p).endsAfter (.ofInt level)
  refine ⟨fun fuel => ?_, hrec, Program.compactRec_eq_foldl level p⟩
  rw [← hrec]
  exact hends fuel

-- four instructions, one of them a loop
example :
    (Compactor.start [.loop [.add 2 none, .sub 1 none] none, .add 5 none]).run .loops 5 = none ∧
    (Compactor.start [.loop [.add 2 none, .sub 1 none] none, .add 5 none]).run .loops 6 =
      some [.set 5 none] := ⟨rfl, rfl⟩

end TapeLang
