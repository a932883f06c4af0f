import TapeLang.Proofs.Levels
import TapeLang.Proofs.Weights

/-!
# The nesting of compacted programs

Merging removes nothing but moves and cell operations, so without folding the loops of a program
stay nested as they are. A folded loop leaves an assignment, and an assignment lasts: what is added
behind it is taken in or stands behind it (`Program.Lasting.extend`). So a body in which there was a
loop never becomes the single change of a clear loop, and of the loops that are nested in each other
only the innermost can be folded.

* `Program.depth_extend`: adding an instruction keeps the depth.
* `Program.not_isClearLoop`: a body with a loop in it is not folded with its own loop.
* `Program.depth_compactOnto_runs`, `Program.depth_compactOnto_bounds`: the depth of a compacted
  program.
* `compacting_keeps_nesting`: size and depth of a compacted program.
-/

namespace TapeLang

theorem Instr.depth_of_simple {i : Instr} (h : i.isLoop = false) : i.depth = 0 := by
  cases i with
  | loop => cases h
  | _ => simp [Instr.depth]

theorem Instr.depth_loop (b : Program) (pos : Option Position) :
    (Instr.loop b pos).depth = b.depth + 1 := by
  rw [Instr.depth]

/-- An instruction that no later one removes: an assignment takes in what follows it, and nothing
merges with a loop. -/
def Instr.isLasting : Instr → Bool
  | set .. | loop .. => true
  | _ => false

namespace Program

variable {level : Level} {out : List Instr} {i : Instr}

/-! ### Adding instructions -/

theorem depth_reverse (p : Program) : depth p.reverse = depth p := by
  induction p with
  | nil => rfl
  | cons i p ih =>
    rw [List.reverse_cons, depth_append, ih, depth_cons, depth_cons, depth_nil]
    omega

theorem depth_toInstr? (r : Run) : depth r.toInstr?.toList = 0 := by
  rcases hi : r.toInstr? with _ | i
  · rfl
  · have hd : i.depth = 0 := Instr.depth_of_simple (Run.isLoop_of_toInstr? hi)
    rw [Option.toList_some, depth_cons, hd, depth_nil]
    rfl

/-- Adding an instruction that is no loop keeps the depth: what it makes vanish is no loop
either. -/
theorem depth_extend (hi : i.isLoop = false) : depth (extend out i) = depth out := by
  rcases hr : Run.ofInstr? i with _ | r
  · rw [extend_of_none hr, depth_cons, Instr.depth_of_simple hi]
    omega
  by_cases hk : endKind? out = some r.kind
  · obtain ⟨prev, before, a, rfl, hp, ha⟩ := exists_of_endKind? hk
    obtain ⟨c, hm, -⟩ := Run.exists_merge? ha
    have hprev : prev.depth = 0 := Instr.depth_of_simple (Run.isLoop_of_ofInstr? hp)
    rw [extend_of_merge hr hp hm, depth_append, depth_toInstr?, depth_cons, hprev]
  · rw [extend_of_apart hr hk, depth_append, depth_toInstr?]
    omega

/-- There is an instruction in the sequence that no later one removes. -/
def Lasting (out : List Instr) : Prop := ∃ j ∈ out, j.isLasting = true

theorem Lasting.head {j : Instr} (h : j.isLasting = true) : Lasting (j :: out) := ⟨j, .head _, h⟩

theorem Lasting.append {p : Program} (h : Lasting out) : Lasting (p ++ out) := by
  obtain ⟨j, hj, hl⟩ := h
  exact ⟨j, List.mem_append_right p hj, hl⟩

theorem Lasting.reverse (h : Lasting out) : Lasting out.reverse := by
  obtain ⟨j, hj, hl⟩ := h
  exact ⟨j, List.mem_reverse.2 hj, hl⟩

/-- **What lasts is not removed.** -/
theorem Lasting.extend (h : Lasting out) (i : Instr) : Lasting (extend out i) := by
  rcases hr : Run.ofInstr? i with _ | r
  · rw [extend_of_none hr]
    exact h.append (p := [i])
  by_cases hk : endKind? out = some r.kind
  · obtain ⟨prev, before, a, rfl, hp, ha⟩ := exists_of_endKind? hk
    obtain ⟨c, hm, -⟩ := Run.exists_merge? ha
    obtain ⟨j, hj, hl⟩ := h
    rcases List.mem_cons.1 hj with rfl | hj
    · -- the last instruction is an assignment, and so it stays one
      cases j with
      | set v p =>
        cases hp
        rcases r with m | o
        · cases ha
        · rw [extend_set hr]
          exact .head rfl
      | loop => cases hp
      | _ => cases hl
    · rw [extend_of_merge hr hp hm]
      exact Lasting.append ⟨j, hj, hl⟩
  · rw [extend_of_apart hr hk]
    exact h.append

/-- A loop leaves something that lasts, folded or not. -/
theorem lasting_extendLoop (level : Level) (out : List Instr) (body : Program)
    (pos : Option Position) : Lasting (extendLoop level out body pos) := by
  unfold extendLoop
  split
  · obtain ⟨w, hw⟩ := exists_extend_set out 0 pos
    rw [hw]
    exact .head rfl
  · exact .head rfl

theorem Lasting.compactOnto (p : Program) : ∀ out : List Instr, Lasting out →
    Lasting (compactOnto level out p) := by
  induction p with
  | nil =>
    intro out h
    rwa [compactOnto_nil]
  | cons i p ih =>
    intro out h
    rw [compactOnto_cons]
    apply ih
    rcases i.isLoop_cases with hl | ⟨b, pos, rfl⟩
    · rw [Instr.compactOnto_of_simple hl]
      exact h.extend i
    · rw [Instr.compactOnto_loop]
      exact lasting_extendLoop level out _ pos

/-- A program with a loop in it leaves something that lasts. -/
theorem lasting_compactOnto (p : Program) : ∀ out : List Instr, 0 < p.depth →
    Lasting (compactOnto level out p) := by
  induction p with
  | nil => intro out h; simp at h
  | cons i p ih =>
    intro out h
    rw [compactOnto_cons]
    rcases i.isLoop_cases with hl | ⟨b, pos, rfl⟩
    · have hd := Instr.depth_of_simple hl
      apply ih
      simp only [depth_cons] at h
      omega
    · rw [Instr.compactOnto_loop]
      exact (lasting_extendLoop level out _ pos).compactOnto p _

theorem Lasting.not_isClearLoop {b : Program} (h : Lasting b) : b.isClearLoop = false := by
  obtain ⟨j, hj, hl⟩ := h
  rcases hb : b.isClearLoop with _ | _
  · rfl
  · obtain ⟨i, d, p, rfl, hi, -⟩ := exists_of_isClearLoop hb
    obtain rfl := List.mem_singleton.1 hj
    cases j with
    | set | loop => cases hi
    | _ => cases hl

/-- **Folding does not spread outward**: what is left of a body with a loop in it is no single
change of the cell. -/
theorem not_isClearLoop (level : Level) {b : Program} (h : 0 < b.depth) :
    isClearLoop (compactOnto level [] b).reverse = false :=
  (lasting_compactOnto b [] h).reverse.not_isClearLoop

/-! ### The depth of a compacted program -/

/-- A loop that is not folded counts with its body. -/
theorem depth_extendLoop {body : Program} (h : ¬ (level = .loops ∧ body.isClearLoop = true))
    (out : List Instr) (pos : Option Position) :
    depth (extendLoop level out body pos) = max (depth out) (depth body + 1) := by
  rw [extendLoop, if_neg h, depth_cons, Instr.depth_loop]
  omega

theorem depth_extendLoop_bounds (level : Level) (out : List Instr) (body : Program)
    (pos : Option Position) : depth out ≤ depth (extendLoop level out body pos) ∧
      depth (extendLoop level out body pos) ≤ max (depth out) (depth body + 1) := by
  unfold extendLoop
  split
  · rw [depth_extend rfl]
    omega
  · rw [depth_cons, Instr.depth_loop]
    omega

theorem depth_compactOnto_runs (p : Program) : ∀ out : List Instr,
    depth (compactOnto .runs out p) = max (depth out) (depth p) := by
  induction p using Program.induction with
  | nil =>
    intro out
    simp [compactOnto_nil]
  | cons i r body rest =>
    intro out
    rw [compactOnto_cons, rest, depth_cons]
    rcases i.isLoop_cases with hl | ⟨b, pos, rfl⟩
    · have hd := Instr.depth_of_simple hl
      rw [Instr.compactOnto_of_simple hl, depth_extend hl]
      omega
    · have hb := body b pos rfl []
      have hkept : ¬ (Level.runs = .loops ∧ isClearLoop (compactOnto .runs [] b).reverse = true) :=
        fun h => by cases h.1
      rw [depth_nil] at hb
      rw [Instr.compactOnto_loop, depth_extendLoop hkept, depth_reverse, hb, Instr.depth_loop]
      omega

/-- Nothing gets deeper, and at most the innermost of the loops that are nested in each other is
folded. -/
theorem depth_compactOnto_bounds (level : Level) (p : Program) : ∀ out : List Instr,
    max (depth out) (depth p - 1) ≤ depth (compactOnto level out p) ∧
      depth (compactOnto level out p) ≤ max (depth out) (depth p) := by
  induction p using Program.induction with
  | nil =>
    intro out
    simp [compactOnto_nil]
  | cons i r body rest =>
    intro out
    have hrest := rest (i.compactOnto level out)
    rw [compactOnto_cons, depth_cons]
    rcases i.isLoop_cases with hl | ⟨b, pos, rfl⟩
    · have hd := Instr.depth_of_simple hl
      rw [Instr.compactOnto_of_simple hl, depth_extend hl] at hrest
      rw [Instr.compactOnto_of_simple hl]
      omega
    · have hb := body b pos rfl []
      have hloop := depth_extendLoop_bounds level out (compactOnto level [] b).reverse pos
      rw [depth_nil] at hb
      rw [depth_reverse] at hloop
      rw [Instr.compactOnto_loop] at hrest ⊢
      rw [Instr.depth_loop]
      by_cases hflat : 0 < depth b
      · -- the body holds a loop, so its own loop stays
        have hkept : ¬ (level = .loops ∧ isClearLoop (compactOnto level [] b).reverse = true) := by
          simp [not_isClearLoop level hflat]
        have hdepth := depth_extendLoop hkept out pos
        rw [depth_reverse] at hdepth
        omega
      · omega

theorem depth_compact (level : Int) (p : Program) :
    depth (p.compact level) = depth (compactOnto (.ofInt level) [] p) := by
  rw [compact_eq, depth_reverse]

end Program

/-- **Compacting never enlarges a program and keeps its nesting.** There are no more instructions
than before. The depth stays the same where clear loops are not folded, and is at most one less
where they are: what is left of a body with a loop in it is never a clear loop's, so no fold makes
room for another one around it. -/
theorem compacting_keeps_nesting (level : Int) (p : Program) :
    (p.compact level).size ≤ p.size ∧
    (level ≤ 0 → (p.compact level).depth = p.depth) ∧
    p.depth - 1 ≤ (p.compact level).depth ∧ (p.compact level).depth ≤ p.depth ∧
    ((p.compact level).isClearLoop = true → p.depth = 0) := by
  have hbounds := Program.depth_compactOnto_bounds (.ofInt level) p []
  rw [← Program.depth_compact, Program.depth_nil] at hbounds
  refine ⟨p.size_compact_le level, fun hl => ?_, by omega, by omega, fun hc => ?_⟩
  · have hruns : Level.ofInt level = .runs := if_neg (by omega)
    rw [Program.depth_compact, hruns, Program.depth_compactOnto_runs, Program.depth_nil]
    omega
  · by_contra hpos
    rw [Program.compact_eq, Program.not_isClearLoop _ (by omega)] at hc
    cases hc

/-- The inner of two loops is folded and the outer one stays, so one level of nesting is lost; where
nothing is folded both stay. The body of the inner one is a clear loop's and has no loop in it. -/
theorem compacting_keeps_nesting_inner :
    let p : Program :=
      [.add 2 none, .sub 1 none, .loop [.loop [.sub 1 none, .add 4 none] none] none]
    p.compact 1 = [.add 1 none, .loop [.set 0 none] none] ∧ p.depth - 1 = (p.compact 1).depth ∧
      (p.compact 0).depth = p.depth ∧ (p.compact 1).size ≤ p.size ∧
      Program.isClearLoop (Program.compact 1 [.sub 1 none, .add 4 none]) = true ∧
      Program.depth [.sub 1 none, .add 4 none] = 0 := by
  intro p
  have hp : p.compact 1 = [.add 1 none, .loop [.set 0 none] none] := by
    rw [Program.compact_eq]
    rfl
  have hc : Program.isClearLoop (Program.compact 1 [.sub 1 none, .add 4 none]) = true := by
    rw [Program.compact_eq]
    rfl
  obtain ⟨hsize, -, -, -, -⟩ := compacting_keeps_nesting 1 p
  obtain ⟨-, hruns, -, -, -⟩ := compacting_keeps_nesting 0 p
  obtain ⟨-, -, -, -, hclear⟩ := compacting_keeps_nesting 1 [.sub 1 none, .add 4 none]
  exact ⟨hp, by rw [hp]; rfl, hruns (by decide), hsize, hc, hclear hc⟩

end TapeLang
