import TapeLang.Proofs.FixedPoints

/-!
# The normal form at every depth

What the normal form of a compacted program comes to for each of the sequences in it, whether it is
the program itself or the body of a loop, however deep. The facts are told by the constructors of
the instructions, not by the runs that compacting puts them into.

* `Program.Inside`: a sequence of instructions somewhere in a program.
* `Program.Normal.inside`: a program in normal form is so at every depth.
* `compacted_at_every_depth`: no two moves and no two changes of the cell stand side by side, all
  numbers are in range, and no loop is left that should have been folded.
-/

namespace TapeLang

/-- Whether an instruction moves the cursor. -/
def Instr.isMove : Instr → Bool
  | moveLeft .. | moveRight .. => true
  | _ => false

/-- Whether an instruction adds to the cell, subtracts from it or assigns to it. -/
def Instr.isCellChange : Instr → Bool
  | add .. | sub .. | set .. => true
  | _ => false

theorem Instr.kind?_eq_move {i : Instr} : i.isMove = true → i.kind? = some .move := by
  cases i with
  | moveLeft | moveRight => exact fun _ => rfl
  | _ => exact fun h => nomatch h

theorem Instr.kind?_eq_cell {i : Instr} : i.isCellChange = true → i.kind? = some .cell := by
  cases i with
  | add | sub | set => exact fun _ => rfl
  | _ => exact fun h => nomatch h

/-- Neighbours that compacting has left apart are not both moves, and not both changes of the
cell. -/
theorem Instr.Apart.neighbours {i j : Instr} (h : i.Apart j) :
    ¬ (i.isMove = true ∧ j.isMove = true) ∧ ¬ (i.isCellChange = true ∧ j.isCellChange = true) := by
  refine ⟨fun ⟨hi, hj⟩ => ?_, fun ⟨hi, hj⟩ => ?_⟩
  · exact h .move (kind?_eq_move hi) (kind?_eq_move hj)
  · exact h .cell (kind?_eq_cell hi) (kind?_eq_cell hj)

namespace Program

/-- The sequence `b` is the program itself or the body of a loop in it, at any depth. -/
inductive Inside (b : Program) : Program → Prop where
  | here : Inside b b
  | deeper {c p : Program} {pos : Option Position} (mem : .loop c pos ∈ p) (inside : Inside b c) :
      Inside b p

theorem Normal.inside {level : Level} {p b : Program} (h : Normal level p) (hb : b.Inside p) :
    Normal level b := by
  induction hb with
  | here => exact h
  | deeper mem _ ih => exact ih (h.body mem)

/-- A loop is not clear if its body is not a single odd change. -/
theorem ne_of_isClearLoop {b : Program} (h : b.isClearLoop = false) {d : Int} (odd : d % 2 = 1)
    (q : Option Position) : b ≠ [.add d q] ∧ b ≠ [.sub d q] := by
  constructor
  · rintro rfl
    exact of_decide_eq_false h odd
  · rintro rfl
    exact of_decide_eq_false h odd

end Program

/-- **Compacted programs are in normal form at every depth.** In each sequence of instructions
inside a compacted program, the loop bodies included, no two neighbours are both moves or both
changes of the cell; every move goes by at least one cell and has no trail or one with a place for
each cell, every number that is added or subtracted is in the cell range and not zero, and every
number that is assigned is in the range; and where clear loops are folded, no loop has a single odd
change as its body. -/
theorem compacted_at_every_depth (level : Int) (p b : Program)
    (inside : b.Inside (p.compact level)) :
    (∀ front i j back, b = front ++ i :: j :: back →
      ¬ (i.isMove = true ∧ j.isMove = true) ∧
        ¬ (i.isCellChange = true ∧ j.isCellChange = true)) ∧
    (∀ (n : Int) q t, .moveLeft n q t ∈ b ∨ .moveRight n q t ∈ b →
      1 ≤ n ∧ (t = [] ∨ t.length = n)) ∧
    (∀ d q, .add d q ∈ b ∨ .sub d q ∈ b → 1 ≤ d ∧ d < Cell.modulus) ∧
    (∀ v q, .set v q ∈ b → 0 ≤ v ∧ v < Cell.modulus) ∧
    (1 ≤ level → ∀ c pos, .loop c pos ∈ b → ∀ d q, d % 2 = 1 →
      c ≠ [.add d q] ∧ c ≠ [.sub d q]) := by
  obtain ⟨canonical, apart, -, unclear⟩ := (Program.normal_compact level p).inside inside
  refine ⟨fun front i j back hb => ?_, fun n q t hm => ?_, fun d q hd => ?_, fun v q hv => ?_,
    fun hl c pos hc d q odd => ?_⟩
  · rw [hb] at apart
    have hij : i.Apart j := (List.isChain_append.1 apart).2.1.rel
    exact hij.neighbours
  · rcases hm with hm | hm
    · exact canonical _ hm
    · exact canonical _ hm
  · rcases hd with hd | hd
    · exact canonical _ hd
    · exact canonical _ hd
  · exact canonical _ hv
  · have hloops : Level.ofInt level = .loops := if_pos hl
    exact Program.ne_of_isClearLoop (unclear c pos hc hloops) odd q

/-- A body in which moves merge, one of them by a negative count, and a clear loop is folded into
the subtraction behind it. -/
theorem compacted_at_every_depth_folded :
    Program.Inside [.moveLeft 5 none [], .set 4294967295 none]
        (Program.compact 1 [.add 4294967297 none, .loop [.moveRight (-2) none [],
          .moveLeft 3 none [], .loop [.add 3 none] none, .sub 1 none] none]) ∧
      ∀ v q, .set v q ∈ [Instr.moveLeft 5 none [], .set 4294967295 none] →
        0 ≤ v ∧ v < Cell.modulus := by
  have compacted : Program.compact 1 [.add 4294967297 none, .loop [.moveRight (-2) none [],
      .moveLeft 3 none [], .loop [.add 3 none] none, .sub 1 none] none] =
        [.add 1 none, .loop [.moveLeft 5 none [], .set 4294967295 none] none] := by
    rw [Program.compact_eq]
    rfl
  have inside : Program.Inside [.moveLeft 5 none [], .set 4294967295 none]
      (Program.compact 1 [.add 4294967297 none, .loop [.moveRight (-2) none [],
        .moveLeft 3 none [], .loop [.add 3 none] none, .sub 1 none] none]) := by
    rw [compacted]
    exact .deeper (.tail _ (.head _)) .here
  exact ⟨inside, (compacted_at_every_depth 1 _ _ inside).2.2.2.1⟩

end TapeLang
