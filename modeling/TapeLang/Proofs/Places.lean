import TapeLang.Program.Bare
import TapeLang.Proofs.Compacting
import TapeLang.Proofs.Exec

/-!
# Places do not matter

Forgetting places and trails commutes with what is done to a program. Compacting a bare program
gives the compacted program, bare (`Program.compact_bare`): places and trails are carried along, but
nothing is decided by them. A bare instruction acts as the instruction does, and fails with the same
complaint, less the place (`Instr.act_bare`).
-/

namespace TapeLang

/-! ### Merging -/

/-- The move without places. -/
def Move.bare (m : Move) : Move := ⟨m.offset, none, []⟩

/-- The operation without its place. -/
def CellOp.bare : CellOp → CellOp
  | shift d _ => shift d none
  | assign v _ => assign v none

/-- The run without places. -/
def Run.bare : Run → Run
  | move m => move m.bare
  | cell c => cell c.bare

theorem Move.merge_bare (a b : Move) : a.bare.merge b.bare = (a.merge b).bare := by
  unfold Move.merge Move.bare
  by_cases hsign : 0 < a.offset ↔ 0 < b.offset
  · simp only [hsign, if_true, List.isEmpty_nil, Bool.or_self]
  · by_cases hlt : b.offset.natAbs < a.offset.natAbs
    · simp only [hsign, if_false, hlt, if_true, List.take_nil]
    · simp only [hsign, if_false, hlt, List.drop_nil, List.head?_nil, Option.none_or]

theorem Move.toInstr?_bare (m : Move) : m.bare.toInstr? = m.toInstr?.map Instr.bare := by
  unfold Move.toInstr? Move.bare
  split
  · rfl
  · split <;> rfl

theorem CellOp.toInstr?_bare (c : CellOp) : c.bare.toInstr? = c.toInstr?.map Instr.bare := by
  rcases c with ⟨d, p⟩ | ⟨v, p⟩
  · show (shift d none).toInstr? = _
    by_cases h0 : d % Cell.modulus = 0
    · rw [toInstr?_of_cancelled h0, toInstr?_of_cancelled h0, Option.map_none]
    by_cases hd : 0 < d
    · rw [toInstr?_of_pos h0 hd, toInstr?_of_pos h0 hd]
      rfl
    · rw [toInstr?_of_neg h0 hd, toInstr?_of_neg h0 hd]
      rfl
  · rfl

namespace Run

theorem kind_bare (r : Run) : r.bare.kind = r.kind := by cases r <;> rfl

theorem merge?_bare (a b : Run) : a.bare.merge? b.bare = (a.merge? b).map bare := by
  rcases a with m | ⟨_ | _⟩ <;> rcases b with n | ⟨_ | _⟩
  · exact congrArg (fun m => some (move m)) (m.merge_bare n)
  all_goals rfl

theorem toInstr?_bare (r : Run) : r.bare.toInstr? = r.toInstr?.map Instr.bare := by
  rcases r with m | c
  · exact m.toInstr?_bare
  · exact c.toInstr?_bare

theorem ofInstr?_bare (i : Instr) : ofInstr? i.bare = (ofInstr? i).map bare := by
  cases i with
  | moveLeft n _ _ =>
    show some (move ⟨-n, none, Move.fittingTrail n []⟩) = _
    rw [Move.fittingTrail, ite_self]
    rfl
  | moveRight n _ _ =>
    show some (move ⟨n, none, Move.fittingTrail n []⟩) = _
    rw [Move.fittingTrail, ite_self]
    rfl
  | _ => rfl

end Run

/-! ### Compacting -/

theorem Instr.isLoop_bare (i : Instr) : i.bare.isLoop = i.isLoop := by cases i <;> rfl

theorem Instr.kind?_bare (i : Instr) : i.bare.kind? = i.kind? := by
  rw [kind?, kind?, Run.ofInstr?_bare, Option.map_map]
  congr 1
  exact funext Run.kind_bare

namespace Program

theorem endKind?_bare (out : List Instr) : endKind? (bare out) = endKind? out := by
  rcases out with _ | ⟨i, out⟩
  · rfl
  · exact i.kind?_bare

theorem bare_toList (o : Option Instr) : Program.bare o.toList = (o.map Instr.bare).toList := by
  cases o <;> rfl

theorem extend_bare (out : List Instr) (i : Instr) :
    extend (bare out) i.bare = bare (extend out i) := by
  rcases hi : Run.ofInstr? i with _ | r
  · have hi' : Run.ofInstr? i.bare = none := by rw [Run.ofInstr?_bare, hi, Option.map_none]
    rw [extend_of_none hi, extend_of_none hi', bare_cons]
  have hi' : Run.ofInstr? i.bare = some r.bare := by rw [Run.ofInstr?_bare, hi, Option.map_some]
  by_cases h : endKind? out = some r.kind
  · obtain ⟨prev, before, a, rfl, hp, hk⟩ := exists_of_endKind? h
    obtain ⟨c, hm, -⟩ := Run.exists_merge? hk
    have hp' : Run.ofInstr? prev.bare = some a.bare := by
      rw [Run.ofInstr?_bare, hp, Option.map_some]
    have hm' : a.bare.merge? r.bare = some c.bare := by
      rw [Run.merge?_bare, hm, Option.map_some]
    rw [bare_cons, extend_of_merge hi' hp' hm', extend_of_merge hi hp hm, bare_append, bare_toList,
      Run.toInstr?_bare]
  · have h' : endKind? (bare out) ≠ some r.bare.kind := by rwa [endKind?_bare, Run.kind_bare]
    rw [extend_of_apart hi' h', extend_of_apart hi h, bare_append, bare_toList, Run.toInstr?_bare]

theorem isClearLoop_bare (b : Program) : isClearLoop b.bare = isClearLoop b := by
  rcases b with _ | ⟨i, _ | ⟨j, b⟩⟩
  · rfl
  · cases i <;> rfl
  · cases i <;> rfl

theorem extendLoop_bare (level : Level) (out : List Instr) (body : Program)
    (pos : Option Position) :
    extendLoop level (bare out) body.bare none = bare (extendLoop level out body pos) := by
  unfold extendLoop
  rw [isClearLoop_bare]
  split
  · exact extend_bare out (.set 0 pos)
  · rfl

theorem compactOnto_bare (level : Level) (p : Program) : ∀ out : List Instr,
    compactOnto level (bare out) p.bare = bare (compactOnto level out p) := by
  induction p using Program.induction with
  | nil =>
    intro out
    rw [bare_nil, compactOnto_nil, compactOnto_nil]
  | cons i r body rest =>
    intro out
    have hi : i.bare.compactOnto level (bare out) = bare (i.compactOnto level out) := by
      rcases i.isLoop_cases with hl | ⟨b, pos, rfl⟩
      · have hl' : i.bare.isLoop = false := by rw [Instr.isLoop_bare, hl]
        rw [Instr.compactOnto_of_simple hl, Instr.compactOnto_of_simple hl', extend_bare]
      · have hb := body b pos rfl []
        rw [bare_nil] at hb
        rw [Instr.bare, Instr.compactOnto_loop, Instr.compactOnto_loop, hb, ← bare_reverse,
          extendLoop_bare]
    rw [bare_cons, compactOnto_cons, compactOnto_cons, hi, rest]

/-- **Compacting does not look at places.** -/
theorem compact_bare (level : Int) (p : Program) :
    p.bare.compact level = (p.compact level).bare := by
  have h := compactOnto_bare (.ofInt level) p []
  rw [bare_nil] at h
  rw [compact_eq, compact_eq, h, bare_reverse]

end Program

/-! ### Acting -/

/-- The failure without its place. -/
def Failure.bare : Failure → Failure
  | .fault e => .fault { e with position := none }
  | .unknown e => .unknown e

namespace Instr

variable {σ : Type}

theorem faultPosition_bare (i : Instr) (t : Tape) : i.bare.faultPosition t = none := by
  cases i with
  | moveLeft => simp [bare, faultPosition, positionAt]
  | moveRight => simp [bare, faultPosition, positionAt]
  | _ => rfl

theorem attempt_bare (dev : Device σ) (cfg : Settings) (i : Instr) (s : State σ) :
    i.bare.attempt dev cfg s = i.attempt dev cfg s := by cases i <;> rfl

/-- **A bare instruction acts as the instruction does**, but says less about where it fails. -/
theorem act_bare (dev : Device σ) (cfg : Settings) (i : Instr) (s : State σ) :
    i.bare.act dev cfg s = ((i.act dev cfg s).1.map Failure.bare, (i.act dev cfg s).2) := by
  by_cases hu : ∃ n, i = .unknown n
  · obtain ⟨n, rfl⟩ := hu
    rfl
  have hu' : ¬ ∃ n, i.bare = .unknown n := by
    rintro ⟨n, hn⟩
    cases i with
    | unknown m => exact hu ⟨m, rfl⟩
    | _ => cases hn
  have hk : i.bare.kindName = i.kindName := by cases i <;> rfl
  have h := attempt_bare dev cfg i s
  rcases hr : i.attempt dev cfg s with ⟨_ | f, t⟩
  · rw [hr] at h
    rw [act_of_none hu hr, act_of_none hu' h]
    rfl
  · rw [hr] at h
    rw [act_of_some hu hr, act_of_some hu' h, faultPosition_bare, hk]
    rfl

end Instr

end TapeLang
