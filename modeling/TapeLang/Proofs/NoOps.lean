import TapeLang.Proofs.EveryDepth
import TapeLang.Proofs.Places

/-!
# Instructions without effect

A move by no cells and a change of the cell by nothing do nothing, and compacting drops them. So
they may be put into a program anywhere (`Program.Padded`) and the compacted program has the same
instructions at the same places. One thing can be lost: a move by nothing that comes to stand right
behind a move to the left is taken for a move in its direction that has no trail, and the trail of
the merged move is given up (`Program.dropTrail`). Behind a move to the right it is not.

* `Program.extend_noOp`: what adding an instruction without effect does.
* `Program.Forgets`: a program with the trails of some moves to the left given up;
  `Program.Forgets.extend`: what is added behind makes no other difference.
* `Program.Padded.compactOnto_eq`: what changes nothing where it is put in changes nothing at all.
* `noOps_cost_left_trails_only`: what instructions without effect do to a compacted program.
-/

namespace TapeLang

/-- An instruction without effect and without a trail. -/
def Instr.isNoOp : Instr → Bool
  | moveLeft n _ trail | moveRight n _ trail => n = 0 ∧ trail = []
  | add d _ | sub d _ => d = 0
  | set .. | output _ | input _ | loop .. | unknown _ => false

namespace Program

/-- The program `q` is `p` with instructions put in, at any depth. Which ones may be put in where is
up to `may`, which is told what stands in front of the place in its sequence in `p`. -/
inductive Padded (may : Program → Instr → Prop) : Program → Program → Program → Prop
  | nil {front : Program} : Padded may front [] []
  | insert {front p q : Program} {i : Instr} (allowed : may front i) (rest : Padded may front p q) :
      Padded may front p (i :: q)
  | keep {front p q : Program} {i : Instr} (rest : Padded may (front ++ [i]) p q) :
      Padded may front (i :: p) (i :: q)
  | loop {front b c p q : Program} {pos : Option Position} (body : Padded may [] b c)
      (rest : Padded may (front ++ [.loop b pos]) p q) :
      Padded may front (.loop b pos :: p) (.loop c pos :: q)

/-- The program `q` is `p` with the trails of some moves to the left given up. -/
inductive Forgets : Program → Program → Prop
  | nil : Forgets [] []
  | same {p q : Program} (i : Instr) (rest : Forgets p q) : Forgets (i :: p) (i :: q)
  | left {p q : Program} (n : Int) (pos : Option Position) (trail : List Position)
      (rest : Forgets p q) : Forgets (.moveLeft n pos trail :: p) (.moveLeft n pos [] :: q)
  | loop {b c p q : Program} (pos : Option Position) (body : Forgets b c) (rest : Forgets p q) :
      Forgets (.loop b pos :: p) (.loop c pos :: q)

/-- The program ends in a move to the left that has a trail. -/
def EndsInLeftTrail (p : Program) : Prop :=
  ∃ front n pos trail, p = front ++ [.moveLeft n pos trail] ∧ trail ≠ []

end Program

/-! ### Adding an instruction without effect -/

namespace Move

/-- A move by nothing, without a trail. -/
def still (pos : Option Position) : Move := ⟨0, pos, []⟩

/-- A move to the right keeps its trail when a move by nothing follows, any other loses it. -/
theorem merge_still {m : Move} (hm : m.Fits) (pos : Option Position) :
    m.merge (still pos) = ⟨m.offset, m.pos, if 0 < m.offset then m.trail else []⟩ := by
  by_cases hpos : 0 < m.offset
  · have hne : m.offset ≠ 0 := by omega
    have htake : m.trail.take m.offset.natAbs = m.trail := by
      rcases hm with h | h
      · simp [h]
      · exact List.take_of_length_le (by omega)
    simp [merge, still, hpos, hne, htake]
  · simp [merge, still, hpos]

/-- The move with its trail given up. -/
def untrailed (m : Move) : Move := { m with trail := [] }

/-- What follows a move to the left either goes on to the left, and then the merged move has lost
its trail too, or leaves nothing of the move. -/
theorem merge_untrailed {m : Move} (hm : m.offset < 0) (b : Move) :
    m.untrailed.merge b = m.merge b ∨
      (m.merge b).offset < 0 ∧ m.untrailed.merge b = (m.merge b).untrailed := by
  have hnot : ¬ 0 < m.offset := by omega
  by_cases hback : 0 < b.offset
  · by_cases hlonger : b.offset.natAbs < m.offset.natAbs
    · refine .inr ⟨?_, ?_⟩
      · rw [offset_merge]
        omega
      · simp [merge, untrailed, hnot, hback, hlonger]
    · refine .inl ?_
      simp [merge, untrailed, hnot, hback, hlonger]
  · refine .inr ⟨?_, ?_⟩
    · rw [offset_merge]
      omega
    · simp [merge, untrailed, hnot, hback]

end Move

theorem CellOp.merge_still (c : CellOp) (pos : Option Position) : c.merge (.shift 0 pos) = c := by
  cases c <;> simp [merge]

/-- The run of an instruction without effect. -/
theorem Instr.ofInstr?_of_isNoOp {i : Instr} (h : i.isNoOp = true) :
    (i.isMove = true ∧ ∃ pos, Run.ofInstr? i = some (.move (.still pos))) ∨
      (i.isMove = false ∧ ∃ pos, Run.ofInstr? i = some (.cell (.shift 0 pos))) := by
  cases i with
  | moveLeft n pos trail | moveRight n pos trail =>
    obtain ⟨rfl, rfl⟩ : n = 0 ∧ trail = [] := of_decide_eq_true h
    exact .inl ⟨rfl, pos, rfl⟩
  | add d pos | sub d pos =>
    obtain rfl : d = 0 := of_decide_eq_true h
    exact .inr ⟨rfl, pos, rfl⟩
  | _ => cases h

theorem Instr.isLoop_of_isNoOp {i : Instr} (h : i.isNoOp = true) : i.isLoop = false := by
  cases i with
  | loop => cases h
  | _ => rfl

namespace Program

variable {level : Level} {out u v : List Instr} {i : Instr}

/-- The program, last first, without the trail of the last instruction if that moves to the left. -/
def dropTrail : List Instr → List Instr
  | .moveLeft n pos _ :: out => .moveLeft n pos [] :: out
  | out => out

theorem dropTrail_of_apart (h : endKind? out ≠ some .move) : dropTrail out = out := by
  rcases out with _ | ⟨prev, before⟩
  · rfl
  cases prev with
  | moveLeft => exact absurd rfl h
  | _ => rfl

theorem extend_still (hout : ∀ j ∈ out, j.Canonical) {pos : Option Position}
    (hi : Run.ofInstr? i = some (.move (.still pos))) : extend out i = dropTrail out := by
  by_cases hk : endKind? out = some .move
  · obtain ⟨prev, before, a, rfl, hp, ha⟩ := exists_of_endKind? hk
    have hc := hout prev (.head _)
    cases prev with
    | moveLeft n p t =>
      cases hp
      have hn : -n < 0 := Int.neg_neg_of_pos hc.1
      have hnot : ¬ 0 < -n := by omega
      have hmerged := Move.merge_still (Run.fits_of_ofInstr? (i := .moveLeft n p t) rfl) pos
      rw [extend_of_merge hi rfl rfl, Run.toInstr?, hmerged, Move.toInstr?_of_neg hn, if_neg hnot]
      simp [dropTrail]
    | moveRight n p t =>
      cases hp
      have hn : 0 < n := hc.1
      have hmerged := Move.merge_still (Run.fits_of_ofInstr? (i := .moveRight n p t) rfl) pos
      rw [extend_of_merge hi rfl rfl, Run.toInstr?, hmerged, Move.toInstr?_of_pos hn, if_pos hn,
        Move.fittingTrail_eq_self hc.2]
      rfl
    | add | sub | set => cases hp; cases ha
    | _ => cases hp
  · rw [extend_of_apart hi hk, dropTrail_of_apart hk]
    rfl

theorem extend_shift_zero (hout : ∀ j ∈ out, j.Canonical) {pos : Option Position}
    (hi : Run.ofInstr? i = some (.cell (.shift 0 pos))) : extend out i = out := by
  by_cases hk : endKind? out = some .cell
  · obtain ⟨prev, before, a, rfl, hp, ha⟩ := exists_of_endKind? hk
    rcases a with m | c
    · cases ha
    · have hback := (hout prev (.head _)).toInstr? hp
      rw [extend_of_merge hi hp rfl, CellOp.merge_still, hback]
      rfl
  · rw [extend_of_apart hi hk]
    rfl

/-- **Adding an instruction without effect** changes nothing, but for the trail that a move to the
left loses to a move by nothing. -/
theorem extend_noOp (hout : ∀ j ∈ out, j.Canonical) (hi : i.isNoOp = true) :
    extend out i = if i.isMove = true then dropTrail out else out := by
  rcases Instr.ofInstr?_of_isNoOp hi with ⟨hmove, pos, hr⟩ | ⟨hmove, pos, hr⟩
  · rw [extend_still hout hr, if_pos hmove]
  · rw [extend_shift_zero hout hr, hmove]
    rfl

/-- A trail is there to be lost exactly if the program ends in a move to the left that has one. -/
theorem dropTrail_eq_self_iff : dropTrail out = out ↔ ¬ EndsInLeftTrail out.reverse := by
  constructor
  · rintro h ⟨front, n, pos, trail, hout, htrail⟩
    have hlast : out = .moveLeft n pos trail :: front.reverse := by
      rw [← out.reverse_reverse, hout, List.reverse_append]
      rfl
    rw [hlast, dropTrail] at h
    simp only [List.cons.injEq, Instr.moveLeft.injEq] at h
    exact htrail h.1.2.2.symm
  · intro h
    rcases out with _ | ⟨prev, before⟩
    · rfl
    cases prev with
    | moveLeft n pos trail =>
      have htrail : trail = [] := by
        by_contra hne
        exact h ⟨before.reverse, n, pos, trail, List.reverse_cons, hne⟩
      rw [htrail, dropTrail]
    | _ => rfl

/-! ### Programs that differ in trails -/

namespace Forgets

theorem refl (p : Program) : Forgets p p := by
  induction p with
  | nil => exact .nil
  | cons i p ih => exact .same i ih

theorem append {p q : Program} (h : Forgets p q) (h' : Forgets u v) :
    Forgets (p ++ u) (q ++ v) := by
  induction h with
  | nil => exact h'
  | same i _ ih => exact .same i ih
  | left n pos trail _ ih => exact .left n pos trail ih
  | loop pos body _ _ ih => exact .loop pos body ih

theorem reverse (h : Forgets u v) : Forgets u.reverse v.reverse := by
  induction h with
  | nil => exact .nil
  | same i _ ih =>
    simp only [List.reverse_cons]
    exact ih.append (.refl [i])
  | left n pos trail _ ih =>
    simp only [List.reverse_cons]
    exact ih.append (.left n pos trail .nil)
  | loop pos body _ _ ih =>
    simp only [List.reverse_cons]
    exact ih.append (.loop pos body .nil)

/-- Nothing but trails is given up. -/
theorem bare_eq (h : Forgets u v) : Program.bare v = Program.bare u := by
  induction h with
  | nil => rfl
  | same i _ ih => simp [ih]
  | left n pos trail _ ih => simp [Instr.bare, ih]
  | loop pos _ _ ihb ih => simp [Instr.bare, ihb, ih]

theorem isClearLoop_eq (h : Forgets u v) : isClearLoop v = isClearLoop u := by
  rw [← isClearLoop_bare v, h.bare_eq, isClearLoop_bare]

theorem dropTrail (h : Forgets u v) : Forgets u (Program.dropTrail v) := by
  cases h with
  | nil => exact .nil
  | same i rest =>
    cases i with
    | moveLeft n pos trail => exact .left n pos trail rest
    | _ => exact .same _ rest
  | left n pos trail rest => exact .left n pos trail rest
  | loop pos body rest => exact .loop pos body rest

theorem toList (h : Forgets u v) (o : Option Instr) : Forgets (o.toList ++ u) (o.toList ++ v) :=
  (refl o.toList).append h

/-- A run that comes behind a move to the left, with and without the trail of the move. -/
theorem merge_left {m : Move} (hm : m.offset < 0 ∨ m.trail = []) (b : Move) (h : Forgets u v) :
    Forgets ((m.merge b).toInstr?.toList ++ u) ((m.untrailed.merge b).toInstr?.toList ++ v) := by
  rcases hm with hneg | htrail
  · rcases Move.merge_untrailed hneg b with heq | ⟨hnet, heq⟩
    · rw [heq]
      exact h.toList _
    · have hnet' : (m.merge b).untrailed.offset < 0 := hnet
      rw [heq, Move.toInstr?_of_neg hnet, Move.toInstr?_of_neg hnet']
      exact .left _ _ _ h
  · have heq : m.untrailed = m := by rw [Move.untrailed, ← htrail]
    rw [heq]
    exact h.toList _

/-- The runs of a move to the left with and without its trail. -/
theorem run_left (n : Int) (pos : Option Position) (trail : List Position) :
    ∃ m : Move, Run.ofInstr? (.moveLeft n pos trail) = some (.move m) ∧
      Run.ofInstr? (.moveLeft n pos []) = some (.move m.untrailed) ∧
      (m.offset < 0 ∨ m.trail = []) := by
  refine ⟨_, rfl, ?_, ?_⟩
  · simp [Run.ofInstr?, Move.untrailed, Move.fittingTrail]
  · by_cases hfit : Move.fittingTrail n trail = []
    · exact .inr hfit
    · have hlen : trail.length = n := by
        by_contra hne
        exact hfit (if_neg hne)
      have hpos : 0 < trail.length := by
        rw [Move.fittingTrail, if_pos hlen] at hfit
        exact List.length_pos_iff.2 hfit
      exact .inl (by show -n < 0; omega)

/-- **What is added behind makes no other difference.** -/
theorem extend (h : Forgets u v) (i : Instr) : Forgets (extend u i) (Program.extend v i) := by
  rcases hi : Run.ofInstr? i with _ | r
  · rw [extend_of_none hi, extend_of_none hi]
    exact .same i h
  -- only at the head of the two programs can the new run merge
  have hapart : endKind? u ≠ some r.kind → endKind? v ≠ some r.kind →
      Forgets (Program.extend u i) (Program.extend v i) := by
    intro hu hv
    rw [extend_of_apart hi hu, extend_of_apart hi hv]
    exact h.toList _
  cases h with
  | nil => exact .refl _
  | @same p q j rest =>
    by_cases hk : endKind? (j :: p) = some r.kind
    · obtain ⟨prev, before, a, hjp, hp, ha⟩ := exists_of_endKind? hk
      obtain ⟨rfl, rfl⟩ := List.cons.inj hjp
      obtain ⟨c, hm, -⟩ := Run.exists_merge? ha
      rw [extend_of_merge hi hp hm, extend_of_merge hi hp hm]
      exact rest.toList _
    · exact hapart hk hk
  | left n pos trail rest =>
    obtain ⟨m, hm, hm', hleft⟩ := run_left n pos trail
    rcases r with b | c
    · rw [extend_of_merge hi hm rfl, extend_of_merge hi hm' rfl]
      exact merge_left hleft b rest
    · exact hapart (by simp [endKind?, Instr.kind?, hm, Run.kind])
        (by simp [endKind?, Instr.kind?, hm', Run.kind])
  | loop pos body rest =>
    exact hapart (by simp [endKind?, Instr.kind?, Run.ofInstr?])
      (by simp [endKind?, Instr.kind?, Run.ofInstr?])

theorem extendLoop (h : Forgets u v) {b c : Program} (hb : Forgets b c) (pos : Option Position) :
    Forgets (extendLoop level u b pos) (Program.extendLoop level v c pos) := by
  unfold Program.extendLoop
  rw [hb.isClearLoop_eq]
  split
  · exact h.extend _
  · exact .loop pos hb h

theorem compactOnto_instr (h : Forgets u v) (level : Level) (i : Instr) :
    Forgets (i.compactOnto level u) (i.compactOnto level v) := by
  rcases i.isLoop_cases with hl | ⟨b, pos, rfl⟩
  · rw [Instr.compactOnto_of_simple hl, Instr.compactOnto_of_simple hl]
    exact h.extend i
  · rw [Instr.compactOnto_loop, Instr.compactOnto_loop]
    exact h.extendLoop (.refl _) pos

end Forgets

/-! ### Programs with instructions put in -/

namespace Padded

variable {may may' : Program → Instr → Prop} {front p q : Program}

theorem imp (hmay : ∀ front i, may front i → may' front i) (h : Padded may front p q) :
    Padded may' front p q := by
  induction h with
  | nil => exact .nil
  | insert allowed _ ih => exact .insert (hmay _ _ allowed) ih
  | keep _ ih => exact .keep ih
  | loop _ _ ihb ih => exact .loop ihb ih

/-- **Instructions without effect** that are put in make the compacted program forget trails of
moves to the left, and change nothing else of it. -/
theorem forgets (level : Level) (h : Padded (fun _ i => i.isNoOp = true) front p q) :
    ∀ u v : List Instr, Normal level v → Forgets u v →
      Forgets (compactOnto level u p) (compactOnto level v q) := by
  induction h with
  | nil =>
    intro u v _ huv
    rwa [compactOnto_nil, compactOnto_nil]
  | @insert front p q i hi _ ih =>
    intro u v hv huv
    have hl := Instr.isLoop_of_isNoOp hi
    have hnormal := normal_extend hv hl
    rw [compactOnto_cons, Instr.compactOnto_of_simple hl]
    refine ih u _ hnormal ?_
    rw [extend_noOp hv.canonical hi]
    split
    · exact huv.dropTrail
    · exact huv
  | @keep front p q i _ ih =>
    intro u v hv huv
    rw [compactOnto_cons, compactOnto_cons]
    refine ih _ _ ?_ (huv.compactOnto_instr level i)
    have hone := normal_compactOnto level [i] v hv
    rwa [compactOnto_cons, compactOnto_nil] at hone
  | @loop front b c p q pos _ _ ihb ih =>
    intro u v hv huv
    have hbody := (ihb [] [] .nil .nil).reverse
    have hnormal := (normal_compactOnto level c [] .nil).reverse
    rw [compactOnto_cons, compactOnto_cons, Instr.compactOnto_loop, Instr.compactOnto_loop]
    exact ih _ _ (normal_extendLoop hv hnormal pos) (huv.extendLoop hbody pos)

/-- **What changes nothing where it is put in** changes nothing at all. -/
theorem compactOnto_eq (level : Level) (h : Padded (fun front i =>
      i.compactOnto level (compactOnto level [] front) = compactOnto level [] front) front p q) :
    compactOnto level (compactOnto level [] front) q =
      compactOnto level (compactOnto level [] front) p := by
  induction h with
  | nil => rfl
  | insert unchanged _ ih => rw [compactOnto_cons, unchanged, ih]
  | keep _ ih =>
    rw [compactOnto_append, compactOnto_cons, compactOnto_nil] at ih
    rw [compactOnto_cons, compactOnto_cons, ih]
  | loop _ _ ihb ih =>
    rw [compactOnto_append, compactOnto_cons, compactOnto_nil, Instr.compactOnto_loop] at ih
    rw [compactOnto_nil] at ihb
    rw [compactOnto_cons, compactOnto_cons, Instr.compactOnto_loop, Instr.compactOnto_loop, ihb, ih]

end Padded

/-- An instruction without effect changes nothing exactly if it is no move that comes behind a move
to the left that has a trail. -/
theorem compactOnto_noOp_iff (front : Program) (hi : i.isNoOp = true) :
    i.compactOnto level (compactOnto level [] front) = compactOnto level [] front ↔
      ¬ (i.isMove = true ∧ EndsInLeftTrail (compactOnto level [] front).reverse) := by
  have hcanonical := (normal_compactOnto level front [] .nil).canonical
  rw [Instr.compactOnto_of_simple (Instr.isLoop_of_isNoOp hi), extend_noOp hcanonical hi]
  by_cases hmove : i.isMove = true
  · rw [if_pos hmove, dropTrail_eq_self_iff]
    simp [hmove]
  · simp [hmove]

end Program

/-- **Instructions without effect cost trails of moves to the left and nothing else.** Put into a
program anywhere, they leave the compacted program as it is up to such trails. One of them alone
makes a difference exactly if it is a move and what is compacted in front of it ends in a move to
the left that has a trail; if none is put in there, the compacted program is the same. -/
theorem noOps_cost_left_trails_only (level : Int) :
    (∀ p q : Program, Program.Padded (fun _ i => i.isNoOp = true) [] p q →
      Program.Forgets (p.compact level) (q.compact level)) ∧
    (∀ (front : Program) (i : Instr), i.isNoOp = true →
      (Program.compact level (front ++ [i]) = front.compact level ↔
        ¬ (i.isMove = true ∧ (front.compact level).EndsInLeftTrail))) ∧
    ∀ p q : Program,
      Program.Padded (fun front i => i.isNoOp = true ∧
        ¬ (i.isMove = true ∧ (front.compact level).EndsInLeftTrail)) [] p q →
      q.compact level = p.compact level := by
  refine ⟨fun p q h => ?_, fun front i hi => ?_, fun p q h => ?_⟩
  · rw [Program.compact_eq, Program.compact_eq]
    exact (h.forgets _ [] [] .nil .nil).reverse
  · rw [Program.compact_eq, Program.compact_eq, Program.compactOnto_append,
      Program.compactOnto_cons, Program.compactOnto_nil, List.reverse_inj]
    exact Program.compactOnto_noOp_iff front hi
  · have hunchanged := Program.Padded.compactOnto_eq (.ofInt level) (h.imp ?_)
    · rw [Program.compactOnto_nil] at hunchanged
      rw [Program.compact_eq, Program.compact_eq, hunchanged]
    · rintro front i ⟨hi, hend⟩
      rw [Program.compact_eq] at hend
      exact (Program.compactOnto_noOp_iff front hi).2 hend

/-- In a loop a move to the left gives up its trail to the move by nothing behind it. A move to the
right keeps its trail, and a loop that clears its cell is folded all the same. -/
theorem noOps_cost_left_trails_only_in_loop :
    let right : Instr := .moveRight 1 (some ⟨1, 1⟩) [⟨1, 1⟩]
    let left : Instr := .moveLeft 2 (some ⟨1, 3⟩) [⟨1, 3⟩, ⟨1, 4⟩]
    let p : Program := [right, .loop [left, .output none] none]
    let q : Program := [right, .loop [left, .moveRight 0 none [], .output none, .add 0 none] none]
    let b : Program := [right, .loop [.sub 1 none] none]
    let c : Program := [right, .moveLeft 0 none [], .loop [.add 0 none, .sub 1 none] none]
    Program.Padded (fun _ i => i.isNoOp = true) [] p q ∧
      Program.Forgets (p.compact 1) (q.compact 1) ∧
      ¬ (Program.compact 1 [right]).EndsInLeftTrail ∧
      Program.compact 1 ([right] ++ [.moveLeft 0 none []]) = Program.compact 1 [right] ∧
      c.compact 1 = b.compact 1 := by
  intro right left p q b c
  obtain ⟨hforgets, hone, hsame⟩ := noOps_cost_left_trails_only 1
  have hpad : Program.Padded (fun _ i => i.isNoOp = true) [] p q :=
    .keep (.loop (.keep (.insert rfl (.keep (.insert rfl .nil)))) .nil)
  have hends : ¬ (Program.compact 1 [right]).EndsInLeftTrail := by
    rw [Program.compact_eq]
    exact Program.dropTrail_eq_self_iff.1 rfl
  refine ⟨hpad, hforgets p q hpad, hends, (hone _ _ rfl).2 fun h => hends h.2, hsame b c ?_⟩
  exact .keep (.insert ⟨rfl, fun h => hends h.2⟩
    (.loop (.insert ⟨rfl, fun h => by cases h.1⟩ (.keep .nil)) .nil))

/-- The trail of a move to the left is lost to a move by nothing. The trail of a move to the right
is not. -/
theorem left_trail_lost :
    let left : Instr := .moveLeft 1 (some ⟨1, 1⟩) [⟨1, 1⟩]
    let right : Instr := .moveRight 1 (some ⟨1, 1⟩) [⟨1, 1⟩]
    Program.Padded (fun _ i => i.isNoOp = true) [] [left] [left, .moveLeft 0 none []] ∧
      Program.compact 0 [left] = [left] ∧
      Program.compact 0 [left, .moveLeft 0 none []] = [.moveLeft 1 (some ⟨1, 1⟩) []] ∧
      Program.compact 0 [right, .moveLeft 0 none []] = [right] := by
  intro left right
  refine ⟨.keep (.insert rfl .nil), ?_, ?_, ?_⟩
  · rw [Program.compact_eq]
    rfl
  · rw [Program.compact_eq]
    rfl
  · rw [Program.compact_eq]
    rfl

end TapeLang
