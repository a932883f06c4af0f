import TapeLang.Proofs.CompactMeaning
import TapeLang.Proofs.NormalForm

/-!
# The two levels of compacting

Compacting at the higher level is merging runs first and folding the clear loops afterwards
(`Program.foldLoops_compactOnto`). The second pass meets a program in normal form. What it folds are
cell operations, and it leaves the moves alone (`Program.foldLoops_open`): where a loop is folded an
assignment stays behind, so no two moves come to stand side by side. Hence no fault of a move is
gained or lost.

* `Program.compact_loops_compact_runs`: nothing is lost by compacting at the lower level first.
* `compact_levels_agree`: a program behaves in the same way at both levels.
-/

namespace TapeLang

namespace Program

/-! ### Folding after merging -/

/-- The instructions `out`, last first, with their clear loops folded. -/
def foldLoops (out : List Instr) : List Instr := compactOnto .loops [] out.reverse

theorem foldLoops_nil : foldLoops [] = [] := compactOnto_nil .loops []

theorem foldLoops_cons (i : Instr) (out : List Instr) :
    foldLoops (i :: out) = i.compactOnto .loops (foldLoops out) := by
  unfold foldLoops
  rw [List.reverse_cons, compactOnto_append, compactOnto_cons, compactOnto_nil]

/-- The program `w`, last first, does not end in a run of kind `k`, or ends in an assignment, which
no further operation on the cell removes. -/
def Open (w : List Instr) (k : Run.Kind) : Prop :=
  endKind? w ≠ some k ∨ ∃ v p w', w = .set v p :: w'

section
variable {w out : List Instr} {i prev : Instr} {r a c : Run}

theorem foldLoops_toList_append (o : Option Instr) (out : List Instr) :
    foldLoops (o.toList ++ out) = compactOnto .loops (foldLoops out) o.toList := by
  cases o with
  | none => exact (compactOnto_nil .loops _).symm
  | some i =>
    show foldLoops (i :: out) = compactOnto .loops (foldLoops out) [i]
    rw [foldLoops_cons, compactOnto_cons, compactOnto_nil]

theorem extend_canonical (hc : i.Canonical) (hi : Run.ofInstr? i = some r)
    (h : endKind? w ≠ some r.kind) : extend w i = i :: w := by
  rw [extend_of_apart hi h, hc.toInstr? hi]
  rfl

/-- A cell operation after an assignment. -/
theorem extend_set {o : CellOp} (hi : Run.ofInstr? i = some (.cell o)) (v : Int)
    (p : Option Position) (w : List Instr) :
    extend (.set v p :: w) i = .set (o.value v % Cell.modulus) (o.place p) :: w := by
  have hm : Run.merge? (.cell (.assign v p)) (.cell o) =
      some (.cell (.assign (o.value v) (o.place p))) := by
    rw [← CellOp.assign_merge]
    rfl
  exact extend_of_merge hi rfl hm

/-- An assignment is always the last of what it is added to. -/
theorem exists_extend_set (w : List Instr) (v : Int) (p : Option Position) :
    ∃ w', extend w (.set v p) = .set (v % Cell.modulus) p :: w' := by
  have hi : Run.ofInstr? (.set v p) = some (.cell (.assign v p)) := rfl
  by_cases h : endKind? w = some .cell
  · obtain ⟨prev, before, a, rfl, hp, hk⟩ := exists_of_endKind? h
    rcases a with m | a
    · cases hk
    · have hm : Run.merge? (.cell a) (.cell (.assign v p)) = some (.cell (.assign v p)) := by
        cases a <;> rfl
      exact ⟨before, extend_of_merge hi hp hm⟩
  · exact ⟨w, extend_of_apart hi h⟩

/-- A run either stands apart from an open end or is one of cell operations after an assignment. -/
theorem Open.cases (h : Open w r.kind) : endKind? w ≠ some r.kind ∨
    ∃ o v p w', r = .cell o ∧ w = .set v p :: w' := by
  rcases h with h | ⟨v, p, w', rfl⟩
  · exact .inl h
  · rcases r with m | o
    · exact .inl fun h => nomatch h
    · exact .inr ⟨o, v, p, w', rfl, rfl⟩

/-- **Folding opens no run**: it ends the program in a run of a kind in which it did not end before
only if that is an assignment. The induction is along the program. -/
theorem foldLoops_open : ∀ {out : List Instr} {k : Run.Kind}, Normal .runs out →
    endKind? out ≠ some k → Open (foldLoops out) k
  | [], _, _, _ => by
    rw [foldLoops_nil]
    exact .inl fun h => nomatch h
  | i :: out, k, hn, hk => by
    rw [foldLoops_cons]
    rcases i.isLoop_cases with hl | ⟨b, pos, rfl⟩
    · rw [Instr.compactOnto_of_simple hl]
      rcases hi : Run.ofInstr? i with _ | r
      · rw [extend_of_none hi]
        exact .inl hk
      have ho : Open (foldLoops out) r.kind :=
        foldLoops_open hn.tail (hn.endKind?_ne (Instr.kind?_eq_some.2 ⟨r, hi, rfl⟩))
      rcases ho.cases with hw | ⟨o, v, p, w', rfl, hw⟩
      · rw [extend_canonical (hn.canonical i (.head _)) hi hw]
        exact .inl hk
      · rw [hw, extend_set hi]
        exact .inr ⟨_, _, w', rfl⟩
    · rw [Instr.compactOnto_loop]
      unfold extendLoop
      split
      · obtain ⟨w', hw'⟩ := exists_extend_set (foldLoops out) 0 pos
        exact .inr ⟨_, _, w', hw'⟩
      · exact .inl fun h => nomatch h

/-- An instruction for a run that stands apart is added as it is. -/
theorem compactOnto_toInstr?_of_apart (hr : r.Fits) (h : endKind? w ≠ some r.kind) :
    compactOnto .loops w r.toInstr?.toList = r.toInstr?.toList ++ w := by
  rcases hj : r.toInstr? with _ | j
  · exact compactOnto_nil .loops w
  obtain ⟨hc, hk⟩ := hr.canonical hj
  obtain ⟨r', hr', hk'⟩ := Instr.kind?_eq_some.1 hk
  rw [← hk'] at h
  show compactOnto .loops w [j] = j :: w
  rw [compactOnto_cons, compactOnto_nil, Instr.compactOnto_of_simple (Run.isLoop_of_ofInstr? hr'),
    extend_canonical hc hr' h]

/-- An instruction for cell operations after an assignment. -/
theorem compactOnto_toInstr?_of_set (o : CellOp) {v : Int} (p : Option Position) (w : List Instr)
    (hv : 0 ≤ v ∧ v < Cell.modulus) :
    compactOnto .loops (.set v p :: w) o.toInstr?.toList =
      .set (o.value v % Cell.modulus) (o.place p) :: w := by
  rcases hj : o.toInstr? with _ | j
  · obtain ⟨h1, h2⟩ := CellOp.cancelled_of_toInstr?_eq_none hj
    rw [h1, h2, Int.emod_eq_of_lt hv.1 hv.2]
    exact compactOnto_nil .loops _
  · obtain ⟨o', hi, h1, h2⟩ := CellOp.exists_of_toInstr?_eq_some hj
    show compactOnto .loops (.set v p :: w) [j] = _
    rw [compactOnto_cons, compactOnto_nil, Instr.compactOnto_of_simple (Run.isLoop_of_ofInstr? hi),
      extend_set hi, h1, h2]

/-- Merging what was added on its own changes nothing. -/
theorem compactOnto_toInstr? (hw : ∀ j ∈ w, j.Canonical) (hi : Run.ofInstr? i = some r)
    (ho : Open w r.kind) : compactOnto .loops w r.toInstr?.toList = extend w i := by
  rcases ho.cases with h | ⟨o, v, p, w', rfl, rfl⟩
  · rw [compactOnto_toInstr?_of_apart (Run.fits_of_ofInstr? hi) h, extend_of_apart hi h]
  · rw [extend_set hi]
    exact compactOnto_toInstr?_of_set o p w' (hw _ (.head _))

/-- Two instructions may be merged before they are added. -/
theorem compactOnto_merged (hw : ∀ j ∈ w, j.Canonical) (hc : prev.Canonical)
    (hp : Run.ofInstr? prev = some a) (hi : Run.ofInstr? i = some r) (hm : a.merge? r = some c)
    (ho : Open w a.kind) :
    compactOnto .loops w c.toInstr?.toList = extend (extend w prev) i := by
  have hk : c.kind = a.kind := (Run.kind_of_merge? hm).2
  rcases ho.cases with h | ⟨a, v, p, w', rfl, rfl⟩
  · rw [extend_canonical hc hp h, extend_of_merge hi hp hm]
    rw [← hk] at h
    exact compactOnto_toInstr?_of_apart
      ((Run.fits_of_ofInstr? hp).merge? (Run.fits_of_ofInstr? hi) hm) h
  · rcases r with n | b
    · cases hm
    · cases hm
      rw [extend_set hp, extend_set hi, b.value_congr (Int.emod_emod _ _), ← CellOp.value_merge,
        ← CellOp.place_merge]
      exact compactOnto_toInstr?_of_set (a.merge b) p w' (hw _ (.head _))

/-- **Adding an instruction commutes with folding.** -/
theorem foldLoops_extend (hn : Normal .runs out) (hl : i.isLoop = false) :
    foldLoops (extend out i) = extend (foldLoops out) i := by
  have canonical : ∀ {o : List Instr}, ∀ j ∈ foldLoops o, j.Canonical :=
    (normal_compactOnto .loops _ [] .nil).canonical
  rcases hi : Run.ofInstr? i with _ | r
  · rw [extend_of_none hi, foldLoops_cons, Instr.compactOnto_of_simple hl, extend_of_none hi]
  by_cases h : endKind? out = some r.kind
  · obtain ⟨prev, before, a, rfl, hp, hk⟩ := exists_of_endKind? h
    obtain ⟨c, hm, -⟩ := Run.exists_merge? hk
    have ho : Open (foldLoops before) a.kind :=
      foldLoops_open hn.tail (hn.endKind?_ne (Instr.kind?_eq_some.2 ⟨a, hp, rfl⟩))
    rw [extend_of_merge hi hp hm, foldLoops_toList_append, foldLoops_cons,
      Instr.compactOnto_of_simple (Run.isLoop_of_ofInstr? hp)]
    exact compactOnto_merged canonical (hn.canonical prev (.head _)) hp hi hm ho
  · rw [extend_of_apart hi h, foldLoops_toList_append]
    exact compactOnto_toInstr? canonical hi (foldLoops_open hn h)

end

/-- **Compacting at the higher level is merging runs and then folding clear loops.** -/
theorem foldLoops_compactOnto (p : Program) : ∀ out : List Instr, Normal .runs out →
    foldLoops (compactOnto .runs out p) = compactOnto .loops (foldLoops out) p := by
  induction p using Program.induction with
  | nil =>
    intro out _
    rw [compactOnto_nil, compactOnto_nil]
  | cons i r body rest =>
    intro out hn
    have hn' : Normal .runs (i.compactOnto .runs out) := by
      have h := normal_compactOnto .runs [i] out hn
      rwa [compactOnto_cons, compactOnto_nil] at h
    rw [compactOnto_cons, compactOnto_cons, rest _ hn']
    congr 1
    rcases i.isLoop_cases with hl | ⟨b, pos, rfl⟩
    · rw [Instr.compactOnto_of_simple hl, Instr.compactOnto_of_simple hl, foldLoops_extend hn hl]
    · have hb := body b pos rfl [] .nil
      rw [foldLoops_nil] at hb
      rw [Instr.compactOnto_loop, Instr.compactOnto_loop, ← hb]
      unfold extendLoop
      rw [if_neg (fun h => nomatch h.1), foldLoops_cons, Instr.compactOnto_loop]
      rfl

theorem compact_loops_compact_runs (p : Program) : (p.compact 0).compact 1 = p.compact 1 := by
  have h := foldLoops_compactOnto p [] .nil
  rw [foldLoops_nil] at h
  rw [compact_eq, compact_eq, compact_eq]
  exact congrArg List.reverse h

end Program

/-! ### Runs at the two levels -/

variable {σ : Type} {dev : Device σ} {cfg : Settings}

/-- The comparison in which nothing may differ but the number of steps. -/
abbrev Comparison.exact (dev : Device σ) (cfg : Settings) : Comparison dev cfg :=
  byTape dev cfg .exact fun _ => False

/-- A program in normal form, folded behind `out`. A move is added as it is, because folding opens
no run of moves; all else may be merged without a trace. -/
theorem refines_foldLoops (p : Program) :
    ∀ out : List Instr, Program.Normal .runs (p.reverse ++ out) →
    (Comparison.exact dev cfg).Refines
      (Program.compactOnto .loops (Program.foldLoops out) p).reverse
      ((Program.foldLoops out).reverse ++ p) := by
  induction p using Program.induction with
  | nil =>
    intro out _
    rw [Program.compactOnto_nil, List.append_nil]
    exact .refl _
  | cons i r body rest =>
    intro out hn
    rw [List.reverse_cons, List.append_assoc] at hn
    have hi : Program.Normal .runs (i :: out) := hn.of_append
    refine refines_compactOnto_cons ?_ ?_ ?_
    · intro _
      rcases hr : Run.ofInstr? i with _ | m | c
      · rw [Program.extend_of_none hr, List.reverse_cons]
        exact .refl _
      · have ho : Program.Open (Program.foldLoops out) .move :=
          Program.foldLoops_open hi.tail (hi.endKind?_ne (Instr.kind?_eq_some.2 ⟨_, hr, rfl⟩))
        rcases Program.Open.cases (r := .move m) ho with h | ⟨_, _, _, _, h, -⟩
        · rw [Program.extend_canonical (hi.canonical i (.head _)) hr h, List.reverse_cons]
          exact .refl _
        · cases h
      · exact refines_extend_cell _ hr
    · rintro b pos rfl
      have hb : Program.Normal .runs b := hi.body (.head _)
      have h := body b pos rfl [] (by rw [List.append_nil]; exact hb.reverse)
      rw [Program.foldLoops_nil] at h
      exact h
    · have h := rest (i :: out) hn
      rw [Program.foldLoops_cons] at h
      exact h

/-- The program compacted at the higher level can stand for the one compacted at the lower level,
and nothing differs but the number of steps. -/
theorem refines_levels (p : Program) :
    (Comparison.exact dev cfg).Refines (p.compact 1) (p.compact 0) := by
  have hn : Program.Normal .runs (Program.compactOnto .runs [] p) :=
    Program.normal_compactOnto .runs p [] .nil
  have h : (Comparison.exact dev cfg).Refines _ _ := refines_foldLoops (p.compact 0) [] (by
    rw [Program.compact_eq, List.reverse_reverse, List.append_nil]
    exact hn)
  rw [Program.foldLoops_nil, List.reverse_nil, List.nil_append] at h
  rw [← Program.compact_loops_compact_runs, Program.compact_eq 1]
  exact h

/-- **The two levels agree.** A program compacted at the one level comes to an ending exactly if it
does at the other. Then it succeeds at both or fails with the same complaint at the same place, it
makes the same stream calls and leaves the same tape, and at the higher level it takes no more
steps. -/
theorem compact_levels_agree (dev : Device σ) (cfg : Settings) (p : Program) {s : State σ}
    (valid : s.tape.Valid) :
    ((∃ e₀, (Machine.start (p.compact 0) s).Ends dev cfg e₀) ↔
      ∃ e₁, (Machine.start (p.compact 1) s).Ends dev cfg e₁) ∧
    ∀ e₀ e₁, (Machine.start (p.compact 0) s).Ends dev cfg e₀ →
      (Machine.start (p.compact 1) s).Ends dev cfg e₁ →
      e₁.failure = e₀.failure ∧ e₁.state.calls = e₀.state.calls ∧
        e₁.state.streams = e₀.state.streams ∧ e₁.state.tape = e₀.state.tape ∧
        e₁.state.steps ≤ e₀.state.steps := by
  have hr : (Comparison.exact dev cfg).Refines (p.compact 1) (p.compact 0) := refines_levels p
  obtain ⟨forth, back⟩ := hr.ends (Comparison.alike_self valid)
  have kept : ∀ e, ¬ (Comparison.exact dev cfg).lost e := fun e ⟨_, _, h⟩ => h
  refine ⟨⟨?_, ?_⟩, ?_⟩
  · rintro ⟨e₀, h₀⟩
    obtain ⟨e₁, h₁, -⟩ := forth e₀ h₀ (kept e₀)
    exact ⟨e₁, h₁⟩
  · rintro ⟨e₁, h₁⟩
    obtain ⟨e₀, h₀, -⟩ := back e₁ h₁
    exact ⟨e₀, h₀⟩
  · intro e₀ e₁ h₀ h₁
    obtain ⟨e, h, hf, ha⟩ := forth e₀ h₀ (kept e₀)
    obtain rfl := h₁.unique h
    exact ⟨hf, ha.calls, ha.streams, ha.tape.1, ha.steps⟩

/-- A clear loop before a move off the tape. -/
theorem compact_levels_agree_offTape :
    ∃ e₀ e₁, (Machine.start (Program.compact 0 [.add 3 none, .loop [.sub 1 none] none,
          .moveLeft 1 none []]) State.small).Ends .sink ⟨.zero, .byte⟩ e₀ ∧
      (Machine.start (Program.compact 1 [.add 3 none, .loop [.sub 1 none] none,
          .moveLeft 1 none []]) State.small).Ends .sink ⟨.zero, .byte⟩ e₁ ∧
      e₀.failure.isSome ∧ e₁.failure = e₀.failure ∧ e₁.state.tape = e₀.state.tape ∧
      e₁.state.steps ≤ e₀.state.steps := by
  have hc : Program.compact 0 [.add 3 none, .loop [.sub 1 none] none, .moveLeft 1 none []] =
      [.add 3 none, .loop [.sub 1 none] none, .moveLeft 1 none []] := by
    rw [Program.compact_eq]
    rfl
  obtain ⟨f, t, h₀⟩ : ∃ f t, (Machine.start (Program.compact 0 [.add 3 none,
      .loop [.sub 1 none] none, .moveLeft 1 none []]) State.small).Ends .sink ⟨.zero, .byte⟩
      ⟨some f, t⟩ := by
    rw [hc]
    exact ⟨_, _, 12, rfl⟩
  obtain ⟨hiff, hsame⟩ := compact_levels_agree .sink ⟨.zero, .byte⟩
    [.add 3 none, .loop [.sub 1 none] none, .moveLeft 1 none []] State.valid_small
  obtain ⟨e₁, h₁⟩ := hiff.1 ⟨_, h₀⟩
  obtain ⟨hf, -, -, ht, hs⟩ := hsame _ _ h₀ h₁
  exact ⟨_, e₁, h₀, h₁, rfl, hf, ht, hs⟩

end TapeLang
