import TapeLang.Proofs.Compacting
import Mathlib.Data.List.Chain

/-!
# The normal form of compacted programs

In a compacted program every count is at least one and every number is in the cell range, no
instruction could have been merged with its neighbour, and where clear loops are folded none is
left. The same holds of the loop bodies.

* `Instr.Canonical.toInstr?`: merging has nothing to do for a single instruction in normal form.
* `Program.normal_extend`: adding an instruction keeps the normal form, also where the run at the
  end cancels out and an earlier instruction comes to stand last.
* `Program.normal_compactOnto`: compacting brings every program into normal form.
-/

namespace TapeLang

/-! ### Single instructions -/

/-- An instruction in normal form: it does something, its numbers are reduced, and its trail, if it
has one, has one place per step. -/
def Instr.Canonical : Instr → Prop
  | .moveLeft n _ t | .moveRight n _ t => 1 ≤ n ∧ (t = [] ∨ t.length = n)
  | .add d _ | .sub d _ => 1 ≤ d ∧ d < Cell.modulus
  | .set v _ => 0 ≤ v ∧ v < Cell.modulus
  | _ => True

theorem Instr.canonical_of_kind?_eq_none {i : Instr} (h : i.kind? = none) : i.Canonical := by
  cases i with
  | output | input | loop | unknown => trivial
  | _ => cases h

/-- The trail, if there is one, has one place per step. -/
def Move.Fits (m : Move) : Prop := m.trail = [] ∨ m.trail.length = m.offset.natAbs

namespace Move

theorem fittingTrail_eq_self {n : Int} {t : List Position} (h : t = [] ∨ t.length = n) :
    fittingTrail n t = t := by
  unfold fittingTrail
  rcases h with rfl | h
  · exact ite_self []
  · exact if_pos h

theorem fittingTrail_fits (n : Int) (t : List Position) :
    fittingTrail n t = [] ∨ (fittingTrail n t).length = n.natAbs := by
  unfold fittingTrail
  split
  · exact .inr (by omega)
  · exact .inl rfl

/-- Merging keeps one place per step, whichever of the two moves loses steps. -/
theorem Fits.merge {a b : Move} (ha : a.Fits) (hb : b.Fits) : (a.merge b).Fits := by
  unfold Fits at ha hb
  unfold Move.merge
  split
  · next hsign =>
    by_cases h : (a.trail.isEmpty || b.trail.isEmpty) = true
    · exact .inl (if_pos h)
    · refine .inr ?_
      simp only [if_neg h, List.length_append]
      simp only [Bool.or_eq_true, List.isEmpty_iff, not_or] at h
      have h1 := ha.resolve_left h.1
      have h2 := hb.resolve_left h.2
      omega
  · next hsign =>
    split
    · next hlt =>
      rcases ha with ha | ha
      · exact .inl (by simp only [ha, List.take_nil])
      · refine .inr ?_
        simp only [List.length_take]
        omega
    · next hlt =>
      rcases hb with hb | hb
      · exact .inl (by simp only [hb, List.drop_nil])
      · refine .inr ?_
        simp only [List.length_drop]
        omega

end Move

/-- A run from which a canonical instruction can be built. -/
def Run.Fits : Run → Prop
  | .move m => m.Fits
  | .cell _ => True

namespace Run

theorem fits_of_ofInstr? {i : Instr} {r : Run} (h : ofInstr? i = some r) : r.Fits := by
  cases i with
  | moveRight n p t =>
    cases h
    exact Move.fittingTrail_fits n t
  | moveLeft n p t =>
    cases h
    have hfits := Move.fittingTrail_fits n t
    rw [← Int.natAbs_neg] at hfits
    exact hfits
  | add | sub | set => cases h; trivial
  | _ => cases h

theorem Fits.merge? {a b c : Run} (ha : a.Fits) (hb : b.Fits) (h : a.merge? b = some c) :
    c.Fits := by
  rcases a with m | a <;> rcases b with n | b
  · cases h
    exact Move.Fits.merge ha hb
  · cases h
  · cases h
  · cases h
    trivial

end Run

theorem Move.Fits.canonical {m : Move} (hm : m.Fits) {i : Instr} (h : m.toInstr? = some i) :
    i.Canonical ∧ i.kind? = some .move := by
  unfold Fits at hm
  rcases Int.lt_trichotomy m.offset 0 with hneg | hzero | hpos
  · rw [toInstr?_of_neg hneg] at h
    cases h
    exact ⟨⟨by omega, hm.imp_right (by omega)⟩, rfl⟩
  · rw [toInstr?_of_zero hzero] at h
    cases h
  · rw [toInstr?_of_pos hpos] at h
    cases h
    exact ⟨⟨by omega, hm.imp_right (by omega)⟩, rfl⟩

/-- The instruction for a move stands for that move, trail included. -/
theorem Move.Fits.ofInstr? {m : Move} (hm : m.Fits) {i : Instr} (h : m.toInstr? = some i) :
    Run.ofInstr? i = some (.move m) := by
  unfold Fits at hm
  rcases Int.lt_trichotomy m.offset 0 with hneg | hzero | hpos
  · rw [toInstr?_of_neg hneg] at h
    cases h
    have ht : m.trail = [] ∨ m.trail.length = -m.offset := hm.imp_right (by omega)
    rw [Run.ofInstr?, fittingTrail_eq_self ht, Int.neg_neg]
  · rw [toInstr?_of_zero hzero] at h
    cases h
  · rw [toInstr?_of_pos hpos] at h
    cases h
    have ht : m.trail = [] ∨ m.trail.length = m.offset := hm.imp_right (by omega)
    rw [Run.ofInstr?, fittingTrail_eq_self ht]

/-- A remainder that is not zero. -/
theorem Cell.emod_bounds {d : Int} (h : d % modulus ≠ 0) :
    1 ≤ d % modulus ∧ d % modulus < modulus := by
  unfold modulus at h ⊢
  omega

theorem CellOp.canonical {c : CellOp} {i : Instr} (h : c.toInstr? = some i) :
    i.Canonical ∧ i.kind? = some .cell := by
  rcases c with ⟨d, p⟩ | ⟨v, p⟩
  · by_cases h0 : d % Cell.modulus = 0
    · rw [toInstr?_of_cancelled h0] at h
      cases h
    by_cases hd : 0 < d
    · rw [toInstr?_of_pos h0 hd] at h
      cases h
      exact ⟨Cell.emod_bounds h0, rfl⟩
    · rw [toInstr?_of_neg h0 hd] at h
      cases h
      refine ⟨Cell.emod_bounds fun h => h0 ?_, rfl⟩
      unfold Cell.modulus at h ⊢
      omega
  · cases h
    refine ⟨⟨Int.emod_nonneg v ?_, Int.emod_lt_of_pos v ?_⟩, rfl⟩ <;> decide

/-- The instruction for a run is canonical and of the kind of the run. -/
theorem Run.Fits.canonical {r : Run} (hr : r.Fits) {i : Instr} (h : r.toInstr? = some i) :
    i.Canonical ∧ i.kind? = some r.kind := by
  rcases r with m | c
  · exact Move.Fits.canonical hr h
  · exact CellOp.canonical h

/-- **Merging has nothing to do** for a single canonical instruction. -/
theorem Instr.Canonical.toInstr? {i : Instr} (hi : i.Canonical) {r : Run}
    (h : Run.ofInstr? i = some r) : r.toInstr? = some i := by
  cases i with
  | moveRight n p t =>
    cases h
    rw [Move.fittingTrail_eq_self hi.2]
    exact Move.toInstr?_of_pos hi.1
  | moveLeft n p t =>
    cases h
    have hn : -n < 0 := Int.neg_neg_of_pos hi.1
    have hm := Move.toInstr?_of_neg (m := ⟨-n, p, t⟩) hn
    rw [Int.neg_neg] at hm
    rw [Move.fittingTrail_eq_self hi.2]
    exact hm
  | add d p =>
    cases h
    have hd : 1 ≤ d ∧ d < Cell.modulus := hi
    have hm : d % Cell.modulus = d := Int.emod_eq_of_lt (by omega) hd.2
    have h0 : d % Cell.modulus ≠ 0 := by omega
    have h1 := CellOp.toInstr?_of_pos h0 (by omega) p
    rw [hm] at h1
    exact h1
  | sub d p =>
    cases h
    have hd : 1 ≤ d ∧ d < Cell.modulus := hi
    have hm : d % Cell.modulus = d := Int.emod_eq_of_lt (by omega) hd.2
    have h0 : -d % Cell.modulus ≠ 0 := by
      unfold Cell.modulus at hd ⊢
      omega
    have h1 := CellOp.toInstr?_of_neg h0 (by omega) p
    rw [Int.neg_neg, hm] at h1
    exact h1
  | set v p =>
    cases h
    have hm : v % Cell.modulus = v := Int.emod_eq_of_lt hi.1 hi.2
    show some (Instr.set (v % Cell.modulus) p) = some (.set v p)
    rw [hm]
  | _ => cases h

/-! ### Programs -/

/-- Two instructions that do not merge: they belong to runs of different kinds, or to none. -/
def Instr.Apart (i j : Instr) : Prop := ∀ k, i.kind? = some k → j.kind? ≠ some k

theorem Instr.Apart.symm {i j : Instr} (h : i.Apart j) : j.Apart i :=
  fun k hj hi => h k hi hj

/-- A program in normal form, to any depth. -/
inductive Program.Normal (level : Level) : Program → Prop
  | intro {p : Program} (canonical : ∀ i ∈ p, i.Canonical) (apart : p.IsChain Instr.Apart)
      (bodies : ∀ b pos, .loop b pos ∈ p → Normal level b)
      (unclear : ∀ b pos, .loop b pos ∈ p → level = .loops → Program.isClearLoop b = false) :
      Normal level p

namespace Program

variable {level : Level} {out : List Instr} {i : Instr}

theorem Normal.nil : Normal level [] :=
  .intro (by simp) .nil (by simp) (by simp)

theorem Normal.reverse {p : Program} : Normal level p → Normal level p.reverse
  | .intro canonical apart bodies unclear => by
    refine .intro ?_ ?_ ?_ ?_
    · simpa only [List.mem_reverse] using canonical
    · exact List.isChain_reverse.2 (apart.imp fun _ _ h => h.symm)
    · simpa only [List.mem_reverse] using bodies
    · simpa only [List.mem_reverse] using unclear

theorem Normal.canonical {p : Program} (h : Normal level p) : ∀ i ∈ p, i.Canonical := by
  cases h
  assumption

theorem Normal.body {p b : Program} {pos : Option Position} (h : Normal level p)
    (hb : .loop b pos ∈ p) : Normal level b := by
  obtain ⟨-, -, bodies, -⟩ := h
  exact bodies b pos hb

theorem Normal.tail (h : Normal level (i :: out)) : Normal level out := by
  obtain ⟨canonical, apart, bodies, unclear⟩ := h
  exact .intro (fun j hj => canonical j (.tail i hj)) apart.tail
    (fun b pos hb => bodies b pos (.tail i hb)) (fun b pos hb => unclear b pos (.tail i hb))

theorem Normal.of_append : ∀ {p : Program}, Normal level (p ++ out) → Normal level out
  | [], h => h
  | _ :: _, h => of_append h.tail

/-- What stands before an instruction does not end in a run of its kind. -/
theorem Normal.endKind?_ne (h : Normal level (i :: out)) {k : Run.Kind} (hk : i.kind? = some k) :
    endKind? out ≠ some k := by
  obtain ⟨-, apart, -, -⟩ := h
  rcases out with _ | ⟨j, out⟩
  · exact fun h => nomatch h
  · exact (List.isChain_cons_cons.1 apart).1 k hk

theorem Normal.cons (hn : Normal level out) (hc : i.Canonical)
    (ha : ∀ k, i.kind? = some k → endKind? out ≠ some k)
    (hb : ∀ b pos, i = .loop b pos → Normal level b ∧ (level = .loops → isClearLoop b = false)) :
    Normal level (i :: out) := by
  obtain ⟨canonical, apart, bodies, unclear⟩ := hn
  refine .intro ?_ ?_ ?_ ?_
  · exact List.forall_mem_cons.2 ⟨hc, canonical⟩
  · refine List.isChain_cons.2 ⟨fun j hj k hk hjk => ha k hk ?_, apart⟩
    rw [endKind?, Option.mem_def.1 hj, Option.bind_some, hjk]
  · intro b pos h
    rcases List.mem_cons.1 h with h | h
    · exact (hb b pos h.symm).1
    · exact bodies b pos h
  · intro b pos h
    rcases List.mem_cons.1 h with h | h
    · exact (hb b pos h.symm).2
    · exact unclear b pos h

/-- A run added where it does not merge. -/
theorem Normal.toInstr? (hn : Normal level out) {r : Run} (hr : r.Fits)
    (ha : endKind? out ≠ some r.kind) : Normal level (r.toInstr?.toList ++ out) := by
  rcases h : r.toInstr? with _ | i
  · exact hn
  obtain ⟨hc, hk⟩ := hr.canonical h
  refine hn.cons hc ?_ ?_
  · intro k hk'
    rw [hk] at hk'
    exact fun h => ha (h.trans hk'.symm)
  · rintro b pos rfl
    cases hk

/-- **Adding an instruction keeps the normal form.** -/
theorem normal_extend (hn : Normal level out) (hi : i.isLoop = false) :
    Normal level (extend out i) := by
  rcases hr : Run.ofInstr? i with _ | r
  · have hk : i.kind? = none := by rw [Instr.kind?, hr, Option.map_none]
    rw [extend_of_none hr]
    refine hn.cons (Instr.canonical_of_kind?_eq_none hk) ?_ ?_
    · intro k hk'
      rw [hk] at hk'
      cases hk'
    · rintro b pos rfl
      cases hi
  by_cases h : endKind? out = some r.kind
  · obtain ⟨prev, before, a, rfl, hp, hk⟩ := exists_of_endKind? h
    obtain ⟨c, hm, hck⟩ := Run.exists_merge? hk
    rw [extend_of_merge hr hp hm]
    have hfits : c.Fits := (Run.fits_of_ofInstr? hp).merge? (Run.fits_of_ofInstr? hr) hm
    refine hn.tail.toInstr? hfits (hn.endKind?_ne ?_)
    rw [hck]
    exact h
  · rw [extend_of_apart hr h]
    exact hn.toInstr? (Run.fits_of_ofInstr? hr) h

theorem normal_extendLoop (hn : Normal level out) {body : Program} (hb : Normal level body)
    (pos : Option Position) : Normal level (extendLoop level out body pos) := by
  unfold extendLoop
  split
  · exact normal_extend hn rfl
  · next h =>
    refine hn.cons trivial (fun k hk => nomatch hk) ?_
    rintro b p ⟨rfl, rfl⟩
    refine ⟨hb, fun hl => ?_⟩
    exact Bool.eq_false_iff.2 fun hc => h ⟨hl, hc⟩

/-- **Compacting brings every program into normal form.** -/
theorem normal_compactOnto (level : Level) (p : Program) : ∀ out : List Instr,
    Normal level out → Normal level (compactOnto level out p) := by
  induction p using Program.induction with
  | nil =>
    intro out hn
    rw [compactOnto_nil]
    exact hn
  | cons i r body rest =>
    intro out hn
    rw [compactOnto_cons]
    refine rest _ ?_
    rcases i.isLoop_cases with hl | ⟨b, pos, rfl⟩
    · rw [Instr.compactOnto_of_simple hl]
      exact normal_extend hn hl
    · rw [Instr.compactOnto_loop]
      exact normal_extendLoop hn (body b pos rfl [] .nil).reverse pos

end Program

end TapeLang
