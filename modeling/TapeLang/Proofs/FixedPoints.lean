import TapeLang.Proofs.Levels

/-!
# Compacting again

A program in normal form is left as it is by compacting at its level, places and trails included
(`Program.compact_of_normal`), and what is in normal form for the higher level is so for the lower
one (`Program.Normal.lower`). Together with `Program.compact_loops_compact_runs` this settles what
compacting twice does.

* `Program.compact_compact`: compacting twice is compacting once, at the higher of the two levels.
-/

namespace TapeLang

namespace Program

/-- Where clear loops are folded, runs are merged. -/
theorem Normal.lower {p : Program} (h : Normal .loops p) : Normal .runs p := by
  induction h with
  | intro canonical apart _ _ ih => exact .intro canonical apart ih fun _ _ _ hl => nomatch hl

/-- An instruction that ends a program in normal form is added as it is, a loop if its body is left
as it is. -/
theorem Normal.compactOnto_last {level : Level} {i : Instr} {out : List Instr}
    (h : Normal level (i :: out))
    (body : ∀ b pos, i = .loop b pos → compactOnto level [] b = b.reverse) :
    i.compactOnto level out = i :: out := by
  rcases i.isLoop_cases with hl | ⟨b, pos, rfl⟩
  · rw [Instr.compactOnto_of_simple hl]
    rcases hi : Run.ofInstr? i with _ | r
    · exact extend_of_none hi
    · have hk : endKind? out ≠ some r.kind := h.endKind?_ne (Instr.kind?_eq_some.2 ⟨r, hi, rfl⟩)
      exact extend_canonical (h.canonical i (.head _)) hi hk
  · obtain ⟨-, -, -, unclear⟩ := h
    rw [Instr.compactOnto_loop, body b pos rfl, List.reverse_reverse, extendLoop, if_neg]
    rintro ⟨hl, hc⟩
    rw [unclear b pos (.head _) hl] at hc
    cases hc

/-- **What is in normal form is added as it is.** The induction is along the program and into its
loops. -/
theorem compactOnto_of_normal (level : Level) (p : Program) : ∀ out : List Instr,
    Normal level (p.reverse ++ out) → compactOnto level out p = p.reverse ++ out := by
  induction p using Program.induction with
  | nil =>
    intro out _
    exact compactOnto_nil level out
  | cons i r body rest =>
    intro out hn
    rw [List.reverse_cons, List.append_assoc, List.singleton_append] at hn ⊢
    have hi : Normal level (i :: out) := hn.of_append
    have hlast : i.compactOnto level out = i :: out := by
      refine hi.compactOnto_last ?_
      rintro b pos rfl
      have hb : Normal level (b.reverse ++ []) := by
        rw [List.append_nil]
        exact (hi.body (.head _)).reverse
      have h := body b pos rfl [] hb
      rwa [List.append_nil] at h
    rw [compactOnto_cons, hlast]
    exact rest (i :: out) hn

theorem compactOnto_reverse {level : Level} {out : List Instr} (h : Normal level out) :
    compactOnto level [] out.reverse = out := by
  have hn : Normal level (out.reverse.reverse ++ []) := by
    rw [List.reverse_reverse, List.append_nil]
    exact h
  rw [compactOnto_of_normal level _ [] hn, List.reverse_reverse, List.append_nil]

theorem compact_of_normal {n : Int} {p : Program} (h : Normal (.ofInt n) p) : p.compact n = p := by
  have hn : Normal (.ofInt n) (p.reverse ++ []) := by
    rw [List.append_nil]
    exact h.reverse
  rw [compact_eq, compactOnto_of_normal _ p [] hn, List.append_nil, List.reverse_reverse]

theorem normal_compact (n : Int) (p : Program) : Normal (.ofInt n) (p.compact n) := by
  rw [compact_eq]
  exact (normal_compactOnto (.ofInt n) p [] .nil).reverse

/-- Only the level of a number counts. -/
theorem compact_congr {m n : Int} (h : Level.ofInt m = Level.ofInt n) (p : Program) :
    p.compact m = p.compact n := by
  unfold compact
  rw [h]

/-- **Compacting twice is compacting once, at the higher of the two levels**, in every detail: the
same instructions with the same places and trails. -/
theorem compact_compact (p : Program) (a b : Int) :
    (p.compact a).compact b = p.compact (max a b) := by
  by_cases ha : 1 ≤ a
  · -- all that the second pass could do has been done by the first
    have hl : Level.ofInt a = .loops := if_pos ha
    have hmax : Level.ofInt a = Level.ofInt (max a b) := hl.trans (if_pos (by omega)).symm
    have hn : Normal .loops (p.compact a) := hl ▸ normal_compact a p
    have hb : Normal (.ofInt b) (p.compact a) := by
      cases Level.ofInt b with
      | runs => exact hn.lower
      | loops => exact hn
    rw [compact_of_normal hb, compact_congr hmax]
  · have hl : Level.ofInt a = .runs := if_neg ha
    by_cases hb : 1 ≤ b
    · have hzero : Level.ofInt a = Level.ofInt 0 := hl
      have hone : Level.ofInt b = Level.ofInt 1 := if_pos hb
      have hmax : Level.ofInt (max a b) = Level.ofInt 1 := if_pos (by omega)
      rw [compact_congr hzero, compact_congr hone, compact_congr hmax]
      exact compact_loops_compact_runs p
    · have hmax : Level.ofInt a = Level.ofInt (max a b) := hl.trans (if_neg (by omega)).symm
      have hrun : Level.ofInt b = Level.ofInt a := (if_neg hb).trans hl.symm
      rw [compact_congr hrun, compact_of_normal (normal_compact a p), compact_congr hmax]

end Program

end TapeLang
