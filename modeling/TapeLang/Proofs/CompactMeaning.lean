import TapeLang.Proofs.ClearLoops
import TapeLang.Proofs.Compacting

/-!
# Compacting keeps the meaning

A compacted program can stand for the program under the comparison that spares detours. Each
instruction is added to a compacted program in a way that does so (`refines_extend`,
`refines_extendLoop`), and refinement is kept by sequence and loops, so it holds of whole programs
(`refines_compact`).

* `compact_keeps_success`: a run that succeeds does the same after compacting.
-/

namespace TapeLang

variable {σ : Type} {dev : Device σ} {cfg : Settings}

/-! ### Adding to a compacted program -/

theorem Run.reverse_toInstr? (r : Run) : r.toInstr?.toList.reverse = r.toInstr?.toList := by
  cases r.toInstr? <;> rfl

section Extend
variable {C : Comparison dev cfg} {T : Tape.Likeness} {P : Failure → Prop}
variable {i prev : Instr} {r a c : Run}

/-- An instruction of a run is added well if its run and every run it merges into may replace what
they come from. -/
theorem refines_extend_of (out : List Instr) (hi : Run.ofInstr? i = some r)
    (alone : C.Refines r.toInstr?.toList [i])
    (merged : ∀ prev a c, Run.ofInstr? prev = some a → a.merge? r = some c →
      C.Refines c.toInstr?.toList [prev, i]) :
    C.Refines (Program.extend out i).reverse (out.reverse ++ [i]) := by
  by_cases h : Program.endKind? out = some r.kind
  · obtain ⟨prev, before, a, rfl, hp, hk⟩ := Program.exists_of_endKind? h
    obtain ⟨c, hm, -⟩ := Run.exists_merge? hk
    rw [Program.extend_of_merge hi hp hm, List.reverse_append, List.reverse_cons,
      List.append_assoc, Run.reverse_toInstr?]
    exact (Comparison.Refines.refl _).append (merged prev a c hp hm)
  · rw [Program.extend_of_apart hi h, List.reverse_append, Run.reverse_toInstr?]
    exact (Comparison.Refines.refl _).append alone

/-- Cell operations are added well under every comparison by the tape. -/
theorem refines_extend_cell (out : List Instr) {b : CellOp} (hi : Run.ofInstr? i = some (.cell b)) :
    (Comparison.byTape dev cfg T P).Refines (Program.extend out i).reverse
      (out.reverse ++ [i]) := by
  refine refines_extend_of out hi (refines_cell hi) ?_
  intro prev a c hp hm
  rcases a with m | a
  · cases hm
  · cases hm
    exact refines_cells hp hi

theorem refines_run (hi : Run.ofInstr? i = some r) :
    (Comparison.sparing dev cfg).Refines r.toInstr?.toList [i] := by
  rcases r with m | c
  · exact refines_wander (wanders_move hi) (Nat.le_refl 1)
  · exact refines_cell hi

theorem refines_merge (hp : Run.ofInstr? prev = some a) (hi : Run.ofInstr? i = some r)
    (hm : a.merge? r = some c) :
    (Comparison.sparing dev cfg).Refines c.toInstr?.toList [prev, i] := by
  rcases a with m | a <;> rcases r with n | r
  · cases hm
    have hw : Wanders dev cfg [prev, i] (m.offset + n.offset) :=
      (wanders_move hp).append (wanders_move hi)
    rw [← Move.offset_merge] at hw
    exact refines_wander hw (by simp)
  · cases hm
  · cases hm
  · cases hm
    exact refines_cells hp hi

/-- Where detours are spared, every instruction is added well. -/
theorem refines_extend (out : List Instr) (i : Instr) :
    (Comparison.sparing dev cfg).Refines (Program.extend out i).reverse (out.reverse ++ [i]) := by
  rcases hi : Run.ofInstr? i with _ | r
  · rw [Program.extend_of_none hi, List.reverse_cons]
    exact .refl _
  · exact refines_extend_of out hi (refines_run hi) fun _ _ _ hp hm => refines_merge hp hi hm

/-- A loop whose body is compacted, or folded if it is a clear loop. -/
theorem refines_extendLoop (level : Level) (out : List Instr) {body b : Program}
    (hb : (Comparison.byTape dev cfg T P).Refines body b) (pos : Option Position) :
    (Comparison.byTape dev cfg T P).Refines (Program.extendLoop level out body pos).reverse
      (out.reverse ++ [.loop b pos]) := by
  have hloop := (Comparison.Refines.refl out.reverse).append (hb.loop pos pos)
  unfold Program.extendLoop
  split
  · next h =>
    have hclear : (Comparison.byTape dev cfg T P).Refines (out.reverse ++ [.set 0 pos])
        (out.reverse ++ [.loop body pos]) :=
      (Comparison.Refines.refl out.reverse).append (refines_clear h.2 pos pos)
    exact (refines_extend_cell out rfl).trans (hclear.trans hloop)
  · rw [List.reverse_cons]
    exact hloop

/-- One step along a program: the instruction is added well if it is simple, its body is compacted
well if it is a loop, and so is what follows. -/
theorem refines_compactOnto_cons {level : Level} {out : List Instr} {rest : Program}
    (simple : i.isLoop = false →
      (Comparison.byTape dev cfg T P).Refines (Program.extend out i).reverse (out.reverse ++ [i]))
    (body : ∀ b pos, i = .loop b pos →
      (Comparison.byTape dev cfg T P).Refines (Program.compactOnto level [] b).reverse b)
    (next : (Comparison.byTape dev cfg T P).Refines
      (Program.compactOnto level (i.compactOnto level out) rest).reverse
      ((i.compactOnto level out).reverse ++ rest)) :
    (Comparison.byTape dev cfg T P).Refines (Program.compactOnto level out (i :: rest)).reverse
      (out.reverse ++ i :: rest) := by
  have hi : (Comparison.byTape dev cfg T P).Refines (i.compactOnto level out).reverse
      (out.reverse ++ [i]) := by
    rcases i.isLoop_cases with hl | ⟨b, pos, rfl⟩
    · rw [Instr.compactOnto_of_simple hl]
      exact simple hl
    · rw [Instr.compactOnto_loop]
      exact refines_extendLoop level out (body b pos rfl) pos
  have hr := next.trans (hi.append (.refl rest))
  rw [List.append_assoc] at hr
  rw [Program.compactOnto_cons]
  exact hr

end Extend

/-- A program compacted behind `out`. The induction is along the program and into its loops. -/
theorem refines_compactOnto (level : Level) (p : Program) : ∀ out : List Instr,
    (Comparison.sparing dev cfg).Refines (Program.compactOnto level out p).reverse
      (out.reverse ++ p) := by
  induction p using Program.induction with
  | nil =>
    intro out
    rw [Program.compactOnto_nil, List.append_nil]
    exact .refl _
  | cons i r body rest =>
    intro out
    exact refines_compactOnto_cons (fun _ => refines_extend out i)
      (fun b pos hb => body b pos hb []) (rest _)

/-- **A compacted program can stand for the program.** -/
theorem refines_compact (level : Int) (p : Program) :
    (Comparison.sparing dev cfg).Refines (p.compact level) p := by
  rw [Program.compact_eq]
  exact refines_compactOnto (.ofInt level) p []

/-! ### Runs of compacted programs -/

/-- Streams that take all output and give no input. -/
def Device.sink : Device Unit where
  write _ s := (.ok (), s)
  flush? := none
  read? := none

/-- Before a run on a tape of one cell that may grow to four. -/
def State.small : State Unit := .start (.blank 1 4) ()

theorem State.valid_small : State.small.tape.Valid := Tape.valid_blank (by decide) (by decide)

/-- **A run that succeeds does the same after compacting**: it makes the same stream calls, ends
with the same cursor and cells, and neither uses more of the tape nor takes more steps. -/
theorem compact_keeps_success (dev : Device σ) (cfg : Settings) (p : Program) (level : Int)
    {s t : State σ} (valid : s.tape.Valid)
    (done : (Machine.start p s).Ends dev cfg ⟨none, t⟩) :
    ∃ t', (Machine.start (p.compact level) s).Ends dev cfg ⟨none, t'⟩ ∧
      t'.calls = t.calls ∧ t'.streams = t.streams ∧ t'.tape.cursor = t.tape.cursor ∧
      (∀ k, t'.tape.cells.getD k 0 = t.tape.cells.getD k 0) ∧
      t'.tape.highWater ≤ t.tape.highWater ∧ t'.steps ≤ t.steps := by
  have hr : (Comparison.sparing dev cfg).Refines (p.compact level) p := refines_compact level p
  obtain ⟨e', he', hsame⟩ :=
    (hr.ends (Comparison.alike_self valid)).1 _ done (Comparison.not_lost t)
  obtain ⟨t', rfl, ha⟩ := Comparison.exists_of_same_none hsame
  have ht : t'.tape.Shadows t.tape := ha.2.tape
  exact ⟨t', he', ha.2.calls, ha.2.streams, ht.cursor, ht.getD, ht.highWater, ha.2.steps⟩

/-- A clear loop, and a detour past the cell that is printed. -/
theorem compact_keeps_success_detour :
    ∃ t t', (Machine.start [.add 3 none, .loop [.sub 1 none] none, .moveRight 3 none [],
          .moveLeft 2 none [], .output none] State.small).Ends .sink ⟨.zero, .byte⟩ ⟨none, t⟩ ∧
      (Machine.start (Program.compact 1 [.add 3 none, .loop [.sub 1 none] none,
          .moveRight 3 none [], .moveLeft 2 none [], .output none]) State.small).Ends .sink
        ⟨.zero, .byte⟩ ⟨none, t'⟩ ∧
      t.calls = #[.wrote [0]] ∧ t'.calls = t.calls ∧ t'.tape.cursor = t.tape.cursor ∧
      t'.tape.highWater ≤ t.tape.highWater ∧ t'.steps ≤ t.steps := by
  have done : (Machine.start [.add 3 none, .loop [.sub 1 none] none, .moveRight 3 none [],
      .moveLeft 2 none [], .output none] State.small).Ends .sink ⟨.zero, .byte⟩ ⟨none, _⟩ :=
    ⟨15, rfl⟩
  obtain ⟨t', h, hcalls, -, hcursor, -, hmark, hsteps⟩ :=
    compact_keeps_success .sink ⟨.zero, .byte⟩ _ 1 State.valid_small done
  exact ⟨_, t', done, h, rfl, hcalls, hcursor, hmark, hsteps⟩

end TapeLang
