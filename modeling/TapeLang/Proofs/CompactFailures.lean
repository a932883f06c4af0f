import TapeLang.Proofs.CompactMeaning
import TapeLang.Proofs.FaultPlaces

/-!
# Failures before and after compacting

Compacting adds no ending and no failure, and loses none but that of a cursor off the tape. What is
raised for such a cursor names the cell it was to go to, and it is an error of the run only if the
number of that cell can be written: `Ending.Strays` says which cell it is and what comes out.

* `Instr.strays`: an instruction that takes the cursor off the tape is a move, and fails like that.
* `Machine.Ends.exists_strays`: so does a run, at one of the instructions of its program.
* `Machine.Ends.isWritable`: on a tape that is not too large, only long moves lead to cells whose
  number cannot be written.
* `compact_adds_nothing`: a run of the compacted program and one of the program.
-/

namespace TapeLang

variable {σ : Type} {dev : Device σ} {cfg : Settings}

/-! ### Off the tape -/

/-- The cursor was to go to `target`, which is off a tape with the given limit. What comes out is
the error that says so, if the number of the cell can be written. -/
def Ending.Strays (limit : Nat) (e : Ending σ) (target : Int) : Prop :=
  ∃ err, e.failure = some (.fault err) ∧ err.numbers.head? = some target ∧
    (target < 0 ∧ err.category = .underflow ∨ limit ≤ target ∧ err.category = .outOfMemory) ∧
    e.raised = some (if Text.isWritable target then .error err else .tooLong)

/-- Whether a move is short: wherever it starts on a tape with the given limit, the cell it leads to
has a number that can be written. -/
def Instr.isShort (limit : Nat) : Instr → Bool
  | moveLeft n .. | moveRight n .. => Text.isWritable (limit + n.natAbs)
  | add .. | sub .. | set .. | output _ | input _ | loop .. | unknown _ => true

theorem Ending.Strays.unique {limit limit' : Nat} {e : Ending σ} {a b : Int}
    (ha : e.Strays limit a) (hb : e.Strays limit' b) : a = b := by
  obtain ⟨err, hfail, hfirst, -⟩ := ha
  obtain ⟨err', hfail', hfirst', -⟩ := hb
  rw [hfail] at hfail'
  cases hfail'
  exact Option.some_inj.1 (hfirst.symm.trans hfirst')

/-- A failed move strays to where it would have led. -/
theorem State.strays_of_move {s t : State σ} {d : Int} {f : Fault} {err : RuntimeError}
    (hs : s.tape.Valid) (hf : s.move d = (some f, t)) (category : err.category = f.category)
    (numbers : err.numbers = f.numbers) :
    Ending.Strays s.tape.limit ⟨some (.fault err), t⟩ (s.tape.cursor + d) := by
  obtain ⟨-, hmove⟩ := State.move_of_fault hf
  have hraised : err.raised = _ := hs.raised_of_move hmove numbers
  refine ⟨err, rfl, ?_, ?_, congrArg some hraised⟩
  · rw [numbers]
    rcases hs.move_failed hmove with ⟨-, rfl⟩ | ⟨h1, rfl⟩
    · rfl
    · exact congrArg some (Int.toNat_of_nonneg (by omega))
  · rw [category]
    rcases hs.move_failed hmove with ⟨h0, rfl⟩ | ⟨h1, rfl⟩
    · exact .inl ⟨h0, rfl⟩
    · exact .inr ⟨h1, rfl⟩

/-- **An instruction that takes the cursor off the tape** is a move. -/
theorem Instr.strays {i : Instr} {s t : State σ} {f : Failure} (hs : s.tape.Valid)
    (h : i.act dev cfg s = (some f, t)) (off : f.OffTape) :
    ∃ m, Run.ofInstr? i = some (.move m) ∧
      Ending.Strays s.tape.limit ⟨some f, t⟩ (s.tape.cursor + m.offset) := by
  rcases failed_cases h with ⟨n, -, rfl, -⟩ | ⟨fault, hf, rfl⟩
  · cases off
  cases i with
  | moveLeft n pos trail => exact ⟨_, rfl, State.strays_of_move hs hf rfl rfl⟩
  | moveRight n pos trail => exact ⟨_, rfl, State.strays_of_move hs hf rfl rfl⟩
  | output pos =>
    have hcat : fault.category = .stream := State.write_of_fault hf
    rcases off with hoff | hoff <;> cases hcat.symm.trans hoff
  | input pos =>
    rcases State.input_of_fault hf with hcat | hcat <;>
      rcases off with hoff | hoff <;> cases hcat.symm.trans hoff
  | add | sub | set | loop | unknown => cases hf

theorem Instr.isWritable_of_isShort {limit cursor : Nat} {i : Instr} {m : Move}
    (hi : Run.ofInstr? i = some (.move m)) (short : i.isShort limit = true)
    (hcursor : cursor < limit) : Text.isWritable (cursor + m.offset) = true := by
  cases i with
  | moveLeft n pos trail =>
    cases hi
    have hle : (cursor + -n).natAbs ≤ (limit + n.natAbs : Int).natAbs := by omega
    exact Text.isWritable_mono hle short
  | moveRight n pos trail =>
    cases hi
    have hle : (cursor + n).natAbs ≤ (limit + n.natAbs : Int).natAbs := by omega
    exact Text.isWritable_mono hle short
  | _ => cases hi

namespace Machine.Ends

variable {p : Program} {s : State σ} {e : Ending σ} {f : Failure}

/-- A run in which the cursor leaves the tape strays at one of the instructions of its program. -/
theorem exists_move {P : Instr → Bool} (ends : (Machine.start p s).Ends dev cfg e)
    (all : p.throughout P = true) (valid : s.tape.Valid) (failed : e.failure = some f)
    (off : f.OffTape) :
    ∃ i m, P i = true ∧ Run.ofInstr? i = some (.move m) ∧
      ∃ cursor < s.tape.limit, e.Strays s.tape.limit (cursor + m.offset) := by
  rcases Machine.ends_iff_runs.1 ends with @⟨t, done⟩ | @⟨g, t, hfail⟩
  · -- the flush at the end does not touch the tape
    rcases f with err | unknown
    · obtain ⟨reason, -, rfl⟩ := Machine.exists_of_finish failed
      rcases off with hoff | hoff <;> cases hoff
    · cases off
  · cases failed
    obtain ⟨i, u, hi, hu, hact⟩ := (hfail.blames all valid).2 _ rfl
    obtain ⟨m, hm, hstrays⟩ := Instr.strays hu.valid hact off
    rw [hu.limit] at hstrays
    have hcursor : u.tape.cursor < s.tape.limit := by
      have h1 := hu.valid.cursor_lt
      have h2 := hu.valid.length_le
      have h3 := hu.limit
      omega
    exact ⟨i, m, hi, hm, u.tape.cursor, hcursor, hstrays⟩

theorem exists_strays (ends : (Machine.start p s).Ends dev cfg e) (valid : s.tape.Valid)
    (failed : e.failure = some f) (off : f.OffTape) :
    ∃ target, e.Strays s.tape.limit target := by
  obtain ⟨i, m, -, -, cursor, -, hstrays⟩ :=
    ends.exists_move (Program.throughout_true p) valid failed off
  exact ⟨_, hstrays⟩

/-- **Short moves** only lead to cells whose number can be written. -/
theorem isWritable (ends : (Machine.start p s).Ends dev cfg e) (valid : s.tape.Valid)
    (short : p.throughout (Instr.isShort s.tape.limit) = true) {target : Int}
    (strays : e.Strays s.tape.limit target) : Text.isWritable target = true := by
  obtain ⟨err, failed, -, hcases, -⟩ := id strays
  have off : (Failure.fault err).OffTape := hcases.imp And.right And.right
  obtain ⟨i, m, hi, hm, cursor, hcursor, hstrays⟩ := ends.exists_move short valid failed off
  rw [strays.unique hstrays]
  exact Instr.isWritable_of_isShort hm hi hcursor

end Machine.Ends

/-! ### Both runs -/

/-- **Compacting adds nothing.** If the compacted program comes to an ending, so does the program:
either to the same one, with the same calls, and the cursor stays on the tape in both; or its cursor
leaves the tape, after no other stream calls than the compacted program makes. So a cursor that
leaves the tape in the compacted program leaves it in the program. What is raised then is an
underflow or a lack of memory, if the number of the cell can be written; that is so for every
program with short moves. -/
theorem compact_adds_nothing (dev : Device σ) (cfg : Settings) (p : Program) (level : Int)
    {s : State σ} {e' : Ending σ} (valid : s.tape.Valid)
    (ends : (Machine.start (p.compact level) s).Ends dev cfg e') :
    ∃ e, (Machine.start p s).Ends dev cfg e ∧
      ((e.failure = e'.failure ∧ e.raised = e'.raised ∧
          (∀ f, e.failure = some f → ¬ f.OffTape) ∧
          e.state.calls = e'.state.calls ∧ e.state.streams = e'.state.streams) ∨
        (∃ target, e.Strays s.tape.limit target) ∧
          e.state.calls.toList <+: e'.state.calls.toList) ∧
      (∀ f', e'.failure = some f' → f'.OffTape → ∃ target, e.Strays s.tape.limit target) ∧
      (p.throughout (Instr.isShort s.tape.limit) = true →
        ∀ target, e.Strays s.tape.limit target → Text.isWritable target = true) := by
  have hr : (Comparison.sparing dev cfg).Refines (p.compact level) p := refines_compact level p
  obtain ⟨e, he, hcases⟩ := (hr.ends (Comparison.alike_self valid)).2 e' ends
  have hstrays : (∃ f, e.failure = some f ∧ f.OffTape) → ∃ target, e.Strays s.tape.limit target :=
    fun ⟨f, failed, off⟩ => he.exists_strays valid failed off
  refine ⟨e, he, ?_, ?_, fun short target => he.isWritable valid short⟩
  · rcases hcases with ⟨hf, ha⟩ | ⟨hlost, hc⟩
    · by_cases hoff : ∃ f, e.failure = some f ∧ f.OffTape
      · exact .inr ⟨hstrays hoff, State.Continues.of_eq ha.calls⟩
      · refine .inl ⟨hf.symm, ?_, fun f hf' hf'' => hoff ⟨f, hf', hf''⟩, ha.calls.symm,
          ha.streams.symm⟩
        rw [Ending.raised, Ending.raised, hf]
    · exact .inr ⟨hstrays hlost, hc⟩
  · intro f' hf' hoff
    rcases hcases with ⟨hf, -⟩ | ⟨hlost, -⟩
    · exact hstrays ⟨f', hf ▸ hf', hoff⟩
    · exact hstrays hlost

/-- A detour off the tape after some output, which compacting removes. -/
theorem compact_adds_nothing_detour :
    ∃ e e', (Machine.start (Program.compact 0 [.output none, .moveLeft 1 none [],
          .moveRight 1 none []]) State.small).Ends .sink ⟨.zero, .byte⟩ e' ∧
      (Machine.start [.output none, .moveLeft 1 none [], .moveRight 1 none []]
        State.small).Ends .sink ⟨.zero, .byte⟩ e ∧
      e'.raised = none ∧ (e.raised = e'.raised ∨ ∃ target, e.Strays 4 target ∧
        Text.isWritable target = true) := by
  have hc : Program.compact 0 [.output none, .moveLeft 1 none [], .moveRight 1 none []] =
      [.output none] := by
    rw [Program.compact_eq]
    rfl
  obtain ⟨t', ends⟩ : ∃ t', (Machine.start (Program.compact 0 [.output none, .moveLeft 1 none [],
      .moveRight 1 none []]) State.small).Ends .sink ⟨.zero, .byte⟩ ⟨none, t'⟩ := by
    rw [hc]
    exact ⟨_, 2, rfl⟩
  obtain ⟨e, h, hcases, -, hshort⟩ :=
    compact_adds_nothing .sink ⟨.zero, .byte⟩ _ 0 State.valid_small ends
  refine ⟨e, _, ends, h, rfl, hcases.imp (fun h => h.2.1) fun ⟨⟨target, strays⟩, _⟩ => ?_⟩
  exact ⟨target, strays, hshort (by decide) target strays⟩

/-- A move far to the right and back, which compacting removes. -/
theorem Program.compact_there_and_back {n : Int} (hn : 0 < n) :
    compact 0 [.moveRight 1 none [], .moveRight n none [], .moveLeft n none []] =
      [.moveRight 1 none []] := by
  have htrail (k : Int) : Move.fittingTrail k [] = [] := by simp [Move.fittingTrail]
  have hsum : 0 < 1 + n := by omega
  have forth : extend [.moveRight 1 none []] (.moveRight n none []) =
      [.moveRight (1 + n) none []] := by
    simp [extend, Run.ofInstr?, Run.merge?, Move.merge, Run.toInstr?, Move.toInstr?, htrail, hn,
      hsum]
  have back : extend [.moveRight (1 + n) none []] (.moveLeft n none []) =
      [.moveRight 1 none []] := by
    have hless : n.natAbs < (1 + n).natAbs := by omega
    have hnet : 1 + n + -n = 1 := by omega
    simp [extend, Run.ofInstr?, Run.merge?, Move.merge, Run.toInstr?, Move.toInstr?, htrail, hsum,
      hless, hnet]
  rw [compact_eq, compactOnto_cons, compactOnto_cons, compactOnto_cons, compactOnto_nil]
  rw [Instr.compactOnto_of_simple (i := .moveRight 1 none []) rfl,
    Instr.compactOnto_of_simple (i := .moveRight n none []) rfl,
    Instr.compactOnto_of_simple (i := .moveLeft n none []) rfl]
  have first : extend [] (.moveRight 1 none []) = [.moveRight 1 none []] := rfl
  rw [first, forth, back]
  rfl

/-- The compacted program succeeds, and the program takes the cursor beyond the limit, to a cell
whose number cannot be written. So neither the ending of the one nor an error of the tape comes out
of the other. -/
theorem far_detour_unreported :
    let p : Program := [.moveRight 1 none [], .moveRight Text.largest none [],
      .moveLeft Text.largest none []]
    ∃ e e', (Machine.start (p.compact 0) State.small).Ends .sink ⟨.zero, .byte⟩ e' ∧
      e'.raised = none ∧ (Machine.start p State.small).Ends .sink ⟨.zero, .byte⟩ e ∧
      e.Strays 4 (1 + Text.largest) ∧ e.raised = some .tooLong := by
  intro p
  have nine : Int.natAbs 9 ≤ Text.largest := Text.isWritable_iff.1 (by decide)
  obtain ⟨t', ends'⟩ : ∃ t',
      (Machine.start (p.compact 0) State.small).Ends .sink ⟨.zero, .byte⟩ ⟨none, t'⟩ := by
    rw [Program.compact_there_and_back (by omega)]
    exact ⟨_, 2, rfl⟩
  -- the first move succeeds, the second does not
  obtain ⟨t, hfirst, -, -, -, hmoved⟩ :=
    exec_move Device.sink ⟨.zero, .byte⟩ (i := .moveRight 1 none []) rfl State.valid_small
      (by decide) (by decide)
  have hcursor : (t.tape.cursor : Int) = 1 := hmoved.cursor
  have hlimit : t.tape.limit = 4 := hmoved.limit
  have beyond : (t.tape.limit : Int) ≤ t.tape.cursor + Text.largest := by omega
  have hmove := hmoved.valid.move_outOfMemory beyond
  have hsecond : Exec Device.sink ⟨.zero, .byte⟩ [.moveRight Text.largest none []] t _ :=
    exec_move_of_error rfl hmove
  have ends : (Machine.start p State.small).Ends .sink ⟨.zero, .byte⟩ _ :=
    Machine.ends_iff_runs.2 (.fail (hfirst.append_of_none (hsecond.append_of_some _)))
  obtain ⟨target, strays⟩ := ends.exists_strays State.valid_small rfl (.inr rfl)
  obtain ⟨err, hfail, hfirst, -, hraised⟩ := id strays
  cases hfail
  have htarget : ((t.tape.cursor + Text.largest : Int).toNat : Int) = target :=
    Option.some_inj.1 hfirst
  obtain rfl : target = 1 + Text.largest := by omega
  have long : Text.isWritable (1 + Text.largest) = false := by
    rw [Bool.eq_false_iff, ne_eq, Text.isWritable_iff]
    omega
  rw [long] at hraised
  exact ⟨_, _, ends', rfl, ends, strays, hraised⟩

end TapeLang
