import TapeLang.Proofs.Compacting
import TapeLang.Proofs.Likeness

/-!
# What merged runs do

A run of cell operations writes a number that depends on the one in the cell (`CellOp.value`), and a
run of moves displaces the cursor. Merging two runs of a kind is one after the other:

* `refines_cell`, `refines_cells`: a cell operation, or two of them, may be replaced by the
  instruction for the run, under every comparison by the tape. None of them can fail.
* `refines_wander`: moves may be replaced by one move to where they end, as long as a fault is
  allowed to be lost, because the merged move does not go where the moves went in between. A fault
  of the merged move is not new: it lies where the moves end.
-/

namespace TapeLang

variable {σ : Type} {dev : Device σ} {cfg : Settings}

/-! ### Cell operations -/

/-- The state after `n` steps in which only `v` was written. -/
def State.put (s : State σ) (v : Int) (n : Nat) : State σ :=
  { s with tape := s.tape.write v, steps := s.steps + n }

namespace State

theorem put_put (s : State σ) (v w : Int) (n m : Nat) : (s.put v n).put w m = s.put w (n + m) := by
  unfold put
  rw [Tape.write_write, Nat.add_assoc]

theorem put_congr (s : State σ) {v w : Int} (h : v % Cell.modulus = w % Cell.modulus) (n : Nat) :
    s.put v n = s.put w n := by
  unfold put
  rw [s.tape.write_congr h]

theorem put_read {s : State σ} (h : s.tape.Valid) (n : Nat) :
    s.put s.tape.read.toNat n = { s with steps := s.steps + n } := by
  unfold put
  rw [h.write_read]

/-- What is read after a write, as a number. -/
theorem read_put {s : State σ} (h : s.tape.Valid) (v : Int) (n : Nat) :
    ((s.put v n).tape.read.toNat : Int) = v % Cell.modulus := by
  unfold put
  rw [Tape.read_write h.cursor_lt, Cell.toNat_ofInt]

end State

section Cells
variable {i j : Instr} {a b c : CellOp}

theorem act_cell (hi : Run.ofInstr? i = some (.cell c)) {s : State σ} (hs : s.tape.Valid) :
    i.act dev cfg s.tick = (none, s.put (c.value s.tape.read.toNat) 1) := by
  cases i with
  | add d p =>
    cases hi
    unfold State.put CellOp.value
    rw [← hs.change_eq_write]
    rfl
  | sub d p =>
    cases hi
    unfold State.put CellOp.value
    rw [← hs.change_eq_write]
    rfl
  | set v p => cases hi; rfl
  | _ => cases hi

theorem exec_cell (hi : Run.ofInstr? i = some (.cell c)) {s : State σ} (hs : s.tape.Valid) :
    Exec dev cfg [i] s ⟨none, s.put (c.value s.tape.read.toNat) 1⟩ := by
  rw [Exec.single_iff (Run.isLoop_of_ofInstr? hi), act_cell hi hs]
  rfl

theorem exec_cells (hi : Run.ofInstr? i = some (.cell a)) (hj : Run.ofInstr? j = some (.cell b))
    {s : State σ} (hs : s.tape.Valid) :
    Exec dev cfg [i, j] s ⟨none, s.put ((a.merge b).value s.tape.read.toNat) 2⟩ := by
  have h1 : Exec dev cfg [i] s _ := exec_cell hi hs
  have h2 : Exec dev cfg [j] (s.put (a.value s.tape.read.toNat) 1) _ :=
    exec_cell hj (hs.write _)
  -- the second operation finds what the first has written, up to multiples of the range
  rw [State.read_put hs, State.put_put, State.put_congr s (b.value_congr (Int.emod_emod _ _)),
    ← CellOp.value_merge] at h2
  exact h1.append_of_none h2

theorem exec_toInstr? (c : CellOp) {s : State σ} (hs : s.tape.Valid) :
    Exec dev cfg c.toInstr?.toList s
      ⟨none, s.put (c.value s.tape.read.toNat) c.toInstr?.toList.length⟩ := by
  rcases hc : c.toInstr? with _ | i
  · rw [State.put_congr s ((CellOp.cancelled_of_toInstr?_eq_none hc).1 _), State.put_read hs]
    exact .nil
  · obtain ⟨c', hi, hv, -⟩ := CellOp.exists_of_toInstr?_eq_some hc
    rw [← State.put_congr s (hv _)]
    exact exec_cell hi hs

variable {T : Tape.Likeness} {P : Failure → Prop}

/-- A program that writes what a run of cell operations writes, in at least one step. -/
theorem refines_of_put {p : Program} {n : Nat} (hn : 1 ≤ n)
    (h : ∀ s : State σ, s.tape.Valid →
      Exec dev cfg p s ⟨none, s.put (c.value s.tape.read.toNat) n⟩) :
    (Comparison.byTape dev cfg T P).Refines c.toInstr?.toList p := by
  refine Comparison.refines_of_saves fun s hs => ⟨_, _, ?_, h s hs, exec_toInstr? c hs⟩
  have hlen : c.toInstr?.toList.length ≤ 1 := by cases c.toInstr? <;> simp
  show s.steps + c.toInstr?.toList.length ≤ s.steps + n
  omega

theorem refines_cell (hi : Run.ofInstr? i = some (.cell c)) :
    (Comparison.byTape dev cfg T P).Refines c.toInstr?.toList [i] :=
  refines_of_put (Nat.le_refl 1) fun _ hs => exec_cell hi hs

theorem refines_cells (hi : Run.ofInstr? i = some (.cell a))
    (hj : Run.ofInstr? j = some (.cell b)) :
    (Comparison.byTape dev cfg T P).Refines (a.merge b).toInstr?.toList [i, j] :=
  refines_of_put (by omega) fun _ hs => exec_cells hi hj hs

end Cells

/-! ### Moves -/

/-- The cursor has left the tape. -/
def Failure.OffTape : Failure → Prop
  | .fault e => e.category = .underflow ∨ e.category = .outOfMemory
  | .unknown _ => False

/-- The comparison in which detours of the cursor are spared: the tape may be used less far, and a
fault on a detour may be lost. -/
abbrev Comparison.sparing (dev : Device σ) (cfg : Settings) : Comparison dev cfg :=
  byTape dev cfg .shadow Failure.OffTape

/-- What a way from `t` to a cell at distance `d` leaves, wherever it went in between. -/
structure Tape.Displaced (t u : Tape) (d : Int) : Prop where
  valid : u.Valid
  limit : u.limit = t.limit
  cursor : (u.cursor : Int) = t.cursor + d
  highWater : t.highWater ≤ u.highWater
  getD k : u.cells.getD k 0 = t.cells.getD k 0

theorem Tape.Moved.displaced {t u : Tape} {d : Int} (h : t.Moved u d) : t.Displaced u d where
  valid := h.valid
  limit := h.limit
  cursor := h.cursor
  highWater := by
    rw [h.highWater]
    exact Nat.le_max_left _ _
  getD := h.getD

theorem Tape.Displaced.trans {t u v : Tape} {c d : Int} (h : t.Displaced u c)
    (h' : u.Displaced v d) : t.Displaced v (c + d) where
  valid := h'.valid
  limit := h'.limit.trans h.limit
  cursor := by
    have h1 := h.cursor
    have h2 := h'.cursor
    omega
  highWater := Nat.le_trans h.highWater h'.highWater
  getD k := (h'.getD k).trans (h.getD k)

/-- `p` takes the cursor `d` cells further and does nothing else, unless it leaves the tape. -/
def Wanders (dev : Device σ) (cfg : Settings) (p : Program) (d : Int) : Prop :=
  ∀ s : State σ, s.tape.Valid →
    (∃ t, Exec dev cfg p s ⟨none, t⟩ ∧ t.streams = s.streams ∧ t.calls = s.calls ∧
      t.steps = s.steps + p.length ∧ s.tape.Displaced t.tape d) ∨
    ∃ f t, Exec dev cfg p s ⟨some f, t⟩ ∧ f.OffTape ∧ t.calls = s.calls

section Moves
variable {i j : Instr} {m : Move}

theorem known_of_move (hi : Run.ofInstr? i = some (.move m)) : ¬ ∃ n, i = .unknown n := by
  rintro ⟨n, rfl⟩
  cases hi

theorem attempt_move (hi : Run.ofInstr? i = some (.move m)) (s : State σ) :
    i.attempt dev cfg s = s.move m.offset := by
  cases i with
  | moveLeft n p t => cases hi; rfl
  | moveRight n p t => cases hi; rfl
  | _ => cases hi

theorem act_move (hi : Run.ofInstr? i = some (.move m)) {s : State σ} {u : Tape}
    (hu : s.tape.move m.offset = .ok u) : i.act dev cfg s =
      (none, { s with tape := u, growths := s.growths ++ (s.tape.growth? u).toArray }) := by
  refine Instr.act_of_none (known_of_move hi) ?_
  rw [attempt_move hi, State.move, hu]

theorem act_move_of_error (hi : Run.ofInstr? i = some (.move m)) {s : State σ} {f : Fault}
    (hf : s.tape.move m.offset = .error f) : i.act dev cfg s =
      (some (.fault (f.report.locate i.kindName (i.faultPosition s.tape))), s) := by
  refine Instr.act_of_some (known_of_move hi) ?_
  rw [attempt_move hi, State.move, hf]

/-- A move to a cell of the tape, or to one to which it may grow. -/
theorem exec_move (dev : Device σ) (cfg : Settings) (hi : Run.ofInstr? i = some (.move m))
    {s : State σ} (hs : s.tape.Valid)
    (h0 : 0 ≤ s.tape.cursor + m.offset) (h1 : s.tape.cursor + m.offset < s.tape.limit) :
    ∃ t, Exec dev cfg [i] s ⟨none, t⟩ ∧ t.streams = s.streams ∧ t.calls = s.calls ∧
      t.steps = s.steps + 1 ∧ s.tape.Moved t.tape m.offset := by
  obtain ⟨u, hu, hm⟩ := hs.move_ok h0 h1
  have hx : Exec dev cfg [i] s _ := (Exec.single_iff (Run.isLoop_of_ofInstr? hi)).mpr rfl
  rw [act_move (s := s.tick) hi hu] at hx
  exact ⟨_, hx, rfl, rfl, rfl, hm⟩

theorem exec_move_of_error (hi : Run.ofInstr? i = some (.move m)) {s : State σ} {f : Fault}
    (hf : s.tape.move m.offset = .error f) :
    Exec dev cfg [i] s
      ⟨some (.fault (f.report.locate i.kindName (i.faultPosition s.tape))), s.tick⟩ := by
  rw [Exec.single_iff (Run.isLoop_of_ofInstr? hi), act_move_of_error (s := s.tick) hi hf]
  rfl

theorem wanders_move (hi : Run.ofInstr? i = some (.move m)) : Wanders dev cfg [i] m.offset := by
  intro s hs
  rcases Int.lt_or_le (s.tape.cursor + m.offset) 0 with h0 | h0
  · exact .inr ⟨_, _, exec_move_of_error hi (Tape.move_underflow h0), .inl rfl, rfl⟩
  rcases Int.lt_or_le (s.tape.cursor + m.offset) s.tape.limit with h1 | h1
  · obtain ⟨t, ht, hstr, hcalls, hsteps, hm⟩ := exec_move dev cfg hi hs h0 h1
    exact .inl ⟨t, ht, hstr, hcalls, hsteps, hm.displaced⟩
  · exact .inr ⟨_, _, exec_move_of_error hi (hs.move_outOfMemory h1), .inr rfl, rfl⟩

theorem Wanders.append {p q : Program} {c d : Int} (hp : Wanders dev cfg p c)
    (hq : Wanders dev cfg q d) : Wanders dev cfg (p ++ q) (c + d) := by
  intro s hs
  rcases hp s hs with ⟨t, ht, hstr, hcalls, hsteps, hd⟩ | ⟨f, t, ht, hf, hcalls⟩
  · rcases hq t hd.valid with ⟨u, hu, hstr', hcalls', hsteps', hd'⟩ | ⟨f, u, hu, hf, hcalls'⟩
    · refine .inl
        ⟨u, ht.append_of_none hu, hstr'.trans hstr, hcalls'.trans hcalls, ?_, hd.trans hd'⟩
      rw [hsteps', hsteps, List.length_append]
      omega
    · exact .inr ⟨f, u, ht.append_of_none hu, hf, hcalls'.trans hcalls⟩
  · exact .inr ⟨f, t, ht.append_of_some q, hf, hcalls⟩

/-- The way of the merged move. -/
theorem exec_merged (dev : Device σ) (cfg : Settings) (m : Move) {s : State σ} (hs : s.tape.Valid)
    (h0 : 0 ≤ s.tape.cursor + m.offset) (h1 : s.tape.cursor + m.offset < s.tape.limit) :
    ∃ t, Exec dev cfg m.toInstr?.toList s ⟨none, t⟩ ∧ t.streams = s.streams ∧
      t.calls = s.calls ∧ t.steps ≤ s.steps + 1 ∧ t.tape.Valid ∧ t.tape.limit = s.tape.limit ∧
      (t.tape.cursor : Int) = s.tape.cursor + m.offset ∧
      t.tape.highWater = max s.tape.highWater t.tape.cursor ∧
      ∀ k, t.tape.cells.getD k 0 = s.tape.cells.getD k 0 := by
  rcases hm : m.toInstr? with _ | i
  · have hz := Move.offset_of_toInstr?_eq_none hm
    have hc := hs.cursor_le
    exact ⟨s, .nil, rfl, rfl, by omega, hs, rfl, by omega, by omega, fun _ => rfl⟩
  · obtain ⟨m', hi, ho⟩ := Move.exists_of_toInstr?_eq_some hm
    rw [← ho] at h0 h1
    obtain ⟨t, ht, hstr, hcalls, hsteps, hmv⟩ := exec_move dev cfg hi hs h0 h1
    exact ⟨t, ht, hstr, hcalls, by omega, hmv.valid, hmv.limit, by rw [hmv.cursor, ho],
      hmv.highWater, hmv.getD⟩

/-- **Moves may be replaced by one move to where they end.** -/
theorem refines_wander {p : Program} (hp : Wanders dev cfg p m.offset) (hlen : 1 ≤ p.length) :
    (Comparison.sparing dev cfg).Refines m.toInstr?.toList p where
  forth {s' s e} hs hx hl := by
    have hsh : s'.tape.Shadows s.tape := hs.2.tape
    rcases hp s hsh.valid with ⟨t, ht, hstr, hcalls, hsteps, hd⟩ | ⟨f, t, ht, hf, -⟩
    · obtain rfl := ht.unique hx
      have hdc := hd.cursor
      have hdl := hd.limit
      have hlt := hd.valid.cursor_lt
      have hle := hd.valid.length_le
      have hc := hsh.cursor
      have hlim := hsh.limit
      obtain ⟨t', ht', hstr', hcalls', hsteps', hv', hl', hc', hw', hg'⟩ :=
        exec_merged dev cfg m hsh.valid' (by omega) (by omega)
      have hcc : t'.tape.cursor = t.tape.cursor := by omega
      refine ⟨_, ht', rfl, ⟨hv', hd.valid, ?_, hcc, ?_, fun k => ?_⟩, ?_, ?_, ?_⟩
      · rw [hl', hd.limit, hsh.limit]
      · -- the merged move reaches no further than its end and what had been reached before
        have h1 := hsh.highWater
        have h2 := hd.highWater
        have h3 := hd.valid.cursor_le
        show t'.tape.highWater ≤ t.tape.highWater
        omega
      · rw [hg', hd.getD, hsh.getD]
      · rw [hstr', hs.2.streams]
        exact hstr.symm
      · rw [hcalls', hs.2.calls]
        exact hcalls.symm
      · have h1 : s'.steps ≤ s.steps := hs.2.steps
        show t'.steps ≤ t.steps
        omega
    · obtain rfl := ht.unique hx
      exact absurd ⟨f, rfl, hf⟩ hl
  back {s' s e'} hs hx := by
    have hsh : s'.tape.Shadows s.tape := hs.2.tape
    rcases hp s hsh.valid with ⟨t, ht, -⟩ | ⟨f, t, ht, -, hcalls⟩
    · exact ⟨_, ht, fun hl => absurd hl (Comparison.not_lost t)⟩
    · refine ⟨_, ht, fun _ => ?_⟩
      have hc : s'.calls = t.calls := hs.2.calls.trans hcalls.symm
      exact (State.Continues.of_eq hc).trans hx.continues

end Moves

end TapeLang
