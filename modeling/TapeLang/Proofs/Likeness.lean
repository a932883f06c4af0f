import TapeLang.Proofs.Comparison
import TapeLang.Proofs.TapeOps

/-!
# Comparisons by the tape

An instruction looks at the cell under the cursor, and a failing move at the cursor and the limit.
So tapes that agree in these and stay related by every operation cannot be told apart while a
program runs: a `Tape.Likeness`. Each gives a comparison of runs, `Comparison.byTape`, in which the
streams, their calls and the failure are the same and the first run takes no more steps.

* `Tape.Likeness.exact`: the same tape.
* `Tape.Likeness.shadow`: the same cells, but the tape of the first run may be shorter and its
  high-water mark lower, because the cursor did not go on all the errands of the second.
* `Comparison.refines_of_saves`: a program that does the same in fewer steps.
-/

namespace TapeLang

/-- A relation of tapes that is kept by the operations and leaves the same to be seen. -/
structure Tape.Likeness where
  rel : Tape → Tape → Prop
  valid {t' t : Tape} : rel t' t → t'.Valid ∧ t.Valid
  refl {t : Tape} : t.Valid → rel t t
  trans {t₂ t₁ t : Tape} : rel t₂ t₁ → rel t₁ t → rel t₂ t
  limit {t' t : Tape} : rel t' t → t'.limit = t.limit
  cursor {t' t : Tape} : rel t' t → t'.cursor = t.cursor
  read {t' t : Tape} : rel t' t → t'.read = t.read
  write {t' t : Tape} (v : Int) : rel t' t → rel (t'.write v) (t.write v)
  move {t' t u' u : Tape} {d : Int} : rel t' t → t'.move d = .ok u' → t.move d = .ok u → rel u' u

namespace Tape.Likeness

variable (T : Tape.Likeness)

theorem change {t' t : Tape} (d : Int) (h : T.rel t' t) : T.rel (t'.change d) (t.change d) := by
  rw [(T.valid h).1.change_eq_write, (T.valid h).2.change_eq_write, T.read h]
  exact T.write _ h

/-- Moves succeed together, and they fail together with the same fault. -/
theorem move_cases {t' t : Tape} (d : Int) (h : T.rel t' t) :
    (∃ u' u, t'.move d = .ok u' ∧ t.move d = .ok u ∧ T.rel u' u) ∨
      ∃ f, t'.move d = .error f ∧ t.move d = .error f := by
  have hc := T.cursor h
  have hl := T.limit h
  obtain ⟨hv', hv⟩ := T.valid h
  rcases Int.lt_or_le (t.cursor + d) 0 with h0 | h0
  · refine .inr ⟨_, ?_, move_underflow h0⟩
    rw [← hc] at h0 ⊢
    exact move_underflow h0
  rcases Int.lt_or_le (t.cursor + d) t.limit with h1 | h1
  · obtain ⟨u, hu, -⟩ := hv.move_ok h0 h1
    obtain ⟨u', hu', -⟩ := hv'.move_ok (by rwa [hc]) (by rwa [hc, hl])
    exact .inl ⟨u', u, hu', hu, T.move h hu' hu⟩
  · refine .inr ⟨_, ?_, hv.move_outOfMemory h1⟩
    rw [← hc, ← hl] at h1 ⊢
    exact hv'.move_outOfMemory h1

end Tape.Likeness

/-! ### States -/

variable {σ : Type}

/-- States that differ in their tapes, as far as `T` allows, and in the steps. -/
structure State.Alike (T : Tape.Likeness) (s' s : State σ) : Prop where
  tape : T.rel s'.tape s.tape
  streams : s'.streams = s.streams
  calls : s'.calls = s.calls
  steps : s'.steps ≤ s.steps

/-- Results with the same fault that leave states alike. -/
def State.AlikeResult (T : Tape.Likeness) (r' r : Option Fault × State σ) : Prop :=
  r'.1 = r.1 ∧ State.Alike T r'.2 r.2

namespace State.Alike

variable {T : Tape.Likeness} {s' s : State σ}

theorem refl (h : s.tape.Valid) : Alike T s s := ⟨T.refl h, rfl, rfl, Nat.le_refl _⟩

theorem trans {s₂ s₁ : State σ} (h₂ : Alike T s₂ s₁) (h₁ : Alike T s₁ s) : Alike T s₂ s where
  tape := T.trans h₂.tape h₁.tape
  streams := h₂.streams.trans h₁.streams
  calls := h₂.calls.trans h₁.calls
  steps := Nat.le_trans h₂.steps h₁.steps

theorem tick (h : Alike T s' s) : Alike T s'.tick s.tick where
  tape := h.tape
  streams := h.streams
  calls := h.calls
  steps := Nat.succ_le_succ h.steps

theorem record (h : Alike T s' s) (call : Call) (streams : σ) :
    Alike T (s'.record call streams) (s.record call streams) where
  tape := h.tape
  streams := rfl
  calls := by unfold State.record; rw [h.calls]
  steps := h.steps

theorem withTape (h : Alike T s' s) {t' t : Tape} (ht : T.rel t' t) :
    Alike T { s' with tape := t' } { s with tape := t } where
  tape := ht
  streams := h.streams
  calls := h.calls
  steps := h.steps

theorem move (h : Alike T s' s) (d : Int) : AlikeResult T (s'.move d) (s.move d) := by
  unfold State.move
  rcases T.move_cases d h.tape with ⟨u', u, hu', hu, hrel⟩ | ⟨f, hf', hf⟩
  · rw [hu', hu]
    exact ⟨rfl, hrel, h.streams, h.calls, h.steps⟩
  · rw [hf', hf]
    exact ⟨rfl, h⟩

theorem write (dev : Device σ) (h : Alike T s' s) (data : List UInt8) :
    AlikeResult T (s'.write dev data) (s.write dev data) := by
  unfold State.write
  rw [h.streams]
  rcases dev.write data s.streams with ⟨_ | _, t⟩
  · exact ⟨rfl, h.record _ t⟩
  · exact ⟨rfl, h.record _ t⟩

theorem flush (dev : Device σ) (h : Alike T s' s) : AlikeResult T (s'.flush dev) (s.flush dev) := by
  unfold State.flush
  rw [h.streams]
  rcases dev.flush? with _ | flush
  · exact ⟨rfl, h⟩
  · rcases hr : flush s.streams with ⟨_ | _, t⟩
    · simp only [hr]
      exact ⟨rfl, h.record _ t⟩
    · simp only [hr]
      exact ⟨rfl, h.record _ t⟩

theorem endOfInput (h : Alike T s' s) (policy : EofPolicy) :
    AlikeResult T (s'.endOfInput policy) (s.endOfInput policy) := by
  cases policy with
  | zero => exact ⟨rfl, h.withTape (T.write 0 h.tape)⟩
  | unchanged => exact ⟨rfl, h⟩
  | error => exact ⟨rfl, h⟩

theorem read (dev : Device σ) (h : Alike T s' s) (policy : EofPolicy) :
    AlikeResult T (s'.read dev policy) (s.read dev policy) := by
  unfold State.read
  rw [h.streams]
  rcases dev.read? with _ | read
  · exact h.endOfInput policy
  · rcases hr : read s.streams with ⟨_ | _ | ⟨b, data⟩, t⟩
    · simp only [hr]
      exact ⟨rfl, h.record _ t⟩
    · simp only [hr]
      exact (h.record _ t).endOfInput policy
    · simp only [hr]
      exact ⟨rfl, (h.record _ t).withTape (T.write _ h.tape)⟩

theorem input (dev : Device σ) (h : Alike T s' s) (policy : EofPolicy) :
    AlikeResult T (s'.input dev policy) (s.input dev policy) := by
  obtain ⟨hf, ha⟩ := h.flush dev
  unfold State.input
  rcases hr' : s'.flush dev with ⟨f', t'⟩
  rcases hr : s.flush dev with ⟨f, t⟩
  rw [hr', hr] at hf ha
  obtain rfl : f' = f := hf
  rcases f' with _ | f'
  · exact ha.read dev policy
  · exact ⟨rfl, ha⟩

theorem attempt (dev : Device σ) (cfg : Settings) (h : Alike T s' s) (i : Instr) :
    AlikeResult T (i.attempt dev cfg s') (i.attempt dev cfg s) := by
  cases i with
  | moveLeft n p t => exact h.move (-n)
  | moveRight n p t => exact h.move n
  | add d p => exact ⟨rfl, h.withTape (T.change d h.tape)⟩
  | sub d p => exact ⟨rfl, h.withTape (T.change (-d) h.tape)⟩
  | set v p => exact ⟨rfl, h.withTape (T.write v h.tape)⟩
  | output p =>
    unfold Instr.attempt
    rw [T.read h.tape]
    exact h.write dev _
  | input p => exact h.input dev cfg.eof
  | loop b p => exact ⟨rfl, h⟩
  | unknown n => exact ⟨rfl, h⟩

theorem faultPosition (h : Alike T s' s) (i : Instr) :
    i.faultPosition s'.tape = i.faultPosition s.tape := by
  unfold Instr.faultPosition
  rw [T.cursor h.tape, T.limit h.tape]

theorem act (dev : Device σ) (cfg : Settings) (h : Alike T s' s) (i : Instr) :
    (i.act dev cfg s').1 = (i.act dev cfg s).1 ∧
      Alike T (i.act dev cfg s').2 (i.act dev cfg s).2 := by
  by_cases hu : ∃ n, i = .unknown n
  · obtain ⟨n, rfl⟩ := hu
    exact ⟨rfl, h⟩
  obtain ⟨hf, ha⟩ := h.attempt dev cfg i
  rcases hr' : i.attempt dev cfg s' with ⟨f', t'⟩
  rcases hr : i.attempt dev cfg s with ⟨f, t⟩
  rw [hr', hr] at hf ha
  obtain rfl : f' = f := hf
  rcases f' with _ | f'
  · rw [Instr.act_of_none hu hr', Instr.act_of_none hu hr]
    exact ⟨rfl, ha⟩
  · rw [Instr.act_of_some hu hr', Instr.act_of_some hu hr, ha.faultPosition i]
    exact ⟨rfl, ha⟩

theorem finish (dev : Device σ) (h : Alike T s' s) :
    (Machine.finish dev s').failure = (Machine.finish dev s).failure ∧
      Alike T (Machine.finish dev s').state (Machine.finish dev s).state := by
  obtain ⟨hf, ha⟩ := h.flush dev
  unfold Machine.finish
  rcases hr' : s'.flush dev with ⟨f', t'⟩
  rcases hr : s.flush dev with ⟨f, t⟩
  rw [hr', hr] at hf ha
  obtain rfl : f' = f := hf
  rcases f' with _ | f'
  · exact ⟨rfl, ha⟩
  · exact ⟨rfl, ha⟩

end State.Alike

/-! ### Runs -/

/-- The comparison that lets the tapes differ as far as `T` allows, and in which the failures that
`P` names may be lost. -/
def Comparison.byTape (dev : Device σ) (cfg : Settings) (T : Tape.Likeness) (P : Failure → Prop) :
    Comparison dev cfg where
  same e' e := e'.failure = e.failure ∧ State.Alike T e'.state e.state
  lost e := ∃ f, e.failure = some f ∧ P f
  fails h := by rw [h.1]
  lost_fails := by
    rintro e ⟨f, hf, -⟩ hn
    rw [hf] at hn
    cases hn
  lost_same := by
    rintro e' e h ⟨f, hf, hP⟩
    exact ⟨f, h.1 ▸ hf, hP⟩
  calls h := h.2.calls
  refl h := ⟨rfl, T.refl (T.valid h.2.tape).2, rfl, rfl, Nat.le_refl _⟩
  trans h₂ h₁ := ⟨h₂.1.trans h₁.1, T.trans h₂.2.tape h₁.2.tape, h₂.2.streams.trans h₁.2.streams,
    h₂.2.calls.trans h₁.2.calls, Nat.le_trans h₂.2.steps h₁.2.steps⟩
  valid h := (T.valid h.2.tape).1
  read h := T.read h.2.tape
  tick h := ⟨rfl, h.2.tick⟩
  act {_ _ i} _ h := .inl (h.2.act dev cfg i)
  finish h := h.2.finish dev

namespace Comparison

variable {dev : Device σ} {cfg : Settings} {T : Tape.Likeness} {P : Failure → Prop}

/-- Every run from a valid tape can be compared with itself. -/
theorem alike_self {s : State σ} (h : s.tape.Valid) : (byTape dev cfg T P).Alike s s :=
  ⟨rfl, .refl h⟩

/-- **A program that does the same in fewer steps** can stand for another, if neither fails. -/
theorem refines_of_saves {q p : Program}
    (h : ∀ s : State σ, s.tape.Valid → ∃ t m, m ≤ t.steps ∧ Exec dev cfg p s ⟨none, t⟩ ∧
      Exec dev cfg q s ⟨none, { t with steps := m }⟩) : (byTape dev cfg T P).Refines q p := by
  refine .of_exec fun s hs => ?_
  obtain ⟨t, m, hm, hp, hq⟩ := h s hs
  -- what `p` does is related to itself, so the tape it leaves is valid
  obtain ⟨e₁, hp₁, hsame⟩ := (Refines.refl p).forth (alike_self (P := P) hs) hp (not_lost t)
  obtain rfl := hp.unique hp₁
  exact ⟨_, _, hq, hp, rfl, hsame.2.tape, rfl, rfl, hm⟩

end Comparison

/-! ### Two ways to be alike -/

/-- The same tape. -/
def Tape.Likeness.exact : Tape.Likeness where
  rel t' t := t' = t ∧ t.Valid
  valid h := ⟨h.1 ▸ h.2, h.2⟩
  refl h := ⟨rfl, h⟩
  trans h₂ h₁ := ⟨h₂.1.trans h₁.1, h₁.2⟩
  limit h := by rw [h.1]
  cursor h := by rw [h.1]
  read h := by rw [h.1]
  write v h := ⟨by rw [h.1], h.2.write v⟩
  move := by
    rintro t _ u' u d ⟨rfl, hv⟩ hu' hu
    rw [hu] at hu'
    cases hu'
    exact ⟨rfl, (hv.moved hu).1.valid⟩

/-- The tape `t'` has the cells and the cursor of `t`, but may be shorter and used less far. -/
structure Tape.Shadows (t' t : Tape) : Prop where
  valid' : t'.Valid
  valid : t.Valid
  limit : t'.limit = t.limit
  cursor : t'.cursor = t.cursor
  highWater : t'.highWater ≤ t.highWater
  getD k : t'.cells.getD k 0 = t.cells.getD k 0

/-- The same cells on a tape that may be shorter and used less far. -/
def Tape.Likeness.shadow : Tape.Likeness where
  rel := Tape.Shadows
  valid h := ⟨h.valid', h.valid⟩
  refl h := ⟨h, h, rfl, rfl, Nat.le_refl _, fun _ => rfl⟩
  trans h₂ h₁ := ⟨h₂.valid', h₁.valid, h₂.limit.trans h₁.limit, h₂.cursor.trans h₁.cursor,
    Nat.le_trans h₂.highWater h₁.highWater, fun k => (h₂.getD k).trans (h₁.getD k)⟩
  limit h := h.limit
  cursor h := h.cursor
  read h := by
    unfold Tape.read
    rw [h.cursor, h.getD]
  write v h := by
    refine ⟨h.valid'.write v, h.valid.write v, h.limit, h.cursor, h.highWater, fun k => ?_⟩
    rw [h.valid'.getD_write, h.valid.getD_write, h.cursor, h.getD]
  move {t' t u' u d} h hu' hu := by
    obtain ⟨hm', -⟩ := h.valid'.moved hu'
    obtain ⟨hm, -⟩ := h.valid.moved hu
    have hc : u'.cursor = u.cursor := by
      have h1 := hm'.cursor
      have h2 := hm.cursor
      rw [h.cursor] at h1
      omega
    refine ⟨hm'.valid, hm.valid, ?_, hc, ?_, fun k => ?_⟩
    · rw [hm'.limit, hm.limit, h.limit]
    · have := h.highWater
      rw [hm'.highWater, hm.highWater, hc]
      omega
    · rw [hm'.getD, hm.getD, h.getD]

end TapeLang
