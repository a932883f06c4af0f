import TapeLang.Machine.Exec

/-!
# Structured execution, taken apart

How an execution of a program begins: one lemma per kind of first instruction, each an equivalence.
Everything else follows from these by induction on the derivation.

* `Exec.unique`: a program has at most one ending.
* `Exec.append_of_none`, `Exec.append_of_some`, `Exec.split`: an execution of `p ++ q` is one of `p`
  that fails, or one of `p` that is followed by one of `q`.
* `Exec.continues`: the record of the stream calls only grows.
-/

namespace TapeLang

variable {σ : Type} {dev : Device σ} {cfg : Settings}

/-- The ending that an action leads to, if nothing is left to do. -/
def Ending.of (r : Option Failure × State σ) : Ending σ := ⟨r.1, r.2⟩

/-- The family of a failure. An unknown instruction belongs to none. -/
def Failure.category? : Failure → Option RuntimeError.Category
  | .fault e => some e.category
  | .unknown _ => none

/-! ### Actions -/

theorem Instr.act_of_none {i : Instr} {s t : State σ} (known : ¬ ∃ n, i = .unknown n)
    (h : i.attempt dev cfg s = (none, t)) : i.act dev cfg s = (none, t) := by
  unfold act
  split
  · exact absurd ⟨_, rfl⟩ known
  · rw [h]

theorem Instr.act_of_some {i : Instr} {s t : State σ} {f : Fault} (known : ¬ ∃ n, i = .unknown n)
    (h : i.attempt dev cfg s = (some f, t)) :
    i.act dev cfg s =
      (some (.fault (f.report.locate i.kindName (i.faultPosition t.tape))), t) := by
  unfold act
  split
  · exact absurd ⟨_, rfl⟩ known
  · rw [h]

theorem Instr.attempt_of_done {i : Instr} {s t : State σ} (h : i.act dev cfg s = (none, t)) :
    i.attempt dev cfg s = (none, t) := by
  by_cases hu : ∃ n, i = .unknown n
  · obtain ⟨n, rfl⟩ := hu
    cases h
  rcases ha : i.attempt dev cfg s with ⟨_ | f, u⟩
  · rw [act_of_none hu ha] at h
    cases h
    rfl
  · rw [act_of_some hu ha] at h
    cases h

/-- An action that fails is an unknown instruction, or has a fault, which is reported with the kind
of the instruction and its place. -/
theorem Instr.failed_cases {i : Instr} {s t : State σ} {g : Failure}
    (h : i.act dev cfg s = (some g, t)) :
    (∃ n, i = .unknown n ∧ g = .unknown ⟨n⟩ ∧ t = s) ∨
      ∃ f, i.attempt dev cfg s = (some f, t) ∧
        g = .fault (f.report.locate i.kindName (i.faultPosition t.tape)) := by
  by_cases hu : ∃ n, i = .unknown n
  · obtain ⟨n, rfl⟩ := hu
    cases h
    exact .inl ⟨n, rfl, rfl, rfl⟩
  rcases ha : i.attempt dev cfg s with ⟨_ | f, u⟩
  · rw [act_of_none hu ha] at h
    cases h
  · rw [act_of_some hu ha] at h
    cases h
    exact .inr ⟨f, rfl, rfl⟩

/-! ### The first instruction -/

namespace Exec

theorem nil_iff {s : State σ} {e : Ending σ} : Exec dev cfg [] s e ↔ e = ⟨none, s⟩ := by
  constructor
  · intro h
    cases h
    rfl
  · rintro rfl
    exact nil

theorem act_iff {i : Instr} {rest : Program} {s : State σ} {e : Ending σ}
    (simple : i.isLoop = false) :
    Exec dev cfg (i :: rest) s e ↔
      (∃ t, i.act dev cfg s.tick = (none, t) ∧ Exec dev cfg rest t e) ∨
        ∃ f t, i.act dev cfg s.tick = (some f, t) ∧ e = ⟨some f, t⟩ := by
  constructor
  · intro h
    cases h with
    | act _ done next => exact .inl ⟨_, done, next⟩
    | fail _ failed => exact .inr ⟨_, _, failed, rfl⟩
    | skip => cases simple
    | again => cases simple
    | stop => cases simple
  · rintro (⟨t, done, next⟩ | ⟨f, t, failed, rfl⟩)
    · exact act simple done next
    · exact fail simple failed

theorem skip_iff {body rest : Program} {pos : Option Position} {s : State σ} {e : Ending σ}
    (zero : s.tape.read = 0) :
    Exec dev cfg (.loop body pos :: rest) s e ↔ Exec dev cfg rest s.tick e := by
  constructor
  · intro h
    cases h with
    | act simple => cases simple
    | fail simple => cases simple
    | skip _ next => exact next
    | again nonzero => exact absurd zero nonzero
    | stop nonzero => exact absurd zero nonzero
  · exact skip zero

theorem enter_iff {body rest : Program} {pos : Option Position} {s : State σ} {e : Ending σ}
    (nonzero : s.tape.read ≠ 0) :
    Exec dev cfg (.loop body pos :: rest) s e ↔
      (∃ t, Exec dev cfg body s.tick ⟨none, t⟩ ∧ Exec dev cfg (.loop body pos :: rest) t e) ∨
        ∃ f t, Exec dev cfg body s.tick ⟨some f, t⟩ ∧ e = ⟨some f, t⟩ := by
  constructor
  · intro h
    cases h with
    | act simple => cases simple
    | fail simple => cases simple
    | skip zero => exact absurd zero nonzero
    | again _ pass next => exact .inl ⟨_, pass, next⟩
    | stop _ pass => exact .inr ⟨_, _, pass, rfl⟩
  · rintro (⟨t, pass, next⟩ | ⟨f, t, pass, rfl⟩)
    · exact again nonzero pass next
    · exact stop nonzero pass

/-- An instruction on its own ends as its action does. -/
theorem single_iff {i : Instr} {s : State σ} {e : Ending σ} (simple : i.isLoop = false) :
    Exec dev cfg [i] s e ↔ e = .of (i.act dev cfg s.tick) := by
  rw [act_iff simple, Ending.of]
  rcases i.act dev cfg s.tick with ⟨_ | f, t⟩
  · simp [nil_iff]
  · simp [and_assoc]

/-! ### One ending -/

/-- **A program has at most one ending.** -/
theorem unique {p : Program} {s : State σ} {e e' : Ending σ} (h : Exec dev cfg p s e)
    (h' : Exec dev cfg p s e') : e' = e := by
  induction h generalizing e' with
  | nil => exact nil_iff.mp h'
  | act simple done _ ih =>
    rcases (act_iff simple).mp h' with ⟨t, done', next'⟩ | ⟨f, t, failed', -⟩
    · rw [done] at done'
      cases done'
      exact ih next'
    · rw [done] at failed'
      cases failed'
  | fail simple failed =>
    rcases (act_iff simple).mp h' with ⟨t, done', -⟩ | ⟨f, t, failed', rfl⟩
    · rw [failed] at done'
      cases done'
    · rw [failed] at failed'
      cases failed'
      rfl
  | skip zero _ ih => exact ih ((skip_iff zero).mp h')
  | again nonzero _ _ ihPass ihNext =>
    rcases (enter_iff nonzero).mp h' with ⟨t, pass', next'⟩ | ⟨f, t, pass', -⟩
    · cases ihPass pass'
      exact ihNext next'
    · cases ihPass pass'
  | stop nonzero _ ih =>
    rcases (enter_iff nonzero).mp h' with ⟨t, pass', -⟩ | ⟨f, t, pass', rfl⟩
    · cases ih pass'
    · exact ih pass'

/-! ### One program after the other -/

theorem append_of_none {p q : Program} {s t : State σ} {e : Ending σ}
    (hp : Exec dev cfg p s ⟨none, t⟩) (hq : Exec dev cfg q t e) : Exec dev cfg (p ++ q) s e := by
  generalize he : (⟨none, t⟩ : Ending σ) = e₁ at hp
  induction hp with
  | nil => cases he; exact hq
  | act simple done _ ih => exact act simple done (ih he)
  | fail => cases he
  | skip zero _ ih => exact skip zero (ih he)
  | again nonzero pass _ _ ih => exact again nonzero pass (ih he)
  | stop => cases he

theorem append_of_some {p : Program} {s t : State σ} {f : Failure}
    (hp : Exec dev cfg p s ⟨some f, t⟩) (q : Program) :
    Exec dev cfg (p ++ q) s ⟨some f, t⟩ := by
  generalize he : (⟨some f, t⟩ : Ending σ) = e at hp ⊢
  induction hp with
  | nil => cases he
  | act simple done _ ih => exact act simple done (ih he)
  | fail simple failed => exact fail simple failed
  | skip zero _ ih => exact skip zero (ih he)
  | again nonzero pass _ _ ih => exact again nonzero pass (ih he)
  | stop nonzero pass => exact stop nonzero pass

/-- An execution of `p ++ q` either ends in `p`, with a failure, or goes on with `q`. -/
theorem split {p q : Program} {s : State σ} {e : Ending σ} (h : Exec dev cfg (p ++ q) s e) :
    (∃ t, Exec dev cfg p s ⟨none, t⟩ ∧ Exec dev cfg q t e) ∨
      ∃ f t, Exec dev cfg p s ⟨some f, t⟩ ∧ e = ⟨some f, t⟩ := by
  generalize hr : p ++ q = r at h
  induction h generalizing p with
  | nil =>
    obtain ⟨rfl, rfl⟩ := List.append_eq_nil_iff.mp hr
    exact .inl ⟨_, nil, nil⟩
  | act simple done next ih =>
    rcases List.append_eq_cons_iff.mp hr with ⟨rfl, rfl⟩ | ⟨p', rfl, hr'⟩
    · exact .inl ⟨_, nil, act simple done next⟩
    · rcases ih hr'.symm with ⟨t, hp, hq⟩ | ⟨f, t, hp, rfl⟩
      · exact .inl ⟨t, act simple done hp, hq⟩
      · exact .inr ⟨f, t, act simple done hp, rfl⟩
  | fail simple failed =>
    rcases List.append_eq_cons_iff.mp hr with ⟨rfl, rfl⟩ | ⟨p', rfl, -⟩
    · exact .inl ⟨_, nil, fail simple failed⟩
    · exact .inr ⟨_, _, fail simple failed, rfl⟩
  | skip zero next ih =>
    rcases List.append_eq_cons_iff.mp hr with ⟨rfl, rfl⟩ | ⟨p', rfl, hr'⟩
    · exact .inl ⟨_, nil, skip zero next⟩
    · rcases ih hr'.symm with ⟨t, hp, hq⟩ | ⟨f, t, hp, rfl⟩
      · exact .inl ⟨t, skip zero hp, hq⟩
      · exact .inr ⟨f, t, skip zero hp, rfl⟩
  | again nonzero pass next _ ih =>
    rcases List.append_eq_cons_iff.mp hr with ⟨rfl, rfl⟩ | ⟨p', rfl, rfl⟩
    · exact .inl ⟨_, nil, again nonzero pass next⟩
    · rcases ih (p := _ :: p') rfl with ⟨t, hp, hq⟩ | ⟨f, t, hp, rfl⟩
      · exact .inl ⟨t, again nonzero pass hp, hq⟩
      · exact .inr ⟨f, t, again nonzero pass hp, rfl⟩
  | stop nonzero pass =>
    rcases List.append_eq_cons_iff.mp hr with ⟨rfl, rfl⟩ | ⟨p', rfl, -⟩
    · exact .inl ⟨_, nil, stop nonzero pass⟩
    · exact .inr ⟨_, _, stop nonzero pass, rfl⟩

end Exec

/-! ### The record of the calls -/

/-- The calls of `t` continue those of `s`. -/
def State.Continues (s t : State σ) : Prop := s.calls.toList <+: t.calls.toList

namespace State.Continues

theorem refl (s : State σ) : s.Continues s := List.prefix_rfl

theorem trans {s t u : State σ} (h : s.Continues t) (h' : t.Continues u) : s.Continues u :=
  List.IsPrefix.trans h h'

theorem of_eq {s t : State σ} (h : t.calls = s.calls) : s.Continues t := by
  show s.calls.toList <+: t.calls.toList
  simp only [h, List.prefix_rfl]

theorem record (s : State σ) (call : Call) (streams : σ) : s.Continues (s.record call streams) := by
  simp [State.Continues, State.record]

theorem move (s : State σ) (d : Int) : s.Continues (s.move d).2 := by
  unfold State.move
  split
  · exact of_eq rfl
  · exact refl s

theorem write (dev : Device σ) (data : List UInt8) (s : State σ) :
    s.Continues (s.write dev data).2 := by
  unfold State.write
  split
  · exact record _ _ _
  · exact record _ _ _

theorem flush (dev : Device σ) (s : State σ) : s.Continues (s.flush dev).2 := by
  unfold State.flush
  split
  · exact refl s
  · split
    · exact record _ _ _
    · exact record _ _ _

theorem endOfInput (policy : EofPolicy) (s : State σ) : s.Continues (s.endOfInput policy).2 := by
  cases policy <;> exact of_eq rfl

theorem read (dev : Device σ) (policy : EofPolicy) (s : State σ) :
    s.Continues (s.read dev policy).2 := by
  unfold State.read
  split
  · exact endOfInput policy s
  · split
    · exact record _ _ _
    · exact (record _ _ _).trans (endOfInput _ _)
    · next t _ => exact (record s _ t).trans (of_eq rfl)

theorem input (dev : Device σ) (policy : EofPolicy) (s : State σ) :
    s.Continues (s.input dev policy).2 := by
  have hf := flush dev s
  unfold State.input
  split
  · next t ht =>
    rw [ht] at hf
    exact hf.trans (read _ _ _)
  · exact hf

theorem attempt (dev : Device σ) (cfg : Settings) (i : Instr) (s : State σ) :
    s.Continues (i.attempt dev cfg s).2 := by
  cases i with
  | moveLeft n p t => exact move s (-n)
  | moveRight n p t => exact move s n
  | output p => exact write dev _ s
  | input p => exact input dev cfg.eof s
  | _ => exact of_eq rfl

theorem act (dev : Device σ) (cfg : Settings) (i : Instr) (s : State σ) :
    s.Continues (i.act dev cfg s).2 := by
  by_cases hu : ∃ n, i = .unknown n
  · obtain ⟨n, rfl⟩ := hu
    exact refl s
  have h := attempt dev cfg i s
  rcases hr : i.attempt dev cfg s with ⟨_ | f, t⟩
  · rw [hr] at h
    rw [Instr.act_of_none hu hr]
    exact h
  · rw [hr] at h
    rw [Instr.act_of_some hu hr]
    exact h

end State.Continues

theorem Machine.continues_finish (dev : Device σ) (s : State σ) :
    s.Continues (Machine.finish dev s).state := by
  have h := State.Continues.flush dev s
  unfold Machine.finish
  split
  · next ht => rw [ht] at h; exact h
  · next ht => rw [ht] at h; exact h

/-- **The record of the stream calls only grows.** -/
theorem Exec.continues {p : Program} {s : State σ} {e : Ending σ} (h : Exec dev cfg p s e) :
    s.Continues e.state := by
  induction h with
  | nil => exact .refl _
  | @act i _ s _ _ _ done _ ih =>
    have h := State.Continues.act dev cfg i s.tick
    rw [done] at h
    exact h.trans ih
  | @fail i _ s _ _ _ failed =>
    have h := State.Continues.act dev cfg i s.tick
    rw [failed] at h
    exact h
  | skip _ _ ih => exact ih
  | again _ _ _ ihPass ihNext => exact ihPass.trans ihNext
  | stop _ _ ih => exact ih

end TapeLang
