import TapeLang.Proofs.Frames

/-!
# Comparing programs

A `Comparison` says when two runs count as the same: which endings correspond, where an ending
without failure stands for a state from which both go on, and which failures of the second run may
be lost in the first. `C.Refines q p` says that `q` can stand for `p` under `C`, from all states
that correspond:

* `forth`: if `p` comes to an ending that must not be lost, `q` comes to one that counts as the
  same;
* `back`: if `q` comes to an ending at all, so does `p`, and where the ending of `p` is lost, it is
  reached with no other stream calls than `q` makes.

Refinement is kept by sequence (`Refines.append`) and by loops (`Refines.loop`), so that a change to
a few neighbouring instructions is justified in all programs at once. `Refines.ends` carries it over
to the machine.
-/

namespace TapeLang

variable {σ : Type} {dev : Device σ} {cfg : Settings}

/-- A way to compare the runs of two programs. -/
structure Comparison (dev : Device σ) (cfg : Settings) where
  /-- Which endings correspond, the one of the first program named first. -/
  same : Ending σ → Ending σ → Prop
  /-- Which endings of the second program the first need not have. -/
  lost : Ending σ → Prop
  fails {e' e : Ending σ} : same e' e → (e'.failure = none ↔ e.failure = none)
  lost_fails {e : Ending σ} : lost e → e.failure ≠ none
  lost_same {e' e : Ending σ} : same e' e → lost e' → lost e
  calls {e' e : Ending σ} : same e' e → e'.state.calls = e.state.calls
  refl {s' s : State σ} : same ⟨none, s'⟩ ⟨none, s⟩ → same ⟨none, s⟩ ⟨none, s⟩
  trans {e₂ e₁ e : Ending σ} : same e₂ e₁ → same e₁ e → same e₂ e
  valid {s' s : State σ} : same ⟨none, s'⟩ ⟨none, s⟩ → s'.tape.Valid
  read {s' s : State σ} : same ⟨none, s'⟩ ⟨none, s⟩ → s'.tape.read = s.tape.read
  tick {s' s : State σ} : same ⟨none, s'⟩ ⟨none, s⟩ → same ⟨none, s'.tick⟩ ⟨none, s.tick⟩
  /-- The same action, in states that correspond. -/
  act {s' s : State σ} {i : Instr} : i.isLoop = false → same ⟨none, s'⟩ ⟨none, s⟩ →
    same (.of (i.act dev cfg s')) (.of (i.act dev cfg s)) ∨
      lost (.of (i.act dev cfg s)) ∧ (i.act dev cfg s).2.Continues (i.act dev cfg s').2
  finish {s' s : State σ} : same ⟨none, s'⟩ ⟨none, s⟩ →
    same (Machine.finish dev s') (Machine.finish dev s)

namespace Comparison

variable (C : Comparison dev cfg)

/-- States from which both programs go on. -/
def Alike (s' s : State σ) : Prop := C.same ⟨none, s'⟩ ⟨none, s⟩

/-- The first program can stand for the second. -/
structure Refines (q p : Program) : Prop where
  forth {s' s : State σ} {e : Ending σ} : C.Alike s' s → Exec dev cfg p s e → ¬ C.lost e →
    ∃ e', Exec dev cfg q s' e' ∧ C.same e' e
  back {s' s : State σ} {e' : Ending σ} : C.Alike s' s → Exec dev cfg q s' e' →
    ∃ e, Exec dev cfg p s e ∧ (C.lost e → e.state.Continues e'.state)

variable {C}

theorem not_lost (t : State σ) : ¬ C.lost ⟨none, t⟩ := fun h => C.lost_fails h rfl

/-- What corresponds to a state is a state. -/
theorem exists_of_same_none {e' : Ending σ} {t : State σ} (h : C.same e' ⟨none, t⟩) :
    ∃ t', e' = ⟨none, t'⟩ ∧ C.Alike t' t := by
  obtain ⟨f, t'⟩ := e'
  obtain rfl : f = none := (C.fails h).mpr rfl
  exact ⟨t', rfl, h⟩

theorem exists_of_same_some {e' : Ending σ} {f : Failure} {t : State σ}
    (h : C.same e' ⟨some f, t⟩) : ∃ f' t', e' = ⟨some f', t'⟩ := by
  obtain ⟨_ | f', t'⟩ := e'
  · cases (C.fails h).mp rfl
  · exact ⟨f', t', rfl⟩

/-- The states that a state of the second run corresponds to. -/
theorem exists_of_none_same {t' : State σ} {e : Ending σ} (h : C.same ⟨none, t'⟩ e) :
    ∃ t, e = ⟨none, t⟩ ∧ C.Alike t' t := by
  obtain ⟨f, t⟩ := e
  obtain rfl : f = none := (C.fails h).mp rfl
  exact ⟨t, rfl, h⟩

theorem exists_of_lost {e : Ending σ} (h : C.lost e) : ∃ f t, e = ⟨some f, t⟩ := by
  obtain ⟨_ | f, t⟩ := e
  · exact absurd h (not_lost t)
  · exact ⟨f, t, rfl⟩

namespace Refines

/-- What comes of `p` if `q` comes to an ending: the same, unless it is lost. -/
theorem cases {q p : Program} (h : C.Refines q p) {s' s : State σ} {e' : Ending σ}
    (hs : C.Alike s' s) (hx : Exec dev cfg q s' e') :
    ∃ e, Exec dev cfg p s e ∧ (C.same e' e ∨ C.lost e ∧ e.state.Continues e'.state) := by
  obtain ⟨e, he, hl⟩ := h.back hs hx
  by_cases hlost : C.lost e
  · exact ⟨e, he, .inr ⟨hlost, hl hlost⟩⟩
  · obtain ⟨e₁, hx₁, hsame⟩ := h.forth hs he hlost
    rw [hx.unique hx₁] at hsame
    exact ⟨e, he, .inl hsame⟩

/-- Where `q` fails, `p` does not succeed. -/
theorem not_done {q p : Program} (h : C.Refines q p) {s' s t' : State σ} {f : Failure}
    (hs : C.Alike s' s) (hq : Exec dev cfg q s' ⟨some f, t'⟩) (t : State σ) :
    ¬ Exec dev cfg p s ⟨none, t⟩ := by
  intro hp
  obtain ⟨e, hq', hsame⟩ := h.forth hs hp (not_lost t)
  obtain ⟨u, rfl, -⟩ := exists_of_same_none hsame
  cases hq.unique hq'

/-! ### Single instructions -/

/-- One instruction for another. -/
theorem of_act {i j : Instr} (hi : i.isLoop = false) (hj : j.isLoop = false)
    (h : ∀ s' s, C.Alike s' s → C.same (.of (i.act dev cfg s')) (.of (j.act dev cfg s)) ∨
      C.lost (.of (j.act dev cfg s)) ∧ (j.act dev cfg s).2.Continues (i.act dev cfg s').2) :
    C.Refines [i] [j] where
  forth {s' s e} hs hx hl := by
    obtain rfl := (Exec.single_iff hj).mp hx
    rcases h _ _ (C.tick hs) with hsame | ⟨hlost, -⟩
    · exact ⟨_, (Exec.single_iff hi).mpr rfl, hsame⟩
    · exact absurd hlost hl
  back {s' s e'} hs hx := by
    obtain rfl := (Exec.single_iff hi).mp hx
    refine ⟨_, (Exec.single_iff hj).mpr rfl, fun _ => ?_⟩
    rcases h _ _ (C.tick hs) with hsame | ⟨-, hc⟩
    · exact .of_eq (C.calls hsame)
    · exact hc

theorem nil : C.Refines [] [] where
  forth {s' s e} hs hx _ := by
    obtain rfl := Exec.nil_iff.mp hx
    exact ⟨_, .nil, hs⟩
  back {s' s e'} hs hx := ⟨_, .nil, fun h => absurd h (not_lost s)⟩

/-! ### Sequences -/

theorem append {q₁ p₁ q₂ p₂ : Program} (h₁ : C.Refines q₁ p₁) (h₂ : C.Refines q₂ p₂) :
    C.Refines (q₁ ++ q₂) (p₁ ++ p₂) where
  forth {s' s e} hs hx hl := by
    rcases hx.split with ⟨t, hp, hr⟩ | ⟨f, t, hp, rfl⟩
    · obtain ⟨e₁, hq, hsame⟩ := h₁.forth hs hp (not_lost t)
      obtain ⟨t', rfl, ht⟩ := exists_of_same_none hsame
      obtain ⟨e', hr', hsame'⟩ := h₂.forth ht hr hl
      exact ⟨e', hq.append_of_none hr', hsame'⟩
    · obtain ⟨e₁, hq, hsame⟩ := h₁.forth hs hp hl
      obtain ⟨f', t', rfl⟩ := exists_of_same_some hsame
      exact ⟨_, hq.append_of_some q₂, hsame⟩
  back {s' s e'} hs hx := by
    rcases hx.split with ⟨t', hq, hr'⟩ | ⟨f', t', hq, rfl⟩
    · obtain ⟨e₁, hp, hsame | ⟨hlost, hc⟩⟩ := h₁.cases hs hq
      · obtain ⟨t, rfl, ht⟩ := exists_of_none_same hsame
        obtain ⟨e, hr, hl⟩ := h₂.back ht hr'
        exact ⟨e, hp.append_of_none hr, hl⟩
      · -- the second program is stopped where the first goes on
        obtain ⟨f, t, rfl⟩ := exists_of_lost hlost
        exact ⟨_, hp.append_of_some p₂, fun _ => hc.trans hr'.continues⟩
    · obtain ⟨e₁, hp, hl⟩ := h₁.back hs hq
      obtain ⟨_ | f, t⟩ := e₁
      · exact absurd hp (h₁.not_done hs hq t)
      · exact ⟨_, hp.append_of_some p₂, hl⟩

/-! ### Loops -/

/-- A loop that is tested in states that correspond. -/
theorem loop {q p : Program} (h : C.Refines q p) (pos' pos : Option Position) :
    C.Refines [.loop q pos'] [.loop p pos] where
  forth {s' s e} hs hx hl := by
    generalize hr : ([.loop p pos] : Program) = r at hx
    induction hx generalizing s' with
    | nil => cases hr
    | act simple => cases hr; cases simple
    | fail simple => cases hr; cases simple
    | skip zero next =>
      cases hr
      obtain rfl := Exec.nil_iff.mp next
      exact ⟨_, .skip ((C.read hs).trans zero) .nil, C.tick hs⟩
    | @again _ _ _ _ t _ nonzero pass _ _ ih =>
      cases hr
      obtain ⟨e₁, hq, hsame⟩ := h.forth (C.tick hs) pass (not_lost t)
      obtain ⟨t', rfl, ht⟩ := exists_of_same_none hsame
      obtain ⟨e', hx', hsame'⟩ := ih ht hl rfl
      exact ⟨e', .again (by rwa [C.read hs]) hq hx', hsame'⟩
    | stop nonzero pass =>
      cases hr
      obtain ⟨e₁, hq, hsame⟩ := h.forth (C.tick hs) pass hl
      obtain ⟨f', t', rfl⟩ := exists_of_same_some hsame
      exact ⟨_, .stop (by rwa [C.read hs]) hq, hsame⟩
  back {s' s e'} hs hx := by
    generalize hr : ([.loop q pos'] : Program) = r at hx
    induction hx generalizing s with
    | nil => cases hr
    | act simple => cases hr; cases simple
    | fail simple => cases hr; cases simple
    | skip zero next =>
      cases hr
      exact ⟨_, .skip ((C.read hs).symm.trans zero) .nil, fun hl => absurd hl (not_lost _)⟩
    | again nonzero pass next _ ih =>
      cases hr
      have nonzero' : s.tape.read ≠ 0 := by rwa [← C.read hs]
      obtain ⟨e₁, hp, hsame | ⟨hlost, hc⟩⟩ := h.cases (C.tick hs) pass
      · obtain ⟨t, rfl, ht⟩ := exists_of_none_same hsame
        obtain ⟨e, hx', hl⟩ := ih ht rfl
        exact ⟨e, .again nonzero' hp hx', hl⟩
      · obtain ⟨f, t, rfl⟩ := exists_of_lost hlost
        exact ⟨_, .stop nonzero' hp, fun _ => hc.trans next.continues⟩
    | stop nonzero pass =>
      cases hr
      have nonzero' : s.tape.read ≠ 0 := by rwa [← C.read hs]
      obtain ⟨e₁, hp, hl⟩ := h.back (C.tick hs) pass
      obtain ⟨_ | f, t⟩ := e₁
      · exact absurd hp (h.not_done (C.tick hs) pass t)
      · exact ⟨_, .stop nonzero' hp, hl⟩

/-- Every program can stand for itself. -/
theorem refl (p : Program) : C.Refines p p := by
  induction p using Program.induction with
  | nil => exact nil
  | cons i r body rest =>
    refine append (?_ : C.Refines [i] [i]) rest
    rcases i.isLoop_cases with hi | ⟨b, pos, rfl⟩
    · exact of_act hi hi fun s' s hs => C.act hi hs
    · exact loop (body b pos rfl) pos pos

theorem trans {r q p : Program} (h : C.Refines r q) (h' : C.Refines q p) : C.Refines r p where
  forth {s' s e} hs hx hl := by
    obtain ⟨e₁, hx₁, hsame₁⟩ := h'.forth (C.refl hs) hx hl
    obtain ⟨e₂, hx₂, hsame₂⟩ := h.forth hs hx₁ fun hlost => hl (C.lost_same hsame₁ hlost)
    exact ⟨e₂, hx₂, C.trans hsame₂ hsame₁⟩
  back {s' s e₂} hs hx := by
    obtain ⟨e₁, hx₁, h₁⟩ := h.cases hs hx
    obtain ⟨e, hx₀, h₀⟩ := h'.back (C.refl hs) hx₁
    refine ⟨e, hx₀, fun hl => ?_⟩
    rcases h₁ with hsame | ⟨-, hc⟩
    · exact (h₀ hl).trans (.of_eq (C.calls hsame))
    · exact (h₀ hl).trans hc

/-- It is enough to compare the programs from one and the same state. -/
theorem of_exec {q p : Program} (h : ∀ s : State σ, s.tape.Valid →
    ∃ e' e, Exec dev cfg q s e' ∧ Exec dev cfg p s e ∧ C.same e' e) : C.Refines q p where
  forth {s' s e} hs hx hl := by
    -- `p` does from `s'` what it does from `s`, and from `s'` it can be compared with `q`
    obtain ⟨e₂, e₁, hq, hp, hsame⟩ := h s' (C.valid hs)
    obtain ⟨e₀, hp₀, hsame₀⟩ := (refl p).forth hs hx hl
    obtain rfl := hp.unique hp₀
    exact ⟨e₂, hq, C.trans hsame hsame₀⟩
  back {s' s e'} hs hx := by
    obtain ⟨e₂, e₁, hq, hp, hsame⟩ := h s' (C.valid hs)
    obtain rfl := hx.unique hq
    obtain ⟨e, he, hl⟩ := (refl p).back hs hp
    exact ⟨e, he, fun hlost => (hl hlost).trans (.of_eq (C.calls hsame))⟩

/-! ### The machine -/

/-- **Refinement of programs is refinement of runs of the machine.** -/
theorem ends {q p : Program} (h : C.Refines q p) {s' s : State σ} (hs : C.Alike s' s) :
    (∀ e, (Machine.start p s).Ends dev cfg e → ¬ C.lost e →
      ∃ e', (Machine.start q s').Ends dev cfg e' ∧ C.same e' e) ∧
    ∀ e', (Machine.start q s').Ends dev cfg e' → ∃ e, (Machine.start p s).Ends dev cfg e ∧
      (C.same e' e ∨ C.lost e ∧ e.state.Continues e'.state) := by
  simp only [Machine.ends_iff_runs]
  constructor
  · rintro e (@⟨t, hp⟩ | ⟨hp⟩) hl
    · obtain ⟨e₁, hq, hsame⟩ := h.forth hs hp (not_lost t)
      obtain ⟨t', rfl, ht⟩ := exists_of_same_none hsame
      exact ⟨_, .finish hq, C.finish ht⟩
    · obtain ⟨e₁, hq, hsame⟩ := h.forth hs hp hl
      obtain ⟨f', t', rfl⟩ := exists_of_same_some hsame
      exact ⟨_, .fail hq, hsame⟩
  · rintro e' (@⟨t', hq⟩ | ⟨hq⟩)
    · obtain ⟨e₁, hp, hsame | ⟨hlost, hc⟩⟩ := h.cases hs hq
      · obtain ⟨t, rfl, ht⟩ := exists_of_none_same hsame
        exact ⟨_, .finish hp, .inl (C.finish ht)⟩
      · obtain ⟨f, t, rfl⟩ := exists_of_lost hlost
        exact ⟨_, .fail hp, .inr ⟨hlost, hc.trans (Machine.continues_finish dev t')⟩⟩
    · obtain ⟨e₁, hp, he⟩ := h.cases hs hq
      obtain ⟨_ | f, t⟩ := e₁
      · exact absurd hp (h.not_done hs hq t)
      · exact ⟨_, .fail hp, he⟩

end Refines

end Comparison

end TapeLang
