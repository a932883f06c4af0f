import TapeLang.Proofs.Exec
import Mathlib.Logic.Relation

/-!
# The frame stack follows the structure

The machine keeps a stack of frames; structured execution has none. They agree: `Machine.Ends`, that
the machine comes to an ending after some number of transitions, is `Runs`.

* `Exec.reaches_append`, `Exec.ends`: an execution of `p` is a run of the machine from a frame that
  begins with `p`, on top of any stack, which either comes to what follows `p` in that frame and
  leaves the frames below as they were, or fails.
* `exec_of_run`: conversely, a run that ends passes through such an execution of its top frame. The
  induction is on the length of the run, because a loop runs its own frame again.
* `Machine.Nested`: each frame is what is left of the body of the loop at which the frame below
  stands. Every transition keeps this, so a finished body always finds its loop.
-/

namespace TapeLang

variable {σ : Type}

namespace Machine

/-- The machine comes to the ending `e`. -/
def Ends (dev : Device σ) (cfg : Settings) (m : Machine σ) (e : Ending σ) : Prop :=
  ∃ fuel, m.run dev cfg fuel = some e

/-- The machine gets from `m` to `m'`, in any number of transitions. -/
def Reaches (dev : Device σ) (cfg : Settings) : Machine σ → Machine σ → Prop :=
  Relation.ReflTransGen fun m m' => m.step dev cfg = .running m'

variable {dev : Device σ} {cfg : Settings}

/-! ### Runs of the machine -/

theorem run_of_running {m m' : Machine σ} (h : m.step dev cfg = .running m') (n : Nat) :
    m.run dev cfg (n + 1) = m'.run dev cfg n := by
  simp [run, h]

theorem run_of_ended {m : Machine σ} {e : Ending σ} (h : m.step dev cfg = .ended e) (n : Nat) :
    m.run dev cfg (n + 1) = some e := by
  simp [run, h]

theorem Ends.of_ended {m : Machine σ} {e : Ending σ} (h : m.step dev cfg = .ended e) :
    m.Ends dev cfg e := ⟨1, run_of_ended h 0⟩

theorem Ends.of_running {m m' : Machine σ} {e : Ending σ} (h : m.step dev cfg = .running m')
    (he : m'.Ends dev cfg e) : m.Ends dev cfg e := by
  obtain ⟨n, hn⟩ := he
  exact ⟨n + 1, by rw [run_of_running h, hn]⟩

theorem Ends.of_reaches {m m' : Machine σ} {e : Ending σ} (h : Reaches dev cfg m m')
    (he : m'.Ends dev cfg e) : m.Ends dev cfg e := by
  induction h using Relation.ReflTransGen.head_induction_on with
  | refl => exact he
  | head hstep _ ih => exact .of_running hstep ih

/-! ### Nested frames -/

/-- The frames of a run of `p`: the lowest is what is left of `p`, and each of the others is what is
left of the body of the loop with which the frame below begins. -/
inductive Nested (p : Program) : List Program → Prop where
  | base {rest : Program} (left : rest <:+ p) : Nested p [rest]
  | body {top body rest : Program} {pos : Option Position} {frames : List Program}
      (left : top <:+ body) (below : Nested p ((.loop body pos :: rest) :: frames)) :
      Nested p (top :: (.loop body pos :: rest) :: frames)

/-- The top frame may be worked off. -/
theorem Nested.advance {p : Program} {i : Instr} {rest : Program} {frames : List Program}
    (h : Nested p ((i :: rest) :: frames)) : Nested p (rest :: frames) := by
  cases h with
  | base left => exact .base ((List.suffix_cons i rest).trans left)
  | body left below => exact .body ((List.suffix_cons i rest).trans left) below

/-- **A transition keeps the frames nested.** -/
theorem Nested.transition {p : Program} {m m' : Machine σ} (h : Nested p m.frames)
    (hstep : m.step dev cfg = .running m') : Nested p m'.frames := by
  obtain ⟨frames, s⟩ := m
  cases frames with
  | nil => cases h
  | cons top frames =>
    cases top with
    | nil =>
      cases h with
      | base _ => cases hstep
      | body _ below =>
        rw [step_pop] at hstep
        cases hstep
        exact below
    | cons i rest =>
      rcases i.isLoop_cases with hi | ⟨body, pos, rfl⟩
      · rw [step_act dev cfg s hi] at hstep
        rcases hact : i.act dev cfg s.tick with ⟨_ | f, t⟩
        · rw [hact] at hstep
          cases hstep
          exact h.advance
        · rw [hact] at hstep
          cases hstep
      · by_cases hz : s.tape.read = 0
        · rw [step_skip dev cfg s hz] at hstep
          cases hstep
          exact h.advance
        · rw [step_enter dev cfg s hz] at hstep
          cases hstep
          exact .body List.suffix_rfl h

theorem nested_of_reaches {p : Program} {s : State σ} {m : Machine σ}
    (h : Reaches dev cfg (start p s) m) : Nested p m.frames := by
  induction h with
  | refl => exact .base List.suffix_rfl
  | tail _ hstep ih => exact ih.transition hstep

/-- A finished body finds its loop below, which is tested next. -/
theorem Nested.retest {p f : Program} {frames : List Program} (h : Nested p ([] :: f :: frames))
    (s : State σ) :
    ∃ body pos rest, f = .loop body pos :: rest ∧
      step dev cfg ⟨[] :: f :: frames, s⟩ = .running ⟨f :: frames, s⟩ ∧
      step dev cfg ⟨f :: frames, s⟩ =
        .running ⟨if s.tape.read = 0 then rest :: frames else body :: f :: frames, s.tick⟩ := by
  cases h with
  | @body _ body rest pos _ _ below =>
    refine ⟨body, pos, rest, rfl, step_pop dev cfg s _ frames, ?_⟩
    by_cases hz : s.tape.read = 0
    · rw [step_skip dev cfg s hz, if_pos hz]
    · rw [step_enter dev cfg s hz, if_neg hz]

end Machine

/-! ### From structured execution to the machine -/

open Machine

variable {dev : Device σ} {cfg : Settings}

/-- An execution that does not fail leaves what follows it in its frame. -/
theorem Exec.reaches_append {p : Program} {s t : State σ} (h : Exec dev cfg p s ⟨none, t⟩)
    (more : Program) (frames : List Program) :
    Reaches dev cfg ⟨(p ++ more) :: frames, s⟩ ⟨more :: frames, t⟩ := by
  generalize he : (⟨none, t⟩ : Ending σ) = e at h
  induction h generalizing t more frames with
  | nil => cases he; exact .refl
  | @act i rest s t _ simple done _ ih =>
    refine .head ?_ (ih more frames he)
    rw [List.cons_append, step_act dev cfg s simple, done]
    rfl
  | fail => cases he
  | skip zero _ ih => exact .head (step_skip dev cfg _ zero _ _ _ _) (ih more frames he)
  | @again body rest pos s u e nonzero _ _ ihPass ihNext =>
    -- the frame of the loop waits below its body and is on top again after it
    have hbody := ihPass [] ((.loop body pos :: (rest ++ more)) :: frames) rfl
    rw [List.append_nil] at hbody
    exact .head (step_enter dev cfg s nonzero body (rest ++ more) pos frames)
      (hbody.trans (.head (step_pop dev cfg u _ frames) (ihNext more frames he)))
  | stop => cases he

/-- An execution that does not fail empties its frame. -/
theorem Exec.reaches {p : Program} {s t : State σ} (h : Exec dev cfg p s ⟨none, t⟩)
    (frames : List Program) : Reaches dev cfg ⟨p :: frames, s⟩ ⟨[] :: frames, t⟩ := by
  have happend := h.reaches_append [] frames
  rwa [List.append_nil] at happend

/-- An execution that fails ends the run, whatever is left to do. -/
theorem Exec.ends {p : Program} {s t : State σ} {f : Failure} (h : Exec dev cfg p s ⟨some f, t⟩)
    (frames : List Program) : Machine.Ends dev cfg ⟨p :: frames, s⟩ ⟨some f, t⟩ := by
  generalize he : (⟨some f, t⟩ : Ending σ) = e at h ⊢
  induction h generalizing frames with
  | nil => cases he
  | @act i rest s t _ simple done _ ih =>
    refine .of_running ?_ (ih frames he)
    rw [step_act dev cfg s simple, done]
    rfl
  | @fail i rest s t f simple failed =>
    refine .of_ended ?_
    rw [step_act dev cfg s simple, failed]
    rfl
  | skip zero _ ih => exact .of_running (step_skip dev cfg _ zero _ _ _ _) (ih frames he)
  | @again body rest pos s t e nonzero pass _ _ ihNext =>
    have hbody := pass.reaches ((.loop body pos :: rest) :: frames)
    refine .of_running (step_enter dev cfg s nonzero body rest pos frames) (.of_reaches hbody ?_)
    exact .of_running (step_pop dev cfg t _ frames) (ihNext frames he)
  | stop nonzero _ ih => exact .of_running (step_enter dev cfg _ nonzero _ _ _ _) (ih _ he)

/-! ### From the machine to structured execution -/

/-- **A run that ends executes its top frame first**: either the frame fails and this is the ending,
or it is emptied and a run that is no longer goes on from there. -/
theorem exec_of_run (n : Nat) :
    ∀ (p : Program) (frames : List Program) (s : State σ) (e : Ending σ),
    run dev cfg n ⟨p :: frames, s⟩ = some e →
      (∃ t k, k ≤ n ∧ Exec dev cfg p s ⟨none, t⟩ ∧ run dev cfg k ⟨[] :: frames, t⟩ = some e) ∨
        ∃ f t, Exec dev cfg p s ⟨some f, t⟩ ∧ e = ⟨some f, t⟩ := by
  induction n using Nat.strongRecOn with
  | ind n ih =>
    intro p frames s e h
    cases p with
    | nil => exact .inl ⟨s, n, Nat.le_refl n, .nil, h⟩
    | cons i rest =>
      cases n with
      | zero => cases h
      | succ n =>
        rcases i.isLoop_cases with hi | ⟨body, pos, rfl⟩
        · have hstep := step_act dev cfg s hi rest frames
          rcases hact : i.act dev cfg s.tick with ⟨_ | f, t⟩
          · rw [hact] at hstep
            rw [run_of_running hstep] at h
            rcases ih n (by omega) rest frames t e h with ⟨u, k, hk, hu, hrun⟩ | ⟨f, u, hu, rfl⟩
            · exact .inl ⟨u, k, by omega, .act hi hact hu, hrun⟩
            · exact .inr ⟨f, u, .act hi hact hu, rfl⟩
          · rw [hact] at hstep
            rw [run_of_ended hstep] at h
            cases h
            exact .inr ⟨f, t, .fail hi hact, rfl⟩
        · by_cases hz : s.tape.read = 0
          · rw [run_of_running (step_skip dev cfg s hz body rest pos frames)] at h
            rcases ih n (by omega) _ _ _ _ h with ⟨u, k, hk, hu, hrun⟩ | ⟨f, u, hu, rfl⟩
            · exact .inl ⟨u, k, by omega, .skip hz hu, hrun⟩
            · exact .inr ⟨f, u, .skip hz hu, rfl⟩
          · rw [run_of_running (step_enter dev cfg s hz body rest pos frames)] at h
            rcases ih n (by omega) _ _ _ _ h with ⟨t, k, hk, ht, hrun⟩ | ⟨f, t, ht, rfl⟩
            · -- the body is done: one transition back to the loop, then the loop once more
              obtain ⟨k, rfl⟩ : ∃ j, k = j + 1 := by
                cases k with
                | zero => cases hrun
                | succ j => exact ⟨j, rfl⟩
              rw [run_of_running (step_pop dev cfg t _ frames)] at hrun
              rcases ih k (by omega) _ _ _ _ hrun with ⟨u, j, hj, hu, hrun'⟩ | ⟨f, u, hu, rfl⟩
              · exact .inl ⟨u, j, by omega, .again hz ht hu, hrun'⟩
              · exact .inr ⟨f, u, .again hz ht hu, rfl⟩
            · exact .inr ⟨f, t, .stop hz ht, rfl⟩

theorem Machine.ends_iff_runs {p : Program} {s : State σ} {e : Ending σ} :
    (start p s).Ends dev cfg e ↔ Runs dev cfg p s e := by
  constructor
  · rintro ⟨n, hn⟩
    rcases exec_of_run n p [] s e hn with ⟨t, k, -, ht, hrun⟩ | ⟨f, t, ht, rfl⟩
    · cases k with
      | zero => cases hrun
      | succ k =>
        rw [run_of_ended (step_end dev cfg t)] at hrun
        cases hrun
        exact .finish ht
    · exact .fail ht
  · rintro (@⟨t, ht⟩ | ⟨hf⟩)
    · exact .of_reaches (ht.reaches []) (.of_ended (step_end dev cfg t))
    · exact hf.ends []

/-- A run has at most one ending. -/
theorem Machine.Ends.unique {m : Machine σ} {e e' : Ending σ} (h : m.Ends dev cfg e)
    (h' : m.Ends dev cfg e') : e' = e := by
  obtain ⟨n, hn⟩ := h
  obtain ⟨k, hk⟩ := h'
  have hn' := run_add hn k
  rw [Nat.add_comm, run_add hk n] at hn'
  exact Option.some.inj hn'

end TapeLang
