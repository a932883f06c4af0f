import TapeLang.Proofs.Frames

/-!
# The history of a run

Which transition comes next is decided by the frames, and at a loop by its cell: that is the *turn*
of the machine. The streams and the settings only matter for what the transition does to the state
(`Turn.take`). So two machines with the same frames and the same cell take the same turn, whatever
else is different.

* `Machine.step_eq_take`: a transition takes the turn of the machine.
* `Machine.after`: what a number of transitions lead to, also in a run that does not end;
  `Machine.run_eq_after`: a run asks for the ending in it.
* `Machine.history`: the instructions that are met on the way, each in the state it is met in.
* `Machine.after_induction`: what holds of the history and of where it leads is shown turn by turn.
-/

namespace TapeLang

/-- What the next transition is about, with the frames that are left if it does not end the run. -/
inductive Turn where
  | act (i : Instr) (frames : List Program)
  /-- A loop tests its cell. -/
  | test (body : Program) (pos : Option Position) (frames : List Program)
  /-- A loop body is finished. -/
  | pop (frames : List Program)
  /-- The program is finished. -/
  | finish

/-- The instruction that is met. -/
def Turn.instr? : Turn → Option Instr
  | act i _ => some i
  | test body pos _ => some (.loop body pos)
  | pop _ | finish => none

/-- A moment of a run: an instruction and the state in which it is met. -/
structure Moment (σ : Type) where
  instr : Instr
  state : State σ

variable {σ : Type}

/-- The state that was reached. -/
def Progress.state : Progress σ → State σ
  | running m => m.state
  | ended e => e.state

/-- The ending, if it was reached. -/
def Progress.ending? : Progress σ → Option (Ending σ)
  | running _ => none
  | ended e => some e

/-- What comes of a turn in a state. -/
def Turn.take (dev : Device σ) (cfg : Settings) (s : State σ) : Turn → Progress σ
  | act i frames => Machine.proceed frames (i.act dev cfg s.tick)
  | test _ _ frames => .running ⟨frames, s.tick⟩
  | pop frames => .running ⟨frames, s⟩
  | finish => .ended (Machine.finish dev s)

namespace Machine

/-- The turn that comes next. -/
def turn (m : Machine σ) : Turn :=
  match m.frames with
  | [] | [[]] => .finish
  | [] :: frames => .pop frames
  | (.loop body pos :: rest) :: frames =>
    .test body pos (if m.state.tape.read = 0 then rest :: frames
      else body :: (.loop body pos :: rest) :: frames)
  | (i :: rest) :: frames => .act i (rest :: frames)

/-- The moment that comes next, if an instruction is met. -/
def moment? (m : Machine σ) : Option (Moment σ) := m.turn.instr?.map (⟨·, m.state⟩)

/-- What `n` transitions lead to. After its ending a run makes no more of them. -/
def after (dev : Device σ) (cfg : Settings) : (n : Nat) → Machine σ → Progress σ
  | 0, m => .running m
  | n + 1, m =>
    match m.step dev cfg with
    | .running m => after dev cfg n m
    | .ended e => .ended e

/-- The moments of `n` transitions, in order. -/
def history (dev : Device σ) (cfg : Settings) : (n : Nat) → Machine σ → List (Moment σ)
  | 0, _ => []
  | n + 1, m => m.moment?.toList ++
    match m.step dev cfg with
    | .running m => history dev cfg n m
    | .ended _ => []

variable {dev : Device σ} {cfg : Settings}

theorem step_eq_take (dev : Device σ) (cfg : Settings) (m : Machine σ) :
    m.step dev cfg = m.turn.take dev cfg m.state := by
  obtain ⟨frames, s⟩ := m
  rcases frames with _ | ⟨_ | ⟨i, rest⟩, frames⟩
  · rfl
  · rcases frames with _ | ⟨f, frames⟩
    · rfl
    · rfl
  · rcases i.isLoop_cases with hi | ⟨body, pos, rfl⟩
    · rw [step_act dev cfg s hi]
      cases i with
      | loop => cases hi
      | _ => rfl
    · by_cases hz : s.tape.read = 0
      · rw [step_skip dev cfg s hz]
        simp only [turn, if_pos hz, Turn.take]
      · rw [step_enter dev cfg s hz]
        simp only [turn, if_neg hz, Turn.take]

theorem turn_congr {σ' : Type} {m' : Machine σ'} {m : Machine σ} (frames : m'.frames = m.frames)
    (read : m'.state.tape.read = m.state.tape.read) : m'.turn = m.turn := by
  unfold turn
  rw [frames, read]

/-- A transition that does not end the run drops a finished body, or is an action; a test of a loop
is one that does nothing. -/
theorem running_cases {m m' : Machine σ} (h : m.step dev cfg = .running m') :
    (m.moment? = none ∧ m'.state = m.state) ∨
      ∃ i, m.moment? = some ⟨i, m.state⟩ ∧ i.act dev cfg m.state.tick = (none, m'.state) := by
  rw [step_eq_take] at h
  unfold moment?
  generalize m.turn = next at h
  cases next with
  | act i frames =>
    rw [Turn.take] at h
    rcases hact : i.act dev cfg m.state.tick with ⟨_ | f, t⟩
    · rw [hact] at h
      cases h
      exact .inr ⟨i, rfl, hact⟩
    · rw [hact] at h
      cases h
  | test body pos frames =>
    cases h
    exact .inr ⟨.loop body pos, rfl, rfl⟩
  | pop frames =>
    cases h
    exact .inl ⟨rfl, rfl⟩
  | finish => cases h

/-- A transition that ends the run is the end of the program, or an action that fails. -/
theorem ended_cases {m : Machine σ} {e : Ending σ} (h : m.step dev cfg = .ended e) :
    (m.moment? = none ∧ e = finish dev m.state) ∨
      ∃ i f t, m.moment? = some ⟨i, m.state⟩ ∧ i.act dev cfg m.state.tick = (some f, t) ∧
        e = ⟨some f, t⟩ := by
  rw [step_eq_take] at h
  unfold moment?
  generalize m.turn = next at h
  cases next with
  | act i frames =>
    rw [Turn.take] at h
    rcases hact : i.act dev cfg m.state.tick with ⟨_ | f, t⟩
    · rw [hact] at h
      cases h
    · rw [hact] at h
      cases h
      exact .inr ⟨i, f, t, rfl, hact, rfl⟩
  | test body pos frames => cases h
  | pop frames => cases h
  | finish =>
    cases h
    exact .inl ⟨rfl, rfl⟩

theorem run_eq_after (dev : Device σ) (cfg : Settings) : ∀ (n : Nat) (m : Machine σ),
    m.run dev cfg n = (m.after dev cfg n).ending?
  | 0, _ => rfl
  | n + 1, m => by
    rw [run, after]
    rcases m.step dev cfg with m' | e
    · exact run_eq_after dev cfg n m'
    · rfl

theorem after_of_run {n : Nat} {m : Machine σ} {e : Ending σ} (h : m.run dev cfg n = some e) :
    m.after dev cfg n = .ended e := by
  rw [run_eq_after] at h
  rcases hr : m.after dev cfg n with m' | e'
  · rw [hr] at h
    cases h
  · rw [hr] at h
    cases h
    rfl

/-- **What holds of a history and of where it leads** is shown turn by turn, from its last one. -/
theorem after_induction {P : Machine σ → List (Moment σ) → Progress σ → Prop}
    (start : ∀ m, P m [] (.running m))
    (running : ∀ m m' h r, m.step dev cfg = .running m' → P m' h r →
      P m (m.moment?.toList ++ h) r)
    (ended : ∀ m e, m.step dev cfg = .ended e → P m m.moment?.toList (.ended e)) :
    ∀ (n : Nat) (m : Machine σ), P m (m.history dev cfg n) (m.after dev cfg n)
  | 0, m => start m
  | n + 1, m => by
    rw [history, after]
    rcases hm : m.step dev cfg with m' | e
    · exact running m m' _ _ hm (after_induction start running ended n m')
    · have h := ended m e hm
      rw [← List.append_nil m.moment?.toList] at h
      exact h

end Machine

end TapeLang
