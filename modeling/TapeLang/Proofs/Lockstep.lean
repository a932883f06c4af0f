import TapeLang.Proofs.Protocol

/-!
# Two runs in step

Runs of one program on different streams, or under different settings, go through the same turns as
long as their tapes are the same. What the streams and their calls have to do with each other is
left open: it is a relation that each action has to keep. Some moments may use up what makes it
hold, so it depends on a number that goes down by one at each of them.

* `Turn.take_alike`: the same turn, in states that are related.
* `State.InStep`: the same tape and counts, with streams and calls that are related;
  `State.InStep.attempt_silent`: an action without calls keeps any such relation.
* `Machine.after_inStep`: from an action and from the last flush to whole runs.
* `Sink.device`: streams whose output never fails and knows nothing of the input;
  `Sink.inStep_flushed`: what a flush does to two runs on them.
-/

namespace TapeLang

variable {σ' σ : Type}

/-! ### Turns -/

/-- Both runs have ended, with the same failure, or both have the same left to do; their states are
related by `S`. -/
inductive Progress.Alike (S : State σ' → State σ → Prop) : Progress σ' → Progress σ → Prop where
  | running {m' : Machine σ'} {m : Machine σ} (frames : m'.frames = m.frames)
      (states : S m'.state m.state) : Alike S (.running m') (.running m)
  | ended {e' : Ending σ'} {e : Ending σ} (failure : e'.failure = e.failure)
      (states : S e'.state e.state) : Alike S (.ended e') (.ended e)

/-- Endings with the same failure, in states related by `S`. -/
def Ending.Alike (S : State σ' → State σ → Prop) (e' : Ending σ') (e : Ending σ) : Prop :=
  e'.failure = e.failure ∧ S e'.state e.state

/-- Actions with the same failure that leave states related by `S`. -/
def Instr.ActsAlike (S : State σ' → State σ → Prop) (dev' : Device σ') (cfg' : Settings)
    (dev : Device σ) (cfg : Settings) (i : Instr) (s' : State σ') (s : State σ) : Prop :=
  (i.act dev' cfg' s').1 = (i.act dev cfg s).1 ∧ S (i.act dev' cfg' s').2 (i.act dev cfg s).2

/-- A run that is alike to one that has ended has ended too. -/
theorem Progress.Alike.exists_ended {S : State σ' → State σ → Prop} {r' : Progress σ'}
    {e : Ending σ} (h : Alike S r' (.ended e)) : ∃ e', r' = .ended e' ∧ e'.Alike S e := by
  cases h with
  | ended failure states => exact ⟨_, rfl, failure, states⟩

variable {dev' : Device σ'} {cfg' : Settings} {dev : Device σ} {cfg : Settings}

/-- **The same turn**, in states that are related and on which its action is. -/
theorem Turn.take_alike {S : State σ' → State σ → Prop} {s' : State σ'} {s : State σ} (t : Turn)
    (act : ∀ i, t.instr? = some i → i.ActsAlike S dev' cfg' dev cfg s'.tick s.tick)
    (still : t.instr? = none → S s' s)
    (finish : S s' s → (Machine.finish dev' s').Alike S (Machine.finish dev s)) :
    Progress.Alike S (t.take dev' cfg' s') (t.take dev cfg s) := by
  cases t with
  | act i frames =>
    obtain ⟨hf, hs⟩ := act i rfl
    rw [take, take]
    rcases hr' : i.act dev' cfg' s'.tick with ⟨f', u'⟩
    rcases hr : i.act dev cfg s.tick with ⟨f, u⟩
    rw [hr', hr] at hf hs
    obtain rfl : f' = f := hf
    rcases f' with _ | f'
    · exact .running rfl hs
    · exact .ended rfl hs
  -- the test of a loop is an action that does nothing
  | test body pos frames => exact .running rfl (act (.loop body pos) rfl).2
  | pop frames => exact .running rfl (still rfl)
  | finish => exact .ended (finish (still rfl)).1 (finish (still rfl)).2

/-! ### States -/

/-- States of two runs in step: the same tape, steps and growths, and streams and calls that are
related by `R`. -/
structure State.InStep (R : σ' → Array Call → σ → Array Call → Prop) (s' : State σ') (s : State σ) :
    Prop where
  tape : s'.tape = s.tape
  steps : s'.steps = s.steps
  growths : s'.growths = s.growths
  streams : R s'.streams s'.calls s.streams s.calls

/-- Results with the same fault that leave states in step. -/
def State.InStepResult (R : σ' → Array Call → σ → Array Call → Prop)
    (r' : Option Fault × State σ') (r : Option Fault × State σ) : Prop :=
  r'.1 = r.1 ∧ State.InStep R r'.2 r.2

namespace State.InStep

variable {R Q : σ' → Array Call → σ → Array Call → Prop} {s' : State σ'} {s : State σ}

theorem tick (h : InStep R s' s) : InStep R s'.tick s.tick :=
  ⟨h.tape, congrArg (· + 1) h.steps, h.growths, h.streams⟩

/-- After a call of each run, whose streams and calls are related by `Q` then. -/
theorem record (h : InStep R s' s) {c' c : Call} {x' : σ'} {x : σ}
    (streams : Q x' (s'.calls.push c') x (s.calls.push c)) :
    InStep Q (s'.record c' x') (s.record c x) :=
  ⟨h.tape, h.steps, h.growths, streams⟩

theorem withTape (h : InStep R s' s) (t : Tape) :
    InStep R { s' with tape := t } { s with tape := t } :=
  ⟨rfl, h.steps, h.growths, h.streams⟩

theorem move (h : InStep R s' s) (d : Int) : InStepResult R (s'.move d) (s.move d) := by
  unfold State.move
  rw [h.tape]
  rcases s.tape.move d with f | t
  · exact ⟨rfl, h⟩
  · exact ⟨rfl, rfl, h.steps, by rw [h.growths], h.streams⟩

theorem endOfInput (h : InStep R s' s) (policy : EofPolicy) :
    InStepResult R (s'.endOfInput policy) (s.endOfInput policy) := by
  cases policy with
  | zero =>
    refine ⟨rfl, ?_⟩
    unfold State.endOfInput
    rw [h.tape]
    exact h.withTape _
  | unchanged => exact ⟨rfl, h⟩
  | error => exact ⟨rfl, h⟩

/-- An action without calls keeps any relation of the streams. -/
theorem attempt_silent (h : InStep R s' s) {i : Instr} (silent : i.calls = []) :
    InStepResult R (i.attempt dev' cfg' s') (i.attempt dev cfg s) := by
  cases i with
  | moveLeft n p t => exact h.move (-n)
  | moveRight n p t => exact h.move n
  | add _ _ | sub _ _ | set _ _ =>
    simp only [Instr.attempt, h.tape]
    exact ⟨rfl, h.withTape _⟩
  | loop _ _ | unknown _ => exact ⟨rfl, h⟩
  | output _ | input _ => cases silent

/-- Faults are located alike, since the tapes are the same. -/
theorem actsAlike {i : Instr} (h : InStepResult R (i.attempt dev' cfg' s') (i.attempt dev cfg s)) :
    i.ActsAlike (InStep R) dev' cfg' dev cfg s' s := by
  by_cases hu : ∃ n, i = .unknown n
  · obtain ⟨n, rfl⟩ := hu
    exact ⟨rfl, h.2⟩
  unfold Instr.ActsAlike
  obtain ⟨hf, hs⟩ := h
  rcases hr' : i.attempt dev' cfg' s' with ⟨f', u'⟩
  rcases hr : i.attempt dev cfg s with ⟨f, u⟩
  rw [hr', hr] at hf hs
  obtain rfl : f' = f := hf
  rcases f' with _ | f'
  · rw [Instr.act_of_none hu hr', Instr.act_of_none hu hr]
    exact ⟨rfl, hs⟩
  · rw [Instr.act_of_some hu hr', Instr.act_of_some hu hr, hs.tape]
    exact ⟨rfl, hs⟩

end State.InStep

/-! ### Runs -/

/-- What is seen of a moment on the tape. -/
def Moment.scene (a : Moment σ) : Instr × Tape := (a.instr, a.state.tape)

/-- **Runs in step.** If each action keeps the streams and calls related, and so does the last
flush, then runs that start in step stay so, and meet the same instructions on the same tapes. The
number on which the relation depends goes down where the moment `spends`. -/
theorem Machine.after_inStep {R : Nat → σ' → Array Call → σ → Array Call → Prop}
    (spends : Moment σ → Bool)
    (act : ∀ (n : Nat) (i : Instr) (s' : State σ') (s : State σ), State.InStep (R n) s' s →
      (spends ⟨i, s⟩ = true → 0 < n) → i.ActsAlike
        (State.InStep (R (n - if spends ⟨i, s⟩ then 1 else 0))) dev' cfg' dev cfg s'.tick s.tick)
    (finish : ∀ (n : Nat) (s' : State σ') (s : State σ), State.InStep (R n) s' s →
      (finish dev' s').Alike (State.InStep (R n)) (finish dev s)) :
    ∀ (turns n : Nat) (m' : Machine σ') (m : Machine σ), m'.frames = m.frames →
      State.InStep (R n) m'.state m.state → (m.history dev cfg turns).countP spends ≤ n →
      Progress.Alike (State.InStep (R (n - (m.history dev cfg turns).countP spends)))
          (m'.after dev' cfg' turns) (m.after dev cfg turns) ∧
        (m'.history dev' cfg' turns).map Moment.scene = (m.history dev cfg turns).map Moment.scene
  | 0, _, _, _, frames, same, _ => ⟨.running frames same, rfl⟩
  | turns + 1, n, m', m, frames, same, enough => by
    have hturn : m'.turn = m.turn := turn_congr frames (by rw [same.tape])
    have hscene : m'.moment?.toList.map Moment.scene = m.moment?.toList.map Moment.scene := by
      unfold moment?
      rw [hturn]
      rcases m.turn.instr? with _ | i
      · rfl
      · exact congrArg (fun t => [(i, t)]) same.tape
    have hstep : Progress.Alike (State.InStep (R (n - m.moment?.toList.countP spends)))
        (m'.step dev' cfg') (m.step dev cfg) := by
      have hsome : ∀ i, m.turn.instr? = some i → m.moment?.toList = [⟨i, m.state⟩] := by
        intro i hi
        rw [moment?, hi]
        rfl
      rw [step_eq_take, step_eq_take, hturn]
      refine m.turn.take_alike (fun i hi => ?_) (fun hi => ?_) (finish _ _ _)
      · rw [history, hsome i hi, List.countP_append, List.countP_singleton] at enough
        rw [hsome i hi, List.countP_singleton]
        refine act n i m'.state m.state same fun hspends => ?_
        rw [if_pos hspends] at enough
        omega
      · rw [moment?, hi]
        exact same
    rw [history, history, after, after]
    rw [history] at enough
    rcases hm : m.step dev cfg with m₁ | e <;> rw [hm] at hstep enough <;>
      generalize m'.step dev' cfg' = r' at hstep
    · cases hstep with
      | running frames₁ same₁ =>
        rw [List.countP_append] at enough
        obtain ⟨hafter, hhistory⟩ := after_inStep spends act finish turns _ _ m₁ frames₁ same₁
          (Nat.le_sub_of_add_le' enough)
        rw [List.countP_append, Nat.sub_add_eq, List.map_append, List.map_append, hscene, hhistory]
        exact ⟨hafter, rfl⟩
    · cases hstep with
      | ended failure states =>
        rw [List.append_nil, List.append_nil]
        exact ⟨.ended failure states, hscene⟩

/-! ### Sinks -/

/-- An output that never fails. -/
structure Sink (τ : Type) where
  write : List UInt8 → τ → τ
  flush? : Option (τ → τ)

namespace Sink

variable {τ ρ : Type} (out : Sink τ) (read? : Option (ρ → Except String (List UInt8) × ρ))

/-- Streams that write to a sink and read from a source with a state of its own. -/
def device : Device (τ × ρ) where
  write data x := (.ok (), out.write data x.1, x.2)
  flush? := out.flush?.map fun flush x => (.ok (), flush x.1, x.2)
  read? := read?.map fun read x => ((read x.2).1, x.1, (read x.2).2)

/-- The state after a flush. -/
def flushed (s : State (τ × ρ)) : State (τ × ρ) :=
  match out.flush? with
  | none => s
  | some flush => s.record .flushed (flush s.streams.1, s.streams.2)

variable {out read?}

theorem write_eq (data : List UInt8) (s : State (τ × ρ)) : s.write (out.device read?) data =
    (none, s.record (.wrote data) (out.write data s.streams.1, s.streams.2)) := rfl

theorem flush_eq (s : State (τ × ρ)) : s.flush (out.device read?) = (none, out.flushed s) := by
  unfold State.flush flushed device
  rcases out.flush? with _ | flush
  · rfl
  · rfl

theorem input_eq (policy : EofPolicy) (s : State (τ × ρ)) :
    s.input (out.device read?) policy = (out.flushed s).read (out.device read?) policy := by
  rw [State.input, flush_eq]

theorem finish_eq (s : State (τ × ρ)) :
    Machine.finish (out.device read?) s = ⟨none, out.flushed s⟩ := by
  rw [Machine.finish, flush_eq]

/-- A flush keeps two states in step if it keeps their streams related. -/
theorem inStep_flushed {R : τ × ρ → Array Call → τ × ρ → Array Call → Prop} {s' s : State (τ × ρ)}
    (h : State.InStep R s' s)
    (keeps : ∀ flush : τ → τ, R (flush s'.streams.1, s'.streams.2) (s'.calls.push .flushed)
      (flush s.streams.1, s.streams.2) (s.calls.push .flushed)) :
    State.InStep R (out.flushed s') (out.flushed s) := by
  unfold flushed
  rcases out.flush? with _ | flush
  · exact h
  · exact h.record (keeps flush)

theorem finish_alike {S : State (τ × ρ) → State (τ × ρ) → Prop} {s' s : State (τ × ρ)}
    (h : S (out.flushed s') (out.flushed s)) : (Machine.finish (out.device read?) s').Alike S
      (Machine.finish (out.device read?) s) := by
  rw [finish_eq, finish_eq]
  exact ⟨rfl, h⟩

end Sink

end TapeLang
