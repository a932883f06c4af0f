import TapeLang.Proofs.History
import TapeLang.Proofs.Sessions
import TapeLang.Proofs.Writing

/-!
# Runs as sessions

Whatever a run does to its tape it does by the operations of a session, and the growths that it
records are those of the session. So what is known of sessions holds of runs, at every moment and
for any streams.

* `Tape.growths`: the growths of a session.
* `State.Operated.act`: an instruction does to the tape what operations do.
* `Machine.exists_operated_after`: a run is a session.
-/

namespace TapeLang

namespace Tape

variable {t u : Tape}

/-- The growths of a session, in order. -/
def growths (t : Tape) : List Op → List Growth
  | [] => []
  | op :: ops => (t.growth? (t.perform op).2).toList ++ growths (t.perform op).2 ops

theorem growth?_of_length_eq (h : u.length = t.length) : t.growth? u = none := by
  have hlt : ¬ t.length < u.length := by omega
  rw [growth?, if_neg hlt]

theorem growths_append (t : Tape) (ops more : List Op) :
    t.growths (ops ++ more) = t.growths ops ++ (t.after ops).growths more := by
  induction ops generalizing t with
  | nil => rfl
  | cons op ops ih => rw [List.cons_append, growths, growths, ih, List.append_assoc, after_cons]

theorem growths_singleton (t : Tape) (op : Op) :
    t.growths [op] = (t.growth? (t.perform op).2).toList := by
  rw [growths, growths, List.append_nil]

end Tape

variable {σ : Type}

/-- On the way from `s` to `t` the tape went through the operations `ops`, and their growths were
recorded. -/
structure State.Operated (s : State σ) (ops : List Tape.Op) (t : State σ) : Prop where
  tape : t.tape = s.tape.after ops
  growths : t.growths.toList = s.growths.toList ++ s.tape.growths ops

namespace State.Operated

variable {s t u : State σ} {ops more : List Tape.Op}

theorem of_eq (tape : t.tape = s.tape) (growths : t.growths = s.growths) : s.Operated [] t where
  tape := tape
  growths := by
    rw [growths, Tape.growths, List.append_nil]

theorem of_untouched (h : s.Untouched t) : s.Operated [] t := of_eq h.tape h.growths

theorem trans (h : s.Operated ops t) (h' : t.Operated more u) : s.Operated (ops ++ more) u where
  tape := by rw [h'.tape, h.tape, Tape.after_append]
  growths := by rw [h'.growths, h.growths, h.tape, List.append_assoc, Tape.growths_append]

/-- An operation that does not change the length of the tape leaves no record. -/
theorem of_length_eq {op : Tape.Op} (tape : t.tape = (s.tape.perform op).2)
    (growths : t.growths = s.growths) (length : t.tape.length = s.tape.length) :
    s.Operated [op] t where
  tape := tape
  growths := by
    rw [tape] at length
    rw [growths, Tape.growths_singleton, Tape.growth?_of_length_eq length, Option.toList_none,
      List.append_nil]

/-! ### One instruction -/

theorem change (s : State σ) (d : Int) :
    s.Operated [.change d] { s with tape := s.tape.change d } :=
  of_length_eq rfl rfl (Tape.length_change s.tape d)

theorem put (s : State σ) (v : Int) : s.Operated [.write v] { s with tape := s.tape.write v } :=
  of_length_eq rfl rfl (Tape.length_write s.tape v)

theorem move (s : State σ) (d : Int) : s.Operated [.move d] (s.move d).2 := by
  unfold State.move
  rcases h : s.tape.move d with f | u
  · refine of_length_eq ?_ rfl rfl
    rw [Tape.perform_of_error h]
  · have hperform := Tape.perform_of_ok h
    refine ⟨?_, ?_⟩
    · rw [Tape.after_cons, hperform]
      rfl
    · rw [Tape.growths_singleton, hperform, Array.toList_append]
      rcases s.tape.growth? u with _ | g <;> rfl

theorem write (dev : Device σ) (data : List UInt8) (s : State σ) :
    s.Operated [] (s.write dev data).2 := by
  unfold State.write
  split
  · exact of_eq rfl rfl
  · exact of_eq rfl rfl

theorem endOfInput (policy : EofPolicy) (s : State σ) :
    ∃ ops, s.Operated ops (s.endOfInput policy).2 := by
  cases policy with
  | zero => exact ⟨[.write 0], put s 0⟩
  | unchanged => exact ⟨[], of_eq rfl rfl⟩
  | error => exact ⟨[], of_eq rfl rfl⟩

theorem read (dev : Device σ) (policy : EofPolicy) (s : State σ) :
    ∃ ops, s.Operated ops (s.read dev policy).2 := by
  have record : ∀ (call : Call) (x : σ), s.Operated [] (s.record call x) :=
    fun _ _ => of_eq rfl rfl
  unfold State.read
  split
  · exact endOfInput policy s
  · split
    · exact ⟨[], record _ _⟩
    · next x _ =>
      obtain ⟨ops, h⟩ := endOfInput policy (s.record (.received []) x)
      exact ⟨[] ++ ops, (record _ x).trans h⟩
    · next b data x _ => exact ⟨[] ++ [.write b.toNat], (record _ x).trans (put _ _)⟩

theorem input (dev : Device σ) (policy : EofPolicy) (s : State σ) :
    ∃ ops, s.Operated ops (s.input dev policy).2 := by
  have hflush := s.untouched_flush dev
  unfold State.input
  rcases h : s.flush dev with ⟨_ | f, t⟩
  · rw [h] at hflush
    obtain ⟨ops, hread⟩ := read dev policy t
    exact ⟨[] ++ ops, (of_untouched hflush).trans hread⟩
  · rw [h] at hflush
    exact ⟨[], of_untouched hflush⟩

theorem attempt (dev : Device σ) (cfg : Settings) (i : Instr) (s : State σ) :
    ∃ ops, s.Operated ops (i.attempt dev cfg s).2 := by
  cases i with
  | add d => exact ⟨[.change d], change s d⟩
  | sub d => exact ⟨[.change (-d)], change s (-d)⟩
  | moveRight n => exact ⟨[.move n], move s n⟩
  | moveLeft n => exact ⟨[.move (-n)], move s (-n)⟩
  | set v => exact ⟨[.write v], put s v⟩
  | output => exact ⟨[], write dev _ s⟩
  | input => exact input dev cfg.eof s
  | loop => exact ⟨[], of_eq rfl rfl⟩
  | unknown => exact ⟨[], of_eq rfl rfl⟩

/-- **An instruction does to the tape what operations do**, also if it fails. -/
theorem act (dev : Device σ) (cfg : Settings) (i : Instr) (s : State σ) :
    ∃ ops, s.Operated ops (i.act dev cfg s).2 := by
  have hattempt := attempt dev cfg i s
  rcases h : i.act dev cfg s with ⟨_ | g, t⟩
  · rwa [Instr.attempt_of_done h] at hattempt
  · rcases Instr.failed_cases h with ⟨_, -, -, rfl⟩ | ⟨f, hf, -⟩
    · exact ⟨[], of_eq rfl rfl⟩
    · rwa [hf] at hattempt

end State.Operated

/-! ### Whole runs -/

namespace Machine

open State (Operated)

theorem operated_finish (dev : Device σ) (s : State σ) : s.Operated [] (finish dev s).state := by
  have hflush := s.untouched_flush dev
  unfold finish
  rcases h : s.flush dev with ⟨_ | f, t⟩ <;>
  · rw [h] at hflush
    exact .of_untouched hflush

/-- Counting a step is no operation. -/
theorem exists_operated_act (dev : Device σ) (cfg : Settings) (i : Instr) (s : State σ) :
    ∃ ops, s.Operated ops (i.act dev cfg s.tick).2 := by
  have htick : s.Operated [] s.tick := .of_eq rfl rfl
  obtain ⟨ops, h⟩ := Operated.act dev cfg i s.tick
  exact ⟨[] ++ ops, htick.trans h⟩

/-- **A run is a session**, after any number of transitions. -/
theorem exists_operated_after (dev : Device σ) (cfg : Settings) (n : Nat) (m : Machine σ) :
    ∃ ops, m.state.Operated ops (m.after dev cfg n).state := by
  induction n generalizing m with
  | zero => exact ⟨[], .of_eq rfl rfl⟩
  | succ n ih =>
    rw [after]
    rcases hm : m.step dev cfg with m' | e
    · obtain ⟨more, hmore⟩ := ih m'
      rcases running_cases hm with ⟨-, hs⟩ | ⟨i, -, hact⟩
      · rw [hs] at hmore
        exact ⟨more, hmore⟩
      · obtain ⟨ops, hops⟩ := exists_operated_act dev cfg i m.state
        rw [hact] at hops
        exact ⟨ops ++ more, hops.trans hmore⟩
    · rcases ended_cases hm with ⟨-, rfl⟩ | ⟨i, f, t, -, hact, rfl⟩
      · exact ⟨[], operated_finish dev m.state⟩
      · obtain ⟨ops, hops⟩ := exists_operated_act dev cfg i m.state
        rw [hact] at hops
        exact ⟨ops, hops⟩

end Machine

end TapeLang
