import TapeLang.Machine.Step

/-!
# Structured execution

`Exec dev cfg p s e` says that running the instructions of `p` in order from state `s` comes to the
ending `e`: a loop whose cell is zero is skipped, any other runs its body and is met again, and the
first failure stops everything. There is no stack and no program counter here; a run that goes on
forever has no derivation.

`Runs` adds the flush at the end of a program.
-/

namespace TapeLang

variable {σ : Type}

/-- Structured execution of a sequence of instructions. -/
inductive Exec (dev : Device σ) (cfg : Settings) : Program → State σ → Ending σ → Prop where
  | nil {s : State σ} : Exec dev cfg [] s ⟨none, s⟩
  | act {i : Instr} {rest : Program} {s t : State σ} {e : Ending σ} (simple : i.isLoop = false)
      (done : i.act dev cfg s.tick = (none, t)) (next : Exec dev cfg rest t e) :
      Exec dev cfg (i :: rest) s e
  | fail {i : Instr} {rest : Program} {s t : State σ} {f : Failure} (simple : i.isLoop = false)
      (failed : i.act dev cfg s.tick = (some f, t)) : Exec dev cfg (i :: rest) s ⟨some f, t⟩
  | skip {body rest : Program} {pos : Option Position} {s : State σ} {e : Ending σ}
      (zero : s.tape.read = 0) (next : Exec dev cfg rest s.tick e) :
      Exec dev cfg (.loop body pos :: rest) s e
  | again {body rest : Program} {pos : Option Position} {s t : State σ} {e : Ending σ}
      (nonzero : s.tape.read ≠ 0) (pass : Exec dev cfg body s.tick ⟨none, t⟩)
      (next : Exec dev cfg (.loop body pos :: rest) t e) : Exec dev cfg (.loop body pos :: rest) s e
  | stop {body rest : Program} {pos : Option Position} {s t : State σ} {f : Failure}
      (nonzero : s.tape.read ≠ 0) (pass : Exec dev cfg body s.tick ⟨some f, t⟩) :
      Exec dev cfg (.loop body pos :: rest) s ⟨some f, t⟩

/-- Structured execution of a whole program: the instructions, then the flush. -/
inductive Runs (dev : Device σ) (cfg : Settings) (p : Program) (s : State σ) : Ending σ → Prop where
  | finish {t : State σ} (all : Exec dev cfg p s ⟨none, t⟩) :
      Runs dev cfg p s (Machine.finish dev t)
  | fail {f : Failure} {t : State σ} (failed : Exec dev cfg p s ⟨some f, t⟩) :
      Runs dev cfg p s ⟨some f, t⟩

end TapeLang
