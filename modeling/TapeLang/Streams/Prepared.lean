import TapeLang.Machine.Step

/-!
# Prepared answers

A machine can be run against the outside world one transition at a time: `Machine.request` tells
which stream calls the next transition is going to make, the caller makes them, and the transition
is taken on streams that only repeat the answers.
-/

namespace TapeLang

/-- The stream calls of a transition. -/
inductive Request where
  | none
  | write (data : List UInt8)
  /-- A flush and, if it succeeds, a read. -/
  | input
  | flush

/-- The answers to the calls of the next transition. -/
structure Answers where
  write : Except String Unit
  flush : Except String Unit
  read : Except String (List UInt8)

/-- Answers for a transition that asks nothing. -/
def Answers.unasked : Answers := ⟨.ok (), .ok (), .ok []⟩

/-- The streams that repeat prepared answers. -/
def Answers.device : Device Answers where
  write _ a := (a.write, a)
  flush? := some fun a => (a.flush, a)
  read? := some fun a => (a.read, a)

/-- The calls that the next transition is going to make. -/
def Machine.request {σ : Type} (cfg : Settings) (m : Machine σ) : Request :=
  match m.frames with
  | [] | [[]] => .flush
  | (.output _ :: _) :: _ => .write (cfg.mode.bytes m.state.tape.read)
  | (.input _ :: _) :: _ => .input
  | _ => .none

/-- The machine with answers for its next transition, and no record of earlier calls. -/
def Machine.withAnswers (m : Machine Answers) (a : Answers) : Machine Answers :=
  { m with state := { m.state with streams := a, calls := #[] } }

end TapeLang
