import TapeLang.Compact.Walk
import TapeLang.Tape.Basic

/-!
# Notices

What a verbose run reports: each notice has a severity, names the part of the program that it comes
from, and some give the time an activity took, which is filled in when the notice is printed.
-/

namespace TapeLang

/-- A report on progress. -/
inductive Notice where
  /-- A program was compacted, from so many instructions to so many. -/
  | compacted (before after : Nat) (level : Level)
  /-- A program was read and compacted. -/
  | loaded
  /-- The tape has grown. -/
  | grown (growth : Growth)
  /-- A program came to its end. -/
  | finished (steps cursor : Nat)
  /-- A run is over, successful or not. -/
  | executed (steps : Nat)
  /-- The program of a file is ready. -/
  | compiled (path : String)
  /-- The output could not be flushed after a run that had failed anyway. -/
  | flushFailed (path reason : String)

namespace Notice

/-- How much a notice matters. -/
inductive Severity where
  | debug
  | info

/-- The name of a severity. -/
def Severity.name : Severity → String
  | .debug => "DEBUG"
  | .info => "INFO"

/-- The severity of a notice. -/
def severity : Notice → Severity
  | compacted .. | grown _ | finished .. | flushFailed .. => .debug
  | loaded | executed _ | compiled _ => .info

/-- The part of the program that gives the notice. -/
def origin : Notice → String
  | compacted .. => "bfir.optimizer"
  | grown _ => "bfir.tape"
  | finished .. => "bfir.executor"
  | loaded | executed _ => "bfir.api"
  | compiled _ | flushFailed .. => "bfir.cli"

/-- The text of a notice, where `ms` is the time in milliseconds. -/
def text (ms : String) : Notice → String
  | compacted before after level =>
    "optimized " ++ before.repr ++ " -> " ++ after.repr ++ " instructions (level " ++
      level.number.repr ++ ")"
  | loaded => "parsed and optimized in " ++ ms ++ " ms"
  | grown g => "tape grown from " ++ g.before.repr ++ " to " ++ g.after.repr ++ " cells"
  | finished steps cursor =>
    "program finished after " ++ steps.repr ++ " steps, cursor at " ++ cursor.repr
  | executed steps => "executed " ++ steps.repr ++ " steps in " ++ ms ++ " ms"
  | compiled path => path ++ ": compiled in " ++ ms ++ " ms"
  | flushFailed path reason => path ++ ": flush after failed run: " ++ reason

/-- The notice on one line, the name of its severity in a column of `width` characters. -/
def line (width : Nat) (ms : String) (n : Notice) : String :=
  Text.alignRight width n.severity.name ++ " " ++ n.origin ++ ": " ++ n.text ms

end Notice

end TapeLang
