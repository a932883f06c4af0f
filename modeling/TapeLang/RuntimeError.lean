import TapeLang.Instr

/-!
# Run-time errors

A `Fault` is the cause of a failed action: where the cursor tried to go, or what the streams said. A
`RuntimeError` is the report on it, with the kind and place of the instruction that failed, as far
as they are known. The first location given is kept.

A cause is not yet what a caller gets to see. The text of the report is written when the report is
made, and if it has a number that is too long to be written, then a complaint about that number is
raised in place of the report. `Raised` is what comes out in the end.
-/

namespace TapeLang

/-- Why an action of a run fails. -/
inductive Fault where
  /-- The cursor was to move left of the first cell. -/
  | underflow (target : Int)
  /-- The cursor was to move beyond the last cell that the tape may have. -/
  | outOfMemory (target limit : Nat)
  | writeFailed (reason : String)
  | flushFailed (reason : String)
  | readFailed (reason : String)
  | inputExhausted
deriving DecidableEq

/-- The families of run-time errors. -/
inductive RuntimeError.Category where
  | general
  | underflow
  | outOfMemory
  | stream
  | inputExhausted
deriving DecidableEq

/-- A run-time error. -/
structure RuntimeError where
  category : RuntimeError.Category
  text : String
  /-- The numbers that the text shows. -/
  numbers : List Int
  /-- The kind of the failing instruction. -/
  kind : Option String
  /-- The place of the failing symbol. -/
  position : Option Position
deriving DecidableEq

namespace RuntimeError

/-- The name of a family, as messages give it. -/
def Category.name : Category → String
  | .general => "BFRuntimeError"
  | .underflow => "PointerUnderflow"
  | .outOfMemory => "OutOfMemory"
  | .stream => "BFIOError"
  | .inputExhausted => "InputExhausted"

/-- The family that a family belongs to: exhausted input is a stream error, and all are run-time
errors in general. -/
def Category.parent? : Category → Option Category
  | .general => none
  | .inputExhausted => some .stream
  | _ => some .general

/-- Fills in the location as far as it is missing. -/
def locate (e : RuntimeError) (kind : String) (position : Option Position) : RuntimeError where
  category := e.category
  text := e.text
  numbers := e.numbers
  kind := e.kind.or kind
  position := e.position.or position

/-- The parts of the location that are known. -/
def location (e : RuntimeError) : List String :=
  (e.kind.map ("in " ++ ·)).toList ++
    (e.position.map fun p =>
      "at line " ++ Text.decimal p.line ++ " col " ++ Text.decimal p.col).toList

/-- The error as it is printed. -/
def message (e : RuntimeError) : String :=
  e.category.name ++ ": " ++ e.text ++
    if e.location.isEmpty then "" else " (" ++ " ".intercalate e.location ++ ")"

end RuntimeError

namespace Fault

/-- The family of a fault. -/
def category : Fault → RuntimeError.Category
  | underflow _ => .underflow
  | outOfMemory .. => .outOfMemory
  | writeFailed _ | flushFailed _ | readFailed _ => .stream
  | inputExhausted => .inputExhausted

/-- The text of a fault. -/
def text : Fault → String
  | underflow target =>
    "pointer moved to " ++ Text.decimal target ++ ", left of cell 0 (tape is not cyclic)"
  | outOfMemory target limit =>
    "pointer moved to " ++ target.repr ++ ", tape is limited to " ++ limit.repr ++ " cells"
  | writeFailed reason => "failed to write output: " ++ reason
  | flushFailed reason => "failed to flush output: " ++ reason
  | readFailed reason => "failed to read input: " ++ reason
  | inputExhausted => "end of input reached"

/-- The numbers in the text of a fault. -/
def numbers : Fault → List Int
  | underflow target => [target]
  | outOfMemory target limit => [target, limit]
  | writeFailed _ | flushFailed _ | readFailed _ | inputExhausted => []

/-- The report on a fault, not located. -/
def report (f : Fault) : RuntimeError := ⟨f.category, f.text, f.numbers, none, none⟩

end Fault

/-! ### What is raised -/

/-- What comes out of a failure. -/
inductive Raised where
  | error (error : RuntimeError)
  | unknown (error : UnknownInstr)
  /-- A number in the text of the failure is too long to be written. -/
  | tooLong
deriving DecidableEq

/-- The error, if its numbers can be written. -/
def RuntimeError.raised (e : RuntimeError) : Raised :=
  if e.numbers.all Text.isWritable then .error e else .tooLong

/-- The complaint about an unknown instruction, if its number can be written. -/
def UnknownInstr.raised (e : UnknownInstr) : Raised :=
  if Text.isWritable e.code then .unknown e else .tooLong

/-- What comes out of a fault that is not located. -/
def Fault.raised (f : Fault) : Raised := f.report.raised

/-- The family of the run-time error that comes out, if it is one. -/
def Raised.category? : Raised → Option RuntimeError.Category
  | error e => some e.category
  | unknown _ | tooLong => none

theorem RuntimeError.raised_of_writable {e : RuntimeError}
    (h : ∀ n ∈ e.numbers, Text.isWritable n = true) : e.raised = .error e :=
  if_pos (List.all_eq_true.2 h)

theorem RuntimeError.raised_of_tooLong {e : RuntimeError} {n : Int} (hn : n ∈ e.numbers)
    (h : Text.isWritable n = false) : e.raised = .tooLong := by
  refine if_neg fun hall => ?_
  rw [List.all_eq_true.1 hall n hn] at h
  cases h

end TapeLang
