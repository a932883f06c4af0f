import TapeLang.Machine.Step
import TapeLang.Notice
import TapeLang.Program.OfTokens
import TapeLang.Streams.Console
import TapeLang.Text.Quoted

/-!
# Loading and running programs

From source text to the result of a run. What may be wrong is found out in order: first the source
is read, then the tape is made, then the settings are looked up by their names, and only then
anything is run. Along with its result each activity gives its notices, also where it fails.
-/

namespace TapeLang

/-- What is asked for in a run. The settings are given by name. -/
structure Options where
  level : Int
  initial : Int
  limit : Int
  eof : String
  mode : String

/-- What a run is like where nothing else is asked for. -/
def Options.default : Options :=
  ⟨Level.default, Tape.defaultInitial, Tape.defaultLimit, "zero", "byte"⟩

/-- Why a run cannot be set up. -/
inductive SetupError where
  | size (error : Tape.SizeError)
  | eofPolicy (name : String)
  | outputMode (name : String)
deriving DecidableEq

/-- The text of a setup error. -/
def SetupError.message : SetupError → String
  | size e => e.message
  | eofPolicy name => Text.quoted name ++ " is not a valid EOFPolicy"
  | outputMode name => Text.quoted name ++ " is not a valid OutputMode"

/-- The end-of-input policies by name. -/
def EofPolicy.named : List (String × EofPolicy) :=
  [("zero", .zero), ("unchanged", .unchanged), ("error", .error)]

/-- The output modes by name. -/
def OutputMode.named : List (String × OutputMode) := [("byte", .byte), ("utf8", .utf8)]

/-- The settings with the given names. -/
def Settings.ofNames (eof mode : String) : Except SetupError Settings :=
  match EofPolicy.named.lookup eof with
  | none => .error (.eofPolicy eof)
  | some policy =>
    match OutputMode.named.lookup mode with
    | none => .error (.outputMode mode)
    | some mode => .ok ⟨policy, mode⟩

/-- The tape and the settings of a run. -/
def Options.setup (o : Options) : Except SetupError (Tape × Settings) := do
  let tape ← (Tape.make o.initial o.limit).mapError .size
  return (tape, ← Settings.ofNames o.eof o.mode)

/-! ### Loading -/

/-- The notice on compacting `p` to `q`. -/
def Notice.ofCompact (level : Int) (p q : Program) : Notice :=
  .compacted p.size q.size (.ofInt level)

/-- Compacts a program that was just read. -/
def Program.ready (level : Int) (raw : Program) : Program × List Notice :=
  let program := raw.compact level
  (program, [.ofCompact level raw program, .loaded])

/-- Reads and compacts a program. -/
def Program.load (level : Int) (source : String) : Except ParseError (Program × List Notice) :=
  (Program.parse source).map (Program.ready level)

/-! ### Running -/

/-- The notices of a run that came to this ending. -/
def Ending.notices {σ : Type} (e : Ending σ) : List Notice :=
  (e.state.growths.map Notice.grown).toList ++
    match e.failure with
    | none => [.finished e.state.steps e.state.tape.cursor]
    | some _ => []

/-- The notices of a run that came to this ending, up to the one that it is over. -/
def Ending.allNotices {σ : Type} (e : Ending σ) : List Notice :=
  e.notices ++ [.executed e.state.steps]

/-- Why a source text has no result. -/
inductive RunError where
  | parse (error : ParseError)
  | setup (error : SetupError)
  | failure (failure : Failure)

/-- What a successful run leaves. -/
structure RunResult where
  output : List UInt8
  cells : List Cell
  cursor : Nat
  steps : Nat

/-- The result of a run on a console that came to this ending. -/
def Ending.result (e : Ending Console) : Except RunError RunResult :=
  match e.failure with
  | some f => .error (.failure f)
  | none =>
    .ok ⟨e.state.streams.output, e.state.tape.snapshot none, e.state.tape.cursor, e.state.steps⟩

/-- Loads a source text and runs it on the given input, with at most `fuel` transitions; `none` if
the run is not over then. -/
def runSource (fuel : Nat) (o : Options) (source : String) (input : List UInt8) :
    Option (Except RunError RunResult × List Notice) :=
  match Program.load o.level source with
  | .error e => some (.error (.parse e), [])
  | .ok (program, notices) =>
    match o.setup with
    | .error e => some (.error (.setup e), notices)
    | .ok (tape, cfg) =>
      let machine := Machine.start program (.start tape (.ofInput input))
      (machine.run Console.device cfg fuel).map fun e => (e.result, notices ++ e.allNotices)

end TapeLang
