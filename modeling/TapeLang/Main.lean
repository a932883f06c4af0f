import TapeLang.Command.Run
import TapeLang.Streams.Prepared

/-!
# The command line

The outer layer of the command: it reads the files and the console, passes what it finds to the pure
part, and prints what comes back.
-/

namespace TapeLang.Command

/-- The reason why a call to the outside failed. -/
def reasonOf (e : IO.Error) : String := toString e

/-- An outside call as an answer. -/
def answerOf {α : Type} (call : IO α) : IO (Except String α) := do
  match ← call.toBaseIO with
  | .ok a => return .ok a
  | .error e => return .error (reasonOf e)

/-- The content of a file. -/
def contentOf (path : String) : IO (Except OpenError (List UInt8)) := do
  match ← (IO.FS.withFile path .read fun h => h.readBinToEnd).toBaseIO with
  | .ok data => return .ok data.toList
  | .error (.noFileOrDirectory ..) => return .error .notFound
  | .error (.inappropriateType _ 21 _) => return .error .isDirectory
  | .error (.inappropriateType _ 20 _) => return .error .notDirectory
  | .error e => return .error (.other (reasonOf e))

/-- A time in milliseconds, to two places. -/
def milliseconds (nanoseconds : Nat) : String :=
  let hundredths := (nanoseconds + 5000) / 10000
  let part := hundredths % 100
  (hundredths / 100).repr ++ "." ++ (if part < 10 then "0" else "") ++ part.repr

/-- The standard input and output. -/
structure Terminal where
  input : IO.FS.Stream
  output : IO.FS.Stream

/-- The answers to a request, from the terminal. -/
def Terminal.answer (t : Terminal) : Request → IO Answers
  | .none => return .unasked
  | .write data => do
    return { Answers.unasked with write := ← answerOf (t.output.write ⟨data.toArray⟩) }
  | .flush => do
    return { Answers.unasked with flush := ← answerOf t.output.flush }
  | .input => do
    match ← answerOf t.output.flush with
    | .error why => return { Answers.unasked with flush := .error why }
    | .ok _ =>
      return { Answers.unasked with read := (← answerOf (t.input.read 1)).map ByteArray.toList }

/-- Runs a machine on the terminal. -/
partial def Terminal.run (t : Terminal) (cfg : Settings) (m : Machine Answers) :
    IO (Ending Answers) := do
  match (m.withAnswers (← t.answer (m.request cfg))).step Answers.device cfg with
  | .running m => t.run cfg m
  | .ended e => return e

/-- Prints messages on the error output. -/
def tell (inv : Invocation) (started : Nat) (messages : List Message) : IO Unit := do
  let ms := milliseconds ((← IO.monoNanosNow) - started)
  for m in messages do
    IO.eprint (m.render inv.verbose ms)

/-- Works on one file and gives the exit status. -/
def Terminal.runPath (t : Terminal) (inv : Invocation) (path : String) : IO Nat := do
  let content ← contentOf path
  let started ← IO.monoNanosNow
  let (plan, messages) := prepare inv path content
  tell inv started messages
  match plan with
  | .reject => return 1
  | .crash cause => throw (IO.userError cause.message)
  | .print text =>
    t.output.putStr text
    return 0
  | .run program =>
    let started ← IO.monoNanosNow
    let e ← t.run ⟨inv.eof, inv.mode⟩ (Machine.start program (.start (freshTape inv) .unasked))
    match settle e with
    | .error cause =>
      tell inv started (noticesOf e)
      throw (IO.userError cause.message)
    | .ok error? =>
      let (status, messages) := conclude inv path e error? (← answerOf t.output.flush)
      tell inv started messages
      return status

/-- Works on files in order, up to the first that fails. -/
def Terminal.runPaths (t : Terminal) (inv : Invocation) : List String → IO Nat
  | [] => return 0
  | path :: rest => do
    match ← t.runPath inv path with
    | 0 => t.runPaths inv rest
    | status => return status

end TapeLang.Command

open TapeLang.Command in
/-- The command. -/
def main (args : List String) : IO UInt32 := do
  match Invocation.ofArgs args with
  | .error .help =>
    IO.print help
    return 0
  | .error (.usage e) =>
    IO.eprint (usageError e.message)
    return 2
  | .error (.noValue flag) => throw (IO.userError (Crash.noValue flag).message)
  | .ok inv =>
    let terminal : Terminal := ⟨← IO.getStdin, ← IO.getStdout⟩
    return UInt32.ofNat (← terminal.runPaths inv inv.files)
