import TapeLang.Command.Help
import TapeLang.Command.Invocation
import TapeLang.File
import TapeLang.Program.Source
import TapeLang.Tape.Dump

/-!
# The command

The command works on its files in order and stops at the first one that fails. A file is read,
loaded and then either printed in compacted form or run, on a new tape but with the input where the
previous program left it. What goes wrong is told on the error output, along with the notices if
they are asked for.

The work on one file is split where the outside world comes in: `prepare` decides what to do with
what was read, `settle` whether the run ended in a way that is handled, and `conclude` what to say
about it and the flush that followed it. What the standard streams do is a parameter of all the
rest.

No source text has a token of an unknown kind or leads to an unknown instruction. The command would
not handle them.
-/

namespace TapeLang.Command

/-- A piece of the error output: a text of its own lines, or a notice. -/
inductive Message where
  | text (s : String)
  | notice (n : Notice)

/-- The text of a message on the error output. Notices are shown if the command is verbose, with the
time they took in `ms`. -/
def Message.render (verbose : Bool) (ms : String) : Message → String
  | text s => s ++ "\n"
  | notice n => if verbose then n.line 5 ms ++ "\n" else ""

/-- A failure that the command does not handle. -/
inductive Crash where
  /-- A text could not be written. -/
  | unwritten (reason : String)
  /-- The value of an option is needed, and there is none. -/
  | noValue (flag : Flag)
  /-- A path has a NUL character in it. -/
  | nulInPath
  /-- A token of a source text is of no known kind. -/
  | unknownKind (kind : String)
  /-- A program has an unknown instruction. -/
  | unknownInstr (error : UnknownInstr)

/-- The text of a crash. -/
def Crash.message : Crash → String
  | unwritten reason => reason
  | noValue .maxCells => "'<' not supported between instances of 'list' and 'int'"
  | noValue .eof => "[] is not a valid EOFPolicy"
  | noValue _ => "int() argument must be a string, a bytes-like object or a real number, not 'list'"
  | nulInPath => OpenError.nulInPath.description
  | unknownKind kind => Text.quoted kind
  | unknownInstr error => error.message

/-- What to do with a file. -/
inductive Plan where
  /-- Nothing: it cannot be read or loaded. -/
  | reject
  /-- Nothing, and the command is over. -/
  | crash (cause : Crash)
  /-- Print a text. -/
  | print (text : String)
  /-- Run a program. -/
  | run (program : Program)

/-- What to do with the file at `path`, given its content. -/
def prepare (inv : Invocation) (path : String) (content : Except OpenError (List UInt8)) :
    Plan × List Message :=
  let unreadable (why : String) :=
    (Plan.reject, [.text ("Couldn't read file " ++ path ++ ": " ++ why)])
  match content with
  | .error .notFound => (.reject, [.text ("Couldn't find file " ++ path)])
  | .error .nulInPath => (.crash .nulInPath, [])
  | .error e => unreadable (e.message path)
  | .ok bytes =>
    match Text.Encoding.utf8.read bytes with
    | .error e => unreadable e.message
    | .ok source =>
      match Program.parse source, inv.level with
      | .error (.malformed e), _ => (.reject, [.text (path ++ ": " ++ e.message)])
      | .error (.unknownKind kind), _ => (.crash (.unknownKind kind), [])
      | .ok _, none => (.crash (.noValue .level), [])
      | .ok raw, some level =>
        let (program, notices) := raw.ready level
        let notices := (notices ++ [Notice.compiled path]).map Message.notice
        if inv.emit then
          match program.emit with
          | .ok text => (.print (text ++ "\n"), notices)
          | .error e => (.crash (.unknownInstr e), notices)
        else (.run program, notices)

/-- The tape on which each program starts. -/
def freshTape (inv : Invocation) : Tape :=
  Tape.blank (min Tape.defaultInitial.toNat inv.maxCells) inv.maxCells

/-- The notices of a run. -/
def noticesOf {σ : Type} (e : Ending σ) : List Message := e.allNotices.map .notice

/-- The error with which a run ended, if there was one, or a failure that is not handled. -/
def settle {σ : Type} (e : Ending σ) : Except Crash (Option RuntimeError) :=
  match e.failure with
  | none => .ok none
  | some (.fault error) => .ok (some error)
  | some (.unknown error) => .error (.unknownInstr error)

/-- The exit status after a run that ended with `error?` and the flush that followed it, and what
there is to say. -/
def conclude {σ : Type} (inv : Invocation) (path : String) (e : Ending σ)
    (error? : Option RuntimeError) (flushed : Except String Unit) : Nat × List Message :=
  let dump := if inv.dumpTape then [Message.text (e.state.tape.dumpRows Tape.defaultWidth)] else []
  match error?, flushed with
  | none, .ok _ => (0, noticesOf e ++ dump)
  | none, .error why =>
    (1, noticesOf e ++ .text (path ++ ": failed to flush output: " ++ why) :: dump)
  | some error, .ok _ => (1, noticesOf e ++ .text ("\n" ++ path ++ ": " ++ error.message) :: dump)
  | some error, .error why =>
    (1, noticesOf e ++
      .text ("\n" ++ path ++ ": " ++ error.message) :: .notice (.flushFailed path why) :: dump)

/-- How the command ends. -/
inductive Exit where
  | status (code : Nat)
  | crash (cause : Crash)

/-- What the command leaves, on streams with state `σ`: how it ended, the streams and the error
output. -/
structure Report (σ : Type) where
  exit : Exit
  streams : σ
  messages : List Message

section
variable {σ : Type} (std : Stdio σ)

/-- Works on one file; `none` if its program is not over after `fuel` transitions. -/
def runPath (fuel : Nat) (inv : Invocation) (dir : Directory) (path : String) (streams : σ) :
    Option (Report σ) :=
  match prepare inv path (dir.read path) with
  | (.reject, messages) => some ⟨.status 1, streams, messages⟩
  | (.crash cause, messages) => some ⟨.crash cause, streams, messages⟩
  | (.print text, messages) =>
    match std.writeText text streams with
    | (.ok _, streams) => some ⟨.status 0, streams, messages⟩
    | (.error why, streams) => some ⟨.crash (.unwritten why), streams, messages⟩
  | (.run program, messages) => do
    let e ← (Machine.start program (.start (freshTape inv) streams)).run std.device
      ⟨inv.eof, inv.mode⟩ fuel
    match settle e with
    | .error cause => return ⟨.crash cause, e.state.streams, messages ++ noticesOf e⟩
    | .ok error? =>
      let (flushed, streams) := std.flushText e.state.streams
      let (status, more) := conclude inv path e error? flushed
      return ⟨.status status, streams, messages ++ more⟩

/-- Works on files in order, up to the first that fails. -/
def runPaths (fuel : Nat) (inv : Invocation) (dir : Directory) (streams : σ) :
    List String → Option (Report σ)
  | [] => some ⟨.status 0, streams, []⟩
  | path :: rest => do
    let first ← runPath std fuel inv dir path streams
    match first.exit with
    | .status 0 =>
      let others ← runPaths fuel inv dir first.streams rest
      return { others with messages := first.messages ++ others.messages }
    | _ => return first

end

/-- What the command leaves and its error output, with the times in `ms`. -/
structure Result (σ : Type) where
  exit : Exit
  streams : σ
  stderr : String

/-- The command; `none` if one of its programs is not over after `fuel` transitions. -/
def run {σ : Type} (std : Stdio σ) (fuel : Nat) (ms : String) (args : List String)
    (dir : Directory) (streams : σ) : Option (Result σ) :=
  match Invocation.ofArgs args with
  | .error .help =>
    match std.writeText help streams with
    | (.ok _, streams) => some ⟨.status 0, streams, ""⟩
    | (.error why, streams) => some ⟨.crash (.unwritten why), streams, ""⟩
  | .error (.noValue flag) => some ⟨.crash (.noValue flag), streams, ""⟩
  | .error (.usage e) => some ⟨.status 2, streams, usageError e.message⟩
  | .ok inv => do
    let r ← runPaths std fuel inv dir streams inv.files
    return ⟨r.exit, r.streams, String.join (r.messages.map (Message.render inv.verbose ms))⟩

end TapeLang.Command
