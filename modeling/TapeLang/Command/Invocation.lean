import TapeLang.Command.Word

/-!
# Invocations

What a command line asks for. The words are read from left to right, and the first thing wrong is
reported; asking for help ends the reading there. File names must stand together: the first group of
them counts, and any later one is not recognized. A separator behind the equals sign of an option
leaves the option without a value, which is not noticed before the value is needed.
-/

namespace TapeLang.Command

/-- What is to be done. -/
structure Invocation where
  files : List String
  /-- The level of compacting, if it has a value. -/
  level : Option Int
  /-- The limit of the tape. -/
  maxCells : Nat
  eof : EofPolicy
  mode : OutputMode
  /-- Print the compacted program instead of running it. -/
  emit : Bool
  dumpTape : Bool
  verbose : Bool

/-- Why there is nothing to be done. -/
inductive Refusal where
  | help
  | usage (error : UsageError)
  /-- An option has no value. -/
  | noValue (flag : Flag)

/-- A command line that has been read in part. -/
structure Reading where
  files : Option (List String)
  level : Option Int
  maxCells : Option Int
  eof : Option EofPolicy
  unicode : Bool
  emit : Bool
  dumpTape : Bool
  verbose : Bool
  /-- The file names of the group that is being read. -/
  group : Array Word
  /-- The words that are not recognized. -/
  extras : Array String

namespace Reading

/-- Nothing read yet. -/
def start : Reading where
  files := none
  level := some Level.default
  maxCells := some Tape.defaultLimit
  eof := some .zero
  unicode := false
  emit := false
  dumpTape := false
  verbose := false
  group := #[]
  extras := #[]

/-- The end of a group of file names. The first group with a file name in it counts, without its
separator. -/
def closeGroup (r : Reading) : Reading :=
  let words := r.group.toList
  let isOperand : Word → Bool := fun
    | .operand _ => true
    | _ => false
  if r.files.isNone && words.any isOperand then
    { r with files := some ((words.map Word.text).erase "--"), group := #[] }
  else { r with extras := r.extras ++ words.map Word.text, group := #[] }

/-- One more word of a group of file names. -/
def addToGroup (r : Reading) (w : Word) : Reading := { r with group := r.group.push w }

/-- An option without value. -/
def setFlag (r : Reading) : Flag → Except Refusal Reading
  | .help => .error .help
  | .unicode => .ok { r with unicode := true }
  | .emit => .ok { r with emit := true }
  | .dumpTape => .ok { r with dumpTape := true }
  | .verbose => .ok { r with verbose := true }
  | .level => .ok { r with level := none }
  | .maxCells => .ok { r with maxCells := none }
  | .eof => .ok { r with eof := none }

/-- An option with its value. -/
def setValue (r : Reading) (f : Flag) (value : String) : Except Refusal Reading :=
  match f with
  | .eof =>
    match EofPolicy.named.lookup value with
    | some policy => .ok { r with eof := some policy }
    | none => .error (.usage (.invalidChoice f value (EofPolicy.named.map Prod.fst)))
  | f =>
    match Text.integer? value with
    | none => .error (.usage (.invalidInteger f value))
    | some n =>
      .ok (if f = .level then { r with level := some n } else { r with maxCells := some n })

/-- Options of one letter that are joined in a word: those behind the first one, `f`. -/
def joined (f : Flag) (letters : List Char) : Except Refusal (List Flag) :=
  match letters with
  | [] => .ok [f]
  | c :: rest =>
    match spellings.lookup (String.ofList ['-', c]) with
    | some g => (joined g rest).map (f :: ·)
    | none => .error (.usage (.unwantedValue f (String.ofList letters)))

/-- An option with a value in the same word. What follows an option of one letter that has no value
are more such options. -/
def setInWord (r : Reading) (f : Flag) (spelling value : String) : Except Refusal Reading :=
  if f.hasValue then if value = "--" then r.setFlag f else r.setValue f value
  else if spelling.startsWith "--" || value.isEmpty then .error (.usage (.unwantedValue f value))
  else do (← joined f value.toList).foldlM setFlag r

/-- Reads the words that are left. -/
def readAll (r : Reading) : List Word → Except Refusal Reading
  | [] => .ok r.closeGroup
  | .option f spelling (some value) :: rest => do
    (← r.closeGroup.setInWord f spelling value).readAll rest
  | .option f _ none :: rest =>
    if f.hasValue then
      match rest with
      | .operand value :: rest => do (← r.closeGroup.setValue f value).readAll rest
      | _ => .error (.usage (.missingValue f))
    else do (← r.closeGroup.setFlag f).readAll rest
  | .unknown text :: rest =>
    let r := r.closeGroup
    { r with extras := r.extras.push text }.readAll rest
  | w :: rest => (r.addToGroup w).readAll rest

/-- What the words ask for, once all are read. The limit of the tape is looked at before the
end-of-input policy. -/
def finish (r : Reading) : Except Refusal Invocation := do
  let some files := r.files | throw (.usage .missingFiles)
  if !r.extras.isEmpty then throw (.usage (.unrecognized r.extras.toList))
  let some maxCells := r.maxCells | throw (.noValue .maxCells)
  if maxCells < 1 then throw (.usage .tooFewCells)
  let some eof := r.eof | throw (.noValue .eof)
  return {
    files
    level := r.level
    maxCells := maxCells.toNat
    eof
    mode := if r.unicode then .utf8 else .byte
    emit := r.emit
    dumpTape := r.dumpTape
    verbose := r.verbose }

end Reading

/-- What a command line asks for. -/
def Invocation.ofArgs (args : List String) : Except Refusal Invocation := do
  let words ← (classifyAll args).mapError .usage
  (← Reading.start.readAll words).finish

end TapeLang.Command
