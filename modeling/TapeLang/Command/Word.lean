import TapeLang.Run
import TapeLang.Text.Integer

/-!
# Command-line words

The options of the command and how a word on the command line is told from a file name. An option
may be shortened to any beginning that fits only one, and carry its value behind an equals sign. A
word that starts with a dash and is no option is still a file name if it is a lone dash, a negative
number, or has a blank in it.
-/

namespace TapeLang.Command

/-- The options. -/
inductive Flag where
  | help
  | level
  | maxCells
  | eof
  | unicode
  | emit
  | dumpTape
  | verbose
deriving DecidableEq

/-- The spellings of the options, in the order in which they are listed. -/
def spellings : List (String × Flag) :=
  [("-h", .help), ("--help", .help), ("--level", .level), ("--max-cells", .maxCells),
    ("--eof", .eof), ("--unicode", .unicode), ("--emit", .emit), ("--dump-tape", .dumpTape),
    ("-v", .verbose), ("--verbose", .verbose)]

/-- Whether an option has a value. -/
def Flag.hasValue : Flag → Bool
  | level | maxCells | eof => true
  | _ => false

/-- The name of an option in messages: all its spellings. -/
def Flag.name (f : Flag) : String :=
  "/".intercalate ((spellings.filter fun (_, g) => g = f).map Prod.fst)

/-- What is wrong with a command line. -/
inductive UsageError where
  | ambiguous (word : String) (candidates : List String)
  | missingValue (flag : Flag)
  | unwantedValue (flag : Flag) (value : String)
  | invalidInteger (flag : Flag) (value : String)
  | invalidChoice (flag : Flag) (value : String) (choices : List String)
  | missingFiles
  | unrecognized (words : List String)
  | tooFewCells

/-- The text of a usage error. -/
def UsageError.message : UsageError → String
  | ambiguous word candidates =>
    "ambiguous option: " ++ word ++ " could match " ++ ", ".intercalate candidates
  | missingValue f => "argument " ++ f.name ++ ": expected one argument"
  | unwantedValue f value =>
    "argument " ++ f.name ++ ": ignored explicit argument " ++ Text.quoted value
  | invalidInteger f value => "argument " ++ f.name ++ ": invalid int value: " ++ Text.quoted value
  | invalidChoice f value choices =>
    "argument " ++ f.name ++ ": invalid choice: " ++ Text.quoted value ++ " (choose from " ++
      ", ".intercalate (choices.map Text.quoted) ++ ")"
  | missingFiles => "the following arguments are required: FILE"
  | unrecognized words => "unrecognized arguments: " ++ " ".intercalate words
  | tooFewCells => "--max-cells must be at least 1"

/-- What a word on the command line is. -/
inductive Word where
  /-- A file name, or the value of the option in front of it. -/
  | operand (text : String)
  /-- The first `--`, behind which everything is a file name. -/
  | separator
  /-- An option, with the spelling it was recognized by and the value given in the same word. -/
  | option (flag : Flag) (spelling : String) (value : Option String)
  /-- What looks like an option and is none. -/
  | unknown (text : String)

/-- The word as it was written, for words that are no option. -/
def Word.text : Word → String
  | operand t | unknown t => t
  | separator => "--"
  | option _ spelling _ => spelling

/-- Splits a word at its first equals sign. -/
def splitValue? (word : List Char) : Option (String × String) :=
  if word.contains '=' then
    some (String.ofList (word.takeWhile (· ≠ '=')),
      String.ofList ((word.dropWhile (· ≠ '=')).drop 1))
  else none

/-- Whether a word is a negative number: a dash and digits, with a point in front of some of the
digits if one likes. One line feed at the end does not count. -/
def isNegativeNumber (word : List Char) : Bool :=
  let isDigit (c : Char) : Bool := (Text.digitValue? c).isSome
  let isNumber (s : List Char) : Bool :=
    let fraction := s.dropWhile isDigit
    (fraction.isEmpty && !s.isEmpty) ||
      (fraction.head? == some '.' && !(fraction.drop 1).isEmpty && (fraction.drop 1).all isDigit)
  match word with
  | '-' :: s => isNumber s || (s.getLast? == some '\n' && isNumber s.dropLast)
  | _ => false

/-- The options that a word can be short for, with the value it carries. -/
def candidates (word : List Char) : List (Flag × String × Option String) :=
  match word with
  | '-' :: '-' :: _ =>
    let (start, value) :=
      match splitValue? word with
      | some (start, value) => (start, some value)
      | none => (String.ofList word, none)
    (spellings.filter fun (s, _) => start.toList.isPrefixOf s.toList).map fun (s, f) =>
      (f, s, value)
  | dash :: letter :: rest =>
    spellings.filterMap fun (s, f) =>
      if s.toList = [dash, letter] then some (f, s, some (String.ofList rest))
      else if word.isPrefixOf s.toList then some (f, s, none)
      else none
  | _ => []

/-- What a word in front of the separator is. -/
def classify (word : String) : Except UsageError Word :=
  let chars := word.toList
  if chars.head? ≠ some '-' then .ok (.operand word)
  else
    match spellings.lookup word with
    | some f => .ok (.option f word none)
    | none =>
      if chars.length = 1 then .ok (.operand word)
      else
        let written := splitValue? chars
        match written.bind fun (s, v) => (spellings.lookup s).map fun f => (f, s, v) with
        | some (f, s, v) => .ok (.option f s (some v))
        | none =>
          match candidates chars with
          | [(f, s, v)] => .ok (.option f s v)
          | [] =>
            if isNegativeNumber chars || chars.contains ' ' then .ok (.operand word)
            else .ok (.unknown word)
          | several => .error (.ambiguous word (several.map fun (_, s, _) => s))

/-- What the words of a command line are. -/
def classifyAll : List String → Except UsageError (List Word)
  | [] => .ok []
  | "--" :: rest => .ok (.separator :: rest.map .operand)
  | word :: rest => do return (← classify word) :: (← classifyAll rest)

end TapeLang.Command
