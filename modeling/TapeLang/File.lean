import TapeLang.Run
import TapeLang.Text.Encoding

/-!
# Files

A directory of files, as far as a command can see it, and what comes of opening a path in it. A path
is walked name by name: empty names and `.` stay where they are, `..` goes back, a file has nothing
below it, and only a file can be read. Outside the working directory there are only the directories
that lead to it, and they are not known by name.
-/

namespace TapeLang

/-- What a path leads to. -/
inductive Entry where
  | file (content : List UInt8)
  | directory

/-- The working directory: its files and directories by their path, name by name. The directories on
the way to an entry exist without being listed. -/
structure Directory where
  entries : List (List String × Entry)

/-- Why a file cannot be opened. -/
inductive OpenError where
  | notFound
  | isDirectory
  | notDirectory
  | nameTooLong
  /-- The path has a NUL character in it, which no path can have. -/
  | nulInPath
  /-- Any other reason that the system gives. -/
  | other (reason : String)
deriving DecidableEq

/-- The number, if there is one, and the text of an error. -/
def OpenError.description : OpenError → String
  | notFound => "[Errno 2] No such file or directory"
  | isDirectory => "[Errno 21] Is a directory"
  | notDirectory => "[Errno 20] Not a directory"
  | nameTooLong => "[Errno 36] File name too long"
  | nulInPath => "embedded null byte"
  | other reason => reason

/-- The text of an error about a path. -/
def OpenError.message (path : String) (e : OpenError) : String :=
  if e = nulInPath then e.description else e.description ++ ": " ++ Text.quoted path

/-- The number of bytes a name may have. -/
def maxNameLength : Nat := 255

/-- The number of bytes a path may have. -/
def maxPathLength : Nat := 4095

/-- The names on a path. -/
def namesOf (path : String) : List String := (path.toList.splitOn '/').map String.ofList

namespace Directory

/-- The entry with the given names. -/
def entry? (d : Directory) (names : List String) : Option Entry :=
  match d.entries.lookup names with
  | some e => some e
  | none => if d.entries.any fun (p, _) => names.isPrefixOf p then some .directory else none

/-- Walks along names from the directory `here`, or from outside the working directory. -/
def walk (d : Directory) (here : Option (List String)) :
    List String → Except OpenError (List UInt8)
  | [] => .error .isDirectory
  | name :: rest =>
    if name = "" ∨ name = "." then d.walk here rest
    else if name = ".." then
      d.walk (here.bind fun names => if names = [] then none else some names.dropLast) rest
    else if maxNameLength < name.utf8ByteSize then .error .nameTooLong
    else
      match here with
      | none => .error .notFound
      | some names =>
        match d.entry? (names ++ [name]) with
        | none => .error .notFound
        | some .directory => d.walk (some (names ++ [name])) rest
        | some (.file content) => if rest = [] then .ok content else .error .notDirectory

/-- The content of the file at a path. Nothing is found at the empty path. -/
def read (d : Directory) (path : String) : Except OpenError (List UInt8) :=
  if path.toList.contains '\x00' then .error .nulInPath
  else if path.isEmpty then .error .notFound
  else if maxPathLength < path.utf8ByteSize then .error .nameTooLong
  else d.walk (if path.startsWith "/" then none else some []) (namesOf path)

end Directory

/-- The slashes that a path starts with once it is tidied: two stay two, more are one. -/
def rootOf (path : String) : String :=
  if path.startsWith "//" && !path.startsWith "///" then "//"
  else if path.startsWith "/" then "/"
  else ""

/-- A path without the names that lead nowhere. -/
def tidyPath (path : String) : String :=
  let names := (namesOf path).filter fun n => n ≠ "" && n ≠ "."
  let tidied := rootOf path ++ "/".intercalate names
  if tidied.isEmpty then "." else tidied

/-- Why a file has no result. -/
inductive FileError where
  | cannotOpen (path : String) (error : OpenError)
  | decode (error : Text.DecodeError)
  | run (error : RunError)

/-- Reads the file at a path as text. -/
def Directory.readText (d : Directory) (encoding : Text.Encoding) (path : String) :
    Except FileError String :=
  match d.read path with
  | .error e => .error (.cannotOpen path e)
  | .ok bytes => (encoding.read bytes).mapError .decode

/-- Loads the source in a file and runs it on the given input, with at most `fuel` transitions. -/
def runFile (fuel : Nat) (o : Options) (d : Directory) (encoding : Text.Encoding) (path : String)
    (input : List UInt8) : Option (Except FileError RunResult × List Notice) :=
  match d.readText encoding (tidyPath path) with
  | .error e => some (.error e, [])
  | .ok source => (runSource fuel o source input).map fun (r, notices) => (r.mapError .run, notices)

end TapeLang
