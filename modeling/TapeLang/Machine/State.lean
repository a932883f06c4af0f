import TapeLang.Instr
import TapeLang.Machine.Device
import TapeLang.Tape.Basic
import TapeLang.Text.Utf8

/-!
# Actions

The state of a run is the tape, the state of the streams, the record of the stream calls, and two
counts: the steps taken and the growths of the tape. `Instr.act` is what an instruction other than a
loop does to it. A failing action reports the fault together with the state it leaves: stream calls
have been made, but the tape is as before.
-/

namespace TapeLang

/-- What an input instruction does at the end of the input. -/
inductive EofPolicy where
  /-- Stores zero. -/
  | zero
  /-- Leaves the cell as it is. -/
  | unchanged
  /-- Fails. -/
  | error
deriving DecidableEq

/-- How an output instruction turns a cell into bytes. -/
inductive OutputMode where
  /-- The lowest eight bits. -/
  | byte
  /-- The cell as a code point in UTF-8, a blank if it is no scalar value. -/
  | utf8
deriving DecidableEq

/-- How a program is run. -/
structure Settings where
  eof : EofPolicy
  mode : OutputMode
deriving DecidableEq

/-- The state of a run, on streams with state `σ`. -/
structure State (σ : Type) where
  tape : Tape
  streams : σ
  calls : Array Call
  steps : Nat
  growths : Array Growth

/-- Why a run ends early. -/
inductive Failure where
  | fault (error : RuntimeError)
  | unknown (error : UnknownInstr)
deriving DecidableEq

/-- What a failing run raises. -/
def Failure.raised : Failure → Raised
  | fault e => e.raised
  | unknown e => e.raised

/-- The bytes printed for a cell. -/
def OutputMode.bytes : OutputMode → Cell → List UInt8
  | .byte, c => [UInt8.ofNat c.toNat]
  | .utf8, c => Utf8.encodeOrBlank c.toNat

namespace State

variable {σ : Type}

/-- The state before a run. -/
def start (tape : Tape) (streams : σ) : State σ := ⟨tape, streams, #[], 0, #[]⟩

/-- The state after one more step. -/
def tick (s : State σ) : State σ := { s with steps := s.steps + 1 }

/-- The state after a stream call. -/
def record (s : State σ) (call : Call) (streams : σ) : State σ :=
  { s with streams, calls := s.calls.push call }

/-- Moves the cursor and notes whether the tape has grown. -/
def move (s : State σ) (d : Int) : Option Fault × State σ :=
  match s.tape.move d with
  | .ok t => (none, { s with tape := t, growths := s.growths ++ (s.tape.growth? t).toArray })
  | .error f => (some f, s)

/-- Writes bytes. -/
def write (dev : Device σ) (data : List UInt8) (s : State σ) : Option Fault × State σ :=
  match dev.write data s.streams with
  | (.ok _, t) => (none, s.record (.wrote data) t)
  | (.error reason, t) => (some (.writeFailed reason), s.record .writeFailed t)

/-- Flushes the output, if it can be flushed. -/
def flush (dev : Device σ) (s : State σ) : Option Fault × State σ :=
  match dev.flush? with
  | none => (none, s)
  | some flush =>
    match flush s.streams with
    | (.ok _, t) => (none, s.record .flushed t)
    | (.error reason, t) => (some (.flushFailed reason), s.record .flushFailed t)

/-- What is done when there is no input left. -/
def endOfInput (policy : EofPolicy) (s : State σ) : Option Fault × State σ :=
  match policy with
  | .zero => (none, { s with tape := s.tape.write 0 })
  | .unchanged => (none, s)
  | .error => (some .inputExhausted, s)

/-- Reads from the input and stores the first byte of what it gets. -/
def read (dev : Device σ) (policy : EofPolicy) (s : State σ) : Option Fault × State σ :=
  match dev.read? with
  | none => s.endOfInput policy
  | some read =>
    match read s.streams with
    | (.error reason, t) => (some (.readFailed reason), s.record .readFailed t)
    | (.ok [], t) => (s.record (.received []) t).endOfInput policy
    | (.ok (b :: data), t) =>
      let s := s.record (.received (b :: data)) t
      (none, { s with tape := s.tape.write b.toNat })

/-- Flushes the output, so that a prompt is seen, and then reads. -/
def input (dev : Device σ) (policy : EofPolicy) (s : State σ) : Option Fault × State σ :=
  match s.flush dev with
  | (none, s) => s.read dev policy
  | failed => failed

end State

namespace Instr

variable {σ : Type}

/-- The place of the symbol at which a failing instruction fails. A failed move leaves the cursor
where it was, so the step that crosses the end of the tape can be worked out from it. -/
def faultPosition (i : Instr) (t : Tape) : Option Position :=
  match i with
  | moveLeft .. => i.positionAt t.cursor
  | moveRight .. => i.positionAt ((t.limit : Int) - t.cursor - 1)
  | i => i.pos

/-- What an instruction does, loops apart, before faults are located. -/
def attempt (dev : Device σ) (cfg : Settings) (i : Instr) (s : State σ) : Option Fault × State σ :=
  match i with
  | add d _ => (none, { s with tape := s.tape.change d })
  | sub d _ => (none, { s with tape := s.tape.change (-d) })
  | moveRight n _ _ => s.move n
  | moveLeft n _ _ => s.move (-n)
  | set v _ => (none, { s with tape := s.tape.write v })
  | output _ => s.write dev (cfg.mode.bytes s.tape.read)
  | input _ => s.input dev cfg.eof
  | loop .. | unknown _ => (none, s)

/-- What an instruction does, loops apart: a fault is located at the instruction, and an unknown
instruction is refused. -/
def act (dev : Device σ) (cfg : Settings) (i : Instr) (s : State σ) : Option Failure × State σ :=
  match i with
  | unknown n => (some (.unknown ⟨n⟩), s)
  | i =>
    match i.attempt dev cfg s with
    | (none, s) => (none, s)
    | (some f, s) => (some (.fault (f.report.locate i.kindName (i.faultPosition s.tape))), s)

end Instr

end TapeLang
