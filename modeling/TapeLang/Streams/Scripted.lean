import TapeLang.Machine.Device

/-!
# Scripted streams

Streams in memory that fail on cue: a script names the one write, flush or read, counted from 0,
that fails, and the reason. A read gives the next few bytes of the input, as many as the script
says; a failing read consumes nothing. The output may be one that cannot be flushed, and there may
be no input at all.
-/

namespace TapeLang

/-- A call that fails: its number among the calls of its kind, and the reason. -/
structure Cue where
  call : Int
  reason : String

/-- How scripted streams behave. -/
structure Script where
  writeCue : Option Cue
  flushCue : Option Cue
  readCue : Option Cue
  canFlush : Bool
  hasInput : Bool
  /-- How many bytes a read gives. -/
  chunk : Nat

/-- The state of scripted streams: the calls made so far and the input that is left. -/
structure Scripted where
  writes : Nat
  flushes : Nat
  reads : Nat
  input : List UInt8

namespace Scripted

/-- The streams before the first call. -/
def start (input : List UInt8) : Scripted := ⟨0, 0, 0, input⟩

/-- More input at the end. -/
def feed (s : Scripted) (data : List UInt8) : Scripted := { s with input := s.input ++ data }

/-- The answer to call number `n`. -/
def answer (cue : Option Cue) (n : Nat) : Except String Unit :=
  match cue with
  | some c => if c.call = n then .error c.reason else .ok ()
  | none => .ok ()

/-- The next bytes of the input. -/
def read (script : Script) (s : Scripted) : Except String (List UInt8) × Scripted :=
  match answer script.readCue s.reads with
  | .error reason => (.error reason, { s with reads := s.reads + 1 })
  | .ok _ =>
    (.ok (s.input.take script.chunk),
      { s with reads := s.reads + 1, input := s.input.drop script.chunk })

/-- The device that follows a script. -/
def device (script : Script) : Device Scripted where
  write _ s := (answer script.writeCue s.writes, { s with writes := s.writes + 1 })
  flush? :=
    if script.canFlush then
      some fun s => (answer script.flushCue s.flushes, { s with flushes := s.flushes + 1 })
    else none
  read? := if script.hasInput then some (read script) else none

end Scripted

end TapeLang
