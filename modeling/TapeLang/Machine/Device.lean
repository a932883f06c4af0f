/-!
# Streams

A running program talks to two streams: it writes and flushes output, and reads input. A `Device`
says how the streams answer, as functions of a state of their own, so every behaviour of streams,
failing calls included, is a device. Output that cannot be flushed and input that does not exist are
missing functions.

A `Call` is the record of one call and its answer.
-/

namespace TapeLang

/-- The behaviour of two streams with state `σ`. A failing call answers with a reason. -/
structure Device (σ : Type) where
  write : List UInt8 → σ → Except String Unit × σ
  flush? : Option (σ → Except String Unit × σ)
  read? : Option (σ → Except String (List UInt8) × σ)

/-- A stream call and what came of it. -/
inductive Call where
  | wrote (data : List UInt8)
  | writeFailed
  | flushed
  | flushFailed
  | received (data : List UInt8)
  | readFailed
deriving DecidableEq

/-- The bytes that a list of calls has written. -/
def Call.output (calls : List Call) : List UInt8 :=
  calls.flatMap fun
    | .wrote data => data
    | _ => []

end TapeLang
