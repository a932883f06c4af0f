/-!
# UTF-8

`Utf8.encode` writes a Unicode scalar value in one to four bytes, `Utf8.decode` reads a byte
sequence strictly: no overlong forms, no surrogates, nothing above the last scalar value, nothing
cut off. A fault is described by the range of bytes at fault: a byte that can start no sequence, the
bytes before one that cannot continue theirs, or the bytes of a sequence that the input ends in.
-/

namespace TapeLang.Utf8

/-- Whether a number is a Unicode scalar value. -/
def isScalar (n : Nat) : Bool := n < 0xD800 || (0xDFFF < n && n ≤ 0x10FFFF)

/-- The continuation byte with the lowest six bits of `n`. -/
def continuation (n : Nat) : UInt8 := UInt8.ofNat (0x80 + n % 0x40)

/-- The bytes of a scalar value. -/
def encode (n : Nat) : List UInt8 :=
  if n < 0x80 then [UInt8.ofNat n]
  else if n < 0x800 then [UInt8.ofNat (0xC0 + n / 0x40), continuation n]
  else if n < 0x10000 then
    [UInt8.ofNat (0xE0 + n / 0x1000), continuation (n / 0x40), continuation n]
  else
    [UInt8.ofNat (0xF0 + n / 0x40000), continuation (n / 0x1000), continuation (n / 0x40),
      continuation n]

/-- What is printed for a number: its bytes if it is a scalar value, and a blank otherwise. -/
def encodeOrBlank (n : Nat) : List UInt8 := if isScalar n then encode n else [0x20]

/-! ### Decoding -/

/-- What is wrong with a byte sequence. -/
inductive Reason where
  | invalidStart
  | invalidContinuation
  | unexpectedEnd
deriving DecidableEq

/-- A fault in a byte sequence: what is wrong, and the first and last byte at fault. -/
structure Error where
  reason : Reason
  first : Nat
  last : Nat
deriving DecidableEq

/-- A sequence of several bytes that is not complete yet. -/
structure Partial where
  /-- Where it starts. -/
  first : Nat
  /-- How many bytes are to come. -/
  missing : Nat
  /-- The range of the next one. -/
  low : UInt8
  high : UInt8
  /-- The bits so far. -/
  value : Nat

/-- What a byte at position `p` starts: a sequence of several bytes, with the range of the second
one such that only scalar values in their shortest form get through. -/
def Partial.start? (p : Nat) (b : UInt8) : Option Partial :=
  if b < 0xC2 then none
  else if b < 0xE0 then some ⟨p, 1, 0x80, 0xBF, b.toNat % 0x20⟩
  else if b = 0xE0 then some ⟨p, 2, 0xA0, 0xBF, 0⟩
  else if b = 0xED then some ⟨p, 2, 0x80, 0x9F, 0xD⟩
  else if b < 0xF0 then some ⟨p, 2, 0x80, 0xBF, b.toNat % 0x10⟩
  else if b = 0xF0 then some ⟨p, 3, 0x90, 0xBF, 0⟩
  else if b < 0xF4 then some ⟨p, 3, 0x80, 0xBF, b.toNat % 0x08⟩
  else if b = 0xF4 then some ⟨p, 3, 0x80, 0x8F, 4⟩
  else none

/-- A decoding in progress. -/
structure Decoder where
  /-- The position of the next byte. -/
  position : Nat
  /-- The characters so far. -/
  chars : Array Char
  /-- The unfinished sequence, if any. -/
  pending : Option Partial

/-- One byte. -/
def Decoder.step (d : Decoder) (b : UInt8) : Except Error Decoder :=
  let next := d.position + 1
  match d.pending with
  | none =>
    if b < 0x80 then .ok ⟨next, d.chars.push (Char.ofNat b.toNat), none⟩
    else
      match Partial.start? d.position b with
      | some s => .ok ⟨next, d.chars, some s⟩
      | none => .error ⟨.invalidStart, d.position, d.position⟩
  | some s =>
    if s.low ≤ b ∧ b ≤ s.high then
      let value := s.value * 0x40 + b.toNat % 0x40
      if s.missing = 1 then .ok ⟨next, d.chars.push (Char.ofNat value), none⟩
      else .ok ⟨next, d.chars, some ⟨s.first, s.missing - 1, 0x80, 0xBF, value⟩⟩
    else .error ⟨.invalidContinuation, s.first, d.position - 1⟩

/-- The characters, if no sequence is left unfinished. -/
def Decoder.finish (d : Decoder) : Except Error (List Char) :=
  match d.pending with
  | none => .ok d.chars.toList
  | some s => .error ⟨.unexpectedEnd, s.first, d.position - 1⟩

/-- The characters of a byte sequence. -/
def decode (bytes : List UInt8) : Except Error (List Char) := do
  (← bytes.foldlM Decoder.step ⟨0, #[], none⟩).finish

end TapeLang.Utf8
