import TapeLang.Text.Quoted
import TapeLang.Text.Utf8

/-!
# Text files

The bytes of a text file are decoded by an encoding, and then every line end, whether line feed,
carriage return or both in this order, becomes a line feed.
-/

namespace TapeLang.Text

/-- An encoding of text as bytes. -/
inductive Encoding where
  | utf8
  /-- UTF-8 with or without a byte order mark in front. -/
  | utf8Marked
  | latin1
  | ascii
deriving DecidableEq

/-- Bytes that cannot be decoded: the encoding that refuses them, the first and last one at fault,
the value of the first, and what is wrong. -/
structure DecodeError where
  codec : String
  first : Nat
  last : Nat
  byte : UInt8
  reason : String
deriving DecidableEq

/-- The text of a decoding error. -/
def DecodeError.message (e : DecodeError) : String :=
  quoted e.codec ++ " codec can't decode " ++
    (if e.first = e.last then
      "byte 0x" ++ String.ofList (hexDigits 2 e.byte.toNat) ++ " in position " ++ e.first.repr
    else "bytes in position " ++ e.first.repr ++ "-" ++ e.last.repr) ++
    ": " ++ e.reason

/-- What is wrong with bytes that are no UTF-8. -/
def reasonText : Utf8.Reason → String
  | .invalidStart => "invalid start byte"
  | .invalidContinuation => "invalid continuation byte"
  | .unexpectedEnd => "unexpected end of data"

/-- The characters of bytes in UTF-8. -/
def decodeUtf8 (bytes : List UInt8) : Except DecodeError (List Char) :=
  (Utf8.decode bytes).mapError fun e =>
    ⟨"utf-8", e.first, e.last, bytes.getD e.first 0, reasonText e.reason⟩

/-- The byte order mark in UTF-8. -/
def byteOrderMark : List UInt8 := [0xEF, 0xBB, 0xBF]

/-- The bytes behind a byte order mark, if there is one. Bytes that are only the beginning of a mark
are taken for one. -/
def dropMark (bytes : List UInt8) : List UInt8 :=
  if byteOrderMark.isPrefixOf bytes || bytes.isPrefixOf byteOrderMark then
    bytes.drop byteOrderMark.length
  else bytes

/-- The characters of bytes in ASCII. -/
def decodeAscii (bytes : List UInt8) : Except DecodeError (List Char) :=
  match bytes.findIdx? (0x80 ≤ ·) with
  | some p => .error ⟨"ascii", p, p, bytes.getD p 0, "ordinal not in range(128)"⟩
  | none => .ok (bytes.map fun b => Char.ofNat b.toNat)

/-- The characters of bytes in an encoding. -/
def Encoding.decode : Encoding → List UInt8 → Except DecodeError (List Char)
  | utf8, bytes => decodeUtf8 bytes
  | utf8Marked, bytes => decodeUtf8 (dropMark bytes)
  | latin1, bytes => .ok (bytes.map fun b => Char.ofNat b.toNat)
  | ascii, bytes => decodeAscii bytes

/-! ### Line ends -/

/-- Line ends folded into line feeds, behind the characters `out`, last first. -/
def foldLinesOnto (out : List Char) : List Char → List Char
  | [] => out.reverse
  | '\r' :: '\n' :: rest => foldLinesOnto ('\n' :: out) rest
  | '\r' :: rest => foldLinesOnto ('\n' :: out) rest
  | c :: rest => foldLinesOnto (c :: out) rest

/-- The text with every line end folded into a line feed. -/
def foldLines (s : List Char) : List Char := foldLinesOnto [] s

/-- The text of a file. -/
def Encoding.read (e : Encoding) (bytes : List UInt8) : Except DecodeError String :=
  (e.decode bytes).map fun s => String.ofList (foldLines s)

end TapeLang.Text
