import TapeLang.Machine.Device

/-!
# The console

Standard input and output. Programs read and write bytes; text goes to the same output through a
layer of its own: these are the operations of `Stdio`, whatever streams there are behind them.

The text layer of the console holds text back until it is flushed or full, so bytes that are written
later can come out before it. Each of the four operations on the output may be broken, and then
fails every time for the same reason.

* `Console.output_release`: passing the held text on prints nothing new.
* `Console.output_writeText`: text comes behind all that was printed, held or not.
-/

namespace TapeLang

/-- The behaviour of standard streams with state `σ`: bytes are written, flushed and read, and text
is written and flushed on the same output. A failing call answers with a reason. -/
structure Stdio (σ : Type) where
  write : List UInt8 → σ → Except String Unit × σ
  flush : σ → Except String Unit × σ
  read : σ → Except String (List UInt8) × σ
  writeText : String → σ → Except String Unit × σ
  flushText : σ → Except String Unit × σ

/-- Standard streams as the streams of a program. -/
def Stdio.device {σ : Type} (std : Stdio σ) : Device σ where
  write := std.write
  flush? := some std.flush
  read? := some std.read

/-- The reasons for which operations on the output fail. -/
structure OutputFaults where
  write : Option String
  flush : Option String
  textWrite : Option String
  textFlush : Option String

/-- The console: the input that is left and what was printed. -/
structure Console where
  input : List UInt8
  /-- The bytes that have come out, last byte first. -/
  printed : List UInt8
  /-- The text that is held back, last byte first. -/
  held : List UInt8
  /-- The number of bytes with which the text layer is full. -/
  capacity : Nat
  faults : OutputFaults

/-- An output where nothing fails. -/
def OutputFaults.none : OutputFaults := ⟨.none, .none, .none, .none⟩

namespace Console

/-- The number of bytes of text that a sound output holds back. -/
def defaultCapacity : Nat := 8192

/-- A console with the given input and nothing printed, on which nothing fails. -/
def ofInput (input : List UInt8) : Console := ⟨input, [], [], defaultCapacity, .none⟩

/-- A console with the given input and nothing printed, whose output may be broken. Such an output
holds no text back. -/
def ofFaults (input : List UInt8) (faults : OutputFaults) : Console := ⟨input, [], [], 0, faults⟩

/-- All that was printed, with the text that is still held back at the end. -/
def output (c : Console) : List UInt8 := (c.held ++ c.printed).reverse

/-- Success, or failure if there is a reason for it. -/
def answer : Option String → Except String Unit
  | some reason => .error reason
  | none => .ok ()

/-- Writes bytes. -/
def write (data : List UInt8) (c : Console) : Except String Unit × Console :=
  match c.faults.write with
  | some reason => (.error reason, c)
  | none => (.ok (), { c with printed := data.reverse ++ c.printed })

/-- Reads the next byte. -/
def read (c : Console) : Except String (List UInt8) × Console :=
  (.ok (c.input.take 1), { c with input := c.input.drop 1 })

/-- Passes the held text on to the byte layer. Text that cannot be written there is lost. -/
def release (c : Console) : Except String Unit × Console :=
  if c.held.isEmpty then (.ok (), c) else { c with held := [] }.write c.held.reverse

/-- Makes room for `n` more bytes of text, if there is none. -/
def makeRoom (n : Nat) (c : Console) : Except String Unit × Console :=
  if c.capacity < c.held.length + n then c.release else (.ok (), c)

/-- Adds text to the held text, and passes it on if the layer is full. -/
def hold (data : List UInt8) (c : Console) : Except String Unit × Console :=
  let c := { c with held := data.reverse ++ c.held }
  if c.capacity ≤ c.held.length then c.release else (.ok (), c)

/-- Writes text. -/
def writeText (text : String) (c : Console) : Except String Unit × Console :=
  match c.faults.textWrite with
  | some reason => (.error reason, c)
  | none =>
    let data := text.toUTF8.toList
    match c.makeRoom data.length with
    | (.error reason, c) => (.error reason, c)
    | (.ok _, c) => c.hold data

/-- Flushes the text layer. -/
def flushText (c : Console) : Except String Unit × Console :=
  match c.faults.textFlush with
  | some reason => (.error reason, c)
  | none => c.release

/-- The console as standard streams. -/
def stdio : Stdio Console where
  write := write
  flush c := (answer c.faults.flush, c)
  read := read
  writeText := writeText
  flushText := flushText

/-- The console as the streams of a program. -/
def device : Device Console := stdio.device

theorem release_of_sound {c : Console} (h : c.faults.write = none) :
    c.release = (.ok (), { c with held := [], printed := c.held ++ c.printed }) := by
  obtain ⟨input, printed, held, capacity, faults⟩ := c
  cases held with
  | nil => rfl
  | cons b held => simp_all [release, write]

theorem output_release {c : Console} (h : c.faults.write = none) :
    c.release.2.output = c.output := by
  simp [release_of_sound h, output]

theorem makeRoom_of_sound {c : Console} (h : c.faults.write = none) (n : Nat) :
    ∃ d : Console, c.makeRoom n = (.ok (), d) ∧ d.output = c.output ∧ d.faults = c.faults := by
  rw [makeRoom]
  split
  · exact ⟨_, release_of_sound h, by simp [output], rfl⟩
  · exact ⟨c, rfl, rfl, rfl⟩

theorem output_hold {c : Console} (h : c.faults.write = none) (data : List UInt8) :
    (c.hold data).2.output = c.output ++ data := by
  simp only [hold]
  split
  · rw [output_release (by exact h)]
    simp [output]
  · simp [output]

theorem output_writeText {c : Console} (h : c.faults.write = none)
    (text_sound : c.faults.textWrite = none) (text : String) :
    (c.writeText text).2.output = c.output ++ text.toUTF8.toList := by
  obtain ⟨d, made, same, faults⟩ := makeRoom_of_sound h text.toUTF8.toList.length
  simp only [writeText, text_sound, made]
  rw [output_hold (by rw [faults, h]), same]

end Console

end TapeLang
