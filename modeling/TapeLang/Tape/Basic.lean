import TapeLang.Cell
import TapeLang.RuntimeError

/-!
# The tape

A tape is a row of cells with a cursor. It starts with a number of zero cells and grows to the right
when the cursor leaves them, at least to double its length, up to a limit; it never shrinks. The
cursor cannot go left of the first cell. `highWater` is the rightmost cell the cursor has been on.

A move that fails leaves the tape as it was, because `Tape.move` then yields no tape at all but the
cause, with the number of the cell that the cursor cannot reach. Whether that number can be written,
and so what is raised, is decided by `Fault.raised`.

* `Tape.Valid`: what every tape keeps that was made by `Tape.make`; `Tape.valid_blank`: new tapes
  have it.
* `Tape.getD_extend`: growth changes no cell.
-/

namespace TapeLang

/-- A tape. -/
structure Tape where
  /-- The number of cells the tape may have. -/
  limit : Nat
  cells : Array Cell
  cursor : Nat
  highWater : Nat

/-- Why no tape can be made. -/
inductive Tape.SizeError where
  | noCells
  | limitTooSmall
deriving DecidableEq

/-- A growth of the tape: its length before and after. -/
structure Growth where
  before : Nat
  after : Nat
deriving DecidableEq

namespace Tape

/-- The length of a new tape, where nothing else is asked for. -/
def defaultInitial : Int := 4096

/-- The limit of a new tape, where nothing else is asked for. -/
def defaultLimit : Int := 16777216

/-- The text of a size error. -/
def SizeError.message : SizeError → String
  | .noCells => "initial_cells must be at least 1"
  | .limitTooSmall => "max_cells must not be smaller than initial_cells"

/-- A tape of `initial` zero cells with the cursor on the first. -/
def blank (initial limit : Nat) : Tape := ⟨limit, Array.replicate initial 0, 0, 0⟩

/-- A new tape, if the sizes make sense. -/
def make (initial limit : Int) : Except SizeError Tape :=
  if initial < 1 then .error .noCells
  else if limit < initial then .error .limitTooSmall
  else .ok (blank initial.toNat limit.toNat)

/-- The number of cells. -/
def length (t : Tape) : Nat := t.cells.size

/-- The cell under the cursor. -/
def read (t : Tape) : Cell := t.cells.getD t.cursor 0

/-- Stores a number, modulo the cell range, under the cursor. -/
def write (t : Tape) (v : Int) : Tape :=
  { t with cells := t.cells.setIfInBounds t.cursor (Cell.ofInt v) }

/-- Adds a number, modulo the cell range, to the cell under the cursor. -/
def change (t : Tape) (d : Int) : Tape :=
  { t with cells := t.cells.modify t.cursor (· + Cell.ofInt d) }

/-- The length to which the tape grows for cell `target`. -/
def grownLength (t : Tape) (target : Nat) : Nat := min (max (2 * t.length) (target + 1)) t.limit

/-- The tape with zero cells added, up to `n` cells. -/
def extend (t : Tape) (n : Nat) : Tape :=
  { t with cells := t.cells ++ Array.replicate (n - t.length) 0 }

/-- Puts the cursor on cell `target`. -/
def goto (t : Tape) (target : Nat) : Tape :=
  { t with cursor := target, highWater := max t.highWater target }

/-- Moves the cursor by `d` cells, to the right if `d` is positive, or says why it cannot. -/
def move (t : Tape) (d : Int) : Except Fault Tape :=
  let target := t.cursor + d
  if target < 0 then .error (.underflow target)
  else if target < t.length then .ok (t.goto target.toNat)
  else if t.limit ≤ target.toNat then .error (.outOfMemory target.toNat t.limit)
  else .ok ((t.extend (t.grownLength target.toNat)).goto target.toNat)

/-- The growth from one state of the tape to a later one. -/
def growth? (before after : Tape) : Option Growth :=
  if before.length < after.length then some ⟨before.length, after.length⟩ else none

/-- The first `n` cells, by default all up to the rightmost the cursor has been on. A negative `n`
leaves out that many cells at the end. -/
def snapshot (t : Tape) (n : Option Int) : List Cell :=
  let n := min (n.getD (t.highWater + 1)) t.length
  (t.cells.take (if 0 ≤ n then n else t.length + n).toNat).toList

/-- What holds of a tape in use: the cursor is within reach of the high-water mark, the mark within
the tape, the tape within its limit, and the cursor has left no trace right of the mark. -/
structure Valid (t : Tape) : Prop where
  cursor_le : t.cursor ≤ t.highWater
  highWater_lt : t.highWater < t.length
  length_le : t.length ≤ t.limit
  zero : ∀ k, t.highWater < k → t.cells.getD k 0 = 0

/-! ### What the operations do -/

@[simp] theorem length_write (t : Tape) (v : Int) : (t.write v).length = t.length := by
  simp [write, length]

@[simp] theorem length_change (t : Tape) (d : Int) : (t.change d).length = t.length := by
  simp [change, length]

@[simp] theorem length_goto (t : Tape) (n : Nat) : (t.goto n).length = t.length := rfl

@[simp] theorem length_extend (t : Tape) (n : Nat) : (t.extend n).length = max t.length n := by
  simp [extend, length]; omega

theorem read_write {t : Tape} (h : t.cursor < t.length) (v : Int) :
    (t.write v).read = Cell.ofInt v := by
  rw [length] at h
  simp [write, read, h]

/-- Growth changes no cell: the new ones are zero, and so is what lies beyond the tape. -/
theorem getD_extend (t : Tape) (n k : Nat) : (t.extend n).cells.getD k 0 = t.cells.getD k 0 := by
  by_cases h : k < t.cells.size
  · simp [extend, Array.getElem?_append, h]
  · simp [extend, Array.getElem?_append, h, Array.getElem?_replicate]
    split <;> rfl

theorem valid_blank {initial limit : Nat} (h : 0 < initial) (h' : initial ≤ limit) :
    (blank initial limit).Valid where
  cursor_le := Nat.le_refl 0
  highWater_lt := by simpa [blank, length] using h
  length_le := by simpa [blank, length] using h'
  zero k _ := by
    simp [blank, Array.getElem?_replicate]
    split <;> rfl

end Tape

end TapeLang
