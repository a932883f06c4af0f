import TapeLang.Proofs.Capacity
import TapeLang.Proofs.Lines
import TapeLang.Proofs.RunsAsSessions
import TapeLang.Tape.Dump
import Mathlib.Algebra.Order.Floor.Div

/-!
# Dumps can be read back

A dump shows the used cells of a tape in rows, each with the index of its first cell in front. All
cells behind the used ones are zero, so the dump tells the whole tape. `Tape.readDump?` takes it
apart again: it reads the numbers of each row, gives each cell the index that follows from its row,
and refuses rows that do not number their cells one by one from 0.

* `Tape.flatMap_span`: the spans of cells in the rows, one after the other, are all used cells.
* `Tape.readRow?_row`: a row can be read back.
* `Tape.Valid.linesOf_dumpRows`: a dump splits into its rows.
* `dump_loses_nothing`: what a dump looks like and what can be read from it, for all tapes that
  operations and runs of programs can lead to (`Tape.Reachable`).
-/

namespace TapeLang

open Excerpt (linesOf)
open Text (isDigit_of_mem_repr not_mem_repr)

namespace Tape

/-- The tapes that can come about: new ones, and what operations and runs, finished or not, leave of
them. -/
inductive Reachable : Tape → Prop
  | made {initial limit : Int} {t : Tape} (made : make initial limit = .ok t) : Reachable t
  | performed {t : Tape} (before : Reachable t) (op : Op) : Reachable (t.perform op).2
  | ran {t : Tape} (before : Reachable t) {σ : Type} (dev : Device σ) (cfg : Settings) (p : Program)
      (x : σ) (n : Nat) : Reachable ((Machine.start p (.start t x)).after dev cfg n).state.tape

theorem Reachable.valid {t : Tape} (h : t.Reachable) : t.Valid := by
  induction h with
  | made made => exact (valid_of_make made).1
  | performed _ op ih => exact (ih.performed op).valid
  | ran _ dev cfg p x n ih =>
    obtain ⟨ops, h⟩ := Machine.exists_operated_after dev cfg n (.start p (.start _ x))
    rw [h.tape]
    exact (follows_after ops ih).valid

/-! ### Reading a dump -/

/-- The number that a text of decimal digits stands for. -/
def number? (digits : List Char) : Option Nat :=
  if !digits.isEmpty && digits.all Char.isDigit then some (Nat.ofDigitChars 10 digits 0) else none

/-- The index and the values of a row. -/
def readRow? (row : String) : Option (Nat × List Nat) :=
  match row.toList.splitOn ':' with
  | [margin, ' ' :: values] => do
    let first ← number? (margin.dropWhile (· = ' '))
    let values ← (values.splitOn ' ').mapM number?
    return (first, values)
  | _ => none

/-- The values of a dump. Rows that do not number them one by one from 0 are refused. -/
def readDump? (text : String) : Option (List Nat) := do
  let rows ← (linesOf text).mapM readRow?
  let cells := rows.flatMap fun row => row.2.zipIdx row.1
  if cells.map Prod.snd = List.range cells.length then some (cells.map Prod.fst) else none

theorem mapM_eq_some_map {α β : Type} {f : α → Option β} {g : α → β} {l : List α}
    (h : ∀ a ∈ l, f a = some (g a)) : l.mapM f = some (l.map g) := by
  induction l with
  | nil => rfl
  | cons a l ih =>
    have ha : f a = some (g a) := h a (.head l)
    have hl : l.mapM f = some (l.map g) := ih fun b hb => h b (.tail a hb)
    rw [List.mapM_cons, ha, hl]
    rfl

/-! ### Rows -/

theorem repr_ne_nil (n : Nat) : n.repr.toList ≠ [] := by
  rw [Nat.toList_repr]
  exact Nat.toDigits_ne_nil

theorem number?_repr (n : Nat) : number? n.repr.toList = some n := by
  have hdigits : (!n.repr.toList.isEmpty && n.repr.toList.all Char.isDigit) = true := by
    rw [Bool.and_eq_true, List.all_eq_true, Bool.not_eq_true', List.isEmpty_eq_false_iff]
    exact ⟨repr_ne_nil n, fun c hc => isDigit_of_mem_repr hc⟩
  rw [number?, if_pos hdigits, Nat.toList_repr, Nat.ofDigitChars_ten_toDigits]

theorem not_mem_intercalate {c sep : Char} (hsep : c ≠ sep) {ls : List (List Char)}
    (h : ∀ l ∈ ls, c ∉ l) : c ∉ [sep].intercalate ls := by
  induction ls with
  | nil => simp
  | cons l ls ih =>
    have hl : c ∉ l := h l (.head ls)
    have hls : c ∉ [sep].intercalate ls := ih fun m hm => h m (.tail l hm)
    cases ls with
    | nil => rwa [List.intercalate_singleton]
    | cons m ls =>
      rw [List.intercalate_cons_cons]
      simp [hl, hsep, hls]

/-- The index in front of a row, aligned to the right in six columns. -/
def margin (first : Nat) : List Char :=
  List.replicate (6 - first.repr.length) ' ' ++ first.repr.toList

/-- The numbers of a row with single blanks between them. -/
def spaced (values : List Nat) : List Char :=
  [' '].intercalate (values.map fun v => v.repr.toList)

theorem toList_row (first : Nat) (cells : List Cell) : (row first cells).toList =
    margin first ++ ':' :: ' ' :: spaced (cells.map UInt32.toNat) := by
  simp [row, Text.alignRight, margin, spaced, String.toList_intercalate, Function.comp_def]

theorem not_mem_margin {c : Char} (hblank : c ≠ ' ') (hdigit : c.isDigit = false) (first : Nat) :
    c ∉ margin first := by
  unfold margin
  rw [List.mem_append, not_or]
  exact ⟨fun h => hblank (List.eq_of_mem_replicate h), not_mem_repr hdigit first⟩

theorem not_mem_spaced {c : Char} (hblank : c ≠ ' ') (hdigit : c.isDigit = false)
    (values : List Nat) : c ∉ spaced values := by
  refine not_mem_intercalate hblank fun l hl => ?_
  obtain ⟨v, -, rfl⟩ := List.mem_map.1 hl
  exact not_mem_repr hdigit v

theorem newline_not_mem_row (first : Nat) (cells : List Cell) :
    '\n' ∉ (row first cells).toList := by
  rw [toList_row]
  simp only [List.mem_append, List.mem_cons, not_or]
  exact ⟨not_mem_margin (by decide) (by decide) first, by decide, by decide,
    not_mem_spaced (by decide) (by decide) _⟩

theorem dropWhile_margin (first : Nat) :
    (margin first).dropWhile (· = ' ') = first.repr.toList := by
  have hblanks : ∀ c ∈ List.replicate (6 - first.repr.length) ' ', decide (c = ' ') = true := by
    intro c hc
    rw [List.eq_of_mem_replicate hc]
    rfl
  rw [margin, List.dropWhile_append_of_pos hblanks]
  -- the index begins with a digit
  rcases hdigits : first.repr.toList with _ | ⟨c, cs⟩
  · exact absurd hdigits (repr_ne_nil first)
  · have hne : c ≠ ' ' := by
      rintro rfl
      exact not_mem_repr (c := ' ') (by decide) first (hdigits ▸ .head cs)
    rw [List.dropWhile_cons_of_neg (by simpa using hne)]

theorem splitOn_spaced {values : List Nat} (h : values ≠ []) :
    (spaced values).splitOn ' ' = values.map fun v => v.repr.toList := by
  refine List.splitOn_intercalate ' ' (fun l hl => ?_) (by simpa using h)
  obtain ⟨v, -, rfl⟩ := List.mem_map.1 hl
  exact not_mem_repr (by decide) v

/-- **A row can be read back.** -/
theorem readRow?_row (first : Nat) {cells : List Cell} (h : cells ≠ []) :
    readRow? (row first cells) = some (first, cells.map UInt32.toNat) := by
  have hvalues : cells.map UInt32.toNat ≠ [] := by simpa using h
  have hsplit : (row first cells).toList.splitOn ':' =
      [margin first, ' ' :: spaced (cells.map UInt32.toNat)] := by
    have hrest : ':' ∉ ' ' :: spaced (cells.map UInt32.toNat) := by
      rw [List.mem_cons, not_or]
      exact ⟨by decide, not_mem_spaced (by decide) (by decide) _⟩
    rw [toList_row, List.splitOn_append_cons_self_of_not_mem
      (not_mem_margin (by decide) (by decide) first), List.splitOn_eq_singleton hrest]
  have hread : ((cells.map UInt32.toNat).map fun v => v.repr.toList).mapM number? =
      some (cells.map UInt32.toNat) := by
    rw [List.mapM_map]
    have hmap := mapM_eq_some_map (l := cells.map UInt32.toNat) fun v _ => number?_repr v
    rwa [List.map_id'] at hmap
  simp only [readRow?, hsplit, dropWhile_margin, number?_repr, splitOn_spaced hvalues, hread]
  rfl

/-! ### Which cells stand in which row -/

/-- The indices of the cells in row `r`, of `count` cells in rows of `width`. -/
def span (count width r : Nat) : List Nat :=
  List.range' (r * width) (min ((r + 1) * width) count - r * width)

/-- Rows one after the other. -/
theorem flatMap_span_take (count width m : Nat) :
    (List.range m).flatMap (span count width) = List.range (min (m * width) count) := by
  induction m with
  | zero => simp
  | succ m ih =>
    rw [List.range_succ, List.flatMap_append, ih, List.flatMap_singleton, span]
    rcases Nat.le_total (m * width) count with hle | hle
    · have happend := @List.range'_append_1 0 (m * width) (min ((m + 1) * width) count - m * width)
      have hsucc : (m + 1) * width = m * width + width := Nat.succ_mul m width
      have hsum : m * width + (min ((m + 1) * width) count - m * width) =
          min ((m + 1) * width) count := by omega
      rw [Nat.zero_add, hsum, ← List.range_eq_range', ← List.range_eq_range'] at happend
      rw [Nat.min_eq_left hle, happend]
    · have hsucc : (m + 1) * width = m * width + width := Nat.succ_mul m width
      have hempty : min ((m + 1) * width) count - m * width = 0 := by omega
      have hall : min ((m + 1) * width) count = count := by omega
      rw [hempty, hall, Nat.min_eq_right hle]
      simp

/-- **The rows have all cells**, one after the other. -/
theorem flatMap_span {width : Nat} (h : 1 ≤ width) (count : Nat) :
    (List.range (count ⌈/⌉ width)).flatMap (span count width) = List.range count := by
  have hpos : 0 < width := h
  have hle : count ≤ count ⌈/⌉ width * width := by
    rw [Nat.mul_comm]
    exact le_smul_ceilDiv hpos
  rw [flatMap_span_take, Nat.min_eq_right hle]

theorem span_ne_nil {count width r : Nat} (h : 1 ≤ width) (hr : r < count ⌈/⌉ width) :
    span count width r ≠ [] := by
  have hwidth : 0 < width := h
  have hlt : r * width < count := by
    by_contra hge
    have hle : count ⌈/⌉ width ≤ r := by
      rw [ceilDiv_le_iff_le_mul hwidth, Nat.mul_comm]
      omega
    omega
  have hsucc : (r + 1) * width = r * width + width := Nat.succ_mul r width
  have hpos : min ((r + 1) * width) count - r * width ≠ 0 := by omega
  simpa [span] using hpos

/-- Values at consecutive indices, each with its index. -/
theorem zipIdx_map_range' (f : Nat → Nat) (first count : Nat) :
    ((List.range' first count).map f).zipIdx first =
      (List.range' first count).map fun k => (f k, k) := by
  induction count generalizing first with
  | zero => rfl
  | succ count ih => rw [List.range'_succ, List.map_cons, List.zipIdx_cons, ih, List.map_cons]

/-! ### The text of a dump -/

variable {t : Tape} {width : Nat}

/-- The cells in row `r` of a dump. -/
def rowCells (t : Tape) (width r : Nat) : List Cell :=
  (span (t.highWater + 1) width r).map fun k => t.cells.getD k 0

/-- What line `r` of a dump is to be, `r` counted from 0: the index of its first cell, aligned to
the right in six columns, a colon and a blank, and the values of the cells with single blanks
between them. -/
def dumpLine (t : Tape) (width r : Nat) : String :=
  String.ofList (List.replicate (6 - (r * width).repr.length) ' ' ++ (r * width).repr.toList ++
    [':', ' '] ++ [' '].intercalate
      ((List.range' (r * width) (min ((r + 1) * width) (t.highWater + 1) - r * width)).map
        fun k => (t.cells.getD k 0).toNat.repr.toList))

theorem row_rowCells (t : Tape) (width r : Nat) :
    row (r * width) (t.rowCells width r) = t.dumpLine width r := by
  apply String.toList_injective
  rw [toList_row, dumpLine, rowCells, span, String.toList_ofList]
  simp [margin, spaced, Function.comp_def]

theorem take_drop_range (count width r : Nat) :
    ((List.range count).drop (r * width)).take width = span count width r := by
  have hsucc : (r + 1) * width = r * width + width := Nat.succ_mul r width
  rw [List.range_eq_range', List.drop_range', Nat.zero_add, Nat.mul_one, span]
  rcases Nat.le_total width (count - r * width) with hle | hle
  · rw [List.take_range'_of_length_ge hle]
    congr 1
    omega
  · rw [List.take_range'_of_length_le hle]
    congr 1
    omega

theorem Valid.extract_snapshot (h : t.Valid) (width r : Nat) :
    ((t.snapshot none).toArray.extract (r * width) (r * width + width)).toList =
      t.rowCells width r := by
  rw [h.snapshot_eq, List.extract_toArray, List.extract_eq_take_drop, Nat.add_sub_cancel_left,
    ← List.map_drop, ← List.map_take, take_drop_range, rowCells]

theorem Valid.rows_snapshot (h : t.Valid) (width : Nat) :
    rows (t.snapshot none).toArray width =
      (List.range ((t.highWater + 1) ⌈/⌉ width)).map (t.dumpLine width) := by
  have hsize : (t.snapshot none).toArray.size = t.highWater + 1 := by
    rw [h.snapshot_eq]
    simp
  rw [rows, hsize, Nat.ceilDiv_eq_add_pred_div]
  refine List.map_congr_left fun r _ => ?_
  rw [h.extract_snapshot, row_rowCells]

/-- **A dump splits into its rows.** -/
theorem Valid.linesOf_dumpRows (h : t.Valid) (hw : 1 ≤ width) : linesOf (t.dumpRows width) =
    (List.range ((t.highWater + 1) ⌈/⌉ width)).map (t.dumpLine width) := by
  have hpos : (t.highWater + 1) ⌈/⌉ width ≠ 0 := by
    intro h0
    have hspan := flatMap_span hw (t.highWater + 1)
    rw [h0] at hspan
    simp at hspan
  rw [dumpRows, h.rows_snapshot]
  refine Excerpt.linesOf_intercalate (by simpa using hpos) fun line hline => ?_
  obtain ⟨r, -, rfl⟩ := List.mem_map.1 hline
  rw [← row_rowCells]
  exact newline_not_mem_row _ _

/-- **What can be read from a dump is what has been used of the tape.** -/
theorem Valid.readDump?_dumpRows (h : t.Valid) (hw : 1 ≤ width) :
    readDump? (t.dumpRows width) = some ((t.snapshot none).map UInt32.toNat) := by
  have hread : (linesOf (t.dumpRows width)).mapM readRow? =
      some ((List.range ((t.highWater + 1) ⌈/⌉ width)).map fun r =>
        (r * width, (t.rowCells width r).map UInt32.toNat)) := by
    rw [h.linesOf_dumpRows hw, List.mapM_map]
    refine mapM_eq_some_map fun r hr => ?_
    have hne : t.rowCells width r ≠ [] := by
      simpa [rowCells] using span_ne_nil hw (List.mem_range.1 hr)
    rw [Function.comp_apply, ← row_rowCells, readRow?_row _ hne]
  -- each value gets the index of its cell
  have hrow : ∀ r, ((t.rowCells width r).map UInt32.toNat).zipIdx (r * width) =
      (span (t.highWater + 1) width r).map fun k => ((t.cells.getD k 0).toNat, k) := by
    intro r
    rw [rowCells, List.map_map, span, zipIdx_map_range']
    rfl
  have hcells : ((List.range ((t.highWater + 1) ⌈/⌉ width)).map fun r =>
        (r * width, (t.rowCells width r).map UInt32.toNat)).flatMap
          (fun row => row.2.zipIdx row.1) =
      (List.range (t.highWater + 1)).map fun k => ((t.cells.getD k 0).toNat, k) := by
    rw [List.flatMap_map]
    simp only [hrow]
    rw [← List.map_flatMap, flatMap_span hw]
  have hvalues : (t.snapshot none).map UInt32.toNat =
      (List.range (t.highWater + 1)).map fun k => (t.cells.getD k 0).toNat := by
    rw [h.snapshot_eq, List.map_map]
    rfl
  rw [readDump?, hread, Option.bind_eq_bind, Option.bind_some, hcells, hvalues]
  simp [Function.comp_def]

/-- Behind the cells that have been used there are only zeros. -/
theorem Valid.cells_eq (h : t.Valid) : t.cells.toList =
    t.snapshot none ++ List.replicate (t.length - (t.highWater + 1)) 0 := by
  have hlt : t.highWater < t.cells.size := h.highWater_lt
  have hget : ∀ (k : Nat) (hk : k < t.cells.size), t.cells[k] = t.cells.getD k 0 := by
    intro k hk
    simp [hk]
  rw [h.snapshot_eq]
  refine List.ext_getElem ?_ fun k h1 h2 => ?_
  · simp [length]
    omega
  · have hk : k < t.cells.size := by simpa using h1
    rw [Array.getElem_toList, hget k hk]
    rcases Nat.lt_or_ge t.highWater k with hbeyond | hused
    · rw [List.getElem_append_right (by simp; omega), List.getElem_replicate]
      exact h.zero k hbeyond
    · rw [List.getElem_append_left (by simp; omega), List.getElem_map, List.getElem_range]

end Tape

/-- **A dump loses nothing.** A dump of a reachable tape in rows of `width` cells has as many lines
as the used cells need, each with the index of its first cell and the values of its cells. What is
read from these lines is what has been used of the tape, and with zeros behind that it is the whole
tape. -/
theorem dump_loses_nothing {t : Tape} (reachable : t.Reachable) {width : Nat} (hw : 1 ≤ width) :
    ∃ text, t.dump width = .ok text ∧
      (linesOf text).length = (t.highWater + 1) ⌈/⌉ width ∧
      (∀ r < (t.highWater + 1) ⌈/⌉ width, (linesOf text)[r]? = some (t.dumpLine width r)) ∧
      Tape.readDump? text = some ((t.snapshot none).map UInt32.toNat) ∧
      (t.snapshot none).length = t.highWater + 1 ∧
      t.cells.toList = t.snapshot none ++ List.replicate (t.length - (t.highWater + 1)) 0 := by
  have hv := reachable.valid
  have hlines := hv.linesOf_dumpRows hw
  refine ⟨t.dumpRows width, ?_, ?_, fun r hr => ?_, hv.readDump?_dumpRows hw, ?_, hv.cells_eq⟩
  · have hzero : ¬ (width : Int) = 0 := by omega
    have hneg : ¬ (width : Int) < 0 := by omega
    rw [Tape.dump, if_neg hzero, if_neg hneg, Int.toNat_natCast]
  · rw [hlines, List.length_map, List.length_range]
  · rw [hlines, List.getElem?_map, List.getElem?_range hr, Option.map_some]
  · rw [hv.snapshot_eq, List.length_map, List.length_range]

/-- Three used cells in rows of two, on a tape that has grown beyond them. -/
theorem dump_loses_nothing_ragged :
    ∃ (t : Tape) (text : String), t.Reachable ∧ t.highWater = 2 ∧ t.length = 4 ∧
      t.dump 2 = .ok text ∧ text = "     0: 5 0\n     2: 4294967295" ∧
      Tape.readDump? text = some [5, 0, 4294967295] := by
  have made : Tape.make 2 9 = .ok (.blank 2 9) := rfl
  have reachable := (((Tape.Reachable.made made).performed (.write 5)).performed
    (.move 2)).performed (.change (-1))
  obtain ⟨text, hdump, -, -, hread, -, -⟩ := dump_loses_nothing reachable (by decide : 1 ≤ 2)
  have htext : "     0: 5 0\n     2: 4294967295" = text := Except.ok.inj hdump
  exact ⟨_, text, reachable, rfl, rfl, hdump, htext.symm, hread⟩

end TapeLang
