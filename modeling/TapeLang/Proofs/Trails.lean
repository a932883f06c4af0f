import TapeLang.Proofs.FaultPlaces
import Mathlib.Data.List.Induction

/-!
# What a merged move remembers

Moves that are read from source go one cell each, so a run of them is a walk. Compacting leaves one
move of it, by the displacement of the walk, and the trail of that move is a stack: a stride away
from where the walk began adds its place, and a stride back takes the last place off. So the places
that are left are those of last crossings: a stride that takes the walk from `j` cells off its
beginning to `j + 1`, and after which none does so again.

* `Walk.lastCrossing_concat`, `Walk.LastCrossing.concat`: the last crossings of a walk with one more
  stride.
* `Walk.Trail`: the places that are left; `Walk.extend_sum`: compacting keeps them, stride by
  stride.
* `merged_move_remembers`: the move that is left of a walk, and the place it blames when it fails.
-/

namespace TapeLang

/-! ### Walks -/

/-- A move by one cell, with the place of its symbol. -/
inductive Stride where
  | left (place : Position)
  | right (place : Position)
deriving DecidableEq

namespace Stride

/-- The place of the symbol. -/
def place : Stride → Position
  | left p | right p => p

/-- How far a stride goes to the right. -/
def offset : Stride → Int
  | left _ => -1
  | right _ => 1

/-- The instruction that is read from the symbol. -/
def instr : Stride → Instr
  | left p => .moveLeft 1 p [p]
  | right p => .moveRight 1 p [p]

/-- The stride as a run of moves. -/
def move (s : Stride) : Move := ⟨s.offset, s.place, [s.place]⟩

theorem offset_cases (s : Stride) : s.offset = 1 ∨ s.offset = -1 := by
  cases s with
  | left p => exact .inr rfl
  | right p => exact .inl rfl

theorem ofInstr?_instr (s : Stride) : Run.ofInstr? s.instr = some (.move s.move) := by
  cases s <;> rfl

theorem isLoop_instr (s : Stride) : s.instr.isLoop = false := by
  cases s <;> rfl

end Stride

/-- A walk is a list of strides. -/
abbrev Walk := List Stride

namespace Walk

/-- How far a walk goes to the right in all. -/
def displacement (w : Walk) : Int := (w.map Stride.offset).sum

/-- The program of a walk, as it is read. -/
def program (w : Walk) : Program := w.map Stride.instr

/-- In the walk `w` from the cell `start`, the stride `s` right behind `before` goes from the cell
`a` to the cell `b`. -/
structure Crossing (start : Int) (w : Walk) (a b : Int) (before : Walk) (s : Stride) : Prop where
  here : before ++ [s] <+: w
  leaves : start + displacement before = a
  arrives : a + s.offset = b

/-- The last stride of the walk `w` from the cell `start` that goes from `a` to `b` has its symbol
at the place `p`. -/
def LastCrossing (start : Int) (w : Walk) (a b : Int) (p : Position) : Prop :=
  ∃ before s, Crossing start w a b before s ∧ s.place = p ∧
    ∀ other t, Crossing start w a b other t → other.length ≤ before.length

theorem displacement_concat (w : Walk) (s : Stride) :
    displacement (w ++ [s]) = displacement w + s.offset := by
  simp [displacement]

variable {start a b : Int} {w before : Walk} {s t : Stride} {p : Position}

/-- A crossing of a longer walk is its last stride or one of the walk before. -/
theorem crossing_concat : Crossing start (w ++ [s]) a b before t ↔
    Crossing start w a b before t ∨
      (before = w ∧ t = s ∧ start + displacement w = a ∧ a + s.offset = b) := by
  constructor
  · rintro ⟨here, leaves, arrives⟩
    rcases List.prefix_concat_iff.1 here with heq | here
    · obtain ⟨rfl, hlast⟩ := List.append_inj' heq rfl
      obtain rfl := List.singleton_inj.1 hlast
      exact .inr ⟨rfl, rfl, leaves, arrives⟩
    · exact .inl ⟨here, leaves, arrives⟩
  · rintro (⟨here, leaves, arrives⟩ | ⟨rfl, rfl, leaves, arrives⟩)
    · exact ⟨here.trans (List.prefix_append w [s]), leaves, arrives⟩
    · exact ⟨List.prefix_rfl, leaves, arrives⟩

theorem Crossing.length_lt (h : Crossing start w a b before t) : before.length < w.length := by
  have hlen := h.here.length_le
  rw [List.length_append, List.length_singleton] at hlen
  omega

/-- The last stride of a walk is the last to go where it goes. -/
theorem lastCrossing_concat (leaves : start + displacement w = a) (arrives : a + s.offset = b) :
    LastCrossing start (w ++ [s]) a b s.place := by
  refine ⟨w, s, crossing_concat.2 (.inr ⟨rfl, rfl, leaves, arrives⟩), rfl, fun other t h => ?_⟩
  rcases crossing_concat.1 h with h | ⟨rfl, -⟩
  · exact Nat.le_of_lt h.length_lt
  · exact Nat.le_refl _

/-- A last crossing stays the last one, if the next stride goes elsewhere. -/
theorem LastCrossing.concat (h : LastCrossing start w a b p)
    (elsewhere : ¬ (start + displacement w = a ∧ a + s.offset = b)) :
    LastCrossing start (w ++ [s]) a b p := by
  obtain ⟨before, t, ht, hp, last⟩ := h
  refine ⟨before, t, crossing_concat.2 (.inl ht), hp, fun other u hu => ?_⟩
  rcases crossing_concat.1 hu with hu | ⟨-, -, hsame⟩
  · exact last other u hu
  · exact absurd hsame elsewhere

/-- Cells may be counted from where the walk begins. -/
theorem LastCrossing.shift (h : LastCrossing 0 w a b p) (start : Int) :
    LastCrossing start w (start + a) (start + b) p := by
  obtain ⟨before, t, ⟨here, leaves, arrives⟩, hp, last⟩ := h
  refine ⟨before, t, ⟨here, by omega, by omega⟩, hp, fun other u hu => last other u ?_⟩
  have hleaves := hu.leaves
  have harrives := hu.arrives
  exact ⟨hu.here, by omega, by omega⟩

/-- The places of the strides of a walk in the direction `ε` that are not taken back: the last one
from `j` cells off the beginning to `j + 1`, for each `j` short of the end. -/
structure Trail (w : Walk) (ε : Int) (trail : List Position) : Prop where
  direction : ε = 1 ∨ ε = -1
  length : ε * trail.length = displacement w
  last : ∀ (j : Nat) (p : Position), trail[j]? = some p →
    LastCrossing 0 w (ε * j) (ε * (j + 1)) p

namespace Trail

variable {ε : Int} {trail : List Position}

/-- A walk that has come back has no trail, in either direction. -/
theorem nil (h : displacement w = 0) (hε : ε = 1 ∨ ε = -1) : Trail w ε [] where
  direction := hε
  length := by rw [h, List.length_nil, Int.natCast_zero, Int.mul_zero]
  last j p hj := by cases hj

theorem length_eq (h : Trail w ε trail) : trail.length = (displacement w).natAbs := by
  have hlength := h.length
  rcases h.direction with rfl | rfl <;> omega

/-- One more stride in the direction of the walk adds its place. -/
theorem forth (h : Trail w ε trail) (hs : s.offset = ε) :
    Trail (w ++ [s]) ε (trail ++ [s.place]) := by
  have hε := h.direction
  have hlength := h.length
  refine ⟨hε, ?_, fun j p hj => ?_⟩
  · rw [displacement_concat, List.length_append, List.length_singleton]
    rcases hε with rfl | rfl <;> omega
  by_cases hold : j < trail.length
  · rw [List.getElem?_append_left hold] at hj
    refine (h.last j p hj).concat fun ⟨hleaves, _⟩ => ?_
    rcases hε with rfl | rfl <;> omega
  · have hlt := (List.getElem?_eq_some_iff.1 hj).1
    rw [List.length_append, List.length_singleton] at hlt
    obtain rfl : j = trail.length := by omega
    rw [List.getElem?_concat_length] at hj
    obtain rfl := Option.some.inj hj
    exact lastCrossing_concat (by omega) (by rcases hε with rfl | rfl <;> omega)

/-- One stride back takes the last place off. -/
theorem back (h : Trail w ε trail) (hs : s.offset = -ε) (hne : trail ≠ []) :
    Trail (w ++ [s]) ε (trail.take (trail.length - 1)) := by
  have hε := h.direction
  have hlength := h.length
  have hpos := List.length_pos_iff.2 hne
  refine ⟨hε, ?_, fun j p hj => ?_⟩
  · rw [displacement_concat, List.length_take]
    rcases hε with rfl | rfl <;> omega
  · have hj' : trail[j]? = some p := by
      rw [List.getElem?_take] at hj
      split at hj
      · exact hj
      · cases hj
    refine (h.last j p hj').concat fun ⟨_, harrives⟩ => ?_
    rcases hε with rfl | rfl <;> omega

end Trail

/-! ### Compacting -/

/-- The move that a walk comes to, with the given trail. -/
def sum (w : Walk) (trail : List Position) : Move := ⟨displacement w, trail.head?, trail⟩

section Merging
variable {ε : Int} {trail : List Position}

theorem merge_forth (hd : 0 < displacement w ↔ 0 < s.offset) (hne : trail ≠ []) :
    (sum w trail).merge s.move = sum (w ++ [s]) (trail ++ [s.place]) := by
  have hempty : (trail.isEmpty || [s.place].isEmpty) = false := by
    rw [List.isEmpty_eq_false_iff.2 hne]
    rfl
  have hhead : (trail ++ [s.place]).head? = trail.head? := List.head?_append_of_ne_nil _ hne
  simp only [Move.merge, sum, Stride.move, hd, if_true, hempty, hhead, displacement_concat]
  rfl

theorem merge_back (hd : ¬ (0 < displacement w ↔ 0 < s.offset))
    (hlt : s.offset.natAbs < (displacement w).natAbs) :
    (sum w trail).merge s.move =
      sum (w ++ [s]) (trail.take (displacement (w ++ [s])).natAbs) := by
  have hne : (displacement (w ++ [s])).natAbs ≠ 0 := by
    rw [displacement_concat]
    omega
  have hhead : (trail.take (displacement (w ++ [s])).natAbs).head? = trail.head? := by
    rw [List.head?_take, if_neg hne]
  rw [sum, sum, hhead, displacement_concat]
  simp only [Move.merge, Stride.move, hd, if_false, hlt, if_true]

/-- The first stride, or the first after the walk has come back. -/
theorem extend_sum_nil (h : displacement w = 0) :
    Program.extend (sum w []).toInstr?.toList s.instr =
      (sum (w ++ [s]) [s.place]).toInstr?.toList := by
  have hnone : (sum w []).toInstr? = none := Move.toInstr?_of_zero h
  have hsum : sum (w ++ [s]) [s.place] = s.move := by
    rw [sum, displacement_concat, h, Int.zero_add]
    rfl
  rw [hnone, Option.toList_none, Program.extend_of_some s.ofInstr?_instr, hsum]
  rfl

/-- Any other stride is merged into the move that the walk comes to so far. -/
theorem extend_sum_cons (h : Trail w ε trail) (hne : trail ≠ []) :
    Program.extend (sum w trail).toInstr?.toList s.instr =
      ((sum w trail).merge s.move).toInstr?.toList := by
  have hlen := h.length_eq
  have hpos := List.length_pos_iff.2 hne
  rcases hi : (sum w trail).toInstr? with _ | i
  · have hzero : displacement w = 0 := Move.offset_of_toInstr?_eq_none hi
    omega
  · have hfits : (sum w trail).Fits := .inr hlen
    rw [Option.toList_some, Program.extend_of_merge s.ofInstr?_instr (hfits.ofInstr? hi) rfl,
      List.append_nil]
    rfl

/-- **One more stride** is taken in, and the places are again those that are left. -/
theorem extend_sum (h : Trail w ε trail) (s : Stride) :
    ∃ ε' trail', Trail (w ++ [s]) ε' trail' ∧
      Program.extend (sum w trail).toInstr?.toList s.instr =
        (sum (w ++ [s]) trail').toInstr?.toList := by
  have hs := s.offset_cases
  have hε := h.direction
  have hlength := h.length
  by_cases hne : trail = []
  · subst hne
    have hzero : displacement w = 0 := by
      rw [← hlength, List.length_nil, Int.natCast_zero, Int.mul_zero]
    exact ⟨s.offset, [s.place], (Trail.nil hzero hs).forth rfl, extend_sum_nil hzero⟩
  have hpos := List.length_pos_iff.2 hne
  have hext := extend_sum_cons (s := s) h hne
  by_cases hforth : s.offset = ε
  · have hsign : 0 < displacement w ↔ 0 < s.offset := by rcases hε with rfl | rfl <;> omega
    refine ⟨ε, trail ++ [s.place], h.forth hforth, ?_⟩
    rw [hext, merge_forth hsign hne]
  have hback : s.offset = -ε := by omega
  refine ⟨ε, trail.take (trail.length - 1), h.back hback hne, ?_⟩
  by_cases hone : trail.length = 1
  · -- the last place is taken off, and neither side has an instruction
    have hzero : displacement (w ++ [s]) = 0 := by
      rw [displacement_concat]
      rcases hε with rfl | rfl <;> omega
    have hmerge : ((sum w trail).merge s.move).offset = 0 := by
      rw [Move.offset_merge, ← hzero, displacement_concat]
      rfl
    rw [hext, Move.toInstr?_of_zero hmerge,
      Move.toInstr?_of_zero (show (sum _ _).offset = 0 from hzero)]
  · have hsign : ¬ (0 < displacement w ↔ 0 < s.offset) := by rcases hε with rfl | rfl <;> omega
    have hlt : s.offset.natAbs < (displacement w).natAbs := by
      rcases hε with rfl | rfl <;> omega
    have hnat : (displacement (w ++ [s])).natAbs = trail.length - 1 := by
      rw [displacement_concat]
      rcases hε with rfl | rfl <;> omega
    rw [hext, merge_back hsign hlt, hnat]

end Merging

/-- **What is left of a walk** is the move that it comes to, with its trail. -/
theorem exists_trail (level : Int) (w : Walk) :
    ∃ ε trail, Trail w ε trail ∧
      w.program.compact level = (sum w trail).toInstr?.toList := by
  have onto : ∃ ε trail, Trail w ε trail ∧ Program.compactOnto (.ofInt level) [] w.program =
      (sum w trail).toInstr?.toList := by
    induction w using List.reverseRecOn with
    | nil => exact ⟨1, [], .nil rfl (.inl rfl), Program.compactOnto_nil _ []⟩
    | append_singleton w s ih =>
      obtain ⟨ε, trail, htrail, hout⟩ := ih
      obtain ⟨ε', trail', htrail', hext⟩ := extend_sum htrail s
      refine ⟨ε', trail', htrail', ?_⟩
      rw [program] at hout
      rw [program, List.map_append, Program.compactOnto_append, hout, List.map_singleton,
        Program.compactOnto_cons, Program.compactOnto_nil,
        Instr.compactOnto_of_simple s.isLoop_instr, hext]
  obtain ⟨ε, trail, htrail, hout⟩ := onto
  refine ⟨ε, trail, htrail, ?_⟩
  rw [Program.compact_eq, hout]
  cases (sum w trail).toInstr? <;> rfl

/-! ### Blamed strides -/

/-- If the instruction fails on a valid tape, then with an error of the given family at the place of
the last stride of the walk, taken from the cell of the cursor, that goes over the given edge of the
tape. -/
def Blames (w : Walk) (i : Instr) (category : RuntimeError.Category)
    (edge : Tape → Int × Int) : Prop :=
  ∀ (σ : Type) (dev : Device σ) (cfg : Settings) (s t : State σ) (f : Failure), s.tape.Valid →
    i.act dev cfg s = (some f, t) → ∃ err p, f = .fault err ∧ err.category = category ∧
      err.position = some p ∧
      LastCrossing s.tape.cursor w (edge s.tape).1 (edge s.tape).2 p

/-- From the first cell to the left. -/
def leftEdge (_ : Tape) : Int × Int := (0, -1)

/-- From the last cell that the tape may have to the right. -/
def rightEdge (t : Tape) : Int × Int := (t.limit - 1, t.limit)

variable {trail : List Position} {pos : Option Position}

theorem Trail.blames_right (h : Trail w 1 trail) (hd : 0 < displacement w) :
    w.Blames (.moveRight (displacement w) pos trail) .outOfMemory rightEdge := by
  intro σ dev cfg s t f valid failed
  have hlength : (trail.length : Int) = displacement w := by
    have := h.length
    omega
  obtain ⟨n, hunknown, -⟩ | ⟨g, hmove, rfl⟩ := Instr.failed_cases failed
  · cases hunknown
  obtain ⟨hcat, p, -, hget, hpos⟩ :=
    Instr.place_of_outOfMemory valid (by omega) hlength hmove
  have hlast := (h.last _ p hget).shift s.tape.cursor
  have hcursor := valid.cursor_lt
  have hlimit := valid.length_le
  refine ⟨_, p, rfl, hcat, hpos, ?_⟩
  convert hlast using 1 <;> simp only [rightEdge] <;> omega

theorem Trail.blames_left (h : Trail w (-1) trail) (hd : displacement w < 0) :
    w.Blames (.moveLeft (-displacement w) pos trail) .underflow leftEdge := by
  intro σ dev cfg s t f valid failed
  have hlength : (trail.length : Int) = -displacement w := by
    have := h.length
    omega
  obtain ⟨n, hunknown, -⟩ | ⟨g, hmove, rfl⟩ := Instr.failed_cases failed
  · cases hunknown
  obtain ⟨hcat, p, -, hget, hpos⟩ :=
    Instr.place_of_underflow valid (by omega) hlength hmove
  have hlast := (h.last _ p hget).shift s.tape.cursor
  refine ⟨_, p, rfl, hcat, hpos, ?_⟩
  convert hlast using 1 <;> simp only [leftEdge] <;> omega

end Walk

/-- **A merged move remembers exactly the symbols that were not taken back.** A run of moves by one
cell, as they are read, is compacted to nothing exactly if it comes back to where it began. Else it
becomes one move by its displacement. The trail of that move has one place per step: that of the
last symbol which takes the walk this step further away from its beginning; and the move stands at
the first of them. So if the move fails, then at the place of the last symbol whose stride, from the
cell of the cursor on, goes over the edge of the tape. -/
theorem merged_move_remembers (w : Walk) (level : Int) :
    (w.program.compact level = [] ↔ w.displacement = 0) ∧
    (0 < w.displacement → ∃ trail,
      w.program.compact level = [.moveRight w.displacement trail.head? trail] ∧
        w.Trail 1 trail ∧
        w.Blames (.moveRight w.displacement trail.head? trail) .outOfMemory Walk.rightEdge) ∧
    (w.displacement < 0 → ∃ trail,
      w.program.compact level = [.moveLeft (-w.displacement) trail.head? trail] ∧
        w.Trail (-1) trail ∧
        w.Blames (.moveLeft (-w.displacement) trail.head? trail) .underflow Walk.leftEdge) := by
  obtain ⟨ε, trail, htrail, hout⟩ := Walk.exists_trail level w
  have hlength := htrail.length
  refine ⟨?_, fun hd => ?_, fun hd => ?_⟩
  · rw [hout, Option.toList_eq_nil_iff]
    exact ⟨fun h => Move.offset_of_toInstr?_eq_none h, fun h => Move.toInstr?_of_zero h⟩
  · obtain rfl : ε = 1 := by rcases htrail.direction with rfl | rfl <;> omega
    rw [Move.toInstr?_of_pos hd] at hout
    exact ⟨trail, hout, htrail, htrail.blames_right hd⟩
  · obtain rfl : ε = -1 := by rcases htrail.direction with rfl | rfl <;> omega
    rw [Move.toInstr?_of_neg hd] at hout
    exact ⟨trail, hout, htrail, htrail.blames_left hd⟩

/-- A zigzag over three lines that ends two cells left of its beginning. From the second cell it
leaves the tape with its last stride, as it has done before. And a walk that ends on the right. -/
theorem merged_move_remembers_zigzag :
    let w : Walk :=
      [.right ⟨1, 1⟩, .left ⟨2, 1⟩, .left ⟨2, 2⟩, .left ⟨2, 3⟩, .right ⟨3, 1⟩, .left ⟨3, 2⟩]
    let v : Walk := [.left ⟨1, 1⟩, .right ⟨1, 2⟩, .right ⟨1, 3⟩]
    w.displacement < 0 ∧
      w.program.compact 1 = [.moveLeft 2 (some ⟨2, 2⟩) [⟨2, 2⟩, ⟨3, 2⟩]] ∧
      w.Trail (-1) [⟨2, 2⟩, ⟨3, 2⟩] ∧
      (∃ (s : State Unit) (err : RuntimeError) (p : Position), s.tape.Valid ∧ s.tape.cursor = 1 ∧
        (Instr.moveLeft 2 (some ⟨2, 2⟩) [⟨2, 2⟩, ⟨3, 2⟩]).act .sink ⟨.zero, .byte⟩ s =
          (some (.fault err), s) ∧
        err.position = some p ∧ w.LastCrossing 1 0 (-1) p) ∧
      0 < v.displacement ∧ ∃ trail, v.program.compact 0 = [.moveRight 1 trail.head? trail] ∧
        v.Trail 1 trail := by
  intro w v
  have hw : w.displacement < 0 := by decide
  have hv : 0 < v.displacement := by decide
  have hout : w.program.compact 1 = [.moveLeft 2 (some ⟨2, 2⟩) [⟨2, 2⟩, ⟨3, 2⟩]] := by
    rw [Program.compact_eq]
    rfl
  obtain ⟨trail, hnode, htrail, hblames⟩ := (merged_move_remembers w 1).2.2 hw
  obtain ⟨-, -, rfl⟩ := Instr.moveLeft.inj (List.cons.inj (hout.symm.trans hnode)).1
  obtain ⟨trail, hright, hvtrail, -⟩ := (merged_move_remembers v 0).2.1 hv
  let s : State Unit := .start ((Tape.blank 2 4).goto 1) ()
  have valid : s.tape.Valid := (Tape.valid_blank (by decide) (by decide)).goto (by decide)
  obtain ⟨err, p, herr, -, hpos, hlast⟩ := hblames Unit .sink ⟨.zero, .byte⟩ s _ _ valid rfl
  refine ⟨hw, hout, htrail, ⟨s, err, p, valid, rfl, ?_, hpos, hlast⟩, hv, trail, hright, hvtrail⟩
  rw [← herr]
  rfl

end TapeLang
