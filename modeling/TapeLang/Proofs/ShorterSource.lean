import TapeLang.Proofs.Reloading
import TapeLang.Proofs.Spelling
import TapeLang.Proofs.Weights

/-!
# Compacted programs have no longer source

The number of symbols that an instruction is printed as is a weight (`Run.weighs_printed`): a move
costs its distance, a change of the cell its size and an assignment a clear loop and the shorter way
from zero to its value, `Cell.fromZero`. Distances obey the triangle inequality, also around the end
of the cell range (`Cell.fromZero_add_le`), so merged runs cost no more than the two of them; and a
clear loop has at least one symbol in its body, so it costs no less than the assignment it is folded
into.

* `Program.length_symbols`: the weight of a program is the length of its source.
* `compacted_source_no_longer`: so the source of a compacted program is no longer than that of the
  program, and that of a loaded one has at most as many characters as the text has commands.
-/

namespace TapeLang

/-! ### The way from zero -/

namespace Cell

/-- The number of unit steps from zero to the value `v` of a cell: up, or, past the middle of the
range, down. -/
def fromZero (v : Int) : Nat :=
  if modulus / 2 < v then (modulus - v).toNat else v.toNat

/-- **The triangle inequality** for a change by `d`, which may go around the end of the range. -/
theorem fromZero_add_le (v d : Int) :
    fromZero ((v + d) % modulus) ≤ fromZero (v % modulus) + d.natAbs := by
  unfold fromZero modulus
  split <;> split <;> omega

theorem toNat_emod_le {d : Int} (h : 0 < d) : (d % modulus).toNat ≤ d.natAbs := by
  unfold modulus
  omega

end Cell

/-! ### Printed lengths -/

mutual

/-- The number of symbols that an instruction is printed as. An unknown instruction is not
printed. -/
def Instr.printedLength : Instr → Nat
  | .moveRight n _ _ | .moveLeft n _ _ | .add n _ | .sub n _ => n.toNat
  | .set v _ => 3 + Cell.fromZero v
  | .output _ | .input _ => 1
  | .loop body _ => Program.printedLength body + 2
  | .unknown _ => 0

/-- The number of symbols that a program is printed as. -/
def Program.printedLength : Program → Nat
  | [] => 0
  | i :: rest => i.printedLength + Program.printedLength rest

end

namespace Program

theorem printedLength_eq_weight (p : Program) :
    p.printedLength = weight Instr.printedLength p := by
  induction p with
  | nil => simp [printedLength]
  | cons i p ih => rw [printedLength, weight_cons, ih]

theorem length_symbols_instr {i : Instr} {l : List Symbol} (h : i.symbols = .ok l)
    (body : ∀ b pos, i = .loop b pos → ∀ inner, symbols b = .ok inner →
      inner.length = printedLength b) : l.length = i.printedLength := by
  cases i with
  | moveRight | moveLeft | add | sub | output | input =>
    cases h
    simp [Instr.printedLength, Symbol.times]
  | set v p =>
    cases h
    have hclear : Symbol.clear.length = 3 := rfl
    rw [Instr.printedLength, List.length_append, hclear, Cell.fromZero]
    split <;> simp [Symbol.times]
  | loop b pos =>
    obtain ⟨inner, hinner, rfl⟩ := Instr.symbols_loop_eq_ok.1 h
    have hlen := body b pos rfl inner hinner
    rw [Instr.printedLength, List.length_cons, List.length_append, List.length_singleton]
    omega
  | unknown => cases h

/-- A program is printed as many symbols as it weighs. -/
theorem length_symbols (p : Program) : ∀ l : List Symbol, p.symbols = .ok l →
    l.length = p.printedLength := by
  induction p using Program.induction with
  | nil =>
    intro l h
    cases h
    simp [printedLength]
  | cons i r body rest =>
    intro l h
    obtain ⟨a, c, ha, hc, rfl⟩ := symbols_cons_eq_ok.1 h
    rw [List.length_append, printedLength, rest c hc, length_symbols_instr ha body]

end Program

/-! ### Merging -/

/-- The number of symbols that a cell operation costs, before it is reduced to the cell range. -/
def CellOp.printedLength : CellOp → Nat
  | shift d _ => d.natAbs
  | assign v _ => 3 + Cell.fromZero (v % Cell.modulus)

/-- The number of symbols that a run costs. -/
def Run.printedLength : Run → Nat
  | move m => m.offset.natAbs
  | cell c => c.printedLength

theorem Run.printedLength_of_ofInstr? {i : Instr} {r : Run} (hi : i.inRange = true)
    (h : ofInstr? i = some r) : r.printedLength = i.printedLength := by
  cases i with
  | moveRight n p t | moveLeft n p t =>
    have hn : 1 ≤ n := of_decide_eq_true hi
    cases h
    simp only [printedLength, Instr.printedLength]
    omega
  | add d p | sub d p =>
    have hd : 1 ≤ d ∧ d < Cell.modulus := of_decide_eq_true hi
    cases h
    simp only [printedLength, CellOp.printedLength, Instr.printedLength]
    omega
  | set v p =>
    have hv : 0 ≤ v ∧ v < Cell.modulus := of_decide_eq_true hi
    cases h
    rw [printedLength, CellOp.printedLength, Instr.printedLength, Int.emod_eq_of_lt hv.1 hv.2]
  | output | input | loop | unknown => cases h

theorem CellOp.printedLength_merge : ∀ a b : CellOp,
    (a.merge b).printedLength ≤ a.printedLength + b.printedLength
  | .shift c _, .shift d _ => by
    simp only [merge, printedLength]
    omega
  | .assign v _, .shift d _ => by
    have htriangle := Cell.fromZero_add_le v d
    simp only [merge, printedLength]
    omega
  | .shift .., .assign .. => by
    simp only [merge]
    omega
  | .assign .., .assign .. => by
    simp only [merge]
    omega

/-- Merging costs nothing. -/
theorem Run.printedLength_merge? {a b c : Run} (h : a.merge? b = some c) :
    c.printedLength ≤ a.printedLength + b.printedLength := by
  rcases a with m | a <;> rcases b with n | b <;> cases h
  · have hoff := Move.offset_merge m n
    simp only [printedLength]
    omega
  · exact CellOp.printedLength_merge a b

theorem Run.printedLength_toInstr? {r : Run} {i : Instr} (h : r.toInstr? = some i) :
    i.printedLength ≤ r.printedLength := by
  rcases r with m | ⟨d, p⟩ | ⟨v, p⟩
  · rcases Int.lt_trichotomy m.offset 0 with hneg | hzero | hpos
    · rw [toInstr?, Move.toInstr?_of_neg hneg] at h
      cases h
      simp only [printedLength, Instr.printedLength]
      omega
    · rw [toInstr?, Move.toInstr?_of_zero hzero] at h
      cases h
    · rw [toInstr?, Move.toInstr?_of_pos hpos] at h
      cases h
      simp only [printedLength, Instr.printedLength]
      omega
  · by_cases h0 : d % Cell.modulus = 0
    · rw [toInstr?, CellOp.toInstr?_of_cancelled h0] at h
      cases h
    by_cases hd : 0 < d
    · have hle := Cell.toNat_emod_le hd
      rw [toInstr?, CellOp.toInstr?_of_pos h0 hd] at h
      cases h
      exact hle
    · have hpos : 0 < -d := by
        unfold Cell.modulus at h0
        omega
      have hle := Cell.toNat_emod_le hpos
      rw [toInstr?, CellOp.toInstr?_of_neg h0 hd] at h
      cases h
      simp only [printedLength, CellOp.printedLength, Instr.printedLength]
      omega
  · cases h
    exact Nat.le_refl _

theorem Instr.Canonical.inRange {i : Instr} (h : i.Canonical) : i.inRange = true := by
  cases i with
  | moveLeft | moveRight => exact decide_eq_true h.1
  | add | sub | set => exact decide_eq_true h
  | _ => rfl

/-- **The printed length is a weight.** -/
theorem Run.weighs_printed :
    Run.Weighs Instr.inRange Instr.printedLength Run.printedLength where
  canonical h := h.inRange
  ofInstr? hi h := Nat.le_of_eq (printedLength_of_ofInstr? hi h)
  merge? h := printedLength_merge? h
  toInstr? h := printedLength_toInstr? h
  loop {b c} pos h := by
    rw [← Program.printedLength_eq_weight, ← Program.printedLength_eq_weight] at h
    rw [Instr.printedLength, Instr.printedLength]
    omega
  clear {b} pos hc hb := by
    -- the change in the body is odd, so it has a symbol of its own
    obtain ⟨i, d, p, rfl, hi, hodd⟩ := Program.exists_of_isClearLoop hc
    have hlen := printedLength_of_ofInstr? (hb i (.head _)).inRange hi
    have hzero : Cell.fromZero 0 = 0 := rfl
    simp only [printedLength, CellOp.printedLength] at hlen
    simp only [Instr.printedLength, Program.printedLength]
    omega

/-! ### Source texts -/

namespace Program

theorem length_emit {p : Program} {l : List Symbol} (h : p.symbols = .ok l) :
    ∃ source, p.emit = .ok source ∧ source.length = p.printedLength := by
  refine ⟨Symbol.text l, emit_of_symbols h, ?_⟩
  rw [Symbol.text, String.length_ofList, List.length_map]
  exact p.length_symbols l h

theorem printedLength_compact_le (level : Int) {p : Program}
    (hp : p.throughout Instr.inRange = true) :
    (p.compact level).printedLength ≤ p.printedLength := by
  rw [printedLength_eq_weight, printedLength_eq_weight]
  exact weight_compact_le Run.weighs_printed level hp

/-- A program that can be printed can be printed when it is compacted. -/
theorem exists_emit_compact (level : Int) {p : Program}
    (known : p.throughout Instr.isKnown = true) :
    ∃ source, (p.compact level).emit = .ok source ∧
      source.length = (p.compact level).printedLength := by
  obtain ⟨l, hl⟩ := (p.compact level).exists_symbols (isKnown_compact level known)
  exact length_emit hl

end Program

theorem Instr.inRange_of_isUnit {i : Instr} (h : i.isUnit = true) : i.inRange = true := by
  cases i with
  | moveLeft n | moveRight n | add n | sub n =>
    obtain rfl : n = 1 := of_decide_eq_true h
    rfl
  | set | unknown => cases h
  | output | input | loop => rfl

/-- **The source of a compacted program is no longer than that of the program**, if its counts are
positive and its numbers in the cell range, as they are in every program that is read. So what is
printed of a loaded program has at most as many characters as the text has commands. -/
theorem compacted_source_no_longer (level : Int) :
    (∀ p : Program, p.throughout Instr.isKnown = true → p.throughout Instr.inRange = true →
      ∃ source shorter, p.emit = .ok source ∧ (p.compact level).emit = .ok shorter ∧
        shorter.length ≤ source.length) ∧
    ∀ (code : String) (raw : Program), Program.parse code = .ok raw →
      ∃ p notices source, Program.load level code = .ok (p, notices) ∧ p.emit = .ok source ∧
        source.length ≤ code.toList.countP (· ∈ Symbol.alphabet) := by
  refine ⟨fun p known range => ?_, fun code raw h => ?_⟩
  · obtain ⟨l, hl⟩ := p.exists_symbols known
    obtain ⟨source, hs, hlen⟩ := Program.length_emit hl
    obtain ⟨shorter, hs', hlen'⟩ := Program.exists_emit_compact level known
    have hle := Program.printedLength_compact_le level range
    exact ⟨source, shorter, hs, hs', by omega⟩
  · have unit := Program.isUnit_of_parse h
    have known := Program.throughout_imp (fun _ hi => (Instr.isKnown_of_isUnit hi).1) raw unit
    have range := Program.throughout_imp (fun _ => Instr.inRange_of_isUnit) raw unit
    obtain ⟨source, hs, hlen⟩ := Program.exists_emit_compact level known
    have hle := Program.printedLength_compact_le level range
    have hraw := raw.length_symbols _ (Program.symbols_of_parse h)
    have hcount : (Symbol.ofText code).length = code.toList.countP (· ∈ Symbol.alphabet) := by
      rw [List.countP_eq_length_filter, ← Symbol.map_char_filterMap_ofChar?, List.length_map]
      rfl
    exact ⟨raw.compact level, _, source, Program.load_of_parse level h, hs, by omega⟩

/-- An assignment that is reached from above takes in an addition over the end of the cell range,
and moves cancel out. And a text with comments, whose clear loop takes in what follows it. -/
theorem compacted_source_no_longer_wraparound :
    let p : Program :=
      [.set 4294967290 none, .add 9 none, .moveRight 2 none [], .moveLeft 1 none []]
    (p.throughout Instr.isKnown = true ∧ p.throughout Instr.inRange = true ∧
      p.emit = .ok "[-]------+++++++++>><" ∧ (p.compact 1).emit = .ok "[-]+++>" ∧
      "[-]+++>".length ≤ "[-]------+++++++++>><".length) ∧
    ∃ q notices source, Program.load 1 "++ clear\n[-]-." = .ok (q, notices) ∧
      q.emit = .ok source ∧ source.length ≤ 7 := by
  intro p
  obtain ⟨program, text⟩ := compacted_source_no_longer 1
  have known : p.throughout Instr.isKnown = true := rfl
  have range : p.throughout Instr.inRange = true := rfl
  have hp : p.compact 1 = [.set 3 none, .moveRight 1 none []] := by
    rw [Program.compact_eq]
    rfl
  have hlong : p.emit = .ok "[-]------+++++++++>><" := rfl
  have hshort : (p.compact 1).emit = .ok "[-]+++>" := by
    rw [hp]
    rfl
  obtain ⟨source, shorter, hs, hs', hle⟩ := program p known range
  obtain rfl : "[-]------+++++++++>><" = source := Except.ok.inj (hlong.symm.trans hs)
  obtain rfl : "[-]+++>" = shorter := Except.ok.inj (hshort.symm.trans hs')
  exact ⟨⟨known, range, hlong, hshort, hle⟩, text "++ clear\n[-]-." _ rfl⟩

end TapeLang
