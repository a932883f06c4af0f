import TapeLang.Tape.Basic

/-!
# Operations on valid tapes

What the operations do to a valid tape, cell by cell, and that it stays valid.

* Writing and changing the cell are one operation: `Tape.Valid.change_eq_write` turns a change into
  a write of the sum, and of two writes the last one counts (`Tape.write_write`).
* `Tape.Moved` is what a move that succeeds leaves; `Tape.Valid.move_ok`, `Tape.move_underflow` and
  `Tape.Valid.move_outOfMemory` say, by the target alone, which moves succeed: those to a cell from
  the first up to the limit, whatever the length of the tape.
* `Tape.Valid.raised_of_move`: the others raise their error, unless the number of the target is too
  long to be written.
-/

namespace TapeLang

namespace Tape

/-! ### New tapes -/

theorem make_eq_ok {initial limit : Int} {t : Tape} : make initial limit = .ok t ↔
    (1 ≤ initial ∧ initial ≤ limit) ∧ t = blank initial.toNat limit.toNat := by
  unfold make
  by_cases h1 : initial < 1
  · rw [if_pos h1]
    exact ⟨fun h => (nomatch h), fun h => by omega⟩
  by_cases h2 : limit < initial
  · rw [if_neg h1, if_pos h2]
    exact ⟨fun h => (nomatch h), fun h => by omega⟩
  · rw [if_neg h1, if_neg h2, Except.ok.injEq]
    exact ⟨fun h => ⟨by omega, h.symm⟩, fun h => h.2.symm⟩

/-- A new tape is valid and has the sizes that it was made with. -/
theorem valid_of_make {initial limit : Int} {t : Tape} (made : make initial limit = .ok t) :
    t.Valid ∧ (t.length : Int) = initial ∧ (t.limit : Int) = limit := by
  obtain ⟨⟨h1, h2⟩, rfl⟩ := make_eq_ok.1 made
  have hlength : (blank initial.toNat limit.toNat).length = initial.toNat := by
    simp [blank, length]
  have hlimit : (blank initial.toNat limit.toNat).limit = limit.toNat := rfl
  exact ⟨valid_blank (by omega) (by omega), by omega, by omega⟩

/-! ### Cells -/

theorem Valid.cursor_lt {t : Tape} (h : t.Valid) : t.cursor < t.length := by
  have h1 := h.cursor_le
  have h2 := h.highWater_lt
  omega

theorem Valid.getD_write {t : Tape} (h : t.Valid) (v : Int) (k : Nat) :
    (t.write v).cells.getD k 0 = if k = t.cursor then Cell.ofInt v else t.cells.getD k 0 := by
  have hlt : t.cursor < t.cells.size := h.cursor_lt
  rw [write, Array.getD_eq_getD_getElem?, Array.getElem?_setIfInBounds]
  by_cases hk : k = t.cursor
  · rw [if_pos hk.symm, if_pos hlt, if_pos hk, Option.getD_some]
  · rw [if_neg (fun he => hk he.symm), if_neg hk, Array.getD_eq_getD_getElem?]

theorem write_write (t : Tape) (v w : Int) : (t.write v).write w = t.write w := by
  simp [write]

theorem write_congr (t : Tape) {v w : Int} (h : v % Cell.modulus = w % Cell.modulus) :
    t.write v = t.write w := by
  rw [write, (Cell.ofInt_eq_iff v w).mpr h, write]

theorem ofInt_read (t : Tape) : Cell.ofInt t.read.toNat = t.read := by
  have h := t.read.toNat_lt
  rw [← UInt32.toNat_inj, ← Int.natCast_inj, Cell.toNat_ofInt, Cell.modulus]
  omega

/-- Writing what is there already. -/
theorem Valid.write_read {t : Tape} (h : t.Valid) : t.write t.read.toNat = t := by
  have hlt : t.cursor < t.cells.size := h.cursor_lt
  have hr : t.read = t.cells[t.cursor] := by simp [read, hlt]
  have hcells : t.cells.setIfInBounds t.cursor t.cells[t.cursor] = t.cells := by
    simp [Array.setIfInBounds, hlt]
  rw [write, ofInt_read, hr, hcells]

/-- **A change is a write** of what is there and the change together. -/
theorem Valid.change_eq_write {t : Tape} (h : t.Valid) (d : Int) :
    t.change d = t.write (t.read.toNat + d) := by
  have hlt : t.cursor < t.cells.size := h.cursor_lt
  have hr : t.read = t.cells[t.cursor] := by simp [read, hlt]
  have hcells : t.cells.modify t.cursor (· + Cell.ofInt d) =
      t.cells.setIfInBounds t.cursor (t.cells[t.cursor] + Cell.ofInt d) := by
    refine Array.ext (by simp) fun k h1 h2 => ?_
    rw [Array.getElem_modify, Array.getElem_setIfInBounds (by simpa using h2)]
    by_cases hk : t.cursor = k
    · subst hk
      rfl
    · rw [if_neg hk, if_neg hk]
  rw [write, Cell.ofInt_add, ofInt_read, hr, change, hcells]

theorem Valid.write {t : Tape} (h : t.Valid) (v : Int) : (t.write v).Valid where
  cursor_le := h.cursor_le
  highWater_lt := by rw [length_write]; exact h.highWater_lt
  length_le := by rw [length_write]; exact h.length_le
  zero k hk := by
    have hc : k ≠ t.cursor := by
      have h1 := h.cursor_le
      have h2 : t.highWater < k := hk
      omega
    rw [h.getD_write, if_neg hc]
    exact h.zero k hk

/-! ### Moves -/

/-- What a move by `d` from `t` leaves: no cell has changed, and the high-water mark has risen if
the cursor is beyond it. -/
structure Moved (t u : Tape) (d : Int) : Prop where
  valid : u.Valid
  limit : u.limit = t.limit
  cursor : (u.cursor : Int) = t.cursor + d
  highWater : u.highWater = max t.highWater u.cursor
  getD k : u.cells.getD k 0 = t.cells.getD k 0

theorem Valid.goto {t : Tape} (h : t.Valid) {n : Nat} (hn : n < t.length) : (t.goto n).Valid where
  cursor_le := Nat.le_max_right _ _
  highWater_lt := by
    have := h.highWater_lt
    show max t.highWater n < t.length
    omega
  length_le := h.length_le
  zero k hk := by
    have hk' : max t.highWater n < k := hk
    exact h.zero k (by omega)

theorem Valid.extend {t : Tape} (h : t.Valid) {n : Nat} (hn : n ≤ t.limit) :
    (t.extend n).Valid where
  cursor_le := h.cursor_le
  highWater_lt := by
    have := h.highWater_lt
    show t.highWater < (t.extend n).length
    rw [length_extend]
    omega
  length_le := by
    have := h.length_le
    show (t.extend n).length ≤ t.limit
    rw [length_extend]
    omega
  zero k hk := by
    rw [getD_extend]
    exact h.zero k hk

theorem Valid.move_ok {t : Tape} (h : t.Valid) {d : Int} (h0 : 0 ≤ t.cursor + d)
    (h1 : t.cursor + d < t.limit) : ∃ u, t.move d = .ok u ∧ Moved t u d := by
  have hnat : ((t.cursor + d).toNat : Int) = t.cursor + d := Int.toNat_of_nonneg h0
  unfold move
  rw [if_neg (by omega)]
  by_cases hlen : t.cursor + d < t.length
  · rw [if_pos hlen]
    exact ⟨_, rfl, h.goto (by omega), rfl, hnat, rfl, fun _ => rfl⟩
  · rw [if_neg hlen, if_neg (by omega)]
    -- the tape grows first, at least to the target
    have hgrown : t.grownLength (t.cursor + d).toNat ≤ t.limit := Nat.min_le_right _ _
    have htarget : (t.cursor + d).toNat < t.grownLength (t.cursor + d).toNat := by
      unfold grownLength
      omega
    refine ⟨_, rfl, (h.extend hgrown).goto ?_, rfl, hnat, rfl, fun k => getD_extend t _ k⟩
    rw [length_extend]
    omega

theorem move_underflow {t : Tape} {d : Int} (h : t.cursor + d < 0) :
    t.move d = .error (.underflow (t.cursor + d)) := if_pos h

theorem Valid.move_outOfMemory {t : Tape} (h : t.Valid) {d : Int} (hd : t.limit ≤ t.cursor + d) :
    t.move d = .error (.outOfMemory (t.cursor + d).toNat t.limit) := by
  have hlen := h.length_le
  unfold move
  rw [if_neg (by omega), if_neg (by omega), if_pos (by omega)]

/-- Only moves to a cell from the first up to the limit succeed. -/
theorem Valid.moved {t u : Tape} (h : t.Valid) {d : Int} (hu : t.move d = .ok u) :
    Moved t u d ∧ 0 ≤ t.cursor + d ∧ t.cursor + d < t.limit := by
  rcases Int.lt_or_le (t.cursor + d) 0 with h0 | h0
  · rw [move_underflow h0] at hu
    cases hu
  rcases Int.lt_or_le (t.cursor + d) t.limit with h1 | h1
  · obtain ⟨u', hu', hm⟩ := h.move_ok h0 h1
    rw [hu'] at hu
    cases hu
    exact ⟨hm, h0, h1⟩
  · rw [h.move_outOfMemory h1] at hu
    cases hu

/-- A move fails because the cell is left of the first one or beyond the limit. -/
theorem Valid.move_failed {t : Tape} (h : t.Valid) {d : Int} {f : Fault}
    (hf : t.move d = .error f) :
    t.cursor + d < 0 ∧ f = .underflow (t.cursor + d) ∨
      t.limit ≤ t.cursor + d ∧ f = .outOfMemory (t.cursor + d).toNat t.limit := by
  rcases Int.lt_or_le (t.cursor + d) 0 with h0 | h0
  · rw [move_underflow h0] at hf
    cases hf
    exact .inl ⟨h0, rfl⟩
  rcases Int.lt_or_le (t.cursor + d) t.limit with h1 | h1
  · obtain ⟨u, hu, -⟩ := h.move_ok h0 h1
    cases hu.symm.trans hf
  · rw [h.move_outOfMemory h1] at hf
    cases hf
    exact .inr ⟨h1, rfl⟩

/-- **What a failed move raises** depends on the number of the cell, which is further from zero than
all other numbers of the report. -/
theorem Valid.raised_of_move {t : Tape} (h : t.Valid) {d : Int} {f : Fault} {e : RuntimeError}
    (hf : t.move d = .error f) (he : e.numbers = f.numbers) :
    e.raised = if Text.isWritable (t.cursor + d) then .error e else .tooLong := by
  have hmem : t.cursor + d ∈ e.numbers ∧ ∀ n ∈ e.numbers, n.natAbs ≤ (t.cursor + d).natAbs := by
    rw [he]
    rcases h.move_failed hf with ⟨h0, rfl⟩ | ⟨h1, rfl⟩
    · simp [Fault.numbers]
    · simp only [Fault.numbers, List.mem_cons, List.not_mem_nil, or_false]
      refine ⟨.inl (by omega), ?_⟩
      rintro n (rfl | rfl) <;> omega
  cases hw : Text.isWritable (t.cursor + d) with
  | true => exact RuntimeError.raised_of_writable fun n hn =>
      Text.isWritable_mono (hmem.2 n hn) hw
  | false => exact RuntimeError.raised_of_tooLong hmem.1 hw

end Tape

end TapeLang
