import TapeLang.Proofs.CompactMeaning
import Mathlib.RingTheory.Coprime.Lemmas

/-!
# Which loops clear their cell

A loop whose body is one change of the cell by `δ` walks through the cell range in strides of `δ`.
For odd `δ` it passes zero whatever it starts from, after a number of passes that is determined by
where it starts; for even `δ` it keeps away from zero if it starts from an odd number. So the test
for clear loops, which asks if `δ` is odd, finds them all.

* `Clearing.unique`, `Clearing.of_least`: the number of passes below the size of the range that lead
  to zero is unique, and it is the least of all.
* `not_exec_even`: a loop with an even stride does not come to an end from an odd number.
* `clear_loops_exact`: what both mean for the machine, wherever in a program the loop stands.
-/

namespace TapeLang

variable {σ : Type} {dev : Device σ} {cfg : Settings}

/-! ### Strides -/

/-- From `v`, `k` strides of `δ` lead to zero, and `k` is a number in the cell range. -/
structure Clearing (v δ : Int) (k : Nat) : Prop where
  lt : k < Cell.modulus
  dvd : Cell.modulus ∣ v + k * δ

theorem Cell.isCoprime_modulus {δ : Int} (odd : δ % 2 = 1) : IsCoprime modulus δ := by
  have two : IsCoprime (2 : Int) δ := by
    rw [Int.isCoprime_iff_gcd_eq_one, Int.gcd_comm, ← Int.gcd_emod, odd]
    rfl
  have pow : IsCoprime ((2 : Int) ^ 32) δ := two.pow_left
  exact pow

namespace Clearing

variable {v δ : Int} {j k : Nat}

/-- Odd strides lead to zero in one way only. -/
theorem unique (odd : δ % 2 = 1) (hj : Clearing v δ j) (hk : Clearing v δ k) : j = k := by
  have hmul : Cell.modulus ∣ ((j : Int) - k) * δ := by
    have hsub := dvd_sub hj.dvd hk.dvd
    have heq : v + j * δ - (v + k * δ) = ((j : Int) - k) * δ := by ring
    rwa [heq] at hsub
  obtain ⟨q, hq⟩ : Cell.modulus ∣ (j : Int) - k :=
    (Cell.isCoprime_modulus odd).dvd_of_dvd_mul_right hmul
  have h1 := hj.lt
  have h2 := hk.lt
  unfold Cell.modulus at hq h1 h2
  omega

/-- The least number of strides that lead to zero is in the cell range. -/
theorem of_least (zero : (v + k * δ) % Cell.modulus = 0)
    (least : ∀ j < k, (v + j * δ) % Cell.modulus ≠ 0) : Clearing v δ k := by
  refine ⟨?_, Int.dvd_of_emod_eq_zero zero⟩
  by_contra hlt
  -- as many strides as there are numbers in the range could be left out
  obtain ⟨j, rfl⟩ : ∃ j, k = j + 4294967296 := by
    refine ⟨k - 4294967296, ?_⟩
    unfold Cell.modulus at hlt
    omega
  refine least j (by omega) ?_
  rw [← zero, Int.natCast_add, Int.add_mul, ← Int.add_assoc]
  exact (Int.add_mul_emod_self_left _ _ _).symm

end Clearing

/-! ### Loops with an even stride -/

section Even
variable {i : Instr} {δ : Int} {p pos : Option Position}

/-- **An even stride from an odd number** leads to an odd number again, so the loop goes on. -/
theorem not_exec_even (hi : Run.ofInstr? i = some (.cell (.shift δ p))) (even : δ % 2 = 0)
    {rest : Program} {s : State σ} {e : Ending σ} (hs : s.tape.Valid)
    (odd : s.tape.read.toNat % 2 = 1) : ¬ Exec dev cfg (.loop [i] pos :: rest) s e := by
  intro h
  generalize hprog : Instr.loop [i] pos :: rest = prog at h
  induction h with
  | nil => cases hprog
  | act simple => cases hprog; cases simple
  | fail simple => cases hprog; cases simple
  | skip zero =>
    rw [zero] at odd
    cases odd
  | @again _ _ _ s t _ _ pass _ _ ih =>
    cases hprog
    have hpass : Exec dev cfg [i] s.tick ⟨none, s.tick.put (s.tape.read.toNat + δ) 1⟩ :=
      exec_cell hi hs
    cases hpass.unique pass
    refine ih (hs.write _) ?_ rfl
    have hread : ((s.tick.put (s.tape.read.toNat + δ) 1).tape.read.toNat : Int) = _ :=
      State.read_put hs (s.tape.read.toNat + δ) 1
    unfold Cell.modulus at hread
    omega
  | @stop _ _ _ s _ _ _ pass =>
    cases hprog
    have hpass : Exec dev cfg [i] s.tick ⟨none, s.tick.put (s.tape.read.toNat + δ) 1⟩ :=
      exec_cell hi hs
    cases hpass.unique pass

theorem not_ends_even (hi : Run.ofInstr? i = some (.cell (.shift δ p))) (even : δ % 2 = 0)
    {rest : Program} {frames : List Program} {s : State σ} {e : Ending σ} (hs : s.tape.Valid)
    (odd : s.tape.read.toNat % 2 = 1) :
    ¬ Machine.Ends dev cfg ⟨(.loop [i] pos :: rest) :: frames, s⟩ e := by
  rintro ⟨n, hn⟩
  rcases exec_of_run n _ _ _ _ hn with ⟨t, k, -, ht, -⟩ | ⟨f, t, ht, -⟩
  · exact not_exec_even hi even hs odd ht
  · exact not_exec_even hi even hs odd ht

end Even

/-! ### The test for clear loops -/

/-- `u` is the tape `t` with zero in the cell under the cursor, and nothing else changed. -/
structure Tape.Cleared (t u : Tape) : Prop where
  read : u.read = 0
  others k : k ≠ t.cursor → u.cells.getD k 0 = t.cells.getD k 0
  length : u.length = t.length
  limit : u.limit = t.limit
  cursor : u.cursor = t.cursor
  highWater : u.highWater = t.highWater

theorem Tape.Valid.cleared {t : Tape} (h : t.Valid) : t.Cleared (t.write 0) where
  read := Tape.read_write h.cursor_lt 0
  others k hk := by rw [h.getD_write, if_neg hk]
  length := length_write t 0
  limit := rfl
  cursor := rfl
  highWater := rfl

/-- **The test for clear loops is exact.** Let the body of a loop be one instruction, which adds `δ`
to the cell. If the test finds the loop clear, then from every valid tape the loop comes to its end,
with zero in its cell and nothing else changed, in `1 + 2 * k` steps, where `k` is the one number in
the cell range such that `k` changes by `δ` lead to zero. If it does not, then there is a number
from which the loop never ends, whatever follows it. -/
theorem clear_loops_exact (dev : Device σ) (cfg : Settings) {i : Instr} {d δ : Int}
    {p : Option Position} (body : i = .add d p ∧ δ = d ∨ i = .sub d p ∧ δ = -d)
    (pos : Option Position) :
    (Program.isClearLoop [i] = true → ∀ s : State σ, s.tape.Valid →
      ∃ k t, Clearing s.tape.read.toNat δ k ∧ (∀ j, Clearing s.tape.read.toNat δ j → j = k) ∧
        s.tape.Cleared t ∧ ∀ rest frames,
          Machine.Reaches dev cfg ⟨(.loop [i] pos :: rest) :: frames, s⟩
            ⟨rest :: frames, { s with tape := t, steps := s.steps + (1 + 2 * k) }⟩) ∧
    (Program.isClearLoop [i] = false → ∃ v : Cell, ∀ s : State σ, s.tape.Valid →
      s.tape.read = v → ∀ rest frames e,
        ¬ Machine.Ends dev cfg ⟨(.loop [i] pos :: rest) :: frames, s⟩ e) := by
  have hi : Run.ofInstr? i = some (.cell (.shift δ p)) := by
    rcases body with ⟨rfl, rfl⟩ | ⟨rfl, rfl⟩ <;> rfl
  have htest : Program.isClearLoop [i] = decide (δ % 2 = 1) := by
    rcases body with ⟨rfl, rfl⟩ | ⟨rfl, rfl⟩
    · rfl
    · exact decide_eq_decide.2 (by omega)
  rw [htest]
  constructor
  · intro clear s hs
    have odd : δ % 2 = 1 := of_decide_eq_true clear
    obtain ⟨k, zero, least⟩ := exists_least_steps_to_zero odd s.tape.read.toNat
    have hk : Clearing s.tape.read.toNat δ k := .of_least zero least
    refine ⟨k, s.tape.write 0, hk, fun j hj => hj.unique odd hk, hs.cleared, fun rest frames => ?_⟩
    exact (exec_clear hi pos k s hs zero least).reaches_append rest frames
  · intro unclear
    have even : δ % 2 = 0 := by
      have := of_decide_eq_false unclear
      omega
    refine ⟨1, fun s hs hread rest frames e => not_ends_even hi even hs ?_⟩
    rw [hread]
    rfl

/-- Three strides of three lead from nine to zero, and no number of strides of two leads there from
some other number. -/
theorem clear_loops_exact_strides :
    (∃ s t : State Unit, s.tape.Valid ∧ s.tape.read = 9 ∧
      Program.isClearLoop [.sub 3 none] = true ∧ s.tape.Cleared t.tape ∧ t.steps = 7 ∧
      Machine.Reaches .sink ⟨.zero, .byte⟩ ⟨[[.loop [.sub 3 none] none]], s⟩ ⟨[[]], t⟩) ∧
    Program.isClearLoop [.add 2 none] = false ∧
      ∃ s : State Unit, s.tape.Valid ∧ ∀ e,
        ¬ (Machine.start [.loop [.add 2 none] none] s).Ends .sink ⟨.zero, .byte⟩ e := by
  have valid : ∀ v, (State.small.put v 0).tape.Valid := State.valid_small.write
  have clear := clear_loops_exact .sink ⟨.zero, .byte⟩ (i := .sub 3 none) (.inr ⟨rfl, rfl⟩) none
  have unclear := clear_loops_exact .sink ⟨.zero, .byte⟩ (i := .add 2 none) (.inl ⟨rfl, rfl⟩) none
  refine ⟨?_, rfl, ?_⟩
  · obtain ⟨k, t, -, unique, cleared, reaches⟩ := clear.1 rfl (State.small.put 9 0) (valid 9)
    have three : Clearing (State.small.put 9 0).tape.read.toNat (-3) 3 := ⟨by decide, by decide⟩
    obtain rfl := unique 3 three
    exact ⟨_, _, valid 9, rfl, rfl, cleared, rfl, reaches [] []⟩
  · obtain ⟨v, never⟩ := unclear.2 rfl
    refine ⟨State.small.put v.toNat 0, valid _, never _ (valid _) ?_ [] []⟩
    rw [← UInt32.toNat_inj, ← Int.natCast_inj, State.read_put State.valid_small, Cell.modulus]
    have := v.toNat_lt
    omega

end TapeLang
