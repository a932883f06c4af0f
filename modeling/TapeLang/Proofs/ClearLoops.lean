import TapeLang.Proofs.RunMeaning
import Mathlib.Data.Int.GCD
import Mathlib.Data.Nat.Find
import Mathlib.Data.Nat.Prime.Basic
import Mathlib.Tactic.NormNum

/-!
# Clear loops

A loop whose body changes the cell by an odd number and does nothing else always ends, with the cell
at zero: an odd number is a unit modulo the cell range, so some multiple of it takes any number to
zero (`exists_steps_to_zero`), and the loop stops at the first one (`exec_clear`).

* `refines_clear`: an assignment of zero may stand for a clear loop, under every comparison by the
  tape.
-/

namespace TapeLang

variable {σ : Type} {dev : Device σ} {cfg : Settings}

/-- Steps of an odd width lead from everywhere to zero. -/
theorem exists_steps_to_zero {d : Int} (hd : d % 2 = 1) (v : Int) :
    ∃ k : Nat, (v + k * d) % Cell.modulus = 0 := by
  have hodd : (d % 4294967296).toNat % 2 = 1 := by omega
  have hcop : Nat.Coprime (d % 4294967296).toNat (2 ^ 32) :=
    (Nat.coprime_two_right.mpr (Nat.odd_iff.mpr hodd)).pow_right 32
  obtain ⟨k, -, hk⟩ :=
    Nat.exists_mul_mod_eq_of_coprime (-v % 4294967296).toNat hcop (by norm_num)
  refine ⟨k, ?_⟩
  have hd' : ((d % 4294967296).toNat : Int) = d % 4294967296 := by omega
  have hv' : ((-v % 4294967296).toNat : Int) = -v % 4294967296 := by omega
  have hk' : (d % 4294967296 * k) % 4294967296 = -v % 4294967296 % 4294967296 := by
    rw [← hd', ← hv']
    exact_mod_cast hk
  rw [Int.mul_emod, Int.emod_emod, ← Int.mul_emod, Int.mul_comm] at hk'
  unfold Cell.modulus
  omega

/-- There is a least number of such steps. -/
theorem exists_least_steps_to_zero {d : Int} (hd : d % 2 = 1) (v : Int) :
    ∃ k : Nat, (v + k * d) % Cell.modulus = 0 ∧ ∀ j < k, (v + j * d) % Cell.modulus ≠ 0 := by
  classical
  have hex := exists_steps_to_zero hd v
  exact ⟨Nat.find hex, Nat.find_spec hex, fun j hj => Nat.find_min hex hj⟩

section Clear
variable {i : Instr} {d : Int} {p : Option Position}

theorem read_eq_zero {t : Tape} (h : (t.read.toNat : Int) % Cell.modulus = 0) : t.read = 0 := by
  rw [← Cell.ofInt_eq_zero_iff, Tape.ofInt_read] at h
  exact h

/-- **A clear loop** ends after as many passes as it takes to reach zero. -/
theorem exec_clear (hi : Run.ofInstr? i = some (.cell (.shift d p))) (pos : Option Position) :
    ∀ (k : Nat) (s : State σ), s.tape.Valid →
      (s.tape.read.toNat + k * d) % Cell.modulus = 0 →
      (∀ j < k, (s.tape.read.toNat + j * d) % Cell.modulus ≠ 0) →
      Exec dev cfg [.loop [i] pos] s ⟨none, s.put 0 (1 + 2 * k)⟩
  | 0, s, hs, h, _ => by
    have hz : (s.tape.read.toNat : Int) % Cell.modulus = 0 := by simpa using h
    have hput : s.put s.tape.read.toNat (1 + 2 * 0) = s.put 0 (1 + 2 * 0) := s.put_congr hz _
    rw [← hput, State.put_read hs]
    exact .skip (read_eq_zero hz) .nil
  | k + 1, s, hs, h, hne => by
    have hnz : s.tape.read ≠ 0 := by
      intro hz
      have h0 := hne 0 (by omega)
      rw [hz] at h0
      exact h0 (by simp)
    have hpass : Exec dev cfg [i] s.tick _ := exec_cell hi hs
    -- after one pass there is one step less to go
    have hread : ((s.tick.put (s.tape.read.toNat + d) 1).tape.read.toNat : Int) = _ :=
      State.read_put hs (s.tape.read.toNat + d) 1
    have hstep : ∀ j : Nat,
        (((s.tick.put (s.tape.read.toNat + d) 1).tape.read.toNat : Int) + j * d) % Cell.modulus =
          (s.tape.read.toNat + (j + 1 : Nat) * d) % Cell.modulus := by
      intro j
      rw [hread, Int.emod_add_emod, Int.natCast_add, Int.add_mul]
      congr 1
      omega
    have hrest := exec_clear hi pos k (s.tick.put (s.tape.read.toNat + d) 1) (hs.write _)
      (by rw [hstep]; exact h) (fun j hj => by rw [hstep]; exact hne (j + 1) (by omega))
    rw [State.put_put] at hrest
    have hput : s.tick.put 0 (1 + (1 + 2 * k)) = s.put 0 (1 + 2 * (k + 1)) := by
      unfold State.put State.tick
      congr 1
      show s.steps + 1 + (1 + (1 + 2 * k)) = s.steps + (1 + 2 * (k + 1))
      omega
    rw [hput] at hrest
    exact .again hnz hpass hrest

/-- A clear loop ends, from every valid tape. -/
theorem exists_exec_clear (dev : Device σ) (cfg : Settings)
    (hi : Run.ofInstr? i = some (.cell (.shift d p))) (hd : d % 2 = 1) (pos : Option Position)
    {s : State σ} (hs : s.tape.Valid) :
    ∃ k, Exec dev cfg [.loop [i] pos] s ⟨none, s.put 0 (1 + 2 * k)⟩ := by
  obtain ⟨k, hk, hne⟩ := exists_least_steps_to_zero hd s.tape.read.toNat
  exact ⟨k, exec_clear hi pos k s hs hk hne⟩

end Clear

theorem Program.exists_of_isClearLoop {b : Program} (h : b.isClearLoop = true) :
    ∃ i d p, b = [i] ∧ Run.ofInstr? i = some (.cell (.shift d p)) ∧ d % 2 = 1 := by
  unfold isClearLoop at h
  split at h
  · next d p => exact ⟨_, d, p, rfl, rfl, of_decide_eq_true h⟩
  · next d p =>
    have := of_decide_eq_true h
    exact ⟨_, -d, p, rfl, rfl, by omega⟩
  · cases h

/-- **An assignment of zero may stand for a clear loop.** -/
theorem refines_clear {T : Tape.Likeness} {P : Failure → Prop} {b : Program}
    (h : b.isClearLoop = true) (pos' pos : Option Position) :
    (Comparison.byTape dev cfg T P).Refines [.set 0 pos'] [.loop b pos] := by
  obtain ⟨i, d, p, rfl, hi, hd⟩ := Program.exists_of_isClearLoop h
  refine Comparison.refines_of_saves fun s hs => ?_
  obtain ⟨k, hk⟩ := exists_exec_clear dev cfg hi hd pos hs
  have hset : Exec dev cfg [.set 0 pos'] s ⟨none, s.put 0 1⟩ :=
    exec_cell (c := .assign 0 pos') rfl hs
  refine ⟨_, s.steps + 1, ?_, hk, hset⟩
  show s.steps + 1 ≤ s.steps + (1 + 2 * k)
  omega

end TapeLang
