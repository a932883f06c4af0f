import TapeLang.Proofs.Places
import TapeLang.Proofs.Seams
import Mathlib.Algebra.BigOperators.Group.List.Basic

/-!
# Runs of additions and subtractions

A run of additions and subtractions is compacted into one change of the cell, or none. The sum of
the run decides which, but for the sign: what has been summed up so far is reduced to the cell range
after every instruction, and the sign is that of the last remainder (`Program.remainder`), not that
of the sum (`Program.net`). After a wrap around the end of the range the two can differ.

* `Program.extend_ofNet`: one more instruction adds its change to the remainder.
* `Program.bare_compact`: so a run is compacted into the change by its remainder.
* `Program.remainder_emod`, `Program.natAbs_remainder_lt`: the remainder is the sum modulo the cell
  range, and less than the range away from zero.
* `Program.followsNet_iff`: the compacted run is the one the sum asks for unless the sum and the
  remainder have opposite signs. They have not if no partial sum leaves the cell range
  (`Program.remainder_eq_net`), or if all changes go in one direction.
-/

namespace TapeLang

/-! ### Sums and remainders -/

namespace Instr

/-- An addition or a subtraction. -/
def isChange : Instr → Bool
  | add .. | sub .. => true
  | _ => false

/-- What an instruction adds to the cell. -/
def delta : Instr → Int
  | add d _ => d
  | sub d _ => -d
  | _ => 0

end Instr

namespace Cell

variable {x y : Int}

/-- The remainder keeps the sign of the number. -/
theorem tmod_eq (x : Int) :
    x.tmod modulus = if 0 ≤ x then x % modulus else -(-x % modulus) := by
  split
  · next h => exact Int.tmod_eq_emod_of_nonneg h
  · next h =>
    have hneg : 0 ≤ -x := by omega
    rw [← Int.tmod_eq_emod_of_nonneg hneg, Int.neg_tmod, Int.neg_neg]

theorem dvd_congr (h : x % modulus = y % modulus) : modulus ∣ x ↔ modulus ∣ y := by
  rw [Int.dvd_iff_emod_eq_zero, Int.dvd_iff_emod_eq_zero, h]

theorem sign_cases (h : ¬ modulus ∣ x) : x < 0 ∨ 0 < x := by
  unfold modulus at h
  omega

theorem not_dvd (hx : x.natAbs < modulus) (h0 : x ≠ 0) : ¬ modulus ∣ x := by
  unfold modulus at hx ⊢
  omega

end Cell

namespace Program

/-- The sum of the additions less that of the subtractions. -/
def net (p : Program) : Int := (p.map Instr.delta).sum

/-- The sum of the sizes of the changes. -/
def magnitude (p : Program) : Nat := (p.map fun i => i.delta.natAbs).sum

/-- The sum, reduced to the cell range after every instruction. -/
def remainder (p : Program) : Int := p.foldl (fun x i => (x + i.delta).tmod Cell.modulus) 0

theorem net_concat (p : Program) (i : Instr) : net (p ++ [i]) = p.net + i.delta := by
  simp [net]

theorem remainder_concat (p : Program) (i : Instr) :
    remainder (p ++ [i]) = (p.remainder + i.delta).tmod Cell.modulus := by
  simp [remainder]

theorem net_of_perm {p q : Program} (h : p.Perm q) : q.net = p.net :=
  (h.map Instr.delta).sum_eq.symm

theorem magnitude_of_perm {p q : Program} (h : p.Perm q) : q.magnitude = p.magnitude :=
  (h.map fun i : Instr => i.delta.natAbs).sum_eq.symm

theorem magnitude_append (p q : Program) : magnitude (p ++ q) = p.magnitude + q.magnitude := by
  simp [magnitude]

theorem natAbs_net_le (p : Program) : p.net.natAbs ≤ p.magnitude := by
  induction p using List.reverseRecOn with
  | nil => exact Nat.le_refl 0
  | append_singleton p i ih =>
    have hlast : magnitude [i] = i.delta.natAbs := by simp [magnitude]
    rw [net_concat, magnitude_append, hlast]
    omega

/-- No partial sum is larger than all changes together. -/
theorem natAbs_net_le_of_prefix {p q : Program} (h : q <+: p) : q.net.natAbs ≤ p.magnitude := by
  obtain ⟨r, rfl⟩ := h
  have hq := q.natAbs_net_le
  rw [magnitude_append]
  omega

/-- The remainder is less than the cell range away from zero. -/
theorem natAbs_remainder_lt (p : Program) : p.remainder.natAbs < Cell.modulus := by
  induction p using List.reverseRecOn with
  | nil => decide
  | append_singleton p i _ =>
    rw [remainder_concat, Cell.tmod_eq]
    unfold Cell.modulus
    split <;> omega

/-- The remainder is the sum, modulo the cell range. -/
theorem remainder_emod (p : Program) : p.remainder % Cell.modulus = p.net % Cell.modulus := by
  induction p using List.reverseRecOn with
  | nil => rfl
  | append_singleton p i ih =>
    rw [remainder_concat, net_concat, Cell.tmod_eq]
    unfold Cell.modulus at ih ⊢
    split <;> omega

/-- As long as no partial sum leaves the cell range, nothing is reduced. -/
theorem remainder_eq_net (p : Program) :
    (∀ q : Program, q <+: p → q.net.natAbs < Cell.modulus) → p.remainder = p.net := by
  induction p using List.reverseRecOn with
  | nil => exact fun _ => rfl
  | append_singleton p i ih =>
    intro h
    have hlast := h (p ++ [i]) (List.prefix_refl _)
    have hp : remainder p = net p :=
      ih fun q hq => h q (hq.trans (List.prefix_append p [i]))
    rw [net_concat] at hlast
    rw [remainder_concat, net_concat, hp, Cell.tmod_eq]
    unfold Cell.modulus at hlast ⊢
    split <;> omega

/-- Additions alone never bring the sum or the remainder below zero. -/
theorem nonneg_of_rising (p : Program) :
    (∀ i ∈ p, 0 ≤ i.delta) → 0 ≤ p.remainder ∧ 0 ≤ p.net := by
  induction p using List.reverseRecOn with
  | nil => exact fun _ => ⟨Int.le_refl 0, Int.le_refl 0⟩
  | append_singleton p i ih =>
    intro h
    rw [List.forall_mem_append, List.forall_mem_singleton] at h
    obtain ⟨hr, hn⟩ := ih h.1
    have hsum : 0 ≤ remainder p + i.delta := by omega
    rw [remainder_concat, net_concat]
    exact ⟨Int.tmod_nonneg _ hsum, by omega⟩

/-- Subtractions alone never bring the sum or the remainder above zero. -/
theorem nonpos_of_falling (p : Program) :
    (∀ i ∈ p, i.delta ≤ 0) → p.remainder ≤ 0 ∧ p.net ≤ 0 := by
  induction p using List.reverseRecOn with
  | nil => exact fun _ => ⟨Int.le_refl 0, Int.le_refl 0⟩
  | append_singleton p i ih =>
    intro h
    rw [List.forall_mem_append, List.forall_mem_singleton] at h
    obtain ⟨hr, hn⟩ := ih h.1
    have hsum : 0 ≤ -(remainder p + i.delta) := by omega
    have hrest := Int.tmod_nonneg Cell.modulus hsum
    rw [Int.neg_tmod] at hrest
    rw [remainder_concat, net_concat]
    exact ⟨by omega, by omega⟩

end Program

/-! ### Collapsing a run -/

theorem Instr.ofInstr?_bare_change {i : Instr} (h : i.isChange = true) :
    Run.ofInstr? i.bare = some (.cell (.shift i.delta none)) := by
  cases i with
  | add | sub => rfl
  | _ => cases h

theorem Instr.isLoop_of_isChange {i : Instr} (h : i.isChange = true) : i.isLoop = false := by
  cases i with
  | loop => cases h
  | _ => rfl

namespace Program

/-- The change of a cell by `x`: an addition or a subtraction within the cell range, none if `x` is
a multiple of it. -/
def ofNet (x : Int) : Program :=
  if Cell.modulus ∣ x then []
  else if 0 < x then [.add (x % Cell.modulus) none]
  else [.sub (x.natAbs % Cell.modulus) none]

theorem ofNet_of_dvd {x : Int} (h : Cell.modulus ∣ x) : ofNet x = [] := if_pos h

theorem ofNet_of_pos {x : Int} (h : ¬ Cell.modulus ∣ x) (hx : 0 < x) :
    ofNet x = [.add (x % Cell.modulus) none] := by
  rw [ofNet, if_neg h, if_pos hx]

theorem ofNet_of_neg {x : Int} (h : ¬ Cell.modulus ∣ x) (hx : x < 0) :
    ofNet x = [.sub (-x % Cell.modulus) none] := by
  have habs : (x.natAbs : Int) = -x := by omega
  rw [ofNet, if_neg h, if_neg (by omega), habs]

theorem ofNet_eq (x : Int) : ofNet x = (CellOp.shift x none).toInstr?.toList := by
  by_cases h : Cell.modulus ∣ x
  · rw [ofNet_of_dvd h, CellOp.toInstr?_of_cancelled (Int.emod_eq_zero_of_dvd h),
      Option.toList_none]
  have h0 : x % Cell.modulus ≠ 0 := fun h0 => h (Int.dvd_of_emod_eq_zero h0)
  rcases Cell.sign_cases h with hneg | hpos
  · rw [ofNet_of_neg h hneg, CellOp.toInstr?_of_neg h0 (by omega), Option.toList_some]
  · rw [ofNet_of_pos h hpos, CellOp.toInstr?_of_pos h0 hpos, Option.toList_some]

/-- Numbers that agree modulo the cell range are the same change if they are on the same side of
zero. -/
theorem ofNet_congr {x y : Int} (h : x % Cell.modulus = y % Cell.modulus)
    (hsign : ¬ Cell.modulus ∣ x → (0 < x ↔ 0 < y)) : ofNet x = ofNet y := by
  have hdvd := Cell.dvd_congr h
  by_cases hx : Cell.modulus ∣ x
  · rw [ofNet_of_dvd hx, ofNet_of_dvd (hdvd.1 hx)]
  have hy : ¬ Cell.modulus ∣ y := fun hy => hx (hdvd.2 hy)
  have hside := hsign hx
  rcases Cell.sign_cases hx with hneg | hpos
  · have hneg' : y < 0 := (Cell.sign_cases hy).resolve_right (by omega)
    have hmod : -x % Cell.modulus = -y % Cell.modulus := by
      unfold Cell.modulus at h ⊢
      omega
    rw [ofNet_of_neg hx hneg, ofNet_of_neg hy hneg', hmod]
  · rw [ofNet_of_pos hx hpos, ofNet_of_pos hy (hside.1 hpos), h]

theorem ofNet_tmod (x : Int) : ofNet (x.tmod Cell.modulus) = ofNet x := by
  rw [Cell.tmod_eq]
  refine ofNet_congr ?_ ?_
  · unfold Cell.modulus
    split <;> omega
  · unfold Cell.modulus
    split <;> omega

/-- A number in the range, as a program, is a run that stands for that number. -/
theorem ofNet_cases {x : Int} (hx : x.natAbs < Cell.modulus) :
    (x = 0 ∧ ofNet x = []) ∨
      ∃ i, ofNet x = [i] ∧ Run.ofInstr? i = some (.cell (.shift x none)) := by
  rcases Int.lt_trichotomy x 0 with hneg | rfl | hpos
  · have hmod : -x % Cell.modulus = -x := by
      unfold Cell.modulus at hx ⊢
      omega
    have hsub : ofNet x = [.sub (-x) none] := by
      rw [ofNet_of_neg (Cell.not_dvd hx hneg.ne) hneg, hmod]
    exact .inr ⟨_, hsub, by rw [Run.ofInstr?, Int.neg_neg]⟩
  · exact .inl ⟨rfl, rfl⟩
  · have hmod : x % Cell.modulus = x := by
      unfold Cell.modulus at hx ⊢
      omega
    have hadd : ofNet x = [.add x none] := by
      rw [ofNet_of_pos (Cell.not_dvd hx hpos.ne') hpos, hmod]
    exact .inr ⟨_, hadd, rfl⟩

/-- **One more instruction adds its change**, and the sum is reduced. -/
theorem extend_ofNet {x : Int} (hx : x.natAbs < Cell.modulus) {i : Instr}
    (hi : i.isChange = true) : extend (ofNet x) i.bare = ofNet (x + i.delta) := by
  have hrun := Instr.ofInstr?_bare_change hi
  rw [ofNet_eq (x + i.delta)]
  rcases ofNet_cases hx with ⟨rfl, hnil⟩ | ⟨prev, hsingle, hprev⟩
  · rw [hnil, extend_of_some hrun, Int.zero_add]
    rfl
  · rw [hsingle, extend_of_merge hrun hprev rfl, List.append_nil]
    rfl

theorem bare_compactOnto (level : Level) (p : Program) : (∀ i ∈ p, i.isChange = true) →
    bare (compactOnto level [] p) = ofNet p.remainder := by
  induction p using List.reverseRecOn with
  | nil =>
    intro _
    rw [compactOnto_nil]
    rfl
  | append_singleton p i ih =>
    intro h
    rw [List.forall_mem_append, List.forall_mem_singleton] at h
    rw [compactOnto_append, compactOnto_cons, compactOnto_nil,
      Instr.compactOnto_of_simple (Instr.isLoop_of_isChange h.2), ← extend_bare, ih h.1,
      extend_ofNet (natAbs_remainder_lt p) h.2, remainder_concat, ofNet_tmod]

theorem reverse_ofNet (x : Int) : (ofNet x).reverse = ofNet x := by
  rw [ofNet_eq]
  cases (CellOp.shift x none).toInstr? <;> rfl

/-- **A run is compacted into the change by its remainder.** -/
theorem bare_compact (level : Int) {p : Program} (h : ∀ i ∈ p, i.isChange = true) :
    (p.compact level).bare = ofNet p.remainder := by
  rw [compact_eq, bare_reverse, bare_compactOnto _ p h, reverse_ofNet]

theorem bare_ofNet (x : Int) : (ofNet x).bare = ofNet x := by
  unfold ofNet
  split_ifs <;> rfl

/-! ### The sum of a run -/

theorem unsigned_bare (p : Program) : p.bare.unsigned = p.unsigned := by
  induction p using Program.induction with
  | nil => rfl
  | cons i r body rest =>
    rw [bare_cons, unsigned_cons, unsigned_cons, rest]
    congr 1
    cases i with
    | loop b pos => rw [Instr.bare, Instr.unsigned, Instr.unsigned, body b pos rfl]
    | _ => rfl

/-- Without its sign, the change by a number depends on the number modulo the cell range. -/
theorem unsigned_ofNet_congr {x y : Int} (h : x % Cell.modulus = y % Cell.modulus) :
    (ofNet x).unsigned = (ofNet y).unsigned := by
  rw [ofNet_eq, ofNet_eq, unsigned_toList, unsigned_toList, CellOp.unsigned_shift,
    CellOp.unsigned_shift, h]

theorem unsigned_compact (level : Int) {p : Program} (h : ∀ i ∈ p, i.isChange = true) :
    (p.compact level).unsigned = (ofNet p.net).unsigned := by
  rw [← unsigned_bare, bare_compact level h, unsigned_ofNet_congr p.remainder_emod]

theorem ofNet_eq_nil_iff {x : Int} : ofNet x = [] ↔ Cell.modulus ∣ x := by
  unfold ofNet
  split_ifs with hdvd hpos
  · simp [hdvd]
  · simp [hdvd]
  · simp [hdvd]

/-- Numbers on different sides of zero are different changes, unless they are none. -/
theorem ofNet_ne {x y : Int} (hx : ¬ Cell.modulus ∣ x) (hxpos : 0 < x) (hyneg : y < 0) :
    ofNet x ≠ ofNet y := by
  intro h
  by_cases hy : Cell.modulus ∣ y
  · rw [ofNet_of_pos hx hxpos, ofNet_of_dvd hy] at h
    cases h
  · rw [ofNet_of_pos hx hxpos, ofNet_of_neg hy hyneg] at h
    cases h

/-- A remainder is the change by the number unless the two have opposite signs. -/
theorem ofNet_eq_iff {x y : Int} (hx : x.natAbs < Cell.modulus)
    (h : x % Cell.modulus = y % Cell.modulus) : ofNet x = ofNet y ↔ 0 ≤ x * y := by
  have hdvd := Cell.dvd_congr h
  by_cases h0 : x = 0
  · subst h0
    have hy : Cell.modulus ∣ y := hdvd.1 (Int.dvd_zero Cell.modulus)
    rw [Int.zero_mul, ofNet_of_dvd hy]
    exact iff_of_true rfl (Int.le_refl 0)
  have hndvd := Cell.not_dvd hx h0
  have hndvd' : ¬ Cell.modulus ∣ y := fun hy => hndvd (hdvd.2 hy)
  rcases Cell.sign_cases hndvd with hneg | hpos <;>
    rcases Cell.sign_cases hndvd' with hneg' | hpos'
  · exact iff_of_true (ofNet_congr h fun _ => by omega)
      (Int.mul_nonneg_of_nonpos_of_nonpos hneg.le hneg'.le)
  · have hprod := Int.mul_neg_of_neg_of_pos hneg hpos'
    exact iff_of_false (ofNet_ne hndvd' hpos' hneg).symm (by omega)
  · have hprod := Int.mul_neg_of_pos_of_neg hpos hneg'
    exact iff_of_false (ofNet_ne hndvd hpos hneg') (by omega)
  · exact iff_of_true (ofNet_congr h fun _ => by omega) (Int.mul_nonneg hpos.le hpos'.le)

/-- The compacted run is the one that the sum of the run asks for. -/
def FollowsNet (level : Int) (p : Program) : Prop :=
  (p.compact level).sameCode (ofNet p.net) = true

theorem followsNet_iff (level : Int) {p : Program} (h : ∀ i ∈ p, i.isChange = true) :
    p.FollowsNet level ↔ 0 ≤ p.remainder * p.net := by
  rw [FollowsNet, sameCode_iff, bare_compact level h, bare_ofNet]
  exact ofNet_eq_iff p.natAbs_remainder_lt p.remainder_emod

theorem followsNet_of_inRange (level : Int) {p : Program} (h : ∀ i ∈ p, i.isChange = true)
    (hr : ∀ q : Program, q <+: p → q.net.natAbs < Cell.modulus) : p.FollowsNet level := by
  rw [followsNet_iff level h, p.remainder_eq_net hr]
  exact mul_self_nonneg p.net

theorem followsNet_of_oneSided (level : Int) {p : Program} (h : ∀ i ∈ p, i.isChange = true)
    (hs : (∀ i ∈ p, 0 ≤ i.delta) ∨ ∀ i ∈ p, i.delta ≤ 0) : p.FollowsNet level := by
  rw [followsNet_iff level h]
  rcases hs with hs | hs
  · obtain ⟨hr, hn⟩ := p.nonneg_of_rising hs
    exact Int.mul_nonneg hr hn
  · obtain ⟨hr, hn⟩ := p.nonpos_of_falling hs
    exact Int.mul_nonneg_of_nonpos_of_nonpos hr hn

theorem compact_eq_nil_iff (level : Int) {p : Program} (h : ∀ i ∈ p, i.isChange = true) :
    p.compact level = [] ↔ Cell.modulus ∣ p.net := by
  have hbare : (p.compact level).bare = [] ↔ p.compact level = [] := by
    rw [bare_eq_map, List.map_eq_nil_iff]
  rw [← hbare, bare_compact level h, ofNet_eq_nil_iff, Cell.dvd_congr p.remainder_emod]

/-- Changes that are too small to leave the cell range in any order may be put in any order. -/
theorem sameCode_of_perm (level : Int) {p q : Program} (h : ∀ i ∈ p, i.isChange = true)
    (hperm : p.Perm q) (hsmall : p.magnitude < Cell.modulus) :
    (q.compact level).sameCode (p.compact level) = true := by
  have inRange : ∀ r : Program, r.magnitude < Cell.modulus → r.remainder = r.net := by
    refine fun r hr => r.remainder_eq_net fun t ht => ?_
    have hle := natAbs_net_le_of_prefix ht
    omega
  have hq : ∀ i ∈ q, i.isChange = true := fun i hi => h i (hperm.mem_iff.2 hi)
  have hqsmall : q.magnitude < Cell.modulus := by rwa [magnitude_of_perm hperm]
  rw [sameCode_iff, bare_compact level h, bare_compact level hq, inRange p hsmall,
    inRange q hqsmall, net_of_perm hperm]

end Program

/-- **A run of additions and subtractions collapses into one change**, by the sum that is reduced
after every instruction. But for its sign this is the change by the sum; the sign is that of the sum
exactly if the sum and its last remainder do not have opposite signs, for which it is enough that no
partial sum leaves the cell range, or that all changes go in one direction. The order of the run
matters to nothing but the sign, and to nothing at all if the changes are small enough. -/
theorem run_collapses_to_remainder (level : Int) {p : Program}
    (h : ∀ i ∈ p, i.isChange = true) :
    (p.compact level).sameCode (.ofNet p.remainder) = true ∧
    (p.compact level).unsigned = (Program.ofNet p.net).unsigned ∧
    (p.compact level = [] ↔ Cell.modulus ∣ p.net) ∧
    (p.FollowsNet level ↔ 0 ≤ p.remainder * p.net) ∧
    ((∀ q : Program, q <+: p → q.net.natAbs < Cell.modulus) → p.FollowsNet level) ∧
    ((∀ i ∈ p, 0 ≤ i.delta) ∨ (∀ i ∈ p, i.delta ≤ 0) → p.FollowsNet level) ∧
    ∀ q : Program, p.Perm q → (q.compact level).unsigned = (p.compact level).unsigned ∧
      (p.magnitude < Cell.modulus → (q.compact level).sameCode (p.compact level) = true) := by
  refine ⟨?_, Program.unsigned_compact level h, Program.compact_eq_nil_iff level h,
    Program.followsNet_iff level h, Program.followsNet_of_inRange level h,
    Program.followsNet_of_oneSided level h,
    fun q hperm => ⟨?_, Program.sameCode_of_perm level h hperm⟩⟩
  · rw [Program.sameCode_iff, Program.bare_compact level h, Program.bare_ofNet]
  · have hq : ∀ i ∈ q, i.isChange = true := fun i hi => h i (hperm.mem_iff.2 hi)
    rw [Program.unsigned_compact level h, Program.unsigned_compact level hq,
      Program.net_of_perm hperm]

/-- A run that passes the end of the cell range and comes back has lost its sign; with the
subtraction first it has not. -/
theorem run_collapses_to_remainder_reordered :
    let p : Program := [.sub 3 none, .add 4294967295 none, .add 2 none]
    let q : Program := [.add 4294967295 none, .add 2 none, .sub 3 none]
    p.FollowsNet 0 ∧ ¬ q.FollowsNet 0 ∧ (q.compact 0).unsigned = (p.compact 0).unsigned := by
  intro p q
  have hp : ∀ i ∈ p, i.isChange = true := by decide
  have hq : ∀ i ∈ q, i.isChange = true := by decide
  have hperm : p.Perm q := (List.perm_append_singleton (Instr.sub 3 none) [_, _]).symm
  obtain ⟨-, -, -, hsignp, -, -, hany⟩ := run_collapses_to_remainder 0 hp
  obtain ⟨-, -, -, hsignq, -⟩ := run_collapses_to_remainder 0 hq
  exact ⟨hsignp.2 (by decide), fun h => absurd (hsignq.1 h) (by decide), (hany q hperm).1⟩

/-- The sum is above zero and the run becomes a subtraction. In another order it becomes the
addition that the sum asks for. -/
theorem sign_lost_after_wrap :
    Program.net [.add 4294967295 none, .add 2 none, .sub 3 none] = 4294967294 ∧
    Program.ofNet 4294967294 = [.add 4294967294 none] ∧
    Program.compact 0 [.add 4294967295 none, .add 2 none, .sub 3 none] = [.sub 2 none] ∧
    Program.compact 0 [.sub 3 none, .add 4294967295 none, .add 2 none] =
      [.add 4294967294 none] := by
  refine ⟨rfl, rfl, ?_, ?_⟩
  · rw [Program.compact_eq]
    rfl
  · rw [Program.compact_eq]
    rfl

end TapeLang
