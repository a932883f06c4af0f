import TapeLang.Proofs.NormalForm
import TapeLang.Proofs.Unrolling

/-!
# Weighing programs

A weight gives every instruction a number, and a program weighs what its instructions weigh
together. If two runs, merged, do not weigh more than the two of them, then a compacted program does
not weigh more than the program: each instruction that is added brings at most its own weight
(`Program.weight_extend_le`), and a folded loop leaves an assignment that is not heavier.

* `Run.Weighs`: what is asked of a weight.
* `Program.weight_compact_le`: compacting adds no weight.
* `Program.size_compact_le`: so it adds no instructions.
-/

namespace TapeLang

namespace Program

/-- What the instructions of a program weigh together. -/
def weight (μ : Instr → Nat) : Program → Nat
  | [] => 0
  | i :: p => μ i + weight μ p

variable {μ : Instr → Nat}

@[simp] theorem weight_nil : weight μ [] = 0 := rfl

@[simp] theorem weight_cons (i : Instr) (p : Program) :
    weight μ (i :: p) = μ i + weight μ p := rfl

theorem weight_append (p q : Program) : weight μ (p ++ q) = weight μ p + weight μ q := by
  induction p with
  | nil => simp
  | cons i p ih =>
    simp only [List.cons_append, weight_cons, ih]
    omega

theorem weight_reverse (p : Program) : weight μ p.reverse = weight μ p := by
  induction p with
  | nil => rfl
  | cons i p ih =>
    simp only [List.reverse_cons, weight_append, weight_cons, weight_nil, ih]
    omega

end Program

/-- A weight `μ` of instructions that merging does not increase, for instructions with the property
`f`; `ν` is the weight of a run. -/
structure Run.Weighs (f : Instr → Bool) (μ : Instr → Nat) (ν : Run → Nat) : Prop where
  canonical {i : Instr} : i.Canonical → f i = true
  ofInstr? {i : Instr} {r : Run} : f i = true → ofInstr? i = some r → ν r ≤ μ i
  merge? {a b c : Run} : a.merge? b = some c → ν c ≤ ν a + ν b
  toInstr? {r : Run} {i : Instr} : r.toInstr? = some i → μ i ≤ ν r
  loop {b c : Program} (pos : Option Position) :
    Program.weight μ c ≤ Program.weight μ b → μ (.loop c pos) ≤ μ (.loop b pos)
  clear {b : Program} (pos : Option Position) :
    b.isClearLoop = true → (∀ i ∈ b, i.Canonical) → μ (.set 0 pos) ≤ μ (.loop b pos)

namespace Program

variable {f : Instr → Bool} {μ : Instr → Nat} {ν : Run → Nat} {level : Level}
  {out : List Instr} {i : Instr}

section
variable (h : Run.Weighs f μ ν)
include h

theorem weight_toInstr?_le (r : Run) : weight μ r.toInstr?.toList ≤ ν r := by
  rcases hi : r.toInstr? with _ | i
  · exact Nat.zero_le _
  · have hle := h.toInstr? hi
    rw [Option.toList_some, weight_cons, weight_nil]
    omega

/-- **An instruction brings at most its own weight.** -/
theorem weight_extend_le (hout : ∀ j ∈ out, j.Canonical) (hi : f i = true) :
    weight μ (extend out i) ≤ weight μ out + μ i := by
  rcases hr : Run.ofInstr? i with _ | r
  · rw [extend_of_none hr, weight_cons]
    omega
  have hrun := h.ofInstr? hi hr
  by_cases hk : endKind? out = some r.kind
  · obtain ⟨prev, before, a, rfl, hp, ha⟩ := exists_of_endKind? hk
    obtain ⟨c, hm, -⟩ := Run.exists_merge? ha
    have hprev := h.ofInstr? (h.canonical (hout prev (.head _))) hp
    have hmerged := h.merge? hm
    have hc := weight_toInstr?_le h c
    rw [extend_of_merge hr hp hm, weight_append, weight_cons]
    omega
  · have hnew := weight_toInstr?_le h r
    rw [extend_of_apart hr hk, weight_append]
    omega

theorem weight_extendLoop_le (hout : ∀ j ∈ out, j.Canonical) {b c : Program}
    (pos : Option Position) (hc : ∀ j ∈ c, j.Canonical) (hle : weight μ c ≤ weight μ b) :
    weight μ (extendLoop level out c pos) ≤ weight μ out + μ (.loop b pos) := by
  have hloop := h.loop pos hle
  unfold extendLoop
  split
  · next hclear =>
    have hzero : f (.set 0 pos) = true := h.canonical ⟨by decide, by decide⟩
    have hset := h.clear pos hclear.2 hc
    have hext := weight_extend_le h hout hzero
    omega
  · rw [weight_cons]
    omega

theorem weight_compactOnto_le (level : Level) (p : Program) : throughout f p = true →
    ∀ out : List Instr, Normal level out →
      weight μ (compactOnto level out p) ≤ weight μ out + weight μ p := by
  induction p using Program.induction with
  | nil =>
    intro _ out _
    rw [compactOnto_nil, weight_nil]
    omega
  | cons i r body rest =>
    intro hf out hn
    obtain ⟨hi, hb, hr⟩ := throughout_cons.1 hf
    have hstep : weight μ (i.compactOnto level out) ≤ weight μ out + μ i ∧
        Normal level (i.compactOnto level out) := by
      rcases i.isLoop_cases with hl | ⟨b, pos, rfl⟩
      · rw [Instr.compactOnto_of_simple hl]
        exact ⟨weight_extend_le h hn.canonical hi, normal_extend hn hl⟩
      · have hinner := body b pos rfl (hb b pos rfl) [] .nil
        have hnormal := (normal_compactOnto level b [] .nil).reverse
        rw [weight_nil, Nat.zero_add, ← weight_reverse] at hinner
        rw [Instr.compactOnto_loop]
        exact ⟨weight_extendLoop_le h hn.canonical pos hnormal.canonical hinner,
          normal_extendLoop hn hnormal pos⟩
    have hrest := rest hr _ hstep.2
    rw [compactOnto_cons, weight_cons]
    omega

/-- **Compacting adds no weight.** -/
theorem weight_compact_le (level : Int) {p : Program} (hp : throughout f p = true) :
    weight μ (p.compact level) ≤ weight μ p := by
  have hle := weight_compactOnto_le h (.ofInt level) p hp [] .nil
  rw [weight_nil, Nat.zero_add] at hle
  rwa [compact_eq, weight_reverse]

end

/-! ### The number of instructions -/

theorem size_eq_weight (p : Program) : p.size = weight Instr.size p := by
  induction p with
  | nil => rfl
  | cons i p ih => rw [size_cons, weight_cons, ih]

end Program

/-- The instruction for a run is no loop. -/
theorem Run.isLoop_of_toInstr? {r : Run} {i : Instr} (h : r.toInstr? = some i) :
    i.isLoop = false := by
  rcases r with m | c
  · obtain ⟨m', hi, -⟩ := Move.exists_of_toInstr?_eq_some h
    exact isLoop_of_ofInstr? hi
  · obtain ⟨c', hi, -⟩ := CellOp.exists_of_toInstr?_eq_some h
    exact isLoop_of_ofInstr? hi

theorem Instr.size_of_simple {i : Instr} (h : i.isLoop = false) : i.size = 1 := by
  cases i with
  | loop => cases h
  | _ => simp [Instr.size]

/-- Runs become at most one instruction each. -/
theorem Run.weighs_size : Run.Weighs (fun _ => true) Instr.size fun _ => 1 where
  canonical _ := rfl
  ofInstr? {i _} _ _ := i.size_pos
  merge? _ := by omega
  toInstr? h := Nat.le_of_eq (Instr.size_of_simple (isLoop_of_toInstr? h))
  loop {b c} pos h := by
    rw [← Program.size_eq_weight, ← Program.size_eq_weight] at h
    rw [Instr.size, Instr.size]
    omega
  clear pos _ _ := Instr.size_pos _

theorem Program.size_compact_le (level : Int) (p : Program) : (p.compact level).size ≤ p.size := by
  rw [size_eq_weight, size_eq_weight]
  exact weight_compact_le Run.weighs_size level p.throughout_true

end TapeLang
