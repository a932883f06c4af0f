import TapeLang.Proofs.Brackets
import TapeLang.Proofs.Nesting
import TapeLang.Proofs.Spelling
import Mathlib.Order.Bounds.Basic

/-!
# The measures of a program and its text

The depth of a program that was read is the greatest depth of brackets that any beginning of its
text reaches, and its size is the number of its commands without the closing brackets. Both go from
the program to its symbols, by induction on the program, and from there to the text, where comments
change nothing.

The measures can also be taken without recursion, by a sweep over a stack of bodies: the body on top
is looked at, and the bodies of its loops go on the stack, so that the last of them is looked at
next. In which order the bodies are met does not matter.

* `Program.sweep_eq`: what a sweep computes is what one body after the other keeps.
* `Program.deepest_eq_depth`, `Program.tally_eq_size`: sweeps for depth and size.
* `Brackets.isGreatest_peak`: the greatest depth along a text, by recursion on the text.
* `Program.spelled`: depth and size of a program of unit instructions, in its symbols.
* `tree_measures_text`: depth and size of a program that was read, in its text.
-/

namespace TapeLang

/-! ### Sweeping over a program -/

namespace Program

/-- Puts the bodies of the loops of a program on a stack, each with the level given; the last of
them comes to lie on top. -/
def pushBodies (level : Nat) : Program → List (Program × Nat) → List (Program × Nat)
  | [], stack => stack
  | .loop body _ :: rest, stack => pushBodies level rest ((body, level) :: stack)
  | _ :: rest, stack => pushBodies level rest stack

/-- The number of instructions and bodies that a stack holds. -/
def stackLoad : List (Program × Nat) → Nat
  | [] => 0
  | (p, _) :: stack => p.size + 1 + stackLoad stack

theorem pushBodies_of_simple {i : Instr} (hi : i.isLoop = false) (level : Nat) (rest : Program)
    (stack : List (Program × Nat)) :
    pushBodies level (i :: rest) stack = pushBodies level rest stack := by
  cases i with
  | loop => cases hi
  | _ => rfl

theorem stackLoad_pushBodies_le (level : Nat) (p : Program) (stack : List (Program × Nat)) :
    stackLoad (pushBodies level p stack) ≤ p.size + stackLoad stack := by
  induction p generalizing stack with
  | nil => simp [pushBodies]
  | cons i p ih =>
    rcases i.isLoop_cases with hi | ⟨body, pos, rfl⟩
    · have hle := ih stack
      rw [pushBodies_of_simple hi, size_cons]
      omega
    · have hle := ih ((body, level) :: stack)
      rw [stackLoad] at hle
      rw [pushBodies, size_cons, Instr.size]
      omega

/-- Visits the bodies on a stack, and after each one the bodies of its loops, one level deeper. -/
def sweep {α : Type} (visit : α → Program → Nat → α) (acc : α) : List (Program × Nat) → α
  | [] => acc
  | (p, level) :: stack => sweep visit (visit acc p level) (pushBodies (level + 1) p stack)
termination_by stack => stackLoad stack
decreasing_by
  have hle := stackLoad_pushBodies_le (level + 1) p stack
  rw [stackLoad]
  omega

/-- The deepest level that a sweep meets. -/
def deepest (p : Program) : Nat := sweep (fun best _ level => max best level) 0 [(p, 0)]

/-- The number of instructions that a sweep meets. -/
def tally (p : Program) : Nat := sweep (fun count body _ => count + body.length) 0 [(p, 0)]

/-- **What a sweep computes**: a value of the stack and what was found so far that a visit keeps. -/
theorem sweep_eq {α : Type} (visit : α → Program → Nat → α)
    (value : α → List (Program × Nat) → α) (done : ∀ acc, value acc [] = acc)
    (step : ∀ acc p level stack, value (visit acc p level) (pushBodies (level + 1) p stack) =
      value acc ((p, level) :: stack)) (acc : α) (stack : List (Program × Nat)) :
    sweep visit acc stack = value acc stack := by
  fun_induction sweep visit acc stack with
  | case1 acc => exact (done acc).symm
  | case2 acc p level stack ih => rw [ih, step]

/-- The number of instructions of the bodies on a stack. -/
def stackSize : List (Program × Nat) → Nat
  | [] => 0
  | (p, _) :: stack => p.size + stackSize stack

/-- The deepest level that the bodies on a stack reach. -/
def stackDepth : List (Program × Nat) → Nat
  | [] => 0
  | (p, level) :: stack => max (level + p.depth) (stackDepth stack)

theorem stackSize_pushBodies (level : Nat) (p : Program) (stack : List (Program × Nat)) :
    p.length + stackSize (pushBodies level p stack) = p.size + stackSize stack := by
  induction p generalizing stack with
  | nil => simp [pushBodies]
  | cons i p ih =>
    rcases i.isLoop_cases with hi | ⟨body, pos, rfl⟩
    · have heq := ih stack
      have hsize := Instr.size_of_simple hi
      rw [pushBodies_of_simple hi, size_cons, List.length_cons]
      omega
    · have heq := ih ((body, level) :: stack)
      rw [stackSize] at heq
      rw [pushBodies, size_cons, Instr.size, List.length_cons]
      omega

theorem stackDepth_pushBodies (level : Nat) (p : Program) (stack : List (Program × Nat)) :
    max level (stackDepth (pushBodies (level + 1) p stack)) =
      max (level + p.depth) (stackDepth stack) := by
  induction p generalizing stack with
  | nil => simp [pushBodies]
  | cons i p ih =>
    rcases i.isLoop_cases with hi | ⟨body, pos, rfl⟩
    · have heq := ih stack
      have hdepth := Instr.depth_of_simple hi
      rw [pushBodies_of_simple hi, depth_cons]
      omega
    · have heq := ih ((body, level + 1) :: stack)
      rw [stackDepth] at heq
      rw [pushBodies, depth_cons, Instr.depth_loop]
      omega

/-- **The deepest level that a sweep meets is the depth.** -/
theorem deepest_eq_depth (p : Program) : p.deepest = p.depth := by
  have step : ∀ (best : Nat) (p : Program) (level : Nat) (stack : List (Program × Nat)),
      max (max best level) (stackDepth (pushBodies (level + 1) p stack)) =
        max best (stackDepth ((p, level) :: stack)) := by
    intro best p level stack
    rw [stackDepth, ← stackDepth_pushBodies, Nat.max_assoc]
  rw [deepest, sweep_eq _ (fun best stack => max best (stackDepth stack)) Nat.max_zero step]
  simp [stackDepth]

/-- **The number of instructions that a sweep meets is the size.** -/
theorem tally_eq_size (p : Program) : p.tally = p.size := by
  have step : ∀ (count : Nat) (p : Program) (level : Nat) (stack : List (Program × Nat)),
      count + p.length + stackSize (pushBodies (level + 1) p stack) =
        count + stackSize ((p, level) :: stack) := by
    intro count p level stack
    rw [stackSize, ← stackSize_pushBodies (level + 1), Nat.add_assoc]
  rw [tally, sweep_eq _ (fun count stack => count + stackSize stack) Nat.add_zero step]
  simp [stackSize]

end Program

/-! ### The greatest depth along a text -/

namespace Brackets

/-- The greatest depth that a beginning of the text reaches. -/
def peak : List Char → Int
  | [] => 0
  | c :: cs => max 0 (depth [c] + peak cs)

theorem peak_nonneg (cs : List Char) : 0 ≤ peak cs := by
  cases cs with
  | nil => exact Int.le_refl 0
  | cons c cs => exact Int.le_max_left _ _

theorem depth_cons (c : Char) (cs : List Char) : depth (c :: cs) = depth [c] + depth cs :=
  depth_append [c] cs

theorem depth_le_peak {front cs : List Char} (h : front <+: cs) : depth front ≤ peak cs := by
  induction cs generalizing front with
  | nil =>
    rw [List.prefix_nil.1 h]
    exact Int.le_refl 0
  | cons c cs ih =>
    rcases List.prefix_cons_iff.1 h with rfl | ⟨t, rfl, ht⟩
    · exact peak_nonneg (c :: cs)
    · have hle := ih ht
      rw [depth_cons, peak]
      omega

theorem exists_depth_eq_peak (cs : List Char) : ∃ front, front <+: cs ∧ depth front = peak cs := by
  induction cs with
  | nil => exact ⟨[], List.prefix_rfl, rfl⟩
  | cons c cs ih =>
    obtain ⟨front, hfront, hdepth⟩ := ih
    rcases Int.le_total (depth [c] + peak cs) 0 with hle | hle
    · refine ⟨[], List.nil_prefix, ?_⟩
      rw [peak, depth_nil]
      omega
    · refine ⟨c :: front, List.cons_prefix_cons.2 ⟨rfl, hfront⟩, ?_⟩
      rw [depth_cons, peak, hdepth]
      omega

/-- **The peak is the greatest depth of a beginning of the text.** -/
theorem isGreatest_peak (cs : List Char) :
    IsGreatest {d | ∃ front, front <+: cs ∧ depth front = d} (peak cs) := by
  refine ⟨exists_depth_eq_peak cs, ?_⟩
  rintro d ⟨front, hfront, rfl⟩
  exact depth_le_peak hfront

theorem peak_append (u v : List Char) : peak (u ++ v) = max (peak u) (depth u + peak v) := by
  induction u with
  | nil =>
    have hv := peak_nonneg v
    rw [List.nil_append, peak, depth_nil]
    omega
  | cons c u ih =>
    have hdepth := depth_cons c u
    rw [List.cons_append, peak, peak, ih, hdepth]
    omega

theorem peak_comment {c : Char} (h : c ≠ '[' ∧ c ≠ ']') (cs : List Char) :
    peak (c :: cs) = peak cs := by
  have hpos := peak_nonneg cs
  rw [peak, depth_comment h]
  omega

/-- Between brackets the text is one deeper. -/
theorem peak_loop {v : List Char} (h : depth v = 0) :
    peak ('[' :: (v ++ [']'])) = peak v + 1 := by
  have hpos := peak_nonneg v
  have hopen : depth ['['] = 1 := rfl
  have hclose : depth [']'] = -1 := rfl
  rw [peak, peak_append, h, peak, hopen, hclose, peak]
  omega

/-- Comments do not count. -/
theorem peak_filter (cs : List Char) : peak (cs.filter (· ∈ Symbol.alphabet)) = peak cs := by
  induction cs with
  | nil => rfl
  | cons c cs ih =>
    by_cases hc : c ∈ Symbol.alphabet
    · rw [List.filter_cons_of_pos (by simpa using hc), peak, peak, ih]
    · have hne : c ≠ '[' ∧ c ≠ ']' := by
        constructor <;> rintro rfl <;> exact hc (by decide)
      rw [List.filter_cons_of_neg (by simpa using hc), ih, peak_comment hne]

end Brackets

/-! ### Programs and their symbols -/

open Brackets

/-- What a program of unit instructions shows in the text of its symbols. -/
structure Program.Spelled (p : Program) (cs : List Char) : Prop where
  level : Brackets.depth cs = 0
  depth : peak cs = p.depth
  size : cs.countP (· ≠ ']') = p.size

namespace Program

/-- A symbol that stands for an instruction is no bracket. -/
theorem char_of_instr? {x : Symbol} {pos : Position} {i : Instr} (h : x.instr? pos = some i) :
    x.char ≠ '[' ∧ x.char ≠ ']' := by
  cases x <;> cases h <;> decide

theorem Spelled.cons {i : Instr} {r : Program} {u v : List Char} (hi : Spelled [i] u)
    (hr : Spelled r v) : Spelled (i :: r) (u ++ v) where
  level := by rw [Brackets.depth_append, hi.level, hr.level]; rfl
  depth := by
    have h1 := hi.depth
    rw [peak_append, hi.level, h1, hr.depth, depth_cons, depth_cons, depth_nil]
    omega
  size := by
    have h1 := hi.size
    rw [size_cons, size_nil] at h1
    rw [List.countP_append, h1, hr.size, size_cons, Nat.add_zero]

theorem Spelled.simple {i : Instr} (hl : i.isLoop = false) {c : Char} (hc : c ≠ '[' ∧ c ≠ ']') :
    Spelled [i] [c] where
  level := depth_comment hc
  depth := by
    rw [peak_comment hc, depth_cons, Instr.depth_of_simple hl]
    rfl
  size := by
    rw [size_cons, Instr.size_of_simple hl, List.countP_cons_of_pos (by simpa using hc.2)]
    rfl

theorem Spelled.loop {b : Program} {v : List Char} (h : Spelled b v) (pos : Option Position) :
    Spelled [.loop b pos] ('[' :: (v ++ [']'])) where
  level := by
    have hv := h.level
    rw [depth_open, Brackets.depth_append, hv]
    rfl
  depth := by
    rw [peak_loop h.level, h.depth, depth_cons, depth_nil, Instr.depth_loop]
    omega
  size := by
    rw [size_cons, size_nil, Instr.size, ← h.size, List.countP_cons_of_pos (by decide),
      List.countP_append]
    rfl

/-- **Depth and size of a program of unit instructions**, in its symbols. -/
theorem spelled (p : Program) : p.throughout Instr.isUnit = true →
    ∀ l, p.symbols = .ok l → p.Spelled (l.map Symbol.char) := by
  induction p using Program.induction with
  | nil =>
    rintro - l hl
    cases hl
    exact ⟨rfl, rfl, rfl⟩
  | cons i r body rest =>
    intro hunit l hl
    obtain ⟨hi, hb, hr⟩ := throughout_cons.1 hunit
    obtain ⟨a, c, ha, hc, rfl⟩ := symbols_cons_eq_ok.1 hl
    rw [List.map_append]
    refine Spelled.cons ?_ (rest hr c hc)
    rcases i.isLoop_cases with hloop | ⟨b, pos, rfl⟩
    · obtain ⟨x, hx, hinstr⟩ := Instr.exists_instr? hi hloop
      obtain ⟨j, hj, -⟩ := hinstr .start
      obtain rfl : a = [x] := Except.ok.inj (ha.symm.trans hx)
      exact .simple hloop (char_of_instr? hj)
    · obtain ⟨inner, hinner, rfl⟩ := Instr.symbols_loop_eq_ok.1 ha
      rw [List.map_cons, List.map_append]
      exact (body b pos rfl (hb b pos rfl) inner hinner).loop pos

end Program

/-- **The measures of a program match its text.** The depth of a program that was read is the
greatest number of brackets that are open behind a beginning of the text, and its size is the number
of command characters other than `]`. Sweeping over the bodies, without recursion, finds the same
depth and the same size. -/
theorem tree_measures_text {code : String} {p : Program} (h : Program.parse code = .ok p) :
    IsGreatest {d : Int | ∃ front, front <+: code.toList ∧
        (front.count '[' : Int) - front.count ']' = d} p.depth ∧
      p.size = code.toList.countP (fun c => c ∈ Symbol.alphabet ∧ c ≠ ']') ∧
      p.deepest = p.depth ∧ p.tally = p.size := by
  have hspelled := p.spelled (Program.isUnit_of_parse h) _ (Program.symbols_of_parse h)
  rw [Symbol.ofText, Symbol.map_char_filterMap_ofChar?] at hspelled
  refine ⟨?_, ?_, p.deepest_eq_depth, p.tally_eq_size⟩
  · rw [← hspelled.depth, peak_filter]
    exact isGreatest_peak code.toList
  · rw [← hspelled.size, List.countP_filter]
    refine List.countP_congr fun c _ => ?_
    simp [and_comm]

/-- Loops next to each other and in each other, with comments between them. -/
theorem tree_measures_text_nested :
    ∃ p, Program.parse "+[>[-]<\n,[.[ x]]]" = .ok p ∧ p.depth = 3 ∧ p.size = 10 ∧
      p.deepest = 3 ∧ p.tally = 10 := by
  have hbalanced : Balanced "+[>[-]<\n,[.[ x]]]".toList := ⟨by decide, by decide⟩
  obtain ⟨p, hp⟩ := Program.exists_parse_eq_ok_iff.2 hbalanced
  obtain ⟨hgreatest, hsize, hdeepest, htally⟩ := tree_measures_text hp
  have hdepth : p.depth = 3 := by
    have hpeak : (p.depth : Int) = peak "+[>[-]<\n,[.[ x]]]".toList :=
      hgreatest.unique (isGreatest_peak _)
    have hthree : peak "+[>[-]<\n,[.[ x]]]".toList = 3 := by decide
    omega
  have hcount : p.size = 10 := by
    rw [hsize]
    decide
  exact ⟨p, hp, hdepth, hcount, hdeepest.trans hdepth, htally.trans hcount⟩

end TapeLang
