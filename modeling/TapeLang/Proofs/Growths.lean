import TapeLang.Proofs.RunsAsSessions
import Mathlib.Algebra.Ring.Int.Defs
import Mathlib.Algebra.Ring.Nat

/-!
# The growth of a tape

A tape grows when a move goes beyond its cells and stays below its limit. It grows at least to
double its length, or to the limit, where it cannot grow any more. So in a whole session it grows at
most once more than its first length can be doubled below the limit.

* `Tape.Valid.growth?_move`: which moves let the tape grow, and how far.
* `Growth.Chain`: growths one after the other; `Tape.Valid.chain_growths`: those of a session.
* `Growth.Chain.mul_pow_lt`: how many growths a chain can have.
* `growth_amortised`: all of this for sessions on a new tape, and for the growths that a run
  records.
-/

namespace TapeLang

/-! ### Chains of growths -/

/-- Growths of a tape with this limit that lead from one length to another: each one begins at the
length where the last one ended, and ends at a larger one, at least twice as large unless that is
beyond the limit. -/
inductive Growth.Chain (limit : Nat) : Nat → List Growth → Nat → Prop
  | nil (length : Nat) : Chain limit length [] length
  | cons {g : Growth} {gs : List Growth} {length : Nat} (grows : g.before < g.after)
      (doubles : min (2 * g.before) limit ≤ g.after) (le_limit : g.after ≤ limit)
      (next : Chain limit g.after gs length) : Chain limit g.before (g :: gs) length

namespace Growth.Chain

variable {limit a b c : Nat} {gs hs : List Growth}

theorem append (h : Chain limit a gs b) (h' : Chain limit b hs c) : Chain limit a (gs ++ hs) c := by
  induction h with
  | nil => exact h'
  | cons grows doubles le_limit _ ih => exact .cons grows doubles le_limit (ih h')

/-- **A chain is short**: all growths but the last have doubled the length, and the last one has
begun below the limit. -/
theorem mul_pow_lt (h : Chain limit a gs b) : ∀ k, gs.length = k + 1 → a * 2 ^ k < limit := by
  induction h with
  | nil =>
    intro k hk
    simp at hk
  | @cons g gs b grows doubles le_limit next ih =>
    intro k hk
    rw [List.length_cons] at hk
    cases k with
    | zero => omega
    | succ k =>
      have hlt : g.after * 2 ^ k < limit := ih k (by omega)
      -- the next growth begins below the limit, so this one has doubled the length
      have hbelow : g.after < limit :=
        Nat.lt_of_le_of_lt (Nat.le_mul_of_pos_right _ (Nat.two_pow_pos k)) hlt
      have hdouble : 2 * g.before ≤ g.after := by omega
      calc g.before * 2 ^ (k + 1) = 2 * g.before * 2 ^ k := by
            rw [Nat.pow_succ', ← Nat.mul_assoc, Nat.mul_comm g.before]
        _ ≤ g.after * 2 ^ k := Nat.mul_le_mul_right _ hdouble
        _ < limit := hlt

end Growth.Chain

/-! ### The growths of a session -/

namespace Tape

variable {t : Tape}

/-- **Which moves let the tape grow**: those beyond its cells and below its limit. -/
theorem Valid.growth?_move (h : t.Valid) (d : Int) : t.growth? (t.perform (.move d)).2 =
    if t.length ≤ t.cursor + d ∧ t.cursor + d < t.limit then
      some ⟨t.length, min (max (2 * t.length) ((t.cursor + d).toNat + 1)) t.limit⟩
    else none := by
  have hlen := h.length_le
  rcases Int.lt_or_le (t.cursor + d) 0 with h0 | h0
  · rw [perform_of_error (move_underflow h0), growth?_of_length_eq rfl, if_neg (by omega)]
  rcases Int.lt_or_le (t.cursor + d) t.length with h1 | h1
  · have hmove : t.move d = .ok (t.goto (t.cursor + d).toNat) := by
      unfold move
      rw [if_neg (by omega), if_pos h1]
    rw [perform_of_ok hmove, growth?_of_length_eq (length_goto t _), if_neg (by omega)]
  rcases Int.lt_or_le (t.cursor + d) t.limit with h2 | h2
  · have hmove : t.move d =
        .ok ((t.extend (t.grownLength (t.cursor + d).toNat)).goto (t.cursor + d).toNat) := by
      unfold move
      rw [if_neg (by omega), if_neg (by omega), if_neg (by omega)]
    have hgrown : t.length < t.grownLength (t.cursor + d).toNat := by
      unfold grownLength
      omega
    have hmax : max t.length (t.grownLength (t.cursor + d).toNat) =
        t.grownLength (t.cursor + d).toNat := by omega
    rw [perform_of_ok hmove, growth?, length_goto, length_extend, hmax, if_pos hgrown,
      if_pos ⟨h1, h2⟩, grownLength]
  · rw [perform_of_error (h.move_outOfMemory h2), growth?_of_length_eq rfl, if_neg (by omega)]

/-- The growth of one operation, if there is one, leads from the old length to the new one. -/
theorem Valid.chain_growth? (h : t.Valid) (op : Op) :
    Growth.Chain t.limit t.length (t.growth? (t.perform op).2).toList
      (t.perform op).2.length := by
  have hp := h.performed op
  have hle := hp.length_le
  rcases Nat.lt_or_ge t.length (t.perform op).2.length with hlt | hge
  · have hgrowth : t.growth? (t.perform op).2 = some ⟨t.length, (t.perform op).2.length⟩ := by
      rw [growth?, if_pos hlt]
    have hlimit : (t.perform op).2.length ≤ t.limit := by
      rw [← hp.limit]
      exact hp.valid.length_le
    have hdoubles : min (2 * t.length) t.limit ≤ (t.perform op).2.length := by
      by_cases hm : ∃ d, op = .move d
      · obtain ⟨d, rfl⟩ := hm
        rw [h.growth?_move] at hgrowth
        split at hgrowth
        · have hafter := congrArg Growth.after (Option.some.inj hgrowth)
          dsimp only at hafter
          omega
        · cases hgrowth
      · have hsame := (hp.unmoved fun d hd => hm ⟨d, hd⟩).2.2
        omega
    rw [hgrowth, Option.toList_some]
    exact Growth.Chain.cons (g := ⟨t.length, _⟩) hlt hdoubles hlimit (.nil _)
  · have heq : (t.perform op).2.length = t.length := by omega
    rw [growth?_of_length_eq heq, Option.toList_none, heq]
    exact .nil _

/-- **The growths of a session are a chain** from its first length to its last. -/
theorem Valid.chain_growths (h : t.Valid) (ops : List Op) :
    Growth.Chain t.limit t.length (t.growths ops) (t.after ops).length := by
  induction ops generalizing t with
  | nil => exact .nil _
  | cons op ops ih =>
    have hp := h.performed op
    have hnext := ih hp.valid
    rw [hp.limit] at hnext
    rw [growths, after_cons]
    exact (h.chain_growth? op).append hnext

end Tape

/-- The growths of a tape that was made with these sizes and has now this length: they lead from the
initial length to this one, and are few. -/
structure Growth.Amortised (initial limit : Int) (gs : List Growth) (length : Nat) : Prop where
  chain : Growth.Chain limit.toNat initial.toNat gs length
  few k : gs.length = k + 1 → initial * 2 ^ k < limit

theorem Tape.amortised {initial limit : Int} {t₀ : Tape} (made : make initial limit = .ok t₀)
    (ops : List Op) : Growth.Amortised initial limit (t₀.growths ops) (t₀.after ops).length := by
  obtain ⟨hv, rfl, rfl⟩ := valid_of_make made
  have hchain := hv.chain_growths ops
  refine ⟨hchain, fun k hk => ?_⟩
  have hlt : t₀.length * 2 ^ k < t₀.limit := hchain.mul_pow_lt k hk
  exact_mod_cast hlt

/-- **Growth is amortised.** In a session on a new tape, failed moves included, the growths lead
from the initial length to the length that the tape has in the end, each at least doubles the length
or reaches the limit, and if there are `k + 1` of them then the initial length can be doubled `k`
times below the limit. A move is recorded as a growth exactly if it goes beyond the cells and stays
below the limit. The growths that a run of a program records on a new tape are such a chain as well,
at every moment of it. -/
theorem growth_amortised {initial limit : Int} {t₀ : Tape}
    (made : Tape.make initial limit = .ok t₀) :
    (∀ ops : List Tape.Op,
      Growth.Amortised initial limit (t₀.growths ops) (t₀.after ops).length ∧
      ∀ (t : Tape) (d : Int), t = t₀.after ops →
        t₀.growths (ops ++ [.move d]) = t₀.growths ops ++
          if t.length ≤ t.cursor + d ∧ t.cursor + d < limit then
            [⟨t.length, min (max (2 * t.length) ((t.cursor + d).toNat + 1)) limit.toNat⟩]
          else []) ∧
    ∀ (σ : Type) (dev : Device σ) (cfg : Settings) (p : Program) (x : σ) (n : Nat) (s : State σ),
      s = ((Machine.start p (.start t₀ x)).after dev cfg n).state →
        Growth.Amortised initial limit s.growths.toList s.tape.length := by
  refine ⟨fun ops => ⟨Tape.amortised made ops, ?_⟩, ?_⟩
  · rintro t d rfl
    obtain ⟨hv, -, rfl⟩ := Tape.valid_of_make made
    have hf := Tape.follows_after ops hv
    rw [Tape.growths_append, Tape.growths_singleton, hf.valid.growth?_move, hf.limit]
    split <;> rfl
  · rintro σ dev cfg p x n s rfl
    obtain ⟨ops, h⟩ := Machine.exists_operated_after dev cfg n (.start p (.start t₀ x))
    have hgrowths := h.growths
    rw [h.tape, hgrowths]
    exact Tape.amortised made ops

/-- A tape that grows twice, by doubling and to its limit, with moves that fail on both sides in
between. -/
theorem growth_amortised_twice :
    ∃ t₀, Tape.make 3 10 = .ok t₀ ∧
      t₀.growths [.move (-1), .move 3, .move 9, .move 4, .move 3] = [⟨3, 6⟩, ⟨6, 10⟩] ∧
      Growth.Chain 10 3 [⟨3, 6⟩, ⟨6, 10⟩] 10 ∧ (3 : Int) * 2 ^ 1 < 10 := by
  have made : Tape.make 3 10 = .ok (.blank 3 10) := rfl
  obtain ⟨session, -⟩ := growth_amortised made
  have hgrowths : (Tape.blank 3 10).growths [.move (-1), .move 3, .move 9, .move 4, .move 3] =
      [⟨3, 6⟩, ⟨6, 10⟩] := by decide
  obtain ⟨chain, few⟩ := (session [.move (-1), .move 3, .move 9, .move 4, .move 3]).1
  rw [hgrowths] at chain few
  exact ⟨_, made, hgrowths, chain, few 1 rfl⟩

end TapeLang
