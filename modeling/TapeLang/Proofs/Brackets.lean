import TapeLang.Proofs.TextPlaces
import TapeLang.Proofs.Unrolling
import Mathlib.Data.List.Induction
import Mathlib.Data.List.Infix

/-!
# Brackets

Which texts are programs, and which bracket is to blame in the others, is a matter of counting:
`Brackets.depth` is the number of `[` less the number of `]`. A text is balanced if the depth is
never negative along the way and zero at the end.

The reader keeps the unfinished loops on a stack. In the text read so far each of them is an opening
bracket, followed by balanced text up to the next (`Brackets.Pending`), so the innermost loop begins
at the last opening bracket that has no match.

* `Builder.read_cases`: reading a text leaves its pending brackets on the stack, or stops at the
  first bracket that closes nothing. The induction is along the text, from its end.
* `Brackets.Pending.covered`, `Brackets.Pending.last`: what the stack says about the text.
* `parse_blames_bracket`: the outcome of reading a program, by counting.
-/

namespace TapeLang

namespace Brackets

/-- How many brackets are opened in a text and not closed, negative if more are closed. -/
def depth (cs : List Char) : Int := cs.count '[' - cs.count ']'

/-- No beginning of the text closes more brackets than it opens. -/
def Covered (cs : List Char) : Prop := ∀ front, front <+: cs → 0 ≤ depth front

/-- All brackets of the text have their match. -/
structure Balanced (cs : List Char) : Prop where
  covered : Covered cs
  level : depth cs = 0

/-- The `]` right behind `before` is the first in the text that closes more than was opened. -/
structure Stray (cs before : List Char) : Prop where
  here : before ++ [']'] <+: cs
  covered : Covered before
  excess : depth (before ++ [']']) < 0

/-- The `[` right behind `before` has no match: at no point are more brackets closed behind it than
opened. -/
def Unclosed (cs before : List Char) : Prop := ∃ rest, cs = before ++ '[' :: rest ∧ Covered rest

/-- The `[` right behind `before` is the last one in the text that has no match. -/
structure LastUnclosed (cs before : List Char) : Prop where
  unclosed : Unclosed cs before
  last other : Unclosed cs other → other.length ≤ before.length

instance (cs : List Char) : Decidable (Covered cs) :=
  decidable_of_iff (∀ front ∈ cs.inits, 0 ≤ depth front) <| by
    simp only [List.mem_inits, Covered]

/-! ### Counting -/

@[simp] theorem depth_nil : depth [] = 0 := rfl

@[simp] theorem depth_append (u v : List Char) : depth (u ++ v) = depth u + depth v := by
  simp only [depth, List.count_append]
  omega

@[simp] theorem depth_open (cs : List Char) : depth ('[' :: cs) = depth cs + 1 := by
  simp only [depth, List.count_cons_self, List.count_cons_of_ne (show '[' ≠ ']' by decide)]
  omega

@[simp] theorem depth_close (cs : List Char) : depth (']' :: cs) = depth cs - 1 := by
  simp only [depth, List.count_cons_self, List.count_cons_of_ne (show ']' ≠ '[' by decide)]
  omega

theorem depth_comment {c : Char} (h : c ≠ '[' ∧ c ≠ ']') : depth [c] = 0 := by
  simp only [depth, List.count_cons_of_ne h.1, List.count_cons_of_ne h.2, List.count_nil]
  omega

theorem Covered.depth_nonneg {cs : List Char} (h : Covered cs) : 0 ≤ depth cs :=
  h cs List.prefix_rfl

/-- A text is covered if its two parts are, the second at the depth that the first leaves. -/
theorem Covered.append {u v : List Char} (hu : Covered u)
    (hv : ∀ front, front <+: v → 0 ≤ depth u + depth front) : Covered (u ++ v) := by
  intro front hfront
  rcases List.prefix_or_prefix_of_prefix hfront (List.prefix_append u v) with h | ⟨w, rfl⟩
  · exact hu front h
  · rw [depth_append]
    exact hv w ((List.prefix_append_right_inj u).1 hfront)

theorem Balanced.nil : Balanced [] where
  covered front h := Int.le_of_eq (by rw [List.prefix_nil.1 h, depth_nil])
  level := rfl

theorem Balanced.append {u v : List Char} (hu : Balanced u) (hv : Balanced v) :
    Balanced (u ++ v) where
  covered := hu.covered.append fun front h => by
    have h1 := hv.covered front h
    have h2 := hu.level
    omega
  level := by rw [depth_append, hu.level, hv.level]; rfl

theorem Balanced.comment {c : Char} (h : c ≠ '[' ∧ c ≠ ']') : Balanced [c] where
  covered front hfront := by
    rcases List.prefix_cons_iff.1 hfront with rfl | ⟨t, rfl, ht⟩
    · exact Int.le_refl 0
    · exact Int.le_of_eq (by rw [List.prefix_nil.1 ht, depth_comment h])
  level := depth_comment h

theorem Covered.open {v : List Char} (h : Covered v) : Covered ('[' :: v) := by
  intro front hfront
  rcases List.prefix_cons_iff.1 hfront with rfl | ⟨t, rfl, ht⟩
  · exact Int.le_refl 0
  · have := h t ht
    rw [depth_open]
    omega

theorem Balanced.loop {v : List Char} (h : Balanced v) : Balanced ('[' :: v ++ [']']) where
  covered := h.covered.open.append fun front hfront => by
    have hv := h.level
    rw [depth_open]
    rcases List.prefix_cons_iff.1 hfront with rfl | ⟨t, rfl, ht⟩
    · rw [depth_nil]
      omega
    · rw [List.prefix_nil.1 ht, depth_close, depth_nil]
      omega
  level := by
    have hv := h.level
    rw [depth_append, depth_open, depth_close, depth_nil]
    omega

/-- In balanced text every opening bracket has its match. -/
theorem Balanced.not_unclosed {v : List Char} (hv : Balanced v) (before : List Char) :
    ¬ Unclosed v before := by
  rintro ⟨rest, rfl, hrest⟩
  have h1 := hrest.depth_nonneg
  have h2 := hv.covered before (List.prefix_append before _)
  have h3 := hv.level
  rw [depth_append, depth_open] at h3
  omega

/-! ### Pending brackets -/

/-- The opening brackets of a text that have no match, by their places, innermost first. All else is
balanced. -/
inductive Pending : List Char → List Position → Prop
  | level {w : List Char} (even : Balanced w) : Pending w []
  | opened {w v : List Char} {ps : List Position} (below : Pending w ps) (even : Balanced v) :
      Pending (w ++ '[' :: v) (.behind w :: ps)

namespace Pending

variable {w v : List Char} {ps : List Position} {p : Position}

theorem append (h : Pending w ps) (hv : Balanced v) : Pending (w ++ v) ps := by
  cases h with
  | level even => exact .level (even.append hv)
  | opened below even =>
    rw [List.append_assoc, List.cons_append]
    exact .opened below (even.append hv)

theorem covered_and_depth (h : Pending w ps) : Covered w ∧ depth w = ps.length := by
  induction h with
  | level even => exact ⟨even.covered, even.level⟩
  | opened below even ih =>
    obtain ⟨hc, hd⟩ := ih
    refine ⟨hc.append fun front hfront => ?_, ?_⟩
    · have h1 := even.covered.open front hfront
      have h2 := hc.depth_nonneg
      omega
    · have h1 := even.level
      rw [depth_append, depth_open, List.length_cons, h1, hd]
      omega

/-- A `]` closes the innermost pending bracket. -/
theorem close (h : Pending w (p :: ps)) : Pending (w ++ [']']) ps := by
  cases h with
  | opened below even =>
    rw [List.append_assoc]
    exact below.append even.loop

/-- **The innermost pending bracket is the last without a match.** -/
theorem last (h : Pending w (p :: ps)) : ∃ before, LastUnclosed w before ∧ p = .behind before := by
  cases h with
  | @opened u v _ below even =>
    refine ⟨u, ⟨⟨v, rfl, even.covered⟩, fun other hother => ?_⟩, rfl⟩
    obtain ⟨rest, heq, hrest⟩ := hother
    rcases List.append_eq_append_iff.1 heq with ⟨a, rfl, ha⟩ | ⟨a, ha, -⟩
    · -- a later one would be unmatched within the balanced part
      rcases List.cons_eq_append_iff.1 ha with ⟨rfl, -⟩ | ⟨a, rfl, rfl⟩
      · exact Nat.le_of_eq (by rw [List.append_nil])
      · exact absurd ⟨rest, rfl, hrest⟩ (even.not_unclosed a)
    · rw [ha, List.length_append]
      omega

end Pending

/-! ### At most one bracket is to blame -/

theorem Stray.not_covered {cs before : List Char} (h : Stray cs before) : ¬ Covered cs :=
  fun hc => absurd (hc _ h.here) (by have := h.excess; omega)

theorem Stray.append {cs before : List Char} (h : Stray cs before) (more : List Char) :
    Stray (cs ++ more) before :=
  ⟨h.here.trans (List.prefix_append cs more), h.covered, h.excess⟩

theorem Stray.unique {cs u v : List Char} (hu : Stray cs u) (hv : Stray cs v) : u = v := by
  -- of two the shorter one would spoil what stands before the longer one
  have key : ∀ {u v : List Char}, Stray cs u → Stray cs v → v.length ≤ u.length := by
    intro u v hu hv
    by_contra hlt
    have hlen : (u ++ [']']).length ≤ v.length := by
      rw [List.length_append, List.length_singleton]
      omega
    have hfront : u ++ [']'] <+: v := List.prefix_of_prefix_length_le hu.here
      ((List.prefix_append v _).trans hv.here) hlen
    have h1 := hv.covered _ hfront
    have h2 := hu.excess
    omega
  have hlen : u.length = v.length := Nat.le_antisymm (key hv hu) (key hu hv)
  have hfront : u <+: v := List.prefix_of_prefix_length_le
    ((List.prefix_append u _).trans hu.here) ((List.prefix_append v _).trans hv.here)
    (Nat.le_of_eq hlen)
  exact hfront.eq_of_length hlen

theorem LastUnclosed.unique {cs u v : List Char} (hu : LastUnclosed cs u)
    (hv : LastUnclosed cs v) : u = v := by
  have hlen : u.length = v.length := Nat.le_antisymm (hv.last u hu.unclosed) (hu.last v hv.unclosed)
  obtain ⟨x, hx, -⟩ := hu.unclosed
  obtain ⟨y, hy, -⟩ := hv.unclosed
  have hfront : u <+: v := List.prefix_of_prefix_length_le (hx ▸ List.prefix_append u _)
    (hy ▸ List.prefix_append v _) (Nat.le_of_eq hlen)
  exact hfront.eq_of_length hlen

end Brackets

/-! ### Reading -/

open Brackets

namespace Builder

/-- What has been built from the beginning `cs` of a text. -/
def read (source : Option String) (cs : List Char) : Except ParseError Builder :=
  (Token.scanFrom .start cs).foldlM (step source) .empty

variable {source : Option String} {cs : List Char} {b : Builder}

theorem read_concat_of_error {e : ParseError} (h : read source cs = .error e) (c : Char) :
    read source (cs ++ [c]) = .error e := by
  unfold read at h ⊢
  rw [Token.scanFrom_append, List.foldlM_append, h]
  rfl

theorem read_concat_of_comment {c : Char} (h : read source cs = .ok b)
    (hc : Symbol.ofChar? c = none) : read source (cs ++ [c]) = .ok b := by
  unfold read at h ⊢
  rw [Token.scanFrom_append, foldlM_append_of_ok h, Token.scanFrom, hc]
  rfl

theorem read_concat_of_command {x : Symbol} (h : read source cs = .ok b) :
    read source (cs ++ [x.char]) = step source b ⟨.command x, .behind cs⟩ := by
  unfold read at h ⊢
  rw [Token.scanFrom_append, foldlM_append_of_ok h, Token.scanFrom, Symbol.ofChar?_char,
    Position.start_advanceAll]
  show step source b ⟨.command x, .behind cs⟩ >>= pure = _
  rw [bind_pure]

/-- **Reading keeps the pending brackets on the stack**, until it meets one that closes nothing. -/
theorem read_cases (source : Option String) (cs : List Char) :
    (∃ b, read source cs = .ok b ∧ Pending cs (b.pending.map Prod.fst)) ∨
      ∃ before, Stray cs before ∧
        read source cs = .error (.malformed (.unmatchedClose source (.behind before))) := by
  induction cs using List.reverseRecOn with
  | nil => exact .inl ⟨.empty, rfl, .level .nil⟩
  | append_singleton cs c ih =>
    rcases ih with ⟨b, hb, hp⟩ | ⟨before, hs, he⟩
    · rcases hc : Symbol.ofChar? c with _ | x
      · have hne : c ≠ '[' ∧ c ≠ ']' := by
          constructor <;> rintro rfl <;> cases hc
        exact .inl ⟨b, read_concat_of_comment hb hc, hp.append (.comment hne)⟩
      obtain rfl := Symbol.ofChar?_eq_some_iff.1 hc
      rw [read_concat_of_command hb]
      by_cases hi : ∃ i, x.instr? (.behind cs) = some i
      · obtain ⟨i, hi⟩ := hi
        have hne : x.char ≠ '[' ∧ x.char ≠ ']' := by cases x <;> cases hi <;> decide
        exact .inl ⟨b.push i, step_of_instr? rfl hi, hp.append (.comment hne)⟩
      cases x with
      | opening => exact .inl ⟨_, rfl, .opened hp .nil⟩
      | closing =>
        rcases hpend : b.pending with _ | ⟨⟨opener, front⟩, rest⟩
        · rw [hpend] at hp
          obtain ⟨hcov, hdepth⟩ := hp.covered_and_depth
          refine .inr ⟨cs, ⟨List.prefix_rfl, hcov, ?_⟩, ?_⟩
          · rw [depth_append, hdepth, depth_close]
            decide
          · simp only [step, hpend]
        · rw [hpend] at hp
          refine .inl ⟨⟨.loop b.current.reverse opener :: front, rest⟩, ?_, hp.close⟩
          simp only [step, hpend]
      | _ => exact absurd ⟨_, rfl⟩ hi
    · exact .inr ⟨before, hs.append [c], read_concat_of_error he c⟩

end Builder

theorem Brackets.exists_stray_iff {cs : List Char} :
    (∃ before, Stray cs before) ↔ ∃ front, front <+: cs ∧ depth front < 0 := by
  constructor
  · rintro ⟨before, hs⟩
    exact ⟨before ++ [']'], hs.here, hs.excess⟩
  · rintro ⟨front, hfront, hneg⟩
    rcases Builder.read_cases none cs with ⟨b, -, hp⟩ | ⟨before, hs, -⟩
    · have := hp.covered_and_depth.1 front hfront
      omega
    · exact ⟨before, hs⟩

theorem Brackets.exists_lastUnclosed_iff {cs : List Char} (hcov : Covered cs) :
    (∃ before, LastUnclosed cs before) ↔ 0 < depth cs := by
  constructor
  · rintro ⟨before, ⟨⟨rest, rfl, hrest⟩, -⟩⟩
    have h1 := hcov before (List.prefix_append before _)
    have h2 := hrest.depth_nonneg
    rw [depth_append, depth_open]
    omega
  · intro hpos
    rcases Builder.read_cases none cs with ⟨b, -, hp⟩ | ⟨before, hs, -⟩
    · rcases hpend : b.pending with _ | ⟨⟨opener, front⟩, rest⟩
      · rw [hpend] at hp
        rw [hp.covered_and_depth.2] at hpos
        exact absurd hpos (by decide)
      · rw [hpend] at hp
        obtain ⟨before, hlast, -⟩ := hp.last
        exact ⟨before, hlast⟩
    · exact absurd hcov hs.not_covered

namespace Program

theorem parse_eq_read (code : String) :
    parse code = Builder.read code code.toList >>= Builder.finish code := by
  rw [parse, ofTokens, Token.scan_eq_scanFrom]
  rfl

/-- The three outcomes of reading a program. -/
theorem parse_cases (code : String) :
    (∃ p, parse code = .ok p ∧ Balanced code.toList) ∨
    (∃ before, Stray code.toList before ∧
      parse code = .error (.malformed (.unmatchedClose code (.behind before)))) ∨
    ∃ before, (Covered code.toList ∧ LastUnclosed code.toList before) ∧
      parse code = .error (.malformed (.unmatchedOpen code (.behind before))) := by
  rw [parse_eq_read]
  rcases Builder.read_cases (some code) code.toList with ⟨b, hb, hp⟩ | ⟨before, hs, he⟩
  · obtain ⟨hcov, hdepth⟩ := hp.covered_and_depth
    rcases hpend : b.pending with _ | ⟨⟨opener, front⟩, rest⟩
    · rw [hpend] at hdepth
      refine .inl ⟨b.current.reverse, ?_, hcov, hdepth⟩
      rw [hb]
      show b.finish _ = _
      simp only [Builder.finish, hpend]
    · rw [hpend] at hp
      obtain ⟨before, hlast, rfl⟩ := hp.last
      refine .inr (.inr ⟨before, ⟨hcov, hlast⟩, ?_⟩)
      rw [hb]
      show b.finish _ = _
      simp only [Builder.finish, hpend]
  · refine .inr (.inl ⟨before, hs, ?_⟩)
    rw [he]
    rfl

theorem exists_parse_eq_ok_iff {code : String} :
    (∃ p, parse code = .ok p) ↔ Balanced code.toList := by
  rcases parse_cases code with ⟨p, hp, hb⟩ | ⟨before, hs, hp⟩ | ⟨before, ⟨-, hlast⟩, hp⟩
  · exact ⟨fun _ => hb, fun _ => ⟨p, hp⟩⟩
  · refine ⟨fun ⟨q, hq⟩ => ?_, fun hb => absurd hb.covered hs.not_covered⟩
    cases hp.symm.trans hq
  · refine ⟨fun ⟨q, hq⟩ => ?_, fun hb => absurd hlast.unclosed (hb.not_unclosed before)⟩
    cases hp.symm.trans hq

theorem parse_of_stray {code : String} {before : List Char} (h : Stray code.toList before) :
    parse code = .error (.malformed (.unmatchedClose code (.behind before))) := by
  rcases parse_cases code with ⟨-, -, hb⟩ | ⟨other, hs, hp⟩ | ⟨-, ⟨hcov, -⟩, -⟩
  · exact absurd hb.covered h.not_covered
  · rwa [h.unique hs]
  · exact absurd hcov h.not_covered

theorem parse_of_lastUnclosed {code : String} {before : List Char} (hcov : Covered code.toList)
    (h : LastUnclosed code.toList before) :
    parse code = .error (.malformed (.unmatchedOpen code (.behind before))) := by
  rcases parse_cases code with ⟨-, -, hb⟩ | ⟨_, hs, -⟩ | ⟨other, ⟨-, hlast⟩, hp⟩
  · exact absurd h.unclosed (hb.not_unclosed before)
  · exact absurd hcov hs.not_covered
  · rwa [h.unique hlast]

/-- The error that reading ends with, from the text alone. -/
theorem parse_eq_error_iff {code : String} {e : ParseError} :
    parse code = .error e ↔ ∃ before,
      Stray code.toList before ∧ e = .malformed (.unmatchedClose code (.behind before)) ∨
      (Covered code.toList ∧ LastUnclosed code.toList before) ∧
        e = .malformed (.unmatchedOpen code (.behind before)) := by
  constructor
  · intro he
    rcases parse_cases code with ⟨p, h, -⟩ | ⟨before, hs, h⟩ | ⟨before, hlast, h⟩ <;>
      cases he.symm.trans h
    · exact ⟨before, .inl ⟨hs, rfl⟩⟩
    · exact ⟨before, .inr ⟨hlast, rfl⟩⟩
  · rintro ⟨before, ⟨hs, rfl⟩ | ⟨⟨hcov, hlast⟩, rfl⟩⟩
    · exact parse_of_stray hs
    · exact parse_of_lastUnclosed hcov hlast

end Program

/-- **A text is a program exactly if its brackets are balanced, and otherwise one bracket is to
blame**: the first `]` that closes more than was opened, or, if there is none, the last `[` without
a match. What follows the first stray `]` does not matter. -/
theorem parse_blames_bracket (code : String) :
    ((∃ p, Program.parse code = .ok p) ↔ Balanced code.toList) ∧
    ((∃ e, Program.parse code = .error (.malformed e) ∧ e.category = .unmatchedClose) ↔
      ∃ front, front <+: code.toList ∧ depth front < 0) ∧
    ((∃ e, Program.parse code = .error (.malformed e) ∧ e.category = .unmatchedOpen) ↔
      Covered code.toList ∧ 0 < depth code.toList) ∧
    (∀ e, Program.parse code = .error e ↔ ∃ before,
      Stray code.toList before ∧ e = .malformed (.unmatchedClose code (.behind before)) ∨
      (Covered code.toList ∧ LastUnclosed code.toList before) ∧
        e = .malformed (.unmatchedOpen code (.behind before))) ∧
    ∀ before, Stray code.toList before → ∀ more, Program.parse (code ++ more) =
      .error (.malformed (.unmatchedClose (code ++ more) (.behind before))) := by
  refine ⟨Program.exists_parse_eq_ok_iff, ?_, ?_, fun e => Program.parse_eq_error_iff, ?_⟩
  · rw [← exists_stray_iff]
    constructor
    · rintro ⟨e, he, hcat⟩
      obtain ⟨before, ⟨hs, -⟩ | ⟨-, heq⟩⟩ := Program.parse_eq_error_iff.1 he
      · exact ⟨before, hs⟩
      · cases heq
        cases hcat
    · rintro ⟨before, hs⟩
      exact ⟨_, Program.parse_of_stray hs, rfl⟩
  · constructor
    · rintro ⟨e, he, hcat⟩
      obtain ⟨before, ⟨-, heq⟩ | ⟨⟨hcov, hlast⟩, -⟩⟩ := Program.parse_eq_error_iff.1 he
      · cases heq
        cases hcat
      · exact ⟨hcov, (exists_lastUnclosed_iff hcov).1 ⟨before, hlast⟩⟩
    · rintro ⟨hcov, hpos⟩
      obtain ⟨before, hlast⟩ := (exists_lastUnclosed_iff hcov).2 hpos
      exact ⟨_, Program.parse_of_lastUnclosed hcov hlast, rfl⟩
  · intro before hs more
    refine Program.parse_of_stray ?_
    rw [String.toList_append]
    exact hs.append more.toList

theorem parse_blames_bracket_secondLine :
    Stray "[+]\n]".toList "[+]\n".toList ∧ Program.parse ("[+]\n]" ++ "[") =
      .error (.malformed (.unmatchedClose (some ("[+]\n]" ++ "[")) ⟨2, 1⟩)) :=
  have hs : Stray "[+]\n]".toList "[+]\n".toList := ⟨by decide, by decide, by decide⟩
  ⟨hs, (parse_blames_bracket "[+]\n]").2.2.2.2 _ hs "["⟩

end TapeLang
