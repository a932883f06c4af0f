import TapeLang.Program.Bare
import TapeLang.Program.OfTokens
import TapeLang.Program.Source

/-!
# Programs, unrolled and read back

Printing a program as source spells it out: a move by a count becomes that many unit moves, an
assignment a clear loop and then the way from zero to the value. `Program.unroll` does this to the
program itself, and the two agree with what is printed and what is read.

* `Program.symbols_unroll`: the symbols of a program are those of the unrolled program.
* `Program.exists_parse_of_symbols`: a program of unit instructions is read back from its symbols,
  but for the places.
* `Program.exists_parse_emit`: so what is read back from any program that can be printed is the
  program, unrolled.
* `Program.throughout_of_parse`: what holds of the instruction of each token holds throughout the
  program that is read. So it consists of unit instructions (`Program.isUnit_of_parse`).
-/

namespace TapeLang

/-! ### Properties of all instructions of a program -/

mutual

/-- Whether `f` holds of an instruction and of everything in its loop body. -/
def Instr.throughout (f : Instr → Bool) : Instr → Bool
  | .loop body pos => f (.loop body pos) && Program.throughout f body
  | i => f i

/-- Whether `f` holds of every instruction of a program, loop bodies included. -/
def Program.throughout (f : Instr → Bool) : Program → Bool
  | [] => true
  | i :: rest => i.throughout f && Program.throughout f rest

end

namespace Instr

/-- Not an `unknown` instruction. -/
def isKnown : Instr → Bool
  | unknown _ => false
  | _ => true

/-- Not an assignment. -/
def isNoSet : Instr → Bool
  | set .. => false
  | _ => true

/-- What one symbol stands for, or a loop. -/
def isUnit : Instr → Bool
  | moveLeft n _ _ | moveRight n _ _ | add n _ | sub n _ => n = 1
  | set .. | unknown _ => false
  | output _ | input _ | loop .. => true

/-- Counts are positive and numbers in the cell range. -/
def inRange : Instr → Bool
  | moveLeft n _ _ | moveRight n _ _ => 1 ≤ n
  | add d _ | sub d _ => 1 ≤ d ∧ d < Cell.modulus
  | set v _ => 0 ≤ v ∧ v < Cell.modulus
  | output _ | input _ | loop .. | unknown _ => true

variable {f g : Instr → Bool} {i : Instr}

theorem throughout_iff : i.throughout f = true ↔
    f i = true ∧ ∀ b pos, i = .loop b pos → Program.throughout f b = true := by
  rcases i.isLoop_cases with hl | ⟨b, pos, rfl⟩
  · have h : i.throughout f = f i := by
      cases i with
      | loop => cases hl
      | _ => simp [throughout]
    rw [h]
    refine ⟨fun hi => ⟨hi, ?_⟩, fun hi => hi.1⟩
    rintro b pos rfl
    cases hl
  · rw [throughout, Bool.and_eq_true]
    refine and_congr_right fun _ => ⟨?_, fun h => h b pos rfl⟩
    rintro h _ _ ⟨⟩
    exact h

theorem isKnown_of_isUnit (h : i.isUnit = true) : i.isKnown = true ∧ i.isNoSet = true := by
  cases i with
  | set | unknown => cases h
  | _ => exact ⟨rfl, rfl⟩

end Instr

namespace Program

variable {f g : Instr → Bool}

@[simp] theorem throughout_nil : throughout f [] = true := by simp [throughout]

theorem throughout_cons {i : Instr} {r : Program} : throughout f (i :: r) = true ↔
    f i = true ∧ (∀ b pos, i = .loop b pos → throughout f b = true) ∧ throughout f r = true := by
  rw [throughout, Bool.and_eq_true, Instr.throughout_iff, and_assoc]

theorem throughout_iff_forall {p : Program} :
    throughout f p = true ↔ ∀ i ∈ p, i.throughout f = true := by
  induction p with
  | nil => simp
  | cons i p ih => rw [throughout, Bool.and_eq_true, ih, List.forall_mem_cons]

theorem throughout_append {p q : Program} :
    throughout f (p ++ q) = true ↔ throughout f p = true ∧ throughout f q = true := by
  simp only [throughout_iff_forall, List.forall_mem_append]

theorem throughout_reverse {p : Program} :
    throughout f p.reverse = true ↔ throughout f p = true := by
  simp only [throughout_iff_forall, List.mem_reverse]

theorem throughout_true (p : Program) : throughout (fun _ => true) p = true := by
  induction p using Program.induction with
  | nil => exact throughout_nil
  | cons i r body rest => exact throughout_cons.2 ⟨rfl, fun b pos hb => body b pos hb, rest⟩

theorem throughout_imp (h : ∀ i, f i = true → g i = true) (p : Program) :
    throughout f p = true → throughout g p = true := by
  induction p using Program.induction with
  | nil => exact fun _ => throughout_nil
  | cons i r body rest =>
    rw [throughout_cons, throughout_cons]
    exact fun ⟨hi, hb, hr⟩ => ⟨h i hi, fun b pos he => body b pos he (hb b pos he), rest hr⟩

theorem throughout_replicate {i : Instr} (hi : f i = true) (hl : i.isLoop = false) :
    ∀ n, throughout f (List.replicate n i) = true
  | 0 => throughout_nil
  | n + 1 => by
    rw [List.replicate_succ, throughout_cons]
    refine ⟨hi, ?_, throughout_replicate hi hl n⟩
    rintro b pos rfl
    cases hl

end Program

/-! ### Unrolling -/

mutual

/-- An instruction in single steps, without places. -/
def Instr.unroll : Instr → Program
  | .moveRight n _ _ => List.replicate n.toNat (.moveRight 1 none [])
  | .moveLeft n _ _ => List.replicate n.toNat (.moveLeft 1 none [])
  | .add d _ => List.replicate d.toNat (.add 1 none)
  | .sub d _ => List.replicate d.toNat (.sub 1 none)
  | .set v _ =>
    .loop [.sub 1 none] none ::
      if Cell.modulus / 2 < v then List.replicate (Cell.modulus - v).toNat (.sub 1 none)
      else List.replicate v.toNat (.add 1 none)
  | .output _ => [.output none]
  | .input _ => [.input none]
  | .loop body _ => [.loop (Program.unroll body) none]
  | .unknown n => [.unknown n]

/-- A program in single steps, without places. -/
def Program.unroll : Program → Program
  | [] => []
  | i :: rest => i.unroll ++ Program.unroll rest

end

/-! ### The symbols of an unrolled program -/

theorem Instr.symbols_loop (b : Program) (pos : Option Position) : (Instr.loop b pos).symbols =
    (Program.symbols b).map fun inner => .opening :: (inner ++ [.closing]) := by
  rw [Instr.symbols]
  cases Program.symbols b <;> rfl

theorem Instr.symbols_loop_eq_ok {b : Program} {pos : Option Position} {l : List Symbol} :
    (Instr.loop b pos).symbols = .ok l ↔
      ∃ inner, Program.symbols b = .ok inner ∧ l = .opening :: (inner ++ [.closing]) := by
  rw [Instr.symbols_loop]
  rcases Program.symbols b with _ | inner <;> simp [Except.map, eq_comm]

namespace Program

theorem symbols_cons_eq_ok {i : Instr} {r : Program} {l : List Symbol} :
    symbols (i :: r) = .ok l ↔ ∃ a c, i.symbols = .ok a ∧ symbols r = .ok c ∧ l = a ++ c := by
  rw [symbols_cons]
  rcases i.symbols with _ | a <;> rcases symbols r with _ | c <;>
    simp [bind, Except.bind, pure, Except.pure, eq_comm]

theorem symbols_singleton (i : Instr) : symbols [i] = i.symbols := by
  rw [symbols_cons, symbols_nil]
  rcases i.symbols with _ | a <;> simp [bind, Except.bind, pure, Except.pure]

theorem symbols_replicate {i : Instr} {x : Symbol} (h : i.symbols = .ok [x]) :
    ∀ n, symbols (List.replicate n i) = .ok (List.replicate n x)
  | 0 => rfl
  | n + 1 => by
    rw [List.replicate_succ, symbols_cons_eq_ok]
    exact ⟨[x], _, h, symbols_replicate h n, rfl⟩

theorem symbols_unroll_instr (i : Instr)
    (body : ∀ b pos, i = .loop b pos → symbols (unroll b) = symbols b) :
    symbols i.unroll = i.symbols := by
  cases i with
  | moveRight n _ _ => exact symbols_replicate (x := .right) rfl _
  | moveLeft n _ _ => exact symbols_replicate (x := .left) rfl _
  | add d _ => exact symbols_replicate (x := .plus) rfl _
  | sub d _ => exact symbols_replicate (x := .minus) rfl _
  | set v _ =>
    rw [Instr.unroll, Instr.symbols, symbols_cons_eq_ok]
    refine ⟨Symbol.clear, _, rfl, ?_, rfl⟩
    split
    · exact symbols_replicate rfl _
    · exact symbols_replicate rfl _
  | output _ => rfl
  | input _ => rfl
  | loop b pos =>
    rw [Instr.unroll, symbols_singleton, Instr.symbols_loop, Instr.symbols_loop, body b pos rfl]
  | unknown n => rfl

/-- The symbols of a program are those of the unrolled program. -/
theorem symbols_unroll (p : Program) : symbols (unroll p) = symbols p := by
  induction p using Program.induction with
  | nil => rfl
  | cons i r body rest =>
    rw [unroll, symbols_append, symbols_cons, symbols_unroll_instr i body, rest]

theorem isUnit_unroll (p : Program) : throughout Instr.isKnown p = true →
    throughout Instr.isUnit (unroll p) = true := by
  induction p using Program.induction with
  | nil => exact fun _ => throughout_nil
  | cons i r body rest =>
    rw [throughout_cons, unroll, throughout_append]
    rintro ⟨hi, hb, hr⟩
    refine ⟨?_, rest hr⟩
    cases i with
    | moveRight | moveLeft | add | sub => exact throughout_replicate rfl rfl _
    | set v _ =>
      rw [Instr.unroll, throughout_cons]
      refine ⟨rfl, ?_, ?_⟩
      · rintro _ _ ⟨⟩
        rfl
      · split <;> exact throughout_replicate rfl rfl _
    | output | input => rfl
    | loop b pos =>
      rw [Instr.unroll, throughout_cons]
      refine ⟨rfl, ?_, throughout_nil⟩
      rintro _ _ ⟨⟩
      exact body b pos rfl (hb b pos rfl)
    | unknown => cases hi

/-- A program without unknown instructions can be printed. -/
theorem exists_symbols (p : Program) : throughout Instr.isKnown p = true →
    ∃ l, symbols p = .ok l := by
  induction p using Program.induction with
  | nil => exact fun _ => ⟨[], rfl⟩
  | cons i r body rest =>
    rw [throughout_cons]
    rintro ⟨hi, hb, hr⟩
    have hfirst : ∃ a, i.symbols = .ok a := by
      cases i with
      | loop b pos =>
        obtain ⟨inner, h⟩ := body b pos rfl (hb b pos rfl)
        exact ⟨_, Instr.symbols_loop_eq_ok.2 ⟨inner, h, rfl⟩⟩
      | unknown => cases hi
      | _ => exact ⟨_, by rw [Instr.symbols]⟩
    obtain ⟨a, ha⟩ := hfirst
    obtain ⟨c, hc⟩ := rest hr
    exact ⟨a ++ c, symbols_cons_eq_ok.2 ⟨a, c, ha, hc, rfl⟩⟩

end Program

/-! ### Reading -/

namespace Token

theorem map_kind_scanFrom (p : Position) (cs : List Char) :
    (scanFrom p cs).map kind = (cs.filterMap Symbol.ofChar?).map .command := by
  induction cs generalizing p with
  | nil => rfl
  | cons c cs ih =>
    rw [scanFrom, List.filterMap_cons]
    cases Symbol.ofChar? c with
    | none => exact ih _
    | some x => simp only [List.map_cons, ih]

/-- The tokens of a text are its command symbols, with places. -/
theorem map_kind_scan (code : String) :
    (scan code).map kind = (Symbol.ofText code).map .command := by
  rw [scan_eq_scanFrom, map_kind_scanFrom, Symbol.ofText]

theorem exists_of_map_kind_loop {ts : List Token} {inner : List Symbol}
    (h : ts.map kind = (Symbol.opening :: (inner ++ [.closing])).map .command) :
    ∃ t ts' t', ts = t :: (ts' ++ [t']) ∧ t.kind = .command .opening ∧
      ts'.map kind = inner.map .command ∧ t'.kind = .command .closing := by
  obtain ⟨t, rest, rfl, ht, hrest⟩ := List.map_eq_cons_iff.1 h
  rw [List.map_append] at hrest
  obtain ⟨ts', last, rfl, hts', hlast⟩ := List.map_eq_append_iff.1 hrest
  obtain ⟨t', rfl, ht'⟩ := List.map_eq_singleton_iff.1 hlast
  exact ⟨t, ts', t', rfl, ht, hts', ht'⟩

end Token

/-- The instruction of a symbol at a place, for all but the brackets. -/
def Symbol.instr? (p : Position) : Symbol → Option Instr
  | .right => some (.moveRight 1 p [p])
  | .left => some (.moveLeft 1 p [p])
  | .plus => some (.add 1 p)
  | .minus => some (.sub 1 p)
  | .dot => some (.output p)
  | .comma => some (.input p)
  | .opening | .closing => none

theorem Symbol.isUnit_of_instr? {x : Symbol} {p : Position} {i : Instr}
    (h : x.instr? p = some i) : i.isUnit = true ∧ i.isLoop = false := by
  cases x <;> cases h <;> exact ⟨rfl, rfl⟩

theorem Instr.exists_instr? {i : Instr} (hi : i.isUnit = true) (hl : i.isLoop = false) :
    ∃ x, i.symbols = .ok [x] ∧ ∀ p, ∃ j, Symbol.instr? p x = some j ∧ j.bare = i.bare := by
  cases i with
  | moveLeft n =>
    obtain rfl : n = 1 := of_decide_eq_true hi
    exact ⟨.left, rfl, fun p => ⟨_, rfl, rfl⟩⟩
  | moveRight n =>
    obtain rfl : n = 1 := of_decide_eq_true hi
    exact ⟨.right, rfl, fun p => ⟨_, rfl, rfl⟩⟩
  | add n =>
    obtain rfl : n = 1 := of_decide_eq_true hi
    exact ⟨.plus, rfl, fun p => ⟨_, rfl, rfl⟩⟩
  | sub n =>
    obtain rfl : n = 1 := of_decide_eq_true hi
    exact ⟨.minus, rfl, fun p => ⟨_, rfl, rfl⟩⟩
  | output => exact ⟨.dot, rfl, fun p => ⟨_, rfl, rfl⟩⟩
  | input => exact ⟨.comma, rfl, fun p => ⟨_, rfl, rfl⟩⟩
  | loop => cases hl
  | set | unknown => cases hi

namespace Builder

variable {source : Option String} {b b' : Builder} {t : Token}

theorem step_of_instr? {x : Symbol} {i : Instr} (ht : t.kind = .command x)
    (hx : x.instr? t.position = some i) : step source b t = .ok (b.push i) := by
  cases x <;> cases hx <;> simp only [step, ht]

/-- What one token can do: add an instruction, open a loop, or close one. -/
theorem step_cases (h : step source b t = .ok b') :
    (∃ x i, t.kind = .command x ∧ x.instr? t.position = some i ∧ b' = b.push i) ∨
    (t.kind = .command .opening ∧ b' = ⟨[], (t.position, b.current) :: b.pending⟩) ∨
    ∃ opener before rest, t.kind = .command .closing ∧ b.pending = (opener, before) :: rest ∧
      b' = ⟨.loop b.current.reverse opener :: before, rest⟩ := by
  rcases ht : t.kind with x | text
  · by_cases hx : ∃ i, x.instr? t.position = some i
    · obtain ⟨i, hi⟩ := hx
      rw [step_of_instr? ht hi] at h
      cases h
      exact .inl ⟨x, i, rfl, hi, rfl⟩
    · cases x with
      | opening =>
        simp only [step, ht] at h
        cases h
        exact .inr (.inl ⟨rfl, rfl⟩)
      | closing =>
        simp only [step, ht] at h
        rcases hp : b.pending with _ | ⟨⟨opener, before⟩, rest⟩
        · simp only [hp] at h
          cases h
        · simp only [hp] at h
          cases h
          exact .inr (.inr ⟨opener, before, rest, rfl, rfl, rfl⟩)
      | _ => exact absurd ⟨_, rfl⟩ hx
  · simp only [step, ht] at h
    cases h

theorem foldlM_append_of_ok {ts ts' : List Token} {b b' : Builder}
    (h : ts.foldlM (step source) b = .ok b') :
    (ts ++ ts').foldlM (step source) b = ts'.foldlM (step source) b' := by
  rw [List.foldlM_append, h]
  rfl

/-- A loop is read between its brackets. -/
theorem foldlM_loop {b : Builder} {body : Program} {t t' : Token} {ts : List Token}
    (ht : t.kind = .command .opening) (ht' : t'.kind = .command .closing)
    (hb : ts.foldlM (step source) ⟨[], (t.position, b.current) :: b.pending⟩ =
      .ok ⟨body.reverse, (t.position, b.current) :: b.pending⟩) :
    (t :: (ts ++ [t'])).foldlM (step source) b = .ok (b.push (.loop body t.position)) := by
  have hopen : step source b t = .ok ⟨[], (t.position, b.current) :: b.pending⟩ := by
    simp only [step, ht]
  rw [List.foldlM_cons, hopen]
  show (ts ++ [t']).foldlM (step source) _ = _
  rw [foldlM_append_of_ok hb]
  simp [step, ht', push, bind, Except.bind, pure, Except.pure]

/-- **Unit instructions are read back from their symbols.** -/
theorem foldlM_of_symbols (source : Option String) (u : Program) :
    u.throughout Instr.isUnit = true → ∀ {l : List Symbol} {ts : List Token} (b : Builder),
      u.symbols = .ok l → ts.map Token.kind = l.map .command →
      ∃ q : Program, ts.foldlM (step source) b = .ok ⟨q.reverse ++ b.current, b.pending⟩ ∧
        q.bare = u.bare := by
  induction u using Program.induction with
  | nil =>
    rintro - l ts b ⟨⟩ hts
    obtain rfl : ts = [] := List.map_eq_nil_iff.1 hts
    exact ⟨[], rfl, rfl⟩
  | cons i r body rest =>
    rw [Program.throughout_cons]
    rintro ⟨hi, hb, hr⟩ l ts b hs hts
    obtain ⟨a, c, ha, hc, rfl⟩ := Program.symbols_cons_eq_ok.1 hs
    rw [List.map_append] at hts
    obtain ⟨ts₁, ts₂, rfl, hts₁, hts₂⟩ := List.map_eq_append_iff.1 hts
    have hfirst : ∃ j, ts₁.foldlM (step source) b = .ok (b.push j) ∧ j.bare = i.bare := by
      rcases i.isLoop_cases with hl | ⟨bd, pos, rfl⟩
      · obtain ⟨x, hx, hj⟩ := Instr.exists_instr? hi hl
        obtain rfl : [x] = a := Except.ok.inj (hx.symm.trans ha)
        obtain ⟨t, rfl, ht⟩ := List.map_eq_singleton_iff.1 hts₁
        obtain ⟨j, hj, hbare⟩ := hj t.position
        refine ⟨j, ?_, hbare⟩
        rw [List.foldlM_cons, step_of_instr? ht hj]
        rfl
      · obtain ⟨inner, hinner, rfl⟩ := Instr.symbols_loop_eq_ok.1 ha
        obtain ⟨t, ts', t', rfl, ht, hts', ht'⟩ := Token.exists_of_map_kind_loop hts₁
        obtain ⟨q, hq, hqb⟩ := body bd pos rfl (hb bd pos rfl)
          ⟨[], (t.position, b.current) :: b.pending⟩ hinner hts'
        rw [List.append_nil] at hq
        refine ⟨_, foldlM_loop ht ht' hq, ?_⟩
        rw [Instr.bare, Instr.bare, hqb]
    obtain ⟨j, hj, hjb⟩ := hfirst
    obtain ⟨q, hq, hqb⟩ := rest hr (b.push j) hc hts₂
    refine ⟨j :: q, ?_, ?_⟩
    · rw [foldlM_append_of_ok hj, hq, List.reverse_cons, List.append_assoc]
      rfl
    · rw [Program.bare_cons, Program.bare_cons, hjb, hqb]

end Builder

namespace Program

/-- **A program of unit instructions is read back from its symbols**, but for the places. -/
theorem exists_parse_of_symbols {u : Program} (hu : u.throughout Instr.isUnit = true)
    {l : List Symbol} (hl : u.symbols = .ok l) :
    ∃ q, parse (Symbol.text l) = .ok q ∧ q.bare = u.bare := by
  have hts : (Token.scan (Symbol.text l)).map Token.kind = l.map .command := by
    rw [Token.map_kind_scan, Symbol.ofText_text]
  obtain ⟨q, hq, hb⟩ := Builder.foldlM_of_symbols (Symbol.text l) u hu .empty hl hts
  refine ⟨q, ?_, hb⟩
  rw [parse, ofTokens, hq]
  simp [bind, Except.bind, Builder.finish, Builder.empty]

theorem bare_replicate {i : Instr} (hi : i.bare = i) (n : Nat) :
    Program.bare (List.replicate n i) = List.replicate n i := by
  rw [bare_eq_map, List.map_replicate, hi]

theorem bare_unroll (p : Program) : (unroll p).bare = unroll p := by
  induction p using Program.induction with
  | nil => rfl
  | cons i r body rest =>
    rw [unroll, bare_append, rest]
    congr 1
    cases i with
    | moveRight | moveLeft | add | sub => exact bare_replicate rfl _
    | set v _ =>
      rw [Instr.unroll, bare_cons]
      split <;> rw [bare_replicate rfl] <;> rfl
    | output | input | unknown => rfl
    | loop b pos => rw [Instr.unroll, bare_cons, Instr.bare, body b pos rfl, bare_nil]

/-- What is read back from a printed program is the program, unrolled. -/
theorem exists_parse_emit {p : Program} (hp : p.throughout Instr.isKnown = true) :
    ∃ code q, p.emit = .ok code ∧ parse code = .ok q ∧ q.bare = p.unroll := by
  obtain ⟨l, hl⟩ := p.exists_symbols hp
  obtain ⟨q, hq, hb⟩ := exists_parse_of_symbols (isUnit_unroll p hp) ((symbols_unroll p).trans hl)
  refine ⟨Symbol.text l, q, ?_, hq, hb.trans (bare_unroll p)⟩
  rw [emit, hl]
  rfl

end Program

/-! ### What is read -/

/-- `f` holds of all that a builder holds. -/
structure Builder.Throughout (f : Instr → Bool) (b : Builder) : Prop where
  current : Program.throughout f b.current = true
  pending : ∀ l ∈ b.pending, Program.throughout f l.2 = true

/-- `f` holds of the instruction that a token stands for, if it stands for one. -/
def Token.Yields (f : Instr → Bool) (t : Token) : Prop :=
  ∀ x i, t.kind = .command x → x.instr? t.position = some i → f i = true

section
variable {f : Instr → Bool} (hloop : ∀ body pos, f (.loop body pos) = true)
include hloop

namespace Builder.Throughout

variable {source : Option String} {b b' : Builder}

theorem step {t : Token} (h : b.Throughout f) (ht : t.Yields f)
    (hs : step source b t = .ok b') : b'.Throughout f := by
  rcases step_cases hs with ⟨x, i, hx, hi, rfl⟩ | ⟨-, rfl⟩ | ⟨opener, before, rest, -, hp, rfl⟩
  · refine ⟨Program.throughout_cons.2 ⟨ht x i hx hi, ?_, h.current⟩, h.pending⟩
    rintro c pos rfl
    cases (Symbol.isUnit_of_instr? hi).2
  · exact ⟨Program.throughout_nil, List.forall_mem_cons.2 ⟨h.current, h.pending⟩⟩
  · have hpending := h.pending
    rw [hp, List.forall_mem_cons] at hpending
    refine ⟨Program.throughout_cons.2 ⟨hloop _ _, ?_, hpending.1⟩, hpending.2⟩
    rintro c pos ⟨⟩
    exact Program.throughout_reverse.2 h.current

theorem foldlM : ∀ {ts : List Token} {b : Builder}, b.Throughout f → (∀ t ∈ ts, t.Yields f) →
    ts.foldlM (Builder.step source) b = .ok b' → b'.Throughout f
  | [], b, h, _, hf => by
    cases hf
    exact h
  | t :: ts, b, h, hts, hf => by
    rw [List.forall_mem_cons] at hts
    rw [List.foldlM_cons] at hf
    rcases hs : Builder.step source b t with e | c
    · rw [hs] at hf
      cases hf
    · rw [hs] at hf
      exact foldlM (h.step hloop hts.1 hs) hts.2 hf

end Builder.Throughout

/-- What holds of the instructions that the tokens stand for holds of the program that is read. -/
theorem Program.throughout_of_parse {code : String} {p : Program} (h : parse code = .ok p)
    (hts : ∀ t ∈ Token.scan code, t.Yields f) : p.throughout f = true := by
  rw [parse, ofTokens] at h
  rcases hf : (Token.scan code).foldlM (Builder.step code) .empty with e | b
  · rw [hf] at h
    cases h
  · rw [hf] at h
    have hb : b.Throughout f :=
      .foldlM hloop ⟨throughout_nil, fun _ => List.not_mem_nil.elim⟩ hts hf
    have hfin : b.finish code = .ok p := h
    unfold Builder.finish at hfin
    split at hfin
    · cases hfin
      exact throughout_reverse.2 hb.current
    · cases hfin

end

/-- What is read consists of unit instructions. -/
theorem Program.isUnit_of_parse {code : String} {p : Program} (h : parse code = .ok p) :
    p.throughout Instr.isUnit = true :=
  throughout_of_parse (fun _ _ => rfl) h fun _ _ _ _ _ hi => (Symbol.isUnit_of_instr? hi).1

end TapeLang
