import TapeLang.Program.Measure
import TapeLang.Proofs.Unrolling

/-!
# Reading and printing undo each other

While a text is read, the builder spells what it has read: its unfinished sequences, the outermost
first, with an opening bracket between one and the next. Each token adds its symbol to that.

A program can also be printed without recursion, by a loop over a stack of what is left of its
sequences, the innermost on top. Closing brackets come when a sequence is at its end.

* `Builder.Spells.step`: one token adds one symbol to what the builder spells.
* `Program.symbols_of_parse`: so the program that is read has the symbols of the text.
* `Program.printStack_eq`: the loop prints the sequences on its stack, each closed but the last;
  `Program.print_eq_emit`: so it prints what the recursion prints.
* `emit_inverts_parse`: printing gives the text back without its comments, and reading gives a
  program of unit instructions back.
-/

namespace TapeLang

/-! ### Command characters -/

namespace Symbol

/-- The characters that are no comments. -/
def alphabet : List Char := ['<', '>', '+', '-', '.', ',', '[', ']']

theorem char_mem_alphabet (x : Symbol) : x.char ∈ alphabet := by
  cases x <;> simp [char, alphabet]

theorem ofChar?_eq_none {c : Char} (h : c ∉ alphabet) : ofChar? c = none := by
  rcases hc : ofChar? c with _ | x
  · rfl
  · exact absurd (char_of_ofChar? hc ▸ x.char_mem_alphabet) h

theorem exists_of_mem_alphabet {c : Char} (h : c ∈ alphabet) : ∃ x, char x = c := by
  have hmap : alphabet = [left, right, plus, minus, dot, comma, opening, closing].map char := rfl
  obtain ⟨x, -, hx⟩ := List.mem_map.1 (hmap ▸ h)
  exact ⟨x, hx⟩

theorem map_char_filterMap_ofChar? (cs : List Char) :
    (cs.filterMap ofChar?).map char = cs.filter (· ∈ alphabet) := by
  induction cs with
  | nil => rfl
  | cons c cs ih =>
    by_cases hc : c ∈ alphabet
    · obtain ⟨x, rfl⟩ := exists_of_mem_alphabet hc
      rw [List.filterMap_cons_some (ofChar?_char x), List.map_cons, ih,
        List.filter_cons_of_pos (by simpa using hc)]
    · rw [List.filterMap_cons_none (ofChar?_eq_none hc), ih,
        List.filter_cons_of_neg (by simpa using hc)]

/-- The source text of the symbols of a text is the text without its comments. -/
theorem text_ofText (code : String) :
    text (ofText code) = String.ofList (code.toList.filter (· ∈ alphabet)) := by
  rw [text, ofText, map_char_filterMap_ofChar?]

end Symbol

/-! ### What a builder has read -/

theorem Symbol.symbols_of_instr? {x : Symbol} {p : Position} {i : Instr}
    (h : x.instr? p = some i) : i.symbols = .ok [x] := by
  cases x <;> cases h <;> rfl

theorem Program.symbols_reverse_cons {i : Instr} {p : List Instr} {l a : List Symbol}
    (hp : symbols p.reverse = .ok l) (hi : i.symbols = .ok a) :
    symbols (i :: p).reverse = .ok (l ++ a) := by
  rw [List.reverse_cons, symbols_append, symbols_singleton, hp, hi]
  rfl

namespace Builder

/-- The builder spells these symbols. A loop that is still open has its opening bracket and what
was read of its body, and no closing bracket. -/
inductive Spells : Builder → List Symbol → Prop
  | outermost {current : List Instr} {l : List Symbol}
      (symbols : Program.symbols current.reverse = .ok l) : Spells ⟨current, []⟩ l
  | inner {current before : List Instr} {opener : Position} {rest : List (Position × List Instr)}
      {l l' : List Symbol} (outer : Spells ⟨before, rest⟩ l)
      (symbols : Program.symbols current.reverse = .ok l') :
      Spells ⟨current, (opener, before) :: rest⟩ (l ++ .opening :: l')

namespace Spells

variable {source : Option String} {b b' : Builder} {l : List Symbol}

theorem push {i : Instr} {a : List Symbol} (h : b.Spells l) (hi : i.symbols = .ok a) :
    (b.push i).Spells (l ++ a) := by
  cases h with
  | outermost symbols => exact .outermost (Program.symbols_reverse_cons symbols hi)
  | inner outer symbols =>
    rw [List.append_assoc, List.cons_append]
    exact .inner outer (Program.symbols_reverse_cons symbols hi)

/-- A closing bracket turns the innermost unfinished sequence into the body of a loop. -/
theorem close {before : List Instr} {opener : Position} {rest : List (Position × List Instr)}
    (h : b.Spells l) (hp : b.pending = (opener, before) :: rest) :
    Spells ⟨.loop b.current.reverse opener :: before, rest⟩ (l ++ [.closing]) := by
  cases h with
  | outermost => cases hp
  | inner outer symbols =>
    cases hp
    rw [List.append_assoc, List.cons_append]
    exact outer.push (Instr.symbols_loop_eq_ok.2 ⟨_, symbols, rfl⟩)

/-- One token adds one symbol to what the builder spells. -/
theorem step {t : Token} {x : Symbol} (h : b.Spells l) (ht : t.kind = .command x)
    (hs : step source b t = .ok b') : b'.Spells (l ++ [x]) := by
  rcases step_cases hs with ⟨y, i, hy, hi, rfl⟩ | ⟨hy, rfl⟩ | ⟨opener, before, rest, hy, hp, rfl⟩
  · obtain rfl : x = y := Token.Kind.command.inj (ht.symm.trans hy)
    exact h.push (Symbol.symbols_of_instr? hi)
  · obtain rfl : x = .opening := Token.Kind.command.inj (ht.symm.trans hy)
    exact .inner h Program.symbols_nil
  · obtain rfl : x = .closing := Token.Kind.command.inj (ht.symm.trans hy)
    exact h.close hp

/-- Tokens add their symbols to what the builder spells. -/
theorem foldlM {ts : List Token} {m : List Symbol} (h : b.Spells l)
    (hts : ts.map Token.kind = m.map .command)
    (hs : ts.foldlM (Builder.step source) b = .ok b') : b'.Spells (l ++ m) := by
  induction ts generalizing b l m with
  | nil =>
    obtain rfl : m = [] := List.map_eq_nil_iff.1 hts.symm
    cases hs
    rwa [List.append_nil]
  | cons t ts ih =>
    obtain ⟨x, m, rfl, hx, hm⟩ := List.map_eq_cons_iff.1 hts.symm
    rw [List.foldlM_cons] at hs
    rcases ht : Builder.step source b t with e | c
    · rw [ht] at hs
      cases hs
    · rw [ht] at hs
      rw [List.append_cons]
      exact ih (h.step hx.symm ht) hm.symm hs

/-- Nothing is open at the end, so the finished program has all the symbols. -/
theorem finish {p : Program} (h : b.Spells l) (hp : b.finish source = .ok p) :
    p.symbols = .ok l := by
  cases h with
  | outermost symbols =>
    cases hp
    exact symbols
  | inner => cases hp

end Spells

end Builder

/-! ### Printing with a stack -/

namespace Program

/-- A bound on the passes of a loop that prints the sequences on a stack: two for each instruction,
because a loop is met at its beginning and at its end, and one for each sequence. -/
def printLoad : List Program → Nat
  | [] => 0
  | p :: stack => 2 * p.size + 1 + printLoad stack

/-- Prints the sequences on a stack, behind what has been printed. At a loop its body is put on top
of what follows it. A sequence that is at its end is taken off, and closed if it is not the last. -/
def printStack (out : List Symbol) : List Program → Except UnknownInstr (List Symbol)
  | [] | [[]] => .ok out
  | [] :: p :: stack => printStack (out ++ [.closing]) (p :: stack)
  | (.loop body _ :: rest) :: stack => printStack (out ++ [.opening]) (body :: rest :: stack)
  | (i :: rest) :: stack => do
    let symbols ← i.symbols
    printStack (out ++ symbols) (rest :: stack)
termination_by stack => printLoad stack
decreasing_by
  · simp only [printLoad]
    omega
  · simp only [printLoad, size_cons, Instr.size]
    omega
  · have hpos := i.size_pos
    simp only [printLoad, size_cons]
    omega

/-- The source text of a program, printed with a stack. -/
def print (p : Program) : Except UnknownInstr String := (printStack [] [p]).map Symbol.text

/-- The symbols of the sequences on a stack, each closed but the last. -/
def stackSymbols : List Program → Except UnknownInstr (List Symbol)
  | [] => .ok []
  | [p] => p.symbols
  | p :: q :: stack => do
    let first ← p.symbols
    let others ← stackSymbols (q :: stack)
    return first ++ .closing :: others

theorem stackSymbols_cons_cons (i : Instr) (rest : Program) (stack : List Program) :
    stackSymbols ((i :: rest) :: stack) = (do
      let first ← i.symbols
      let others ← stackSymbols (rest :: stack)
      return first ++ others) := by
  cases stack with
  | nil => rw [stackSymbols, stackSymbols, symbols_cons]
  | cons p stack =>
    rw [stackSymbols, stackSymbols, symbols_cons]
    cases i.symbols <;> cases symbols rest <;> cases stackSymbols (p :: stack) <;>
      simp [bind, Except.bind, pure, Except.pure]

/-- **The loop prints the sequences on its stack.** -/
theorem printStack_eq (out : List Symbol) (stack : List Program) :
    printStack out stack = (stackSymbols stack).map (out ++ ·) := by
  fun_induction printStack out stack with
  | case1 out => simp [stackSymbols, Except.map]
  | case2 out => simp [stackSymbols, Except.map]
  | case3 out p stack ih =>
    rw [ih, stackSymbols, symbols_nil]
    cases stackSymbols (p :: stack) <;> simp [bind, Except.bind, pure, Except.pure, Except.map]
  | case4 out body pos rest stack ih =>
    rw [ih, stackSymbols_cons_cons, Instr.symbols_loop, stackSymbols]
    cases symbols body <;> cases stackSymbols (rest :: stack) <;>
      simp [bind, Except.bind, pure, Except.pure, Except.map]
  | case5 out i rest stack simple ih =>
    rw [stackSymbols_cons_cons]
    cases i.symbols with
    | error e => rfl
    | ok l =>
      show printStack (out ++ l) (rest :: stack) = _
      rw [ih]
      cases stackSymbols (rest :: stack) <;>
        simp [bind, Except.bind, pure, Except.pure, Except.map]

theorem print_eq_emit (p : Program) : p.print = p.emit := by
  rw [print, printStack_eq, stackSymbols, emit]
  cases p.symbols <;> rfl

end Program

/-! ### There and back -/

namespace Program

/-- **The program that is read has the symbols of the text.** -/
theorem symbols_of_parse {code : String} {p : Program} (h : parse code = .ok p) :
    p.symbols = .ok (Symbol.ofText code) := by
  rw [parse, ofTokens] at h
  rcases hs : (Token.scan code).foldlM (Builder.step code) .empty with e | b
  · rw [hs] at h
    cases h
  · rw [hs] at h
    have hempty : Builder.empty.Spells [] := .outermost symbols_nil
    exact (hempty.foldlM (Token.map_kind_scan code) hs).finish h

theorem emit_of_symbols {p : Program} {l : List Symbol} (h : p.symbols = .ok l) :
    p.emit = .ok (Symbol.text l) := by
  rw [emit, h]
  rfl

end Program

/-- **Reading and printing undo each other.** The source of a program that was read is the text
without its comments; a program of unit instructions has a source, and what is read from it is the
same code. Printing with a stack gives the same source, or fails alike. -/
theorem emit_inverts_parse :
    (∀ (code : String) (p : Program), Program.parse code = .ok p →
      p.emit = .ok (String.ofList (code.toList.filter (· ∈ Symbol.alphabet)))) ∧
    (∀ p : Program, p.throughout Instr.isUnit = true →
      ∃ code q, p.emit = .ok code ∧ Program.parse code = .ok q ∧ q.sameCode p = true) ∧
    ∀ p : Program, p.print = p.emit := by
  refine ⟨fun code p h => ?_, fun p hp => ?_, Program.print_eq_emit⟩
  · rw [Program.emit_of_symbols (Program.symbols_of_parse h), Symbol.text_ofText]
  · have known := Program.throughout_imp (fun _ hi => (Instr.isKnown_of_isUnit hi).1) p hp
    obtain ⟨l, hl⟩ := p.exists_symbols known
    obtain ⟨q, hq, hb⟩ := Program.exists_parse_of_symbols hp hl
    exact ⟨Symbol.text l, q, Program.emit_of_symbols hl, hq, (Program.sameCode_iff q p).2 hb⟩

/-- A text with comments between its brackets, and a program with loops in a loop. -/
theorem emit_inverts_parse_nested :
    (∃ p, Program.parse "+ add\n[a[>]\t(,)]." = .ok p ∧ p.emit = .ok "+[[>],].") ∧
    ∃ q, Program.emit [.loop [.loop [] none, .loop [.moveLeft 1 none []] none, .sub 1 none] none,
        .input none] = .ok "[[][<]-]," ∧
      Program.parse "[[][<]-]," = .ok q ∧
      q.sameCode [.loop [.loop [] none, .loop [.moveLeft 1 none []] none, .sub 1 none] none,
        .input none] = true := by
  obtain ⟨printed, reread, -⟩ := emit_inverts_parse
  refine ⟨⟨_, rfl, printed "+ add\n[a[>]\t(,)]." _ rfl⟩, ?_⟩
  obtain ⟨code, q, hcode, hq, hsame⟩ := reread [.loop [.loop [] none,
    .loop [.moveLeft 1 none []] none, .sub 1 none] none, .input none] rfl
  obtain rfl : "[[][<]-]," = code := Except.ok.inj hcode
  exact ⟨q, rfl, hq, hsame⟩

end TapeLang
