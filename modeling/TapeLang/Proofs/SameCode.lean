import TapeLang.Proofs.History
import TapeLang.Proofs.Places
import TapeLang.Proofs.Unrolling
import TapeLang.Run

/-!
# Programs of the same code

Programs that differ at most in places are compacted to such programs, are printed as the same
source, and run in step: they meet the same instructions in the same states, and if they fail, they
fail with the same complaint, less its place. A text without its comments is read as a program of
the same code, so comments do not matter either.

* `Machine.after_bare`: the machine does without places what it does with them, turn by turn.
* `Program.symbols_bare`, `Program.size_bare`: places are neither printed nor counted.
* `Builder.SameCode.step`: tokens of the same kind are read to the same, whatever their places are;
  `Program.parse_alike` says so of whole texts.
* `places_never_matter`: all this together, up to the results of running a text.
-/

namespace TapeLang

/-! ### Runs in step -/

/-- The turn without places. -/
def Turn.bare : Turn → Turn
  | act i frames => act i.bare (frames.map Program.bare)
  | test body _ frames => test (Program.bare body) none (frames.map Program.bare)
  | pop frames => pop (frames.map Program.bare)
  | finish => finish

section
variable {σ : Type}

/-- The machine without places. -/
def Machine.bare (m : Machine σ) : Machine σ := ⟨m.frames.map Program.bare, m.state⟩

/-- The ending without the place of its failure. -/
def Ending.bare (e : Ending σ) : Ending σ := ⟨e.failure.map Failure.bare, e.state⟩

/-- What was reached, without places. -/
def Progress.bare : Progress σ → Progress σ
  | running m => running m.bare
  | ended e => ended e.bare

theorem Machine.turn_bare (m : Machine σ) : m.bare.turn = m.turn.bare := by
  obtain ⟨frames, s⟩ := m
  rcases frames with _ | ⟨_ | ⟨i, rest⟩, frames⟩
  · rfl
  · rcases frames with _ | ⟨f, frames⟩
    · rfl
    · rfl
  · cases i with
    | loop body pos =>
      refine congrArg (Turn.test _ _) ?_
      show ite (s.tape.read = 0) _ _ = List.map Program.bare (ite (s.tape.read = 0) _ _)
      rw [apply_ite (List.map Program.bare)]
      rfl
    | _ => rfl

theorem Turn.take_bare (dev : Device σ) (cfg : Settings) (s : State σ) (t : Turn) :
    t.bare.take dev cfg s = (t.take dev cfg s).bare := by
  cases t with
  | act i frames =>
    have h := i.act_bare dev cfg s.tick
    rw [Turn.bare, take, take, h]
    rcases i.act dev cfg s.tick with ⟨_ | f, u⟩
    · rfl
    · rfl
  | test body pos frames => rfl
  | pop frames => rfl
  | finish =>
    show Progress.ended _ = Progress.ended (Ending.bare _)
    -- the last flush has no place to lose
    unfold Machine.finish
    rcases s.flush dev with ⟨_ | f, u⟩
    · rfl
    · rfl

/-- **A machine without places makes the same transitions.** -/
theorem Machine.step_bare (dev : Device σ) (cfg : Settings) (m : Machine σ) :
    m.bare.step dev cfg = (m.step dev cfg).bare := by
  rw [step_eq_take, step_eq_take, turn_bare]
  exact m.turn.take_bare dev cfg m.state

theorem Machine.after_bare (dev : Device σ) (cfg : Settings) : ∀ (n : Nat) (m : Machine σ),
    m.bare.after dev cfg n = (m.after dev cfg n).bare
  | 0, _ => rfl
  | n + 1, m => by
    rw [after, after, step_bare]
    rcases m.step dev cfg with m' | e
    · exact after_bare dev cfg n m'
    · rfl

/-- Programs of the same code run in step. -/
theorem Machine.after_congr (dev : Device σ) (cfg : Settings) {p q : Program}
    (h : p.bare = q.bare) (s : State σ) (n : Nat) :
    ((start p s).after dev cfg n).bare = ((start q s).after dev cfg n).bare := by
  have hstart : (start p s).bare = (start q s).bare := by
    show Machine.mk [p.bare] s = Machine.mk [q.bare] s
    rw [h]
  rw [← after_bare, ← after_bare, hstart]

theorem Progress.ending?_bare (r : Progress σ) : r.bare.ending? = r.ending?.map Ending.bare := by
  cases r <;> rfl

theorem Machine.run_congr (dev : Device σ) (cfg : Settings) {p q : Program} (h : p.bare = q.bare)
    (s : State σ) (n : Nat) : ((start p s).run dev cfg n).map Ending.bare =
      ((start q s).run dev cfg n).map Ending.bare := by
  rw [run_eq_after, run_eq_after, ← Progress.ending?_bare, ← Progress.ending?_bare,
    after_congr dev cfg h]

end

/-! ### Printing and counting -/

namespace Program

theorem symbols_bare (p : Program) : symbols p.bare = symbols p := by
  induction p using Program.induction with
  | nil => rfl
  | cons i r body rest =>
    have hi : i.bare.symbols = i.symbols := by
      cases i with
      | loop b pos => rw [Instr.bare, Instr.symbols_loop, Instr.symbols_loop, body b pos rfl]
      | _ => rfl
    rw [bare_cons, symbols_cons, symbols_cons, hi, rest]

theorem emit_congr {p q : Program} (h : p.bare = q.bare) : p.emit = q.emit := by
  rw [emit, emit, ← symbols_bare p, ← symbols_bare q, h]

theorem size_bare (p : Program) : size p.bare = size p := by
  induction p using Program.induction with
  | nil => rfl
  | cons i r body rest =>
    have hi : i.bare.size = i.size := by
      cases i with
      | loop b pos => rw [Instr.bare, Instr.size, Instr.size, body b pos rfl]
      | _ => rfl
    rw [bare_cons, size_cons, size_cons, hi, rest]

theorem size_congr {p q : Program} (h : p.bare = q.bare) : p.size = q.size := by
  rw [← size_bare p, ← size_bare q, h]

theorem bare_compact_congr {p q : Program} (h : p.bare = q.bare) (level : Int) :
    (p.compact level).bare = (q.compact level).bare := by
  rw [← compact_bare, ← compact_bare, h]

end Program

/-! ### Reading -/

/-- Both texts are read, to results that are related, or both have an error of the same category. -/
inductive ParseError.Alike {α : Type} (R : α → α → Prop) :
    Except ParseError α → Except ParseError α → Prop where
  | ok {a b : α} (related : R a b) : Alike R (.ok a) (.ok b)
  | error {e e' : SyntaxError} (category : e.category = e'.category) :
      Alike R (.error (.malformed e)) (.error (.malformed e'))

/-- Builders that differ at most in places. -/
structure Builder.SameCode (b b' : Builder) : Prop where
  current : Program.bare b.current = Program.bare b'.current
  pending : b.pending.map (fun l => Program.bare l.2) = b'.pending.map fun l => Program.bare l.2

theorem Symbol.bare_instr? (x : Symbol) (p q : Position) :
    (x.instr? p).map Instr.bare = (x.instr? q).map Instr.bare := by
  cases x <;> rfl

namespace Builder.SameCode

variable {b b' : Builder} {t t' : Token} {x : Symbol} {source source' : Option String}

/-- **What a token does to a builder does not depend on places.** -/
theorem step (h : b.SameCode b') (ht : t.kind = .command x) (ht' : t'.kind = .command x) :
    ParseError.Alike SameCode (Builder.step source b t) (Builder.step source' b' t') := by
  rcases hx : x.instr? t.position with _ | i
  · cases x with
    | opening =>
      simp only [Builder.step, ht, ht']
      exact .ok ⟨rfl, by rw [List.map_cons, List.map_cons, h.current, h.pending]⟩
    | closing =>
      have hpending := h.pending
      simp only [Builder.step, ht, ht']
      rcases hb : b.pending with _ | ⟨⟨opener, before⟩, rest⟩ <;> rw [hb] at hpending
      · rw [List.map_eq_nil_iff.1 hpending.symm]
        exact .error rfl
      · obtain ⟨⟨opener', before'⟩, rest', hb', hbefore, hrest⟩ :=
          List.map_eq_cons_iff.1 hpending.symm
        rw [hb']
        refine .ok ⟨?_, hrest.symm⟩
        have hbody : Program.bare b.current.reverse = Program.bare b'.current.reverse := by
          rw [Program.bare_reverse, Program.bare_reverse, h.current]
        rw [Program.bare_cons, Program.bare_cons, Instr.bare, Instr.bare, hbody]
        exact congrArg _ hbefore.symm
    | _ => cases hx
  · have hi := x.bare_instr? t.position t'.position
    rw [hx] at hi
    obtain ⟨i', hx', hbare⟩ := Option.map_eq_some_iff.1 hi.symm
    rw [Builder.step_of_instr? ht hx, Builder.step_of_instr? ht' hx']
    refine .ok ⟨?_, h.pending⟩
    show Program.bare (i :: b.current) = Program.bare (i' :: b'.current)
    rw [Program.bare_cons, Program.bare_cons, hbare, h.current]

theorem foldlM (source source' : Option String) : ∀ (l : List Symbol) {ts ts' : List Token}
    {b b' : Builder}, b.SameCode b' → ts.map Token.kind = l.map .command →
    ts'.map Token.kind = l.map .command → ParseError.Alike SameCode
      (ts.foldlM (Builder.step source) b) (ts'.foldlM (Builder.step source') b')
  | [], ts, ts', b, b', h, hts, hts' => by
    rw [List.map_eq_nil_iff.1 hts, List.map_eq_nil_iff.1 hts']
    exact .ok h
  | x :: l, ts, ts', b, b', h, hts, hts' => by
    obtain ⟨t, us, rfl, ht, hus⟩ := List.map_eq_cons_iff.1 hts
    obtain ⟨t', us', rfl, ht', hus'⟩ := List.map_eq_cons_iff.1 hts'
    rw [List.foldlM_cons, List.foldlM_cons]
    have hstep : ParseError.Alike SameCode (Builder.step source b t) (Builder.step source' b' t') :=
      h.step ht ht'
    generalize Builder.step source b t = r at hstep
    generalize Builder.step source' b' t' = r' at hstep
    cases hstep with
    | ok h' => exact foldlM source source' l h' hus hus'
    | error category => exact .error category

theorem finish (h : b.SameCode b') :
    ParseError.Alike (fun p q : Program => p.bare = q.bare) (b.finish source)
      (b'.finish source') := by
  have hpending := h.pending
  unfold Builder.finish
  rcases hb : b.pending with _ | ⟨⟨opener, before⟩, rest⟩ <;> rw [hb] at hpending
  · rw [List.map_eq_nil_iff.1 hpending.symm]
    refine .ok ?_
    rw [Program.bare_reverse, Program.bare_reverse, h.current]
  · obtain ⟨⟨opener', before'⟩, rest', hb', -, -⟩ := List.map_eq_cons_iff.1 hpending.symm
    rw [hb']
    exact .error rfl

end Builder.SameCode

/-- **Texts with the same commands are read as programs of the same code**, or have an error of the
same category. -/
theorem Program.parse_alike {code code' : String} (h : Symbol.ofText code = Symbol.ofText code') :
    ParseError.Alike (fun p q : Program => p.bare = q.bare) (parse code) (parse code') := by
  have hts' : (Token.scan code').map Token.kind = (Symbol.ofText code).map .command := by
    rw [h, Token.map_kind_scan]
  have hfold := Builder.SameCode.foldlM (some code) (some code') (Symbol.ofText code)
    (⟨rfl, rfl⟩ : Builder.empty.SameCode .empty) (Token.map_kind_scan code) hts'
  unfold parse ofTokens
  generalize (Token.scan code).foldlM (Builder.step (some code)) .empty = r at hfold
  generalize (Token.scan code').foldlM (Builder.step (some code')) .empty = r' at hfold
  cases hfold with
  | ok h' => exact h'.finish
  | error category => exact .error category

/-! ### Running texts -/

/-- The error without the place of a failure. -/
def RunError.bare : RunError → RunError
  | failure f => failure f.bare
  | parse e => parse e
  | setup e => setup e

theorem Ending.result_bare (e : Ending Console) :
    e.bare.result = e.result.mapError RunError.bare := by
  obtain ⟨_ | f, s⟩ := e <;> rfl

theorem Ending.allNotices_bare {σ : Type} (e : Ending σ) : e.bare.allNotices = e.allNotices := by
  obtain ⟨_ | f, s⟩ := e <;> rfl

theorem Program.ready_congr {p q : Program} (h : p.bare = q.bare) (level : Int) :
    (p.ready level).1.bare = (q.ready level).1.bare ∧ (p.ready level).2 = (q.ready level).2 := by
  have hc := bare_compact_congr h level
  refine ⟨hc, ?_⟩
  show [Notice.ofCompact level p (p.compact level), _] = [.ofCompact level q (q.compact level), _]
  rw [Notice.ofCompact, Notice.ofCompact, size_congr h, size_congr hc]

/-- **Texts with the same commands have the same results**, but for the place of a failure. -/
theorem runSource_congr {code code' : String} {p q : Program} (hp : Program.parse code = .ok p)
    (hq : Program.parse code' = .ok q) (h : p.bare = q.bare) (fuel : Nat) (o : Options)
    (input : List UInt8) :
    (runSource fuel o code input).map (Prod.map (Except.mapError RunError.bare) id) =
      (runSource fuel o code' input).map (Prod.map (Except.mapError RunError.bare) id) := by
  have hload : Program.load o.level code = .ok (p.ready o.level) := by rw [Program.load, hp]; rfl
  have hload' : Program.load o.level code' = .ok (q.ready o.level) := by rw [Program.load, hq]; rfl
  obtain ⟨hbare, hnotices⟩ := Program.ready_congr h o.level
  simp only [runSource, hload, hload', hnotices]
  rcases o.setup with e | ⟨tape, cfg⟩
  · rfl
  · -- what is told of an ending can be told of the ending without its place
    have hanswer : ∀ (notices : List Notice) (r : Option (Ending Console)),
        (r.map fun e => (e.result, notices ++ e.allNotices)).map
          (Prod.map (Except.mapError RunError.bare) id) =
        (r.map Ending.bare).map fun e => (e.result, notices ++ e.allNotices) := by
      rintro notices (_ | e)
      · rfl
      · simp only [Option.map_some, Prod.map, Ending.result_bare, Ending.allNotices_bare, id]
    simp only [hanswer, Machine.run_congr Console.device cfg hbare]

/-- **Places and comments never matter.** Programs of the same code are compacted to programs of the
same code at every level, and are printed as the same source or refused for the same instruction.
From every state they run in step: at each point they have made the same stream calls and steps,
have the same tape, and have both ended or not, with failures that differ at most in their place.
Two texts with the same commands are both refused, with errors of the same category, or both read,
and then running them gives the same answer under all options, but for the place of a failure. -/
theorem places_never_matter :
    (∀ p q : Program, p.sameCode q = true →
      (∀ level, (p.compact level).sameCode (q.compact level) = true) ∧ p.emit = q.emit ∧
      ∀ (σ : Type) (dev : Device σ) (cfg : Settings) (s : State σ) (n : Nat),
        ((Machine.start p s).after dev cfg n).bare = ((Machine.start q s).after dev cfg n).bare ∧
        ((Machine.start p s).run dev cfg n).map Ending.bare =
          ((Machine.start q s).run dev cfg n).map Ending.bare) ∧
    ∀ code code' : String, Symbol.ofText code = Symbol.ofText code' →
      (∃ e e', Program.parse code = .error (.malformed e) ∧
        Program.parse code' = .error (.malformed e') ∧ e.category = e'.category) ∨
      ∃ p q, Program.parse code = .ok p ∧ Program.parse code' = .ok q ∧
        ∀ (fuel : Nat) (o : Options) (input : List UInt8),
          (runSource fuel o code input).map (Prod.map (Except.mapError RunError.bare) id) =
            (runSource fuel o code' input).map (Prod.map (Except.mapError RunError.bare) id) := by
  constructor
  · intro p q h
    rw [Program.sameCode_iff] at h
    refine ⟨fun level => ?_, Program.emit_congr h, fun σ dev cfg s n => ?_⟩
    · rw [Program.sameCode_iff]
      exact Program.bare_compact_congr h level
    · exact ⟨Machine.after_congr dev cfg h s n, Machine.run_congr dev cfg h s n⟩
  · intro code code' h
    have halike := Program.parse_alike h
    generalize hp : Program.parse code = r at halike
    generalize hq : Program.parse code' = r' at halike
    cases halike with
    | error category => exact .inl ⟨_, _, rfl, rfl, category⟩
    | ok same => exact .inr ⟨_, _, rfl, rfl, runSource_congr hp hq same⟩

/-- A program that leaves the tape, with its places and without them, and a text that is read as
such a program, with its comment and without it. -/
theorem places_never_matter_commented :
    Program.sameCode [.moveRight 1 (some ⟨1, 6⟩) [], .moveLeft 2 (some ⟨2, 1⟩) [⟨2, 1⟩, ⟨2, 2⟩]]
      [.moveRight 1 none [], .moveLeft 2 none []] = true ∧
    ((Machine.start [.moveRight 1 (some ⟨1, 6⟩) [], .moveLeft 2 (some ⟨2, 1⟩) [⟨2, 1⟩, ⟨2, 2⟩]]
      (.start (.blank 1 4) (.ofInput []))).after Console.device ⟨.zero, .byte⟩ 2).bare =
    ((Machine.start [.moveRight 1 none [], .moveLeft 2 none []]
      (.start (.blank 1 4) (.ofInput []))).after Console.device ⟨.zero, .byte⟩ 2).bare ∧
    Symbol.ofText "away >\n<< back" = Symbol.ofText "><<" ∧
    ∀ (fuel : Nat) (o : Options) (input : List UInt8),
      (runSource fuel o "away >\n<< back" input).map (Prod.map (Except.mapError RunError.bare) id) =
        (runSource fuel o "><<" input).map (Prod.map (Except.mapError RunError.bare) id) := by
  have hcode : Program.sameCode
      [.moveRight 1 (some ⟨1, 6⟩) [], .moveLeft 2 (some ⟨2, 1⟩) [⟨2, 1⟩, ⟨2, 2⟩]]
      [.moveRight 1 none [], .moveLeft 2 none []] = true := by decide
  have htext : Symbol.ofText "away >\n<< back" = Symbol.ofText "><<" := by cbv
  refine ⟨hcode, ((places_never_matter.1 _ _ hcode).2.2 Console _ _ _ _).1, htext, ?_⟩
  rcases places_never_matter.2 _ _ htext with ⟨e, e', he, -⟩ | ⟨p, q, -, -, hrun⟩
  · have hread : ∃ p, Program.parse "away >\n<< back" = .ok p := ⟨_, rfl⟩
    obtain ⟨p, hp⟩ := hread
    rw [hp] at he
    cases he
  · exact hrun

end TapeLang
