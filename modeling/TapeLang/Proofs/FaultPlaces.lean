import TapeLang.Proofs.Reloading
import TapeLang.Proofs.RunsAsSessions
import TapeLang.Proofs.TextPlaces

/-!
# Places of faults

An instruction of a program that was read is *traced*: a move has one place per step and each of
them is that of a symbol in its direction, and input and output stand at their symbols. Merging
keeps moves traced, because what is left of two opposite moves is a part of the trail of the longer
one. A failing move has gone as far as the tape allows, so the step at which it fails is one of its
own and has its place in the trail.

* `Move.Traced.merge`, `Run.keeps_traced`: merging keeps moves traced, so compacting does.
* `Exec.blames`: a run that fails does so at one of the instructions of the program.
* `Instr.place_of_underflow`, `Instr.place_of_outOfMemory`: the place of the failing step of a move.
* `Instr.blames_symbol`: a traced instruction that fails blames a symbol that can fail in that way.
* `fault_at_symbol`: so every fault of a run is at its symbol, but for that of the last flush.
-/

namespace TapeLang

/-! ### Traced instructions -/

/-- Whether a text has the command `x` at a place. -/
def Symbol.isAt (code : String) (x : Symbol) (p : Position) : Bool :=
  ⟨.command x, p⟩ ∈ Token.scan code

/-- Whether the places of an instruction that can fail are those of its symbols in a text. -/
def Instr.isTraced (code : String) : Instr → Bool
  | moveLeft n _ trail => 1 ≤ n ∧ trail.length = n ∧ ∀ p ∈ trail, Symbol.isAt code .left p
  | moveRight n _ trail => 1 ≤ n ∧ trail.length = n ∧ ∀ p ∈ trail, Symbol.isAt code .right p
  | output pos => pos.any (Symbol.isAt code .dot)
  | input pos => pos.any (Symbol.isAt code .comma)
  | add .. | sub .. | set .. | loop .. | unknown _ => true

/-- The symbol that moves in the direction of a move. -/
def Move.symbol (m : Move) : Symbol := if 0 < m.offset then .right else .left

/-- A move in one direction, with the places of its symbols in a text. -/
structure Move.Traced (code : String) (m : Move) : Prop where
  nonzero : m.offset ≠ 0
  length : m.trail.length = m.offset.natAbs
  places : ∀ p ∈ m.trail, m.symbol.isAt code p = true

/-- A run whose places are those of its symbols, as far as it can fail. -/
def Run.Traced (code : String) : Run → Prop
  | move m => m.Traced code
  | cell _ => True

variable {code : String}

namespace Move.Traced

variable {a b m : Move}

/-- The places of a move serve for another one in the same direction. -/
theorem isAt (ha : a.Traced code) (h : 0 < m.offset ↔ 0 < a.offset) {p : Position}
    (hp : p ∈ a.trail) : m.symbol.isAt code p = true := by
  have hsymbol : m.symbol = a.symbol := if_congr h rfl rfl
  rw [hsymbol]
  exact ha.places p hp

/-- **What is left of two traced moves is traced.** -/
theorem merge (ha : a.Traced code) (hb : b.Traced code) (h : (a.merge b).offset ≠ 0) :
    (a.merge b).Traced code := by
  have hoff := Move.offset_merge a b
  have ha0 := ha.nonzero
  have hb0 := hb.nonzero
  have hal := ha.length
  have hbl := hb.length
  rw [hoff] at h
  by_cases hsame : 0 < a.offset ↔ 0 < b.offset
  · -- both trails, one after the other
    have hempty : (a.trail.isEmpty || b.trail.isEmpty) = false := by
      rw [Bool.or_eq_false_iff, List.isEmpty_eq_false_iff, List.isEmpty_eq_false_iff,
        ← List.length_pos_iff, ← List.length_pos_iff]
      omega
    have htrail : (a.merge b).trail = a.trail ++ b.trail := by
      simp [Move.merge, hsame, hempty]
    refine ⟨by rwa [hoff], ?_, fun p hp => ?_⟩
    · rw [htrail, hoff, List.length_append]
      omega
    · rw [htrail, List.mem_append] at hp
      rcases hp with hp | hp
      · exact ha.isAt (by omega) hp
      · exact hb.isAt (by omega) hp
  by_cases hlt : b.offset.natAbs < a.offset.natAbs
  · -- the earlier move loses its last steps
    have htrail : (a.merge b).trail = a.trail.take (a.offset + b.offset).natAbs := by
      simp [Move.merge, hsame, hlt]
    refine ⟨by rwa [hoff], ?_, fun p hp => ?_⟩
    · rw [htrail, hoff, List.length_take]
      omega
    · rw [htrail] at hp
      exact ha.isAt (by omega) (List.mem_of_mem_take hp)
  · -- the later move loses its first steps
    have htrail : (a.merge b).trail =
        b.trail.drop (b.offset.natAbs - (a.offset + b.offset).natAbs) := by
      simp [Move.merge, hsame, hlt]
    refine ⟨by rwa [hoff], ?_, fun p hp => ?_⟩
    · rw [htrail, hoff, List.length_drop]
      omega
    · rw [htrail] at hp
      exact hb.isAt (by omega) (List.mem_of_mem_drop hp)

end Move.Traced

theorem Run.keeps_traced (code : String) : Run.Keeps (Instr.isTraced code) (Run.Traced code) where
  ofInstr? {i r} hi h := by
    cases i with
    | moveLeft n pos trail =>
      obtain ⟨hn, hlen, hplaces⟩ := of_decide_eq_true hi
      cases h
      rw [Move.fittingTrail, if_pos hlen]
      have hsym : Move.symbol ⟨-n, pos, trail⟩ = .left := if_neg (show ¬ 0 < -n by omega)
      refine ⟨show -n ≠ 0 by omega, show trail.length = (-n).natAbs by omega, fun p hp => ?_⟩
      rw [hsym]
      exact hplaces p hp
    | moveRight n pos trail =>
      obtain ⟨hn, hlen, hplaces⟩ := of_decide_eq_true hi
      cases h
      rw [Move.fittingTrail, if_pos hlen]
      have hsym : Move.symbol ⟨n, pos, trail⟩ = .right := if_pos (show 0 < n by omega)
      refine ⟨show n ≠ 0 by omega, show trail.length = n.natAbs by omega, fun p hp => ?_⟩
      rw [hsym]
      exact hplaces p hp
    | add | sub | set =>
      cases h
      trivial
    | output | input | loop | unknown => cases h
  merge? {a b c i} ha hb h hi := by
    rcases a with a | a <;> rcases b with b | b <;> cases h
    · refine Move.Traced.merge ha hb fun h0 => ?_
      have hnone : (a.merge b).toInstr? = none := Move.toInstr?_of_zero h0
      cases hnone.symm.trans hi
    · trivial
  toInstr? {r i} hr h := by
    rcases r with m | c
    · rcases Int.lt_trichotomy m.offset 0 with hneg | hzero | hpos
      · have hi : some i = _ := h.symm.trans (Move.toInstr?_of_neg hneg)
        cases hi
        have hsym : m.symbol = .left := if_neg (by omega)
        have hlen := hr.length
        refine decide_eq_true ⟨by omega, by omega, fun p hp => ?_⟩
        rw [← hsym]
        exact hr.places p hp
      · exact absurd hzero hr.nonzero
      · have hi : some i = _ := h.symm.trans (Move.toInstr?_of_pos hpos)
        cases hi
        have hsym : m.symbol = .right := if_pos hpos
        have hlen := hr.length
        refine decide_eq_true ⟨by omega, by omega, fun p hp => ?_⟩
        rw [← hsym]
        exact hr.places p hp
    · obtain ⟨c', hc, -⟩ := CellOp.exists_of_toInstr?_eq_some h
      cases i with
      | add | sub | set => rfl
      | _ => cases hc

/-! ### Where a run fails -/

variable {σ : Type} {dev : Device σ} {cfg : Settings}

theorem Instr.follows_act (dev : Device σ) (cfg : Settings) (i : Instr) {s : State σ}
    (h : s.tape.Valid) : s.tape.Follows (i.act dev cfg s).2.tape := by
  obtain ⟨ops, hops⟩ := State.Operated.act dev cfg i s
  rw [hops.tape]
  exact Tape.follows_after ops h

/-- **A run that fails does so at one of the instructions of the program**, on a tape that follows
the one at the start. -/
theorem Exec.blames {f : Instr → Bool} {p : Program} {s : State σ} {e : Ending σ}
    (h : Exec dev cfg p s e) : p.throughout f = true → s.tape.Valid →
      s.tape.Follows e.state.tape ∧ ∀ err, e.failure = some err →
        ∃ i u, f i = true ∧ s.tape.Follows u.tape ∧ i.act dev cfg u = (some err, e.state) := by
  induction h with
  | nil => exact fun _ hs => ⟨hs.follows_self, fun _ he => nomatch he⟩
  | @act i rest s t e simple done next ih =>
    intro hp hs
    have ht := i.follows_act dev cfg (s := s.tick) hs
    rw [done] at ht
    obtain ⟨he, hblames⟩ := ih (Program.throughout_cons.1 hp).2.2 ht.valid
    refine ⟨ht.trans he, fun err hfail => ?_⟩
    obtain ⟨j, u, hj, hu, hact⟩ := hblames err hfail
    exact ⟨j, u, hj, ht.trans hu, hact⟩
  | @fail i rest s t err simple failed =>
    intro hp hs
    have ht := i.follows_act dev cfg (s := s.tick) hs
    rw [failed] at ht
    refine ⟨ht, ?_⟩
    rintro _ ⟨⟩
    exact ⟨i, s.tick, (Program.throughout_cons.1 hp).1, hs.follows_self, failed⟩
  | skip zero next ih => exact fun hp hs => ih (Program.throughout_cons.1 hp).2.2 hs
  | @again body rest pos s t e nonzero pass next ihPass ihNext =>
    intro hp hs
    have ht := (ihPass ((Program.throughout_cons.1 hp).2.1 body pos rfl) hs).1
    obtain ⟨he, hblames⟩ := ihNext hp ht.valid
    refine ⟨ht.trans he, fun err hfail => ?_⟩
    obtain ⟨j, u, hj, hu, hact⟩ := hblames err hfail
    exact ⟨j, u, hj, ht.trans hu, hact⟩
  | @stop body rest pos s t err nonzero pass ih =>
    exact fun hp hs => ih ((Program.throughout_cons.1 hp).2.1 body pos rfl) hs

/-! ### Faults of the actions -/

namespace State

variable {s t : State σ} {policy : EofPolicy} {f : Fault}

theorem move_of_fault {d : Int} (h : s.move d = (some f, t)) :
    t = s ∧ s.tape.move d = .error f := by
  unfold move at h
  split at h
  · cases h
  · next hg =>
    cases h
    exact ⟨rfl, hg⟩

theorem flush_of_fault (h : s.flush dev = (some f, t)) : ∃ reason, f = .flushFailed reason := by
  unfold flush at h
  split at h
  · cases h
  · split at h
    · cases h
    · cases h
      exact ⟨_, rfl⟩

theorem write_of_fault {data : List UInt8} (h : s.write dev data = (some f, t)) :
    f.category = .stream := by
  unfold write at h
  split at h
  · cases h
  · cases h
    rfl

theorem endOfInput_of_fault (h : s.endOfInput policy = (some f, t)) :
    f.category = .inputExhausted := by
  cases policy <;> cases h
  rfl

theorem read_of_fault (h : s.read dev policy = (some f, t)) :
    f.category = .stream ∨ f.category = .inputExhausted := by
  unfold read at h
  split at h
  · exact .inr (endOfInput_of_fault h)
  · split at h
    · cases h
      exact .inl rfl
    · exact .inr (endOfInput_of_fault h)
    · cases h

theorem input_of_fault (h : s.input dev policy = (some f, t)) :
    f.category = .stream ∨ f.category = .inputExhausted := by
  unfold input at h
  split at h
  · exact read_of_fault h
  · obtain ⟨reason, rfl⟩ := flush_of_fault h
    exact .inl rfl

end State

theorem Machine.exists_of_finish {s : State σ} {err : RuntimeError}
    (h : (finish dev s).failure = some (.fault err)) : ∃ reason,
      s.flush dev = (some (.flushFailed reason), (finish dev s).state) ∧
        err = (Fault.flushFailed reason).report := by
  unfold finish at h ⊢
  rcases hf : s.flush dev with ⟨_ | f, t⟩
  · rw [hf] at h
    cases h
  · obtain ⟨reason, rfl⟩ := State.flush_of_fault hf
    rw [hf] at h
    cases h
    exact ⟨reason, rfl, rfl⟩

namespace Instr

variable {s t : State σ} {n : Int} {pos : Option Position} {trail : List Position} {f : Fault}

theorem exists_getElem?_trail {step : Int} (hlen : trail.length = n) (h0 : 0 ≤ step)
    (h1 : step < n) : ∃ p ∈ trail, trail[step.toNat]? = some p := by
  have hlt : step.toNat < trail.length := by omega
  exact ⟨trail[step.toNat], List.getElem_mem hlt, List.getElem?_eq_getElem hlt⟩

/-- A move to the left steps down to the first cell, and the next step is the one that fails. -/
theorem place_of_underflow (hs : s.tape.Valid) (hn : 1 ≤ n) (hlen : trail.length = n)
    (hf : s.move (-n) = (some f, t)) : f.category = .underflow ∧
      ∃ p ∈ trail, trail[s.tape.cursor]? = some p ∧
        (moveLeft n pos trail).faultPosition t.tape = some p := by
  obtain ⟨rfl, hmove⟩ := State.move_of_fault hf
  have hc := hs.cursor_lt
  have hl := hs.length_le
  rcases Int.lt_or_le (t.tape.cursor + -n) 0 with h0 | h0
  · rw [Tape.move_underflow h0] at hmove
    cases hmove
    have hstep : 0 ≤ (t.tape.cursor : Int) ∧ t.tape.cursor < n := by omega
    obtain ⟨p, hp, hget⟩ := exists_getElem?_trail hlen hstep.1 hstep.2
    refine ⟨rfl, p, hp, hget, ?_⟩
    rw [faultPosition, positionAt, if_pos ⟨hlen, hstep⟩, hget]
    rfl
  · obtain ⟨u, hu, -⟩ := hs.move_ok h0 (by omega)
    cases hu.symm.trans hmove

/-- A move to the right steps up to the last cell below the limit, and the next step is the one that
fails. -/
theorem place_of_outOfMemory (hs : s.tape.Valid) (hn : 1 ≤ n) (hlen : trail.length = n)
    (hf : s.move n = (some f, t)) : f.category = .outOfMemory ∧
      ∃ p ∈ trail, trail[s.tape.limit - s.tape.cursor - 1]? = some p ∧
        (moveRight n pos trail).faultPosition t.tape = some p := by
  obtain ⟨rfl, hmove⟩ := State.move_of_fault hf
  have hc := hs.cursor_lt
  have hl := hs.length_le
  rcases Int.lt_or_le (t.tape.cursor + n) t.tape.limit with h1 | h1
  · obtain ⟨u, hu, -⟩ := hs.move_ok (by omega) h1
    cases hu.symm.trans hmove
  · rw [hs.move_outOfMemory h1] at hmove
    cases hmove
    have hstep : 0 ≤ (t.tape.limit : Int) - t.tape.cursor - 1 ∧
        (t.tape.limit : Int) - t.tape.cursor - 1 < n := by omega
    obtain ⟨p, hp, hget⟩ := exists_getElem?_trail hlen hstep.1 hstep.2
    have hnat : ((t.tape.limit : Int) - t.tape.cursor - 1).toNat =
        t.tape.limit - t.tape.cursor - 1 := by omega
    refine ⟨rfl, p, hp, hnat ▸ hget, ?_⟩
    rw [faultPosition, positionAt, if_pos ⟨hlen, hstep⟩, hget]
    rfl

end Instr

/-! ### Blamed symbols -/

/-- Where faults can be: the family of the error, the kind of the failing instruction and the
character it was read from. -/
def RuntimeError.sites : List (RuntimeError.Category × String × Char) :=
  [(.underflow, "MoveLeft", '<'), (.outOfMemory, "MoveRight", '>'), (.stream, "Output", '.'),
    (.stream, "Input", ','), (.inputExhausted, "Input", ',')]

/-- An error that names a command of a text, and one at which it can occur. -/
def RuntimeError.Blames (code : String) (err : RuntimeError) : Prop :=
  ∃ before c after kind, code.toList = before ++ c :: after ∧
    err.position = some (.behind before) ∧ err.kind = some kind ∧
    (err.category, kind, c) ∈ RuntimeError.sites

theorem RuntimeError.blames_of_isAt {f : Fault} {kind : String} {pos : Option Position} {x : Symbol}
    {p : Position} (hpos : pos = some p) (hp : x.isAt code p = true)
    (hsite : (f.category, kind, x.char) ∈ sites) :
    RuntimeError.Blames code (f.report.locate kind pos) := by
  obtain ⟨before, after, hcode, rfl⟩ := Token.mem_scan_iff.1 (of_decide_eq_true hp)
  exact ⟨before, x.char, after, kind, hcode, hpos, rfl, hsite⟩

/-- **A traced instruction that fails blames a symbol that can fail in that way.** -/
theorem Instr.blames_symbol {i : Instr} (hi : i.isTraced code = true) {s t : State σ}
    (hs : s.tape.Valid) {err : RuntimeError} (h : i.act dev cfg s = (some (.fault err), t)) :
    err.Blames code := by
  obtain ⟨n, -, herr, -⟩ | ⟨f, hf, herr⟩ := failed_cases h
  · cases herr
  obtain rfl := Failure.fault.inj herr
  cases i with
  | moveLeft n pos trail =>
    obtain ⟨hn, hlen, hplaces⟩ := of_decide_eq_true hi
    obtain ⟨hcat, p, hp, -, hpos⟩ := place_of_underflow hs hn hlen hf
    have hsite : (.underflow, "MoveLeft", '<') ∈ RuntimeError.sites := by decide
    rw [← hcat] at hsite
    exact RuntimeError.blames_of_isAt hpos (hplaces p hp) hsite
  | moveRight n pos trail =>
    obtain ⟨hn, hlen, hplaces⟩ := of_decide_eq_true hi
    obtain ⟨hcat, p, hp, -, hpos⟩ := place_of_outOfMemory hs hn hlen hf
    have hsite : (.outOfMemory, "MoveRight", '>') ∈ RuntimeError.sites := by decide
    rw [← hcat] at hsite
    exact RuntimeError.blames_of_isAt hpos (hplaces p hp) hsite
  | output pos =>
    obtain ⟨p, rfl, hp⟩ := (Option.any_eq_true _ pos).1 hi
    have hsite : (.stream, "Output", '.') ∈ RuntimeError.sites := by decide
    rw [← State.write_of_fault hf] at hsite
    exact RuntimeError.blames_of_isAt rfl hp hsite
  | input pos =>
    obtain ⟨p, rfl, hp⟩ := (Option.any_eq_true _ pos).1 hi
    have hsite : (f.category, "Input", ',') ∈ RuntimeError.sites := by
      rcases State.input_of_fault hf with hcat | hcat
      · rw [hcat]
        decide
      · rw [hcat]
        decide
    exact RuntimeError.blames_of_isAt rfl hp hsite
  | add | sub | set | loop | unknown => cases hf

/-! ### Whole runs -/

/-- A program that was read is traced, also after compacting. -/
theorem Program.isTraced_of_parse {p : Program} (h : parse code = .ok p) :
    p.throughout (Instr.isTraced code) = true := by
  refine throughout_of_parse (fun _ _ => rfl) h fun t ht x i hx hi => ?_
  obtain ⟨kind, q⟩ := t
  obtain rfl : kind = .command x := hx
  have hat : x.isAt code q = true := decide_eq_true ht
  cases x with
  | left | right =>
    cases hi
    refine decide_eq_true ⟨by decide, rfl, fun p hp => ?_⟩
    rw [List.mem_singleton.1 hp]
    exact hat
  | dot | comma =>
    cases hi
    exact hat
  | plus | minus =>
    cases hi
    rfl
  | opening | closing => cases hi

theorem Program.isTraced_compact (level : Int) {p : Program}
    (hp : p.throughout (Instr.isTraced code) = true) :
    (p.compact level).throughout (Instr.isTraced code) = true := by
  rw [compact_eq, throughout_reverse]
  exact throughout_compactOnto (Run.keeps_traced code) (fun _ _ => rfl) (fun _ _ => rfl) p []
    throughout_nil hp

/-- **Every fault is at its symbol.** If a run of a program that was read fails, compacted or not,
then the error names the place of a command in the text that can fail in that way, or it has no
place and is that of the flush at the end of the program. -/
theorem fault_at_symbol {code : String} {raw p : Program} {level initial limit : Int} {tape : Tape}
    {streams : σ} {e : Ending σ} {err : RuntimeError} (dev : Device σ) (cfg : Settings)
    (parsed : Program.parse code = .ok raw) (source : p = raw ∨ p = raw.compact level)
    (made : Tape.make initial limit = .ok tape)
    (ends : (Machine.start p (.start tape streams)).Ends dev cfg e)
    (failed : e.failure = some (.fault err)) :
    err.Blames code ∨ err.kind = none ∧ err.position = none ∧
      ∃ t reason, Machine.Reaches dev cfg (.start p (.start tape streams)) ⟨[[]], t⟩ ∧
        t.flush dev = (some (.flushFailed reason), e.state) ∧
        err = (Fault.flushFailed reason).report := by
  have traced : p.throughout (Instr.isTraced code) = true := by
    rcases source with rfl | rfl
    · exact Program.isTraced_of_parse parsed
    · exact Program.isTraced_compact level (Program.isTraced_of_parse parsed)
  have valid : tape.Valid := by
    obtain ⟨hsizes, rfl⟩ := Tape.make_eq_ok.1 made
    exact Tape.valid_blank (by omega) (by omega)
  rcases Machine.ends_iff_runs.1 ends with @⟨t, done⟩ | @⟨f, t, hfail⟩
  · obtain ⟨reason, hflush, rfl⟩ := Machine.exists_of_finish failed
    exact .inr ⟨rfl, rfl, t, reason, done.reaches [], hflush, rfl⟩
  · left
    cases failed
    obtain ⟨i, u, hi, hu, hact⟩ := (hfail.blames traced valid).2 _ rfl
    exact Instr.blames_symbol hi hu.valid hact

/-- Of three moves one is left after compacting, on the second line, and it leaves the tape. -/
theorem fault_at_symbol_secondLine :
    ∃ raw e err, Program.parse ">\n<<" = .ok raw ∧ Tape.make 1 4 = .ok (.blank 1 4) ∧
      (Machine.start (raw.compact 1) (.start (.blank 1 4) ())).Ends .sink ⟨.zero, .byte⟩ e ∧
      e.failure = some (.fault err) ∧ err.position = some ⟨2, 2⟩ ∧ err.Blames ">\n<<" := by
  have parsed : Program.parse ">\n<<" = .ok [.moveRight 1 (some ⟨1, 1⟩) [⟨1, 1⟩],
      .moveLeft 1 (some ⟨2, 1⟩) [⟨2, 1⟩], .moveLeft 1 (some ⟨2, 2⟩) [⟨2, 2⟩]] := rfl
  have compacted : Program.compact 1 [.moveRight 1 (some ⟨1, 1⟩) [⟨1, 1⟩],
      .moveLeft 1 (some ⟨2, 1⟩) [⟨2, 1⟩], .moveLeft 1 (some ⟨2, 2⟩) [⟨2, 2⟩]] =
        [.moveLeft 1 (some ⟨2, 2⟩) [⟨2, 2⟩]] := by
    rw [Program.compact_eq]
    rfl
  have made : Tape.make 1 4 = .ok (.blank 1 4) := rfl
  have ends : (Machine.start [.moveLeft 1 (some ⟨2, 2⟩) [⟨2, 2⟩]]
      (.start (.blank 1 4) ())).Ends .sink ⟨.zero, .byte⟩ ⟨some (.fault _), _⟩ := ⟨1, rfl⟩
  rw [← compacted] at ends
  refine ⟨_, _, _, parsed, made, ends, rfl, rfl, ?_⟩
  rcases fault_at_symbol .sink ⟨.zero, .byte⟩ parsed (.inr rfl) made ends rfl with h | ⟨-, h, -⟩
  · exact h
  · cases h

end TapeLang
