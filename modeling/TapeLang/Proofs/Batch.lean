import TapeLang.Command.Run
import TapeLang.Proofs.Brackets
import TapeLang.Proofs.FaultPlaces

/-!
# One file after the other

How the command goes through its files, on any standard streams. It is `Through` files that all end
with status zero, each on the streams that the one before has left; the first file that does not
ends the command, and what follows it is not looked at.

* `planned_prepare`: what is to be done with a file, by what was read; `Holds.exists_settle`: a run
  of a program that was read ends in a way that is handled.
* `handled_iff`: what can come of one file.
* `runPaths_iff`: either the command is through all files, or it is through those before some file,
  which ends it.
* `runPaths_add`: a larger bound gives the same result; `exists_runPaths_iff`: some bound is enough,
  unless the command comes to a program that is never over.
-/

namespace TapeLang

variable {σ : Type}

/-! ### Paths with a NUL character -/

theorem Directory.walk_ne_nul (dir : Directory) (here : Option (List String))
    (names : List String) : dir.walk here names ≠ .error .nulInPath := by
  fun_induction walk dir here names with
  | case2 _ _ _ _ ih | case3 _ _ _ ih | case7 _ _ _ _ _ _ _ ih => exact ih
  | _ => simp

/-- Only a NUL character in the path is taken for one. -/
theorem Directory.read_eq_nul_iff {dir : Directory} {path : String} :
    dir.read path = .error .nulInPath ↔ '\x00' ∈ path.toList := by
  unfold read
  by_cases h : path.toList.contains '\x00' = true
  · rw [if_pos h]
    exact iff_of_true rfl (List.contains_iff_mem.1 h)
  · rw [if_neg h]
    refine iff_of_false ?_ fun hmem => h (List.contains_iff_mem.2 hmem)
    split
    · exact fun h => nomatch h
    split
    · exact fun h => nomatch h
    · exact dir.walk_ne_nul _ _

/-! ### Programs that were read -/

/-- A text has no tokens of an unknown kind. -/
theorem Program.parse_ne_unknownKind (code kind : String) :
    parse code ≠ .error (.unknownKind kind) := by
  intro h
  obtain ⟨before, ⟨-, he⟩ | ⟨-, he⟩⟩ := parse_eq_error_iff.1 h <;> cases he

theorem Program.isKnown_of_parse {code : String} {raw : Program} (h : parse code = .ok raw) :
    raw.throughout Instr.isKnown = true :=
  throughout_imp (fun _ hi => (Instr.isKnown_of_isUnit hi).1) raw (isUnit_of_parse h)

/-- A program without unknown instructions fails with a fault. -/
theorem Runs.exists_fault {dev : Device σ} {cfg : Settings} {p : Program} {s : State σ}
    {e : Ending σ} {f : Failure} (h : Runs dev cfg p s e)
    (known : p.throughout Instr.isKnown = true) (valid : s.tape.Valid)
    (failed : e.failure = some f) : ∃ err, f = .fault err := by
  cases h with
  | @finish t all =>
    unfold Machine.finish at failed
    rcases hflush : t.flush dev with ⟨_ | fault, u⟩ <;> rw [hflush] at failed <;> cases failed
    exact ⟨_, rfl⟩
  | fail hfail =>
    obtain ⟨i, u, hi, -, hact⟩ := (hfail.blames known valid).2 f failed
    rcases Instr.failed_cases hact with ⟨n, rfl, -⟩ | ⟨fault, -, rfl⟩
    · cases hi
    · exact ⟨_, rfl⟩

namespace Command

variable {std : Stdio σ} {fuel : Nat} {inv : Invocation} {dir : Directory} {path : String}

/-! ### What is to be done with a file -/

/-- What was read is a program: it came without error, is text in UTF-8 and can be parsed. -/
def Holds (content : Except OpenError (List UInt8)) (raw : Program) : Prop :=
  ∃ bytes source, content = .ok bytes ∧ Text.Encoding.utf8.read bytes = .ok source ∧
    Program.parse source = .ok raw

theorem Holds.isKnown {content : Except OpenError (List UInt8)} {raw : Program}
    (holds : Holds content raw) (level : Int) :
    (raw.compact level).throughout Instr.isKnown = true := by
  obtain ⟨_, _, -, -, parsed⟩ := holds
  exact Program.isKnown_compact level (Program.isKnown_of_parse parsed)

/-- What is to be done with a file, by what was read. -/
inductive Planned (inv : Invocation) (content : Except OpenError (List UInt8)) : Plan → Prop where
  | nul (nul : content = .error .nulInPath) : Planned inv content (.crash .nulInPath)
  | rejected (none : ∀ raw, ¬ Holds content raw) (named : content ≠ .error .nulInPath) :
      Planned inv content .reject
  | levelless {raw : Program} (holds : Holds content raw) (none : inv.level = none) :
      Planned inv content (.crash (.noValue .level))
  | print {raw : Program} {level : Int} {text : String} (holds : Holds content raw)
      (some : inv.level = some level) (emit : inv.emit = true)
      (symbols : (raw.compact level).emit = .ok text) : Planned inv content (.print (text ++ "\n"))
  | run {raw : Program} {level : Int} (holds : Holds content raw) (some : inv.level = some level)
      (running : inv.emit = false) : Planned inv content (.run (raw.compact level))

theorem planned_prepare (inv : Invocation) (path : String)
    (content : Except OpenError (List UInt8)) :
    Planned inv content (prepare inv path content).1 := by
  rcases content with e | bytes
  · have none : ∀ raw, ¬ Holds (.error e) raw := fun raw ⟨_, _, h, _⟩ => nomatch h
    cases e with
    | nulInPath => exact .nul rfl
    | _ => exact .rejected none nofun
  rcases hsource : Text.Encoding.utf8.read bytes with e | source
  · simp only [prepare, hsource]
    refine .rejected ?_ nofun
    rintro raw ⟨_, source, ⟨⟩, h, -⟩
    rw [hsource] at h
    cases h
  rcases hraw : Program.parse source with (e | kind) | raw
  · simp only [prepare, hsource, hraw]
    refine .rejected ?_ nofun
    rintro raw ⟨_, _, ⟨⟩, h, h'⟩
    rw [hsource] at h
    cases h
    rw [hraw] at h'
    cases h'
  · exact absurd hraw (Program.parse_ne_unknownKind source kind)
  have holds : Holds (.ok bytes) raw := ⟨bytes, source, rfl, hsource, hraw⟩
  rcases hlevel : inv.level with _ | level
  · simp only [prepare, hsource, hraw, hlevel]
    exact .levelless holds hlevel
  rcases hemit : inv.emit with _ | _
  · simp only [prepare, hsource, hraw, hlevel, hemit]
    exact .run holds hlevel hemit
  obtain ⟨l, hl⟩ := (raw.compact level).exists_symbols (holds.isKnown level)
  have hsymbols : (raw.compact level).emit = .ok (Symbol.text l) := by
    rw [Program.emit, hl]
    rfl
  simp only [prepare, hsource, hraw, hlevel, hemit, Program.ready, hsymbols, if_true]
  exact .print holds hlevel hemit hsymbols

theorem prepare_run {raw : Program} {level : Int} (holds : Holds (dir.read path) raw)
    (some : inv.level = some level) (running : inv.emit = false) :
    ∃ told, prepare inv path (dir.read path) = (.run (raw.compact level), told) := by
  obtain ⟨bytes, source, hread, hsource, hraw⟩ := holds
  simp only [prepare, hread, hsource, hraw, some, running]
  exact ⟨_, rfl⟩

/-! ### The tape of an accepted command -/

theorem Reading.maxCells_pos {r : Reading} (h : r.finish = .ok inv) : 0 < inv.maxCells := by
  unfold finish at h
  rcases hfiles : r.files with _ | files <;> simp only [hfiles] at h
  · cases h
  by_cases hextras : r.extras.isEmpty = true <;> simp only [hextras] at h
  · rcases hcells : r.maxCells with _ | cells <;> simp only [hcells] at h
    · cases h
    by_cases few : cells < 1
    · rw [if_pos few] at h
      cases h
    rcases heof : r.eof with _ | eof <;> simp only [heof, if_neg few] at h <;> cases h
    show 0 < cells.toNat
    omega
  · cases h

theorem Invocation.maxCells_pos {args : List String} (accepted : Invocation.ofArgs args = .ok inv) :
    0 < inv.maxCells := by
  unfold Invocation.ofArgs at accepted
  rcases hwords : (classifyAll args).mapError Refusal.usage with e | words <;>
    rw [hwords] at accepted
  · cases accepted
  rcases hr : Reading.start.readAll words with e | r <;>
    simp only [bind, Except.bind, hr] at accepted
  · cases accepted
  · exact Reading.maxCells_pos accepted

/-! ### How a run is settled -/

theorem settle_eq_ok {e : Ending σ} {error? : Option RuntimeError} :
    settle e = .ok error? ↔ e.failure = error?.map .fault := by
  unfold settle
  rcases e.failure with _ | err | err <;> cases error? <;> simp

/-- **A run of a program that was read** succeeds or ends with an error that is handled. -/
theorem Holds.exists_settle {content : Except OpenError (List UInt8)} {raw : Program} {level : Int}
    {dev : Device σ} {cfg : Settings} {x : σ} {e : Ending σ} (holds : Holds content raw)
    (cells : 0 < inv.maxCells)
    (ends : (Machine.start (raw.compact level) (.start (freshTape inv) x)).run dev cfg fuel =
      some e) : ∃ error?, settle e = .ok error? := by
  have valid : (freshTape inv).Valid := Tape.valid_blank (by simp [Tape.defaultInitial]; omega)
    (Nat.min_le_right _ _)
  have runs := Machine.ends_iff_runs.1 ⟨fuel, ends⟩
  rcases hfailure : e.failure with _ | f
  · exact ⟨none, settle_eq_ok.2 hfailure⟩
  · obtain ⟨err, rfl⟩ := runs.exists_fault (holds.isKnown level) valid hfailure
    exact ⟨some err, settle_eq_ok.2 hfailure⟩

/-! ### What comes of one file -/

/-- What comes of the file at `path`, on streams in state `x`. -/
inductive Handled (std : Stdio σ) (fuel : Nat) (inv : Invocation) (dir : Directory) (path : String)
    (x : σ) : Report σ → Prop where
  | rejected {told : List Message} (plan : prepare inv path (dir.read path) = (.reject, told)) :
      Handled std fuel inv dir path x ⟨.status 1, x, told⟩
  | crashed {cause : Crash} {told : List Message}
      (plan : prepare inv path (dir.read path) = (.crash cause, told)) :
      Handled std fuel inv dir path x ⟨.crash cause, x, told⟩
  | printed {text : String} {told : List Message} {y : σ}
      (plan : prepare inv path (dir.read path) = (.print text, told))
      (written : std.writeText text x = (.ok (), y)) :
      Handled std fuel inv dir path x ⟨.status 0, y, told⟩
  | unprinted {text why : String} {told : List Message} {y : σ}
      (plan : prepare inv path (dir.read path) = (.print text, told))
      (unwritten : std.writeText text x = (.error why, y)) :
      Handled std fuel inv dir path x ⟨.crash (.unwritten why), y, told⟩
  | escaped {p : Program} {told : List Message} {e : Ending σ} {cause : Crash}
      (plan : prepare inv path (dir.read path) = (.run p, told))
      (ends : (Machine.start p (.start (freshTape inv) x)).run std.device ⟨inv.eof, inv.mode⟩ fuel =
        some e)
      (unsettled : settle e = .error cause) :
      Handled std fuel inv dir path x ⟨.crash cause, e.state.streams, told ++ noticesOf e⟩
  | ran {p : Program} {told : List Message} {e : Ending σ} {error? : Option RuntimeError}
      {flushed : Except String Unit} {y : σ}
      (plan : prepare inv path (dir.read path) = (.run p, told))
      (ends : (Machine.start p (.start (freshTape inv) x)).run std.device ⟨inv.eof, inv.mode⟩ fuel =
        some e)
      (settled : settle e = .ok error?) (flush : std.flushText e.state.streams = (flushed, y)) :
      Handled std fuel inv dir path x ⟨.status (conclude inv path e error? flushed).1, y,
        told ++ (conclude inv path e error? flushed).2⟩

theorem handled_iff {x : σ} {r : Report σ} :
    runPath std fuel inv dir path x = some r ↔ Handled std fuel inv dir path x r := by
  constructor
  · intro h
    unfold runPath at h
    rcases plan : prepare inv path (dir.read path) with ⟨_ | cause | text | p, told⟩ <;>
      simp only [plan] at h
    · cases h
      exact .rejected plan
    · cases h
      exact .crashed plan
    · rcases written : std.writeText text x with ⟨why | _, y⟩ <;> simp only [written] at h <;>
        cases h
      · exact .unprinted plan written
      · exact .printed plan written
    · obtain ⟨e, ends, h⟩ := Option.bind_eq_some_iff.1 h
      rcases settled : settle e with cause | error? <;> simp only [settled] at h <;> cases h
      · exact .escaped plan ends settled
      · exact .ran plan ends settled rfl
  · intro h
    unfold runPath
    cases h with
    | rejected plan => rw [plan]
    | crashed plan => rw [plan]
    | printed plan written => simp only [plan, written]
    | unprinted plan unwritten => simp only [plan, unwritten]
    | escaped plan ends unsettled =>
      simp only [plan, ends, Option.bind_eq_bind, Option.bind_some, unsettled]
      rfl
    | ran plan ends settled flush =>
      simp only [plan, ends, Option.bind_eq_bind, Option.bind_some, settled, flush]
      rfl

/-- A larger bound gives the same. -/
theorem Handled.add {x : σ} {r : Report σ} (h : Handled std fuel inv dir path x r) (k : Nat) :
    Handled std (fuel + k) inv dir path x r := by
  cases h with
  | rejected plan => exact .rejected plan
  | crashed plan => exact .crashed plan
  | printed plan written => exact .printed plan written
  | unprinted plan unwritten => exact .unprinted plan unwritten
  | escaped plan ends unsettled => exact .escaped plan (Machine.run_add ends k) unsettled
  | ran plan ends settled flush => exact .ran plan (Machine.run_add ends k) settled flush

theorem Handled.unique {fuel' : Nat} {x : σ} {r r' : Report σ}
    (h : Handled std fuel inv dir path x r) (h' : Handled std fuel' inv dir path x r') :
    r' = r := by
  have same := handled_iff.2 (h.add fuel')
  rw [Nat.add_comm, handled_iff.2 (h'.add fuel)] at same
  exact Option.some_inj.1 same

/-- The file is done with, or its program is never over. -/
theorem exists_handled (std : Stdio σ) (inv : Invocation) (dir : Directory) (path : String)
    (x : σ) : (∃ fuel r, Handled std fuel inv dir path x r) ∨
      ∃ p told, prepare inv path (dir.read path) = (.run p, told) ∧
        ∀ fuel, (Machine.start p (.start (freshTape inv) x)).run std.device ⟨inv.eof, inv.mode⟩
          fuel = none := by
  rcases plan : prepare inv path (dir.read path) with ⟨_ | cause | text | p, told⟩
  · exact .inl ⟨0, _, .rejected plan⟩
  · exact .inl ⟨0, _, .crashed plan⟩
  · rcases written : std.writeText text x with ⟨why | _, y⟩
    · exact .inl ⟨0, _, .unprinted plan written⟩
    · exact .inl ⟨0, _, .printed plan written⟩
  · by_cases never : ∀ fuel, (Machine.start p (.start (freshTape inv) x)).run std.device
        ⟨inv.eof, inv.mode⟩ fuel = none
    · exact .inr ⟨p, told, rfl, never⟩
    · obtain ⟨fuel, hends⟩ := Classical.not_forall.1 never
      obtain ⟨e, ends⟩ := Option.ne_none_iff_exists'.1 hends
      rcases settled : settle e with cause | error?
      · exact .inl ⟨fuel, _, .escaped plan ends settled⟩
      · exact .inl ⟨fuel, _, .ran plan ends settled rfl⟩

/-- All that matters of the directory is what is read at the path. -/
theorem runPath_congr (std : Stdio σ) (fuel : Nat) (inv : Invocation) {dir' : Directory}
    (same : dir'.read path = dir.read path) (x : σ) :
    runPath std fuel inv dir' path x = runPath std fuel inv dir path x := by
  rw [runPath, runPath, same]

/-! ### All files -/

/-- The command is through the files: each of them ends with status zero, on the streams that the
one before has left. -/
inductive Through (std : Stdio σ) (fuel : Nat) (inv : Invocation) (dir : Directory) :
    List String → σ → σ → List Message → Prop where
  | nil {x : σ} : Through std fuel inv dir [] x x []
  | cons {path : String} {rest : List String} {x y z : σ} {told more : List Message}
      (first : Handled std fuel inv dir path x ⟨.status 0, y, told⟩)
      (others : Through std fuel inv dir rest y z more) :
      Through std fuel inv dir (path :: rest) x z (told ++ more)

theorem Through.add {files : List String} {x y : σ} {told : List Message}
    (h : Through std fuel inv dir files x y told) (k : Nat) :
    Through std (fuel + k) inv dir files x y told := by
  induction h with
  | nil => exact .nil
  | cons first _ ih => exact .cons (first.add k) ih

theorem Through.unique {fuel' : Nat} {files : List String} {x y y' : σ}
    {told told' : List Message} (h : Through std fuel inv dir files x y told)
    (h' : Through std fuel' inv dir files x y' told') : y' = y := by
  induction h generalizing told' with
  | nil =>
    cases h'
    rfl
  | cons first _ ih =>
    cases h' with
    | cons first' others' =>
      cases first.unique first'
      exact ih others'

/-- The command stops at the file at `path`, behind files that it is through. -/
structure Stops (std : Stdio σ) (fuel : Nat) (inv : Invocation) (dir : Directory)
    (before : List String) (path : String) (x : σ) (r : Report σ) : Prop where
  failed : r.exit ≠ .status 0
  reached : ∃ y told last, Through std fuel inv dir before x y told ∧
    Handled std fuel inv dir path y { r with messages := last } ∧ r.messages = told ++ last

theorem Stops.add {before : List String} {x : σ} {r : Report σ}
    (h : Stops std fuel inv dir before path x r) (k : Nat) :
    Stops std (fuel + k) inv dir before path x r := by
  obtain ⟨failed, y, told, last, through, hlast, heq⟩ := h
  exact ⟨failed, y, told, last, through.add k, hlast.add k, heq⟩

/-- The command is never over: behind files that it is through, there is a program that is never
over. -/
inductive Hangs (std : Stdio σ) (inv : Invocation) (dir : Directory) : List String → σ → Prop where
  | here {path : String} {rest : List String} {x : σ} {p : Program} {told : List Message}
      (plan : prepare inv path (dir.read path) = (.run p, told))
      (never : ∀ fuel, (Machine.start p (.start (freshTape inv) x)).run std.device
        ⟨inv.eof, inv.mode⟩ fuel = none) :
      Hangs std inv dir (path :: rest) x
  | later {path : String} {rest : List String} {x y : σ} {fuel : Nat} {told : List Message}
      (first : Handled std fuel inv dir path x ⟨.status 0, y, told⟩)
      (others : Hangs std inv dir rest y) :
      Hangs std inv dir (path :: rest) x

section RunPaths
variable {rest : List String} {x y : σ}

theorem runPaths_none (h : runPath std fuel inv dir path x = none) :
    runPaths std fuel inv dir x (path :: rest) = none := by
  rw [runPaths, h]
  rfl

theorem runPaths_next {told : List Message}
    (h : Handled std fuel inv dir path x ⟨.status 0, y, told⟩) :
    runPaths std fuel inv dir x (path :: rest) = (runPaths std fuel inv dir y rest).map fun r =>
      { r with messages := told ++ r.messages } := by
  rw [runPaths, handled_iff.2 h]
  rcases h : runPaths std fuel inv dir y rest with _ | r <;> simp [h]

theorem runPaths_stop {r : Report σ} (h : Handled std fuel inv dir path x r)
    (failed : r.exit ≠ .status 0) : runPaths std fuel inv dir x (path :: rest) = some r := by
  rw [runPaths, handled_iff.2 h, Option.bind_eq_bind, Option.bind_some]
  split
  · next hexit => exact absurd hexit failed
  · rfl

/-- Behind files that it is through, the command goes on with the streams that they leave. -/
theorem Through.runPaths {files : List String} {told : List Message}
    (h : Through std fuel inv dir files x y told) (rest : List String) :
    runPaths std fuel inv dir x (files ++ rest) = (runPaths std fuel inv dir y rest).map fun r =>
      { r with messages := told ++ r.messages } := by
  induction h with
  | nil => exact Option.map_id'.symm
  | cons first _ ih =>
    rw [List.cons_append, runPaths_next first, ih, Option.map_map]
    simp only [Function.comp_def, List.append_assoc]

/-- **The command is through all files, or one of them stops it.** -/
theorem runPaths_iff {files : List String} {r : Report σ} :
    runPaths std fuel inv dir x files = some r ↔
      r.exit = .status 0 ∧ Through std fuel inv dir files x r.streams r.messages ∨
        ∃ before path after, files = before ++ path :: after ∧
          Stops std fuel inv dir before path x r := by
  constructor
  · intro h
    induction files generalizing x r with
    | nil =>
      cases h
      exact .inl ⟨rfl, .nil⟩
    | cons path rest ih =>
      rcases hfirst : runPath std fuel inv dir path x with _ | first
      · rw [runPaths_none hfirst] at h
        cases h
      have handled := handled_iff.1 hfirst
      by_cases failed : first.exit = .status 0
      · obtain ⟨_, y, told⟩ := first
        cases failed
        rw [runPaths_next handled] at h
        obtain ⟨others, hothers, rfl⟩ := Option.map_eq_some_iff.1 h
        rcases ih hothers with ⟨hexit, through⟩ | ⟨before, last, after, rfl, stops⟩
        · exact .inl ⟨hexit, .cons handled through⟩
        · obtain ⟨z, more, said, through, hlast, heq⟩ := stops.reached
          refine .inr ⟨path :: before, last, after, rfl, stops.failed, z, told ++ more, said,
            .cons handled through, hlast, ?_⟩
          rw [heq, List.append_assoc]
      · rw [runPaths_stop handled failed] at h
        cases h
        exact .inr ⟨[], path, rest, rfl, failed, x, [], _, .nil, handled, rfl⟩
  · rintro (⟨hexit, through⟩ | ⟨before, path, after, rfl, failed, y, told, last, through, hlast,
      heq⟩)
    · have hall := through.runPaths []
      rw [List.append_nil] at hall
      rw [hall]
      obtain ⟨_, z, all⟩ := r
      cases hexit
      show some (Report.mk (.status 0) z (all ++ [])) = _
      rw [List.append_nil]
    · rw [through.runPaths, runPaths_stop hlast failed, Option.map_some, ← heq]

/-- What is behind a file that stops the command does not matter, nor what can be read there. -/
theorem runPaths_congr {dir' : Directory} {before : List String} (after after' : List String)
    (same : ∀ q ∈ before ++ [path], dir'.read q = dir.read q)
    (stops : ∀ y told r, Through std fuel inv dir before x y told →
      Handled std fuel inv dir path y r → r.exit ≠ .status 0) :
    runPaths std fuel inv dir' x (before ++ path :: after') =
      runPaths std fuel inv dir x (before ++ path :: after) := by
  induction before generalizing x with
  | nil =>
    have hread := runPath_congr std fuel inv (same path (by simp)) x
    rcases hlast : runPath std fuel inv dir path x with _ | r <;> rw [hlast] at hread
    · exact (runPaths_none hread).trans (runPaths_none hlast).symm
    · have failed := stops x [] r .nil (handled_iff.1 hlast)
      exact (runPaths_stop (handled_iff.1 hread) failed).trans
        (runPaths_stop (handled_iff.1 hlast) failed).symm
  | cons first before ih =>
    have hread := runPath_congr std fuel inv (same first (by simp)) x
    rcases hfirst : runPath std fuel inv dir first x with _ | ⟨exit, y, told⟩ <;>
      rw [hfirst] at hread
    · exact (runPaths_none hread).trans (runPaths_none hfirst).symm
    have handled := handled_iff.1 hfirst
    by_cases failed : exit = .status 0
    · cases failed
      rw [List.cons_append, List.cons_append, runPaths_next (handled_iff.1 hread),
        runPaths_next handled]
      rw [ih (fun q hq => same q (.tail _ hq)) fun z more r through =>
        stops z (told ++ more) r (.cons handled through)]
    · exact (runPaths_stop (handled_iff.1 hread) failed).trans (runPaths_stop handled failed).symm

/-- The list of files that were asked for plays no part in the work on them. -/
theorem runPaths_withFiles (asked files : List String) :
    runPaths std fuel { inv with files := asked } dir x files =
      runPaths std fuel inv dir x files := by
  induction files generalizing x with
  | nil => rfl
  | cons path rest ih =>
    simp only [runPaths, ih]
    rfl

/-- A larger bound gives the same. -/
theorem runPaths_add {files : List String} {r : Report σ}
    (h : runPaths std fuel inv dir x files = some r) (k : Nat) :
    runPaths std (fuel + k) inv dir x files = some r := by
  rw [runPaths_iff] at h ⊢
  rcases h with ⟨hexit, through⟩ | ⟨before, path, after, hfiles, stops⟩
  · exact .inl ⟨hexit, through.add k⟩
  · exact .inr ⟨before, path, after, hfiles, stops.add k⟩

theorem Hangs.runPaths {files : List String} (h : Hangs std inv dir files x) (fuel : Nat) :
    runPaths std fuel inv dir x files = none := by
  induction h with
  | here plan never =>
    refine runPaths_none ?_
    simp only [runPath, plan, never, Option.bind_eq_bind, Option.bind_none]
  | @later path rest x y _ told first _ ih =>
    rcases hfirst : runPath std fuel inv dir path x with _ | r
    · exact runPaths_none hfirst
    · obtain rfl := first.unique (handled_iff.1 hfirst)
      rw [runPaths_next (handled_iff.1 hfirst), ih, Option.map_none]

/-- **There is a result unless a program is never over.** -/
theorem exists_runPaths_iff {files : List String} :
    (∃ fuel r, runPaths std fuel inv dir x files = some r) ↔ ¬ Hangs std inv dir files x := by
  constructor
  · rintro ⟨fuel, r, h⟩ hangs
    rw [hangs.runPaths fuel] at h
    cases h
  · intro ends
    induction files generalizing x with
    | nil => exact ⟨0, _, rfl⟩
    | cons path rest ih =>
      obtain ⟨fuel, ⟨exit, y, told⟩, first⟩ | ⟨p, told, plan, never⟩ :=
        exists_handled std inv dir path x
      · by_cases failed : exit = .status 0
        · cases failed
          obtain ⟨fuel', r, others⟩ := ih fun hangs => ends (.later first hangs)
          have hothers := runPaths_add others fuel
          rw [Nat.add_comm] at hothers
          exact ⟨fuel + fuel', _, by rw [runPaths_next (first.add fuel'), hothers, Option.map_some]⟩
        · exact ⟨fuel, _, runPaths_stop first failed⟩
      · exact absurd (.here plan never) ends

end RunPaths

/-! ### The command -/

/-- The error output for messages. -/
def stderrOf (inv : Invocation) (ms : String) (told : List Message) : String :=
  String.join (told.map (Message.render inv.verbose ms))

/-- Where there is something to be done, the command goes through the files. -/
theorem run_iff {args : List String} (accepted : Invocation.ofArgs args = .ok inv) {ms : String}
    {x : σ} {r : Result σ} : run std fuel ms args dir x = some r ↔
      ∃ told, runPaths std fuel inv dir x inv.files = some ⟨r.exit, r.streams, told⟩ ∧
        r.stderr = stderrOf inv ms told := by
  simp only [run, accepted]
  rw [Option.bind_eq_bind, Option.bind_eq_some_iff]
  constructor
  · rintro ⟨report, hreport, h⟩
    cases h
    exact ⟨report.messages, hreport, rfl⟩
  · rintro ⟨told, hreport, h⟩
    obtain ⟨exit, y, stderr⟩ := r
    obtain rfl : stderr = stderrOf inv ms told := h
    exact ⟨_, hreport, rfl⟩

/-- The first file may stop the command. -/
theorem Handled.run_stop {args : List String} (accepted : Invocation.ofArgs args = .ok inv)
    (ms : String) {x : σ} {r : Report σ} (h : Handled std fuel inv dir path x r)
    {rest : List String} (first : inv.files = path :: rest) (failed : r.exit ≠ .status 0) :
    run std fuel ms args dir x = some ⟨r.exit, r.streams, stderrOf inv ms r.messages⟩ :=
  (run_iff accepted).2 ⟨r.messages, by rw [first, runPaths_stop h failed], rfl⟩

theorem exists_run_iff {args : List String} (accepted : Invocation.ofArgs args = .ok inv)
    {ms : String} {x : σ} :
    (∃ fuel r, run std fuel ms args dir x = some r) ↔ ¬ Hangs std inv dir inv.files x := by
  rw [← exists_runPaths_iff]
  constructor
  · rintro ⟨fuel, r, h⟩
    obtain ⟨told, hpaths, -⟩ := (run_iff accepted).1 h
    exact ⟨fuel, _, hpaths⟩
  · rintro ⟨fuel, ⟨exit, y, told⟩, hpaths⟩
    exact ⟨fuel, ⟨exit, y, stderrOf inv ms told⟩, (run_iff accepted).2 ⟨told, hpaths, rfl⟩⟩

/-- **Whatever the bound, there is one result.** -/
theorem run_unique {args : List String} (accepted : Invocation.ofArgs args = .ok inv) {ms : String}
    {x : σ} {fuel' : Nat} {r r' : Result σ} (h : run std fuel ms args dir x = some r)
    (h' : run std fuel' ms args dir x = some r') : r' = r := by
  obtain ⟨told, hpaths, hstderr⟩ := (run_iff accepted).1 h
  obtain ⟨told', hpaths', hstderr'⟩ := (run_iff accepted).1 h'
  have same := runPaths_add hpaths fuel'
  rw [Nat.add_comm, runPaths_add hpaths' fuel] at same
  obtain ⟨exit, y, stderr⟩ := r
  obtain ⟨exit', y', stderr'⟩ := r'
  obtain rfl : stderr = stderrOf inv ms told := hstderr
  obtain rfl : stderr' = stderrOf inv ms told' := hstderr'
  cases same
  rfl

end Command

end TapeLang
