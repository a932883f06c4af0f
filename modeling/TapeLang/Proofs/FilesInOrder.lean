import TapeLang.Proofs.Batch
import TapeLang.Proofs.StreamsInStep

/-!
# Files in order

A command that runs its files on a sound console, and each file by itself. By itself the program of
a file starts on a blank tape and an empty output, with some input; the command gives it the input
that the files before it have left, and its output comes behind theirs. The first file that fails is
the last one.

* `Performs`, `Outcome`: a program by itself and a file by itself.
* `Console.follows_behind`: what was printed before makes no difference to a program.
* `handled_plain_iff`, `through_plain_iff`: one file and many, in the command and by themselves.
* `files_in_order`: the whole command.
-/

namespace TapeLang

/-! ### A plain console -/

namespace Console

/-- A console on which nothing fails and nothing is held back: what has been printed, and the input
that is left. -/
def plain (printed input : List UInt8) : Console :=
  ⟨input, printed.reverse, [], defaultCapacity, .none⟩

theorem plain_nil (input : List UInt8) : plain [] input = ofInput input := rfl

@[simp] theorem output_plain (printed input : List UInt8) :
    (plain printed input).output = printed := by
  simp [plain, output]

theorem write_plain (data printed input : List UInt8) :
    (plain printed input).write data = (.ok (), plain (printed ++ data) input) := by
  simp [plain, write, OutputFaults.none]

/-- The first console has `base` printed in front of all that is on the second. -/
def Behind (base : List UInt8) (x' : Console) (_ : Array Call) (x : Console) (_ : Array Call) :
    Prop :=
  ∃ printed input, x' = plain (base ++ printed) input ∧ x = plain printed input

/-- **What was printed before makes no difference.** -/
theorem follows_behind (base : List UInt8) : Stdio.Follows (Behind base) stdio stdio where
  write := by
    rintro _ _ _ _ ⟨printed, input, rfl, rfl⟩ data
    simp only [stdio, write_plain]
    exact ⟨trivial, printed ++ data, input, by rw [List.append_assoc], rfl⟩
  flush := by
    rintro _ _ _ _ ⟨printed, input, rfl, rfl⟩
    exact ⟨rfl, printed, input, rfl, rfl⟩
  read := by
    rintro _ _ _ _ ⟨printed, input, rfl, rfl⟩
    exact ⟨rfl, printed, input.drop 1, rfl, rfl⟩

end Console

namespace Command

variable {inv : Invocation} {dir : Directory} {path : String}

/-! ### A program by itself -/

/-- By itself, on a blank tape and with the given input, the program ends with `failure`, if it is
one, has written `out` and left `left` of the input. -/
def Performs (inv : Invocation) (p : Program) (input : List UInt8) (failure : Option Failure)
    (out left : List UInt8) : Prop :=
  ∃ e, Runs Console.device ⟨inv.eof, inv.mode⟩ p
      (.start (.blank (min 4096 inv.maxCells) inv.maxCells) (.ofInput input)) e ∧
    e.failure = failure ∧ e.state.streams.output = out ∧ e.state.streams.input = left

/-- **A program in the command** is the program by itself, behind what has been printed. -/
theorem performs_iff {p : Program} {base input : List UInt8} {failure : Option Failure}
    {y : Console} :
    (∃ fuel e, (Machine.start p (.start (freshTape inv) (.plain base input))).run
        Console.stdio.device ⟨inv.eof, inv.mode⟩ fuel = some e ∧
      e.failure = failure ∧ e.state.streams = y) ↔
      ∃ out left, y = .plain (base ++ out) left ∧ Performs inv p input failure out left := by
  have start : Console.Behind base (.plain base input) #[] (.plain [] input) #[] :=
    ⟨[], input, by rw [List.append_nil], rfl⟩
  constructor
  · rintro ⟨fuel, e, ends, rfl, rfl⟩
    obtain ⟨e₀, ends₀, same⟩ := (Console.follows_behind base).exists_run_followed start ends
    obtain ⟨out, left, hstreams, hstreams₀⟩ := same.2.streams
    refine ⟨out, left, hstreams, e₀, Machine.ends_iff_runs.1 ⟨fuel, ends₀⟩, same.1.symm, ?_, ?_⟩
    · rw [hstreams₀, Console.output_plain]
    · rw [hstreams₀, Console.plain]
  · rintro ⟨out, left, rfl, e₀, runs, rfl, rfl, rfl⟩
    obtain ⟨fuel, ends₀⟩ := Machine.ends_iff_runs.2 runs
    obtain ⟨e, ends, same⟩ := (Console.follows_behind base).exists_run start ends₀
    obtain ⟨out, left, hstreams, hstreams₀⟩ := same.2.streams
    refine ⟨fuel, e, ends, same.1, ?_⟩
    rw [hstreams, hstreams₀, Console.output_plain]
    rfl

/-! ### A file by itself -/

/-- What comes of a file by itself, with the given input: how the command ends or goes on, what is
written and the input that is left. A file succeeds if it can be read, decoded and parsed and its
program runs without a fault. -/
inductive Outcome (inv : Invocation) (dir : Directory) (path : String) (input : List UInt8) :
    Exit → List UInt8 → List UInt8 → Prop where
  | success {raw : Program} {level : Int} {out left : List UInt8}
      (holds : Holds (dir.read path) raw) (leveled : inv.level = some level)
      (performs : Performs inv (raw.compact level) input none out left) :
      Outcome inv dir path input (.status 0) out left
  | fault {raw : Program} {level : Int} {err : RuntimeError} {out left : List UInt8}
      (holds : Holds (dir.read path) raw) (leveled : inv.level = some level)
      (performs : Performs inv (raw.compact level) input (some (.fault err)) out left) :
      Outcome inv dir path input (.status 1) out left
  | unusable (named : '\x00' ∉ path.toList) (none : ∀ raw, ¬ Holds (dir.read path) raw) :
      Outcome inv dir path input (.status 1) [] input
  | nul (nul : '\x00' ∈ path.toList) : Outcome inv dir path input (.crash .nulInPath) [] input
  | levelless {raw : Program} (holds : Holds (dir.read path) raw) (none : inv.level = none) :
      Outcome inv dir path input (.crash (.noValue .level)) [] input

theorem prepare_levelless {raw : Program} (holds : Holds (dir.read path) raw)
    (none : inv.level = none) :
    prepare inv path (dir.read path) = (.crash (.noValue .level), []) := by
  obtain ⟨bytes, source, hread, hsource, hraw⟩ := holds
  simp only [prepare, hread, hsource, hraw, none]

theorem prepare_unusable (named : '\x00' ∉ path.toList)
    (none : ∀ raw, ¬ Holds (dir.read path) raw) :
    ∃ told, prepare inv path (dir.read path) = (.reject, told) := by
  have planned := planned_prepare inv path (dir.read path)
  rcases plan : prepare inv path (dir.read path) with ⟨what, told⟩
  rw [plan] at planned
  cases planned with
  | nul nul => exact absurd (Directory.read_eq_nul_iff.1 nul) named
  | rejected => exact ⟨told, rfl⟩
  | levelless holds | print holds | run holds => exact absurd holds (none _)

/-- In the command, a file comes to what it comes to by itself. -/
theorem Handled.outcome (cells : 0 < inv.maxCells) (running : inv.emit = false) {fuel : Nat}
    {base input : List UInt8} {r : Report Console}
    (h : Handled Console.stdio fuel inv dir path (.plain base input) r) :
    ∃ out left, r.streams = .plain (base ++ out) left ∧
      Outcome inv dir path input r.exit out left := by
  have planned := planned_prepare inv path (dir.read path)
  have unchanged : Console.plain base input = .plain (base ++ []) input := by
    rw [List.append_nil]
  cases h with
  | rejected plan =>
    rw [plan] at planned
    refine ⟨[], input, unchanged, ?_⟩
    cases planned with
    | rejected none named => exact .unusable (mt Directory.read_eq_nul_iff.2 named) none
  | crashed plan =>
    rw [plan] at planned
    refine ⟨[], input, unchanged, ?_⟩
    cases planned with
    | nul nul => exact .nul (Directory.read_eq_nul_iff.1 nul)
    | levelless holds none => exact .levelless holds none
  | printed plan | unprinted plan =>
    rw [plan] at planned
    cases planned with
    | print _ _ printing => exact absurd (running.symm.trans printing) Bool.false_ne_true
  | escaped plan ends unsettled =>
    rw [plan] at planned
    cases planned with
    | run holds =>
      obtain ⟨error?, settled⟩ := holds.exists_settle cells ends
      cases unsettled.symm.trans settled
  | @ran p told e error? flushed y plan ends settled flush =>
    obtain ⟨out, left, hstreams, performs⟩ := performs_iff.1 ⟨fuel, e, ends, rfl, rfl⟩
    rw [hstreams] at flush
    -- nothing is held back, so the last flush has nothing to do
    cases flush
    refine ⟨out, left, rfl, ?_⟩
    rw [plan] at planned
    cases planned with
    | run holds leveled =>
      rw [settle_eq_ok.1 settled] at performs
      unfold conclude
      rcases error? with _ | err
      · exact .success holds leveled performs
      · exact .fault holds leveled performs

/-- What a program does by itself it does in the command. -/
theorem Performs.exists_handled {raw : Program} {level : Int} {input out left : List UInt8}
    (error? : Option RuntimeError)
    (performs : Performs inv (raw.compact level) input (error?.map .fault) out left)
    (holds : Holds (dir.read path) raw) (leveled : inv.level = some level)
    (running : inv.emit = false) (base : List UInt8) :
    ∃ fuel told, Handled Console.stdio fuel inv dir path (.plain base input)
      ⟨.status (if error? = none then 0 else 1), .plain (base ++ out) left, told⟩ := by
  obtain ⟨told, plan⟩ := prepare_run holds leveled running
  obtain ⟨fuel, e, ends, hfailure, hstreams⟩ := performs_iff.2 ⟨out, left, rfl, performs⟩
  have handled := Handled.ran plan ends (settle_eq_ok.2 hfailure)
    (congrArg Console.stdio.flushText hstreams)
  rcases error? with _ | err
  · exact ⟨fuel, _, handled⟩
  · exact ⟨fuel, _, handled⟩

/-- **One file**, in the command and by itself. -/
theorem handled_plain_iff (cells : 0 < inv.maxCells) (running : inv.emit = false)
    {base input : List UInt8} {exit : Exit} {y : Console} :
    (∃ fuel told, Handled Console.stdio fuel inv dir path (.plain base input) ⟨exit, y, told⟩) ↔
      ∃ out left, y = .plain (base ++ out) left ∧ Outcome inv dir path input exit out left := by
  constructor
  · rintro ⟨fuel, told, h⟩
    exact h.outcome cells running
  · rintro ⟨out, left, rfl, h⟩
    cases h with
    | success holds leveled performs =>
      exact Performs.exists_handled none performs holds leveled running base
    | @fault raw level err out left holds leveled performs =>
      exact Performs.exists_handled (some err) performs holds leveled running base
    | unusable named none =>
      obtain ⟨told, plan⟩ := prepare_unusable named none
      rw [List.append_nil]
      exact ⟨0, told, .rejected plan⟩
    | nul nul =>
      have plan : prepare inv path (dir.read path) = (.crash .nulInPath, []) := by
        rw [Directory.read_eq_nul_iff.2 nul]
        rfl
      rw [List.append_nil]
      exact ⟨0, [], .crashed plan⟩
    | levelless holds none =>
      rw [List.append_nil]
      exact ⟨0, [], .crashed (prepare_levelless holds none)⟩

/-! ### Files by themselves -/

/-- All files succeed, each on the input that the one before has left: what each of them has
written, and the input that the last one leaves. -/
inductive AllSucceed (inv : Invocation) (dir : Directory) :
    List String → List UInt8 → List (List UInt8) → List UInt8 → Prop where
  | nil {input : List UInt8} : AllSucceed inv dir [] input [] input
  | cons {path : String} {rest : List String} {input out mid left : List UInt8}
      {outs : List (List UInt8)} (first : Outcome inv dir path input (.status 0) out mid)
      (others : AllSucceed inv dir rest mid outs left) :
      AllSucceed inv dir (path :: rest) input (out :: outs) left

/-- The files `before` succeed and the one at `path` does not: what is written and the input that is
left then. -/
def FailsAt (inv : Invocation) (dir : Directory) (before : List String) (path : String)
    (stdin : List UInt8) (exit : Exit) (out left : List UInt8) : Prop :=
  exit ≠ .status 0 ∧ ∃ outs mid last, AllSucceed inv dir before stdin outs mid ∧
    Outcome inv dir path mid exit last left ∧ out = outs.flatten ++ last

section
variable (cells : 0 < inv.maxCells) (running : inv.emit = false)
include cells running

/-- **Files that the command is through** succeed by themselves. -/
theorem through_plain_iff {files : List String} {base input : List UInt8} {y : Console} :
    (∃ fuel told, Through Console.stdio fuel inv dir files (.plain base input) y told) ↔
      ∃ outs left, y = .plain (base ++ outs.flatten) left ∧
        AllSucceed inv dir files input outs left := by
  constructor
  · rintro ⟨fuel, told, h⟩
    induction files generalizing base input told with
    | nil =>
      cases h
      exact ⟨[], input, by rw [List.flatten_nil, List.append_nil], .nil⟩
    | cons path rest ih =>
      cases h with
      | cons first others =>
        obtain ⟨out, mid, rfl, outcome⟩ := (handled_plain_iff cells running).1 ⟨fuel, _, first⟩
        obtain ⟨outs, left, rfl, succeed⟩ := ih _ others
        refine ⟨out :: outs, left, ?_, .cons outcome succeed⟩
        rw [List.flatten_cons, List.append_assoc]
  · rintro ⟨outs, left, rfl, h⟩
    induction h generalizing base with
    | nil => exact ⟨0, [], by rw [List.flatten_nil, List.append_nil]; exact .nil⟩
    | @cons path rest input out mid left outs first _ ih =>
      obtain ⟨fuel, told, handled⟩ :=
        (handled_plain_iff cells running).2 ⟨out, mid, rfl, first⟩
      obtain ⟨fuel', more, through⟩ := @ih (base ++ out)
      have through' := through.add fuel
      rw [Nat.add_comm] at through'
      refine ⟨fuel + fuel', told ++ more, ?_⟩
      rw [List.flatten_cons, ← List.append_assoc]
      exact .cons (handled.add fuel') through'

/-- **The file that stops the command** is the first that does not succeed by itself. -/
theorem stops_plain_iff {before : List String} {stdin : List UInt8} {exit : Exit} {y : Console} :
    (∃ fuel told,
        Stops Console.stdio fuel inv dir before path (.plain [] stdin) ⟨exit, y, told⟩) ↔
      ∃ out left, y = .plain out left ∧ FailsAt inv dir before path stdin exit out left := by
  constructor
  · rintro ⟨fuel, told, failed, z, said, last, through, handled, -⟩
    obtain ⟨outs, mid, rfl, succeed⟩ := (through_plain_iff cells running).1 ⟨fuel, said, through⟩
    obtain ⟨out, left, rfl, outcome⟩ := (handled_plain_iff cells running).1 ⟨fuel, last, handled⟩
    exact ⟨_, left, rfl, failed, outs, mid, out, succeed, outcome, rfl⟩
  · rintro ⟨_, left, rfl, failed, outs, mid, out, succeed, outcome, rfl⟩
    obtain ⟨fuel, told, through⟩ := (through_plain_iff cells running).2 ⟨outs, mid, rfl, succeed⟩
    obtain ⟨fuel', last, handled⟩ := (handled_plain_iff cells running).2 ⟨out, left, rfl, outcome⟩
    have handled' := handled.add fuel
    rw [Nat.add_comm] at handled'
    exact ⟨fuel + fuel', told ++ last, failed, _, told, last, through.add fuel', handled', rfl⟩

/-- A command that is never over comes to a program that is never over by itself. -/
theorem Hangs.exists_program {files : List String} {base input : List UInt8}
    (h : Hangs Console.stdio inv dir files (.plain base input)) :
    ∃ before path after outs mid raw level, files = before ++ path :: after ∧
      AllSucceed inv dir before input outs mid ∧ Holds (dir.read path) raw ∧
      inv.level = some level ∧
      ∀ failure out left, ¬ Performs inv (raw.compact level) mid failure out left := by
  induction files generalizing base input with
  | nil => cases h
  | cons path rest ih =>
    cases h with
    | here plan never =>
      have planned := planned_prepare inv path (dir.read path)
      rw [plan] at planned
      cases planned with
      | @run raw level holds leveled =>
        refine ⟨[], path, rest, [], input, raw, level, rfl, .nil, holds, leveled, ?_⟩
        intro failure out left performs
        obtain ⟨fuel, e, ends, -⟩ := performs_iff.2 ⟨out, left, rfl, performs⟩
        rw [never fuel] at ends
        cases ends
    | later first others =>
      obtain ⟨out, mid, rfl, outcome⟩ := (handled_plain_iff cells running).1 ⟨_, _, first⟩
      obtain ⟨before, last, after, outs, mid', raw, level, rfl, succeed, never⟩ := ih others
      exact ⟨path :: before, last, after, out :: outs, mid', raw, level, rfl, .cons outcome succeed,
        never⟩

end

/-! ### The whole command -/

/-- The command ends with `exit`, has printed `out` and left `left` of the input. -/
def Leaves (ms : String) (args : List String) (dir : Directory) (stdin : List UInt8) (exit : Exit)
    (out left : List UInt8) : Prop :=
  ∃ fuel r, run Console.stdio fuel ms args dir (.ofInput stdin) = some r ∧ r.exit = exit ∧
    r.streams.output = out ∧ r.streams.input = left

theorem leaves_iff {args : List String} (accepted : Invocation.ofArgs args = .ok inv) {ms : String}
    {stdin : List UInt8} {exit : Exit} {out left : List UInt8} :
    Leaves ms args dir stdin exit out left ↔
      ∃ y : Console, (∃ fuel told, runPaths Console.stdio fuel inv dir (.plain [] stdin) inv.files =
        some ⟨exit, y, told⟩) ∧ y.output = out ∧ y.input = left := by
  constructor
  · rintro ⟨fuel, r, h, rfl, rfl, rfl⟩
    obtain ⟨told, hpaths, -⟩ := (run_iff accepted).1 h
    exact ⟨r.streams, ⟨fuel, told, hpaths⟩, rfl, rfl⟩
  · rintro ⟨y, ⟨fuel, told, hpaths⟩, rfl, rfl⟩
    exact ⟨fuel, ⟨exit, y, stderrOf inv ms told⟩, (run_iff accepted).2 ⟨told, hpaths, rfl⟩, rfl,
      rfl, rfl⟩

section
variable {args : List String} (accepted : Invocation.ofArgs args = .ok inv)
  (running : inv.emit = false) {ms : String} {stdin out left : List UInt8}
include accepted running

/-- **Status zero** means that all files succeed. -/
theorem leaves_zero_iff : Leaves ms args dir stdin (.status 0) out left ↔
    ∃ outs, AllSucceed inv dir inv.files stdin outs left ∧ out = outs.flatten := by
  have cells := Invocation.maxCells_pos accepted
  rw [leaves_iff accepted]
  constructor
  · rintro ⟨y, ⟨fuel, told, h⟩, rfl, rfl⟩
    rcases runPaths_iff.1 h with ⟨-, through⟩ | ⟨_, _, _, -, stops⟩
    · obtain ⟨outs, left, rfl, succeed⟩ := (through_plain_iff cells running).1 ⟨fuel, told, through⟩
      exact ⟨outs, succeed, Console.output_plain _ _⟩
    · exact absurd rfl stops.failed
  · rintro ⟨outs, succeed, rfl⟩
    obtain ⟨fuel, told, through⟩ := (through_plain_iff cells running).2 ⟨outs, left, rfl, succeed⟩
    exact ⟨.plain outs.flatten left, ⟨fuel, told, runPaths_iff.2 (.inl ⟨rfl, through⟩)⟩,
      Console.output_plain _ _, rfl⟩

/-- **Any other end** is that of the first file that fails. -/
theorem leaves_failed_iff {exit : Exit} (failed : exit ≠ .status 0) :
    Leaves ms args dir stdin exit out left ↔ ∃ before path after,
      inv.files = before ++ path :: after ∧ FailsAt inv dir before path stdin exit out left := by
  have cells := Invocation.maxCells_pos accepted
  rw [leaves_iff accepted]
  constructor
  · rintro ⟨y, ⟨fuel, told, h⟩, rfl, rfl⟩
    rcases runPaths_iff.1 h with ⟨done, -⟩ | ⟨before, path, after, hfiles, stops⟩
    · exact absurd done failed
    · obtain ⟨out, left, rfl, fails⟩ := (stops_plain_iff cells running).1 ⟨fuel, told, stops⟩
      rw [Console.output_plain]
      exact ⟨before, path, after, hfiles, fails⟩
  · rintro ⟨before, path, after, hfiles, fails⟩
    obtain ⟨fuel, told, stops⟩ := (stops_plain_iff cells running).2 ⟨out, left, rfl, fails⟩
    have done := runPaths_iff.2 (.inr ⟨before, path, after, hfiles, stops⟩)
    exact ⟨.plain out left, ⟨fuel, told, done⟩, Console.output_plain _ _, rfl⟩

/-- **Nothing behind the first file that fails matters**, not even to the time it takes. -/
theorem run_eq_of_failsAt {before after after' : List String} {exit : Exit}
    (files : inv.files = before ++ path :: after)
    (fails : FailsAt inv dir before path stdin exit out left) {args' : List String}
    {dir' : Directory}
    (accepted' : Invocation.ofArgs args' = .ok { inv with files := before ++ path :: after' })
    (same : ∀ q ∈ before ++ [path], dir'.read q = dir.read q) (fuel : Nat) :
    run Console.stdio fuel ms args' dir' (.ofInput stdin) =
      run Console.stdio fuel ms args dir (.ofInput stdin) := by
  have cells := Invocation.maxCells_pos accepted
  obtain ⟨fuel', told', -, y', told, last, through', handled', -⟩ :=
    (stops_plain_iff cells running).2 ⟨out, left, rfl, fails⟩
  -- whatever the bound, the command is stopped at `path` if it gets there
  have stops : ∀ y told r, Through Console.stdio fuel inv dir before (.plain [] stdin) y told →
      Handled Console.stdio fuel inv dir path y r → r.exit ≠ .status 0 := by
    intro y told r through handled
    obtain rfl := through'.unique through
    rw [handled'.unique handled]
    exact fails.1
  rw [← Console.plain_nil]
  simp only [run, accepted, accepted', files, runPaths_withFiles,
    runPaths_congr after after' same stops]

end

/-- **Files in order.** A command that runs its files has at most one result. It ends with status
zero exactly if all of them succeed, and then has printed what they write, one behind the other.
Otherwise it ends at the first that does not succeed, whose output is kept; with status one, unless
the name of the file or the level cannot be used at all. What comes after that file, or is in the
directory besides, does not matter. And there is a result unless a program is never over. -/
theorem files_in_order {args : List String} (accepted : Invocation.ofArgs args = .ok inv)
    (running : inv.emit = false) (ms : String) (dir : Directory) (stdin : List UInt8) :
    (∀ fuel fuel' r r', run Console.stdio fuel ms args dir (.ofInput stdin) = some r →
      run Console.stdio fuel' ms args dir (.ofInput stdin) = some r' → r' = r) ∧
    (∀ out left, Leaves ms args dir stdin (.status 0) out left ↔
      ∃ outs, AllSucceed inv dir inv.files stdin outs left ∧ out = outs.flatten) ∧
    (∀ exit out left, exit ≠ .status 0 → (Leaves ms args dir stdin exit out left ↔
      ∃ before path after, inv.files = before ++ path :: after ∧
        FailsAt inv dir before path stdin exit out left)) ∧
    (∀ exit out left, Leaves ms args dir stdin exit out left → exit = .status 0 ∨
      exit = .status 1 ∨ (∃ path ∈ inv.files, '\x00' ∈ path.toList) ∨ inv.level = none) ∧
    (∀ before path after exit out left, inv.files = before ++ path :: after →
      FailsAt inv dir before path stdin exit out left → ∀ after' args' dir',
        Invocation.ofArgs args' = .ok { inv with files := before ++ path :: after' } →
        (∀ q ∈ before ++ [path], dir'.read q = dir.read q) → ∀ fuel,
          run Console.stdio fuel ms args' dir' (.ofInput stdin) =
            run Console.stdio fuel ms args dir (.ofInput stdin)) ∧
    ((∃ exit out left, Leaves ms args dir stdin exit out left) ∨
      ∃ before path after outs mid raw level, inv.files = before ++ path :: after ∧
        AllSucceed inv dir before stdin outs mid ∧ Holds (dir.read path) raw ∧
        inv.level = some level ∧
        ∀ failure out left, ¬ Performs inv (raw.compact level) mid failure out left) := by
  refine ⟨fun _ _ _ _ h h' => run_unique accepted h h', fun _ _ => leaves_zero_iff accepted running,
    fun _ _ _ failed => leaves_failed_iff accepted running failed, fun exit out left leaves => ?_,
    fun before path after exit out left files fails after' args' dir' accepted' same fuel =>
      run_eq_of_failsAt accepted running files fails accepted' same fuel, ?_⟩
  · by_cases failed : exit = .status 0
    · exact .inl failed
    obtain ⟨before, path, after, files, fails⟩ :=
      (leaves_failed_iff accepted running failed).1 leaves
    obtain ⟨-, outs, mid, last, -, outcome, -⟩ := fails
    cases outcome with
    | success => exact .inl rfl
    | fault | unusable => exact .inr (.inl rfl)
    | nul nul =>
      refine .inr (.inr (.inl ⟨path, ?_, nul⟩))
      rw [files]
      exact List.mem_append_right _ (.head _)
    | levelless _ none => exact .inr (.inr (.inr none))
  · by_cases hangs : Hangs Console.stdio inv dir inv.files (.ofInput stdin)
    · rw [← Console.plain_nil] at hangs
      exact .inr (hangs.exists_program (Invocation.maxCells_pos accepted) running)
    · obtain ⟨fuel, r, h⟩ := (exists_run_iff accepted).2 hangs
      exact .inl ⟨r.exit, r.streams.output, r.streams.input, fuel, r, h, rfl, rfl, rfl⟩

/-- A program that copies a byte. -/
def copier : Program := [.input (some ⟨1, 1⟩), .output (some ⟨1, 2⟩)]

/-- A program that copies a byte and then leaves the tape. -/
def fallingCopier : Program :=
  [.input (some ⟨1, 1⟩), .output (some ⟨1, 2⟩), .moveLeft 1 (some ⟨1, 3⟩) [⟨1, 3⟩]]

/-- The directory with these programs. -/
def copiers : Directory := ⟨[(["a"], .file [44, 46]), (["b"], .file [44, 46, 60])]⟩

/-- What `--max-cells 1 a b c` asks for. -/
def copying : Invocation := ⟨["a", "b", "c"], some 1, 1, .zero, .byte, false, false, false⟩

/-- The second of three files fails, with the byte that the first has left. -/
theorem files_in_order_second_fails :
    Invocation.ofArgs ["--max-cells", "1", "a", "b", "c"] = .ok copying ∧ copying.emit = false ∧
      Leaves "0.00" ["--max-cells", "1", "a", "b", "c"] copiers [65, 66, 67] (.status 1) [65, 66]
        [67] := by
  have accepted : Invocation.ofArgs ["--max-cells", "1", "a", "b", "c"] = .ok copying := rfl
  have first : Outcome copying copiers "a" [65, 66, 67] (.status 0) [65] [66, 67] := by
    have relative : "a".startsWith "/" = false := by decide +kernel
    have content : copiers.read "a" = .ok [44, 46] := by
      rw [Directory.read, relative]
      rfl
    have holds : Holds (copiers.read "a") copier := ⟨[44, 46], ",.", content, rfl, rfl⟩
    have performs : Performs copying copier [65, 66, 67] none [65] [66, 67] :=
      ⟨_, Machine.ends_iff_runs.1 ⟨3, rfl⟩, rfl, rfl, rfl⟩
    have compacted : copier.compact 1 = copier := by
      rw [Program.compact_eq]
      rfl
    rw [← compacted] at performs
    exact .success holds rfl performs
  have second : Outcome copying copiers "b" [66, 67] (.status 1) [66] [67] := by
    have relative : "b".startsWith "/" = false := by decide +kernel
    have content : copiers.read "b" = .ok [44, 46, 60] := by
      rw [Directory.read, relative]
      rfl
    have holds : Holds (copiers.read "b") fallingCopier :=
      ⟨[44, 46, 60], ",.<", content, rfl, rfl⟩
    have performs : Performs copying fallingCopier [66, 67] (some (.fault _)) [66] [67] :=
      ⟨_, Machine.ends_iff_runs.1 ⟨3, rfl⟩, rfl, rfl, rfl⟩
    have compacted : fallingCopier.compact 1 = fallingCopier := by
      rw [Program.compact_eq]
      rfl
    rw [← compacted] at performs
    exact .fault holds rfl performs
  have failed : Exit.status 1 ≠ .status 0 := by
    intro h
    cases h
  refine ⟨accepted, rfl, ?_⟩
  exact ((files_in_order accepted rfl "0.00" copiers [65, 66, 67]).2.2.1 _ _ _ failed).2
    ⟨["a"], "b", ["c"], rfl, failed, [[65]], [66, 67], [66], .cons first .nil, second, rfl⟩

/-- A file whose name has a NUL character in it ends the command without a status and without a
message. -/
theorem nul_in_path_escapes :
    ∃ inv, Invocation.ofArgs ["a\x00"] = .ok inv ∧ inv.emit = false ∧
      run Console.stdio 0 "0.00" ["a\x00"] copiers (.ofInput []) =
        some ⟨.crash .nulInPath, .ofInput [], ""⟩ := by
  have accepted : Invocation.ofArgs ["a\x00"] =
      .ok ⟨["a\x00"], some 1, 16777216, .zero, .byte, false, false, false⟩ := rfl
  have handled : Handled Console.stdio 0
      ⟨["a\x00"], some 1, 16777216, .zero, .byte, false, false, false⟩ copiers "a\x00"
      (.ofInput []) ⟨.crash .nulInPath, .ofInput [], []⟩ := .crashed rfl
  refine ⟨_, accepted, rfl, handled.run_stop accepted "0.00" rfl ?_⟩
  intro h
  cases h

end Command

end TapeLang
