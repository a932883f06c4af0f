import TapeLang.Proofs.Batch
import TapeLang.Proofs.Compacting
import TapeLang.Proofs.StreamsInStep

/-!
# Failures of the standard output

Whatever calls to the output fail, and in whatever pattern: a command that runs its files ends with
status one and says why. A command that prints them in compacted form instead does not get to that:
there the failure is not handled at all.

* `Stdio.counted`: streams that count the calls to the output that fail, and otherwise are the same;
  `Counts.follows`: a program runs on them as it does without the count.
* `Tells`: what the failures make of one file; `Handled.counted` is the step from file to file, and
  `Through.counted` says that nothing fails on the files that the command is through.
* `stdout_failures_told`: the whole command.
-/

namespace TapeLang

variable {σ : Type}

/-! ### Streams that count -/

/-- Whether a call to the output has failed. -/
def Call.isOutputFailure : Call → Bool
  | writeFailed | flushFailed => true
  | wrote _ | flushed | received _ | readFailed => false

namespace Stdio

/-- How much an answer adds to the count of failures. -/
def missed : Except String Unit → Nat
  | .ok _ => 0
  | .error _ => 1

/-- The answer of a call to the output, and the count of those that have failed, `n` before. -/
def tally (n : Nat) (r : Except String Unit × σ) : Except String Unit × σ × Nat :=
  (r.1, r.2, n + missed r.1)

/-- The same streams, which also count the calls to the output that have failed. -/
def counted (std : Stdio σ) : Stdio (σ × Nat) where
  write data x := tally x.2 (std.write data x.1)
  flush x := tally x.2 (std.flush x.1)
  read x := ((std.read x.1).1, (std.read x.1).2, x.2)
  writeText text x := tally x.2 (std.writeText text x.1)
  flushText x := tally x.2 (std.flushText x.1)

end Stdio

/-- The streams of the first run are those of the second, and their count is that of the calls that
have failed, from `n` on. -/
structure Counts (n : Nat) (x' : σ × Nat) (calls' : Array Call) (x : σ) (calls : Array Call) :
    Prop where
  streams : x' = (x, n + calls.toList.countP Call.isOutputFailure)
  calls : calls' = calls

namespace Counts

variable {n k : Nat} {x : σ} {calls' calls : Array Call}

/-- After the same call of both runs, which is counted if it is a failure of the output. -/
theorem push (h : Counts n (x, k) calls' x calls) (c : Call) (y : σ) {m : Nat}
    (hm : (if c.isOutputFailure then 1 else 0) = m) :
    Counts n (y, k + m) (calls'.push c) y (calls.push c) := by
  obtain ⟨hk, rfl⟩ := h
  obtain rfl : k = n + calls'.toList.countP Call.isOutputFailure := congrArg Prod.snd hk
  refine ⟨?_, rfl⟩
  rw [Array.toList_push, List.countP_append, List.countP_singleton, hm, Nat.add_assoc]

/-- **Counting changes no answer.** -/
theorem follows (std : Stdio σ) (n : Nat) : Stdio.Follows (Counts n) std.counted std where
  write {x' _ x _} h data := by
    obtain ⟨y, k⟩ := x'
    obtain rfl : y = x := congrArg Prod.fst h.streams
    refine ⟨rfl, h.push _ _ ?_⟩
    rcases (std.write data y).1 with why | u <;> rfl
  flush {x' _ x _} h := by
    obtain ⟨y, k⟩ := x'
    obtain rfl : y = x := congrArg Prod.fst h.streams
    refine ⟨rfl, h.push _ _ ?_⟩
    rcases (std.flush y).1 with why | u <;> rfl
  read {x' _ x _} h := by
    obtain ⟨y, k⟩ := x'
    obtain rfl : y = x := congrArg Prod.fst h.streams
    refine ⟨rfl, h.push (m := 0) _ _ ?_⟩
    rcases (std.read y).1 with why | data <;> rfl

end Counts

/-- A run that succeeds has made no call that failed. -/
theorem Machine.sound_of_run {std : Stdio σ} {cfg : Settings} {p : Program} {tape : Tape} {x : σ}
    {fuel : Nat} {s : State σ}
    (ends : (start p (.start tape x)).run std.device cfg fuel = some ⟨none, s⟩) :
    s.calls.toList.countP Call.isOutputFailure = 0 := by
  have canFlush : std.device.flush?.isSome = true := rfl
  have hasInput : std.device.read?.isSome = true := rfl
  obtain ⟨said, hsaid, speaks⟩ :=
    (start p (.start tape x)).speaks_after canFlush hasInput cfg fuel
  rw [after_of_run ends] at hsaid speaks
  obtain rfl : s.calls.toList = said := hsaid
  cases speaks with
  | finished sound _ =>
    refine List.countP_eq_zero.2 fun c hc hfailed => ?_
    have := sound c hc
    cases c with
    | writeFailed | flushFailed => cases this
    | _ => cases hfailed

namespace Command

variable {std : Stdio σ} {fuel : Nat} {inv : Invocation} {dir : Directory} {path : String}

/-! ### Messages -/

/-- What is said of a file whose run or last flush has failed. -/
inductive Blames (path : String) : String → Prop where
  | run (err : RuntimeError) : Blames path ("\n" ++ path ++ ": " ++ err.message)
  | flush (why : String) : Blames path (path ++ ": failed to flush output: " ++ why)

/-- A text among the messages is a line of the error output. -/
theorem stderrOf_of_mem (inv : Invocation) (ms : String) {text : String} {told : List Message}
    (h : .text text ∈ told) :
    ∃ front back, stderrOf inv ms told = front ++ (text ++ "\n") ++ back := by
  obtain ⟨front, back, rfl⟩ := List.append_of_mem h
  refine ⟨stderrOf inv ms front, stderrOf inv ms back, ?_⟩
  simp only [stderrOf, List.map_append, List.map_cons, String.join_append, String.join_cons,
    Message.render, String.append_assoc]

/-- All that is said of a run is its error, its tape and its counts. -/
theorem conclude_congr {σ' : Type} {e' : Ending σ'} {e : Ending σ}
    {R : σ' → Array Call → σ → Array Call → Prop} (same : e'.Alike (State.InStep R) e)
    (error? : Option RuntimeError) (flushed : Except String Unit) :
    conclude inv path e' error? flushed = conclude inv path e error? flushed := by
  obtain ⟨failure, tape, steps, growths, -⟩ := same
  simp only [conclude, noticesOf, Ending.allNotices, Ending.notices, failure, tape, steps, growths]

/-- An error of the run or a failure of the flush is blamed. -/
theorem conclude_eq (inv : Invocation) (path : String) (e : Ending σ)
    (error? : Option RuntimeError) (flushed : Except String Unit) :
    (error? = none ∧ Stdio.missed flushed = 0 ∧ (conclude inv path e error? flushed).1 = 0) ∨
      (conclude inv path e error? flushed).1 = 1 ∧
        ∃ text, Blames path text ∧ .text text ∈ (conclude inv path e error? flushed).2 := by
  unfold conclude
  rcases error? with _ | err <;> rcases flushed with why | u
  · exact .inr ⟨rfl, _, .flush why, by simp⟩
  · exact .inl ⟨rfl, rfl, rfl⟩
  · exact .inr ⟨rfl, _, .run err, by simp⟩
  · exact .inr ⟨rfl, _, .run err, by simp⟩

/-! ### One file -/

/-- What `failed` failures of the output make of a file: how the command goes on and what it
tells. -/
inductive Tells (inv : Invocation) (path : String) : Nat → Exit → List Message → Prop where
  | sound {code : Nat} {told : List Message} (le : code ≤ 1) : Tells inv path 0 (.status code) told
  | nul {told : List Message} (nul : '\x00' ∈ path.toList) :
      Tells inv path 0 (.crash .nulInPath) told
  | levelless {told : List Message} (none : inv.level = none) :
      Tells inv path 0 (.crash (.noValue .level)) told
  | blamed {failed : Nat} {text : String} {told : List Message} (running : inv.emit = false)
      (blames : Blames path text) (said : .text text ∈ told) :
      Tells inv path failed (.status 1) told
  | unwritten {why : String} {told : List Message} (printing : inv.emit = true) :
      Tells inv path 1 (.crash (.unwritten why)) told

namespace Tells

variable {failed : Nat} {exit : Exit} {told : List Message}

/-- A command that runs the file says that it has failed. -/
theorem running (h : Tells inv path failed exit told) (running : inv.emit = false)
    (pos : 0 < failed) :
    exit = .status 1 ∧ ∃ text, Blames path text ∧ .text text ∈ told := by
  cases h with
  | sound | nul | levelless => exact absurd pos (lt_irrefl 0)
  | blamed _ blames said => exact ⟨rfl, _, blames, said⟩
  | unwritten printing => exact absurd (running.symm.trans printing) Bool.false_ne_true

/-- A command that prints the file does not handle the failure. -/
theorem printing (h : Tells inv path failed exit told) (printing : inv.emit = true)
    (pos : 0 < failed) : ∃ why, exit = .crash (.unwritten why) := by
  cases h with
  | sound | nul | levelless => exact absurd pos (lt_irrefl 0)
  | blamed running => exact absurd (running.symm.trans printing) Bool.false_ne_true
  | unwritten => exact ⟨_, rfl⟩

theorem exit_cases (h : Tells inv path failed exit told) :
    exit = .status 0 ∨ exit = .status 1 ∨
      (∃ why, exit = .crash (.unwritten why)) ∧ inv.emit = true ∧ 0 < failed ∨
      exit = .crash .nulInPath ∧ '\x00' ∈ path.toList ∨
      exit = .crash (.noValue .level) ∧ inv.level = none := by
  cases h with
  | sound le =>
    obtain rfl | rfl := Nat.le_one_iff_eq_zero_or_eq_one.1 le
    · exact .inl rfl
    · exact .inr (.inl rfl)
  | nul nul => exact .inr (.inr (.inr (.inl ⟨rfl, nul⟩)))
  | levelless none => exact .inr (.inr (.inr (.inr ⟨rfl, none⟩)))
  | blamed => exact .inr (.inl rfl)
  | unwritten printing => exact .inr (.inr (.inl ⟨⟨_, rfl⟩, printing, one_pos⟩))

/-- What has been told before does not matter. -/
theorem prepend (h : Tells inv path failed exit told) (front : List Message) :
    Tells inv path failed exit (front ++ told) := by
  cases h with
  | sound le => exact .sound le
  | nul nul => exact .nul nul
  | levelless none => exact .levelless none
  | blamed running blames said => exact .blamed running blames (List.mem_append_right _ said)
  | unwritten printing => exact .unwritten printing

end Tells

/-- **One file, on streams that count**: all is as on the streams themselves, and what the command
tells goes with the count. -/
theorem Handled.counted (cells : 0 < inv.maxCells) {x : σ} {r : Report σ}
    (h : Handled std fuel inv dir path x r) (n : Nat) :
    ∃ failed, Tells inv path failed r.exit r.messages ∧
      Handled std.counted fuel inv dir path (x, n)
        ⟨r.exit, (r.streams, n + failed), r.messages⟩ := by
  have planned := planned_prepare inv path (dir.read path)
  cases h with
  | rejected plan => exact ⟨0, .sound le_rfl, .rejected plan⟩
  | crashed plan =>
    refine ⟨0, ?_, .crashed plan⟩
    rw [plan] at planned
    cases planned with
    | nul nul => exact .nul (Directory.read_eq_nul_iff.1 nul)
    | levelless _ none => exact .levelless none
  | @printed text _ y plan written =>
    have hwritten : std.counted.writeText text (x, n) = (.ok (), y, n) := by
      simp only [Stdio.counted, written, Stdio.tally, Stdio.missed, Nat.add_zero]
    exact ⟨0, .sound zero_le_one, .printed plan hwritten⟩
  | @unprinted text why _ y plan unwritten =>
    have hunwritten : std.counted.writeText text (x, n) = (.error why, y, n + 1) := by
      simp only [Stdio.counted, unwritten, Stdio.tally, Stdio.missed]
    rw [plan] at planned
    cases planned with
    | print _ _ printing _ => exact ⟨1, .unwritten printing, .unprinted plan hunwritten⟩
  | escaped plan ends unsettled =>
    rw [plan] at planned
    cases planned with
    | run holds =>
      obtain ⟨error?, settled⟩ := holds.exists_settle cells ends
      cases unsettled.symm.trans settled
  | @ran p told e error? flushed y plan ends settled flush =>
    have start : Counts n (x, n) #[] x #[] := ⟨rfl, rfl⟩
    obtain ⟨e', ends', same⟩ := (Counts.follows std n).exists_run start ends
    have flush' : std.counted.flushText e'.state.streams = (flushed, y,
        n + (e.state.calls.toList.countP Call.isOutputFailure + Stdio.missed flushed)) := by
      rw [same.2.streams.streams]
      simp only [Stdio.counted, flush, Stdio.tally, Nat.add_assoc]
    have settled' : settle e' = .ok error? :=
      settle_eq_ok.2 (same.1.trans (settle_eq_ok.1 settled))
    have handled := Handled.ran plan ends' settled' flush'
    rw [conclude_congr same] at handled
    refine ⟨_, ?_, handled⟩
    rcases conclude_eq inv path e error? flushed with ⟨rfl, kept, status⟩ |
      ⟨status, text, blames, said⟩
    · obtain ⟨failure, s⟩ := e
      cases settle_eq_ok.1 settled
      rw [Machine.sound_of_run ends, kept, status]
      exact .sound zero_le_one
    · rw [plan] at planned
      rw [status]
      cases planned with
      | run _ _ running => exact .blamed running blames (List.mem_append_right _ said)

/-! ### All files -/

/-- No call has failed on the files that the command is through. -/
theorem Through.counted (cells : 0 < inv.maxCells) {files : List String} {x y : σ}
    {told : List Message} (h : Through std fuel inv dir files x y told) (n : Nat) :
    Through std.counted fuel inv dir files (x, n) (y, n) told := by
  induction h with
  | nil => exact .nil
  | cons first _ ih =>
    obtain ⟨failed, tells, handled⟩ := first.counted cells n
    cases tells with
    | sound => exact .cons handled ih

/-- **All files, on streams that count.** What fails does so on the file that stops the command. -/
theorem runPaths_counted (cells : 0 < inv.maxCells) {files : List String} {x : σ} {r : Report σ}
    (h : runPaths std fuel inv dir x files = some r) (n : Nat) :
    ∃ failed, runPaths std.counted fuel inv dir (x, n) files =
        some ⟨r.exit, (r.streams, n + failed), r.messages⟩ ∧
      (failed = 0 ∧ r.exit = .status 0 ∨
        ∃ path ∈ files, Tells inv path failed r.exit r.messages) := by
  rcases runPaths_iff.1 h with ⟨exit, through⟩ | ⟨before, path, after, rfl, stops⟩
  · exact ⟨0, runPaths_iff.2 (.inl ⟨exit, through.counted cells n⟩), .inl ⟨rfl, exit⟩⟩
  · obtain ⟨y, told, last, through, handled, heq⟩ := stops.reached
    obtain ⟨failed, tells, handled'⟩ := handled.counted cells n
    refine ⟨failed, runPaths_iff.2 (.inr ⟨before, path, after, rfl, stops.failed, (y, n), told,
      last, through.counted cells n, handled', heq⟩), .inr ⟨path, by simp, ?_⟩⟩
    rw [heq]
    exact tells.prepend told

/-- **What comes of failures of the output**, whatever calls fail. The command is over unless one of
its programs never is. Its calls that fail can be counted without a change to anything else, and if
there are any, a command that runs its files ends with status one and names the file on the error
output. A command that prints its files ends without a status then. -/
theorem stdout_failures_told {args : List String} (accepted : Invocation.ofArgs args = .ok inv)
    (std : Stdio σ) (ms : String) (dir : Directory) (x : σ) :
    ((∃ fuel r, run std fuel ms args dir x = some r) ↔ ¬ Hangs std inv dir inv.files x) ∧
      ∀ fuel r, run std fuel ms args dir x = some r →
        ∃ failed, run std.counted fuel ms args dir (x, 0) =
            some ⟨r.exit, (r.streams, failed), r.stderr⟩ ∧
          (inv.emit = false → 0 < failed → r.exit = .status 1 ∧
            ∃ path ∈ inv.files, ∃ text front back, Blames path text ∧
              r.stderr = front ++ (text ++ "\n") ++ back) ∧
          (inv.emit = true → 0 < failed → ∃ why, r.exit = .crash (.unwritten why)) ∧
          (r.exit = .status 0 ∨ r.exit = .status 1 ∨
            (∃ why, r.exit = .crash (.unwritten why)) ∧ inv.emit = true ∧ 0 < failed ∨
            r.exit = .crash .nulInPath ∧ (∃ path ∈ inv.files, '\x00' ∈ path.toList) ∨
            r.exit = .crash (.noValue .level) ∧ inv.level = none) := by
  refine ⟨exists_run_iff accepted, fun fuel r h => ?_⟩
  obtain ⟨exit, y, stderr⟩ := r
  obtain ⟨told, hpaths, rfl : stderr = stderrOf inv ms told⟩ := (run_iff accepted).1 h
  obtain ⟨failed, hcounted, htells⟩ := runPaths_counted (Invocation.maxCells_pos accepted) hpaths 0
  rw [Nat.zero_add] at hcounted
  refine ⟨failed, (run_iff accepted).2 ⟨told, hcounted, rfl⟩, ?_⟩
  rcases htells with ⟨rfl, rfl : exit = .status 0⟩ | ⟨path, hpath, tells⟩
  · exact ⟨fun _ h => absurd h (lt_irrefl 0), fun _ h => absurd h (lt_irrefl 0), .inl rfl⟩
  refine ⟨fun running pos => ?_, tells.printing, ?_⟩
  · obtain ⟨hexit, text, blames, said⟩ := tells.running running pos
    obtain ⟨front, back, hstderr⟩ := stderrOf_of_mem inv ms said
    exact ⟨hexit, path, hpath, text, front, back, blames, hstderr⟩
  · exact tells.exit_cases.imp_right <| .imp_right <| .imp_right <| .imp_left
      fun ⟨hexit, nul⟩ => ⟨hexit, path, hpath, nul⟩

/-- A directory with one file, whose program prints a byte. -/
def onePrinter : Directory := ⟨[(["p"], .file [46])]⟩

theorem read_onePrinter : onePrinter.read "p" = .ok [46] := by
  have relative : "p".startsWith "/" = false := by decide +kernel
  rw [Directory.read, relative]
  rfl

theorem compact_onePrinter :
    Program.compact 1 [.output (some ⟨1, 1⟩)] = [.output (some ⟨1, 1⟩)] := by
  rw [Program.compact_eq]
  rfl

/-- A console to which nothing can be written. -/
def fullConsole : Console := .ofFaults [] ⟨some "full", none, none, some "closed"⟩

/-- Two calls fail on one file, a write and the last flush. -/
theorem stdout_failures_told_twice :
    ∃ inv y stderr, Invocation.ofArgs ["--max-cells", "1", "p"] = .ok inv ∧ inv.emit = false ∧
      run Console.stdio.counted 1 "0.00" ["--max-cells", "1", "p"] onePrinter (fullConsole, 0) =
        some ⟨.status 1, (y, 2), stderr⟩ ∧
      ∃ path ∈ inv.files, ∃ text front back, Blames path text ∧
        stderr = front ++ (text ++ "\n") ++ back := by
  have accepted : Invocation.ofArgs ["--max-cells", "1", "p"] =
      .ok ⟨["p"], some 1, 1, .zero, .byte, false, false, false⟩ := rfl
  have holds : Holds (onePrinter.read "p") [.output (some ⟨1, 1⟩)] :=
    ⟨[46], ".", read_onePrinter, rfl, rfl⟩
  obtain ⟨notices, plan⟩ : ∃ notices, prepare ⟨["p"], some 1, 1, .zero, .byte, false, false, false⟩
      "p" (onePrinter.read "p") = (.run (Program.compact 1 _), notices) :=
    prepare_run holds rfl rfl
  rw [compact_onePrinter] at plan
  have handled : Handled Console.stdio 1 _ onePrinter "p" fullConsole _ := .ran plan rfl rfl rfl
  have handled' : Handled Console.stdio.counted 1 _ onePrinter "p" (fullConsole, 0) _ :=
    .ran plan rfl rfl rfl
  have failed : Exit.status 1 ≠ .status 0 := by
    intro h
    cases h
  obtain ⟨failures, counted, told, -⟩ :=
    (stdout_failures_told accepted Console.stdio "0.00" onePrinter fullConsole).2 _ _
      (handled.run_stop accepted "0.00" rfl failed)
  have same := run_unique accepted (handled'.run_stop accepted "0.00" rfl failed) counted
  obtain rfl : failures = 2 := congrArg (fun r => r.streams.2) same
  exact ⟨_, _, _, accepted, rfl, counted, (told rfl Nat.two_pos).2⟩

/-- A text that cannot be printed ends the command without a status and without a message. -/
theorem print_failure_escapes :
    ∃ inv, Invocation.ofArgs ["--emit", "p"] = .ok inv ∧
      run Console.stdio 0 "0.00" ["--emit", "p"] onePrinter fullConsole =
        some ⟨.crash (.unwritten "full"), fullConsole, ""⟩ := by
  have accepted : Invocation.ofArgs ["--emit", "p"] =
      .ok ⟨["p"], some 1, 16777216, .zero, .byte, true, false, false⟩ := rfl
  have plan : prepare ⟨["p"], some 1, 16777216, .zero, .byte, true, false, false⟩ "p"
      (onePrinter.read "p") = (.print ".\n",
        [.notice (.compacted 1 1 .loops), .notice .loaded, .notice (.compiled "p")]) := by
    have decoded : Text.Encoding.utf8.read [46] = .ok "." := rfl
    have parsed : Program.parse "." = .ok [.output (some ⟨1, 1⟩)] := rfl
    simp only [prepare, read_onePrinter, decoded, parsed, Program.ready, compact_onePrinter]
    rfl
  have unwritten : Console.stdio.writeText ".\n" fullConsole = (.error "full", fullConsole) := by
    have bytes : ".\n".toUTF8.toList = [46, 10] := by decide +kernel
    simp only [Console.stdio, Console.writeText, bytes]
    rfl
  have handled : Handled Console.stdio 0 _ onePrinter "p" fullConsole _ :=
    .unprinted plan unwritten
  refine ⟨_, accepted, handled.run_stop accepted "0.00" rfl ?_⟩
  intro h
  cases h

end Command

end TapeLang
