import TapeLang.Proofs.History
import TapeLang.Streams.Scripted
import Mathlib.Computability.RegularExpressions

/-!
# The protocol of the stream calls

Output is one write, input a flush and then a read, and no other instruction makes a call; a program
that is finished makes one last flush. So a run that succeeds says a word of `Call.protocol`, and it
says no more than the beginning of one as long as it is under way. A call that fails is the last
one.

* `Call.Answer`: the calls that were due, made up to the first that failed. It is shown for each
  action on the streams, and for input from those of its two calls.
* `Progress.Speaks`: what has been said to the streams on the way to a point of a run;
  `Machine.speaks_after`: this is so at every point, turn by turn.
* `Call.flush_before_read`: among the calls that are due, each read comes right behind a flush.
* `calls_keep_protocol`: what is said to the streams in any run.
-/

namespace TapeLang

/-! ### Calls -/

/-- The kinds of stream calls. -/
inductive Call.Kind where
  | write
  | flush
  | read
deriving DecidableEq

/-- The calls that an instruction makes, if none of them fails. -/
def Instr.calls : Instr → List Call.Kind
  | output _ => [.write]
  | input _ => [.flush, .read]
  | moveLeft .. | moveRight .. | add .. | sub .. | set .. | loop .. | unknown _ => []

namespace Call

/-- The kind of a call. -/
def kind : Call → Kind
  | wrote _ | writeFailed => .write
  | flushed | flushFailed => .flush
  | received _ | readFailed => .read

/-- Whether a call has failed. -/
def isFailed : Call → Bool
  | writeFailed | flushFailed | readFailed => true
  | wrote _ | flushed | received _ => false

/-- All that a program says to the streams: writes, and reads each behind a flush, in any order, and
a flush at the end. -/
def protocol : RegularExpression Kind :=
  .star (.char .write + .char .flush * .char .read) * .char .flush

/-- The calls that are due when instructions are met. -/
def due (met : List Instr) : List Kind := met.flatMap Instr.calls

/-- None of the calls has failed. -/
def Sound (said : List Call) : Prop := ∀ c ∈ said, c.isFailed = false

theorem due_append (met more : List Instr) : due (met ++ more) = due met ++ due more :=
  List.flatMap_append

theorem due_singleton (i : Instr) : due [i] = i.calls := List.flatMap_singleton _ _

theorem due_prefix {met more : List Instr} (h : met <+: more) : due met <+: due more := by
  obtain ⟨rest, rfl⟩ := h
  rw [due_append]
  exact List.prefix_append _ _

theorem Sound.append {said more : List Call} (h : Sound said) (h' : Sound more) :
    Sound (said ++ more) := by
  intro c hc
  rcases List.mem_append.1 hc with hc | hc
  · exact h c hc
  · exact h' c hc

/-- The calls of instructions, and a last flush, are a word of the protocol. -/
theorem due_mem_protocol (met : List Instr) : due met ++ [.flush] ∈ protocol.matches' := by
  have turns : due met ∈ (RegularExpression.star
      (.char Kind.write + .char .flush * .char .read)).matches' := by
    induction met with
    | nil => exact Language.nil_mem_kstar _
    | cons i met ih =>
      obtain ⟨words, hwords, each⟩ := Language.mem_kstar.1 ih
      -- an instruction without calls adds no word, the others one each
      rcases hi : i.calls with _ | ⟨k, ks⟩
      · refine Language.mem_kstar.2 ⟨words, ?_, each⟩
        rw [← hwords, due, List.flatMap_cons, hi]
        rfl
      · refine Language.mem_kstar.2 ⟨i.calls :: words, ?_, ?_⟩
        · rw [List.flatten_cons, ← hwords]
          rfl
        · intro w hw
          rcases List.mem_cons.1 hw with rfl | hw
          · cases i with
            | output => exact .inl rfl
            | input => exact .inr ⟨[.flush], rfl, [.read], rfl, rfl⟩
            | _ => cases hi
          · exact each w hw
  exact ⟨due met, turns, [.flush], rfl, rfl⟩

/-- Each read comes right behind a flush. -/
theorem flush_before_read (met : List Instr) {front back : List Kind}
    (h : due met ++ [.flush] = front ++ .read :: back) :
    ∃ earlier, front = earlier ++ [.flush] := by
  induction met generalizing front with
  | nil => rcases front with _ | ⟨k, _ | ⟨l, front⟩⟩ <;> cases h
  | cons i met ih =>
    rw [due, List.flatMap_cons, List.append_assoc] at h
    cases i with
    | output =>
      rcases front with _ | ⟨k, front⟩
      · cases h
      · obtain ⟨rfl, tail⟩ := List.cons.inj h
        obtain ⟨earlier, rfl⟩ := ih tail
        exact ⟨_ :: earlier, rfl⟩
    | input =>
      rcases front with _ | ⟨k, _ | ⟨l, front⟩⟩
      · cases h
      · obtain ⟨rfl, -⟩ := List.cons.inj h
        exact ⟨[], rfl⟩
      · obtain ⟨rfl, rest⟩ := List.cons.inj h
        obtain ⟨rfl, tail⟩ := List.cons.inj rest
        obtain ⟨earlier, rfl⟩ := ih tail
        exact ⟨_ :: _ :: earlier, rfl⟩
    | _ => exact ih h

/-- How the calls `said` answer to those that were due: all were made and succeeded, or one of them
failed and was the last one made. Only then the failure that follows is one of the streams. -/
inductive Answer (due : List Kind) : List Call → Option RuntimeError.Category → Prop where
  | made {said : List Call} {family : Option RuntimeError.Category} (sound : Sound said)
      (kinds : said.map kind = due) (other : family ≠ some .stream) : Answer due said family
  | broken {front : List Call} {c : Call} (sound : Sound front) (failed : c.isFailed = true)
      (kinds : (front ++ [c]).map kind <+: due) : Answer due (front ++ [c]) (some .stream)

end Call

/-! ### Actions -/

variable {σ : Type} {dev : Device σ} {cfg : Settings}

/-- The calls that were due have been answered on the way from `s` to `t`. -/
def State.Answers (due : List Call.Kind) (s t : State σ) (family : Option RuntimeError.Category) :
    Prop :=
  ∃ said, t.calls.toList = s.calls.toList ++ said ∧ Call.Answer due said family

namespace State.Answers

variable {s t u : State σ} {due more : List Call.Kind} {family : Option RuntimeError.Category}

theorem none_due (h : t.calls = s.calls) (other : family ≠ some .stream) :
    s.Answers [] t family := by
  refine ⟨[], by rw [h, List.append_nil], .made ?_ rfl other⟩
  exact fun c hc => (List.not_mem_nil hc).elim

/-- A call that has succeeded. -/
theorem call_made {c : Call} (h : c.isFailed = false) (x : σ) :
    s.Answers [c.kind] (s.record c x) none := by
  refine ⟨[c], Array.toList_push, .made ?_ rfl nofun⟩
  intro d hd
  rw [List.mem_singleton.1 hd, h]

/-- A call that has failed. -/
theorem call_broken {c : Call} (h : c.isFailed = true) (x : σ) :
    s.Answers [c.kind] (s.record c x) (some .stream) := by
  have sound : Call.Sound [] := fun d hd => (List.not_mem_nil hd).elim
  exact ⟨[c], Array.toList_push, .broken sound h List.prefix_rfl⟩

/-- What becomes of the tape is not said to the streams. -/
theorem of_calls (h : s.Answers due t family) (same : u.calls = t.calls) :
    s.Answers due u family := by
  obtain ⟨said, hsaid, ha⟩ := h
  exact ⟨said, by rw [same, hsaid], ha⟩

/-- One thing after the other, if the first has not failed. -/
theorem append (h : s.Answers due t none) (h' : t.Answers more u family) :
    s.Answers (due ++ more) u family := by
  obtain ⟨said, hsaid, ha⟩ := h
  obtain ⟨said', hsaid', ha'⟩ := h'
  cases ha with
  | made sound kinds _ =>
    refine ⟨said ++ said', by rw [hsaid', hsaid, List.append_assoc], ?_⟩
    cases ha' with
    | made sound' kinds' other =>
      exact .made (sound.append sound') (by rw [List.map_append, kinds, kinds']) other
    | @broken front c sound' failed kinds' =>
      rw [← List.append_assoc]
      refine .broken (sound.append sound') failed ?_
      rw [List.append_assoc, List.map_append, kinds]
      exact List.prefix_append_right_inj due |>.2 kinds'

/-- A call that fails cuts off all that was to follow. -/
theorem cut (h : s.Answers due t (some .stream)) (more : List Call.Kind) :
    s.Answers (due ++ more) t (some .stream) := by
  obtain ⟨said, hsaid, ha⟩ := h
  refine ⟨said, hsaid, ?_⟩
  cases ha with
  | made _ _ other => exact absurd rfl other
  | broken sound failed kinds => exact .broken sound failed (kinds.trans (List.prefix_append _ _))

end State.Answers

namespace State

theorem answers_move (s : State σ) (d : Int) :
    s.Answers [] (s.move d).2 ((s.move d).1.map Fault.category) := by
  unfold move Tape.move
  simp only
  split_ifs <;> exact .none_due rfl nofun

theorem answers_write (dev : Device σ) (data : List UInt8) (s : State σ) :
    s.Answers [.write] (s.write dev data).2 ((s.write dev data).1.map Fault.category) := by
  unfold write
  rcases dev.write data s.streams with ⟨_ | _, x⟩
  · exact .call_broken rfl x
  · exact .call_made rfl x

/-- Where output can be flushed, a flush is a call that succeeds or fails. -/
theorem flush_cases (canFlush : dev.flush?.isSome = true) (s : State σ) :
    (∃ t, s.flush dev = (none, t) ∧ s.Answers [.flush] t none) ∨
      ∃ f t, s.flush dev = (some f, t) ∧ f.category = .stream ∧
        s.Answers [.flush] t (some .stream) := by
  obtain ⟨flush, hflush⟩ := Option.isSome_iff_exists.1 canFlush
  unfold State.flush
  simp only [hflush]
  rcases flush s.streams with ⟨reason | _, x⟩
  · exact .inr ⟨_, _, rfl, rfl, .call_broken rfl x⟩
  · exact .inl ⟨_, rfl, .call_made rfl x⟩

theorem answers_endOfInput (policy : EofPolicy) (s : State σ) :
    s.Answers [] (s.endOfInput policy).2 ((s.endOfInput policy).1.map Fault.category) := by
  cases policy <;> exact .none_due rfl nofun

theorem answers_read (hasInput : dev.read?.isSome = true) (policy : EofPolicy) (s : State σ) :
    s.Answers [.read] (s.read dev policy).2 ((s.read dev policy).1.map Fault.category) := by
  obtain ⟨read, hread⟩ := Option.isSome_iff_exists.1 hasInput
  unfold State.read
  simp only [hread]
  rcases read s.streams with ⟨_ | _ | ⟨b, data⟩, x⟩
  · exact .call_broken rfl x
  · exact (State.Answers.call_made rfl x).append (answers_endOfInput policy _)
  · exact (State.Answers.call_made (c := .received (b :: data)) rfl x).of_calls rfl

/-- Input flushes and then reads, but does not read if it cannot flush. -/
theorem answers_input (canFlush : dev.flush?.isSome = true) (hasInput : dev.read?.isSome = true)
    (policy : EofPolicy) (s : State σ) :
    s.Answers [.flush, .read] (s.input dev policy).2
      ((s.input dev policy).1.map Fault.category) := by
  unfold State.input
  rcases flush_cases canFlush s with ⟨t, hr, hflush⟩ | ⟨f, t, hr, hf, hflush⟩
  · rw [hr]
    exact hflush.append (answers_read hasInput policy t)
  · simp only [hr, Option.map_some, hf]
    exact hflush.cut [.read]

end State

theorem Instr.answers_attempt (canFlush : dev.flush?.isSome = true)
    (hasInput : dev.read?.isSome = true) (cfg : Settings) (i : Instr) (s : State σ) :
    s.Answers i.calls (i.attempt dev cfg s).2 ((i.attempt dev cfg s).1.map Fault.category) := by
  cases i with
  | moveLeft n p t => exact s.answers_move (-n)
  | moveRight n p t => exact s.answers_move n
  | output p => exact s.answers_write dev _
  | input p => exact s.answers_input canFlush hasInput cfg.eof
  | _ => exact .none_due rfl nofun

/-- **An instruction makes the calls that are due**, up to one that fails. -/
theorem Instr.answers_act (canFlush : dev.flush?.isSome = true)
    (hasInput : dev.read?.isSome = true) (cfg : Settings) (i : Instr) (s : State σ) :
    s.Answers i.calls (i.act dev cfg s).2 ((i.act dev cfg s).1.bind Failure.category?) := by
  by_cases hu : ∃ n, i = .unknown n
  · obtain ⟨n, rfl⟩ := hu
    exact .none_due rfl nofun
  have h := i.answers_attempt canFlush hasInput cfg s
  rcases hr : i.attempt dev cfg s with ⟨_ | f, t⟩
  · rw [hr] at h
    rw [act_of_none hu hr]
    exact h
  · rw [hr] at h
    rw [act_of_some hu hr]
    exact h

/-! ### Runs -/

/-- What has been said to the streams at a point of a run, where the instructions `met` have been
met on the way. -/
inductive Progress.Speaks (met : List Instr) (said : List Call) : Progress σ → Prop where
  /-- A run that goes on has made the calls of all the instructions. -/
  | underway {m : Machine σ} (sound : Call.Sound said) (kinds : said.map Call.kind = Call.due met) :
      Speaks met said (.running m)
  /-- A run that succeeds has made them, and a last flush. -/
  | finished {s : State σ} (sound : Call.Sound said)
      (kinds : said.map Call.kind = Call.due met ++ [.flush]) : Speaks met said (.ended ⟨none, s⟩)
  /-- A failure that is not one of the streams comes behind the calls of an instruction. -/
  | stopped {f : Failure} {s : State σ} (sound : Call.Sound said)
      (kinds : said.map Call.kind = Call.due met) (other : f.category? ≠ some .stream) :
      Speaks met said (.ended ⟨some f, s⟩)
  /-- A call that fails is the last one, either of the last instruction or of the program, and makes
  the run fail. -/
  | broken {f : Failure} {s : State σ} {front : List Call} {c : Call} (last : said = front ++ [c])
      (sound : Call.Sound front) (failed : c.isFailed = true)
      (behind : Call.due met.dropLast <+: said.map Call.kind)
      (within : said.map Call.kind <+: Call.due met ++ [.flush])
      (stream : f.category? = some .stream) : Speaks met said (.ended ⟨some f, s⟩)

namespace Progress.Speaks

variable {met : List Instr} {said front back : List Call} {c : Call} {r : Progress σ}

/-- What is said later comes behind what is said before. -/
theorem prepend {first : List Instr} {before : List Call} (sound : Call.Sound before)
    (kinds : before.map Call.kind = Call.due first) (h : r.Speaks met said) :
    r.Speaks (first ++ met) (before ++ said) := by
  cases h with
  | underway sound' kinds' =>
    exact .underway (sound.append sound') (by rw [List.map_append, kinds, kinds', Call.due_append])
  | finished sound' kinds' =>
    refine .finished (sound.append sound') ?_
    rw [List.map_append, kinds, kinds', Call.due_append, List.append_assoc]
  | stopped sound' kinds' other =>
    exact .stopped (sound.append sound')
      (by rw [List.map_append, kinds, kinds', Call.due_append]) other
  | @broken f s front c last sound' failed behind within stream =>
    have hlast : before ++ said = before ++ front ++ [c] := by rw [last, List.append_assoc]
    refine .broken hlast (sound.append sound') failed ?_ ?_ stream
    · rw [List.map_append, kinds]
      rcases List.eq_nil_or_concat met with rfl | ⟨init, i, rfl⟩
      · -- the last instruction is the last of `first`, all of whose calls were made
        rw [List.append_nil]
        exact (Call.due_prefix (List.dropLast_prefix first)).trans (List.prefix_append _ _)
      · rw [List.concat_eq_append, ← List.append_assoc, List.dropLast_concat, Call.due_append]
        rw [List.concat_eq_append, List.dropLast_concat] at behind
        exact (List.prefix_append_right_inj _).2 behind
    · rw [List.map_append, kinds, Call.due_append, List.append_assoc]
      exact (List.prefix_append_right_inj _).2 within

theorem kinds_prefix (h : r.Speaks met said) :
    said.map Call.kind <+: Call.due met ++ [.flush] := by
  cases h with
  | underway _ kinds => exact ⟨_, by rw [kinds]⟩
  | finished _ kinds => exact ⟨[], by rw [kinds, List.append_nil]⟩
  | stopped _ kinds => exact ⟨_, by rw [kinds]⟩
  | broken _ _ _ _ within => exact within

/-- **No stream is touched after a failure.** -/
theorem nothing_behind_failed (h : r.Speaks met said) (split : said = front ++ c :: back)
    (failed : c.isFailed = true) : back = [] := by
  have sound_front : ∀ {init : List Call}, Call.Sound init → c ∉ init := by
    intro init sound hc
    rw [sound c hc] at failed
    cases failed
  have hc : c ∈ said := by simp [split]
  cases h with
  | underway sound | finished sound | stopped sound => exact absurd hc (sound_front sound)
  | @broken _ _ init d last sound =>
    rcases List.eq_nil_or_concat back with rfl | ⟨more, b, rfl⟩
    · rfl
    · have hinit : front ++ c :: more ++ [b] = init ++ [d] := by
        rw [← last, split, List.concat_eq_append, List.append_assoc, List.cons_append]
      obtain ⟨rfl, -⟩ := List.append_inj' hinit rfl
      exact absurd (by simp) (sound_front sound)

/-- **No read happens with unflushed writes before it.** -/
theorem flushed_before_read (h : r.Speaks met said) (split : said = front ++ c :: back)
    (read : c.kind = .read) : ∃ earlier, front = earlier ++ [.flushed] := by
  obtain ⟨rest, hrest⟩ := h.kinds_prefix
  rw [split, List.map_append, List.map_cons, read, List.append_assoc, List.cons_append] at hrest
  obtain ⟨earlier, hearlier⟩ := Call.flush_before_read met hrest.symm
  obtain ⟨init, last, rfl, -, hlast⟩ := List.map_eq_append_iff.1 hearlier
  obtain ⟨d, rfl, hd⟩ : ∃ d, last = [d] ∧ d.kind = .flush := by
    simpa [List.map_eq_cons_iff] using hlast
  have hsplit : said = init ++ d :: (c :: back) := by
    rw [split, List.append_assoc]
    rfl
  cases d with
  | flushed => exact ⟨init, rfl⟩
  | flushFailed => cases h.nothing_behind_failed hsplit rfl
  | _ => cases hd

end Progress.Speaks

namespace Machine

/-- A transition that does not end the run makes the calls of the instruction it meets. -/
theorem answers_running (canFlush : dev.flush?.isSome = true) (hasInput : dev.read?.isSome = true)
    {m m' : Machine σ} (h : m.step dev cfg = .running m') :
    m.state.Answers (Call.due (m.moment?.toList.map Moment.instr)) m'.state none := by
  rcases running_cases h with ⟨hm, hs⟩ | ⟨i, hm, hact⟩
  · rw [hm, hs]
    exact .none_due rfl nofun
  · have ha := i.answers_act canFlush hasInput cfg m.state.tick
    rw [hact] at ha
    rw [hm, Option.toList_some, List.map_singleton, Call.due_singleton]
    exact ha

/-- A transition that ends the run: the last flush, or the calls of an instruction that fails. -/
theorem speaks_ended (canFlush : dev.flush?.isSome = true) (hasInput : dev.read?.isSome = true)
    {m : Machine σ} {e : Ending σ} (h : m.step dev cfg = .ended e) :
    ∃ said, e.state.calls.toList = m.state.calls.toList ++ said ∧
      (Progress.ended e).Speaks (m.moment?.toList.map Moment.instr) said := by
  rcases ended_cases h with ⟨hm, rfl⟩ | ⟨i, f, t, hm, hact, rfl⟩
  · unfold finish
    rw [hm]
    rcases m.state.flush_cases canFlush with
      ⟨t, hr, said, hsaid, ha⟩ | ⟨f, t, hr, hf, said, hsaid, ha⟩
    · rw [hr]
      cases ha with
      | made sound kinds _ => exact ⟨said, hsaid, .finished sound kinds⟩
    · rw [hr]
      cases ha with
      | made _ _ other => exact absurd rfl other
      | broken sound failed kinds =>
        exact ⟨_, hsaid, .broken rfl sound failed List.nil_prefix kinds (congrArg some hf)⟩
  · obtain ⟨said, hsaid, ha⟩ := i.answers_act canFlush hasInput cfg m.state.tick
    rw [hact] at hsaid ha
    rw [hm, Option.toList_some, List.map_singleton]
    refine ⟨said, hsaid, ?_⟩
    generalize hfamily : (some f : Option Failure).bind Failure.category? = family at ha
    cases ha with
    | made sound kinds other =>
      exact .stopped sound (by rw [kinds, Call.due_singleton]) (by rwa [← hfamily] at other)
    | broken sound failed kinds =>
      refine .broken rfl sound failed List.nil_prefix (kinds.trans ?_) hfamily
      rw [Call.due_singleton]
      exact List.prefix_append _ _

/-- **What has been said to the streams**, at every point of every run. -/
theorem speaks_after (canFlush : dev.flush?.isSome = true) (hasInput : dev.read?.isSome = true)
    (cfg : Settings) (n : Nat) (m : Machine σ) :
    ∃ said, (m.after dev cfg n).state.calls.toList = m.state.calls.toList ++ said ∧
      (m.after dev cfg n).Speaks ((m.history dev cfg n).map Moment.instr) said := by
  refine after_induction (P := fun m h r => ∃ said, r.state.calls.toList = m.state.calls.toList ++
    said ∧ r.Speaks (h.map Moment.instr) said) (fun m => ?_) (fun m m' h r hstep ih => ?_)
    (fun m e hstep => speaks_ended canFlush hasInput hstep) n m
  · exact ⟨[], (List.append_nil _).symm, .underway (fun c hc => (List.not_mem_nil hc).elim) rfl⟩
  · obtain ⟨before, hbefore, ha⟩ := answers_running canFlush hasInput hstep
    obtain ⟨said, hsaid, hr⟩ := ih
    cases ha with
    | made sound kinds _ =>
      refine ⟨before ++ said, by rw [hsaid, hbefore, List.append_assoc], ?_⟩
      rw [List.map_append]
      exact hr.prepend sound kinds

end Machine

/-- **A run keeps to the protocol**, where output can be flushed and there is input. A run that
succeeds says a word of `Call.protocol`: a write for each output and a flush and a read for each
input that it meets, in order, and a last flush. Any other run says the beginning of such a word,
which ends with all calls of the last instruction met or with a call that has failed; the latter
makes the run fail with an error of the streams. So every read comes right behind a flush, and
nothing comes behind a call that has failed. -/
theorem calls_keep_protocol (dev : Device σ) (cfg : Settings)
    (canFlush : dev.flush?.isSome = true) (hasInput : dev.read?.isSome = true) (m : Machine σ)
    (n : Nat) :
    m.run dev cfg n = (m.after dev cfg n).ending? ∧
    ∃ said met, (m.after dev cfg n).state.calls.toList = m.state.calls.toList ++ said ∧
      met = (m.history dev cfg n).map Moment.instr ∧ (m.after dev cfg n).Speaks met said ∧
      Call.due met ++ [.flush] ∈ Call.protocol.matches' ∧
      ∀ front c back, said = front ++ c :: back →
        (c.kind = .read → ∃ earlier, front = earlier ++ [.flushed]) ∧
          (c.isFailed = true → back = []) := by
  obtain ⟨said, hsaid, h⟩ := m.speaks_after canFlush hasInput cfg n
  refine ⟨Machine.run_eq_after dev cfg n m, said, _, hsaid, rfl, h, Call.due_mem_protocol _,
    fun front c back split => ?_⟩
  exact ⟨h.flushed_before_read split, h.nothing_behind_failed split⟩

/-- Streams on which the first read fails. -/
def Script.unanswered : Script := ⟨none, none, some ⟨0, "gone"⟩, true, true, 1⟩

/-- The prompt is written and flushed, and the read that fails is the last call. -/
theorem calls_keep_protocol_unanswered :
    (Scripted.device .unanswered).flush?.isSome = true ∧
      (Scripted.device .unanswered).read?.isSome = true ∧
      ((Machine.start [.output none, .input none, .output none]
        (.start (.blank 1 4) (.start [65]))).after (Scripted.device .unanswered) ⟨.zero, .byte⟩
          4).Speaks [.output none, .input none] [.wrote [0], .flushed, .readFailed] := by
  obtain ⟨-, said, met, hsaid, rfl, h, -⟩ := calls_keep_protocol (Scripted.device .unanswered)
    ⟨.zero, .byte⟩ rfl rfl (Machine.start [.output none, .input none, .output none]
      (.start (.blank 1 4) (.start [65]))) 4
  obtain rfl : [.wrote [0], .flushed, .readFailed] = said := hsaid
  exact ⟨rfl, rfl, h⟩

end TapeLang
