import TapeLang.Machine.Frames
import TapeLang.Proofs.Frames
import Mathlib.Data.List.Chain

/-!
# The frames of a runner

A runner goes through the same states as the machine, whose frames are what is left of the runner's.
A pass of the runner is one transition of the machine, or two at the end of a loop body: there the
machine first drops a frame and then meets the loop again. At the end of the program it is the other
way round, and the runner drops its last frame before it flushes the output.

* `Runner.Linked`: each frame below another stands at the loop whose body is on top of it.
* `Runner.Linked.step_cases`: what a pass of a linked runner is for the machine. The runner is
  linked after it, so it never looks for a loop in vain.
* `Runner.Linked.ends_iff`: the runner and the machine come to the same endings.
* `Machine.run_eq_structured`: both implement structured execution.
-/

namespace TapeLang

/-- The place `f` is at the loop whose body is the sequence of `m`. -/
def Mark.Within (m f : Mark) : Prop := ∃ pos more, f.rest = .loop m.body pos :: more

variable {σ : Type} {dev : Device σ} {cfg : Settings}

namespace Runner

/-- Each frame below another stands at the loop whose body is on top of it. -/
def Linked (r : Runner σ) : Prop := r.frames.IsChain Mark.Within

/-- The machine that is where the runner is. -/
def machine (r : Runner σ) : Machine σ := ⟨r.frames.map Mark.rest, r.state⟩

theorem linked_start (p : Program) (s : State σ) : (start p s).Linked :=
  List.isChain_singleton _

variable {r r' : Runner σ} {e : Ending σ}

/-! ### One pass -/

section Pass
variable {top f : Mark} {below : List Mark} {s t : State σ} {body more : Program}
  {pos : Option Position} {i : Instr}

/-- How far the top frame has come does not matter to the frames below. -/
theorem Linked.advance (h : Linked ⟨top :: below, s⟩) : Linked ⟨top.advance :: below, t⟩ := by
  cases below with
  | nil => exact List.isChain_singleton _
  | cons f below =>
    obtain ⟨hwithin, hbelow⟩ := List.isChain_cons_cons.1 h
    exact List.isChain_cons_cons.2 ⟨hwithin, hbelow⟩

theorem Linked.enter (h : Linked ⟨top :: below, s⟩) (hrest : top.rest = .loop body pos :: more) :
    Linked ⟨.start body :: top :: below, t⟩ :=
  List.isChain_cons_cons.2 ⟨⟨pos, more, hrest⟩, h⟩

/-- What a pass of the runner is for the machine: the end of both; the end for the machine, and for
the runner in the pass that follows; or one or two transitions. -/
inductive Step (dev : Device σ) (cfg : Settings) (r : Runner σ) : Prop where
  | ended {e : Ending σ} (pass : r.step dev cfg = .ended e)
      (ends : r.machine.step dev cfg = .ended e)
  | last {r' : Runner σ} {e : Ending σ} (pass : r.step dev cfg = .running r') (linked : r'.Linked)
      (next : r'.step dev cfg = .ended e) (ends : r.machine.step dev cfg = .ended e)
  | running {r' : Runner σ} {m : Machine σ} (pass : r.step dev cfg = .running r')
      (linked : r'.Linked) (first : r.machine.step dev cfg = .running m)
      (second : m = r'.machine ∨ m.step dev cfg = .running r'.machine)

/-- At a loop. -/
theorem Linked.step_loop (h : Linked ⟨top :: below, s⟩)
    (hrest : top.rest = .loop body pos :: more) : Step dev cfg ⟨top :: below, s⟩ := by
  have hmachine : machine ⟨top :: below, s⟩ =
      ⟨(.loop body pos :: more) :: below.map Mark.rest, s⟩ := by
    rw [machine, List.map_cons, hrest]
  by_cases hz : s.tape.read = 0
  · refine .running (step_skip dev cfg below s hrest hz) h.advance
      (hmachine ▸ Machine.step_skip dev cfg s hz body more pos _) (.inl ?_)
    rw [machine, List.map_cons, Mark.rest_advance, hrest, List.tail_cons]
  · refine .running (step_enter dev cfg below s hrest hz) (h.enter hrest)
      (hmachine ▸ Machine.step_enter dev cfg s hz body more pos _) (.inl ?_)
    rw [machine, List.map_cons, List.map_cons, hrest]
    rfl

/-- At the end of a loop body. -/
theorem Linked.step_body (h : Linked ⟨top :: f :: below, s⟩) (hrest : top.rest = []) :
    Step dev cfg ⟨top :: f :: below, s⟩ := by
  obtain ⟨⟨pos, more, hf⟩, hbelow⟩ := List.isChain_cons_cons.1 h
  have hlinked : Linked ⟨f :: below, s⟩ := hbelow
  have hmachine : machine ⟨top :: f :: below, s⟩ =
      ⟨[] :: (.loop top.body pos :: more) :: below.map Mark.rest, s⟩ := by
    rw [machine, List.map_cons, List.map_cons, hrest, hf]
  have hpop := Machine.step_pop dev cfg s (.loop top.body pos :: more) (below.map Mark.rest)
  rw [← hmachine] at hpop
  by_cases hz : s.tape.read = 0
  · refine .running (step_leave dev cfg below s hrest hz) hlinked.advance hpop (.inr ?_)
    rw [Machine.step_skip dev cfg s hz, machine, List.map_cons, Mark.rest_advance, hf,
      List.tail_cons]
  · refine .running (step_again dev cfg below s hrest hf hz) (hlinked.enter hf) hpop (.inr ?_)
    rw [Machine.step_enter dev cfg s hz, machine, List.map_cons, List.map_cons, hf]
    rfl

/-- At an instruction that is no loop. -/
theorem Linked.step_simple (h : Linked ⟨top :: below, s⟩) (hi : i.isLoop = false)
    (hrest : top.rest = i :: more) : Step dev cfg ⟨top :: below, s⟩ := by
  have hpass := step_act dev cfg below s hi hrest
  have hmachine := Machine.step_act dev cfg s hi more (below.map Mark.rest)
  have hsame : machine ⟨top :: below, s⟩ = ⟨(i :: more) :: below.map Mark.rest, s⟩ := by
    rw [machine, List.map_cons, hrest]
  rw [← hsame] at hmachine
  rcases hact : i.act dev cfg s.tick with ⟨_ | f, t⟩ <;> rw [hact] at hpass hmachine
  · refine .running hpass h.advance hmachine (.inl ?_)
    rw [machine, List.map_cons, Mark.rest_advance, hrest, List.tail_cons]
  · exact .ended hpass hmachine

/-- **A pass of a linked runner**: it finds what it looks for, and is linked again after it. -/
theorem Linked.step_cases (dev : Device σ) (cfg : Settings) {r : Runner σ} (h : r.Linked) :
    Step dev cfg r := by
  obtain ⟨frames, s⟩ := r
  rcases frames with _ | ⟨top, below⟩
  · exact .ended (step_end dev cfg s) rfl
  rcases hrest : top.rest with _ | ⟨i, more⟩
  · rcases below with _ | ⟨f, below⟩
    · have hmachine : machine ⟨[top], s⟩ = ⟨[[]], s⟩ := by
        rw [machine, List.map_singleton, hrest]
      exact .last (step_last dev cfg s hrest) List.isChain_nil (step_end dev cfg s)
        (hmachine ▸ Machine.step_end dev cfg s)
    · exact h.step_body hrest
  · rcases i.isLoop_cases with hi | ⟨body, pos, rfl⟩
    · exact h.step_simple hi hrest
    · exact h.step_loop hrest

end Pass

/-! ### All passes -/

theorem passes_of_running (h : r.step dev cfg = .running r') (n : Nat) :
    r.passes dev cfg (n + 1) = r'.passes dev cfg n := by
  simp only [passes, h]

theorem passes_of_ended (h : r.step dev cfg = .ended e) (n : Nat) :
    r.passes dev cfg (n + 1) = .ended e := by
  simp only [passes, h]

/-- **A loop is never looked for in vain**, and the frames stay linked. -/
theorem Linked.passes (h : r.Linked) (n : Nat) :
    r.passes dev cfg n ≠ .lost ∧ ∀ r', r.passes dev cfg n = .running r' → r'.Linked := by
  induction n generalizing r with
  | zero =>
    refine ⟨fun hlost => (nomatch hlost), ?_⟩
    rintro _ ⟨⟩
    exact h
  | succ n ih =>
    rcases h.step_cases dev cfg with @⟨e, pass, -⟩ | @⟨r', e, pass, linked, -, -⟩ |
      @⟨r', m, pass, linked, -, -⟩
    · rw [passes_of_ended pass]
      exact ⟨fun hlost => (nomatch hlost), fun _ hrunning => nomatch hrunning⟩
    · rw [passes_of_running pass]
      exact ih linked
    · rw [passes_of_running pass]
      exact ih linked

theorem Linked.ends_of_passes (h : r.Linked) {n : Nat} (hn : r.passes dev cfg n = .ended e) :
    r.machine.Ends dev cfg e := by
  induction n generalizing r with
  | zero => cases hn
  | succ n ih =>
    rcases h.step_cases dev cfg with @⟨e', pass, ends⟩ | @⟨r', e', pass, linked, next, ends⟩ |
      @⟨r', m, pass, linked, first, second⟩
    · rw [passes_of_ended pass] at hn
      cases hn
      exact .of_ended ends
    · rw [passes_of_running pass] at hn
      cases n with
      | zero => cases hn
      | succ n =>
        rw [passes_of_ended next] at hn
        cases hn
        exact .of_ended ends
    · rw [passes_of_running pass] at hn
      rcases second with rfl | second
      · exact .of_running first (ih linked hn)
      · exact .of_running first (.of_running second (ih linked hn))

theorem Linked.exists_passes (h : r.Linked) {fuel : Nat}
    (hrun : r.machine.run dev cfg fuel = some e) : ∃ n, r.passes dev cfg n = .ended e := by
  -- on the length of the machine's run, because a pass may take two transitions of it
  induction fuel using Nat.strongRecOn generalizing r with
  | _ fuel ih =>
    cases fuel with
    | zero => cases hrun
    | succ fuel =>
      rcases h.step_cases dev cfg with @⟨e', pass, ends⟩ | @⟨r', e', pass, linked, next, ends⟩ |
        @⟨r', m, pass, linked, first, second⟩
      · rw [Machine.run_of_ended ends] at hrun
        cases hrun
        exact ⟨1, passes_of_ended pass 0⟩
      · rw [Machine.run_of_ended ends] at hrun
        cases hrun
        exact ⟨2, (passes_of_running pass 1).trans (passes_of_ended next 0)⟩
      · rw [Machine.run_of_running first] at hrun
        rcases second with rfl | second
        · obtain ⟨n, hn⟩ := ih fuel (by omega) linked hrun
          exact ⟨n + 1, (passes_of_running pass n).trans hn⟩
        · cases fuel with
          | zero => cases hrun
          | succ fuel =>
            rw [Machine.run_of_running second] at hrun
            obtain ⟨n, hn⟩ := ih fuel (by omega) linked hrun
            exact ⟨n + 1, (passes_of_running pass n).trans hn⟩

/-- **The runner comes to the endings of the machine.** -/
theorem Linked.ends_iff (h : r.Linked) :
    (∃ n, r.passes dev cfg n = .ended e) ↔ r.machine.Ends dev cfg e :=
  ⟨fun ⟨_, hn⟩ => h.ends_of_passes hn, fun ⟨_, hrun⟩ => h.exists_passes hrun⟩

end Runner

/-- **The machine implements structured execution.** It comes to an ending exactly if structured
execution does, to the same one, with the same state: tape, streams, calls and steps. On the way its
frames are nested, so that a body that is finished finds its loop in the frame below; the loop is
then tested, with one step, and either its body or what follows it comes next. All this is so for a
runner too, which keeps whole sequences and looks its loops up: a loop is always found. -/
theorem Machine.run_eq_structured (dev : Device σ) (cfg : Settings) (p : Program) (s : State σ) :
    (∀ e, (∃ fuel, run dev cfg fuel (start p s) = some e) ↔ Runs dev cfg p s e) ∧
      (∀ m, Reaches dev cfg (start p s) m → Nested p m.frames) ∧
      (∀ f frames t, Reaches dev cfg (start p s) ⟨[] :: f :: frames, t⟩ →
        ∃ body pos rest, f = .loop body pos :: rest ∧
          step dev cfg ⟨[] :: f :: frames, t⟩ = .running ⟨f :: frames, t⟩ ∧
          step dev cfg ⟨f :: frames, t⟩ =
            .running
              ⟨if t.tape.read = 0 then rest :: frames else body :: f :: frames, t.tick⟩) ∧
      (∀ e, (∃ n, (Runner.start p s).passes dev cfg n = .ended e) ↔ Runs dev cfg p s e) ∧
      ∀ n, (Runner.start p s).passes dev cfg n ≠ .lost ∧
        ∀ r, (Runner.start p s).passes dev cfg n = .running r → r.Linked := by
  have linked := Runner.linked_start p s
  refine ⟨fun e => ends_iff_runs, fun m hm => nested_of_reaches hm, fun f frames t h => ?_,
    fun e => linked.ends_iff.trans ends_iff_runs, linked.passes⟩
  exact (nested_of_reaches h).retest t

end TapeLang
