import TapeLang.Proofs.FixedPoints
import TapeLang.Proofs.Places
import TapeLang.Proofs.Unrolling
import TapeLang.Run

/-!
# Printed and loaded again

Compacting undoes unrolling (`Program.compact_unroll`): the unit instructions of a run merge one by
one into the instruction they come from, and the clear loop of an assignment is folded again and
takes in the way to the value. In a program in normal form no neighbour interferes. So the source
that is printed of a compacted program stands for that program.

* `Program.throughout_compactOnto`: what is kept by merging two instructions is kept by compacting.
* `Program.reloads_of_normal`: a program in normal form is printed and loaded without loss.
* `compacted_reloads`: the same for what compacting and loading leave.
-/

namespace TapeLang

/-! ### Unit instructions in a row -/

theorem Move.merge_unplaced (a b : Int) :
    Move.merge ⟨a, none, []⟩ ⟨b, none, []⟩ = ⟨a + b, none, []⟩ := by
  have h := Move.merge_bare ⟨a, none, []⟩ ⟨b, none, []⟩
  rw [Move.bare, Move.bare, Move.bare, Move.offset_merge] at h
  exact h

namespace Program

variable {w : List Instr} {u i prev j : Instr} {r a c : Run}

/-- If each copy of `u` takes the end of the program one further in the series `f`, then so do many
copies. -/
theorem compactOnto_series (level : Level) (f : Nat → Instr) (hu : u.isLoop = false) : ∀ n,
    (∀ k < n, extend (f k :: w) u = f (k + 1) :: w) →
      compactOnto level (f 0 :: w) (List.replicate n u) = f n :: w
  | 0, _ => compactOnto_nil level _
  | n + 1, h => by
    have hn := compactOnto_series level f hu n fun k hk => h k (by omega)
    rw [List.replicate_succ', compactOnto_append, hn, compactOnto_cons, compactOnto_nil,
      Instr.compactOnto_of_simple hu, h n (by omega)]

/-- A count is reached by units, starting with the first. -/
theorem compactOnto_count (level : Level) (f : Int → Instr) {n : Int} (hn : 1 ≤ n)
    (hu : (f 1).isLoop = false) (first : extend w (f 1) = f 1 :: w)
    (next : ∀ k, 1 ≤ k → k < n → extend (f k :: w) (f 1) = f (k + 1) :: w) :
    compactOnto level w (List.replicate n.toNat (f 1)) = f n :: w := by
  obtain ⟨m, hm⟩ : ∃ m : Nat, n = m + 1 := ⟨(n - 1).toNat, by omega⟩
  have hnat : n.toNat = m + 1 := by omega
  have hrest := compactOnto_series (w := w) level (fun k => f (k + 1)) hu m fun k hk => by
    rw [next (k + 1) (by omega) (by omega)]
    rfl
  rw [hnat, List.replicate_succ, compactOnto_cons, Instr.compactOnto_of_simple hu, first, hm]
  exact hrest

theorem extend_of_toInstr? (hi : Run.ofInstr? i = some r) (hp : Run.ofInstr? prev = some a)
    (hm : a.merge? r = some c) (hc : c.toInstr? = some j) : extend (prev :: w) i = j :: w := by
  rw [extend_of_merge hi hp hm, hc]
  rfl

theorem extend_right {n : Int} (hn : 1 ≤ n) : extend (.moveRight n none [] :: w)
    (.moveRight 1 none []) = .moveRight (n + 1) none [] :: w := by
  have hi : ∀ k, Run.ofInstr? (.moveRight k none []) = some (.move ⟨k, none, []⟩) := fun k => by
    rw [Run.ofInstr?, Move.fittingTrail_eq_self (.inl rfl)]
  have hm := congrArg (fun m => some (Run.move m)) (Move.merge_unplaced n 1)
  refine extend_of_toInstr? (hi 1) (hi n) hm ?_
  exact Move.toInstr?_of_pos (m := ⟨n + 1, none, []⟩) (show 0 < n + 1 by omega)

theorem extend_left {n : Int} (hn : 1 ≤ n) : extend (.moveLeft n none [] :: w)
    (.moveLeft 1 none []) = .moveLeft (n + 1) none [] :: w := by
  have hi : ∀ k, Run.ofInstr? (.moveLeft k none []) = some (.move ⟨-k, none, []⟩) := fun k => by
    rw [Run.ofInstr?, Move.fittingTrail_eq_self (.inl rfl)]
  have hm := congrArg (fun m => some (Run.move m)) (Move.merge_unplaced (-n) (-1))
  refine extend_of_toInstr? (hi 1) (hi n) hm ?_
  have hneg := Move.toInstr?_of_neg (m := ⟨-n + -1, none, []⟩) (show -n + -1 < 0 by omega)
  have hsum : -(-n + -1) = n + 1 := by omega
  rw [hsum] at hneg
  exact hneg

theorem extend_plus {d : Int} (hd : 1 ≤ d) (hd' : d + 1 < Cell.modulus) :
    extend (.add d none :: w) (.add 1 none) = .add (d + 1) none :: w := by
  have hmod : (d + 1) % Cell.modulus = d + 1 := Int.emod_eq_of_lt (by omega) hd'
  refine extend_of_toInstr? (c := .cell (.shift (d + 1) none)) rfl rfl rfl ?_
  have h := CellOp.toInstr?_of_pos (d := d + 1) (by omega) (by omega) none
  rw [hmod] at h
  exact h

theorem extend_minus {d : Int} (hd : 1 ≤ d) (hd' : d + 1 < Cell.modulus) :
    extend (.sub d none :: w) (.sub 1 none) = .sub (d + 1) none :: w := by
  have hmod : (d + 1) % Cell.modulus = d + 1 := Int.emod_eq_of_lt (by omega) hd'
  have hneg : -(d + 1) % Cell.modulus ≠ 0 := by
    unfold Cell.modulus at hd' ⊢
    omega
  have hsum : -d + -1 = -(d + 1) := by omega
  refine extend_of_toInstr? (c := .cell (.shift (-d + -1) none)) rfl rfl rfl ?_
  have h := CellOp.toInstr?_of_neg hneg (by omega) none
  rw [Int.neg_neg, hmod] at h
  rw [hsum]
  exact h

/-! ### Compacting undoes unrolling -/

/-- An assignment of zero, taken up or down to a value. -/
theorem compactOnto_set_up (level : Level) {v : Int} (hv : 0 ≤ v ∧ v < Cell.modulus) :
    compactOnto level (.set 0 none :: w) (List.replicate v.toNat (.add 1 none)) =
      .set v none :: w := by
  have h := compactOnto_series (w := w) level (fun k => .set k none) (u := .add 1 none) rfl v.toNat
    fun k hk => by
      have hmod : ((k : Int) + 1) % Cell.modulus = (k + 1 : Nat) :=
        Int.emod_eq_of_lt (by omega) (by omega)
      rw [extend_set (o := .shift 1 none) rfl, CellOp.value_shift, hmod]
      rfl
  rw [Int.toNat_of_nonneg hv.1] at h
  exact h

theorem compactOnto_set_down (level : Level) {v : Int} (hv : 0 < v ∧ v < Cell.modulus) :
    compactOnto level (.set 0 none :: w)
      (List.replicate (Cell.modulus - v).toNat (.sub 1 none)) = .set v none :: w := by
  have h := compactOnto_series (w := w) level (fun k => .set (-k % Cell.modulus) none)
    (u := .sub 1 none) rfl (Cell.modulus - v).toNat fun k _ => by
      have hmod : (-(k : Int) % Cell.modulus + -1) % Cell.modulus =
          -((k + 1 : Nat) : Int) % Cell.modulus := by
        unfold Cell.modulus
        omega
      rw [extend_set (o := .shift (-1) none) rfl, CellOp.value_shift, hmod]
      rfl
  have hend : -((Cell.modulus - v).toNat : Int) % Cell.modulus = v := by
    unfold Cell.modulus at hv ⊢
    omega
  rw [hend] at h
  exact h

theorem compactOnto_unroll_set {v : Int} {p : Option Position} (hv : 0 ≤ v ∧ v < Cell.modulus)
    (hw : endKind? w ≠ some .cell) :
    compactOnto .loops w (Instr.set v p).unroll = .set v none :: w := by
  have hbody : compactOnto .loops [] [.sub 1 none] = [.sub 1 none] := by
    rw [compactOnto_cons, compactOnto_nil, Instr.compactOnto_of_simple rfl]
    rfl
  have hclear : (Instr.loop [.sub 1 none] none).compactOnto .loops w = .set 0 none :: w := by
    rw [Instr.compactOnto_loop, hbody, extendLoop, if_pos ⟨rfl, rfl⟩]
    exact extend_canonical (r := .cell (.assign 0 none)) ⟨by decide, by decide⟩ rfl hw
  rw [Instr.unroll, compactOnto_cons, hclear]
  split
  · next h => exact compactOnto_set_down .loops ⟨by unfold Cell.modulus at h; omega, hv.2⟩
  · exact compactOnto_set_up .loops hv

/-- The unit instructions of an instruction in normal form merge into it, if it is no loop. -/
theorem compactOnto_unroll_simple (level : Level) (hl : i.isLoop = false) (hc : i.Canonical)
    (hw : ∀ k, i.kind? = some k → endKind? w ≠ some k)
    (hset : level = .runs → i.isNoSet = true) : compactOnto level w i.unroll = i.bare :: w := by
  have one : (1 : Int) ≤ 1 ∧ (1 : Int) < Cell.modulus := by decide
  cases i with
  | moveRight n p t =>
    have first : extend w (.moveRight 1 none []) = .moveRight 1 none [] :: w :=
      extend_canonical (i := .moveRight 1 none []) ⟨one.1, .inl rfl⟩ rfl (hw .move rfl)
    exact compactOnto_count level (.moveRight · none []) hc.1 rfl first
      fun k hk _ => extend_right hk
  | moveLeft n p t =>
    have first : extend w (.moveLeft 1 none []) = .moveLeft 1 none [] :: w :=
      extend_canonical (i := .moveLeft 1 none []) ⟨one.1, .inl rfl⟩ rfl (hw .move rfl)
    exact compactOnto_count level (.moveLeft · none []) hc.1 rfl first fun k hk _ => extend_left hk
  | add d p =>
    have hd : 1 ≤ d ∧ d < Cell.modulus := hc
    have first : extend w (.add 1 none) = .add 1 none :: w :=
      extend_canonical (i := .add 1 none) one rfl (hw .cell rfl)
    exact compactOnto_count level (.add · none) hd.1 rfl first
      fun k hk hk' => extend_plus hk (by omega)
  | sub d p =>
    have hd : 1 ≤ d ∧ d < Cell.modulus := hc
    have first : extend w (.sub 1 none) = .sub 1 none :: w :=
      extend_canonical (i := .sub 1 none) one rfl (hw .cell rfl)
    exact compactOnto_count level (.sub · none) hd.1 rfl first
      fun k hk hk' => extend_minus hk (by omega)
  | set v p =>
    cases level with
    | runs => cases hset rfl
    | loops => exact compactOnto_unroll_set hc (hw .cell rfl)
  | loop => cases hl
  | output p | input p | unknown n =>
    rw [Instr.unroll, compactOnto_cons, compactOnto_nil, Instr.compactOnto_of_simple rfl]
    rfl

/-- **Compacting undoes unrolling.** -/
theorem compactOnto_unroll (level : Level) (p : Program) : ∀ out : List Instr,
    Normal level (p.reverse ++ out) → (level = .runs → p.throughout Instr.isNoSet = true) →
      compactOnto level (bare out) (unroll p) = bare (p.reverse ++ out) := by
  induction p using Program.induction with
  | nil =>
    intro out _ _
    exact compactOnto_nil level _
  | cons i r body rest =>
    intro out hn hset
    rw [List.reverse_cons, List.append_assoc, List.singleton_append] at hn ⊢
    have hi : Normal level (i :: out) := hn.of_append
    have hfirst : compactOnto level (bare out) i.unroll = bare (i :: out) := by
      rcases i.isLoop_cases with hl | ⟨b, pos, rfl⟩
      · refine compactOnto_unroll_simple level hl (hi.canonical i (.head _)) ?_ ?_
        · intro k hk
          rw [endKind?_bare]
          exact hi.endKind?_ne hk
        · exact fun h => (throughout_cons.1 (hset h)).1
      · have hb : Normal level (b.reverse ++ []) := by
          rw [List.append_nil]
          exact (hi.body (.head _)).reverse
        have h := body b pos rfl [] hb fun h => (throughout_cons.1 (hset h)).2.1 b pos rfl
        rw [List.append_nil, bare_nil, bare_reverse] at h
        obtain ⟨-, -, -, unclear⟩ := hi
        rw [Instr.unroll, compactOnto_cons, compactOnto_nil, Instr.compactOnto_loop, h,
          List.reverse_reverse, extendLoop, if_neg, bare_cons, Instr.bare]
        rintro ⟨hl, hc⟩
        rw [isClearLoop_bare, unclear b pos (.head _) hl] at hc
        cases hc
    rw [unroll, compactOnto_append, hfirst]
    exact rest (i :: out) hn fun h => (throughout_cons.1 (hset h)).2.2

theorem compact_unroll {n : Int} {p : Program} (hn : Normal (.ofInt n) p)
    (hset : Level.ofInt n = .runs → p.throughout Instr.isNoSet = true) :
    (unroll p).compact n = p.bare := by
  have h : Normal (.ofInt n) (p.reverse ++ []) := by
    rw [List.append_nil]
    exact hn.reverse
  have hc := compactOnto_unroll (.ofInt n) p [] h hset
  rw [bare_nil, List.append_nil, bare_reverse] at hc
  rw [compact_eq, hc, List.reverse_reverse]

end Program

/-! ### What compacting keeps -/

/-- A property `f` of instructions that is kept by merging, unless the merged run cancels out; `P`
says it of runs. -/
structure Run.Keeps (f : Instr → Bool) (P : Run → Prop) : Prop where
  ofInstr? {i : Instr} {r : Run} : f i = true → ofInstr? i = some r → P r
  merge? {a b c : Run} {i : Instr} : P a → P b → a.merge? b = some c → c.toInstr? = some i → P c
  toInstr? {r : Run} {i : Instr} : P r → r.toInstr? = some i → f i = true

namespace Program

variable {f : Instr → Bool} {P : Run → Prop} {out : List Instr} {i : Instr}

theorem throughout_toInstr? (hk : Run.Keeps f P) {r : Run}
    (hr : ∀ j, r.toInstr? = some j → P r) (hout : throughout f out = true) :
    throughout f (r.toInstr?.toList ++ out) = true := by
  rcases hj : r.toInstr? with _ | j
  · exact hout
  · show throughout f (j :: out) = true
    refine throughout_cons.2 ⟨hk.toInstr? (hr j hj) hj, ?_, hout⟩
    rintro b pos rfl
    rcases r with m | c
    · obtain ⟨m', h, -⟩ := Move.exists_of_toInstr?_eq_some hj
      cases h
    · obtain ⟨c', h, -⟩ := CellOp.exists_of_toInstr?_eq_some hj
      cases h

theorem throughout_extend (hk : Run.Keeps f P) (hout : throughout f out = true)
    (hi : f i = true) (hl : i.isLoop = false) : throughout f (extend out i) = true := by
  rcases hr : Run.ofInstr? i with _ | r
  · rw [extend_of_none hr]
    refine throughout_cons.2 ⟨hi, ?_, hout⟩
    rintro b pos rfl
    cases hl
  by_cases h : endKind? out = some r.kind
  · obtain ⟨prev, before, a, rfl, hp, ha⟩ := exists_of_endKind? h
    obtain ⟨c, hm, -⟩ := Run.exists_merge? ha
    obtain ⟨hprev, -, hbefore⟩ := throughout_cons.1 hout
    rw [extend_of_merge hr hp hm]
    have hc : ∀ j, c.toInstr? = some j → P c := fun j =>
      hk.merge? (hk.ofInstr? hprev hp) (hk.ofInstr? hi hr) hm
    exact throughout_toInstr? hk hc hbefore
  · rw [extend_of_apart hr h]
    exact throughout_toInstr? hk (fun _ _ => hk.ofInstr? hi hr) hout

/-- **What is kept by merging is kept by compacting**, if it holds of loops and, where they are
folded, of what stands for them. -/
theorem throughout_compactOnto (hk : Run.Keeps f P) {level : Level}
    (hloop : ∀ b pos, f (.loop b pos) = true)
    (hset : level = .loops → ∀ pos, f (.set 0 pos) = true) (p : Program) :
    ∀ out : List Instr, throughout f out = true → throughout f p = true →
      throughout f (compactOnto level out p) = true := by
  induction p using Program.induction with
  | nil =>
    intro out hout _
    rw [compactOnto_nil]
    exact hout
  | cons i r body rest =>
    intro out hout hp
    obtain ⟨hi, hb, hr⟩ := throughout_cons.1 hp
    rw [compactOnto_cons]
    refine rest _ ?_ hr
    rcases i.isLoop_cases with hl | ⟨b, pos, rfl⟩
    · rw [Instr.compactOnto_of_simple hl]
      exact throughout_extend hk hout hi hl
    · have hbody := body b pos rfl [] throughout_nil (hb b pos rfl)
      rw [Instr.compactOnto_loop, extendLoop]
      split
      · next h => exact throughout_extend hk hout (hset h.1 pos) rfl
      · refine throughout_cons.2 ⟨hloop _ pos, ?_, hout⟩
        rintro _ _ ⟨⟩
        exact throughout_reverse.2 hbody

end Program

theorem Run.keeps_known : Run.Keeps Instr.isKnown fun _ => True where
  ofInstr? _ _ := trivial
  merge? _ _ _ _ := trivial
  toInstr? {r i} _ h := by
    have hr : ∃ r', Run.ofInstr? i = some r' := by
      rcases r with m | c
      · obtain ⟨m', hm, -⟩ := Move.exists_of_toInstr?_eq_some h
        exact ⟨_, hm⟩
      · obtain ⟨c', hc, -⟩ := CellOp.exists_of_toInstr?_eq_some h
        exact ⟨_, hc⟩
    obtain ⟨r', hr⟩ := hr
    cases i with
    | unknown => cases hr
    | _ => rfl

/-- Whether a run leaves the cell at a value that does not depend on what it was. -/
def Run.assigns : Run → Bool
  | cell (.assign ..) => true
  | _ => false

theorem Run.keeps_noSet : Run.Keeps Instr.isNoSet (·.assigns = false) where
  ofInstr? {i r} hi h := by
    cases i with
    | set => cases hi
    | moveLeft | moveRight | add | sub =>
      cases h
      rfl
    | output | input | loop | unknown => cases h
  merge? {a b c i} ha hb h _ := by
    rcases a with m | ⟨d, p⟩ | ⟨v, p⟩ <;> rcases b with n | ⟨e, q⟩ | ⟨w, q⟩ <;> cases h
    · rfl
    · rfl
    · cases hb
    · cases ha
    · cases hb
  toInstr? {r i} hr h := by
    cases i with
    | set v p =>
      -- only an assignment becomes one
      rcases r with m | ⟨d, q⟩ | ⟨w, q⟩
      · obtain ⟨m', hm, -⟩ := Move.exists_of_toInstr?_eq_some h
        cases hm
      · rw [Run.toInstr?, CellOp.toInstr?] at h
        split at h
        · cases h
        · split at h <;> cases h
      · cases hr
    | _ => rfl

namespace Program

theorem isKnown_compact (n : Int) {p : Program} (hp : p.throughout Instr.isKnown = true) :
    (p.compact n).throughout Instr.isKnown = true := by
  rw [compact_eq, throughout_reverse]
  exact throughout_compactOnto Run.keeps_known (fun _ _ => rfl) (fun _ _ => rfl) p []
    throughout_nil hp

theorem isNoSet_compact {n : Int} (hn : Level.ofInt n = .runs) {p : Program}
    (hp : p.throughout Instr.isNoSet = true) : (p.compact n).throughout Instr.isNoSet = true := by
  have unfolded : Level.runs = .loops → ∀ pos, (Instr.set 0 pos).isNoSet = true := nofun
  rw [compact_eq, throughout_reverse, hn]
  exact throughout_compactOnto Run.keeps_noSet (fun _ _ => rfl) unfolded p [] throughout_nil hp

end Program

/-! ### Printed and loaded -/

namespace Program

/-- The program can be printed, and what is loaded from its source is the same code. -/
def Reloads (level : Int) (p : Program) : Prop :=
  ∃ code q notices, p.emit = .ok code ∧ load level code = .ok (q, notices) ∧ q.sameCode p = true

theorem load_of_parse (level : Int) {code : String} {p : Program} (h : parse code = .ok p) :
    load level code = .ok (ready level p) := by
  rw [load, h]
  rfl

/-- **A program in normal form is printed and loaded without loss.** -/
theorem reloads_of_normal {n : Int} {p : Program} (hn : Normal (.ofInt n) p)
    (known : p.throughout Instr.isKnown = true)
    (hset : Level.ofInt n = .runs → p.throughout Instr.isNoSet = true) : p.Reloads n := by
  obtain ⟨code, q, he, hq, hb⟩ := exists_parse_emit known
  refine ⟨code, q.compact n, _, he, load_of_parse n hq, ?_⟩
  rw [sameCode_iff]
  calc (q.compact n).bare = q.bare.compact n := (compact_bare n q).symm
    _ = p.unroll.compact n := by rw [hb]
    _ = p.bare := compact_unroll hn hset

theorem reloads_compact (n : Int) {p : Program} (known : p.throughout Instr.isKnown = true)
    (hset : Level.ofInt n = .runs → p.throughout Instr.isNoSet = true) : (p.compact n).Reloads n :=
  reloads_of_normal (normal_compact n p) (isKnown_compact n known)
    fun h => isNoSet_compact h (hset h)

end Program

/-- **What compacting leaves is printed and loaded without loss.** Without folding of loops this
needs a program without assignments, as every program is that was read. -/
theorem compacted_reloads :
    (∀ q : Program, q.throughout Instr.isKnown = true → (q.compact 1).Reloads 1) ∧
    (∀ q : Program, q.throughout Instr.isKnown = true → q.throughout Instr.isNoSet = true →
      (q.compact 0).Reloads 0) ∧
    ∀ (code : String) (raw : Program), Program.parse code = .ok raw → ∀ level : Int,
      ∃ p notices, Program.load level code = .ok (p, notices) ∧ p.Reloads level := by
  refine ⟨fun q known => q.reloads_compact 1 known nofun,
    fun q known noSet => q.reloads_compact 0 known fun _ => noSet, fun code raw h level => ?_⟩
  have unit := Program.isUnit_of_parse h
  have known := Program.throughout_imp (fun _ hi => (Instr.isKnown_of_isUnit hi).1) raw unit
  have noSet := Program.throughout_imp (fun _ hi => (Instr.isKnown_of_isUnit hi).2) raw unit
  exact ⟨raw.compact level, _, Program.load_of_parse level h,
    raw.reloads_compact level known fun _ => noSet⟩

/-- Values on both sides of half the cell range, next to a loop that must not be folded; a sum
beyond the cell range; and a source text, at a level that is neither of the two named. -/
theorem compacted_reloads_wraparound :
    (Program.compact 1 [.set 4294967295 none, .moveRight 3 none [], .set 7 none,
      .loop [.set 1 none] none]).Reloads 1 ∧
    (Program.compact 0 [.moveLeft 5 none [], .sub 4294967295 none, .sub 3 none]).Reloads 0 ∧
    ∃ p notices, Program.load (-3) "+[-]->>[++]" = .ok (p, notices) ∧ p.Reloads (-3) := by
  obtain ⟨folded, merged, loaded⟩ := compacted_reloads
  exact ⟨folded _ rfl, merged _ rfl rfl, loaded "+[-]->>[++]" _ rfl (-3)⟩

end TapeLang
