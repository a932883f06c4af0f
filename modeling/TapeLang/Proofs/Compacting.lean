import TapeLang.Compact.Walk

/-!
# Compacting, taken apart

The walk with its stack of unfinished loops is the recursion on the tree: what is left on the stack
is a program with a hole (`OpenLoop.close`), and the walk fills the hole with what the recursion
gives (`Program.walk_eq_close`). All further facts are proved along the recursion.

* `Program.compact_eq`: compacting, as a recursion.
* `CellOp.value_merge`, `CellOp.exists_of_toInstr?_eq_some`: merged cell operations come to one
  after the other, and so does the instruction they become; for moves, `Move.offset_merge` and
  `Move.exists_of_toInstr?_eq_some`.
* `Program.extend_of_none`, `Program.extend_of_apart`, `Program.extend_of_merge`: the three ways in
  which an instruction is added to a compacted program; `Program.push` adds a run.
-/

namespace TapeLang

/-! ### The walk and the recursion -/

/-- The program in which `out`, compacted and last first, is the body of the innermost unfinished
loop. -/
def OpenLoop.close (level : Level) (out : List Instr) : List OpenLoop → Program
  | [] => out.reverse
  | l :: loops =>
    close level
      (Program.compactOnto level (Program.extendLoop level l.out out.reverse l.pos) l.rest) loops

theorem Program.compactOnto_nil (level : Level) (out : List Instr) :
    Program.compactOnto level out [] = out := by
  simp [Program.compactOnto]

theorem Program.compactOnto_cons (level : Level) (out : List Instr) (i : Instr) (rest : Program) :
    Program.compactOnto level out (i :: rest) =
      Program.compactOnto level (i.compactOnto level out) rest := by
  simp [Program.compactOnto]

theorem Program.compactOnto_append (level : Level) :
    ∀ (p : Program) (out : List Instr) (q : Program), Program.compactOnto level out (p ++ q) =
      Program.compactOnto level (Program.compactOnto level out p) q
  | [], out, q => by rw [List.nil_append, compactOnto_nil]
  | i :: p, out, q => by
    rw [List.cons_append, compactOnto_cons, compactOnto_cons, compactOnto_append level p]

theorem Instr.compactOnto_loop (level : Level) (out : List Instr) (body : Program)
    (pos : Option Position) : (Instr.loop body pos).compactOnto level out =
      Program.extendLoop level out (Program.compactOnto level [] body).reverse pos := by
  simp [Instr.compactOnto]

theorem Instr.compactOnto_of_simple {i : Instr} (h : i.isLoop = false) (level : Level)
    (out : List Instr) : i.compactOnto level out = Program.extend out i := by
  cases i with
  | loop => cases h
  | _ => simp [Instr.compactOnto]

theorem Instr.isLoop_of_ne_loop {i : Instr} (h : ∀ body pos, i = .loop body pos → False) :
    i.isLoop = false := by
  rcases i.isLoop_cases with hi | ⟨body, pos, rfl⟩
  · exact hi
  · exact (h body pos rfl).elim

/-- **The walk fills the hole** with what the recursion gives. -/
theorem Program.walk_eq_close (level : Level) (rest : Program) (out : List Instr)
    (loops : List OpenLoop) : Program.walk level rest out loops =
      OpenLoop.close level (Program.compactOnto level out rest) loops := by
  fun_induction Program.walk level rest out loops with
  | case1 out => rw [compactOnto_nil, OpenLoop.close]
  | case2 out l loops ih =>
    rw [List.unattach_reverse, List.unattach_attach] at ih
    rw [ih, compactOnto_nil, OpenLoop.close]
  | case3 out body pos rest loops ih =>
    rw [ih, OpenLoop.close, compactOnto_cons, Instr.compactOnto_loop]
  | case4 out i rest loops hi ih =>
    rw [ih, compactOnto_cons, Instr.compactOnto_of_simple (Instr.isLoop_of_ne_loop hi)]

theorem Program.compact_eq (level : Int) (p : Program) :
    p.compact level = (Program.compactOnto (.ofInt level) [] p).reverse :=
  walk_eq_close (.ofInt level) p [] []

/-! ### Runs of cell operations -/

namespace CellOp

/-- The number in the cell after the operation, if it was `v` before. Numbers count modulo the
cell range. -/
def value : CellOp → Int → Int
  | shift d _, v => v + d
  | assign w _, _ => w

/-- The place of an assignment that takes in the operation, if it was `p` before. -/
def place : CellOp → Option Position → Option Position
  | shift _ _, p => p
  | assign _ q, _ => q

@[simp] theorem value_shift (d v : Int) (p : Option Position) : (shift d p).value v = v + d := rfl

theorem value_merge : ∀ (a b : CellOp) (v : Int), (a.merge b).value v = b.value (a.value v)
  | .shift c _, .shift d _, v => (Int.add_assoc v c d).symm
  | .assign _ _, .shift _ _, _ => rfl
  | .shift _ _, .assign _ _, _ => rfl
  | .assign _ _, .assign _ _, _ => rfl

theorem place_merge : ∀ (a b : CellOp) (p : Option Position),
    (a.merge b).place p = b.place (a.place p)
  | .shift _ _, .shift _ _, _ => rfl
  | .assign _ _, .shift _ _, _ => rfl
  | .shift _ _, .assign _ _, _ => rfl
  | .assign _ _, .assign _ _, _ => rfl

/-- An assignment takes in what follows it. -/
theorem assign_merge : ∀ (v : Int) (p : Option Position) (c : CellOp),
    (assign v p).merge c = assign (c.value v) (c.place p)
  | _, _, .shift _ _ => rfl
  | _, _, .assign _ _ => rfl

theorem value_congr (c : CellOp) {v w : Int} (h : v % Cell.modulus = w % Cell.modulus) :
    c.value v % Cell.modulus = c.value w % Cell.modulus := by
  rcases c with ⟨d, p⟩ | ⟨u, p⟩
  · exact Int.add_emod_eq_add_emod_right d h
  · rfl

theorem toInstr?_of_cancelled {d : Int} (h : d % Cell.modulus = 0) (p : Option Position) :
    (shift d p).toInstr? = none := if_pos h

theorem toInstr?_of_pos {d : Int} (h : d % Cell.modulus ≠ 0) (hd : 0 < d) (p : Option Position) :
    (shift d p).toInstr? = some (.add (d % Cell.modulus) p) := by
  simp only [toInstr?, if_neg h, if_pos hd]

theorem toInstr?_of_neg {d : Int} (h : d % Cell.modulus ≠ 0) (hd : ¬ 0 < d)
    (p : Option Position) : (shift d p).toInstr? = some (.sub (-d % Cell.modulus) p) := by
  simp only [toInstr?, if_neg h, if_neg hd]

/-- The instruction for a run does what the run does. -/
theorem exists_of_toInstr?_eq_some {c : CellOp} {i : Instr} (h : c.toInstr? = some i) :
    ∃ c', Run.ofInstr? i = some (.cell c') ∧
      (∀ v, c'.value v % Cell.modulus = c.value v % Cell.modulus) ∧
      ∀ p, c'.place p = c.place p := by
  rcases c with ⟨d, q⟩ | ⟨w, q⟩
  · by_cases h0 : d % Cell.modulus = 0
    · rw [toInstr?_of_cancelled h0] at h
      cases h
    by_cases hd : 0 < d
    · rw [toInstr?_of_pos h0 hd] at h
      cases h
      refine ⟨.shift (d % Cell.modulus) q, rfl, fun v => ?_, fun _ => rfl⟩
      simp only [value_shift, Cell.modulus]
      omega
    · rw [toInstr?_of_neg h0 hd] at h
      cases h
      refine ⟨.shift (-(-d % Cell.modulus)) q, rfl, fun v => ?_, fun _ => rfl⟩
      simp only [value_shift, Cell.modulus]
      omega
  · cases h
    exact ⟨.assign (w % Cell.modulus) q, rfl, fun v => Int.emod_emod w Cell.modulus, fun _ => rfl⟩

/-- A run without an instruction does nothing. -/
theorem cancelled_of_toInstr?_eq_none {c : CellOp} (h : c.toInstr? = none) :
    (∀ v, c.value v % Cell.modulus = v % Cell.modulus) ∧ ∀ p, c.place p = p := by
  rcases c with ⟨d, q⟩ | ⟨w, q⟩
  · by_cases h0 : d % Cell.modulus = 0
    · refine ⟨fun v => ?_, fun _ => rfl⟩
      simp only [value_shift, Cell.modulus] at h0 ⊢
      omega
    by_cases hd : 0 < d
    · rw [toInstr?_of_pos h0 hd] at h
      cases h
    · rw [toInstr?_of_neg h0 hd] at h
      cases h
  · cases h

end CellOp

/-! ### Runs of moves -/

namespace Move

theorem offset_merge (a b : Move) : (a.merge b).offset = a.offset + b.offset := by
  unfold merge
  split
  · rfl
  · split <;> rfl

theorem toInstr?_of_pos {m : Move} (h : 0 < m.offset) :
    m.toInstr? = some (.moveRight m.offset m.pos m.trail) := if_pos h

theorem toInstr?_of_neg {m : Move} (h : m.offset < 0) :
    m.toInstr? = some (.moveLeft (-m.offset) m.pos m.trail) := by
  have hpos : ¬ 0 < m.offset := by omega
  simp only [toInstr?, if_neg hpos, if_pos h]

theorem toInstr?_of_zero {m : Move} (h : m.offset = 0) : m.toInstr? = none := by
  have hpos : ¬ 0 < m.offset := by omega
  have hneg : ¬ m.offset < 0 := by omega
  simp only [toInstr?, if_neg hpos, if_neg hneg]

/-- The instruction for a run goes where the run goes. -/
theorem exists_of_toInstr?_eq_some {m : Move} {i : Instr} (h : m.toInstr? = some i) :
    ∃ m', Run.ofInstr? i = some (.move m') ∧ m'.offset = m.offset := by
  rcases Int.lt_trichotomy m.offset 0 with hneg | hzero | hpos
  · rw [toInstr?_of_neg hneg] at h
    cases h
    exact ⟨_, rfl, Int.neg_neg _⟩
  · rw [toInstr?_of_zero hzero] at h
    cases h
  · rw [toInstr?_of_pos hpos] at h
    cases h
    exact ⟨_, rfl, rfl⟩

theorem offset_of_toInstr?_eq_none {m : Move} (h : m.toInstr? = none) : m.offset = 0 := by
  rcases Int.lt_trichotomy m.offset 0 with hneg | hzero | hpos
  · rw [toInstr?_of_neg hneg] at h
    cases h
  · exact hzero
  · rw [toInstr?_of_pos hpos] at h
    cases h

end Move

/-! ### Adding an instruction -/

/-- The two kinds of instructions that merge. -/
inductive Run.Kind where
  | move
  | cell
deriving DecidableEq

namespace Run

def kind : Run → Kind
  | move _ => .move
  | cell _ => .cell

theorem exists_merge? {a b : Run} (h : a.kind = b.kind) :
    ∃ c, a.merge? b = some c ∧ c.kind = b.kind := by
  rcases a with m | a <;> rcases b with n | b
  · exact ⟨_, rfl, rfl⟩
  · cases h
  · cases h
  · exact ⟨_, rfl, rfl⟩

theorem kind_of_merge? {a b c : Run} (h : a.merge? b = some c) :
    a.kind = b.kind ∧ c.kind = a.kind := by
  rcases a with m | a <;> rcases b with n | b <;> cases h
  · exact ⟨rfl, rfl⟩
  · exact ⟨rfl, rfl⟩

theorem merge?_eq_none {a b : Run} (h : a.kind ≠ b.kind) : a.merge? b = none := by
  rcases a with m | a <;> rcases b with n | b
  · exact absurd rfl h
  · rfl
  · rfl
  · exact absurd rfl h

end Run

/-- The kind of run an instruction belongs to. -/
def Instr.kind? (i : Instr) : Option Run.Kind := (Run.ofInstr? i).map Run.kind

theorem Run.isLoop_of_ofInstr? {i : Instr} {r : Run} (h : ofInstr? i = some r) :
    i.isLoop = false := by
  rcases i.isLoop_cases with hl | ⟨body, pos, rfl⟩
  · exact hl
  · cases h

theorem Instr.kind?_eq_some {i : Instr} {k : Run.Kind} :
    i.kind? = some k ↔ ∃ r, Run.ofInstr? i = some r ∧ r.kind = k :=
  Option.map_eq_some_iff

namespace Program

/-- The kind of the run that ends `out`, which stands last first. -/
def endKind? (out : List Instr) : Option Run.Kind := out.head?.bind Instr.kind?

theorem exists_of_endKind? {out : List Instr} {k : Run.Kind} (h : endKind? out = some k) :
    ∃ prev before a, out = prev :: before ∧ Run.ofInstr? prev = some a ∧ a.kind = k := by
  rcases out with _ | ⟨prev, before⟩
  · cases h
  · obtain ⟨a, ha, hk⟩ := Instr.kind?_eq_some.1 h
    exact ⟨prev, before, a, rfl, ha, hk⟩

/-- The instructions `out`, last first, followed by a run: a run of its kind at the end of `out`
takes it in. -/
def push (out : List Instr) (r : Run) : List Instr :=
  match out with
  | [] => r.toInstr?.toList
  | prev :: before =>
    match (Run.ofInstr? prev).bind (·.merge? r) with
    | some merged => merged.toInstr?.toList ++ before
    | none => r.toInstr?.toList ++ out

variable {out before : List Instr} {i prev : Instr} {r a c : Run}

theorem push_of_merge (hp : Run.ofInstr? prev = some a) (hm : a.merge? r = some c) :
    push (prev :: before) r = c.toInstr?.toList ++ before := by
  simp only [push, hp, Option.bind_some, hm]

theorem push_of_apart (h : endKind? out ≠ some r.kind) : push out r = r.toInstr?.toList ++ out := by
  rcases out with _ | ⟨prev, before⟩
  · exact (List.append_nil _).symm
  · rcases hp : Run.ofInstr? prev with _ | a
    · simp only [push, hp, Option.bind_none]
    · have hk : a.kind ≠ r.kind := fun hk => h (Instr.kind?_eq_some.2 ⟨a, hp, hk⟩)
      simp only [push, hp, Option.bind_some, Run.merge?_eq_none hk]

theorem extend_of_none (hi : Run.ofInstr? i = none) : extend out i = i :: out := by
  unfold extend
  rw [hi]

theorem extend_of_some (hi : Run.ofInstr? i = some r) : extend out i = push out r := by
  unfold extend
  rw [hi]
  rfl

theorem extend_of_merge (hi : Run.ofInstr? i = some r) (hp : Run.ofInstr? prev = some a)
    (hm : a.merge? r = some c) : extend (prev :: before) i = c.toInstr?.toList ++ before :=
  (extend_of_some hi).trans (push_of_merge hp hm)

theorem extend_of_apart (hi : Run.ofInstr? i = some r) (h : endKind? out ≠ some r.kind) :
    extend out i = r.toInstr?.toList ++ out :=
  (extend_of_some hi).trans (push_of_apart h)

end Program

end TapeLang
