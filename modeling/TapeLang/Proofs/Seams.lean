import TapeLang.Proofs.FixedPoints

/-!
# Programs in two parts

Compacting two parts of a program on their own and then what they come to gives the same as
compacting the whole: what cancels out at the seam may bring earlier and later instructions
together, but these are taken in one by one just as they would be in the whole program.

The sign of a merged change depends on the order in which its parts are summed up, so the two
results are compared by `Program.unsigned`, in which a subtraction is written as an addition.

* `Run.effect`: what a run does. It determines the instruction that the run becomes, but for its
  sign and place, and merged runs have their effects one after the other.
* `Program.push_push`, `Program.unsigned_compactOnto_toInstr?`: it makes no difference whether two
  runs are added one after the other or merged first, and a run may be turned into its instruction
  before it is added.
* `Program.unsigned_compactOnto_compactOnto`: so a program may be compacted before it is added. The
  induction is along the program.
-/

namespace TapeLang

mutual

/-- The instruction without places, and with an addition for a subtraction. -/
def Instr.unsigned : Instr → Instr
  | .moveLeft n _ _ => .moveLeft n none []
  | .moveRight n _ _ => .moveRight n none []
  | .add d _ => .add d none
  | .sub d _ => .add (Cell.modulus - d) none
  | .set v _ => .set v none
  | .output _ => .output none
  | .input _ => .input none
  | .loop body _ => .loop (Program.unsigned body) none
  | .unknown n => .unknown n

/-- The program without places, and with additions for subtractions. -/
def Program.unsigned : Program → Program
  | [] => []
  | i :: rest => i.unsigned :: Program.unsigned rest

end

namespace Program

theorem unsigned_cons (i : Instr) (p : Program) : unsigned (i :: p) = i.unsigned :: p.unsigned :=
  rfl

theorem unsigned_eq_map (p : Program) : p.unsigned = p.map Instr.unsigned := by
  induction p with
  | nil => rfl
  | cons i p ih => rw [unsigned_cons, ih, List.map_cons]

theorem unsigned_append (p q : Program) : unsigned (p ++ q) = p.unsigned ++ q.unsigned := by
  rw [unsigned_eq_map, unsigned_eq_map, unsigned_eq_map, List.map_append]

theorem unsigned_reverse (p : Program) : unsigned p.reverse = p.unsigned.reverse := by
  rw [unsigned_eq_map, unsigned_eq_map, List.map_reverse]

theorem unsigned_toList (o : Option Instr) :
    unsigned o.toList = (o.map Instr.unsigned).toList := by
  cases o <;> rfl

end Program

/-! ### What a run does -/

/-- What a run does: how far it moves the cursor, or what becomes of the number in the cell. -/
inductive Run.Effect where
  | move (offset : Int)
  | cell (value : Int → Int)

def Run.Effect.kind : Effect → Kind
  | move _ => .move
  | cell _ => .cell

/-- One effect after the other, where they are of the same kind. -/
def Run.Effect.andThen : Effect → Effect → Effect
  | move a, move b => move (a + b)
  | cell f, cell g => cell fun v => g (f v)
  | e, _ => e

def Run.effect : Run → Run.Effect
  | move m => .move m.offset
  | cell c => .cell fun v => c.value v % Cell.modulus

theorem Move.unsigned_toInstr? {a b : Move} (h : a.offset = b.offset) :
    a.toInstr?.map Instr.unsigned = b.toInstr?.map Instr.unsigned := by
  rcases Int.lt_trichotomy a.offset 0 with hneg | hzero | hpos
  · rw [toInstr?_of_neg hneg, toInstr?_of_neg (h ▸ hneg), h]
    rfl
  · rw [toInstr?_of_zero hzero, toInstr?_of_zero (h ▸ hzero)]
  · rw [toInstr?_of_pos hpos, toInstr?_of_pos (h ▸ hpos), h]
    rfl

namespace CellOp

/-- Without its sign, the instruction for a change depends on the sum modulo the cell range. -/
theorem unsigned_shift (d : Int) (p : Option Position) : (shift d p).toInstr?.map Instr.unsigned =
    if d % Cell.modulus = 0 then none else some (.add (d % Cell.modulus) none) := by
  by_cases h0 : d % Cell.modulus = 0
  · rw [toInstr?_of_cancelled h0, if_pos h0, Option.map_none]
  rw [if_neg h0]
  by_cases hd : 0 < d
  · rw [toInstr?_of_pos h0 hd]
    rfl
  · have hmod : Cell.modulus - -d % Cell.modulus = d % Cell.modulus := by
      unfold Cell.modulus at h0 ⊢
      omega
    rw [toInstr?_of_neg h0 hd, Option.map_some, Instr.unsigned, hmod]

theorem unsigned_toInstr? {a b : CellOp}
    (h : ∀ v, a.value v % Cell.modulus = b.value v % Cell.modulus) :
    a.toInstr?.map Instr.unsigned = b.toInstr?.map Instr.unsigned := by
  have h0 := h 0
  have h1 := h 1
  rcases a with ⟨d, p⟩ | ⟨v, p⟩ <;> rcases b with ⟨e, q⟩ | ⟨w, q⟩
  · rw [value_shift, value_shift, Int.zero_add, Int.zero_add] at h0
    rw [unsigned_shift, unsigned_shift, h0]
  · -- a change tells two numbers apart and an assignment does not
    simp only [value, Cell.modulus] at h0 h1
    omega
  · simp only [value, Cell.modulus] at h0 h1
    omega
  · have hv : v % Cell.modulus = w % Cell.modulus := h0
    show some (Instr.set (v % Cell.modulus) none) = some (.set (w % Cell.modulus) none)
    rw [hv]

end CellOp

namespace Run

variable {a b c : Run} {i j : Instr}

theorem kind_effect : ∀ r : Run, r.effect.kind = r.kind
  | move _ => rfl
  | cell _ => rfl

theorem kind_of_effect (h : a.effect = b.effect) : a.kind = b.kind := by
  rw [← kind_effect a, ← kind_effect b, h]

/-- Without its sign, the instruction for a run depends on what the run does. -/
theorem unsigned_toInstr? (h : a.effect = b.effect) :
    a.toInstr?.map Instr.unsigned = b.toInstr?.map Instr.unsigned := by
  rcases a with m | a <;> rcases b with n | b
  · exact Move.unsigned_toInstr? (Effect.move.inj h)
  · cases h
  · cases h
  · exact CellOp.unsigned_toInstr? (congrFun (Effect.cell.inj h))

/-- **A merged run does what its parts do**, one after the other. -/
theorem effect_merge? (h : a.merge? b = some c) : c.effect = a.effect.andThen b.effect := by
  rcases a with a | a <;> rcases b with b | b <;> cases h
  · exact congrArg Effect.move (Move.offset_merge a b)
  · refine congrArg Effect.cell (funext fun v => ?_)
    show _ = b.value (a.value v % Cell.modulus) % Cell.modulus
    rw [CellOp.value_merge, b.value_congr (Int.emod_emod (a.value v) Cell.modulus)]

/-- Merging is associative. -/
theorem effect_assoc {ab bc x y : Run} (hab : a.merge? b = some ab) (hbc : b.merge? c = some bc)
    (hx : ab.merge? c = some x) (hy : a.merge? bc = some y) : x.effect = y.effect := by
  rw [effect_merge? hx, effect_merge? hab, effect_merge? hy, effect_merge? hbc]
  rcases a with a | a <;> rcases b with b | b <;> cases hab <;> rcases c with c | c <;> cases hbc
  · exact congrArg Effect.move (Int.add_assoc _ _ _)
  · rfl

/-- A run that comes to nothing does not count when it is merged. -/
theorem effect_of_idle_left (ha : a.toInstr? = none) (h : a.merge? b = some c) :
    c.effect = b.effect := by
  rw [effect_merge? h]
  rcases a with a | a <;> rcases b with b | b <;> cases h
  · have hzero : a.offset = 0 := Move.offset_of_toInstr?_eq_none ha
    simp only [effect, Effect.andThen, hzero, Int.zero_add]
  · have hidle := (CellOp.cancelled_of_toInstr?_eq_none ha).1
    refine congrArg Effect.cell (funext fun v => ?_)
    show b.value (a.value v % Cell.modulus) % Cell.modulus = _
    rw [hidle, b.value_congr (Int.emod_emod v Cell.modulus)]

theorem effect_of_idle_right (hb : b.toInstr? = none) (h : a.merge? b = some c) :
    c.effect = a.effect := by
  rw [effect_merge? h]
  rcases a with a | a <;> rcases b with b | b <;> cases h
  · have hzero : b.offset = 0 := Move.offset_of_toInstr?_eq_none hb
    simp only [effect, Effect.andThen, hzero, Int.add_zero]
  · have hidle := (CellOp.cancelled_of_toInstr?_eq_none hb).1
    refine congrArg Effect.cell (funext fun v => ?_)
    show b.value (a.value v % Cell.modulus) % Cell.modulus = _
    rw [hidle, Int.emod_emod]

theorem exists_of_toInstr? (h : a.toInstr? = some i) :
    ∃ b, ofInstr? i = some b ∧ b.effect = a.effect := by
  rcases a with m | a
  · obtain ⟨m', hm, hoff⟩ := Move.exists_of_toInstr?_eq_some h
    exact ⟨_, hm, congrArg Effect.move hoff⟩
  · obtain ⟨a', ha, hval, -⟩ := CellOp.exists_of_toInstr?_eq_some h
    exact ⟨_, ha, congrArg Effect.cell (funext hval)⟩

/-- An instruction has the effect that it has without its sign. -/
theorem effect_unsigned (i : Instr) :
    (ofInstr? i.unsigned).map effect = (ofInstr? i).map effect := by
  cases i with
  | sub d p =>
    refine congrArg (fun f => some (Effect.cell f)) (funext fun v => ?_)
    simp only [CellOp.value_shift, Cell.modulus]
    omega
  | _ => rfl

/-- Instructions that differ in sign merge with the same runs, to the same effect. -/
theorem effect_congr (h : i.unsigned = j.unsigned) :
    (ofInstr? i).map effect = (ofInstr? j).map effect := by
  rw [← effect_unsigned i, ← effect_unsigned j, h]

end Run

theorem Instr.kind?_eq_effect (i : Instr) :
    i.kind? = ((Run.ofInstr? i).map Run.effect).map Run.Effect.kind := by
  rw [kind?, Option.map_map]
  exact congrArg (Option.map · _) (funext fun r => (Run.kind_effect r).symm)

/-! ### Adding a run -/

namespace Program

variable {level : Level} {u v w out before : List Instr} {i prev : Instr} {a b c r s : Run}

theorem unsigned_toInstr?_append (hr : r.effect = s.effect) (h : unsigned u = unsigned v) :
    unsigned (r.toInstr?.toList ++ u) = unsigned (s.toInstr?.toList ++ v) := by
  rw [unsigned_append, unsigned_append, unsigned_toList, unsigned_toList, Run.unsigned_toInstr? hr,
    h]

theorem endKind?_congr (h : unsigned u = unsigned v) : endKind? u = endKind? v := by
  rcases u with _ | ⟨i, u⟩ <;> rcases v with _ | ⟨j, v⟩
  · rfl
  · cases h
  · cases h
  · have he := Run.effect_congr (List.cons.inj h).1
    show i.kind? = j.kind?
    rw [Instr.kind?_eq_effect, Instr.kind?_eq_effect, he]

/-- Signs do not matter when a run is added. -/
theorem push_congr (h : unsigned u = unsigned v) (hr : r.effect = s.effect) :
    unsigned (push u r) = unsigned (push v s) := by
  by_cases hk : endKind? u = some r.kind
  · have hk' : endKind? v = some s.kind := by
      rwa [← endKind?_congr h, ← Run.kind_of_effect hr]
    obtain ⟨i, u', a, rfl, hi, ha⟩ := exists_of_endKind? hk
    obtain ⟨j, v', b, rfl, hj, hb⟩ := exists_of_endKind? hk'
    obtain ⟨c, hc, -⟩ := Run.exists_merge? ha
    obtain ⟨d, hd, -⟩ := Run.exists_merge? hb
    obtain ⟨hij, huv⟩ := List.cons.inj h
    have he := Run.effect_congr hij
    rw [hi, hj] at he
    have hab : a.effect = b.effect := Option.some.inj he
    have hcd : c.effect = d.effect := by
      rw [Run.effect_merge? hc, Run.effect_merge? hd, hab, hr]
    rw [push_of_merge hi hc, push_of_merge hj hd]
    exact unsigned_toInstr?_append hcd huv
  · have hk' : endKind? v ≠ some s.kind := by
      rwa [← endKind?_congr h, ← Run.kind_of_effect hr]
    rw [push_of_apart hk, push_of_apart hk']
    exact unsigned_toInstr?_append hr h

/-- Two runs that do not merge with what is there may be merged before they are added. -/
theorem push_push_of_apart (h : endKind? w ≠ some a.kind) (hm : a.merge? b = some c) :
    unsigned (push (push w a) b) = unsigned (push w c) := by
  rw [push_of_apart h]
  rcases ha : a.toInstr? with _ | i
  · exact push_congr rfl (Run.effect_of_idle_left ha hm).symm
  · obtain ⟨a', hi, hs⟩ := Run.exists_of_toInstr? ha
    obtain ⟨hab, hca⟩ := Run.kind_of_merge? hm
    obtain ⟨c', hm', -⟩ := Run.exists_merge? ((Run.kind_of_effect hs).trans hab)
    have hc : c'.effect = c.effect := by rw [Run.effect_merge? hm, Run.effect_merge? hm', hs]
    rw [← hca] at h
    rw [push_of_apart h]
    show unsigned (push (i :: w) b) = _
    rw [push_of_merge hi hm']
    exact unsigned_toInstr?_append hc rfl

/-- **Two runs may be merged before they are added.** A run at the end takes in both, and what is
before it has no run of their kind at its end. -/
theorem push_push (hw : Normal level w) (hm : a.merge? b = some c) :
    unsigned (push (push w a) b) = unsigned (push w c) := by
  by_cases h : endKind? w = some a.kind
  · obtain ⟨prev, before, e, rfl, hp, hk⟩ := exists_of_endKind? h
    obtain ⟨ea, hea, heak⟩ := Run.exists_merge? hk
    have hbefore : endKind? before ≠ some ea.kind :=
      hw.endKind?_ne (Instr.kind?_eq_some.2 ⟨e, hp, hk.trans heak.symm⟩)
    obtain ⟨hab, hca⟩ := Run.kind_of_merge? hm
    obtain ⟨x, hx, -⟩ := Run.exists_merge? (heak.trans hab)
    obtain ⟨y, hy, hyk⟩ := Run.exists_merge? (hk.trans hca.symm)
    calc unsigned (push (push (prev :: before) a) b)
        = unsigned (push (push before ea) b) := by rw [push_of_merge hp hea, push_of_apart hbefore]
      _ = unsigned (push before x) := push_push_of_apart hbefore hx
      _ = unsigned (push before y) := push_congr rfl (Run.effect_assoc hea hm hx hy)
      _ = unsigned (push (prev :: before) c) := by
        rw [push_of_merge hp hy, push_of_apart]
        rwa [hyk, hca, ← heak]
  · exact push_push_of_apart h hm

/-- A run may be turned into its instruction before it is added. -/
theorem unsigned_compactOnto_toInstr? (hw : Normal level w) (r : Run) :
    unsigned (compactOnto level w r.toInstr?.toList) = unsigned (push w r) := by
  rcases hr : r.toInstr? with _ | i
  · show unsigned (compactOnto level w []) = _
    rw [compactOnto_nil]
    by_cases h : endKind? w = some r.kind
    · obtain ⟨prev, before, e, rfl, hp, hk⟩ := exists_of_endKind? h
      obtain ⟨c, hm, -⟩ := Run.exists_merge? hk
      have he : e.toInstr? = some prev := (hw.canonical prev (.head _)).toInstr? hp
      calc unsigned (prev :: before) = unsigned (e.toInstr?.toList ++ before) := by rw [he]; rfl
        _ = unsigned (c.toInstr?.toList ++ before) :=
          unsigned_toInstr?_append (Run.effect_of_idle_right hr hm).symm rfl
        _ = unsigned (push (prev :: before) r) := by rw [push_of_merge hp hm]
    · rw [push_of_apart h, hr]
      rfl
  · obtain ⟨r', hi, hs⟩ := Run.exists_of_toInstr? hr
    show unsigned (compactOnto level w [i]) = _
    rw [compactOnto_cons, compactOnto_nil, Instr.compactOnto_of_simple (Run.isLoop_of_ofInstr? hi),
      extend_of_some hi]
    exact push_congr rfl hs

/-! ### Adding a program -/

/-- Signs do not matter when an instruction is added. -/
theorem unsigned_extend_congr (h : unsigned u = unsigned v) (i : Instr) :
    unsigned (extend u i) = unsigned (extend v i) := by
  rcases hi : Run.ofInstr? i with _ | r
  · rw [extend_of_none hi, extend_of_none hi, unsigned_cons, unsigned_cons, h]
  · rw [extend_of_some hi, extend_of_some hi]
    exact push_congr h rfl

theorem unsigned_compactOnto_congr (q : Program) : ∀ {u v : List Instr}, unsigned u = unsigned v →
    unsigned (compactOnto level u q) = unsigned (compactOnto level v q) := by
  induction q with
  | nil =>
    intro u v h
    rw [compactOnto_nil, compactOnto_nil, h]
  | cons i q ih =>
    intro u v h
    rw [compactOnto_cons, compactOnto_cons]
    refine ih ?_
    rcases i.isLoop_cases with hl | ⟨b, pos, rfl⟩
    · rw [Instr.compactOnto_of_simple hl, Instr.compactOnto_of_simple hl]
      exact unsigned_extend_congr h i
    · rw [Instr.compactOnto_loop, Instr.compactOnto_loop]
      unfold extendLoop
      split
      · exact unsigned_extend_congr h _
      · rw [unsigned_cons, unsigned_cons, h]

/-- What is added to the end of a program may be added before the program is. -/
theorem unsigned_compactOnto_extend (hw : Normal level w) (hout : Normal level out)
    (hl : i.isLoop = false) : unsigned (compactOnto level w (extend out i).reverse) =
      unsigned (extend (compactOnto level w out.reverse) i) := by
  have hend : ∀ (o : Option Instr) (p : List Instr), compactOnto level w (o.toList ++ p).reverse =
      compactOnto level (compactOnto level w p.reverse) o.toList := by
    intro o p
    rw [List.reverse_append, compactOnto_append]
    cases o <;> rfl
  rcases hi : Run.ofInstr? i with _ | r
  · rw [extend_of_none hi, extend_of_none hi, List.reverse_cons, compactOnto_append,
      compactOnto_cons, compactOnto_nil, Instr.compactOnto_of_simple hl, extend_of_none hi]
  by_cases h : endKind? out = some r.kind
  · obtain ⟨prev, before, a, rfl, hp, hk⟩ := exists_of_endKind? h
    obtain ⟨c, hm, -⟩ := Run.exists_merge? hk
    have hn := normal_compactOnto level before.reverse w hw
    rw [extend_of_merge hi hp hm, hend, List.reverse_cons, compactOnto_append, compactOnto_cons,
      compactOnto_nil, Instr.compactOnto_of_simple (Run.isLoop_of_ofInstr? hp), extend_of_some hp,
      extend_of_some hi, push_push hn hm]
    exact unsigned_compactOnto_toInstr? hn c
  · rw [extend_of_apart hi h, hend, extend_of_some hi]
    exact unsigned_compactOnto_toInstr? (normal_compactOnto level out.reverse w hw) r

theorem unsigned_compactOnto_step (hw : Normal level w) (hout : Normal level out) (i : Instr) :
    unsigned (compactOnto level w (i.compactOnto level out).reverse) =
      unsigned (i.compactOnto level (compactOnto level w out.reverse)) := by
  rcases i.isLoop_cases with hl | ⟨b, pos, rfl⟩
  · rw [Instr.compactOnto_of_simple hl, Instr.compactOnto_of_simple hl]
    exact unsigned_compactOnto_extend hw hout hl
  · -- a body is compacted once and for all
    have hbody := compactOnto_reverse (normal_compactOnto level b [] .nil)
    rw [Instr.compactOnto_loop, Instr.compactOnto_loop]
    by_cases hclear : level = .loops ∧ isClearLoop (compactOnto level [] b).reverse = true
    · rw [extendLoop, if_pos hclear, extendLoop, if_pos hclear]
      exact unsigned_compactOnto_extend hw hout rfl
    · rw [extendLoop, if_neg hclear, List.reverse_cons, compactOnto_append, compactOnto_cons,
        compactOnto_nil, Instr.compactOnto_loop, hbody]

/-- **A program may be compacted before it is added.** -/
theorem unsigned_compactOnto_compactOnto (hw : Normal level w) (q : Program) :
    ∀ {out : List Instr}, Normal level out →
      unsigned (compactOnto level w (compactOnto level out q).reverse) =
        unsigned (compactOnto level (compactOnto level w out.reverse) q) := by
  induction q with
  | nil =>
    intro out _
    rw [compactOnto_nil, compactOnto_nil]
  | cons i q ih =>
    intro out hout
    have hnext : Normal level (i.compactOnto level out) := by
      have h := normal_compactOnto level [i] out hout
      rwa [compactOnto_cons, compactOnto_nil] at h
    rw [compactOnto_cons, compactOnto_cons, ih hnext]
    exact unsigned_compactOnto_congr q (unsigned_compactOnto_step hw hout i)

end Program

/-- **It makes no difference where a program is cut in two**: compacting the parts and then what
they come to gives the compacted program, but for places and signs. -/
theorem compact_at_seam (level : Int) (p q : Program) :
    Program.unsigned ((p ++ q).compact level) =
      Program.unsigned ((p.compact level ++ q.compact level).compact level) := by
  have hp := Program.normal_compactOnto (.ofInt level) p [] .nil
  have hseam := Program.unsigned_compactOnto_compactOnto hp q .nil
  rw [List.reverse_nil, Program.compactOnto_nil] at hseam
  rw [Program.compact_eq level (p ++ q), Program.compactOnto_append, Program.compact_eq level p,
    Program.compact_eq level q, Program.compact_eq level (_ ++ _), Program.compactOnto_append,
    Program.compactOnto_reverse hp, Program.unsigned_reverse, Program.unsigned_reverse, hseam]

/-- The sign may differ. In the whole program the difference of two is below zero when the second
subtraction is added; in the second part on its own the subtractions cancel out. -/
example : Program.compactRec 1 ([.add 3 none] ++ [.sub 1 none, .sub 4294967295 none]) =
      [.sub 4294967293 none] ∧
    Program.compactRec 1 [.sub 1 none, .sub 4294967295 none] = [] := ⟨rfl, rfl⟩

end TapeLang
