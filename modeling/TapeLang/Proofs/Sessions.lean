import TapeLang.Machine.State
import TapeLang.Proofs.TapeOps

/-!
# Sessions on a tape

A session is any sequence of operations on a new tape. It goes on after a fault, with the tape as it
was before the operation that failed.

* `Tape.Valid.performed`: what one operation does to a valid tape, and when it fails.
* `Tape.follows_after`: what holds of two moments of a session, the earlier and the later.
* `Tape.highWater_mem_cursors`, `Tape.le_highWater`: the high-water mark is the largest of all the
  cursors that the session has seen.
* `session_kept`: all of this for sessions on a tape that was made with given sizes.
-/

namespace TapeLang

namespace Tape

/-- An operation on a tape. -/
inductive Op where
  | move (d : Int)
  | write (v : Int)
  | change (d : Int)
  | read
deriving DecidableEq

/-- The number that an operation leaves in the cell under the cursor, if `old` was there. It is
stored modulo the cell range. -/
def Op.stored (old : Int) : Op → Int
  | move _ | read => old
  | write v => v
  | change d => old + d

/-- Performs an operation: what is raised, if it fails, and the tape that is left. -/
def perform (t : Tape) : Op → Option Raised × Tape
  | .move d =>
    match t.move d with
    | .ok u => (none, u)
    | .error f => (some f.raised, t)
  | .write v => (none, t.write v)
  | .change d => (none, t.change d)
  | .read => (none, t)

/-- The tape after a session. -/
def after (t : Tape) (ops : List Op) : Tape := ops.foldl (fun t op => (t.perform op).2) t

/-- The cursors of a session, before the first operation and after each. -/
def cursors (t : Tape) : List Op → List Nat
  | [] => [t.cursor]
  | op :: ops => t.cursor :: cursors (t.perform op).2 ops

theorem after_cons (t : Tape) (op : Op) (ops : List Op) :
    t.after (op :: ops) = (t.perform op).2.after ops := rfl

theorem after_append (t : Tape) (ops more : List Op) :
    t.after (ops ++ more) = (t.after ops).after more := List.foldl_append

variable {t u : Tape} {d : Int} {op : Op}

theorem perform_of_ok (h : t.move d = .ok u) : t.perform (.move d) = (none, u) := by
  simp only [perform, h]

theorem perform_of_error {f : Fault} (h : t.move d = .error f) :
    t.perform (.move d) = (some f.raised, t) := by
  simp only [perform, h]

/-! ### One operation -/

/-- The tape `u` follows `t` in a session. -/
structure Follows (t u : Tape) : Prop where
  valid : u.Valid
  limit : u.limit = t.limit
  length_le : t.length ≤ u.length
  highWater_le : t.highWater ≤ u.highWater

theorem Valid.follows_self (h : t.Valid) : t.Follows t :=
  ⟨h, rfl, Nat.le_refl _, Nat.le_refl _⟩

theorem Follows.trans {v : Tape} (h : t.Follows u) (h' : u.Follows v) : t.Follows v where
  valid := h'.valid
  limit := h'.limit.trans h.limit
  length_le := Nat.le_trans h.length_le h'.length_le
  highWater_le := Nat.le_trans h.highWater_le h'.highWater_le

/-- What an operation on `t` comes to: the failure `r`, if it is one, and the tape `u`. -/
structure Performed (t : Tape) (op : Op) (r : Option Raised) (u : Tape) : Prop extends
    Follows t u where
  /-- The high-water mark rises with the cursor, and only with it. -/
  highWater : u.highWater = max t.highWater u.cursor
  /-- Only the cell under the cursor changes, growth adds zero cells. -/
  cell k : ((u.cells.getD k 0).toNat : Int) =
    if k = t.cursor then op.stored t.read.toNat % Cell.modulus else (t.cells.getD k 0).toNat
  underflow_iff : ∀ d, op = .move d → (r.bind Raised.category? = some .underflow ↔
    t.cursor + d < 0 ∧ Text.isWritable (t.cursor + d) = true)
  outOfMemory_iff : ∀ d, op = .move d → (r.bind Raised.category? = some .outOfMemory ↔
    t.limit ≤ t.cursor + d ∧ Text.isWritable (t.cursor + d) = true)
  /-- Off the tape, the number of the cell may be too long for the text of the error. -/
  tooLong_iff : ∀ d, op = .move d → (r = some .tooLong ↔
    (t.cursor + d < 0 ∨ t.limit ≤ t.cursor + d) ∧ Text.isWritable (t.cursor + d) = false)
  moved_iff : ∀ d, op = .move d → (r = none ↔ 0 ≤ t.cursor + d ∧ t.cursor + d < t.limit)
  moved : ∀ d, op = .move d → r = none → (u.cursor : Int) = t.cursor + d
  /-- Only moves fail or change the cursor and the length. -/
  unmoved : (∀ d, op ≠ .move d) → r = none ∧ u.cursor = t.cursor ∧ u.length = t.length
  failed : r ≠ none → u = t

theorem length_le_of_move (h : t.move d = .ok u) : t.length ≤ u.length := by
  simp only [move] at h
  split at h
  · cases h
  split at h
  · cases h
    exact Nat.le_refl _
  split at h
  · cases h
  · cases h
    rw [length_goto, length_extend]
    omega

/-- What is in a cell, as a number in the cell range. -/
theorem toNat_emod (c : Cell) : (c.toNat : Int) % Cell.modulus = c.toNat := by
  have h := c.toNat_lt
  unfold Cell.modulus
  omega

/-- A cell that no operation touches. -/
theorem cell_of_same (k : Nat) (hs : op.stored t.read.toNat = t.read.toNat)
    (h : u.cells.getD k 0 = t.cells.getD k 0) : ((u.cells.getD k 0).toNat : Int) =
      if k = t.cursor then op.stored t.read.toNat % Cell.modulus else (t.cells.getD k 0).toNat := by
  rw [h, hs, toNat_emod]
  split
  · next hk => rw [hk, read]
  · rfl

theorem Valid.performed_of_fault (h : t.Valid) {g : Fault} (hg : t.move d = .error g) :
    Performed t (.move d) (some g.raised) t := by
  have hcases := h.move_failed hg
  have hoff : t.cursor + d < 0 ∨ t.limit ≤ t.cursor + d := hcases.imp And.left And.left
  have hu : g.category = .underflow ↔ t.cursor + d < 0 := by
    rcases hcases with ⟨h0, rfl⟩ | ⟨h1, rfl⟩
    · exact iff_of_true rfl h0
    · exact iff_of_false (fun hc => nomatch hc) (by omega)
  have ho : g.category = .outOfMemory ↔ t.limit ≤ t.cursor + d := by
    rcases hcases with ⟨h0, rfl⟩ | ⟨h1, rfl⟩
    · exact iff_of_false (fun hc => nomatch hc) (by omega)
    · exact iff_of_true rfl h1
  rw [Fault.raised, h.raised_of_move hg rfl]
  refine ⟨h.follows_self, ?_, fun k => cell_of_same k rfl rfl, ?_, ?_, ?_, ?_, fun _ _ hr => ?_,
    fun hm => absurd rfl (hm d), fun _ => rfl⟩
  · have := h.cursor_le
    omega
  · rintro _ ⟨⟩
    split
    · next hw => simp only [Option.bind_some, Raised.category?, Fault.report, Option.some.injEq, hu,
        hw, and_true]
    · next hw => simp [Raised.category?, hw]
  · rintro _ ⟨⟩
    split
    · next hw => simp only [Option.bind_some, Raised.category?, Fault.report, Option.some.injEq, ho,
        hw, and_true]
    · next hw => simp [Raised.category?, hw]
  · rintro _ ⟨⟩
    split
    · next hw => simp [hw]
    · next hw => simp [hw, hoff]
  · rintro _ ⟨⟩
    exact iff_of_false (fun hr => nomatch hr) (by omega)
  · cases hr

theorem Valid.performed_of_moved (h : t.Valid) (hu : t.move d = .ok u) :
    Performed t (.move d) none u := by
  obtain ⟨hm, h0, h1⟩ := h.moved hu
  have hw : t.highWater ≤ u.highWater := by
    have := hm.highWater
    omega
  refine ⟨⟨hm.valid, hm.limit, length_le_of_move hu, hw⟩, hm.highWater,
    fun k => cell_of_same k rfl (hm.getD k), ?_, ?_, ?_, ?_, ?_, fun hne => absurd rfl (hne d), ?_⟩
  · rintro _ ⟨⟩
    exact iff_of_false (fun hr => nomatch hr) (by omega)
  · rintro _ ⟨⟩
    exact iff_of_false (fun hr => nomatch hr) (by omega)
  · rintro _ ⟨⟩
    exact iff_of_false (fun hr => nomatch hr) (by omega)
  · rintro _ ⟨⟩
    exact iff_of_true rfl ⟨h0, h1⟩
  · rintro _ ⟨⟩ -
    exact hm.cursor
  · exact fun hf => absurd rfl hf

theorem Valid.performed_write (h : t.Valid) {v : Int} (hv : op.stored t.read.toNat = v)
    (hm : ∀ d, op ≠ .move d) : Performed t op none (t.write v) where
  valid := h.write v
  limit := rfl
  length_le := Nat.le_of_eq (length_write t v).symm
  highWater_le := Nat.le_refl _
  highWater := by
    have h1 := h.cursor_le
    show t.highWater = max t.highWater t.cursor
    omega
  cell k := by
    rw [h.getD_write, hv]
    split
    · exact Cell.toNat_ofInt v
    · rfl
  underflow_iff d hd := absurd hd (hm d)
  outOfMemory_iff d hd := absurd hd (hm d)
  tooLong_iff d hd := absurd hd (hm d)
  moved_iff d hd := absurd hd (hm d)
  moved d hd := absurd hd (hm d)
  unmoved _ := ⟨rfl, rfl, length_write t v⟩
  failed hf := absurd rfl hf

/-- **What an operation does to a valid tape.** -/
theorem Valid.performed (h : t.Valid) (op : Op) :
    Performed t op (t.perform op).1 (t.perform op).2 := by
  cases op with
  | move d =>
    rcases hmove : t.move d with f | u
    · rw [perform_of_error hmove]
      exact h.performed_of_fault hmove
    · rw [perform_of_ok hmove]
      exact h.performed_of_moved hmove
  | write v => exact h.performed_write rfl fun d hd => nomatch hd
  | change d =>
    have hw : Performed t (.change d) none (t.write (t.read.toNat + d)) :=
      h.performed_write rfl fun d hd => nomatch hd
    rw [← h.change_eq_write] at hw
    exact hw
  | read =>
    have hw : Performed t .read none (t.write t.read.toNat) :=
      h.performed_write rfl fun d hd => nomatch hd
    rw [h.write_read] at hw
    exact hw

/-! ### Whole sessions -/

/-- **Later moments of a session follow earlier ones.** -/
theorem follows_after : ∀ (ops : List Op) {t : Tape}, t.Valid → t.Follows (t.after ops)
  | [], _, h => h.follows_self
  | op :: ops, _, h => (h.performed op).toFollows.trans (follows_after ops (h.performed op).valid)

theorem le_highWater : ∀ (ops : List Op) {t : Tape}, t.Valid →
    ∀ c ∈ t.cursors ops, c ≤ (t.after ops).highWater
  | [], t, h, c, hc => by
    obtain rfl := List.mem_singleton.1 hc
    exact h.cursor_le
  | op :: ops, t, h, c, hc => by
    have hp := h.performed op
    rcases List.mem_cons.1 hc with rfl | hc
    · have h1 := h.cursor_le
      have h2 := (follows_after (op :: ops) h).highWater_le
      omega
    · exact le_highWater ops hp.valid c hc

theorem cursor_mem_cursors (t : Tape) (ops : List Op) : t.cursor ∈ t.cursors ops := by
  cases ops <;> simp [cursors]

theorem highWater_mem_cursors : ∀ (ops : List Op) {t : Tape}, t.Valid →
    (t.after ops).highWater = t.highWater ∨ (t.after ops).highWater ∈ t.cursors ops
  | [], _, _ => .inl rfl
  | op :: ops, t, h => by
    have hp := h.performed op
    rw [after_cons, cursors]
    rcases highWater_mem_cursors ops hp.valid with heq | hmem
    · -- the mark has not risen since the operation, which left it or put it at the cursor
      rcases Nat.le_total (t.perform op).2.cursor t.highWater with hle | hle
      · left
        rw [heq, hp.highWater, Nat.max_eq_left hle]
      · right
        rw [heq, hp.highWater, Nat.max_eq_right hle]
        exact .tail _ (cursor_mem_cursors _ ops)
    · exact .inr (.tail _ hmem)

/-- What holds of the tape `t` in a session that has seen the cursors `past`. -/
structure Kept (initial limit : Int) (past : List Nat) (t : Tape) : Prop where
  limit_eq : (t.limit : Int) = limit
  initial_le : initial ≤ t.length
  length_le : t.length ≤ t.limit
  cursor_le : t.cursor ≤ t.highWater
  highWater_lt : t.highWater < t.length
  highWater_mem : t.highWater ∈ past
  le_highWater c : c ∈ past → c ≤ t.highWater
  cell_lt k : ((t.cells.getD k 0).toNat : Int) < Cell.modulus
  zero k : t.highWater < k → t.cells.getD k 0 = 0

theorem kept_after {initial limit : Int} {t₀ : Tape} (made : make initial limit = .ok t₀)
    (ops : List Op) : Kept initial limit (t₀.cursors ops) (t₀.after ops) := by
  obtain ⟨⟨h1, h2⟩, rfl⟩ := make_eq_ok.1 made
  have hv : (blank initial.toNat limit.toNat).Valid := valid_blank (by omega) (by omega)
  have hf := follows_after ops hv
  have hlen : (blank initial.toNat limit.toNat).length = initial.toNat := by simp [blank, length]
  have hlimit : (blank initial.toNat limit.toNat).limit = limit.toNat := rfl
  refine ⟨?_, ?_, hf.valid.length_le, hf.valid.cursor_le, hf.valid.highWater_lt, ?_,
    le_highWater ops hv, fun k => ?_, hf.valid.zero⟩
  · rw [hf.limit, hlimit]
    omega
  · have := hf.length_le
    omega
  · rcases highWater_mem_cursors ops hv with heq | hmem
    · rw [heq]
      exact cursor_mem_cursors _ ops
    · exact hmem
  · exact Int.ofNat_lt.2 (UInt32.toNat_lt _)

end Tape

/-- A run moves the cursor as a session does. -/
theorem State.move_eq_perform {σ : Type} (s : State σ) (d : Int) :
    (s.move d).1.map Fault.raised = (s.tape.perform (.move d)).1 ∧
      (s.move d).2.tape = (s.tape.perform (.move d)).2 := by
  unfold State.move
  rcases h : s.tape.move d with f | t
  · rw [Tape.perform_of_error h]
    exact ⟨rfl, rfl⟩
  · rw [Tape.perform_of_ok h]
    exact ⟨rfl, rfl⟩

/-- **What is kept in every session on a new tape**, after any operations `ops`: the length is
between the initial length and the limit, the cursor within the reach of the high-water mark, which
is the largest cursor of the session, and all cells beyond the mark are zero. The next operation
changes no cell but the one under the cursor and never shortens the tape. It fails only if it is a
move that leaves the tape at the left or goes beyond the limit, and then it leaves everything as it
was; so it does in a run of a program. The error is an underflow at the left and a lack of memory
beyond the limit, as long as the number of the cell is short enough to be written. -/
theorem session_kept {initial limit : Int} {t₀ : Tape} (made : Tape.make initial limit = .ok t₀)
    (ops : List Tape.Op) :
    Tape.Kept initial limit (t₀.cursors ops) (t₀.after ops) ∧
      (∀ op, Tape.Performed (t₀.after ops) op ((t₀.after ops).perform op).1
        (t₀.after (ops ++ [op]))) ∧
      ∀ (σ : Type) (s : State σ) (d : Int), s.tape = t₀.after ops →
        (s.move d).1.map Fault.raised = ((t₀.after ops).perform (.move d)).1 ∧
          (s.move d).2.tape = t₀.after (ops ++ [.move d]) := by
  have hk := Tape.kept_after made ops
  have hv : (t₀.after ops).Valid := ⟨hk.cursor_le, hk.highWater_lt, hk.length_le, hk.zero⟩
  refine ⟨hk, fun op => ?_, fun σ s d hs => ?_⟩
  · rw [Tape.after_append]
    exact hv.performed op
  · rw [Tape.after_append, ← hs]
    exact s.move_eq_perform d

/-- A tape that has grown to its limit, a move off its left end on the way, and one beyond the
limit. -/
theorem session_kept_atLimit :
    ∃ t₀ t, Tape.make 1 4 = .ok t₀ ∧ t₀.after [.move 3, .write (-1), .move (-5), .change 3] = t ∧
      Tape.Kept 1 4 [0, 3, 3, 3, 3] t ∧ t.length = 4 ∧ t.read = 2 ∧
      (t.perform (.move 1)).1.bind Raised.category? = some .outOfMemory ∧
      t₀.after ([.move 3, .write (-1), .move (-5), .change 3] ++ [.move 1]) = t := by
  have made : Tape.make 1 4 = .ok (.blank 1 4) := rfl
  obtain ⟨kept, performed, -⟩ :=
    session_kept made [.move 3, .write (-1), .move (-5), .change 3]
  have next := performed (.move 1)
  have beyond := (next.outOfMemory_iff 1 rfl).2 ⟨by decide, by decide⟩
  refine ⟨_, _, made, rfl, kept, rfl, rfl, beyond, next.failed fun hf => ?_⟩
  rw [hf] at beyond
  cases beyond

/-- From the second cell of a tape, a move by the largest number that can be written goes far beyond
the limit, but to a cell whose number cannot be written. So no lack of memory is reported. -/
theorem far_move_unreported :
    ∃ t₀ t, Tape.make 1 4 = .ok t₀ ∧ t₀.after [.move 1] = t ∧
      t.limit ≤ t.cursor + (Text.largest : Int) ∧
      t.perform (.move Text.largest) = (some .tooLong, t) := by
  have made : Tape.make 1 4 = .ok (.blank 1 4) := rfl
  have cursor : ((Tape.blank 1 4).after [.move 1]).cursor = 1 := rfl
  have limit : ((Tape.blank 1 4).after [.move 1]).limit = 4 := rfl
  have next := (Tape.follows_after [.move 1] (Tape.valid_of_make made).1).valid.performed
    (.move Text.largest)
  have nine : Int.natAbs 9 ≤ Text.largest := Text.isWritable_iff.1 (by decide)
  have beyond : ((Tape.blank 1 4).after [.move 1]).limit ≤
      ((Tape.blank 1 4).after [.move 1]).cursor + (Text.largest : Int) := by
    rw [cursor, limit]
    omega
  have long : Text.isWritable (((Tape.blank 1 4).after [.move 1]).cursor + Text.largest) =
      false := by
    rw [cursor, Bool.eq_false_iff, ne_eq, Text.isWritable_iff]
    omega
  have raised := (next.tooLong_iff _ rfl).2 ⟨.inr beyond, long⟩
  have same := next.failed (by rw [raised]; exact Option.some_ne_none _)
  exact ⟨_, _, made, rfl, beyond, Prod.ext raised same⟩

end TapeLang
