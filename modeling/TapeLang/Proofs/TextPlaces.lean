import TapeLang.Token

/-!
# Places in a text

Where a character stands can be read off the text before it: the line is one more than the newlines
there, the column one more than the characters since the last of them (`Position.behind`). The scan
counts along as it goes, and its tokens carry these places.

* `Position.start_advanceAll`: counting along gives the place behind a text.
* `Token.mem_scan_iff`: the tokens of a text are its commands, each at its place.
-/

namespace TapeLang

namespace Position

/-- The place of the character that comes right behind the text `before`. -/
def behind (before : List Char) : Position :=
  ⟨before.count '\n' + 1, (before.reverse.takeWhile (· ≠ '\n')).length + 1⟩

theorem behind_nil : behind [] = start := rfl

theorem behind_concat (before : List Char) (c : Char) :
    behind (before ++ [c]) = (behind before).advance c := by
  by_cases h : c = '\n'
  · subst h
    simp [behind, advance_newline]
  · simp [behind, advance_of_ne h, h]

theorem behind_advanceAll : ∀ (cs before : List Char),
    (behind before).advanceAll cs = behind (before ++ cs)
  | [], before => by rw [advanceAll_nil, List.append_nil]
  | c :: cs, before => by
    rw [advanceAll_cons, ← behind_concat, behind_advanceAll cs, List.append_assoc,
      List.singleton_append]

theorem start_advanceAll (cs : List Char) : start.advanceAll cs = behind cs :=
  behind_advanceAll cs []

end Position

theorem Symbol.ofChar?_eq_some_iff {c : Char} {x : Symbol} : ofChar? c = some x ↔ c = x.char := by
  refine ⟨fun h => (char_of_ofChar? h).symm, ?_⟩
  rintro rfl
  exact ofChar?_char x

namespace Token

/-- A token is that of the first character or comes later. -/
theorem mem_scanFrom_cons {x : Symbol} {p q : Position} {c : Char} {cs : List Char} :
    ⟨.command x, p⟩ ∈ scanFrom q (c :: cs) ↔
      (c = x.char ∧ p = q) ∨ ⟨.command x, p⟩ ∈ scanFrom (q.advance c) cs := by
  rw [scanFrom]
  rcases hc : Symbol.ofChar? c with _ | y
  · have hne : c ≠ x.char := fun h => by simp [h] at hc
    simp [hne]
  · obtain rfl := Symbol.ofChar?_eq_some_iff.1 hc
    have hxy : y.char = x.char ↔ x = y := by
      rw [← Symbol.ofChar?_eq_some_iff, hc, Option.some.injEq, eq_comm]
    simp [hxy]

theorem mem_scanFrom_iff {x : Symbol} {p : Position} : ∀ {cs before : List Char},
    ⟨.command x, p⟩ ∈ scanFrom (.behind before) cs ↔
      ∃ front back, cs = front ++ x.char :: back ∧ p = .behind (before ++ front)
  | [], before => by simp [scanFrom]
  | c :: cs, before => by
    rw [mem_scanFrom_cons, ← Position.behind_concat, mem_scanFrom_iff]
    constructor
    · rintro (⟨rfl, rfl⟩ | ⟨front, back, rfl, rfl⟩)
      · exact ⟨[], cs, rfl, by rw [List.append_nil]⟩
      · exact ⟨c :: front, back, rfl, by simp⟩
    · rintro ⟨front, back, heq, rfl⟩
      rcases List.cons_eq_append_iff.1 heq with ⟨rfl, h⟩ | ⟨front, rfl, rfl⟩
      · cases h
        exact .inl ⟨rfl, by rw [List.append_nil]⟩
      · exact .inr ⟨front, back, rfl, by simp⟩

/-- **The tokens of a text are its commands, each at its place.** -/
theorem mem_scan_iff {x : Symbol} {p : Position} {code : String} : ⟨.command x, p⟩ ∈ scan code ↔
    ∃ before after, code.toList = before ++ x.char :: after ∧ p = .behind before := by
  rw [scan_eq_scanFrom, ← Position.behind_nil, mem_scanFrom_iff]
  rfl

end Token

end TapeLang
