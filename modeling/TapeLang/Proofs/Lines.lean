import TapeLang.Proofs.TextPlaces
import TapeLang.Text.Excerpt
import Mathlib.Data.List.TakeWhile

/-!
# Lines of a text

Splitting a text at newlines and counting along it agree on what a line is. A text is a line, or a
line, a newline and a text again, and all facts go by this induction (`Text.lineInduction`).

* `Text.newline_not_mem`: a line has no newline; `Excerpt.linesOf_intercalate`: so lines that are
  joined split again.
* `Position.exists_behind`: the place behind a text is an index into the lines of the whole text.
-/

namespace TapeLang

namespace Text

/-- Induction on the lines of a text. -/
theorem lineInduction {motive : List Char → Prop} (single : ∀ l, '\n' ∉ l → motive l)
    (more : ∀ l rest, '\n' ∉ l → motive rest → motive (l ++ '\n' :: rest)) (cs : List Char) :
    motive cs := by
  -- the line grows in front of the text that is left
  have key : ∀ (cs l : List Char), '\n' ∉ l → motive (l ++ cs) := by
    intro cs
    induction cs with
    | nil =>
      intro l hl
      rw [List.append_nil]
      exact single l hl
    | cons c cs ih =>
      intro l hl
      by_cases hc : c = '\n'
      · subst hc
        exact more l cs hl (ih [] (by simp))
      · have hlc : '\n' ∉ l ++ [c] := by simp [hl, Ne.symm hc]
        have h := ih (l ++ [c]) hlc
        rwa [List.append_assoc] at h
  exact key cs [] (by simp)

theorem newline_not_mem {cs l : List Char} (h : l ∈ cs.splitOn '\n') : '\n' ∉ l := by
  induction cs using lineInduction with
  | single t ht =>
    rw [List.splitOn_eq_singleton ht, List.mem_singleton] at h
    rwa [h]
  | more t rest ht ih =>
    rw [List.splitOn_append_cons_self_of_not_mem ht, List.mem_cons] at h
    rcases h with rfl | h
    · exact ht
    · exact ih h

/-- What a text begins with, up to the first newline, its first line begins with. -/
theorem exists_splitOn_append {front : List Char} (hfront : '\n' ∉ front) (rest : List Char) :
    ∃ more lines, (front ++ rest).splitOn '\n' = (front ++ more) :: lines := by
  induction rest using lineInduction with
  | single t ht =>
    have hline : '\n' ∉ front ++ t := by simp [hfront, ht]
    exact ⟨t, [], List.splitOn_eq_singleton hline⟩
  | more t rest ht _ =>
    have hline : '\n' ∉ front ++ t := by simp [hfront, ht]
    refine ⟨t, rest.splitOn '\n', ?_⟩
    rw [← List.append_assoc, List.splitOn_append_cons_self_of_not_mem hline]

theorem isDigit_of_mem_repr {c : Char} {n : Nat} (h : c ∈ n.repr.toList) : c.isDigit = true := by
  rw [Nat.toList_repr] at h
  exact Nat.isDigit_of_mem_toDigits (by decide) (by decide) h

theorem not_mem_repr {c : Char} (h : c.isDigit = false) (n : Nat) : c ∉ n.repr.toList := by
  intro hmem
  rw [isDigit_of_mem_repr hmem] at h
  cases h

end Text

/-! ### Places as indices -/

namespace Position

theorem behind_of_not_mem {l : List Char} (h : '\n' ∉ l) : behind l = ⟨1, l.length + 1⟩ := by
  have hall : l.reverse.takeWhile (· ≠ '\n') = l.reverse := by
    refine List.takeWhile_eq_self_iff.2 fun c hc => ?_
    have hne : c ≠ '\n' := by
      rintro rfl
      exact h (List.mem_reverse.1 hc)
    simpa using hne
  rw [behind, hall, List.count_eq_zero_of_not_mem h, List.length_reverse]
  rfl

/-- A line more in front counts in the line and not in the column. -/
theorem behind_line {l : List Char} (h : '\n' ∉ l) (before : List Char) :
    behind (l ++ '\n' :: before) = ⟨(behind before).line + 1, (behind before).col⟩ := by
  have hstop : List.takeWhile (· ≠ '\n') ('\n' :: l.reverse) = [] := by simp
  have hcount : (l ++ '\n' :: before).count '\n' = before.count '\n' + 1 := by
    simp [List.count_eq_zero_of_not_mem h]
  have hcol : (l ++ '\n' :: before).reverse.takeWhile (· ≠ '\n') =
      before.reverse.takeWhile (· ≠ '\n') := by
    rw [List.reverse_append, List.reverse_cons, List.append_assoc, List.singleton_append,
      List.takeWhile_append, hstop, List.append_nil]
    split
    · next hall => exact (List.takeWhile_prefix _).eq_of_length hall |>.symm
    · rfl
  simp only [behind, hcount, hcol]
  congr 1

/-- **The place behind a text is an index** into the lines of the whole text. -/
theorem exists_behind {c : Char} (hc : c ≠ '\n') (before after : List Char) :
    ∃ (line col : Nat) (text : List Char), behind before = ⟨line + 1, col + 1⟩ ∧
      ((before ++ c :: after).splitOn '\n')[line]? = some text ∧ text[col]? = some c := by
  induction before using Text.lineInduction with
  | single l hl =>
    have hfront : '\n' ∉ l ++ [c] := by simp [hl, Ne.symm hc]
    obtain ⟨more, lines, hsplit⟩ := Text.exists_splitOn_append hfront after
    refine ⟨0, l.length, (l ++ [c]) ++ more, behind_of_not_mem hl, ?_, ?_⟩
    · rw [List.append_cons, hsplit]
      rfl
    · simp
  | more l before hl ih =>
    obtain ⟨line, col, text, hbehind, hline, hcol⟩ := ih
    refine ⟨line + 1, col, text, ?_, ?_, hcol⟩
    · rw [behind_line hl, hbehind]
      rfl
    · rw [List.append_assoc, List.cons_append, List.splitOn_append_cons_self_of_not_mem hl,
        List.getElem?_cons_succ, hline]

end Position

/-! ### Lines and joined lines -/

namespace Excerpt

/-- The line of a text with this number; numbers start at 1. -/
def lineAt (source : String) (number : Nat) : String := (linesOf source).getD (number - 1) ""

theorem newline_not_mem_lineAt (source : String) (number : Nat) :
    '\n' ∉ (lineAt source number).toList := by
  unfold lineAt linesOf
  rw [List.getD_eq_getElem?_getD, List.getElem?_map]
  rcases h : (source.toList.splitOn '\n')[number - 1]? with _ | l
  · simp
  · simpa using Text.newline_not_mem (List.mem_of_getElem? h)

/-- The line that an index finds is there, under its number. -/
theorem lineAt_of_getElem? {source : String} {line : Nat} {text : List Char}
    (h : (source.toList.splitOn '\n')[line]? = some text) :
    line + 1 ≤ (linesOf source).length ∧ lineAt source (line + 1) = String.ofList text := by
  have hget : (linesOf source)[line]? = some (String.ofList text) := by
    rw [linesOf, List.getElem?_map, h, Option.map_some]
  refine ⟨(List.getElem?_eq_some_iff.1 hget).1, ?_⟩
  rw [lineAt, Nat.add_sub_cancel, List.getD_eq_getElem?_getD, hget, Option.getD_some]

/-- **Lines that are joined split again.** -/
theorem linesOf_intercalate {rows : List String} (hne : rows ≠ [])
    (h : ∀ r ∈ rows, '\n' ∉ r.toList) : linesOf ("\n".intercalate rows) = rows := by
  have hlines : ∀ l ∈ rows.map String.toList, '\n' ∉ l := by
    intro l hl
    obtain ⟨r, hr, rfl⟩ := List.mem_map.1 hl
    exact h r hr
  have hsplit := List.splitOn_intercalate '\n' hlines (by simpa using hne)
  have hnewline : "\n".toList = ['\n'] := rfl
  rw [linesOf, String.toList_intercalate, hnewline, hsplit, List.map_map]
  exact List.map_id'' (fun r => String.ofList_toList) rows

end Excerpt

end TapeLang
