import TapeLang.Proofs.Brackets
import TapeLang.Proofs.Lines

/-!
# The caret under the bracket

The excerpt in a syntax error shows the line of the bracket to blame, up to two lines on each side,
and a caret below. A line stands in it as it is in the source, behind a gutter with its number. The
gutter grows with the number once that has more than four digits, the row of the caret does not, so
the caret is under the bracket in the first 9999 lines and off by the digits too many from there on.

* `Excerpt.rows_eq`: the rows of an excerpt are the lines around the one in question
  (`Excerpt.around`).
* `Excerpt.linesOf_ofSource`: the excerpt splits into these rows, whatever the source.
* `caret_under_bracket_iff`: what the excerpt in a syntax error shows, and where the caret points.
-/

namespace TapeLang

namespace Excerpt

/-- What stands in front of the line with this number: the mark, the number, aligned to the right in
four columns, and the bar. -/
def gutter (mark : Char) (number : Nat) : List Char :=
  mark :: ' ' :: (List.replicate (4 - number.repr.length) ' ' ++ number.repr.toList ++
    [' ', '|', ' '])

/-- The line with this number behind its gutter. -/
def shown (source : String) (mark : Char) (number : Nat) : String :=
  String.ofList (gutter mark number ++ (lineAt source number).toList)

/-- The number of the first line shown around line `line`. -/
def firstShown (line : Nat) : Nat := max 1 (line - 2)

/-- The number of the last line shown around line `line` of `count` lines. -/
def lastShown (count line : Nat) : Nat := min count (line + 2)

/-- The lines around line `line`, each behind its gutter, with the row `below` under the marked
one. -/
def around (source : String) (line : Nat) (below : String) : List String :=
  (List.range' (firstShown line) (line - firstShown line)).map (shown source ' ') ++
    shown source '>' line :: below ::
    (List.range' (line + 1) (lastShown (linesOf source).length line - line)).map (shown source ' ')

theorem shown_bounds {count line : Nat} (hline : 1 ≤ line) (hcount : line ≤ count) :
    1 ≤ firstShown line ∧ firstShown line ≤ line ∧ line ≤ lastShown count line ∧
      lastShown count line ≤ count := by
  unfold firstShown lastShown
  omega

/-! ### Rows -/

theorem length_gutter (mark : Char) (number : Nat) :
    (gutter mark number).length = 5 + max 4 number.repr.length := by
  simp only [gutter, List.length_cons, List.length_append, List.length_replicate,
    String.length_toList, List.length_nil]
  omega

theorem row_eq_shown (source : String) (isMarked : Bool) (number : Nat) :
    row isMarked number (lineAt source number) =
      shown source (if isMarked then '>' else ' ') number := by
  apply String.toList_injective
  cases isMarked <;> simp [row, shown, gutter, Text.alignRight]

theorem newline_not_mem_gutter {mark : Char} (hmark : mark ≠ '\n') (number : Nat) :
    '\n' ∉ gutter mark number := by
  have hdigits : '\n' ∉ number.repr.toList := Text.not_mem_repr (by decide) number
  rw [Nat.toList_repr] at hdigits
  simp [gutter, hmark.symm, hdigits]

theorem newline_not_mem_shown {mark : Char} (hmark : mark ≠ '\n') (source : String)
    (number : Nat) : '\n' ∉ (shown source mark number).toList := by
  simp [shown, newline_not_mem_gutter hmark, newline_not_mem_lineAt]

/-- The row of the caret under column `col`. -/
def pointer (col : Nat) : String :=
  "       | " ++ String.ofList (List.replicate (col - 1) ' ') ++ "^"

theorem caret_eq {col : Nat} (h : 1 ≤ col) : caret col = [pointer col] := by
  have hcol : (1 : Int) ≤ col := by omega
  have hblanks : ((col : Int) - 1).toNat = col - 1 := by omega
  rw [caret, if_pos hcol, hblanks, pointer]

theorem toList_pointer (col : Nat) : (pointer col).toList =
    "       | ".toList ++ List.replicate (col - 1) ' ' ++ ['^'] := by
  simp [pointer]

theorem length_pointer {col : Nat} (h : 1 ≤ col) : (pointer col).length = 9 + col := by
  rw [← String.length_toList, toList_pointer]
  simp
  omega

theorem getLast?_pointer (col : Nat) : (pointer col).toList.getLast? = some '^' := by
  rw [toList_pointer, List.getLast?_concat]

theorem newline_not_mem_pointer (col : Nat) : '\n' ∉ (pointer col).toList := by
  simp [toList_pointer]

/-! ### Which lines are shown -/

theorem zipIdx_linesOf (source : String) : (linesOf source).zipIdx 1 =
    (List.range' 1 (linesOf source).length).map fun k => (lineAt source k, k) := by
  refine List.ext_getElem (by simp) fun k h1 h2 => ?_
  have hk : k < (linesOf source).length := by simpa using h1
  simp [lineAt, hk, Nat.add_comm]

theorem filter_range'_between {n a b : Nat} (ha : 1 ≤ a) (hab : a ≤ b) (hb : b ≤ n) :
    (List.range' 1 n).filter (fun k => a ≤ k ∧ k ≤ b) = List.range' a (b + 1 - a) := by
  have hsplit : List.range' 1 n =
      List.range' 1 (a - 1) ++ List.range' a (b + 1 - a) ++ List.range' (b + 1) (n - b) := by
    have h1 := @List.range'_append_1 1 (a - 1) (b + 1 - a)
    have h2 := @List.range'_append_1 1 b (n - b)
    rw [show 1 + (a - 1) = a by omega, show a - 1 + (b + 1 - a) = b by omega] at h1
    rw [show 1 + b = b + 1 by omega, show b + (n - b) = n by omega] at h2
    rw [h1, h2]
  have hbelow : (List.range' 1 (a - 1)).filter (fun k => a ≤ k ∧ k ≤ b) = [] := by
    rw [List.filter_eq_nil_iff]
    intro k hk
    rw [List.mem_range'_1] at hk
    simp
    omega
  have hin : (List.range' a (b + 1 - a)).filter (fun k => a ≤ k ∧ k ≤ b) =
      List.range' a (b + 1 - a) := by
    rw [List.filter_eq_self]
    intro k hk
    rw [List.mem_range'_1] at hk
    simp
    omega
  have habove : (List.range' (b + 1) (n - b)).filter (fun k => a ≤ k ∧ k ≤ b) = [] := by
    rw [List.filter_eq_nil_iff]
    intro k hk
    rw [List.mem_range'_1] at hk
    simp
    omega
  rw [hsplit, List.filter_append, List.filter_append, hbelow, hin, habove, List.append_nil,
    List.nil_append]

/-- What stands in the excerpt for the line with this number. -/
def rowsFor (source : String) (line col number : Nat) : List String :=
  if number = line then [shown source '>' number, pointer col] else [shown source ' ' number]

theorem rows_eq_flatMap {source : String} {line col : Nat} (hline : 1 ≤ line)
    (hcount : line ≤ (linesOf source).length) (hcol : 1 ≤ col) :
    rows (linesOf source) line col defaultContext =
      (List.range' (firstShown line)
        (lastShown (linesOf source).length line + 1 - firstShown line)).flatMap
          (rowsFor source line col) := by
  have hmarked : marked (linesOf source).length line = line := by
    unfold marked
    omega
  have hfirst : first (linesOf source).length line defaultContext = firstShown line := by
    unfold first firstShown defaultContext
    rw [hmarked]
    omega
  have hlast : last (linesOf source).length line defaultContext =
      lastShown (linesOf source).length line := by
    unfold last lastShown defaultContext
    rw [hmarked]
    omega
  obtain ⟨hlow, hle, hge, hhigh⟩ := shown_bounds hline hcount
  have hrow : ∀ k : Nat, (if (k : Int) = line then row true k (lineAt source k) :: caret col
      else [row false k (lineAt source k)]) = rowsFor source line col k := by
    intro k
    rw [caret_eq hcol, row_eq_shown, row_eq_shown, rowsFor]
    by_cases hk : k = line
    · have hk' : (k : Int) = line := by omega
      rw [if_pos hk', if_pos hk]
      rfl
    · have hk' : ¬ (k : Int) = line := by omega
      rw [if_neg hk', if_neg hk]
      rfl
  rw [rows, zipIdx_linesOf, hfirst, hlast, hmarked, List.filter_map, List.flatMap_map,
    ← filter_range'_between hlow (hle.trans hge) hhigh]
  simp only [Function.comp_def, Int.ofNat_le, hrow]

/-- **The rows around a line that there is.** -/
theorem rows_eq {source : String} {line col : Nat} (hline : 1 ≤ line)
    (hcount : line ≤ (linesOf source).length) (hcol : 1 ≤ col) :
    rows (linesOf source) line col defaultContext = around source line (pointer col) := by
  rw [rows_eq_flatMap hline hcount hcol, around]
  obtain ⟨-, hfirst, hlast, -⟩ := shown_bounds hline hcount
  generalize (linesOf source).length = n at hlast ⊢
  have hsplit : List.range' (firstShown line) (lastShown n line + 1 - firstShown line) =
      List.range' (firstShown line) (line - firstShown line) ++
        line :: List.range' (line + 1) (lastShown n line - line) := by
    have happend := @List.range'_append_1 (firstShown line) (line - firstShown line)
      (lastShown n line - line + 1)
    rw [show firstShown line + (line - firstShown line) = line by omega,
      List.range'_succ] at happend
    rw [happend]
    congr 1
    omega
  have hplain : ∀ ks : List Nat, line ∉ ks →
      ks.flatMap (rowsFor source line col) = ks.map (shown source ' ') := by
    intro ks hks
    rw [List.map_eq_flatMap]
    refine List.flatMap_congr fun k hk => ?_
    have hne : k ≠ line := fun h => hks (h ▸ hk)
    rw [rowsFor, if_neg hne]
  rw [hsplit, List.flatMap_append, List.flatMap_cons, hplain _ ?_, hplain _ ?_, rowsFor, if_pos rfl]
  · rfl
  · rw [List.mem_range'_1]
    omega
  · rw [List.mem_range'_1]
    omega

/-- **The excerpt splits into its rows**, whatever the source. -/
theorem linesOf_ofSource {source : String} {line col : Nat} (hline : 1 ≤ line)
    (hcount : line ≤ (linesOf source).length) (hcol : 1 ≤ col) :
    linesOf (ofSource source ⟨line, col⟩) = around source line (pointer col) := by
  have hplain : ∀ k, '\n' ∉ (shown source ' ' k).toList :=
    newline_not_mem_shown (by decide) source
  have hmarked : '\n' ∉ (shown source '>' line).toList :=
    newline_not_mem_shown (by decide) source line
  rw [ofSource, render, rows_eq hline hcount hcol]
  refine linesOf_intercalate (by simp [around]) fun r hr => ?_
  simp only [around, List.mem_append, List.mem_cons, List.mem_map] at hr
  rcases hr with ⟨k, -, rfl⟩ | rfl | rfl | ⟨k, -, rfl⟩
  · exact hplain k
  · exact hmarked
  · exact newline_not_mem_pointer col
  · exact hplain k

/-- Only the line in question is marked. -/
theorem marked_rows {source : String} {line col : Nat} (hline : 1 ≤ line)
    (hcount : line ≤ (linesOf source).length) (hcol : 1 ≤ col) :
    (linesOf (ofSource source ⟨line, col⟩)).filter (fun r => r.toList.head? = some '>') =
      [shown source '>' line] := by
  have hplain : ∀ ks : List Nat,
      (ks.map (shown source ' ')).filter (fun r => r.toList.head? = some '>') = [] := by
    intro ks
    rw [List.filter_eq_nil_iff]
    intro r hr
    obtain ⟨k, -, rfl⟩ := List.mem_map.1 hr
    simp [shown, gutter]
  rw [linesOf_ofSource hline hcount hcol, around, List.filter_append, hplain, List.nil_append,
    List.filter_cons_of_pos (by simp [shown, gutter]),
    List.filter_cons_of_neg (by simp [toList_pointer]), hplain]

/-! ### The offset of the caret -/

theorem length_repr_le_four_iff (n : Nat) : n.repr.length ≤ 4 ↔ n < 10000 := by
  rw [← String.length_toList, Nat.toList_repr]
  exact Nat.length_toDigits_le_iff (by decide) (by decide)

/-- The caret ends its row under the column, or left of it by as many columns as the number has
digits more than four. -/
theorem length_pointer_add {col : Nat} (hcol : 1 ≤ col) (line : Nat) :
    (pointer col).length + (line.repr.length - 4) = (gutter '>' line).length + (col - 1) + 1 := by
  rw [length_pointer hcol, length_gutter]
  omega

theorem length_pointer_eq_iff {col : Nat} (hcol : 1 ≤ col) (line : Nat) :
    (pointer col).length = (gutter '>' line).length + (col - 1) + 1 ↔ line < 10000 := by
  rw [← length_repr_le_four_iff, ← length_pointer_add hcol line]
  omega

/-- A column of a line, behind the gutter. -/
theorem getElem?_shown (source : String) (mark : Char) (number col : Nat) :
    (shown source mark number).toList[(gutter mark number).length + col]? =
      (lineAt source number).toList[col]? := by
  rw [shown, String.toList_ofList, List.getElem?_append_right (Nat.le_add_right _ _),
    Nat.add_sub_cancel_left]

end Excerpt

/-! ### Syntax errors -/

/-- The bracket that a syntax error of this kind is about. -/
def SyntaxError.Category.bracket? : SyntaxError.Category → Option Char
  | .general => none
  | .unmatchedOpen => some '['
  | .unmatchedClose => some ']'

open Excerpt Brackets

/-- The excerpt in the error `e` shows the lines of `code` around line `line`, the only one that is
marked, where the bracket to blame stands in column `col`. The row `pointer` stands right below and
ends in a caret. -/
structure SyntaxError.Shows (e : SyntaxError) (code : String) (line col : Nat) (bracket : Char)
    (pointer : String) : Prop where
  category : e.category.bracket? = some bracket
  position : e.position = ⟨line, col⟩
  line_bounds : 1 ≤ line ∧ line ≤ (linesOf code).length
  col_pos : 1 ≤ col
  here : (lineAt code line).toList[col - 1]? = some bracket
  rows : linesOf e.excerpt = around code line pointer
  marks : (linesOf e.excerpt).filter (fun r => r.toList.head? = some '>') = [shown code '>' line]
  caret : pointer.toList.getLast? = some '^'

theorem SyntaxError.excerpt_make (category : Category) (text code : String) (position : Position) :
    (make category text (some code) position).excerpt = ofSource code position := by
  simp only [make, Option.elim_some]

/-- The bracket that a failed reading blames, in the text. -/
theorem Program.exists_bracket {code : String} {e : SyntaxError}
    (h : Program.parse code = .error (.malformed e)) :
    ∃ before bracket after, code.toList = before ++ bracket :: after ∧ bracket ≠ '\n' ∧
      e.category.bracket? = some bracket ∧ e.position = .behind before ∧
      e.excerpt = ofSource code (.behind before) := by
  obtain ⟨before, ⟨hs, he⟩ | ⟨⟨-, hlast⟩, he⟩⟩ := Program.parse_eq_error_iff.1 h
  · cases he
    obtain ⟨after, hafter⟩ := hs.here
    rw [List.append_assoc, List.singleton_append] at hafter
    exact ⟨before, ']', after, hafter.symm, by decide, rfl, rfl, SyntaxError.excerpt_make ..⟩
  · cases he
    obtain ⟨after, hafter, -⟩ := hlast.unclosed
    exact ⟨before, '[', after, hafter, by decide, rfl, rfl, SyntaxError.excerpt_make ..⟩

/-! ### A bracket behind empty lines -/

/-- Newlines in front of a text are empty lines. -/
theorem Excerpt.linesOf_replicate_newline (n : Nat) (cs : List Char) :
    linesOf (String.ofList (List.replicate n '\n' ++ cs)) =
      List.replicate n "" ++ linesOf (String.ofList cs) := by
  induction n with
  | zero => rfl
  | succ n ih =>
    have hcons := List.splitOn_append_cons_self_of_not_mem (List.not_mem_nil (a := '\n'))
      (List.replicate n '\n' ++ cs)
    simp only [linesOf, String.toList_ofList, List.nil_append] at ih hcons ⊢
    rw [List.replicate_succ, List.cons_append, hcons, List.map_cons, ih, List.replicate_succ]
    rfl

theorem Brackets.stray_behind_newlines (n : Nat) :
    Stray (List.replicate n '\n' ++ [']']) (List.replicate n '\n') := by
  have hdepth : ∀ front, front <+: List.replicate n '\n' → depth front = 0 := by
    intro front hfront
    obtain ⟨-, hfront⟩ := List.prefix_replicate_iff.1 hfront
    rw [hfront, depth]
    simp [List.count_replicate]
  refine ⟨List.prefix_rfl, fun front hfront => ?_, ?_⟩
  · have := hdepth front hfront
    omega
  · rw [depth_append, hdepth _ List.prefix_rfl]
    decide

theorem Position.behind_newlines (n : Nat) : behind (List.replicate n '\n') = ⟨n + 1, 1⟩ := by
  have hcol : (List.replicate n '\n').takeWhile (· ≠ '\n') = [] := by cases n <;> simp
  rw [behind, List.reverse_replicate, hcol, List.count_replicate_self]
  rfl

/-- The excerpt for a bracket that stands alone behind empty lines. -/
theorem excerpt_behind_newlines (n : Nat) :
    ∃ e, Program.parse (String.ofList (List.replicate (n + 2) '\n' ++ [']'])) =
        .error (.malformed e) ∧
      e.position = ⟨(n + 3 : Nat), 1⟩ ∧
      linesOf e.excerpt = [String.ofList (gutter ' ' (n + 1)), String.ofList (gutter ' ' (n + 2)),
        String.ofList (gutter '>' (n + 3) ++ [']']), pointer 1] := by
  generalize hcode : String.ofList (List.replicate (n + 2) '\n' ++ [']']) = code
  have hlines : linesOf code = List.replicate (n + 2) "" ++ ["]"] := by
    rw [← hcode]
    exact linesOf_replicate_newline (n + 2) [']']
  have hcount : (linesOf code).length = n + 3 := by
    rw [hlines, List.length_append, List.length_replicate]
    rfl
  have hempty : ∀ k, k < n + 2 → lineAt code (k + 1) = "" := by
    intro k hk
    rw [lineAt, hlines, Nat.add_sub_cancel, List.getD_eq_getElem?_getD]
    simp [List.getElem?_append, hk]
  have hbracket : lineAt code (n + 3) = "]" := by
    rw [lineAt, hlines, List.getD_eq_getElem?_getD]
    simp
  have hstray : Stray code.toList (List.replicate (n + 2) '\n') := by
    rw [← hcode, String.toList_ofList]
    exact stray_behind_newlines (n + 2)
  have hplace : Position.behind (List.replicate (n + 2) '\n') = ⟨(n + 3 : Nat), (1 : Nat)⟩ :=
    Position.behind_newlines (n + 2)
  have hline : 1 ≤ n + 3 := by omega
  have hrows := linesOf_ofSource hline (Nat.le_of_eq hcount.symm) (Nat.le_refl 1)
  have hfirst : firstShown (n + 3) = n + 1 := by
    unfold firstShown
    omega
  have hlast : lastShown (n + 3) (n + 3) = n + 3 := by
    unfold lastShown
    omega
  refine ⟨_, Program.parse_of_stray hstray, hplace, ?_⟩
  rw [SyntaxError.unmatchedClose, SyntaxError.excerpt_make, hplace, hrows, around, hcount, hfirst,
    hlast, show n + 3 - (n + 1) = 2 by omega, Nat.sub_self]
  simp [List.range'_succ, shown, hempty, hbracket]

/-- **The caret stands under the bracket in the first 9999 lines.** A failed reading shows the line
of the bracket to blame and up to two lines on each side, in order and as they are, each behind its
number. Only that line is marked. The row below it ends in a caret, which is under the bracket
exactly if the number of the line has at most four digits, and otherwise as many columns to the left
as it has digits more. -/
theorem caret_under_bracket_iff {code : String} {e : SyntaxError}
    (h : Program.parse code = .error (.malformed e)) :
    ∃ (line col : Nat) (bracket : Char) (pointer : String) (offset : Nat),
      e.Shows code line col bracket pointer ∧
      offset = (gutter '>' line).length + (col - 1) ∧
      (shown code '>' line).toList[offset]? = some bracket ∧
      pointer.length + (line.repr.length - 4) = offset + 1 ∧
      (pointer.length = offset + 1 ↔ line < 10000) := by
  obtain ⟨before, bracket, after, hcode, hne, hcat, hpos, hexcerpt⟩ := Program.exists_bracket h
  obtain ⟨line, col, text, hbehind, hline, hcol⟩ := Position.exists_behind hne before after
  rw [← hcode] at hline
  obtain ⟨hcount, htext⟩ := lineAt_of_getElem? hline
  have hl : 1 ≤ line + 1 := by omega
  have hc : 1 ≤ col + 1 := by omega
  have hplace : Position.behind before = ⟨(line + 1 : Nat), (col + 1 : Nat)⟩ := hbehind
  rw [hplace] at hpos hexcerpt
  have hhere : (lineAt code (line + 1)).toList[col]? = some bracket := by
    rw [htext, String.toList_ofList, hcol]
  have hshows : e.Shows code (line + 1) (col + 1) bracket (pointer (col + 1)) :=
    { category := hcat
      position := hpos
      line_bounds := ⟨hl, hcount⟩
      col_pos := hc
      here := hhere
      rows := by rw [hexcerpt, linesOf_ofSource hl hcount hc]
      marks := by rw [hexcerpt, marked_rows hl hcount hc]
      caret := getLast?_pointer (col + 1) }
  refine ⟨line + 1, col + 1, bracket, pointer (col + 1), _, hshows, rfl, ?_, ?_, ?_⟩
  · rw [getElem?_shown]
    exact hhere
  · exact length_pointer_add hc (line + 1)
  · exact length_pointer_eq_iff hc (line + 1)

/-- A stray bracket in the second of three lines, behind a blank and a comment. -/
theorem caret_under_bracket_iff_secondLine :
    let code := "[+]\n x]\n+"
    ∃ e pointer offset, Program.parse code = .error (.malformed e) ∧
      e.Shows code 2 3 ']' pointer ∧ (shown code '>' 2).toList[offset]? = some ']' ∧
      pointer.length = offset + 1 := by
  intro code
  have hs : Stray code.toList "[+]\n x".toList := ⟨by decide, by decide, by decide⟩
  have hparse := Program.parse_of_stray hs
  obtain ⟨line, col, bracket, pointer, offset, hshows, -, hat, -, hiff⟩ :=
    caret_under_bracket_iff hparse
  have hposition : (⟨2, 3⟩ : Position) = ⟨line, col⟩ := hshows.position
  have hbracket : some ']' = some bracket := hshows.category
  obtain rfl : line = 2 := by
    have := congrArg Position.line hposition
    simp at this
    omega
  obtain rfl : col = 3 := by
    have := congrArg Position.col hposition
    simp at this
    omega
  obtain rfl : ']' = bracket := Option.some.inj hbracket
  exact ⟨_, pointer, offset, hparse, hshows, hat, hiff.2 (by decide)⟩

/-- In line 10000 the caret is one column left of the bracket. -/
theorem caret_off_at_line_10000 :
    ∃ e, Program.parse (String.ofList (List.replicate 9999 '\n' ++ [']'])) =
        .error (.malformed e) ∧
      e.position = ⟨10000, 1⟩ ∧
      linesOf e.excerpt = ["  9998 | ", "  9999 | ", "> 10000 | ]", "       | ^"] ∧
      "> 10000 | ]".toList.idxOf ']' = 10 ∧ "       | ^".toList.idxOf '^' = 9 := by
  obtain ⟨e, hparse, hposition, hrows⟩ := excerpt_behind_newlines 9997
  refine ⟨e, hparse, hposition, ?_, by decide, by decide⟩
  rw [hrows]
  decide

end TapeLang
