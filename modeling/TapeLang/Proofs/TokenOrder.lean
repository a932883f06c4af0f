import TapeLang.Proofs.Lines
import TapeLang.Proofs.Spelling

/-!
# Tokens as indices into a text

The scan counts lines and columns as it goes and never looks at the lines of the text. All the same
the place of a token is an index into them: the character that `Text.charAt?` finds there is the
command of the token. Each character moves the place on in the order of reading
(`Position.Precedes`), so the tokens are in this order and no two of them share a place.

* `Text.charAt?_eq_some_iff`: an index into the lines finds the character behind a beginning of the
  text, at the place that counting gives.
* `Token.mem_scan_iff_charAt?`: so the tokens are the commands that indexing finds.
* `Token.pairwise_scan`: the tokens are in the order of their places.
* `tokens_index_text`: both together.
-/

namespace TapeLang

/-! ### The order of reading -/

namespace Position

/-- The place `p` comes before `q`: on an earlier line, or further left on the same line. -/
def Precedes (p q : Position) : Prop := p.line < q.line ∨ p.line = q.line ∧ p.col < q.col

instance (p q : Position) : Decidable (p.Precedes q) :=
  inferInstanceAs (Decidable (p.line < q.line ∨ p.line = q.line ∧ p.col < q.col))

theorem Precedes.trans {p q r : Position} (h : p.Precedes q) (h' : q.Precedes r) :
    p.Precedes r := by
  unfold Precedes at *
  omega

theorem Precedes.ne {p q : Position} (h : p.Precedes q) : p ≠ q := by
  rintro rfl
  unfold Precedes at h
  omega

theorem precedes_advance (p : Position) (c : Char) : p.Precedes (p.advance c) := by
  unfold Precedes
  by_cases hc : c = '\n'
  · subst hc
    rw [advance_newline]
    left
    exact Int.lt_succ p.line
  · rw [advance_of_ne hc]
    right
    exact ⟨rfl, Int.lt_succ p.col⟩

end Position

namespace Token

/-- What is scanned behind a character stands behind its place. -/
theorem precedes_of_mem_scanFrom {t : Token} {cs : List Char} {p : Position} {c : Char}
    (h : t ∈ scanFrom (p.advance c) cs) : p.Precedes t.position := by
  induction cs generalizing p c with
  | nil => simp [scanFrom] at h
  | cons d cs ih =>
    have hp := p.precedes_advance c
    rw [scanFrom] at h
    rcases hd : Symbol.ofChar? d with _ | x
    · simp only [hd] at h
      exact hp.trans (ih h)
    · simp only [hd, List.mem_cons] at h
      rcases h with rfl | h
      · exact hp
      · exact hp.trans (ih h)

theorem pairwise_scanFrom (p : Position) (cs : List Char) :
    (scanFrom p cs).Pairwise fun s t => s.position.Precedes t.position := by
  induction cs generalizing p with
  | nil => exact .nil
  | cons c cs ih =>
    rw [scanFrom]
    rcases Symbol.ofChar? c with _ | x
    · exact ih (p.advance c)
    · exact .cons (fun t ht => precedes_of_mem_scanFrom ht) (ih (p.advance c))

/-- **The tokens of a text are in the order of their places.** -/
theorem pairwise_scan (code : String) :
    (scan code).Pairwise fun s t => s.position.Precedes t.position := by
  rw [scan_eq_scanFrom]
  exact pairwise_scanFrom .start code.toList

end Token

/-! ### Indexing a text -/

namespace Text

open Excerpt (linesOf)

/-- The character at a place of a text: the lines are split at newlines, and lines and columns count
from 1. -/
def charAt? (code : String) (p : Position) : Option Char :=
  if 1 ≤ p.line ∧ 1 ≤ p.col then do
    let line ← (linesOf code)[(p.line - 1).toNat]?
    line.toList[(p.col - 1).toNat]?
  else none

theorem charAt?_succ (code : String) (line col : Nat) : charAt? code ⟨line + 1, col + 1⟩ =
    ((code.toList.splitOn '\n')[line]?).bind fun text => text[col]? := by
  have hbounds : (1 : Int) ≤ line + 1 ∧ (1 : Int) ≤ col + 1 := by omega
  have hline : ((line : Int) + 1 - 1).toNat = line := by omega
  have hcol : ((col : Int) + 1 - 1).toNat = col := by omega
  simp only [charAt?, if_pos hbounds, hline, hcol, linesOf, List.getElem?_map]
  rcases (code.toList.splitOn '\n')[line]? with _ | text
  · rfl
  · simp

/-- Only places with a line and a column from 1 on are indices. -/
theorem exists_of_charAt? {code : String} {p : Position} {c : Char} (h : charAt? code p = some c) :
    ∃ line col : Nat, p = ⟨line + 1, col + 1⟩ := by
  unfold charAt? at h
  by_cases hb : 1 ≤ p.line ∧ 1 ≤ p.col
  · obtain ⟨line, hline⟩ := Int.eq_ofNat_of_zero_le (show 0 ≤ p.line - 1 by omega)
    obtain ⟨col, hcol⟩ := Int.eq_ofNat_of_zero_le (show 0 ≤ p.col - 1 by omega)
    refine ⟨line, col, ?_⟩
    cases p
    simp only [Position.mk.injEq] at *
    omega
  · rw [if_neg hb] at h
    cases h

/-- A character of the first line of a text. -/
theorem exists_before_of_getElem? {l : List Char} {col : Nat} {c : Char} (hl : '\n' ∉ l)
    (h : l[col]? = some c) :
    ∃ before after, l = before ++ c :: after ∧ Position.behind before = ⟨1, col + 1⟩ := by
  obtain ⟨hlt, hget⟩ := List.getElem?_eq_some_iff.1 h
  have hfront : '\n' ∉ l.take col := fun hm => hl (List.mem_of_mem_take hm)
  have hlen : (l.take col).length = col := by
    rw [List.length_take]
    omega
  refine ⟨l.take col, l.drop (col + 1), ?_, ?_⟩
  · rw [← hget, List.getElem_cons_drop hlt, List.take_append_drop]
  · rw [Position.behind_of_not_mem hfront, hlen]

/-- What an index finds in the lines stands, in the text, at the place that counting gives. The
induction is on the lines: each line in front of the one in question counts in the line and not in
the column. -/
theorem exists_before_of_splitOn {c : Char} {col : Nat} {text : List Char} (cs : List Char) :
    ∀ line : Nat, (cs.splitOn '\n')[line]? = some text → text[col]? = some c →
      ∃ before after, cs = before ++ c :: after ∧
        Position.behind before = ⟨line + 1, col + 1⟩ := by
  induction cs using lineInduction with
  | single l hl =>
    intro line hline hcol
    rw [List.splitOn_eq_singleton hl, List.getElem?_singleton] at hline
    split at hline
    · next h0 =>
      subst h0
      cases hline
      exact exists_before_of_getElem? hl hcol
    · cases hline
  | more l rest hl ih =>
    intro line hline hcol
    rw [List.splitOn_append_cons_self_of_not_mem hl] at hline
    cases line with
    | zero =>
      cases hline
      obtain ⟨before, after, heq, hbehind⟩ := exists_before_of_getElem? hl hcol
      refine ⟨before, after ++ '\n' :: rest, ?_, hbehind⟩
      rw [heq, List.append_assoc, List.cons_append]
    | succ line =>
      rw [List.getElem?_cons_succ] at hline
      obtain ⟨before, after, heq, hbehind⟩ := ih line hline hcol
      refine ⟨l ++ '\n' :: before, after, ?_, ?_⟩
      · rw [heq, List.append_assoc, List.cons_append]
      · rw [Position.behind_line hl, hbehind]
        rfl

/-- **Indexing and counting agree**: an index finds a character where the text before it ends. -/
theorem charAt?_eq_some_iff {code : String} {p : Position} {c : Char} (hc : c ≠ '\n') :
    charAt? code p = some c ↔
      ∃ before after, code.toList = before ++ c :: after ∧ p = .behind before := by
  constructor
  · intro h
    obtain ⟨line, col, rfl⟩ := exists_of_charAt? h
    rw [charAt?_succ] at h
    obtain ⟨text, hline, hcol⟩ := Option.bind_eq_some_iff.1 h
    obtain ⟨before, after, heq, hbehind⟩ := exists_before_of_splitOn code.toList line hline hcol
    exact ⟨before, after, heq, hbehind.symm⟩
  · rintro ⟨before, after, heq, rfl⟩
    obtain ⟨line, col, text, hbehind, hline, hcol⟩ := Position.exists_behind hc before after
    rw [hbehind, charAt?_succ, heq, hline, Option.bind_some, hcol]

end Text

/-! ### Tokens and their characters -/

open Text (charAt?)

theorem Symbol.char_ne_newline (x : Symbol) : x.char ≠ '\n' := by
  cases x <;> decide

namespace Token

/-- **The tokens of a text are the commands that indexing finds in it.** -/
theorem mem_scan_iff_charAt? {x : Symbol} {p : Position} {code : String} :
    ⟨.command x, p⟩ ∈ scan code ↔ charAt? code p = some x.char := by
  rw [mem_scan_iff, Text.charAt?_eq_some_iff x.char_ne_newline]

theorem exists_command_of_mem_scan {t : Token} {code : String} (h : t ∈ scan code) :
    ∃ x, t.kind = .command x := by
  have hkind : t.kind ∈ (scan code).map Token.kind := List.mem_map_of_mem h
  rw [map_kind_scan] at hkind
  obtain ⟨x, -, hx⟩ := List.mem_map.1 hkind
  exact ⟨x, hx.symm⟩

theorem Kind.text_command (x : Symbol) : (Kind.command x).text = String.singleton x.char := by
  apply String.toList_injective
  simp [Kind.text, Symbol.text]

/-- The texts of the tokens are the command characters, in order. -/
theorem map_text_scan (code : String) : (scan code).map (fun t => t.kind.text) =
    (code.toList.filter (· ∈ Symbol.alphabet)).map String.singleton := by
  have hkinds : (scan code).map (fun t => t.kind.text) =
      ((scan code).map Token.kind).map Kind.text := by
    rw [List.map_map]
    rfl
  rw [hkinds, map_kind_scan, List.map_map, ← Symbol.map_char_filterMap_ofChar?, List.map_map]
  exact List.map_congr_left fun x _ => Kind.text_command x

end Token

/-- **Tokens are indices into the text.** The scan lists the command characters of the text and
nothing else, in order. The place of each token is that of a character of the text, split at
newlines, and this character is the token; every command character is found in this way. The places
increase strictly in the order of reading, so no two tokens share one. -/
theorem tokens_index_text (code : String) :
    (Token.scan code).map (fun t => t.kind.text) =
      (code.toList.filter (· ∈ Symbol.alphabet)).map String.singleton ∧
    (∀ t ∈ Token.scan code,
      (charAt? code t.position).map String.singleton = some t.kind.text) ∧
    (∀ p c, charAt? code p = some c → c ∈ Symbol.alphabet →
      ∃ t ∈ Token.scan code, t.position = p ∧ t.kind.text = String.singleton c) ∧
    ((Token.scan code).Pairwise fun s t => s.position.Precedes t.position) ∧
    ((Token.scan code).map Token.position).Nodup := by
  have hordered := Token.pairwise_scan code
  refine ⟨Token.map_text_scan code, fun t ht => ?_, fun p c hp hc => ?_, hordered, ?_⟩
  · obtain ⟨x, hx⟩ := Token.exists_command_of_mem_scan ht
    obtain ⟨kind, p⟩ := t
    obtain rfl : kind = .command x := hx
    rw [Token.mem_scan_iff_charAt?.1 ht, Option.map_some, Token.Kind.text_command]
  · obtain ⟨x, rfl⟩ := Symbol.exists_of_mem_alphabet hc
    exact ⟨⟨.command x, p⟩, Token.mem_scan_iff_charAt?.2 hp, rfl, Token.Kind.text_command x⟩
  · rw [List.Nodup, List.pairwise_map]
    exact hordered.imp Position.Precedes.ne

/-- An empty line, a carriage return and a character beyond ASCII in front of the commands, and a
newline at the end. -/
theorem tokens_index_text_unicode :
    let code := "\n+\r\né[\n]\n"
    Token.scan code = [⟨.command .plus, ⟨2, 1⟩⟩, ⟨.command .opening, ⟨3, 2⟩⟩,
        ⟨.command .closing, ⟨4, 1⟩⟩] ∧
      (charAt? code ⟨3, 2⟩).map String.singleton = some "[" ∧
      Position.Precedes ⟨2, 1⟩ ⟨3, 2⟩ := by
  intro code
  have hscan : Token.scan code = [⟨.command .plus, ⟨2, 1⟩⟩, ⟨.command .opening, ⟨3, 2⟩⟩,
      ⟨.command .closing, ⟨4, 1⟩⟩] := by decide
  obtain ⟨-, found, -, ordered, -⟩ := tokens_index_text code
  rw [hscan] at found ordered
  exact ⟨hscan, found ⟨.command .opening, ⟨3, 2⟩⟩ (by decide),
    (List.pairwise_cons.1 ordered).1 ⟨.command .opening, ⟨3, 2⟩⟩ (by decide)⟩

end TapeLang
