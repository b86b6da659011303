import TemplateEditing.Proofs.Grammar.WellFormed

/-!
# The rows of a text and of its scope map

A text has a new row behind every row break, a grammar behind line feeds only. The breaks that a
grammar does not know are counted by `Text.strayBreaks`: a text has that many rows more than its
scope map (`Text.rowCount_eq_add`). Without such a break the two cut a text into the same rows
(`Text.map_content_rows_eq`), and a position means the same character to both.
-/

namespace TemplateEditing

open List

variable {c : Char}

namespace Text

/-- The number of row breaks other than line feeds, a carriage return in front of one left out. -/
def strayBreaks : Text → Nat
  | [] => 0
  | '\r' :: '\n' :: rest => strayBreaks rest
  | c :: rest => if isRowBreak c && c != '\n' then strayBreaks rest + 1 else strayBreaks rest

lemma length_cutAtLineFeeds_cons_of_ne (hn : c ≠ '\n') (t : Text) :
    (cutAtLineFeeds (c :: t)).length = (cutAtLineFeeds t).length := by
  obtain ⟨piece, more, hcut⟩ := exists_cutAtLineFeeds_eq_cons t
  rw [cutAtLineFeeds_cons_of_ne hn hcut, hcut, length_cons, length_cons]

lemma length_grammarRows (t : Text) : t.grammarRows.length = (cutAtLineFeeds t).length :=
  length_map _

/-- A grammar sees one row less for each row break it does not know. -/
theorem rowCount_eq_add (t : Text) : t.rowCount = t.grammarRows.length + t.strayBreaks := by
  rw [rowCount, length_grammarRows]
  fun_induction strayBreaks t with
  | case1 => rfl
  | case2 rest ih =>
    -- `\r\n` is one break to both
    rw [rows, length_cons, ih, length_cutAtLineFeeds_cons_of_ne (by decide),
      cutAtLineFeeds_lineFeed_cons, length_cons]
    omega
  | case3 c rest hpair hc ih =>
    -- a break that only the text knows
    simp only [Bool.and_eq_true, bne_iff_ne] at hc
    rw [rows, if_pos hc.1, length_cons, ih, length_cutAtLineFeeds_cons_of_ne hc.2]
    · omega
    · exact hpair
  | case4 c rest hpair hc ih =>
    -- a line feed is a break to both, and any other character to none of them
    by_cases hn : c = '\n'
    · subst hn
      rw [rows_lineFeed_cons, cutAtLineFeeds_lineFeed_cons, length_cons, length_cons, ih]
      omega
    · have hb : isRowBreak c = false := by simpa [hn] using hc
      have hr : c ≠ '\r' := by
        rintro rfl
        exact absurd hb (by decide)
      obtain ⟨row, below, hrows⟩ := exists_rows_eq_cons rest
      rw [rows_cons_of_ne hr hb hrows, length_cutAtLineFeeds_cons_of_ne hn, ← ih, hrows,
        length_cons, length_cons]

lemma dropReturn_cons_of_ne (hr : c ≠ '\r') (t : Text) :
    dropReturn (c :: t) = c :: dropReturn t := by
  cases t with
  | nil => rw [dropReturn, if_neg (by simpa using hr)]; rfl
  | cons d t =>
    rw [dropReturn, dropReturn, getLast?_cons_cons]
    split <;> rfl

/-- Without stray breaks a grammar works on the rows of the text. -/
theorem map_content_rows_eq {t : Text} (h : t.strayBreaks = 0) :
    (rows t).map content = t.grammarRows := by
  rw [grammarRows]
  fun_induction strayBreaks t with
  | case1 => rfl
  | case2 rest ih =>
    rw [rows, map_cons, ih h, cutAtLineFeeds_cons_of_ne (by decide)
      (cutAtLineFeeds_lineFeed_cons rest), map_cons]
    rfl
  | case3 c rest hpair hc ih => exact absurd h (Nat.succ_ne_zero _)
  | case4 c rest hpair hc ih =>
    have ih := ih h
    by_cases hn : c = '\n'
    · subst hn
      rw [rows_lineFeed_cons, cutAtLineFeeds_lineFeed_cons, map_cons, map_cons, ih]
      rfl
    · have hb : isRowBreak c = false := by simpa [hn] using hc
      have hr : c ≠ '\r' := by
        rintro rfl
        exact absurd hb (by decide)
      obtain ⟨row, below, hrows⟩ := exists_rows_eq_cons rest
      obtain ⟨piece, more, hcut⟩ := exists_cutAtLineFeeds_eq_cons rest
      rw [hrows, hcut, map_cons, map_cons, List.cons.injEq] at ih
      rw [rows_cons_of_ne hr hb hrows, cutAtLineFeeds_cons_of_ne hn hcut, map_cons,
        map_cons, content_cons_of_ne hn hr, dropReturn_cons_of_ne hr, ih.1, ih.2]

/-- The lengths of the rows, one after the other. -/
lemma map_lineLength (t : Text) :
    (List.range t.rowCount).map t.lineLength = ((rows t).map content).map List.length := by
  apply ext_getElem
  · simp [rowCount]
  · intro i hi hi'
    have hrow : i < (rows t).length := by simpa [rowCount] using hi
    simp [lineLength, line, line?, getElem?_eq_getElem hrow]

/-- A character at a position stands in a row of the text. -/
lemma exists_of_charAt? {t : Text} {p : Position} (h : t.charAt? p = some c) :
    ∃ row, ((rows t).map content)[p.row]? = some row ∧ row[p.column]? = some c := by
  rw [charAt?, line, line?, ← getElem?_map] at h
  cases hrow : ((rows t).map content)[p.row]? with
  | none =>
    rw [hrow] at h
    exact absurd h (by simp)
  | some row =>
    rw [hrow] at h
    exact ⟨row, rfl, h⟩

end Text

namespace Grammar

/-- Where a row of the scope map has a character, the scopes there are those of the piece that the
lexer took it into. -/
lemma scopesAt_of_row {t row : Text} {p : Position} (hrow : t.grammarRows[p.row]? = some row)
    (hc : row[p.column]? = some c) :
    ∃ pieces label, (Lexer.rows {} t.grammarRows)[p.row]? = some pieces ∧
      (Piece.spell pieces)[p.column]? = some c ∧ (Piece.labels pieces)[p.column]? = some label ∧
      (marko.tokenize t).scopesAt p = label ++ [Scope.marko] := by
  have hspell := hrow
  rw [← Lexer.map_spell_rows {} t.grammarRows, getElem?_map] at hspell
  obtain ⟨pieces, hpieces, rfl⟩ := Option.map_eq_some_iff.1 hspell
  have hlt := (List.getElem?_eq_some_iff.1 hc).1
  rw [← Piece.length_labels] at hlt
  have hlabel := getElem?_eq_getElem hlt
  exact ⟨pieces, _, hpieces, hc, hlabel, scopesAt_tokenize hpieces hlabel⟩

/-- A text has as many rows more than its scope map as it has stray breaks. The rows of both have
the same lengths exactly if there are none; then the scopes at a position are those that the lexer
gave to the character there. -/
theorem tokenize_rows_agree_iff (t : Text) :
    t.rowCount = (marko.tokenize t).rows.length + t.strayBreaks ∧
    ((marko.tokenize t).rows.map ScopeRow.length = (List.range t.rowCount).map t.lineLength ↔
      t.strayBreaks = 0) ∧
    (t.strayBreaks = 0 → ∀ (p : Position) (c : Char), t.charAt? p = some c →
      ∃ pieces label, (Lexer.rows {} t.grammarRows)[p.row]? = some pieces ∧
        (Piece.spell pieces)[p.column]? = some c ∧ (Piece.labels pieces)[p.column]? = some label ∧
        (marko.tokenize t).scopesAt p = label ++ [Scope.marko]) := by
  have hlength : (marko.tokenize t).rows.length = t.grammarRows.length := by
    have hmap := congrArg List.length (map_length_tokenize t)
    rwa [length_map, length_map] at hmap
  have hcount : t.rowCount = (marko.tokenize t).rows.length + t.strayBreaks := by
    rw [hlength]
    exact t.rowCount_eq_add
  refine ⟨hcount, ⟨?_, ?_⟩, ?_⟩
  · -- rows of the same lengths are as many
    intro hsame
    have hsame := congrArg List.length hsame
    rw [length_map, length_map, length_range] at hsame
    omega
  · intro hnone
    rw [map_length_tokenize, t.map_lineLength, Text.map_content_rows_eq hnone]
  · intro hnone p c hc
    obtain ⟨row, hrow, hcolumn⟩ := Text.exists_of_charAt? hc
    rw [Text.map_content_rows_eq hnone] at hrow
    exact scopesAt_of_row hrow hcolumn

/-- A carriage return in front of a line feed is no stray break. -/
theorem tokenize_rows_agree_sampleReturn :
    Text.strayBreaks "x\r\n<b>".toList = 0 ∧
      Text.charAt? "x\r\n<b>".toList ⟨1, 1⟩ = some 'b' ∧
      (marko.tokenize "x\r\n<b>".toList).rows.map ScopeRow.length =
        (List.range 2).map (Text.lineLength "x\r\n<b>".toList) ∧
      ∃ pieces label, (Piece.spell pieces)[1]? = some 'b' ∧
        (Piece.labels pieces)[1]? = some label ∧
        (marko.tokenize "x\r\n<b>".toList).scopesAt ⟨1, 1⟩ = label ++ [Scope.marko] := by
  obtain ⟨-, hlengths, hscopes⟩ := tokenize_rows_agree_iff "x\r\n<b>".toList
  have hnone : Text.strayBreaks "x\r\n<b>".toList = 0 := by decide
  have hchar : Text.charAt? "x\r\n<b>".toList ⟨1, 1⟩ = some 'b' := by decide
  obtain ⟨pieces, label, -, hlabelled⟩ := hscopes hnone ⟨1, 1⟩ 'b' hchar
  exact ⟨hnone, hchar, hlengths.2 hnone, pieces, label, hlabelled⟩

/-- A carriage return on its own ends a row of the text, but none of the scope map. -/
theorem rows_tokenize_return :
    Text.rowCount ['\r'] = 2 ∧ (marko.tokenize ['\r']).rows = [{ length := 0 }] := by
  decide +kernel

end Grammar

end TemplateEditing
