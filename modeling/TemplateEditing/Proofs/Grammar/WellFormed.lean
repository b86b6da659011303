import TemplateEditing.Proofs.Grammar.Labels

/-!
# Scope maps are well formed

Whatever the text, the lexer is done with a row after a number of steps that the row's length
bounds, and no look at the row goes past its end (`Lexer.exists_readRow?_eq`). The spans that it
adds to a row are not empty, lie in the row one behind the other, and differ in their scopes where
they touch (`ScopeRow.WellFormed`). On such spans the binary search finds what a search from left
to right finds (`ScopeRow.spanAt?_eq_find?`).
-/

namespace TemplateEditing

open List

variable {row : ScopeRow}

/-! ## The spans of a row -/

instance (span : ScopeSpan) (column : Nat) : Decidable (span.Covers column) :=
  inferInstanceAs (Decidable (_ ∧ _))

/-- Spans that are not empty, lie in the row one behind the other, have scopes, and have different
ones where they touch. -/
structure ScopeRow.WellFormed (row : ScopeRow) : Prop where
  start_lt_stop : ∀ span ∈ row.spans, span.start < span.stop
  stop_le_length : ∀ span ∈ row.spans, span.stop ≤ row.length
  scopes_ne_nil : ∀ span ∈ row.spans, span.scopes ≠ []
  ordered : row.spans.Pairwise fun a b =>
    a.stop ≤ b.start ∧ (a.stop = b.start → a.scopes ≠ b.scopes)

namespace SpansOf

variable {spans : List ScopeSpan} {labels : List ScopeChain} {span : ScopeSpan}

/-- Only the last span can reach up to the end. -/
lemma getLast?_of_stop_eq (h : SpansOf spans labels) (hmem : span ∈ spans)
    (hstop : span.stop = labels.length) : spans.getLast? = some span := by
  cases h with
  | nil => exact absurd hmem not_mem_nil
  | bare n h hn =>
    -- columns without a scope follow, so no span reaches up to the end
    have hle := h.stop_le_length hmem
    rw [hstop, length_append, length_replicate] at hle
    omega
  | snoc n scopes h hn hne hnew =>
    rcases mem_append.1 hmem with hold | hlast
    · have hle := h.stop_le_length hold
      rw [hstop, length_append, length_replicate] at hle
      omega
    · rw [getLast?_concat, mem_singleton.1 hlast]

/-- Spans that touch differ in their scopes. -/
lemma ordered (h : SpansOf spans labels) :
    spans.Pairwise fun a b => a.stop ≤ b.start ∧ (a.stop = b.start → a.scopes ≠ b.scopes) := by
  induction h with
  | nil => exact .nil
  | bare n _ _ ih => exact ih
  | snoc n scopes h _ _ hnew ih =>
    rw [pairwise_append]
    refine ⟨ih, pairwise_singleton _ _, ?_⟩
    intro a ha b hb
    rw [mem_singleton.1 hb]
    refine ⟨h.stop_le_length ha, ?_⟩
    intro htouch
    exact hnew a (h.getLast?_of_stop_eq ha htouch) htouch

lemma wellFormed (h : SpansOf row.spans labels)
    (hlength : row.length = labels.length) : row.WellFormed where
  start_lt_stop _ hmem := h.start_lt_stop hmem
  stop_le_length _ hmem := by
    rw [hlength]
    exact h.stop_le_length hmem
  scopes_ne_nil _ hmem := h.scopes_ne_nil hmem
  ordered := h.ordered

end SpansOf

namespace ScopeRow

/-- Spans that do not overlap: one of them at most is over a column. -/
lemma WellFormed.eq_of_covers (h : row.WellFormed) {a b : ScopeSpan}
    (ha : a ∈ row.spans) (hb : b ∈ row.spans) {column : Nat} (hacovers : a.Covers column)
    (hbcovers : b.Covers column) : a = b := by
  obtain ⟨hastart, hastop⟩ := hacovers
  obtain ⟨hbstart, hbstop⟩ := hbcovers
  obtain ⟨i, hi, rfl⟩ := mem_iff_getElem.1 ha
  obtain ⟨j, hj, rfl⟩ := mem_iff_getElem.1 hb
  have hordered := pairwise_iff_getElem.1 h.ordered
  -- of two different spans the one in front stops before the other starts
  rcases Nat.lt_trichotomy i j with hij | rfl | hji
  · have hbefore := (hordered i j hi hj hij).1
    omega
  · rfl
  · have hbefore := (hordered j i hj hi hji).1
    omega

/-- The binary search finds what a search from left to right finds. -/
lemma spanAt?_eq_find? {labels : List ScopeChain} (h : SpansOf row.spans labels)
    (column : Nat) : row.spanAt? column = row.spans.find? fun span => span.Covers column := by
  cases hfind : row.spans.find? fun span => span.Covers column with
  | none =>
    apply spanAt?_eq_none
    intro span hmem hcovers
    have hmiss := find?_eq_none.1 hfind span hmem
    exact hmiss (decide_eq_true hcovers)
  | some span =>
    have hcovers := find?_some hfind
    exact spanAt?_eq_some h (mem_of_find?_eq_some hfind) (of_decide_eq_true hcovers)

end ScopeRow

/-- The scopes at a column of a row are those of the span over it, if there is one. -/
lemma ScopeMap.scopesAt_of_lt {m : ScopeMap} {p : Position} (hrow : m.rows[p.row]? = some row)
    (hlt : p.column < row.length) :
    m.scopesAt p = ((row.spanAt? p.column).elim [] ScopeSpan.scopes) ++ [m.root] := by
  have hmin : min p.column (row.length - 1) = p.column := by omega
  rw [scopesAt, hrow]
  simp only
  rw [if_neg (by omega), hmin]
  cases row.spanAt? p.column <;> rfl

/-! ## The scope map of a text -/

namespace Grammar

/-- A row of a scope map is made of labels, one for each of its characters. -/
lemma exists_spansOf {t : Text} (h : row ∈ (marko.tokenize t).rows) :
    ∃ labels, SpansOf row.spans labels ∧ row.length = labels.length := by
  rw [tokenize_marko] at h
  obtain ⟨pieces, -, rfl⟩ := mem_map.1 h
  exact ⟨Piece.labels pieces, ScopeRow.spansOf_ofPieces pieces⟩

/-- Every row of the text has a row of its length in the scope map. -/
lemma map_length_tokenize (t : Text) :
    (marko.tokenize t).rows.map ScopeRow.length = t.grammarRows.map List.length := by
  rw [← Lexer.map_length_labels_rows {} t.grammarRows, tokenize_marko, map_map, map_map]
  apply map_congr_left
  intro pieces _
  exact (ScopeRow.spansOf_ofPieces pieces).2

/-- Whatever it is inside of, the lexer ends on every row, after at most two steps for each character
and one more, and finds every column that it looks at; so it has a scope map for every text. The map
has a row for each row of the text, of its length, with spans in order. Below that length the scopes
of a column are those of the one span over it and the root, or the root alone, as a search from left
to right would give them. -/
theorem wellFormed_tokenize (t : Text) :
    (∀ (s : Lexer.State) (row : Text), ∃ spans last, ∀ steps ≥ 2 * row.length + 1,
      Lexer.readRow? steps s row = some (spans, last)) ∧
    Lexer.readRows? { root := Scope.marko } {} t.grammarRows = some (marko.tokenize t) ∧
    (marko.tokenize t).rows.map ScopeRow.length = t.grammarRows.map List.length ∧
    (∀ row ∈ (marko.tokenize t).rows, row.WellFormed) ∧
    ∀ (p : Position) (row : ScopeRow), (marko.tokenize t).rows[p.row]? = some row →
      p.column < row.length →
      (∀ a ∈ row.spans, ∀ b ∈ row.spans, a.Covers p.column → b.Covers p.column → a = b) ∧
      (∀ span ∈ row.spans, span.Covers p.column →
        (marko.tokenize t).scopesAt p = span.scopes ++ [Scope.marko]) ∧
      ((∀ span ∈ row.spans, ¬ span.Covers p.column) →
        (marko.tokenize t).scopesAt p = [Scope.marko]) ∧
      row.spanAt? p.column = row.spans.find? fun span => span.Covers p.column := by
  refine ⟨?_, readRows?_eq_some_tokenize t, map_length_tokenize t, ?_, ?_⟩
  · intro s row
    obtain ⟨spans, -, hread⟩ := Lexer.exists_readRow?_eq s row
    exact ⟨spans, _, hread⟩
  · intro row hmem
    obtain ⟨labels, hspans, hlength⟩ := exists_spansOf hmem
    exact hspans.wellFormed hlength
  · intro p row hrow hlt
    obtain ⟨labels, hspans, hlength⟩ := exists_spansOf (mem_of_getElem? hrow)
    have hscopes := ScopeMap.scopesAt_of_lt hrow hlt
    rw [root_tokenize_marko] at hscopes
    refine ⟨?_, ?_, ?_, ScopeRow.spanAt?_eq_find? hspans p.column⟩
    · intro a ha b hb
      exact (hspans.wellFormed hlength).eq_of_covers ha hb
    · intro span hmem hcovers
      rw [hscopes, ScopeRow.spanAt?_eq_some hspans hmem hcovers]
      rfl
    · intro hbare
      rw [hscopes, ScopeRow.spanAt?_eq_none hbare]
      rfl

/-- The row of `<a>x`. -/
def sampleRow : ScopeRow where
  length := 4
  spans := [⟨0, 1, [Scope.tagBeginOpen, Scope.metaTagOpen]⟩,
    ⟨1, 2, [Scope.tagName, Scope.metaTagOpen]⟩, ⟨2, 3, [Scope.tagEndOpen, Scope.metaTagOpen]⟩]

theorem wellFormed_tokenize_sampleRow :
    (marko.tokenize "<a>x".toList).rows[0]? = some sampleRow ∧ sampleRow.WellFormed ∧
      (marko.tokenize "<a>x".toList).scopesAt ⟨0, 1⟩ =
        [Scope.tagName, Scope.metaTagOpen, Scope.marko] ∧
      (marko.tokenize "<a>x".toList).scopesAt ⟨0, 3⟩ = [Scope.marko] := by
  obtain ⟨-, -, -, hformed, hscopes⟩ := wellFormed_tokenize "<a>x".toList
  have hrow : (marko.tokenize "<a>x".toList).rows[0]? = some sampleRow := by decide +kernel
  refine ⟨hrow, hformed sampleRow (mem_of_getElem? hrow), ?_, ?_⟩
  · exact (hscopes ⟨0, 1⟩ sampleRow hrow (by decide)).2.1 _
      (by decide : ⟨1, 2, [Scope.tagName, Scope.metaTagOpen]⟩ ∈ sampleRow.spans) (by decide)
  · exact (hscopes ⟨0, 3⟩ sampleRow hrow (by decide)).2.2.1 (by decide)

end Grammar

end TemplateEditing
