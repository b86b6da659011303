import TemplateEditing.Proofs.Buffer.Run

/-!
# Clipping

Every position has a nearest one in the text (`Text.clip`). Clipping keeps the order of positions
(`Text.clip_le_clip`), and so do offsets, whatever ends the rows (`Text.offsetOf_le_offsetOf`): a
row ends before the next one starts.
-/

namespace TemplateEditing.Text

/-- In a row of the text, only the column is cut. -/
lemma clip_of_lt {t : Text} {p : Position} (h : p.row < t.rowCount) :
    t.clip p = ⟨p.row, min p.column (t.lineLength p.row)⟩ := if_pos h

/-- Below the text, the place is the end of its last row. -/
lemma clip_of_le {t : Text} {p : Position} (h : t.rowCount ≤ p.row) :
    t.clip p = t.endPosition := if_neg (Nat.not_lt.2 h)

lemma rowCount_pos (t : Text) : 0 < t.rowCount := List.length_pos_iff.2 t.rows_ne_nil

/-- What has been clipped is not moved again. -/
lemma clip_clip (t : Text) (p : Position) : t.clip (t.clip p) = t.clip p := by
  by_cases hrow : p.row < t.rowCount
  · have hclip : (⟨p.row, min p.column (t.lineLength p.row)⟩ : Position).row < t.rowCount := hrow
    rw [clip_of_lt hrow, clip_of_lt hclip, Nat.min_assoc, Nat.min_self]
  · have hpos := t.rowCount_pos
    have hend : t.endPosition.row < t.rowCount := by
      show t.rowCount - 1 < t.rowCount
      omega
    rw [clip_of_le (Nat.le_of_not_lt hrow), clip_of_lt hend]
    exact congrArg (Position.mk _) (Nat.min_self _)

/-- Clipping keeps the order of places. -/
lemma clip_le_clip (t : Text) {p q : Position} (h : p ≤ q) : t.clip p ≤ t.clip q := by
  rw [Position.le_def] at h
  by_cases hq : q.row < t.rowCount
  · rw [clip_of_lt hq, clip_of_lt (by omega)]
    rcases h with hrow | ⟨hrow, hcolumn⟩
    · exact .inl hrow
    · refine .inr ⟨hrow, ?_⟩
      rw [hrow]
      exact Nat.le_min.2 ⟨Nat.le_trans (Nat.min_le_left _ _) hcolumn, Nat.min_le_right _ _⟩
  · -- a position below the text is clipped to the end of its last row
    rw [clip_of_le (Nat.le_of_not_lt hq)]
    by_cases hp : p.row < t.rowCount
    · rw [clip_of_lt hp, Position.le_def]
      show p.row < t.rowCount - 1 ∨ p.row = t.rowCount - 1 ∧
        min p.column (t.lineLength p.row) ≤ t.lineLength (t.rowCount - 1)
      by_cases hlast : p.row = t.rowCount - 1
      · refine .inr ⟨hlast, ?_⟩
        rw [hlast]
        exact Nat.min_le_right _ _
      · exact .inl (by omega)
    · rw [clip_of_le (Nat.le_of_not_lt hp)]
      exact Position.le_refl _

/-- Clipping leads to a row of the text. -/
lemma row_clip_lt (t : Text) (p : Position) : (t.clip p).row < t.rowCount := by
  by_cases hrow : p.row < t.rowCount
  · rw [clip_of_lt hrow]
    exact hrow
  · rw [clip_of_le (Nat.le_of_not_lt hrow)]
    exact Nat.sub_lt t.rowCount_pos Nat.one_pos

/-- Clipping leads to a column of its row. -/
lemma column_clip_le (t : Text) (p : Position) :
    (t.clip p).column ≤ t.lineLength (t.clip p).row := by
  by_cases hrow : p.row < t.rowCount
  · rw [clip_of_lt hrow]
    exact Nat.min_le_right _ _
  · rw [clip_of_le (Nat.le_of_not_lt hrow)]
    exact Nat.le_refl _

/-- A row ends before those below it start, whatever break is between them. -/
lemma rowStart_add_lineLength_le_rowStart (t : Text) {row below : Nat} (h : row < below) :
    t.rowStart row + t.lineLength row ≤ t.rowStart below := by
  have hlater : t.rowStart (row + 1) ≤ t.rowStart below := by
    obtain ⟨more, hmore⟩ := List.take_prefix_take_left (l := t.rows) (Nat.succ_le_of_lt h)
    rw [rowStart, rowStart, ← hmore, List.flatten_append, List.length_append]
    exact Nat.le_add_right _ _
  exact Nat.le_trans (t.rowStart_add_lineLength_le_succ row) hlater

/-- Offsets have the order of the positions, whatever ends the rows. -/
lemma offsetOf_le_offsetOf (t : Text) {p q : Position} (h : p ≤ q) :
    t.offsetOf p ≤ t.offsetOf q := by
  show t.rowStart (t.clip p).row + (t.clip p).column ≤
    t.rowStart (t.clip q).row + (t.clip q).column
  rcases t.clip_le_clip h with hrow | ⟨hrow, hcolumn⟩
  · have hends := t.rowStart_add_lineLength_le_rowStart hrow
    have hinside := t.column_clip_le p
    omega
  · rw [hrow]
    exact Nat.add_le_add_left hcolumn _

/-- Offsets in order come from places in order. -/
lemma lt_of_offsetOf_lt (t : Text) {p q : Position} (h : t.offsetOf p < t.offsetOf q) : p < q :=
  Position.not_le.1 fun hle => absurd (t.offsetOf_le_offsetOf hle) (Nat.not_le.2 h)

/-- A range and the range clipped into the text cover the same characters. -/
lemma inRange_ofEnds_clip (t : Text) {r : Range} (h : r.start ≤ r.stop) :
    t.inRange (.ofEnds (t.clip r.start) (t.clip r.stop)) = t.inRange r := by
  rw [Range.ofEnds, if_pos (t.clip_le_clip h)]
  unfold inRange offsetOf
  rw [clip_clip, clip_clip]

end TemplateEditing.Text
