import TemplateEditing.Proofs.Grammar.Rows
import TemplateEditing.Proofs.Text.Clip

/-!
# Positions in a text with any row breaks

Every text is a last row, which has no break in it, or a row with the break that ends it and a text
below (`Text.rowInduction`). A position in the first row and its offset differ by nothing, and below
the first row by the length of that row (`offsetOf_down`, `positionOf_length_add`). So going from
offsets to positions and back is decided row by row.

* An offset is lost on the way exactly if it splits a carriage return from its line feed, since
  such a position is clipped (`offsetOf_positionOf_iff`).
* A position comes back clipped, for all positions exactly if rows end at line feeds only, with or
  without a carriage return in front (`positionOf_offsetOf_iff`): the end of a row that keeps its
  break is the start of the next one.
-/

namespace TemplateEditing.Text

open List

variable {i : Nat}

/-! ## Induction along the rows -/

/-- None of the characters ends a row. -/
def Unbroken (t : Text) : Prop := ∀ c ∈ t, isRowBreak c = false

lemma unbroken_nil : Unbroken [] := fun _ hc => absurd hc not_mem_nil

/-- A break that ends a row in front of a text: a carriage return in front of a line feed is none on
its own. -/
def EndsAt (b : Text) (rest : Text) : Prop :=
  b = ['\r', '\n'] ∨ ∃ c, b = [c] ∧ isRowBreak c = true ∧ ¬ (c = '\r' ∧ rest.head? = some '\n')

lemma EndsAt.ne_nil {b rest : Text} (h : EndsAt b rest) : b ≠ [] := by
  rcases h with rfl | ⟨c, rfl, -⟩ <;> simp

/-- Without a break there is one row. -/
lemma rows_unbroken {x : Text} (h : Unbroken x) : rows x = [x] := by
  induction x with
  | nil => rfl
  | cons c x ih =>
    obtain ⟨hc, hx⟩ := forall_mem_cons.1 h
    have hr : c ≠ '\r' := by
      rintro rfl
      exact absurd hc (by decide)
    exact rows_cons_of_ne hr hc (ih hx)

/-- What ends at a break is a row. -/
lemma rows_endsAt {b rest : Text} (h : EndsAt b rest) : rows (b ++ rest) = b :: rows rest := by
  rcases h with rfl | ⟨c, rfl, hc, hpair⟩
  · rw [cons_append, cons_append, nil_append, rows]
  · rw [singleton_append, rows, if_pos hc]
    rintro below rfl rfl
    exact hpair ⟨rfl, rfl⟩

/-- The first row of a text with a break. -/
lemma rows_append {x b rest : Text} (hx : Unbroken x) (hb : EndsAt b rest) :
    rows (x ++ b ++ rest) = (x ++ b) :: rows rest := by
  rw [append_assoc]
  induction x with
  | nil => exact rows_endsAt hb
  | cons c x ih =>
    obtain ⟨hc, hx⟩ := forall_mem_cons.1 hx
    have hr : c ≠ '\r' := by
      rintro rfl
      exact absurd hc (by decide)
    exact rows_cons_of_ne hr hc (ih hx)

/-- A text that is not unbroken has a first row with a break. -/
lemma exists_first_row {t : Text} (h : ¬ Unbroken t) :
    ∃ x b rest, Unbroken x ∧ EndsAt b rest ∧ t = x ++ b ++ rest := by
  induction t with
  | nil => exact absurd unbroken_nil h
  | cons c t ih =>
    by_cases hc : isRowBreak c = true
    · refine ⟨[], ?_⟩
      by_cases hpair : c = '\r' ∧ t.head? = some '\n'
      · obtain ⟨rfl, hhead⟩ := hpair
        obtain ⟨rest, rfl⟩ := head?_eq_some_iff.1 hhead
        exact ⟨['\r', '\n'], rest, unbroken_nil, .inl rfl, rfl⟩
      · exact ⟨[c], t, unbroken_nil, .inr ⟨c, rfl, hc, hpair⟩, rfl⟩
    · have hc : isRowBreak c = false := by simpa using hc
      obtain ⟨x, b, rest, hx, hb, rfl⟩ := ih fun ht => h (forall_mem_cons.2 ⟨hc, ht⟩)
      exact ⟨c :: x, b, rest, forall_mem_cons.2 ⟨hc, hx⟩, hb, rfl⟩

/-- Induction along the rows of a text. -/
@[elab_as_elim]
theorem rowInduction {motive : Text → Prop} (last : ∀ x, Unbroken x → motive x)
    (row : ∀ x b rest, Unbroken x → EndsAt b rest → motive rest → motive (x ++ b ++ rest))
    (t : Text) : motive t := by
  by_cases h : Unbroken t
  · exact last t h
  · obtain ⟨x, b, rest, hx, hb, ht⟩ := exists_first_row h
    have : rest.length < t.length := by
      have hpos := length_pos_iff.2 hb.ne_nil
      rw [ht, length_append, length_append]
      omega
    rw [ht]
    exact row x b rest hx hb (rowInduction last row rest)
termination_by t.length

/-! ## The first row and what is below -/

section
variable {t row rest : Text}

/-- The first line is the first row without its break. -/
lemma lineLength_of_rows {below : List Text} (h : rows t = row :: below) :
    lineLength t 0 = (content row).length := by
  rw [lineLength, line, line?, h]
  rfl

lemma lineLength_succ (h : rows t = row :: rows rest) (k : Nat) :
    lineLength t (k + 1) = lineLength rest k := by
  rw [lineLength, line, line?, h]
  rfl

/-- The first row counts for one. -/
lemma rowCount_succ (h : rows t = row :: rows rest) : rowCount t = rowCount rest + 1 := by
  rw [rowCount, h]
  rfl

/-- Below its first row, a text is clipped like the rest of it. -/
lemma clip_down (h : rows t = row :: rows rest) (p : Position) :
    clip t (p.down 1) = (clip rest p).down 1 := by
  have hcount := rowCount_succ h
  have hpos := rest.rowCount_pos
  by_cases hrow : p.row < rowCount rest
  · rw [clip_of_lt hrow, clip_of_lt (show p.row + 1 < rowCount t by omega)]
    show (⟨p.row + 1, min p.column (lineLength t (p.row + 1))⟩ : Position) = _
    rw [lineLength_succ h]
    rfl
  · rw [clip_of_le (Nat.le_of_not_lt hrow),
      clip_of_le (show rowCount t ≤ p.row + 1 by omega)]
    show (⟨rowCount t - 1, lineLength t (rowCount t - 1)⟩ : Position) =
      ⟨rowCount rest - 1 + 1, lineLength rest (rowCount rest - 1)⟩
    rw [hcount, Nat.add_sub_cancel, ← lineLength_succ h, Nat.sub_add_cancel hpos]

/-- Lower rows start behind the first one. -/
lemma rowStart_succ (h : rows t = row :: rows rest) (k : Nat) :
    rowStart t (k + 1) = row.length + rowStart rest k := by
  rw [rowStart, h, take_succ_cons, flatten_cons, length_append]
  rfl

/-- A position below the first row is as much further on as the first row is long. -/
lemma offsetOf_down (h : rows t = row :: rows rest) (p : Position) :
    offsetOf t (p.down 1) = row.length + offsetOf rest p := by
  rw [offsetOf, clip_down h]
  show rowStart t ((clip rest p).row + 1) + (clip rest p).column = _
  rw [rowStart_succ h, Nat.add_assoc]
  rfl

/-- Offsets in the first row are columns up to its break. -/
lemma offsetOf_zero {below : List Text} (h : rows t = row :: below) (column : Nat) :
    offsetOf t ⟨0, column⟩ = min column (content row).length := by
  rw [offsetOf, clip_of_lt t.rowCount_pos]
  show 0 + min column (lineLength t 0) = _
  rw [lineLength_of_rows h, Nat.zero_add]

/-- Positions in the first row are offsets. -/
lemma positionOf_of_lt (h : rows t = row :: rows rest) (hi : i < row.length) :
    positionOf t i = ⟨0, i⟩ := by
  obtain ⟨next, below, hrest⟩ := exists_rows_eq_cons rest
  rw [positionOf, h, hrest, locateIn, if_pos hi]

/-- An offset behind the first row is looked up in what is below. -/
lemma positionOf_length_add (h : rows t = row :: rows rest) (i : Nat) :
    positionOf t (row.length + i) = (positionOf rest i).down 1 := by
  obtain ⟨next, below, hrest⟩ := exists_rows_eq_cons rest
  rw [positionOf, h, hrest, locateIn, if_neg (by omega), Nat.add_sub_cancel_left, positionOf, hrest]

end

lemma positionOf_unbroken {x : Text} (hx : Unbroken x) (hi : i ≤ x.length) :
    positionOf x i = ⟨0, i⟩ := by
  rw [positionOf, rows_unbroken hx, locateIn, Nat.min_eq_left hi]

/-- Every position is one of the first row or one below it. -/
lemma zero_or_down (p : Position) :
    (∃ column, p = ⟨0, column⟩) ∨ ∃ q : Position, p = q.down 1 := by
  obtain ⟨row, column⟩ := p
  cases row with
  | zero => exact .inl ⟨column, rfl⟩
  | succ row => exact .inr ⟨⟨row, column⟩, rfl⟩

/-! ## What a row keeps of its break -/

section
variable {x b rest : Text} {i : Nat}

lemma Unbroken.ne (hx : Unbroken x) {c d : Char} (hc : c ∈ x) (hd : isRowBreak d = true) :
    c ≠ d := by
  rintro rfl
  rw [hx c hc] at hd
  cases hd

lemma content_append (hx : Unbroken x) (b : Text) : content (x ++ b) = x ++ content b := by
  induction x with
  | nil => rfl
  | cons c x ih =>
    have hn := hx.ne mem_cons_self (show isRowBreak '\n' = true from rfl)
    have hr := hx.ne mem_cons_self (show isRowBreak '\r' = true from rfl)
    rw [cons_append, content_cons_of_ne hn hr, ih (forall_mem_cons.1 hx).2,
      cons_append]

lemma content_unbroken (hx : Unbroken x) : content x = x := by
  have happend := content_append hx []
  rwa [append_nil, content, append_nil] at happend

lemma content_singleton {c : Char} (hn : c ≠ '\n') : content [c] = [c] := by
  rw [content]
  · rfl
  · exact fun h _ => hn h
  · exact fun _ h => absurd h.symm (cons_ne_nil _ _)

/-- A row has no column for its break, one for the whole of it, or two for a line feed and the
carriage return in front. -/
lemma content_endsAt (hb : EndsAt b rest) :
    (b.getLast? = some '\n' ∧ content b = []) ∨ (b.getLast? ≠ some '\n' ∧ content b = b) := by
  rcases hb with rfl | ⟨c, rfl, -, -⟩
  · exact .inl ⟨rfl, rfl⟩
  · by_cases hn : c = '\n'
    · subst hn
      exact .inl ⟨rfl, rfl⟩
    · exact .inr ⟨by simpa using hn, content_singleton hn⟩

end

/-! ## Offset, position, offset -/

/-- An offset between a carriage return and its line feed. -/
def SplitsBreak (t : Text) (i : Nat) : Prop := 0 < i ∧ t[i - 1]? = some '\r' ∧ t[i]? = some '\n'

instance (t : Text) (i : Nat) : Decidable (SplitsBreak t i) :=
  inferInstanceAs (Decidable (0 < i ∧ t[i - 1]? = some '\r' ∧ t[i]? = some '\n'))

section
variable {x b rest : Text}

lemma Unbroken.not_splitsBreak (hx : Unbroken x) (i : Nat) : ¬ SplitsBreak x i := fun h =>
  hx.ne (mem_of_getElem? h.2.2) (show isRowBreak '\n' = true from rfl) rfl

/-- No break goes across the end of a row. -/
lemma splitsBreak_length_add (hb : EndsAt b rest) (x : Text) (i : Nat) :
    SplitsBreak (x ++ b ++ rest) ((x ++ b).length + i) ↔ SplitsBreak rest i := by
  have hright : ∀ k, (x ++ b ++ rest)[(x ++ b).length + k]? = rest[k]? := fun k => by
    rw [getElem?_append_right (Nat.le_add_right _ _), Nat.add_sub_cancel_left]
  cases i with
  | zero =>
    refine ⟨fun h => ?_, fun h => absurd h.1 (Nat.lt_irrefl 0)⟩
    obtain ⟨-, hreturn, hfeed⟩ := h
    rw [hright] at hfeed
    rcases hb with rfl | ⟨c, rfl, -, hpair⟩
    · simp at hreturn
    · refine absurd ⟨?_, ?_⟩ hpair
      · simpa using hreturn
      · rw [head?_eq_getElem?, hfeed]
  | succ i =>
    unfold SplitsBreak
    rw [hright, show (x ++ b).length + (i + 1) - 1 = (x ++ b).length + i by omega, hright,
      Nat.add_sub_cancel]
    exact and_congr_left fun _ => iff_of_true (by omega) (Nat.succ_pos i)

/-- In a row only the offset within its break is clipped. -/
lemma min_content_eq_iff (hx : Unbroken x) (hb : EndsAt b rest) (hi : i < (x ++ b).length) :
    min i (content (x ++ b)).length = i ↔ ¬ SplitsBreak (x ++ b ++ rest) i := by
  -- what stands in front of the break does not split one
  have hfront : i ≤ x.length → (x ++ b ++ rest)[i]? = some '\n' →
      (x ++ b ++ rest)[i - 1]? = some '\r' → 0 < i → False := by
    intro hle _ hreturn hpos
    rw [append_assoc, getElem?_append_left (by omega)] at hreturn
    exact hx.ne (mem_of_getElem? hreturn) (show isRowBreak '\r' = true from rfl) rfl
  have hkeep : i ≤ x.length →
      (min i (content (x ++ b)).length = i ↔ ¬ SplitsBreak (x ++ b ++ rest) i) := by
    intro hle
    refine iff_of_true ?_ fun h => hfront hle h.2.2 h.2.1 h.1
    rw [content_append hx, length_append]
    omega
  rw [length_append] at hi
  rcases hb with rfl | ⟨c, rfl, hc, -⟩
  · by_cases hle : i ≤ x.length
    · exact hkeep hle
    · obtain rfl : i = x.length + 1 := by
        simp only [length_cons, length_nil] at hi
        omega
      refine iff_of_false ?_ fun h => h ⟨Nat.succ_pos _, by simp, by simp⟩
      rw [content_append hx, length_append]
      show ¬ min (x.length + 1) (x.length + 0) = x.length + 1
      omega
  · exact hkeep (by simpa [Nat.lt_succ_iff] using hi)

end

/-- **Offset, position, offset.** Only an offset that splits a break is lost. -/
theorem offsetOf_positionOf_iff (t : Text) (hi : i ≤ t.length) :
    offsetOf t (positionOf t i) = i ↔ ¬ SplitsBreak t i := by
  induction t using rowInduction generalizing i with
  | last x hx =>
    rw [positionOf_unbroken hx hi, offsetOf_zero (rows_unbroken hx), content_unbroken hx]
    exact iff_of_true (Nat.min_eq_left hi) (hx.not_splitsBreak i)
  | row x b rest hx hb ih =>
    have hrows := rows_append hx hb
    rcases Nat.lt_or_ge i (x ++ b).length with hlt | hge
    · rw [positionOf_of_lt hrows hlt, offsetOf_zero hrows]
      exact min_content_eq_iff hx hb hlt
    · obtain ⟨j, rfl⟩ := Nat.exists_eq_add_of_le hge
      rw [(x ++ b).length_append, Nat.add_le_add_iff_left] at hi
      rw [positionOf_length_add hrows, offsetOf_down hrows, splitsBreak_length_add hb, ← ih hi,
        Nat.add_left_cancel_iff]

/-! ## Position, offset, position -/

section
variable {x b rest : Text}

lemma strayBreaks_cons_of_unbroken {c : Char} (hc : isRowBreak c = false) (t : Text) :
    strayBreaks (c :: t) = strayBreaks t := by
  have hr : c ≠ '\r' := by
    rintro rfl
    exact absurd hc (by decide)
  rw [strayBreaks]
  · simp [hc]
  · exact fun _ h => absurd h hr

/-- Text without breaks adds no stray one. -/
lemma strayBreaks_append (hx : Unbroken x) (t : Text) :
    strayBreaks (x ++ t) = strayBreaks t := by
  induction x with
  | nil => rfl
  | cons c x ih =>
    obtain ⟨hc, hx⟩ := forall_mem_cons.1 hx
    rw [cons_append, strayBreaks_cons_of_unbroken hc, ih hx]

lemma strayBreaks_endsAt (hb : EndsAt b rest) :
    strayBreaks (b ++ rest) = (if b.getLast? = some '\n' then 0 else 1) + strayBreaks rest := by
  rcases hb with rfl | ⟨c, rfl, hc, hpair⟩
  · show strayBreaks rest = 0 + strayBreaks rest
    rw [Nat.zero_add]
  · rw [singleton_append, strayBreaks]
    · by_cases hn : c = '\n'
      · simp [hn]
      · simp [hn, hc, Nat.add_comm]
    · rintro below rfl rfl
      exact hpair ⟨rfl, rfl⟩

lemma down_inj {p q : Position} (h : p.down 1 = q.down 1) : p = q := by
  obtain ⟨row, column⟩ := p
  obtain ⟨row', column'⟩ := q
  simpa [Position.down] using h

end

/-- **Position, offset, position.** All positions come back clipped exactly if every row ends at a
line feed, with or without a carriage return in front of it. -/
theorem positionOf_offsetOf_iff (t : Text) :
    (∀ p, positionOf t (offsetOf t p) = clip t p) ↔ strayBreaks t = 0 := by
  induction t using rowInduction with
  | last x hx =>
    have hstray : strayBreaks x = 0 := by
      have happend := strayBreaks_append hx []
      rwa [append_nil] at happend
    refine iff_of_true (fun p => ?_) hstray
    have hcount : rowCount x = 1 := congrArg List.length (rows_unbroken hx)
    have hrow : (clip x p).row = 0 := by
      have hlt := x.row_clip_lt p
      omega
    have hoffset : offsetOf x p = (clip x p).column := by
      rw [offsetOf, hrow]
      exact Nat.zero_add _
    rw [positionOf_unbroken hx (x.offsetOf_le_length p), hoffset, ← hrow]
  | row x b rest hx hb ih =>
    have hrows := rows_append hx hb
    have hbelow : ∀ p : Position, positionOf (x ++ b ++ rest) (offsetOf (x ++ b ++ rest) (p.down 1)) =
        (positionOf rest (offsetOf rest p)).down 1 := fun p => by
      rw [offsetOf_down hrows, positionOf_length_add hrows]
    rw [append_assoc, strayBreaks_append hx, strayBreaks_endsAt hb, ← append_assoc]
    rcases content_endsAt hb with ⟨hfeed, hcontent⟩ | ⟨hother, hcontent⟩
    · -- the row ends before its break, so it has its offsets to itself
      rw [if_pos hfeed, Nat.zero_add, ← ih]
      constructor
      · intro h p
        have hdown := h (p.down 1)
        rw [hbelow, clip_down hrows] at hdown
        exact down_inj hdown
      · intro h p
        rcases zero_or_down p with ⟨column, rfl⟩ | ⟨q, rfl⟩
        · have hpos := length_pos_iff.2 hb.ne_nil
          rw [offsetOf_zero hrows, content_append hx, hcontent, append_nil,
            positionOf_of_lt hrows (by rw [length_append]; omega),
            clip_of_lt (rowCount_pos _), lineLength_of_rows hrows, content_append hx, hcontent,
            append_nil]
        · rw [hbelow, clip_down hrows, h q]
    · -- the end of the row is the start of the next one
      refine iff_of_false (fun h => ?_) (by rw [if_neg hother]; omega)
      have hend := h ⟨0, (x ++ b).length⟩
      rw [offsetOf_zero hrows, content_append hx, hcontent, Nat.min_self, ← Nat.add_zero (x ++ b).length,
        positionOf_length_add hrows, clip_of_lt (rowCount_pos _)] at hend
      exact Nat.succ_ne_zero _ (congrArg Position.row hend)

/-- An offset of a position never splits a break. -/
lemma not_splitsBreak_offsetOf {t : Text} (h : strayBreaks t = 0) (p : Position) :
    ¬ SplitsBreak t (offsetOf t p) := by
  rw [← offsetOf_positionOf_iff t (t.offsetOf_le_length p), (positionOf_offsetOf_iff t).2 h p]
  unfold offsetOf
  rw [clip_clip]

/-- **Offsets and positions.** In every text, whatever ends its rows, offsets have the order of the
positions, in the text or out of it, and lie in the text; from an offset to its position and back
leads to the offset unless it splits a break; and from a position to its offset and back leads to
the position clipped, for all positions exactly if every row ends at a line feed, with or without a
carriage return in front of it. -/
theorem offsetOf_inverse_positionOf (t : Text) :
    (∀ p q, p ≤ q → t.offsetOf p ≤ t.offsetOf q) ∧
    (∀ p, t.offsetOf p ≤ t.length) ∧
    (∀ i ≤ t.length, t.offsetOf (t.positionOf i) = i ↔ ¬ t.SplitsBreak i) ∧
    ((∀ p, t.positionOf (t.offsetOf p) = t.clip p) ↔ t.strayBreaks = 0) :=
  ⟨fun _ _ => t.offsetOf_le_offsetOf, t.offsetOf_le_length, fun _ => t.offsetOf_positionOf_iff,
    t.positionOf_offsetOf_iff⟩

/-- Rows that end in four different ways. -/
def sampleRows : Text := "ab\r\nc\x0bd\re".toList

/-- Rows that end at line feeds, one of them behind a carriage return. -/
def sampleLines : Text := "ab\r\nc\nd".toList

theorem offsetOf_inverse_positionOf_sampleRows :
    (⟨0, 9⟩ : Position) ≤ ⟨1, 9⟩ ∧ sampleRows.offsetOf ⟨0, 9⟩ ≤ sampleRows.offsetOf ⟨1, 9⟩ ∧
      ¬ sampleRows.SplitsBreak 6 ∧ sampleRows.positionOf 6 = ⟨2, 0⟩ ∧
      sampleRows.offsetOf (sampleRows.positionOf 6) = 6 ∧
      sampleRows.SplitsBreak 3 ∧ sampleRows.offsetOf (sampleRows.positionOf 3) ≠ 3 ∧
      sampleLines.strayBreaks = 0 ∧ sampleLines.clip ⟨0, 9⟩ = ⟨0, 2⟩ ∧
      sampleLines.positionOf (sampleLines.offsetOf ⟨0, 9⟩) = sampleLines.clip ⟨0, 9⟩ := by
  obtain ⟨hmono, -, hoffset, -⟩ := offsetOf_inverse_positionOf sampleRows
  obtain ⟨-, -, -, hposition⟩ := offsetOf_inverse_positionOf sampleLines
  have hle : (⟨0, 9⟩ : Position) ≤ ⟨1, 9⟩ := by decide
  have hwhole : ¬ sampleRows.SplitsBreak 6 := by decide
  have hsplit : sampleRows.SplitsBreak 3 := by decide
  have hstray : sampleLines.strayBreaks = 0 := by decide
  exact ⟨hle, hmono _ _ hle, hwhole, by decide, (hoffset 6 (by decide)).2 hwhole, hsplit,
    fun h => (hoffset 3 (by decide)).1 h hsplit, hstray, by decide, hposition.2 hstray _⟩

end TemplateEditing.Text
