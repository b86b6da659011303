import Mathlib.Tactic.Lemma
import TemplateEditing.Grammar
import TemplateEditing.Text.Pattern

/-!
# Places in a text whose rows end at line feeds

The place behind a text is the position that a walk from the origin through the text comes to.
Places add up: going through `a` and then through `b` leads from the place behind `a` as far as
`b` leads from the origin. So whatever is known of offsets carries over to positions, and no
statement below has to speak of rows and columns apart.

On a text whose only row breaks are line feeds

* the position of an offset is the place behind the characters before it (`positionOf_eq_place`),
* offsets and positions are inverse to each other (`offsetOf_positionOf`, `positionOf_offsetOf`),
* positions are in the order of their offsets (`positionOf_le_iff`), and
* the rows are the pieces between the line feeds (`map_content_rows`), so that what is known of
  a piece row by row is known character by character (`getElem?_joinRows`).
-/

namespace TemplateEditing

open List

variable {t : Text} {c : Char} {i : Nat}

/-! ## Positions add up -/

namespace Position

/-- Going from `p` as far as `q` is from the origin: a way that stays in its row goes right, any
other one ends in the column it would end in anyway. -/
instance : Add Position :=
  ⟨fun p q => if q.row = 0 then ⟨p.row, p.column + q.column⟩ else ⟨p.row + q.row, q.column⟩⟩

lemma add_def (p q : Position) :
    p + q = if q.row = 0 then ⟨p.row, p.column + q.column⟩ else ⟨p.row + q.row, q.column⟩ := rfl

@[simp] lemma add_origin (p : Position) : p + origin = p := by
  rw [add_def, if_pos (show origin.row = 0 from rfl)]
  rfl

/-- Going on from a place is associative. -/
lemma add_assoc (p q r : Position) : p + q + r = p + (q + r) := by
  simp only [add_def]
  by_cases hr : r.row = 0
  · by_cases hq : q.row = 0
    · simp only [hr, hq, if_true, Nat.add_assoc]
    · simp only [hr, hq, if_true, if_false]
  · have hqr : q.row + r.row ≠ 0 := by omega
    simp only [hr, hqr, if_false]
    by_cases hq : q.row = 0
    · simp only [hq, if_true, Nat.zero_add]
    · simp only [hq, if_false, Nat.add_assoc]

/-- Going on from a position leads behind it, unless one does not go at all. -/
lemma lt_add {p q : Position} (h : q ≠ origin) : p < p + q := by
  obtain ⟨row, column⟩ := q
  rw [lt_def, add_def]
  by_cases hrow : row = 0
  · subst hrow
    have hcolumn : column ≠ 0 := by
      rintro rfl
      exact h rfl
    refine .inr ⟨rfl, ?_⟩
    show p.column < p.column + column
    omega
  · rw [if_neg hrow]
    refine .inl ?_
    show p.row < p.row + row
    omega

lemma le_of_lt {a b : Position} (h : a < b) : a ≤ b := by
  rw [lt_def] at h
  rw [le_def]
  omega

lemma le_antisymm {a b : Position} (h : a ≤ b) (k : b ≤ a) : a = b := by
  obtain ⟨row, column⟩ := a
  obtain ⟨row', column'⟩ := b
  rw [le_def] at h k
  simp only [mk.injEq] at h k ⊢
  omega

lemma lt_irrefl (a : Position) : ¬ a < a := by
  rw [lt_def]
  omega

/-- Going past a character is adding its extent. -/
lemma past_eq_add (p : Position) (c : Char) : p.past c = p + origin.past c := by
  unfold past
  split
  · rfl
  · split
    · exact (add_origin p).symm
    · rfl

end Position

namespace Text

/-- The position behind a text that starts at the origin. -/
def place (t : Text) : Position := Position.origin.pastText t

@[simp] lemma place_nil : place [] = .origin := rfl

/-- Wherever a text starts, it leads as far as from the origin. -/
lemma pastText_eq_add (p : Position) (t : Text) : p.pastText t = p + place t := by
  induction t generalizing p with
  | nil => exact (Position.add_origin p).symm
  | cons c t ih =>
    show (p.past c).pastText t = p + (Position.origin.past c).pastText t
    rw [ih, ih (Position.origin.past c), ← Position.add_assoc, ← Position.past_eq_add]

/-- The end of two texts is reached one after the other. -/
lemma place_append (a b : Text) : place (a ++ b) = place a + place b := by
  rw [← pastText_eq_add]
  exact foldl_append

lemma place_cons (c : Char) (t : Text) : place (c :: t) = Position.origin.past c + place t :=
  place_append [c] t

/-- A line feed in front moves a place down one row. -/
lemma place_lineFeed_cons (t : Text) : place ('\n' :: t) = (place t).down 1 := by
  rw [place_cons]
  show (⟨1, 0⟩ : Position) + place t = ⟨(place t).row + 1, (place t).column⟩
  rw [Position.add_def, Nat.add_comm (place t).row 1]
  split
  · next h => rw [h, Nat.zero_add]
  · rfl

/-! ## Line feeds as the only row breaks -/

/-- What holds of all characters of a text is decided by going through the text, never through all
characters there are. -/
instance (priority := 2000) decidableForallMem (t : Text) (p : Char → Prop) [DecidablePred p] :
    Decidable (∀ c ∈ t, p c) := List.decidableBAll p t

/-- The only characters that end a row are line feeds. -/
def OnlyLineFeeds (t : Text) : Prop := ∀ c ∈ t, isRowBreak c = true → c = '\n'

instance (t : Text) : Decidable (OnlyLineFeeds t) :=
  inferInstanceAs (Decidable (∀ c ∈ t, isRowBreak c = true → c = '\n'))

namespace OnlyLineFeeds

variable {a b t : Text} {c : Char}

lemma nil : OnlyLineFeeds [] := fun _ h => nomatch h

lemma append (ha : OnlyLineFeeds a) (hb : OnlyLineFeeds b) : OnlyLineFeeds (a ++ b) := by
  intro d hd
  rcases mem_append.1 hd with h | h
  · exact ha d h
  · exact hb d h

lemma tail (h : OnlyLineFeeds (c :: t)) : OnlyLineFeeds t :=
  fun d hd => h d (mem_cons_of_mem c hd)

lemma of_sublist (h : OnlyLineFeeds b) (hs : List.Sublist a b) : OnlyLineFeeds a :=
  fun d hd => h d (hs.subset hd)

lemma take (h : OnlyLineFeeds t) (i : Nat) : OnlyLineFeeds (t.take i) :=
  h.of_sublist (take_sublist i t)

lemma drop (h : OnlyLineFeeds t) (i : Nat) : OnlyLineFeeds (t.drop i) :=
  h.of_sublist (drop_sublist i t)

/-- The first character is a line feed, or neither a row break nor a carriage return. -/
lemma head_cases (h : OnlyLineFeeds (c :: t)) :
    c = '\n' ∨ (c ≠ '\n' ∧ c ≠ '\r' ∧ isRowBreak c = false) := by
  by_cases hb : isRowBreak c = true
  · exact .inl (h c mem_cons_self hb)
  · refine .inr ⟨?_, ?_, by simpa using hb⟩
    · rintro rfl
      exact hb rfl
    · rintro rfl
      exact hb rfl

end OnlyLineFeeds

lemma place_cons_of_ne (hn : c ≠ '\n') (hr : c ≠ '\r') (t : Text) :
    place (c :: t) = ⟨0, 1⟩ + place t := by
  rw [place_cons]
  have : Position.origin.past c = ⟨0, 1⟩ := by
    unfold Position.past
    rw [if_neg (by simpa using hn), if_neg (by simpa using hr)]
    rfl
  rw [this]

/-- Every character leads somewhere. -/
lemma place_ne_origin (h : OnlyLineFeeds t) (hne : t ≠ []) : place t ≠ .origin := by
  cases t with
  | nil => exact absurd rfl hne
  | cons c t =>
    intro heq
    rcases h.head_cases with rfl | ⟨hn, hr, -⟩
    · rw [place_lineFeed_cons] at heq
      have hrow : (place t).row + 1 = 0 := congrArg Position.row heq
      omega
    · rw [place_cons_of_ne hn hr, Position.add_def] at heq
      split at heq
      · have hcol : 1 + (place t).column = 0 := congrArg Position.column heq
        omega
      · next hq =>
        have hrow : 0 + (place t).row = 0 := congrArg Position.row heq
        omega

/-! ## Rows -/

lemma rows_lineFeed_cons (t : Text) : rows ('\n' :: t) = ['\n'] :: rows t := by
  rw [rows]
  · rw [if_pos (show isRowBreak '\n' = true from rfl)]
  · exact fun _ h => absurd h (by decide)

lemma rows_cons_of_ne (hr : c ≠ '\r') (hb : isRowBreak c = false) {t row : Text}
    {below : List Text} (h : rows t = row :: below) : rows (c :: t) = (c :: row) :: below := by
  rw [rows]
  · rw [hb, if_neg Bool.false_ne_true, h]
  · exact fun _ h => absurd h hr

/-- Every text has a first row. -/
lemma exists_rows_eq_cons (t : Text) : ∃ row below, rows t = row :: below :=
  exists_cons_of_ne_nil (rows_ne_nil t)

lemma cutAtLineFeeds_lineFeed_cons (t : Text) :
    cutAtLineFeeds ('\n' :: t) = [] :: cutAtLineFeeds t := rfl

lemma cutAtLineFeeds_ne_nil (t : Text) : cutAtLineFeeds t ≠ [] := by
  fun_induction cutAtLineFeeds t <;> simp

lemma exists_cutAtLineFeeds_eq_cons (t : Text) :
    ∃ piece more, cutAtLineFeeds t = piece :: more :=
  exists_cons_of_ne_nil (cutAtLineFeeds_ne_nil t)

lemma cutAtLineFeeds_cons_of_ne (hn : c ≠ '\n') {t piece : Text} {more : List Text}
    (h : cutAtLineFeeds t = piece :: more) : cutAtLineFeeds (c :: t) = (c :: piece) :: more := by
  rw [cutAtLineFeeds, if_neg (by simpa using hn), h]

/-- Text without line feeds goes into the first piece. -/
lemma cutAtLineFeeds_append {a : Text} (ha : '\n' ∉ a) {b piece : Text} {more : List Text}
    (hb : cutAtLineFeeds b = piece :: more) : cutAtLineFeeds (a ++ b) = (a ++ piece) :: more := by
  induction a with
  | nil => exact hb
  | cons c a ih =>
    rw [mem_cons, not_or] at ha
    exact cutAtLineFeeds_cons_of_ne (Ne.symm ha.1) (ih ha.2)

/-- A row ends in front of this text. -/
def EndsRow (t : Text) : Prop := t = [] ∨ ∃ rest, t = '\n' :: rest

lemma EndsRow.cutAtLineFeeds (h : EndsRow t) :
    ∃ more, t.cutAtLineFeeds = [] :: more := by
  rcases h with rfl | ⟨rest, rfl⟩
  · exact ⟨[], rfl⟩
  · exact ⟨_, cutAtLineFeeds_lineFeed_cons rest⟩

/-- Every text is the rest of a row, and what stands below. -/
lemma exists_row_append (t : Text) :
    ∃ row below, '\n' ∉ row ∧ EndsRow below ∧ t = row ++ below := by
  induction t with
  | nil => exact ⟨[], [], not_mem_nil, .inl rfl, rfl⟩
  | cons c t ih =>
    by_cases hc : c = '\n'
    · subst hc
      exact ⟨[], '\n' :: t, not_mem_nil, .inr ⟨t, rfl⟩, rfl⟩
    · obtain ⟨row, below, hrow, hbelow, rfl⟩ := ih
      refine ⟨c :: row, below, ?_, hbelow, rfl⟩
      rw [mem_cons, not_or]
      exact ⟨Ne.symm hc, hrow⟩

lemma mem_of_mem_cutAtLineFeeds {t piece : Text} (hpiece : piece ∈ cutAtLineFeeds t)
    (hc : c ∈ piece) : c ∈ t := by
  induction t generalizing piece with
  | nil =>
    rw [mem_singleton.1 hpiece] at hc
    exact hc
  | cons d t ih =>
    obtain ⟨first, more, hcut⟩ := exists_cutAtLineFeeds_eq_cons t
    by_cases hd : d = '\n'
    · subst hd
      rcases mem_cons.1 hpiece with rfl | hmore
      · exact nomatch hc
      · exact mem_cons_of_mem _ (ih hmore hc)
    · rw [cutAtLineFeeds_cons_of_ne hd hcut] at hpiece
      rcases mem_cons.1 hpiece with rfl | hmore
      · rcases mem_cons.1 hc with rfl | hfirst
        · exact mem_cons_self
        · exact mem_cons_of_mem _ (ih (hcut ▸ mem_cons_self) hfirst)
      · exact mem_cons_of_mem _ (ih (hcut ▸ mem_cons_of_mem _ hmore) hc)

/-- No piece holds a line feed. -/
lemma not_mem_of_mem_cutAtLineFeeds {t piece : Text} (hpiece : piece ∈ cutAtLineFeeds t) :
    '\n' ∉ piece := by
  induction t generalizing piece with
  | nil =>
    rw [mem_singleton.1 hpiece]
    exact not_mem_nil
  | cons d t ih =>
    obtain ⟨first, more, hcut⟩ := exists_cutAtLineFeeds_eq_cons t
    by_cases hd : d = '\n'
    · subst hd
      rcases mem_cons.1 hpiece with rfl | hmore
      · exact not_mem_nil
      · exact ih hmore
    · rw [cutAtLineFeeds_cons_of_ne hd hcut] at hpiece
      rcases mem_cons.1 hpiece with rfl | hmore
      · rw [mem_cons, not_or]
        exact ⟨Ne.symm hd, ih (hcut ▸ mem_cons_self)⟩
      · exact ih (hcut ▸ mem_cons_of_mem _ hmore)

lemma content_cons_of_ne (hn : c ≠ '\n') (hr : c ≠ '\r') (row : Text) :
    content (c :: row) = c :: content row := by
  rw [content]
  · exact fun h => absurd h hn
  · exact fun h => absurd h hr

/-- The columns of the rows are the pieces between the line feeds. -/
lemma map_content_rows (h : OnlyLineFeeds t) :
    (rows t).map content = cutAtLineFeeds t := by
  induction t with
  | nil => rfl
  | cons c t ih =>
    rcases h.head_cases with rfl | ⟨hn, hr, hb⟩
    · rw [rows_lineFeed_cons, cutAtLineFeeds_lineFeed_cons, map_cons, ih h.tail]
      rfl
    · obtain ⟨row, below, hrows⟩ := exists_rows_eq_cons t
      have ih := ih h.tail
      rw [hrows, map_cons] at ih
      rw [rows_cons_of_ne hr hb hrows, cutAtLineFeeds_cons_of_ne hn ih.symm, map_cons,
        content_cons_of_ne hn hr]

/-! ## The position of an offset -/

lemma locateIn_cons_zero (c : Char) (row : Text) (below : List Text) :
    locateIn ((c :: row) :: below) 0 = .origin := by
  cases below with
  | nil => rfl
  | cons next below => exact if_pos (Nat.succ_pos _)

lemma locateIn_cons_succ (c : Char) (row : Text) (below : List Text) (i : Nat) :
    locateIn ((c :: row) :: below) (i + 1) = ⟨0, 1⟩ + locateIn (row :: below) i := by
  rw [Position.add_def]
  cases below with
  | nil =>
    simp only [locateIn, length_cons, if_true, Nat.add_min_add_right]
    rw [Nat.add_comm]
  | cons next below =>
    simp only [locateIn, length_cons, Nat.add_lt_add_iff_right, Nat.add_sub_add_right]
    split
    · simp only [if_true]
      rw [Nat.add_comm]
    · -- below the first row nothing moves
      simp only [Position.down, Nat.succ_ne_zero, if_false, Nat.zero_add]

/-- The position of an offset is the place behind the characters before it. -/
theorem positionOf_eq_place (h : OnlyLineFeeds t) (i : Nat) :
    positionOf t i = place (t.take i) := by
  induction t generalizing i with
  | nil =>
    rw [take_nil]
    show (⟨0, min i 0⟩ : Position) = .origin
    rw [Nat.min_zero]
    rfl
  | cons c t ih =>
    obtain ⟨row, below, hrows⟩ := exists_rows_eq_cons t
    have ih := ih h.tail
    unfold positionOf at ih ⊢
    rcases h.head_cases with rfl | ⟨hn, hr, hb⟩
    · rw [rows_lineFeed_cons, hrows, locateIn, ← hrows]
      cases i with
      | zero => rfl
      | succ i =>
        rw [if_neg (by simp), take_succ_cons, place_lineFeed_cons, ← ih i]
        rfl
    · rw [rows_cons_of_ne hr hb hrows]
      cases i with
      | zero => exact locateIn_cons_zero c row below
      | succ i =>
        rw [locateIn_cons_succ, ← hrows, ih i, take_succ_cons, place_cons_of_ne hn hr]

/-- Offsets and positions are in the same order. -/
theorem positionOf_lt_iff (h : OnlyLineFeeds t) {i j : Nat} (hi : i ≤ t.length)
    (hj : j ≤ t.length) : positionOf t i < positionOf t j ↔ i < j := by
  have key : ∀ {i j : Nat}, i < j → j ≤ t.length → positionOf t i < positionOf t j := by
    -- the characters between the two lead on from the first position
    intro i j hij hj
    have hsplit : t.take j = t.take i ++ (t.take j).drop i := by
      have hsplit := take_append_drop i (t.take j)
      rw [take_take, Nat.min_eq_left (Nat.le_of_lt hij)] at hsplit
      exact hsplit.symm
    rw [positionOf_eq_place h, positionOf_eq_place h, hsplit, place_append]
    apply Position.lt_add
    apply place_ne_origin ((h.take j).drop i)
    intro hnil
    have := congrArg List.length hnil
    simp only [length_drop, length_take, length_nil] at this
    omega
  constructor
  · intro hlt
    rcases Nat.lt_trichotomy i j with hij | rfl | hji
    · exact hij
    · exact absurd hlt (Position.lt_irrefl _)
    · have hgt := key hji hi
      rw [Position.lt_def] at hlt hgt
      omega
  · exact fun hij => key hij hj

/-- Offsets and their positions are ordered alike. -/
theorem positionOf_le_iff (h : OnlyLineFeeds t) {i j : Nat} (hi : i ≤ t.length)
    (hj : j ≤ t.length) : positionOf t i ≤ positionOf t j ↔ i ≤ j := by
  rw [← Position.not_lt, positionOf_lt_iff h hj hi, Nat.not_lt]

/-- Different offsets have different positions. -/
lemma positionOf_inj (h : OnlyLineFeeds t) {i j : Nat} (hi : i ≤ t.length)
    (hj : j ≤ t.length) (heq : t.positionOf i = t.positionOf j) : i = j := by
  have hij := (positionOf_le_iff h hi hj).1 (heq ▸ Position.le_refl _)
  have hji := (positionOf_le_iff h hj hi).1 (heq ▸ Position.le_refl _)
  omega

lemma ofEnds_positionOf (h : OnlyLineFeeds t) {i j : Nat} (hij : i ≤ j) (hj : j ≤ t.length) :
    Range.ofEnds (positionOf t i) (positionOf t j) = ⟨positionOf t i, positionOf t j⟩ := by
  rw [Range.ofEnds, if_pos ((positionOf_le_iff h (by omega) hj).2 hij)]

/-! ## The offset of a position -/

/-- A text has one row for each piece between line feeds. -/
lemma rowCount_eq (h : OnlyLineFeeds t) : rowCount t = (cutAtLineFeeds t).length := by
  rw [← map_content_rows h, length_map]
  rfl

/-- A line is the piece between two line feeds. -/
lemma line?_eq (h : OnlyLineFeeds t) (row : Nat) :
    line? t row = (cutAtLineFeeds t)[row]? := by
  rw [← map_content_rows h, getElem?_map]
  rfl

lemma rowStart_zero (t : Text) : rowStart t 0 = 0 := rfl

lemma rowStart_lineFeed_cons (t : Text) (row : Nat) :
    rowStart ('\n' :: t) (row + 1) = rowStart t row + 1 := by
  unfold rowStart
  rw [rows_lineFeed_cons, take_succ_cons, flatten_cons, length_append]
  exact Nat.add_comm _ _

lemma rowStart_cons_of_ne (hr : c ≠ '\r') (hb : isRowBreak c = false) (t : Text)
    (row : Nat) : rowStart (c :: t) (row + 1) = rowStart t (row + 1) + 1 := by
  obtain ⟨first, below, hrows⟩ := exists_rows_eq_cons t
  unfold rowStart
  rw [rows_cons_of_ne hr hb hrows, hrows]
  simp only [take_succ_cons, flatten_cons, cons_append, length_cons]

/-- A position lies in a text: its row is one of the rows, and its column in it or right behind. -/
def Holds (t : Text) (p : Position) : Prop :=
  ∃ piece, (cutAtLineFeeds t)[p.row]? = some piece ∧ p.column ≤ piece.length

/-- The start of a row and the column in it make up the offset, and every offset arises so. -/
lemma holds_place (h : OnlyLineFeeds t) (hi : i ≤ t.length) :
    Holds t (place (t.take i)) ∧
      rowStart t (place (t.take i)).row + (place (t.take i)).column = i := by
  induction t generalizing i with
  | nil =>
    rw [take_nil]
    have hi : i = 0 := Nat.le_zero.1 hi
    exact ⟨⟨[], rfl, Nat.le_refl _⟩, hi.symm⟩
  | cons c t ih =>
    obtain ⟨piece, more, hcut⟩ := exists_cutAtLineFeeds_eq_cons t
    cases i with
    | zero =>
      obtain ⟨first, rest, hfirst⟩ := exists_cutAtLineFeeds_eq_cons (c :: t)
      refine ⟨⟨first, ?_, Nat.zero_le _⟩, rfl⟩
      rw [hfirst]
      rfl
    | succ i =>
      obtain ⟨⟨found, hfound, hcol⟩, hsum⟩ := ih h.tail (Nat.le_of_succ_le_succ hi)
      rw [take_succ_cons]
      rcases h.head_cases with rfl | ⟨hn, hr, hb⟩
      · rw [place_lineFeed_cons]
        refine ⟨⟨found, hfound, hcol⟩, ?_⟩
        show rowStart ('\n' :: t) ((place (t.take i)).row + 1) + (place (t.take i)).column = i + 1
        rw [rowStart_lineFeed_cons]
        omega
      · rw [place_cons_of_ne hn hr, Position.add_def]
        generalize place (t.take i) = q at hfound hcol hsum
        obtain ⟨row, column⟩ := q
        simp only at hfound hcol hsum ⊢
        -- in the first row the column moves, below it the start of the row
        cases row with
        | zero =>
          rw [if_pos rfl]
          have hpiece : piece = found := by
            rw [hcut] at hfound
            exact Option.some.inj hfound
          subst hpiece
          refine ⟨⟨c :: piece, by rw [cutAtLineFeeds_cons_of_ne hn hcut]; rfl, ?_⟩, ?_⟩
          · show 1 + column ≤ piece.length + 1
            omega
          · rw [rowStart_zero] at hsum ⊢
            show 0 + (1 + column) = i + 1
            omega
        | succ row =>
          rw [if_neg (Nat.succ_ne_zero row)]
          refine ⟨⟨found, ?_, hcol⟩, ?_⟩
          · rw [cutAtLineFeeds_cons_of_ne hn hcut]
            rw [hcut] at hfound
            simpa using hfound
          · show rowStart (c :: t) (0 + (row + 1)) + column = i + 1
            rw [Nat.zero_add, rowStart_cons_of_ne hr hb]
            omega

lemma place_take_of_holds (h : OnlyLineFeeds t) {p : Position} (hp : Holds t p) :
    place (t.take (rowStart t p.row + p.column)) = p := by
  induction t generalizing p with
  | nil =>
    obtain ⟨piece, hpiece, hcol⟩ := hp
    obtain ⟨row, column⟩ := p
    cases row with
    | zero =>
      obtain rfl : [] = piece := Option.some.inj hpiece
      obtain rfl : column = 0 := Nat.le_zero.1 hcol
      rfl
    | succ row => simp [cutAtLineFeeds] at hpiece
  | cons c t ih =>
    obtain ⟨piece, hpiece, hcol⟩ := hp
    obtain ⟨row, column⟩ := p
    obtain ⟨first, more, hcut⟩ := exists_cutAtLineFeeds_eq_cons t
    simp only at hpiece hcol ⊢
    rcases h.head_cases with rfl | ⟨hn, hr, hb⟩
    · -- a line feed: the row is one further down in the rest
      rw [cutAtLineFeeds_lineFeed_cons] at hpiece
      cases row with
      | zero =>
        obtain rfl : [] = piece := Option.some.inj hpiece
        obtain rfl : column = 0 := Nat.le_zero.1 hcol
        rfl
      | succ row =>
        have ih := ih h.tail (p := ⟨row, column⟩) ⟨piece, by simpa using hpiece, hcol⟩
        rw [rowStart_lineFeed_cons, Nat.add_right_comm, take_succ_cons, place_lineFeed_cons,
          ih]
        rfl
    · -- another character: it moves only the columns of the first row
      rw [cutAtLineFeeds_cons_of_ne hn hcut] at hpiece
      cases row with
      | zero =>
        obtain rfl : c :: first = piece := Option.some.inj hpiece
        cases column with
        | zero => rfl
        | succ column =>
          have ih := ih h.tail (p := ⟨0, column⟩)
            ⟨first, by rw [hcut]; rfl, Nat.le_of_succ_le_succ hcol⟩
          rw [rowStart_zero] at ih ⊢
          rw [← Nat.add_assoc, take_succ_cons, place_cons_of_ne hn hr, ih, Position.add_def,
            if_pos rfl]
          show (⟨0, 1 + column⟩ : Position) = ⟨0, column + 1⟩
          rw [Nat.add_comm]
      | succ row =>
        have ih := ih h.tail (p := ⟨row + 1, column⟩)
          ⟨piece, by rw [hcut]; simpa using hpiece, hcol⟩
        rw [rowStart_cons_of_ne hr hb, Nat.add_right_comm, take_succ_cons,
          place_cons_of_ne hn hr, ih, Position.add_def, if_neg (Nat.succ_ne_zero row)]
        show (⟨0 + (row + 1), column⟩ : Position) = ⟨row + 1, column⟩
        rw [Nat.zero_add]

/-- Clipping leaves a place of the text where it is. -/
lemma clip_of_holds (h : OnlyLineFeeds t) {p : Position} (hp : Holds t p) :
    clip t p = p := by
  obtain ⟨piece, hpiece, hcol⟩ := hp
  have hrow : p.row < rowCount t := by
    rw [rowCount_eq h]
    exact (List.getElem?_eq_some_iff.1 hpiece).1
  have hline : lineLength t p.row = piece.length := by
    rw [lineLength, line, line?_eq h, hpiece]
    rfl
  rw [clip, if_pos hrow, hline, Nat.min_eq_left hcol]

/-- Clipping leads to a place of the text. -/
lemma holds_clip (h : OnlyLineFeeds t) (p : Position) : Holds t (clip t p) := by
  have hall : ∀ row < rowCount t, ∀ column ≤ lineLength t row, Holds t ⟨row, column⟩ := by
    intro row hrow column hcol
    rw [rowCount_eq h] at hrow
    refine ⟨(cutAtLineFeeds t)[row], getElem?_eq_getElem hrow, ?_⟩
    rw [lineLength, line, line?_eq h, getElem?_eq_getElem hrow] at hcol
    exact hcol
  unfold clip
  split
  · next hrow => exact hall _ hrow _ (Nat.min_le_right _ _)
  · apply hall _ _ _ (Nat.le_refl _)
    have := length_pos_iff.2 (cutAtLineFeeds_ne_nil t)
    rw [← rowCount_eq h] at this
    omega

/-- Offset, position, offset. -/
theorem offsetOf_positionOf (h : OnlyLineFeeds t) (hi : i ≤ t.length) :
    offsetOf t (positionOf t i) = i := by
  obtain ⟨hholds, hsum⟩ := holds_place h hi
  rw [offsetOf, positionOf_eq_place h, clip_of_holds h hholds]
  exact hsum

/-- Position, offset, position. -/
theorem positionOf_offsetOf (h : OnlyLineFeeds t) (p : Position) :
    positionOf t (offsetOf t p) = clip t p := by
  rw [positionOf_eq_place h]
  exact place_take_of_holds h (holds_clip h p)

lemma positionOf_zero (h : OnlyLineFeeds t) : positionOf t 0 = .origin := by
  rw [positionOf_eq_place h, take_zero, place_nil]

/-- No position in a text is behind its end. -/
lemma le_endPosition (h : OnlyLineFeeds t) {p : Position} (hp : Holds t p) :
    p ≤ endPosition t := by
  obtain ⟨piece, hpiece, hcol⟩ := hp
  have hrow : p.row < rowCount t := by
    rw [rowCount_eq h]
    exact (List.getElem?_eq_some_iff.1 hpiece).1
  rw [Position.le_def]
  show p.row < rowCount t - 1 ∨ p.row = rowCount t - 1 ∧ p.column ≤ lineLength t (rowCount t - 1)
  rcases Nat.lt_or_ge p.row (rowCount t - 1) with hlt | hge
  · exact .inl hlt
  · have hlast : p.row = rowCount t - 1 := by omega
    refine .inr ⟨hlast, ?_⟩
    rw [lineLength, line, line?_eq h, ← hlast, hpiece]
    exact hcol

/-- The end of a text is the position of its length. -/
lemma endPosition_eq (h : OnlyLineFeeds t) : endPosition t = positionOf t t.length := by
  have hend : Holds t (endPosition t) := by
    have hclip := holds_clip h ⟨rowCount t, 0⟩
    rwa [clip, if_neg (Nat.lt_irrefl _)] at hclip
  apply Position.le_antisymm
  · -- the end has an offset, and no offset is behind the length
    rw [← place_take_of_holds h hend, ← positionOf_eq_place h]
    generalize rowStart t _ + _ = i
    rcases Nat.le_total i t.length with hi | hi
    · exact (positionOf_le_iff h hi (Nat.le_refl _)).2 hi
    · rw [positionOf_eq_place h, positionOf_eq_place h, take_of_length_le hi, take_length]
      exact Position.le_refl _
  · apply le_endPosition h
    rw [positionOf_eq_place h]
    exact (holds_place h (Nat.le_refl _)).1

/-- The characters between two offsets are those between their positions. -/
lemma inRange_positionOf (h : OnlyLineFeeds t) {i j : Nat} (hi : i ≤ t.length)
    (hj : j ≤ t.length) : inRange t ⟨positionOf t i, positionOf t j⟩ = slice t i j := by
  rw [inRange, offsetOf_positionOf h hi, offsetOf_positionOf h hj]

/-- The position of an offset needs no clipping. -/
lemma clip_positionOf (h : OnlyLineFeeds t) (hi : i ≤ t.length) :
    clip t (positionOf t i) = positionOf t i := by
  rw [← positionOf_offsetOf h, offsetOf_positionOf h hi]

/-! ## Row by row and character by character -/

variable {α : Type}

/-- Rows one after the other, with `gap` in the stead of each break between them. -/
def joinRows (gap : α) : List (List α) → List α
  | [] => []
  | [row] => row
  | row :: next :: below => row ++ gap :: joinRows gap (next :: below)

lemma joinRows_cons_cons (gap a : α) (row : List α) (below : List (List α)) :
    joinRows gap ((a :: row) :: below) = a :: joinRows gap (row :: below) := by
  cases below <;> rfl

/-- Cutting at line feeds loses nothing. -/
lemma joinRows_cutAtLineFeeds (t : Text) : joinRows '\n' (cutAtLineFeeds t) = t := by
  induction t with
  | nil => rfl
  | cons c t ih =>
    obtain ⟨piece, more, hcut⟩ := exists_cutAtLineFeeds_eq_cons t
    rw [hcut] at ih
    by_cases hn : c = '\n'
    · subst hn
      rw [cutAtLineFeeds_lineFeed_cons, hcut]
      show [] ++ '\n' :: joinRows '\n' (piece :: more) = '\n' :: t
      rw [ih, nil_append]
    · rw [cutAtLineFeeds_cons_of_ne hn hcut, joinRows_cons_cons, ih]

/-- What stands in a row and column of rows as long as those of a text stands, in the rows joined,
at the offset of that place. -/
lemma getElem?_joinRows (gap : α) (h : OnlyLineFeeds t) {rows : List (List α)}
    (hrows : rows.map List.length = (cutAtLineFeeds t).map List.length) (hc : t[i]? = some c)
    (hn : c ≠ '\n') :
    (joinRows gap rows)[i]? = rows[(positionOf t i).row]?.bind (·[(positionOf t i).column]?) := by
  rw [positionOf_eq_place h]
  induction t generalizing rows i with
  | nil => simp at hc
  | cons d t ih =>
    obtain ⟨piece, more, hcut⟩ := exists_cutAtLineFeeds_eq_cons t
    rcases h.head_cases with rfl | ⟨hd, hr, -⟩
    · -- a line feed stands at none of the offsets asked for
      cases i with
      | zero => exact absurd (Option.some.inj hc).symm hn
      | succ i =>
        rw [cutAtLineFeeds_lineFeed_cons] at hrows
        obtain ⟨first, rest, rfl, hfirst, hrest⟩ := map_eq_cons_iff.1 hrows
        obtain rfl : first = [] := eq_nil_of_length_eq_zero hfirst
        have ih := ih h.tail hrest (by simpa using hc)
        rw [hcut] at hrest
        obtain ⟨next, below, rfl, -, -⟩ := map_eq_cons_iff.1 hrest
        rw [take_succ_cons, place_lineFeed_cons]
        simpa [joinRows, Position.down] using ih
    · -- the first character belongs to the first row, which is one column longer
      rw [cutAtLineFeeds_cons_of_ne hd hcut] at hrows
      match rows, hrows with
      | (a :: row) :: below, hrows =>
        rw [joinRows_cons_cons]
        cases i with
        | zero => rfl
        | succ i =>
          have hlength : (row :: below).map List.length = (cutAtLineFeeds t).map List.length := by
            rw [hcut]
            simpa using hrows
          have ih := ih h.tail hlength (by simpa using hc)
          rw [take_succ_cons, place_cons_of_ne hd hr, Position.add_def,
            getElem?_cons_succ, ih]
          generalize place (t.take i) = q
          obtain ⟨m, k⟩ := q
          cases m with
          | zero => simp [Nat.add_comm 1 k]
          | succ m => simp

/-- The character at a position is the one at its offset. -/
lemma charAt?_positionOf (h : OnlyLineFeeds t) (hc : t[i]? = some c) (hn : c ≠ '\n') :
    charAt? t (positionOf t i) = some c := by
  have hjoin := getElem?_joinRows '\n' h rfl hc hn
  rw [joinRows_cutAtLineFeeds, hc] at hjoin
  rw [charAt?, line, line?_eq h, hjoin]
  cases (cutAtLineFeeds t)[(positionOf t i).row]? <;> rfl

/-- The column of a character is one of the columns of its row. -/
lemma column_lt_lineLength (h : OnlyLineFeeds t) (hc : t[i]? = some c) (hn : c ≠ '\n') :
    (positionOf t i).column < lineLength t (positionOf t i).row :=
  (List.getElem?_eq_some_iff.1 (charAt?_positionOf h hc hn)).1

/-- Behind a character comes the next column. -/
lemma positionOf_succ (h : OnlyLineFeeds t) (hc : t[i]? = some c) (hn : c ≠ '\n') :
    positionOf t (i + 1) = (positionOf t i).right 1 := by
  have hr : c ≠ '\r' := by
    rintro rfl
    exact absurd (h '\r' (mem_of_getElem? hc) rfl) (by decide)
  rw [positionOf_eq_place h, positionOf_eq_place h, take_add_one, hc, place_append]
  show place (t.take i) + place [c] = _
  rw [place_cons_of_ne hn hr]
  rfl

/-- Characters other than line feeds take a column each. -/
lemma positionOf_add (h : OnlyLineFeeds t) (i : Nat) {n : Nat}
    (hrow : ∀ k < n, ∃ c, t[i + k]? = some c ∧ c ≠ '\n') :
    positionOf t (i + n) = (positionOf t i).right n := by
  induction n with
  | zero => rfl
  | succ n ih =>
    obtain ⟨c, hc, hn⟩ := hrow n (by omega)
    rw [← Nat.add_assoc, positionOf_succ h hc hn, ih fun k hk => hrow k (by omega)]
    rfl

/-- Behind a line feed a row starts. -/
lemma column_positionOf_succ (h : OnlyLineFeeds t) (hc : t[i]? = some '\n') :
    (positionOf t (i + 1)).column = 0 := by
  rw [positionOf_eq_place h, take_add_one, hc, place_append]
  show (place (t.take i) + place ['\n']).column = 0
  rw [place_lineFeed_cons, Position.add_def]
  rfl

/-- Before the end of a row stands a character of it. -/
lemma exists_char_of_column_lt (h : OnlyLineFeeds t) (hi : i ≤ t.length)
    (hlt : (positionOf t i).column < lineLength t (positionOf t i).row) :
    ∃ c, t[i]? = some c ∧ c ≠ '\n' := by
  obtain ⟨⟨piece, hpiece, -⟩, hoffset⟩ := holds_place h hi
  rw [← positionOf_eq_place h] at hpiece hoffset
  -- the next column is a place of the text, too
  have hnext : positionOf t (i + 1) = (positionOf t i).right 1 := by
    have hholds : Holds t ((positionOf t i).right 1) := by
      refine ⟨piece, hpiece, ?_⟩
      rw [lineLength, line, line?_eq h, hpiece] at hlt
      exact hlt
    rw [← place_take_of_holds h hholds, ← positionOf_eq_place h]
    congr 1
    show i + 1 = rowStart t (positionOf t i).row + ((positionOf t i).column + 1)
    omega
  have hcolumn : (positionOf t (i + 1)).column = (positionOf t i).column + 1 := by rw [hnext]; rfl
  cases hc : t[i]? with
  | none =>
    have hle := List.getElem?_eq_none_iff.1 hc
    rw [positionOf_eq_place h, positionOf_eq_place h, take_of_length_le hle,
      take_of_length_le (by omega)] at hcolumn
    omega
  | some c =>
    refine ⟨c, rfl, ?_⟩
    rintro rfl
    rw [column_positionOf_succ h hc] at hcolumn
    omega

lemma before?_right (t : Text) (p : Position) : t.before? (p.right 1) = some p := by
  rw [before?, if_pos (show 0 < (p.right 1).column from Nat.succ_pos _)]
  rfl

end Text

end TemplateEditing
