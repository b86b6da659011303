import TemplateEditing.Proofs.Grammar.Rules
import TemplateEditing.Proofs.Scope.Lookup
import TemplateEditing.Proofs.Text.Place
import TemplateEditing.Tag.Span

/-!
# The scopes of a text, character by character

Every step of the lexer gives pieces that spell out what it took (`spell_step`), so the pieces of a
row give each of its characters a label. Joined over all rows, they are the labels of the text
(`Text.labels`); the scopes at the position of a character are its label and the root
(`scopesAt_positionOf`).

To reason about constructs that go over several rows, `paint` gives the labels of the rest of a text
from within a row. It is taken apart one step (`paint_step`) or one line feed (`paint_lineFeed`) at
a time; a step that takes all characters of a class can be taken apart one character at a time
(`paint_run`).
-/

namespace TemplateEditing

open List

variable {s : State}

/-! ## Pieces spell out what was taken -/

/-- The text of pieces that follow each other. -/
def Piece.spell (pieces : List Piece) : Text := pieces.flatMap Piece.text

@[simp] lemma Piece.spell_nil : spell [] = [] := rfl

@[simp] lemma Piece.spell_cons (piece : Piece) (pieces : List Piece) :
    spell (piece :: pieces) = piece.text ++ spell pieces := rfl

@[simp] lemma Piece.spell_append (a b : List Piece) : spell (a ++ b) = spell a ++ spell b :=
  flatMap_append

lemma Piece.length_labels (pieces : List Piece) :
    (labels pieces).length = (spell pieces).length := by
  induction pieces with
  | nil => rfl
  | cons piece pieces ih => simp [ih]

namespace Lexer

lemma spell_balanced (opener closer : Char) (wrap : List String → List String) (depth : Nat)
    (t : Text) :
    Piece.spell (balanced opener closer wrap depth t).1 ++ (balanced opener closer wrap depth t).2
      = t := by
  fun_induction balanced opener closer wrap depth t with
  | case1 => rfl
  | case2 depth c rest _ _ quote inside behind h _ pieces left hb ih =>
    rw [hb] at ih
    rw [← closeString?_eq h, ← ih]
    simp [quote]
  | case3 depth c rest _ _ quote => simp [quote]
  | case4 depth c rest _ _ _ pieces left hb ih =>
    rw [hb] at ih
    rw [← ih]
    rfl
  | case5 depth c rest _ piece => simp [piece]
  | case6 depth c rest _ _ _ _ pieces left hb ih =>
    rw [hb] at ih
    rw [← ih]
    rfl

/-- A rule for content loses no character. -/
lemma ContentRule.spell {c : Char} {rest : Text} {next : Step}
    (h : ContentRule s c rest next) : Piece.spell next.pieces ++ next.left = c :: rest := by
  cases h with
  | comment => simp
  | closeTag => simp
  | openTag => simp
  | bracket => rfl
  | placeholder => simp [spell_balanced]
  | text => simp

lemma spell_valueStep (s : State) (tag : TagState) (c : Char) (rest : Text) :
    Piece.spell (valueStep s tag c rest).pieces ++ (valueStep s tag c rest).left = c :: rest := by
  have hrest := takeWhile_append_dropWhile (p := fun d => d == ' ' || d == '\t') (l := rest)
  unfold valueStep
  simp only
  split
  · next h =>
    rw [h] at hrest
    simpa using hrest
  · next d behind h =>
    rw [h] at hrest
    split
    · simpa [openString] using hrest
    · simpa using hrest

lemma TagRule.spell {tag : TagState} {c : Char} {rest : Text} {next : Step}
    (h : TagRule s tag c rest next) : Piece.spell next.pieces ++ next.left = c :: rest := by
  cases h with
  | blanks => simp
  | conciseText => simp
  | selfClosingEnd => rfl
  | openTagEnd => rfl
  | closeTagEnd => rfl
  | nextTag => rfl
  | value => exact spell_valueStep s tag '=' rest
  | string => rfl
  | arguments => simp [codeStep, spell_balanced]
  | placeholder => simp [codeStep, spell_balanced]
  | attributeName => simp
  | stray => rfl

/-- The pieces of a step and what it leaves make up the text. -/
theorem spell_step (s : State) (c : Char) (rest : Text) :
    Piece.spell (step s c rest).pieces ++ (step s c rest).left = c :: rest := by
  unfold step
  split
  · exact (contentRule s c rest).spell
  · exact (tagRule s _ c rest).spell
  · unfold stringStep
    split
    · next h =>
      rw [← closeString?_eq h]
      simp
    · simp
  · unfold commentStep
    split
    · next h =>
      rw [← (cutAt?_eq h).1]
      simp
    · simp
  · next kind _ =>
    unfold rawStep
    cases kind <;> simp only <;> split
    · next h => simpa using (cutAt?_eq h).1
    · simp
    · next h => simpa using (cutAt?_eq h).1
    · simp

/-- A run loses no character. -/
lemma spell_run (s : State) (t : Text) : Piece.spell (run s t).1 = t := by
  fun_induction run s t with
  | case1 => rfl
  | case2 s c rest next pieces last h ih =>
    rw [h] at ih
    rw [Piece.spell_append, ih]
    exact spell_step s c rest

/-- A rule for the start of a row loses no character. -/
lemma RowRule.spell {indent body : Text} {next : Step} (h : RowRule s indent body next) :
    Piece.spell next.pieces ++ next.left = indent ++ body := by
  cases h with
  | comment => simp
  | mark _ h => simp [h]
  | name => simp
  | content => simp

lemma spell_rowStart (s : State) (t : Text) :
    Piece.spell (rowStart s t).pieces ++ (rowStart s t).left = t :=
  (rowRule s t).spell.trans takeWhile_append_dropWhile

/-- The pieces of a row make up the row. -/
theorem spell_row (s : State) (t : Text) : Piece.spell (row s t).1 = t := by
  unfold row
  simp only [Piece.spell_append, spell_run]
  split
  · exact spell_rowStart s t
  · rfl

/-! ## The labels of the rest of a text -/

/-- The labels of a text that goes on within a row, from a state of the lexer. -/
def paint (s : State) (t : Text) : List ScopeChain :=
  match t.cutAtLineFeeds with
  | [] => []
  | first :: below =>
    let (pieces, last) := run s first
    Text.joinRows [] (Piece.labels pieces :: (rows (endRow last) below).map Piece.labels)

lemma paint_eq (s : State) {t first : Text} {below : List Text}
    (h : t.cutAtLineFeeds = first :: below) :
    paint s t = Text.joinRows []
      (Piece.labels (run s first).1 :: (rows (endRow (run s first).2) below).map Piece.labels) := by
  rw [paint, h]

@[simp] lemma paint_nil (s : State) : paint s [] = [] := by
  rw [paint_eq s (show Text.cutAtLineFeeds [] = [[]] from rfl), run]
  rfl

lemma joinRows_append (gap : ScopeChain) (a row : List ScopeChain)
    (below : List (List ScopeChain)) :
    Text.joinRows gap ((a ++ row) :: below) = a ++ Text.joinRows gap (row :: below) := by
  cases below with
  | nil => rfl
  | cons next below => exact append_assoc _ _ _

/-- One step at a time: the step sees the rest of its row only. -/
theorem paint_step (s : State) {c : Char} (hc : c ≠ '\n') {row below : Text} (hrow : '\n' ∉ row)
    (hbelow : below.EndsRow) :
    paint s (c :: (row ++ below)) = Piece.labels (step s c row).pieces ++
      paint (step s c row).state ((step s c row).left ++ below) := by
  obtain ⟨more, hmore⟩ := hbelow.cutAtLineFeeds
  -- what the step leaves is a part of the row
  have hleft : '\n' ∉ (step s c row).left := by
    intro hmem
    have : '\n' ∈ c :: row := by
      rw [← spell_step s c row]
      exact mem_append_right _ hmem
    rcases mem_cons.1 this with heq | hrest
    · exact hc heq.symm
    · exact hrow hrest
  have hcut := Text.cutAtLineFeeds_cons_of_ne hc (Text.cutAtLineFeeds_append hrow hmore)
  have hrest := Text.cutAtLineFeeds_append hleft hmore
  rw [append_nil] at hcut hrest
  rw [paint_eq s hcut, paint_eq _ hrest, run]
  simp only [Piece.labels_append]
  rw [joinRows_append]

/-- The labels from the start of a row on. -/
def paintRows (s : State) (t : Text) : List ScopeChain :=
  Text.joinRows [] ((rows s t.cutAtLineFeeds).map Piece.labels)

/-- Where no row can start with a tag without brackets, rows start like any other text. -/
lemma paintRows_eq_paint (hs : ¬ (s.mode = .content ∧ s.depth = 0)) (t : Text) :
    paintRows s t = paint s t := by
  obtain ⟨first, below, hcut⟩ := Text.exists_cutAtLineFeeds_eq_cons t
  rw [paintRows, paint_eq s hcut, hcut, rows, row]
  simp only [if_neg hs, nil_append, map_cons]

/-- A row that starts with a bracket is not a tag without brackets. -/
lemma paintRows_bracket_cons (s : State) (t : Text) :
    paintRows s ('<' :: t) = paint s ('<' :: t) := by
  by_cases hs : s.mode = .content ∧ s.depth = 0
  · obtain ⟨first, below, hcut⟩ := Text.exists_cutAtLineFeeds_eq_cons t
    have hcut := Text.cutAtLineFeeds_cons_of_ne (show '<' ≠ '\n' by decide) hcut
    have hstart : rowStart s ('<' :: first) = ⟨[⟨[], []⟩], s, '<' :: first⟩ := rfl
    rw [paintRows, paint_eq s hcut, hcut, rows, row]
    simp only [if_pos hs, hstart, map_cons, Piece.labels_append]
    rfl
  · exact paintRows_eq_paint hs _

/-- One line feed at a time. -/
theorem paint_lineFeed (s : State) (t : Text) :
    paint s ('\n' :: t) = [] :: paintRows (endRow s) t := by
  rw [paint_eq s (Text.cutAtLineFeeds_lineFeed_cons t), run, paintRows]
  obtain ⟨first, below, hcut⟩ := Text.exists_cutAtLineFeeds_eq_cons t
  rw [hcut, rows]
  rfl

/-- A step that takes all characters of a class and stays where it is might as well take them one
by one. -/
theorem paint_run {p : Char → Bool} {label : ScopeChain} (hstep : ∀ c rest, p c = true →
      step s c rest = ⟨[⟨c :: rest.takeWhile p, label⟩], s, rest.dropWhile p⟩)
    {a : Text} (ha : ∀ c ∈ a, p c = true ∧ c ≠ '\n') (t : Text) :
    paint s (a ++ t) = List.replicate a.length label ++ paint s t := by
  -- a step from a character of the class takes it and all of the class behind it
  have htake : ∀ (c : Char) (row below : Text), p c = true → c ≠ '\n' → '\n' ∉ row →
      below.EndsRow → paint s (c :: (row ++ below)) =
      label :: (List.replicate (row.takeWhile p).length label ++
        paint s (row.dropWhile p ++ below)) := by
    intro c row below hp hc hrow hbelow
    rw [paint_step s hc hrow hbelow, hstep c _ hp]
    simp only [Piece.labels_cons, Piece.labels_nil, append_nil, length_cons]
    rfl
  -- which is what a step from the next character takes, if that is one of them
  have hskip : ∀ row below : Text, '\n' ∉ row → below.EndsRow →
      List.replicate (row.takeWhile p).length label ++ paint s (row.dropWhile p ++ below) =
        paint s (row ++ below) := by
    intro row below hrow hbelow
    cases row with
    | nil => rfl
    | cons c row =>
      rw [mem_cons, not_or] at hrow
      by_cases hp : p c = true
      · rw [takeWhile_cons_of_pos hp, dropWhile_cons_of_pos hp, cons_append,
          htake c row below hp (Ne.symm hrow.1) hrow.2 hbelow]
        rfl
      · rw [takeWhile_cons_of_neg hp, dropWhile_cons_of_neg hp]
        rfl
  induction a with
  | nil => rfl
  | cons c a ih =>
    obtain ⟨hp, hc⟩ := ha c mem_cons_self
    have ih := ih fun d hd => ha d (mem_cons_of_mem c hd)
    obtain ⟨row, below, hrow, hbelow, hrest⟩ := Text.exists_row_append (a ++ t)
    rw [cons_append, hrest, htake c row below hp hc hrow hbelow, hskip row below hrow hbelow,
      ← hrest, ih]
    rfl

/-- The pieces of the rows spell them. -/
lemma map_spell_rows (s : State) (ts : List Text) : (rows s ts).map Piece.spell = ts := by
  induction ts generalizing s with
  | nil => rfl
  | cons t ts ih => rw [rows, map_cons, spell_row, ih]

/-- Rows have a label for each of their characters. -/
lemma map_length_labels_rows (s : State) (ts : List Text) :
    ((rows s ts).map Piece.labels).map List.length = ts.map List.length := by
  conv => rhs; rw [← map_spell_rows s ts]
  rw [map_map, map_map]
  exact map_congr_left fun pieces _ => Piece.length_labels pieces

end Lexer

/-! ## The scopes at a position -/

namespace Text

/-- The labels of a text, one for each character. -/
def labels (t : Text) : List ScopeChain := Lexer.paintRows {} t

lemma grammarRows_eq {t : Text} (h : OnlyLineFeeds t) : grammarRows t = cutAtLineFeeds t := by
  rw [grammarRows]
  conv => rhs; rw [← map_id (cutAtLineFeeds t)]
  apply map_congr_left
  intro piece hpiece
  rw [dropReturn, if_neg]
  · rfl
  · -- a carriage return would be a row break other than a line feed
    intro hlast
    have hmem := mem_of_mem_cutAtLineFeeds hpiece (mem_of_getLast? hlast)
    exact absurd (h '\r' hmem rfl) (by decide)

end Text

namespace Document

variable {t : Text} {i : Nat} {c : Char} {label : ScopeChain}

/-- The scopes at the position of a character are its label and the root. -/
theorem scopesAt_positionOf (h : t.OnlyLineFeeds) (hc : t[i]? = some c) (hn : c ≠ '\n')
    (hlabel : t.labels[i]? = some label) :
    (Document.ofText .marko t).scopesAt (t.positionOf i) = label ++ [Scope.marko] := by
  have hjoin := Text.getElem?_joinRows [] h (Lexer.map_length_labels_rows {} t.cutAtLineFeeds) hc hn
  rw [Text.labels, Lexer.paintRows, hjoin, getElem?_map] at hlabel
  -- the label is the one in the row and the column of the position
  obtain ⟨row, hrow, hcolumn⟩ := Option.bind_eq_some_iff.1 hlabel
  obtain ⟨pieces, hpieces, rfl⟩ := Option.map_eq_some_iff.1 hrow
  rw [← Text.grammarRows_eq h] at hpieces
  exact Grammar.scopesAt_tokenize hpieces hcolumn

/-- The token at a character comes from its label. -/
lemma tokenAt?_positionOf (h : t.OnlyLineFeeds) (hc : t[i]? = some c) (hn : c ≠ '\n')
    (hlabel : t.labels[i]? = some label) :
    (Document.ofText .marko t).tokenAt? (t.positionOf i) =
      ScopeChain.token? (label ++ [Scope.marko]) := by
  rw [tokenAt?, scopesAt_positionOf h hc hn hlabel]

end Document

end TemplateEditing
