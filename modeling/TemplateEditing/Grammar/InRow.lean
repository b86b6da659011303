import TemplateEditing.Grammar.Columns

/-!
# The lexer stays in its row

On every row the lexer looks at columns of the row only, and is done with it after two steps for
each character and one more at most. The spans it gives are those of the pieces that the row is cut
into, each as wide as its text (`Lexer.Tracks`), and so a text always has a scope map
(`Lexer.readRows?_eq`).
-/

namespace TemplateEditing

open List

/-! ## The spans of pieces -/

namespace Piece

/-- How many columns pieces take up. -/
def width : List Piece → Nat
  | [] => 0
  | piece :: pieces => piece.text.length + width pieces

/-- The columns of pieces that follow each other from a column on, with their scopes. -/
def spans (column : Nat) : List Piece → List ScopeSpan
  | [] => []
  | piece :: pieces =>
    ⟨column, column + piece.text.length, piece.scopes⟩ :: spans (column + piece.text.length) pieces

@[simp] theorem width_nil : width [] = 0 := rfl

@[simp] theorem width_cons (piece : Piece) (pieces : List Piece) :
    width (piece :: pieces) = piece.text.length + width pieces := rfl

@[simp] theorem width_append (a b : List Piece) : width (a ++ b) = width a + width b := by
  induction a with
  | nil => exact (Nat.zero_add _).symm
  | cons piece a ih => rw [cons_append, width_cons, width_cons, ih, Nat.add_assoc]

@[simp] theorem spans_nil (column : Nat) : spans column [] = [] := rfl

@[simp] theorem spans_cons (column : Nat) (piece : Piece) (pieces : List Piece) :
    spans column (piece :: pieces) =
      ⟨column, column + piece.text.length, piece.scopes⟩ ::
        spans (column + piece.text.length) pieces := rfl

/-- Pieces that follow start where those before them end. -/
@[simp] theorem spans_append (column : Nat) (a b : List Piece) :
    spans column (a ++ b) = spans column a ++ spans (column + width a) b := by
  induction a generalizing column with
  | nil => rfl
  | cons piece a ih => simp [ih, Nat.add_assoc]

end Piece

namespace ScopeSpan

/-- A span that adds something to a row. -/
def isSolid (span : ScopeSpan) : Bool := !(span.stop ≤ span.start || span.scopes.isEmpty)

end ScopeSpan

namespace ScopeRow

/-- Adds spans one after the other. -/
def addAll (row : ScopeRow) (spans : List ScopeSpan) : ScopeRow :=
  spans.foldl (fun row span => row.add span.start span.stop span.scopes) row

/-- The row with the scopes of pieces that follow each other. -/
def ofPieces (pieces : List Piece) : ScopeRow :=
  ({ length := Piece.width pieces } : ScopeRow).addAll (Piece.spans 0 pieces)

/-- A span with no width or no scopes is not added. -/
theorem add_of_isSolid_eq_false (row : ScopeRow) {span : ScopeSpan} (h : span.isSolid = false) :
    row.add span.start span.stop span.scopes = row := by
  rw [add, if_pos]
  simpa only [ScopeSpan.isSolid, Bool.not_eq_false'] using h

/-- Only the spans that add something matter. -/
theorem addAll_filter (row : ScopeRow) (spans : List ScopeSpan) :
    row.addAll (spans.filter ScopeSpan.isSolid) = row.addAll spans := by
  induction spans generalizing row with
  | nil => rfl
  | cons span spans ih =>
    cases h : span.isSolid with
    | true =>
      rw [filter_cons_of_pos h]
      exact ih _
    | false =>
      rw [filter_cons_of_neg (by simp [h]), ih]
      exact congrArg (addAll · spans) (row.add_of_isSolid_eq_false h).symm

end ScopeRow

namespace ScopeMap

theorem modify_concat (rows : List ScopeRow) (row : ScopeRow) (f : ScopeRow → ScopeRow) :
    (rows ++ [row]).modify rows.length f = rows ++ [f row] := by
  induction rows with
  | nil => rfl
  | cons first rows ih =>
    rw [cons_append, length_cons, modify_succ_cons, ih, cons_append]

/-- Spans added to a map go to its last row. -/
theorem foldl_addSpan (m : ScopeMap) (row : ScopeRow) (spans : List ScopeSpan) :
    spans.foldl (fun m span => m.addSpan span.start span.stop span.scopes)
        { m with rows := m.rows ++ [row] } =
      { m with rows := m.rows ++ [row.addAll spans] } := by
  induction spans generalizing row with
  | nil => rfl
  | cons span spans ih =>
    rw [foldl_cons, addSpan, length_append, length_singleton, Nat.add_sub_cancel,
      modify_concat]
    exact ih _

end ScopeMap

namespace Lexer

/-! ## What is seen in a row -/

section

variable {row t : Text} {column : Nat}

theorem restAt?_eq (h : column ≤ row.length) : restAt? row column = some (row.drop column) :=
  if_pos h

theorem getElem?_of_drop_eq (h : row.drop column = t) (n : Nat) : row[column + n]? = t[n]? := by
  rw [← h, getElem?_drop]

theorem drop_add_of_drop_eq (h : row.drop column = t) (n : Nat) :
    row.drop (column + n) = t.drop n := by
  rw [← h, drop_drop]

theorem length_of_drop_eq (h : row.drop column = t) (hle : column ≤ row.length) :
    column + t.length = row.length := by
  rw [← h, length_drop]
  omega

/-- The first character to fail a test ends the run before it. -/
theorem getD_findIdx?_not (p : Char → Bool) (t : Text) :
    (t.findIdx? fun c => !p c).getD t.length = (t.takeWhile p).length := by
  induction t with
  | nil => rfl
  | cons c t ih =>
    cases h : p c with
    | true =>
      rw [findIdx?_cons, takeWhile_cons_of_pos h]
      simp only [h, Bool.not_true, Bool.false_eq_true, if_false, length_cons, ← ih]
      cases t.findIdx? fun c => !p c <;> rfl
    | false => simp [findIdx?_cons, h]

/-- A run from a column ends where the rest stops passing the test. -/
theorem runEnd?_eq (test : Char → Bool) (h : row.drop column = t) (hle : column ≤ row.length) :
    runEnd? row column test = some (column + (t.takeWhile test).length) := by
  have hlength := length_of_drop_eq h hle
  rw [runEnd?, restAt?_eq hle, h, ← getD_findIdx?_not, Option.map_some]
  cases t.findIdx? fun c => !test c with
  | none => simp [hlength]
  | some offset => simp

/-- A word stands at a column if the rest starts with it. -/
theorem standsAt_eq (h : row.drop column = t) (word : Text) :
    standsAt row column word = word.isPrefixOf t := by
  induction word generalizing column t with
  | nil => simp [standsAt]
  | cons c word ih =>
    have hnext := ih (drop_add_of_drop_eq h 1)
    have hhere := getElem?_of_drop_eq h 0
    rw [standsAt, hnext]
    cases t with
    | nil => simp_all
    | cons d t => simp_all [List.isPrefixOf, Bool.beq_comm]

/-! At each column either the row ends or a character stands. -/

theorem not_lt_length_of_drop_eq (h : row.drop column = []) : ¬ column < row.length :=
  Nat.not_lt.2 (drop_eq_nil_iff.1 h)

theorem lt_length_of_drop_eq {c : Char} (h : row.drop column = c :: t) : column < row.length :=
  Nat.not_le.1 fun hle => cons_ne_nil c t (h ▸ drop_eq_nil_iff.2 hle)

theorem getElem_of_drop_eq {c : Char} (h : row.drop column = c :: t) (hlt : column < row.length) :
    row[column] = c := by
  rw [drop_eq_getElem_cons hlt] at h
  exact (List.cons.inj h).1

theorem drop_succ_of_drop_eq {c : Char} (h : row.drop column = c :: t) :
    row.drop (column + 1) = t := drop_add_of_drop_eq h 1

/-- A word is found at the column where the rest is cut. -/
theorem findWord?_eq (word : Text) (h : row.drop column = t) :
    findWord? row word column = (cutAt? word t).map fun cut => column + cut.1.length := by
  induction t generalizing column with
  | nil =>
    rw [findWord?, if_neg (not_lt_length_of_drop_eq h)]
    rfl
  | cons c t ih =>
    rw [findWord?, if_pos (lt_length_of_drop_eq h), standsAt_eq h, cutAt?]
    split
    · rfl
    · rw [ih (drop_succ_of_drop_eq h), Option.map_map]
      simp [Function.comp_def, Nat.add_comm, Nat.add_left_comm]

/-- Seeking goes past what fails the test. -/
theorem seek_eq (test : Char → Bool) (h : row.drop column = t) (hle : column ≤ row.length) :
    seek row test column = column + (t.takeWhile fun c => !test c).length := by
  induction t generalizing column with
  | nil =>
    rw [seek, dif_neg (not_lt_length_of_drop_eq h)]
    exact (length_of_drop_eq h hle).symm
  | cons c t ih =>
    have hlt := lt_length_of_drop_eq h
    rw [seek, dif_pos hlt, getElem_of_drop_eq h hlt, ih (drop_succ_of_drop_eq h) hlt,
      takeWhile_cons]
    cases test c
    · exact (Nat.add_assoc column 1 _).trans (congrArg (column + ·) (Nat.add_comm 1 _))
    · rfl

theorem ne_backslash {c : Char} {rest : Text} (hlast : c = '\\' → rest = [] → False)
    (hguard : ∀ d behind, c = '\\' → rest = d :: behind → False) : ¬ (c == '\\') = true := by
  rw [beq_iff_eq]
  intro hc
  cases rest with
  | nil => exact hlast hc rfl
  | cons d behind => exact hguard d behind hc rfl

/-- The closing quote is at the column where the string closes. -/
theorem closingQuote?_eq (quote : Char) (h : row.drop column = t) :
    closingQuote? row quote column =
      (closeString? quote t).map fun cut => column + cut.1.length := by
  fun_induction closeString? quote t generalizing column with
  | case1 =>
    rw [closingQuote?, dif_neg (not_lt_length_of_drop_eq h)]
    rfl
  | case2 =>
    have hlt := lt_length_of_drop_eq h
    have hbehind := not_lt_length_of_drop_eq (drop_succ_of_drop_eq h)
    rw [closingQuote?, dif_pos hlt, getElem_of_drop_eq h hlt, if_pos (beq_self_eq_true _),
      closingQuote?, dif_neg (by omega)]
    rfl
  | case3 c rest ih =>
    have hlt := lt_length_of_drop_eq h
    rw [closingQuote?, dif_pos hlt, getElem_of_drop_eq h hlt, if_pos (beq_self_eq_true _),
      ih (drop_add_of_drop_eq h 2), Option.map_map]
    simp [Function.comp_def, Nat.add_comm, Nat.add_left_comm]
  | case4 c rest hlast hguard hquote =>
    have hlt := lt_length_of_drop_eq h
    have hplain := ne_backslash hlast hguard
    rw [closingQuote?, dif_pos hlt, getElem_of_drop_eq h hlt, if_neg hplain, if_pos hquote]
    rfl
  | case5 c rest hlast hguard hquote ih =>
    have hlt := lt_length_of_drop_eq h
    have hplain := ne_backslash hlast hguard
    rw [closingQuote?, dif_pos hlt, getElem_of_drop_eq h hlt, if_neg hplain, if_neg hquote,
      ih (drop_succ_of_drop_eq h), Option.map_map]
    simp [Function.comp_def, Nat.add_comm, Nat.add_left_comm]

/-- A value ends after its length. -/
theorem valueEnd_eq (depth : Nat) (h : row.drop column = t) :
    valueEnd row column depth = column + valueLength depth t := by
  induction t generalizing column depth with
  | nil =>
    rw [valueEnd, dif_neg (not_lt_length_of_drop_eq h)]
    rfl
  | cons c rest ih =>
    have hlt := lt_length_of_drop_eq h
    have hnext (depth : Nat) : valueEnd row (column + 1) depth =
        column + (valueLength depth rest + 1) := by
      rw [ih depth (drop_succ_of_drop_eq h)]
      omega
    have hbehind : row[column + 1]? = rest.head? := by
      rw [getElem?_of_drop_eq h 1, head?_eq_getElem?]
      rfl
    rw [valueEnd, dif_pos hlt, getElem_of_drop_eq h hlt, valueLength, hbehind]
    simp only [hnext, apply_ite (column + ·), Nat.add_zero]

end

/-! ## Steps -/

/-- Spans of columns from one column up to another mark the pieces that stand there, and some text
is left behind them. -/
structure Marks (row : Text) (start : Nat) (spans : List ScopeSpan) (stop : Nat)
    (pieces : List Piece) (left : Text) : Prop where
  stop_eq : stop = start + Piece.width pieces
  stop_le : stop ≤ row.length
  left_eq : row.drop stop = left
  spans_eq : spans.filter ScopeSpan.isSolid =
    (Piece.spans start pieces).filter ScopeSpan.isSolid

namespace Marks

variable {row left : Text} {start stop : Nat} {spans : List ScopeSpan} {pieces : List Piece}

theorem nil (hle : start ≤ row.length) (h : row.drop start = left) :
    Marks row start [] start [] left := ⟨rfl, hle, h, rfl⟩

/-- Stretches of a row that follow each other are one stretch. -/
theorem append {last : Nat} {spans' : List ScopeSpan} {pieces' : List Piece} {left' : Text}
    (first : Marks row start spans stop pieces left)
    (second : Marks row stop spans' last pieces' left') :
    Marks row start (spans ++ spans') last (pieces ++ pieces') left' where
  stop_eq := by rw [second.stop_eq, first.stop_eq, Piece.width_append, Nat.add_assoc]
  stop_le := second.stop_le
  left_eq := second.left_eq
  spans_eq := by
    rw [Piece.spans_append, filter_append, filter_append, ← first.stop_eq,
      first.spans_eq, second.spans_eq]

/-- A text that is no further than the end of the row. -/
theorem le_length {text : Text} (h : row.drop start = text ++ left) (hle : start ≤ row.length) :
    start + text.length ≤ row.length := by
  have hlength := length_of_drop_eq h hle
  rw [length_append] at hlength
  omega

/-- A span over a text. -/
theorem piece (text : Text) (scopes : List String) (h : row.drop start = text ++ left)
    (hle : start ≤ row.length) :
    Marks row start [⟨start, start + text.length, scopes⟩] (start + text.length)
      [⟨text, scopes⟩] left where
  stop_eq := rfl
  stop_le := le_length h hle
  left_eq := by rw [drop_add_of_drop_eq h, drop_left]
  spans_eq := rfl

/-- A text without scopes needs no span. -/
theorem bare (text : Text) (h : row.drop start = text ++ left) (hle : start ≤ row.length) :
    Marks row start [] (start + text.length) [⟨text, []⟩] left where
  stop_eq := rfl
  stop_le := le_length h hle
  left_eq := by rw [drop_add_of_drop_eq h, drop_left]
  spans_eq := by simp [ScopeSpan.isSolid]

end Marks

/-- The columns looked at are in the row, and the step does what a step on the text ahead does. -/
def Tracks (row : Text) (column : Nat) (a : Option Advance) (next : Step) : Prop :=
  ∃ found, a = some found ∧ found.state = next.state ∧
    Marks row column found.spans found.column next.pieces next.left

section

variable {row : Text} {column : Nat}

/-- Two advances with one test track two steps with it. -/
theorem Tracks.ite {p : Prop} [Decidable p] {a b : Option Advance} {next next' : Step}
    (hpos : p → Tracks row column a next) (hneg : ¬ p → Tracks row column b next') :
    Tracks row column (if p then a else b) (if p then next else next') := by
  split
  · exact hpos ‹_›
  · exact hneg ‹_›

/-- What code inside a tag, or outside of all tags, gives its characters. -/
def codeScopes (all : Option String) (inner : List String) : List String :=
  (all.map fun all => inner ++ [Scope.sourceScript, all]).getD []

variable {c : Char} {rest : Text}

section

variable (all : Option String) (h : row.drop column = c :: rest)

include h

theorem Marks.code :
    Marks row column
      ((all.map fun all =>
        [(⟨column, column + 1, [Scope.sourceScript, all]⟩ : ScopeSpan)]).getD [])
      (column + 1) [⟨[c], codeScopes all []⟩] rest := by
  have hle := Nat.le_of_lt (lt_length_of_drop_eq h)
  cases all with
  | none => exact .bare [c] h hle
  | some all => exact .piece [c] _ h hle

/-- A string in code, with the quote that closes it. -/
theorem Marks.closedString {inside behind : Text}
    (hclose : closeString? c rest = some (inside, behind)) :
    Marks row column
      ((all.map (stringSpans row c · column (closeColumn row c (column + 1)))).getD [])
      (min (closeColumn row c (column + 1) + 1) row.length)
      [⟨[c], codeScopes all [Scope.stringBegin, stringScope c]⟩,
        ⟨inside, codeScopes all [stringScope c]⟩,
        ⟨[c], codeScopes all [Scope.stringEnd, stringScope c]⟩] behind := by
  have hlt := lt_length_of_drop_eq h
  have hle := Nat.le_of_lt hlt
  have hinside : row.drop (column + 1) = inside ++ c :: behind := by
    rw [drop_succ_of_drop_eq h, closeString?_eq hclose]
  have hend : closeColumn row c (column + 1) = column + 1 + inside.length := by
    rw [closeColumn, closingQuote?_eq c (drop_succ_of_drop_eq h), hclose]
    rfl
  have hquoted := drop_add_of_drop_eq hinside inside.length
  rw [drop_left] at hquoted
  have hbehind := lt_length_of_drop_eq hquoted
  rw [hend, Nat.min_eq_left hbehind]
  cases all with
  | none =>
    exact (Marks.bare [c] h hle).append
      ((Marks.bare _ hinside hlt).append (.bare [c] hquoted (Nat.le_of_lt hbehind)))
  | some all =>
    rw [Option.map_some, Option.getD_some, stringSpans, if_pos hbehind]
    exact (Marks.piece [c] _ h hle).append
      ((Marks.piece _ _ hinside hlt).append (.piece [c] _ hquoted (Nat.le_of_lt hbehind)))

/-- A string in code that takes the rest of its row. -/
theorem Marks.unclosedString (hclose : closeString? c rest = none) :
    Marks row column
      ((all.map (stringSpans row c · column (closeColumn row c (column + 1)))).getD [])
      (min (closeColumn row c (column + 1) + 1) row.length)
      [⟨[c], codeScopes all [Scope.stringBegin, stringScope c]⟩,
        ⟨rest, codeScopes all [stringScope c]⟩] [] := by
  have hlt := lt_length_of_drop_eq h
  have hle := Nat.le_of_lt hlt
  have hinside := drop_succ_of_drop_eq h
  have hend : closeColumn row c (column + 1) = row.length := by
    rw [closeColumn, closingQuote?_eq c hinside, hclose]
    rfl
  have hlength := length_of_drop_eq hinside hlt
  rw [← append_nil rest] at hinside
  rw [hend, Nat.min_eq_right (Nat.le_succ _), ← hlength]
  cases all with
  | none => exact (Marks.bare [c] h hle).append (.bare _ hinside hlt)
  | some all =>
    rw [Option.map_some, Option.getD_some, stringSpans, if_neg (by omega)]
    exact (Marks.piece [c] _ h hle).append (.piece _ _ hinside hlt)

end

/-- Code read by columns is the code read from the rest. -/
theorem codeAt_marks (opener closer : Char) (all : Option String) (depth : Nat) (t : Text) :
    ∀ column, row.drop column = t → column ≤ row.length →
      Marks row column (codeAt opener closer all row column depth).1
        (codeAt opener closer all row column depth).2
        (balanced opener closer (codeScopes all) depth t).1
        (balanced opener closer (codeScopes all) depth t).2 := by
  fun_induction balanced opener closer (codeScopes all) depth t with
  | case1 =>
    intro column h hle
    rw [codeAt, dif_neg (not_lt_length_of_drop_eq h)]
    exact .nil hle h
  | case2 depth c rest hquote scope quote inside behind hclose _ pieces left hb ih =>
    intro column h hle
    have hlt := lt_length_of_drop_eq h
    have hstring := Marks.closedString all h hclose
    have hrest := ih _ hstring.left_eq hstring.stop_le
    rw [hb] at hrest
    rw [codeAt, dif_pos hlt, getElem_of_drop_eq h hlt, if_pos hquote]
    exact hstring.append hrest
  | case3 depth c rest hquote scope quote hclose =>
    intro column h hle
    have hlt := lt_length_of_drop_eq h
    have hstring := Marks.unclosedString all h hclose
    have hdone := not_lt_length_of_drop_eq hstring.left_eq
    rw [codeAt, dif_pos hlt, getElem_of_drop_eq h hlt, if_pos hquote]
    dsimp only
    rw [codeAt, dif_neg hdone]
    exact hstring.append (.nil hstring.stop_le hstring.left_eq)
  | case4 depth c rest hquote piece hopen pieces left hb ih =>
    intro column h hle
    have hlt := lt_length_of_drop_eq h
    have hrest := ih _ (drop_succ_of_drop_eq h) hlt
    rw [hb] at hrest
    rw [codeAt, dif_pos hlt, getElem_of_drop_eq h hlt, if_neg hquote, if_pos hopen]
    exact (Marks.code all h).append hrest
  | case5 depth c rest hquote piece hopen hclose =>
    intro column h hle
    have hlt := lt_length_of_drop_eq h
    rw [Bool.and_eq_true, decide_eq_true_iff] at hclose
    rw [codeAt, dif_pos hlt, getElem_of_drop_eq h hlt, if_neg hquote, if_neg hopen,
      if_pos hclose.1, if_pos (by omega)]
    exact Marks.code all h
  | case6 depth c rest hquote piece hopen hclose pieces left hb ih =>
    intro column h hle
    have hlt := lt_length_of_drop_eq h
    have hrest := ih _ (drop_succ_of_drop_eq h) hlt
    rw [hb] at hrest
    rw [Bool.and_eq_true, decide_eq_true_iff, not_and] at hclose
    rw [codeAt, dif_pos hlt, getElem_of_drop_eq h hlt, if_neg hquote, if_neg hopen]
    split at hrest
    · next hcloser =>
      rw [if_pos hcloser, if_neg (by have := hclose hcloser; omega)]
      exact (Marks.code all h).append hrest
    · next hcloser =>
      rw [if_neg hcloser]
      exact (Marks.code all h).append hrest

theorem isPrefixOf_pair (a b c : Char) (rest : Text) :
    [a, b].isPrefixOf (c :: rest) = (c == a && rest.head? == some b) := by
  cases rest <;> simp [List.isPrefixOf, Bool.beq_comm]

theorem getElem?_zero_of_drop_eq (h : row.drop column = c :: rest) : row[column]? = some c :=
  getElem?_of_drop_eq h 0

theorem getElem?_succ_of_drop_eq (h : row.drop column = c :: rest) :
    row[column + 1]? = rest.head? := by
  rw [getElem?_of_drop_eq h 1, head?_eq_getElem?]
  rfl

/-- A run of characters that pass a test, and what is behind it. -/
theorem Marks.run (test : Char → Bool) (scopes : List String) (h : row.drop column = rest)
    (hle : column ≤ row.length) :
    Marks row column [⟨column, column + (rest.takeWhile test).length, scopes⟩]
      (column + (rest.takeWhile test).length) [⟨rest.takeWhile test, scopes⟩]
      (rest.dropWhile test) := by
  rw [← takeWhile_append_dropWhile (p := test) (l := rest)] at h
  exact .piece _ _ h hle

theorem runAt_tracks {test : Char → Bool} (s : State) (scopes : List String)
    (h : row.drop column = c :: rest) (hc : test c = true) :
    Tracks row column
      ((runEnd? row column test).bind fun stop => some ⟨[⟨column, stop, scopes⟩], s, stop⟩)
      ⟨[⟨c :: rest.takeWhile test, scopes⟩], s, rest.dropWhile test⟩ := by
  have hle := Nat.le_of_lt (lt_length_of_drop_eq h)
  have hrun := Marks.run test scopes h hle
  rw [takeWhile_cons_of_pos hc, dropWhile_cons_of_pos hc] at hrun
  rw [runEnd?_eq _ h hle, takeWhile_cons_of_pos hc]
  exact ⟨_, rfl, rfl, hrun⟩

theorem partAt?_run (test : Char → Bool) (h : row.drop column = rest)
    (hle : column ≤ row.length) :
    partAt? row column (column + (rest.takeWhile test).length) = some (rest.takeWhile test) := by
  have hstop := (Marks.run test [] h hle).stop_le
  have hprefix := prefix_iff_eq_take.1 (List.takeWhile_prefix (l := rest) test)
  rw [partAt?, if_pos ⟨Nat.le_add_right _ _, hstop⟩, drop_take, h, Nat.add_sub_cancel_left,
    ← hprefix]

/-- Content by columns is the step in content. -/
theorem contentAt?_tracks (s : State) (h : row.drop column = c :: rest) :
    Tracks row column (contentAt? s row column) (contentStep s c rest) := by
  have hlt := lt_length_of_drop_eq h
  have hle := Nat.le_of_lt hlt
  have hnext := drop_succ_of_drop_eq h
  have hhere := getElem?_zero_of_drop_eq h
  have hone := getElem?_succ_of_drop_eq h
  have htwo : row[column + 2]? = rest.tail.head? := by
    rw [getElem?_of_drop_eq h 2, head?_eq_getElem?, getElem?_tail]
    rfl
  unfold contentAt? contentStep
  simp only [standsAt_eq h, isPrefixOf_pair, hhere, hone, htwo]
  refine .ite (fun hcomment => ?_) fun _ => .ite (fun hclose => ?_) fun _ => ?_
  · obtain ⟨behind, hbehind⟩ := List.isPrefixOf_iff_prefix.1 hcomment
    obtain ⟨rfl, rfl⟩ := List.cons.inj hbehind
    exact ⟨_, rfl, rfl, .piece ['<', '!', '-', '-'] _ h hle⟩
  · simp only [Bool.and_eq_true, beq_iff_eq] at hclose
    obtain ⟨⟨rfl, hslash⟩, -⟩ := hclose
    obtain ⟨behind, rfl⟩ := head?_eq_some_iff.1 hslash
    have hbehind := drop_succ_of_drop_eq hnext
    have hlt' := lt_length_of_drop_eq hnext
    rw [runEnd?_eq isTagChar hbehind hlt']
    exact ⟨_, rfl, rfl, (Marks.piece ['<', '/'] _ h hle).append (.run isTagChar _ hbehind hlt')⟩
  cases hbracket : c == '<' with
  | true =>
    simp only [Bool.true_and, Option.bind_eq_bind, Option.bind_some, hbracket, if_true]
    refine .ite (fun _ => ?_) fun _ => ⟨_, rfl, rfl, .bare [c] h hle⟩
    have hname := Marks.run isTagChar [Scope.tagName, Scope.metaTagOpen] hnext hlt
    rw [runEnd?_eq isTagChar hnext hlt]
    simp only [Option.bind_some, partAt?_run isTagChar hnext hlt]
    exact ⟨_, rfl, rfl, (Marks.piece [c] _ h hle).append hname⟩
  | false =>
    simp only [Bool.false_and, Option.bind_eq_bind, Option.bind_some, hbracket,
      Bool.false_eq_true, if_false]
    refine .ite (fun hcode => ?_) fun _ => ?_
    · exact ⟨_, rfl, rfl, (Marks.bare [c] h hle).append
        (codeAt_marks '\x7b' '\x7d' none 0 rest _ hnext hlt)⟩
    · refine ⟨_, rfl, rfl, ?_⟩
      rw [seek_eq _ hnext hlt, Nat.add_assoc, Nat.add_comm 1]
      refine .bare (c :: rest.takeWhile _) ?_ hle
      rw [h, cons_append, takeWhile_append_dropWhile]

/-- An opening quote by columns is the step into a string. -/
theorem openStringAt?_tracks (s : State) (tag : TagState) (h : row.drop column = c :: rest)
    {start : Nat} {spans : List ScopeSpan} {pieces : List Piece} {t : Text}
    (hbefore : Marks row start spans column pieces t) :
    Tracks row start (openStringAt? s tag spans row column) (openString s tag pieces c rest) := by
  have hhere := getElem?_zero_of_drop_eq h
  rw [openStringAt?, hhere]
  exact ⟨_, rfl, rfl, hbefore.append (.piece [c] _ h hbefore.stop_le)⟩

theorem valueLength_le (depth : Nat) (t : Text) : valueLength depth t ≤ t.length := by
  fun_induction valueLength depth t with
  | case1 => exact Nat.le_refl 0
  | case2 => simp only [length_cons]; omega
  | case3 => simp only [length_cons]; omega
  | case4 => exact Nat.zero_le _
  | case5 => exact Nat.zero_le _
  | case6 => simp only [length_cons]; omega

/-- An attribute value by columns is the step over a value. -/
theorem valueAt?_tracks (s : State) (tag : TagState) (h : row.drop column = c :: rest) :
    Tracks row column (valueAt? s tag row column) (valueStep s tag c rest) := by
  have hlt := lt_length_of_drop_eq h
  have hnext := drop_succ_of_drop_eq h
  have hgap := Marks.run (fun d => d == ' ' || d == '\t') [tag.scope] hnext hlt
  have hbefore := (Marks.piece [c] [Scope.keyValue, tag.scope] h (Nat.le_of_lt hlt)).append hgap
  unfold valueAt? valueStep
  rw [runEnd?_eq _ hnext hlt]
  simp only [Option.bind_eq_bind, Option.bind_some]
  have hleft := hgap.left_eq
  cases hd : rest.dropWhile fun d => d == ' ' || d == '\t' with
  | nil =>
    rw [getElem?_eq_none (drop_eq_nil_iff.1 (hleft.trans hd))]
    rw [hd] at hbefore
    exact ⟨_, rfl, rfl, hbefore⟩
  | cons d behind =>
    rw [hd] at hleft
    rw [getElem?_zero_of_drop_eq hleft]
    refine .ite (fun _ => openStringAt?_tracks s tag hleft hbefore) fun _ => ?_
    refine ⟨_, rfl, rfl, hbefore.append ?_⟩
    have hvalue := Marks.piece ((d :: behind).take (valueLength 0 (d :: behind)))
      [Scope.sourceScript, tag.scope] (hleft.trans (take_append_drop _ _).symm) hgap.stop_le
    rw [length_take, Nat.min_eq_left (valueLength_le 0 _)] at hvalue
    rw [valueEnd_eq 0 hleft]
    exact hvalue

/-- All of the row from a column on. -/
theorem Marks.toEnd {t : Text} (scopes : List String) (h : row.drop column = t)
    (hle : column ≤ row.length) :
    Marks row column [⟨column, row.length, scopes⟩] row.length [⟨t, scopes⟩] [] := by
  have hlength := length_of_drop_eq h hle
  rw [← append_nil t] at h
  rw [← hlength]
  exact .piece t scopes h hle

/-- Inside a tag, the advance by columns is the step of a tag. -/
theorem tagAt?_tracks (s : State) (tag : TagState) (h : row.drop column = c :: rest) :
    Tracks row column (tagAt? s tag row column) (tagStep s tag c rest) := by
  have hlt := lt_length_of_drop_eq h
  have hle := Nat.le_of_lt hlt
  have hnext := drop_succ_of_drop_eq h
  have hhere := getElem?_zero_of_drop_eq h
  unfold tagAt? tagStep
  simp only [standsAt_eq h, isPrefixOf_pair, hhere, Option.bind_eq_bind, Option.bind_some,
    Bool.and_assoc]
  refine .ite (fun hblank => ?_) fun _ => ?_
  · exact runAt_tracks s _ h hblank
  refine .ite (fun _ => ?_) fun _ => ?_
  · have hlength := length_of_drop_eq h hle
    rw [← hlength]
    rw [← append_nil (c :: rest)] at h
    exact ⟨_, rfl, rfl, .bare (c :: rest) h hle⟩
  refine .ite (fun hend => ?_) fun _ => ?_
  · simp only [Bool.and_eq_true, beq_iff_eq] at hend
    obtain ⟨-, -, rfl, hbracket⟩ := hend
    obtain ⟨behind, rfl⟩ := head?_eq_some_iff.1 hbracket
    exact ⟨_, rfl, rfl, .piece ['/', '>'] _ h hle⟩
  refine .ite (fun _ => ⟨_, rfl, rfl, .piece [c] _ h hle⟩) fun _ => ?_
  refine .ite (fun _ => ⟨_, rfl, rfl, .nil hle h⟩) fun _ => ?_
  refine .ite (fun _ => valueAt?_tracks s tag h) fun _ => ?_
  refine .ite (fun _ => openStringAt?_tracks s tag h (.nil hle h)) fun _ => ?_
  refine .ite (fun hparen => ?_) fun _ => ?_
  · obtain rfl : c = '(' := beq_iff_eq.1 hparen
    have hcode := codeAt_marks '(' ')' (some tag.scope) 0 _ column h hle
    rw [balanced, if_neg (by decide), if_pos (beq_self_eq_true _)] at hcode
    exact ⟨_, rfl, rfl, hcode⟩
  refine .ite (fun _ => ?_) fun _ => ?_
  · exact ⟨_, rfl, rfl, (Marks.piece [c] _ h hle).append
      (codeAt_marks '\x7b' '\x7d' (some tag.scope) 0 rest _ hnext hlt)⟩
  refine .ite (fun hname => ?_) fun _ => ⟨_, rfl, rfl, .piece [c] _ h hle⟩
  exact runAt_tracks s _ h hname

/-- Inside a string, the advance is the step of a string. -/
theorem stringAt_tracks (s : State) (quote : Char) (tag : TagState) {t : Text}
    (h : row.drop column = t) (hle : column ≤ row.length) :
    Tracks row column (some (stringAt s quote tag row column)) (stringStep s quote tag t) := by
  unfold stringAt stringStep
  rw [closingQuote?_eq quote h]
  cases hclose : closeString? quote t with
  | none => exact ⟨_, rfl, rfl, .toEnd _ h hle⟩
  | some cut =>
    obtain ⟨inside, behind⟩ := cut
    rw [← closeString?_eq hclose] at h
    have hinside := Marks.piece inside [stringScope quote, tag.scope] h hle
    exact ⟨_, rfl, rfl, hinside.append (.piece [quote] _ hinside.left_eq hinside.stop_le)⟩

/-- Inside a comment, the advance is the step of a comment. -/
theorem commentAt_tracks (s : State) {t : Text} (h : row.drop column = t)
    (hle : column ≤ row.length) :
    Tracks row column (some (commentAt s row column)) (commentStep s t) := by
  unfold commentAt commentStep
  rw [findWord?_eq _ h]
  cases hcut : cutAt? "-->".toList t with
  | none => exact ⟨_, rfl, rfl, .toEnd _ h hle⟩
  | some cut =>
    obtain ⟨before, found⟩ := cut
    obtain ⟨rfl, hword⟩ := cutAt?_eq hcut
    obtain ⟨behind, rfl⟩ := List.isPrefixOf_iff_prefix.1 hword
    rw [← append_assoc] at h
    have hcomment := Marks.piece (before ++ "-->".toList) [Scope.commentBlock] h hle
    rw [length_append, ← Nat.add_assoc] at hcomment
    exact ⟨_, rfl, rfl, hcomment⟩

/-- Inside raw text, the advance is the step of raw text. -/
theorem rawAt_tracks (s : State) (kind : RawKind) {t : Text} (h : row.drop column = t)
    (hle : column ≤ row.length) :
    Tracks row column (some (rawAt s kind row column)) (rawStep s kind t) := by
  have leave {word : Text} {cut : Text × Text} (scope : String) (hcut : cutAt? word t = some cut) :
      Marks row column [⟨column, column + cut.1.length, [scope]⟩] (column + cut.1.length)
        [⟨cut.1, [scope]⟩] cut.2 :=
    .piece cut.1 [scope] (h.trans (cutAt?_eq hcut).1.symm) hle
  unfold rawAt rawStep
  cases kind with
  | script =>
    simp only [findWord?_eq _ h]
    cases hcut : cutAt? "</script".toList t with
    | none => exact ⟨_, rfl, rfl, .toEnd _ h hle⟩
    | some cut => exact ⟨_, rfl, rfl, leave _ hcut⟩
  | style =>
    simp only [findWord?_eq _ h]
    cases hcut : cutAt? "</style".toList t with
    | none => exact ⟨_, rfl, rfl, .toEnd _ h hle⟩
    | some cut => exact ⟨_, rfl, rfl, leave _ hcut⟩

/-- In every state, an advance is the step from there. -/
theorem advance?_tracks (s : State) (h : row.drop column = c :: rest) :
    Tracks row column (advance? s row column) (step s c rest) := by
  have hle := Nat.le_of_lt (lt_length_of_drop_eq h)
  unfold advance? step
  cases s.mode with
  | content => exact contentAt?_tracks s h
  | tag tag => exact tagAt?_tracks s tag h
  | string quote tag => exact stringAt_tracks s quote tag h hle
  | comment => exact commentAt_tracks s h hle
  | raw kind => exact rawAt_tracks s kind h hle

/-! ## Rows -/

/-- A concise tag name by columns is the one of the rest. -/
theorem conciseNameAt?_tracks (s : State) {t : Text} (h : row.drop column = t)
    (hle : column ≤ row.length) :
    Tracks row column (conciseNameAt? s row column)
      ⟨[⟨t.takeWhile isTagChar, [Scope.tagNameConcise, Scope.metaTagConcise]⟩],
        enter s (.tag ⟨.opening, true, .void⟩), t.dropWhile isTagChar⟩ := by
  rw [conciseNameAt?, runEnd?_eq _ h hle]
  exact ⟨_, rfl, rfl, .run isTagChar _ h hle⟩

/-- The start of a row in content is read alike. -/
theorem rowStartAt?_tracks (s : State) (row : Text) :
    Tracks row 0 (rowStartAt? s row) (rowStart s row) := by
  have hindent : Marks row 0 [] (0 + (row.takeWhile Text.isBlank).length)
      [⟨row.takeWhile Text.isBlank, []⟩] (row.dropWhile Text.isBlank) :=
    .bare _ takeWhile_append_dropWhile.symm (Nat.zero_le _)
  have hle := hindent.stop_le
  have hleft := hindent.left_eq
  have hrest : restAt? row (0 + (row.takeWhile Text.isBlank).length) =
      some (row.dropWhile Text.isBlank) := by
    rw [restAt?_eq hle, hleft]
  unfold rowStartAt? rowStart
  rw [runEnd?_eq _ rfl (Nat.zero_le _)]
  simp only [Option.bind_eq_bind, Option.bind_some, drop_zero, hrest]
  generalize row.dropWhile Text.isBlank = body at hindent hleft
  split
  · exact ⟨_, rfl, rfl, hindent.append (.toEnd _ hleft hle)⟩
  · exact ⟨_, rfl, rfl, hindent.append (.bare ['-', '-'] hleft hle)⟩
  · exact ⟨_, rfl, rfl, hindent.append (.bare ['|'] hleft hle)⟩
  · have hend := Nat.le_antisymm hle (drop_eq_nil_iff.1 hleft)
    rw [← hend]
    exact ⟨_, rfl, rfl, hindent⟩
  · next first second hslashes hdashes hbar =>
    obtain ⟨named, hsome, hstate, hname⟩ := conciseNameAt?_tracks s hleft hle
    have hconcise : Tracks row 0 _
        ⟨[⟨row.takeWhile Text.isBlank, []⟩,
            ⟨(first :: second).takeWhile isTagChar, [Scope.tagNameConcise, Scope.metaTagConcise]⟩],
          enter s (.tag ⟨.opening, true, .void⟩), (first :: second).dropWhile isTagChar⟩ :=
      ⟨named, hsome, hstate, hindent.append hname⟩
    split
    · next heq => exact absurd heq (by simpa using hslashes _)
    · next heq => exact absurd heq (by simpa using hdashes _)
    · next heq => exact absurd heq (by simpa using fun h _ => hbar h)
    · next heq => exact absurd heq (cons_ne_nil _ _)
    · next heq =>
      obtain ⟨rfl, rfl⟩ := List.cons.inj heq
      exact .ite (fun _ => hconcise) fun _ => .ite (fun _ => hconcise) fun _ =>
        ⟨_, rfl, rfl, hindent⟩

/-- The start of every row is read alike. -/
theorem startAt?_tracks (s : State) (row : Text) :
    Tracks row 0 (startAt? s row)
      (if s.mode = .content ∧ s.depth = 0 then rowStart s row else ⟨[], s, row⟩) :=
  .ite (fun _ => rowStartAt?_tracks s row) fun _ => ⟨_, rfl, rfl, .nil (Nat.zero_le _) rfl⟩

theorem walk?_of_drop_eq_nil (steps : Nat) (s : State) (h : row.drop column = []) :
    walk? row steps s column = some ([], s) := by
  have hend := not_lt_length_of_drop_eq h
  cases steps with
  | zero => rw [walk?, if_neg hend]
  | succ steps => rw [walk?, if_neg hend]

/-- The steps needed are no more than the effort, which each of them makes smaller. -/
theorem exists_walk?_eq (s : State) (t : Text) :
    ∀ column, row.drop column = t → column ≤ row.length →
      ∃ spans, Marks row column spans row.length (run s t).1 [] ∧
        ∀ steps ≥ effort s t, walk? row steps s column = some (spans, (run s t).2) := by
  fun_induction run s t with
  | case1 s =>
    intro column h hle
    have hend := Nat.le_antisymm hle (drop_eq_nil_iff.1 h)
    refine ⟨[], ?_, fun steps _ => walk?_of_drop_eq_nil steps s h⟩
    rw [← hend]
    exact .nil hle h
  | case2 s c rest next pieces last hrun ih =>
    intro column h hle
    obtain ⟨found, hfound, hstate, hmarks⟩ := advance?_tracks s h
    obtain ⟨spans, hspans, hwalk⟩ := ih found.column hmarks.left_eq hmarks.stop_le
    rw [hrun] at hspans hwalk
    refine ⟨found.spans ++ spans, hmarks.append hspans, ?_⟩
    intro steps hsteps
    have hless : effort next.state next.left < effort s (c :: rest) := effort_step s c rest
    obtain ⟨steps, rfl⟩ : ∃ left, steps = left + 1 := ⟨steps - 1, by omega⟩
    rw [walk?, if_pos (lt_length_of_drop_eq h), hfound, Option.bind_eq_bind, Option.bind_some,
      hstate, hwalk steps (by omega)]
    rfl

/-- The lexer is done with a row after two steps for each of its characters and one more. -/
theorem exists_readRow?_eq (s : State) (row : Text) :
    ∃ spans, Marks row 0 spans row.length (Lexer.row s row).1 [] ∧
      ∀ steps ≥ 2 * row.length + 1, readRow? steps s row = some (spans, (Lexer.row s row).2) := by
  obtain ⟨first, hsome, hstate, hmarks⟩ := startAt?_tracks s row
  rw [Lexer.row]
  generalize (if s.mode = .content ∧ s.depth = 0 then rowStart s row else ⟨[], s, row⟩) = start
    at hstate hmarks
  obtain ⟨spans, hspans, hwalk⟩ :=
    exists_walk?_eq start.state start.left first.column hmarks.left_eq hmarks.stop_le
  refine ⟨first.spans ++ spans, hmarks.append hspans, ?_⟩
  intro steps hsteps
  have heffort : effort start.state start.left ≤ steps := by
    have hlength := length_of_drop_eq hmarks.left_eq hmarks.stop_le
    unfold effort
    split <;> omega
  rw [readRow?, hsome, Option.bind_eq_bind, Option.bind_some, hstate, hwalk steps heffort]
  rfl

/-- Reading rows by columns adds the row of each one's pieces. -/
theorem readRows?_eq (m : ScopeMap) (s : State) (rows : List Text) :
    readRows? m s rows =
      some { m with rows := m.rows ++ (Lexer.rows s rows).map ScopeRow.ofPieces } := by
  induction rows generalizing m s with
  | nil => rw [readRows?, Lexer.rows, map_nil, append_nil]
  | cons row below ih =>
    obtain ⟨spans, hmarks, hread⟩ := exists_readRow?_eq s row
    have hwidth : Piece.width (Lexer.row s row).1 = row.length := by
      have hstop := hmarks.stop_eq
      omega
    have hrow : ({ length := row.length } : ScopeRow).addAll spans =
        .ofPieces (Lexer.row s row).1 := by
      rw [ScopeRow.ofPieces, hwidth, ← ScopeRow.addAll_filter, hmarks.spans_eq,
        ScopeRow.addAll_filter]
    rw [readRows?, hread _ (Nat.le_refl _)]
    simp only [Option.bind_eq_bind, Option.bind_some]
    rw [ScopeMap.addRow, ScopeMap.foldl_addSpan, hrow, ih, Lexer.rows, map_cons]
    simp only [append_assoc, singleton_append]

/-- Reading rows by columns always ends with a map. -/
theorem isSome_readRows? (m : ScopeMap) (s : State) (rows : List Text) :
    (readRows? m s rows).isSome = true := by
  rw [readRows?_eq]
  rfl

end

end Lexer

end TemplateEditing
