import TemplateEditing.Position

/-!
# Rows of a text

A text is a list of characters. It is cut into rows after every row break; the rows, breaks
included, concatenate to the text, and there is always at least one. A position is turned into an
offset by clipping it into its row, and an offset into a position by counting rows.

A carriage return directly followed by a line feed is one break: the offset between the two
belongs to the row that the pair ends.
-/

namespace TemplateEditing

/-- A text is the list of its characters. -/
abbrev Text := List Char

namespace Text

/-- Characters that end a row. -/
def isRowBreak (c : Char) : Bool :=
  c == '\n' || c == '\r' || c == '\x0b' || c == '\x0c' || c == '\u0085' || c == '\u2028' ||
    c == '\u2029'

/-- The rows of a text, each with the break that ends it. -/
def rows : Text → List Text
  | [] => [[]]
  | '\r' :: '\n' :: rest => ['\r', '\n'] :: rows rest
  | c :: rest =>
    if isRowBreak c then [c] :: rows rest
    else
      match rows rest with
      | [] => [[c]]
      | row :: below => (c :: row) :: below

theorem rows_ne_nil (t : Text) : rows t ≠ [] := by
  fun_induction rows t <;> simp_all

/-- Cutting a text into rows loses nothing. -/
theorem flatten_rows (t : Text) : (rows t).flatten = t := by
  fun_induction rows t with
  | case1 => rfl
  | case2 rest ih => simpa using ih
  | case3 c rest _ _ ih => simpa using ih
  | case4 c rest _ _ h => exact absurd h (rows_ne_nil rest)
  | case5 c rest _ _ row below h ih => simp_all

/-- The characters of a row that have a column of their own: a line feed at its end is dropped,
with the carriage return before it. Other breaks stay. -/
def content : Text → Text
  | [] => []
  | ['\n'] => []
  | ['\r', '\n'] => []
  | c :: rest => c :: content rest

/-- The number of rows. -/
def rowCount (t : Text) : Nat := (rows t).length

/-- The content of a row, if there is such a row. -/
def line? (t : Text) (row : Nat) : Option Text := (rows t)[row]?.map content

/-- The content of a row, empty below the last one. -/
def line (t : Text) (row : Nat) : Text := (line? t row).getD []

/-- The number of columns of a row. -/
def lineLength (t : Text) (row : Nat) : Nat := (line t row).length

/-- The character at a position, if its row has that column. -/
def charAt? (t : Text) (p : Position) : Option Char := (line t p.row)[p.column]?

/-- The position behind the last column of the last row. -/
def endPosition (t : Text) : Position :=
  let last := rowCount t - 1
  ⟨last, lineLength t last⟩

/-- The nearest position that lies in the text: a column past the end of its row is moved back
to it, a row past the last one becomes the end of the text. -/
def clip (t : Text) (p : Position) : Position :=
  if p.row < rowCount t then ⟨p.row, min p.column (lineLength t p.row)⟩ else endPosition t

/-- The offset at which a row starts. -/
def rowStart (t : Text) (row : Nat) : Nat := ((rows t).take row).flatten.length

/-- The offset of a position, clipped into the text first. -/
def offsetOf (t : Text) (p : Position) : Nat :=
  let q := clip t p
  rowStart t q.row + q.column

/-- The position of an offset within a list of rows. -/
def locateIn : List Text → Nat → Position
  | [], _ => .origin
  | [row], i => ⟨0, min i row.length⟩
  | row :: next :: below, i =>
    if i < row.length then ⟨0, i⟩ else (locateIn (next :: below) (i - row.length)).down 1

/-- The position of an offset; offsets past the end stand for the end. -/
def positionOf (t : Text) (i : Nat) : Position := locateIn (rows t) i

/-- The characters from offset `i` up to offset `j`. -/
def slice (t : Text) (i j : Nat) : Text := (t.take j).drop i

/-- The characters covered by a range, clipped into the text; none if its ends are reversed. -/
def inRange (t : Text) (r : Range) : Text := slice t (offsetOf t r.start) (offsetOf t r.stop)

/-- The text with the characters from offset `i` up to offset `j` replaced. -/
def splice (t : Text) (i j : Nat) (inserted : Text) : Text := t.take i ++ inserted ++ t.drop j

/-- The position one column back. From the start of a row it is the last column of the row above,
or column 0 if that row is empty; the start of the text has none before it. -/
def before? (t : Text) (p : Position) : Option Position :=
  if 0 < p.column then some ⟨p.row, p.column - 1⟩
  else if p.row = 0 then none
  else some ⟨p.row - 1, lineLength t (p.row - 1) - 1⟩

end Text

end TemplateEditing
