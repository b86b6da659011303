/-!
# Positions and ranges

A position is a place in a text, given by its row and column. Positions are ordered as they are
read: by row first, then by column. A range is a pair of positions; `Range.ofEnds` puts the two
in reading order, the structure itself does not ask for it.
-/

namespace TemplateEditing

/-- A place in a text: a row and a column of that row, both counted from zero. -/
structure Position where
  row : Nat
  column : Nat
deriving DecidableEq, Repr, Inhabited

namespace Position

instance : LT Position :=
  ⟨fun a b => a.row < b.row ∨ (a.row = b.row ∧ a.column < b.column)⟩

instance : LE Position :=
  ⟨fun a b => a.row < b.row ∨ (a.row = b.row ∧ a.column ≤ b.column)⟩

instance (a b : Position) : Decidable (a < b) :=
  inferInstanceAs (Decidable (a.row < b.row ∨ (a.row = b.row ∧ a.column < b.column)))

instance (a b : Position) : Decidable (a ≤ b) :=
  inferInstanceAs (Decidable (a.row < b.row ∨ (a.row = b.row ∧ a.column ≤ b.column)))

theorem lt_def (a b : Position) :
    a < b ↔ a.row < b.row ∨ (a.row = b.row ∧ a.column < b.column) := Iff.rfl

theorem le_def (a b : Position) :
    a ≤ b ↔ a.row < b.row ∨ (a.row = b.row ∧ a.column ≤ b.column) := Iff.rfl

/-- The start of every text. -/
def origin : Position := ⟨0, 0⟩

/-- The position `n` columns further right. -/
def right (p : Position) (n : Nat) : Position := ⟨p.row, p.column + n⟩

/-- The position `n` rows further down. -/
def down (p : Position) (n : Nat) : Position := ⟨p.row + n, p.column⟩

/-- How `a` lies to `b` in reading order. -/
def compare (a b : Position) : Ordering :=
  if a < b then .lt else if a = b then .eq else .gt

/-- The later of two positions; the second if they are equal. -/
def later (a b : Position) : Position := if a ≤ b then b else a

/-- Written for people, who count rows and columns from one. -/
def render (p : Position) : String := s!"{p.row + 1}:{p.column + 1}"

theorem le_refl (a : Position) : a ≤ a := Or.inr ⟨rfl, Nat.le_refl _⟩

theorem le_total (a b : Position) : a ≤ b ∨ b ≤ a := by
  simp only [le_def]; omega

theorem not_lt {a b : Position} : ¬ a < b ↔ b ≤ a := by
  simp only [le_def, lt_def]; omega

theorem not_le {a b : Position} : ¬ a ≤ b ↔ b < a := by
  simp only [le_def, lt_def]; omega

theorem le_trans {a b c : Position} (h : a ≤ b) (k : b ≤ c) : a ≤ c := by
  simp only [le_def] at *; omega

end Position

/-- A stretch of text from `start` up to, but not including, `stop`. -/
structure Range where
  start : Position
  stop : Position
deriving DecidableEq, Repr, Inhabited

namespace Range

/-- The range between two positions, whichever comes first. -/
def ofEnds (a b : Position) : Range := if a ≤ b then ⟨a, b⟩ else ⟨b, a⟩

/-- The empty range at a position. -/
def point (p : Position) : Range := ⟨p, p⟩

/-- The range between two columns of a row. -/
def onRow (row a b : Nat) : Range := ofEnds ⟨row, a⟩ ⟨row, b⟩

/-- Nothing lies between the two ends. -/
def isEmpty (r : Range) : Bool := r.start == r.stop

/-- A caret at `p` touches the range: both ends count. -/
def touches (r : Range) (p : Position) : Bool := decide (r.start ≤ p) && decide (p ≤ r.stop)

/-- The range `other` lies inside `r`. -/
def covers (r other : Range) : Bool :=
  decide (r.start ≤ other.start) && decide (other.stop ≤ r.stop)

/-- Written for people. -/
def render (r : Range) : String := s!"[{r.start.render} - {r.stop.render}]"

theorem start_le_stop_ofEnds (a b : Position) : (ofEnds a b).start ≤ (ofEnds a b).stop := by
  unfold ofEnds
  split
  · assumption
  · exact (Position.le_total a b).resolve_left ‹_›

end Range

end TemplateEditing
