import TemplateEditing.Text.Blank

/-!
# Walking back

The walk from a position back to the start of a text, one column at a time.
-/

namespace TemplateEditing

namespace Text

/-- A step back leads to an earlier position. -/
theorem before?_lt {t : Text} {p q : Position} (h : before? t p = some q) : q < p := by
  unfold before? at h
  rw [Position.lt_def]
  split at h
  · cases h
    exact .inr ⟨rfl, by simp only; omega⟩
  · split at h
    · cases h
    · cases h
      exact .inl (by simp only; omega)

/-- The positions before a position, the nearest first. -/
def walkBack (t : Text) (p : Position) : List Position :=
  match h : before? t p with
  | none => []
  | some q =>
    have := (Position.lt_def q p).1 (before?_lt h)
    q :: walkBack t q
termination_by (p.row, p.column)
decreasing_by
  rcases this with h | ⟨h, h'⟩
  · exact .left _ _ h
  · rw [h]; exact .right _ h'

/-- What stands in a row before a position. -/
def rowBefore (t : Text) (p : Position) : Text := (line t p.row).take p.column

/-- What stands in a row from a position on. -/
def rowFrom (t : Text) (p : Position) : Text := (line t p.row).drop p.column

/-- The longest run of characters in the class `p` that ends at a position, the character there
included. -/
def runThrough (p : Char → Bool) (t : Text) (q : Position) : Text :=
  takeEndWhile p (rowBefore t (q.right 1))

end Text

end TemplateEditing
