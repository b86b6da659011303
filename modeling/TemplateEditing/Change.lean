import TemplateEditing.Text.Rows

/-!
# Changes and how positions move with them

A change records one replacement in positions: the range that was replaced, the range the new text
takes, and both texts. Everything that has to stay in place across an edit (cursors, selections,
markers) is moved position by position, so this is the only place where the arithmetic is done.
-/

namespace TemplateEditing

/-- One applied replacement. -/
structure Change where
  /-- What was replaced, in the text before. -/
  old : Range
  /-- What replaced it, in the text after. -/
  new : Range
  oldText : Text
  newText : Text
deriving DecidableEq, Repr, Inhabited

namespace Change

/-- A position at or behind the end of the replaced range moves along with the text behind it. -/
def shift (c : Change) (p : Position) : Position :=
  if p.row = c.old.stop.row then
    ⟨c.new.stop.row, c.new.stop.column + (p.column - c.old.stop.column)⟩
  else ⟨p.row - c.old.stop.row + c.new.stop.row, p.column⟩

/-- Where a caret goes: it stays before the change, moves along behind it, and lands behind the
new text if it was inside the old. -/
def moveCaret (c : Change) (p : Position) : Position :=
  if p < c.old.start then p else if c.old.stop ≤ p then c.shift p else c.new.stop

/-- Where the start of a marked range goes: text inserted right at it becomes part of the range. -/
def moveStart (c : Change) (p : Position) : Position :=
  if p ≤ c.old.start then p else if c.old.stop ≤ p then c.shift p else c.old.start

/-- Where the end of a marked range goes. -/
def moveStop (c : Change) (p : Position) : Position :=
  if p < c.old.start then p else if c.old.stop ≤ p then c.shift p else c.new.stop

/-- Where a marked range goes. -/
def moveRange (c : Change) (r : Range) : Range :=
  let start := c.moveStart r.start
  ⟨start, (c.moveStop r.stop).later start⟩

/-- The change removed text around the whole of a range, and more than just the range. -/
def engulfs (c : Change) (r : Range) : Bool := !c.old.isEmpty && c.old != r && c.old.covers r

end Change

end TemplateEditing
