import TemplateEditing.Bisect
import TemplateEditing.Change

/-!
# Cursors

A cursor is a caret, with an anchor while something is selected. A cursor list holds the cursors
of a document in reading order, one of them the primary one; it starts with a single cursor at the
start of the text.
-/

namespace TemplateEditing

/-- A caret and, while selecting, the other end of the selection. -/
structure Cursor where
  position : Position
  anchor : Option Position := none
deriving DecidableEq, Repr, Inhabited

namespace Cursor

/-- A caret without selection. -/
def caret (p : Position) : Cursor := ⟨p, none⟩

/-- Moves the caret and drops the selection. -/
def moveTo (_ : Cursor) (p : Position) : Cursor := .caret p

/-- Moves the caret and keeps the selection's other end, which is the old caret if nothing was
selected yet. -/
def selectTo (c : Cursor) (p : Position) : Cursor := ⟨p, some (c.anchor.getD c.position)⟩

/-- Drops the selection. -/
def clear (c : Cursor) : Cursor := .caret c.position

/-- What is selected, unless the anchor is at the caret. -/
def selection? (c : Cursor) : Option Range :=
  match c.anchor with
  | some a => if a = c.position then none else some (.ofEnds a c.position)
  | none => none

/-- What typing replaces: the selection, or nothing at the caret. -/
def editRange (c : Cursor) : Range := c.selection?.getD (.point c.position)

/-- Moves caret and anchor across a change. -/
def follow (c : Cursor) (change : Change) : Cursor :=
  ⟨change.moveCaret c.position, c.anchor.map change.moveCaret⟩

end Cursor

/-- The cursors of a document. -/
structure CursorList where
  cursors : List Cursor := [.caret .origin]
  /-- Index of the primary cursor. -/
  primaryIndex : Nat := 0
deriving DecidableEq, Repr, Inhabited

namespace CursorList

/-- The primary cursor. -/
def primary (cs : CursorList) : Cursor := cs.cursors[cs.primaryIndex]?.getD (.caret .origin)

/-- There is exactly one cursor. -/
def isSingle (cs : CursorList) : Bool := cs.cursors.length == 1

/-- Applies a function to every cursor. -/
def map (f : Cursor → Cursor) (cs : CursorList) : CursorList :=
  { cs with cursors := cs.cursors.map f }

/-- Applies a function to the primary cursor. -/
def mapPrimary (f : Cursor → Cursor) (cs : CursorList) : CursorList :=
  { cs with cursors := cs.cursors.modify cs.primaryIndex f }

/-- Moves every cursor across a change. -/
def follow (cs : CursorList) (change : Change) : CursorList := cs.map (·.follow change)

/-- Drops all cursors but the primary one. -/
def collapse (cs : CursorList) : CursorList := ⟨[cs.primary], 0⟩

private def insertAt (cs : CursorList) (index : Nat) (p : Position) : CursorList :=
  ⟨cs.cursors.insertIdx index (.caret p), index⟩

/-- Adds a cursor in reading order and makes it the primary one. A caret that is already there
without selecting anything is not added again. -/
def add? (cs : CursorList) (p : Position) : Option CursorList :=
  match bisect (fun c => c.position.compare p) cs.cursors with
  | .gap index => some (cs.insertAt index p)
  | .found index =>
    match cs.cursors[index]? with
    | some ⟨_, none⟩ => none
    | _ => some (cs.insertAt index p)

end CursorList

end TemplateEditing
