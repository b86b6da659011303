import TemplateEditing.Change

/-!
# Markers

A marker is a range that follows the edits of a buffer. Markers are known by numbers, which are
never used twice. A marker whose text was removed together with text around it stays, but is no
longer valid.
-/

namespace TemplateEditing

/-- The number of a marker. -/
abbrev MarkerId := Nat

/-- A range that follows edits. -/
structure Marker where
  range : Range
  valid : Bool := true
  /-- The style class the range is shown with. -/
  decoration : Option String := none
deriving DecidableEq, Repr, Inhabited

namespace Marker

/-- The marker after a change. -/
def follow (m : Marker) (c : Change) : Marker :=
  { m with range := c.moveRange m.range, valid := m.valid && !c.engulfs m.range }

end Marker

/-- The markers of a buffer, by increasing number. -/
structure MarkerSet where
  entries : List (MarkerId × Marker) := []
  /-- The number of the next marker. -/
  next : MarkerId := 0
deriving DecidableEq, Repr, Inhabited

namespace MarkerSet

/-- The numbers of the live markers. -/
def ids (ms : MarkerSet) : List MarkerId := ms.entries.map (·.1)

/-- The number of live markers. -/
def size (ms : MarkerSet) : Nat := ms.entries.length

/-- The marker of a number. -/
def get? (ms : MarkerSet) (id : MarkerId) : Option Marker := ms.entries.lookup id

/-- Starts following a range. -/
def mark (ms : MarkerSet) (r : Range) : MarkerId × MarkerSet :=
  (ms.next, ⟨ms.entries ++ [(ms.next, { range := r })], ms.next + 1⟩)

/-- Applies a function to the marker of a number, if it is live. -/
def modify (ms : MarkerSet) (id : MarkerId) (f : Marker → Marker) : MarkerSet :=
  { ms with entries := ms.entries.map fun e => if e.1 = id then (e.1, f e.2) else e }

/-- Gives a marker a style class. -/
def decorate (ms : MarkerSet) (id : MarkerId) (style : String) : MarkerSet :=
  ms.modify id fun m => { m with decoration := some style }

/-- Stops following. -/
def erase (ms : MarkerSet) (id : MarkerId) : MarkerSet :=
  { ms with entries := ms.entries.filter fun e => e.1 != id }

/-- All markers after a change. -/
def follow (ms : MarkerSet) (c : Change) : MarkerSet :=
  { ms with entries := ms.entries.map fun e => (e.1, e.2.follow c) }

/-- How a marker's number is written. -/
def label (id : MarkerId) : String := s!"marker#{id}"

end MarkerSet

end TemplateEditing
