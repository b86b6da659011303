import TemplateEditing.Text.Rows

/-!
# Undo history

An edit is a replacement given by offset, removed text and inserted text. The history is two
stacks of steps, each step a list of edits that are undone and redone together. A recorded edit
starts a step of its own, unless it is to be merged into the last step or continues the typing or
deleting of the last edit shortly after it.

Time is counted in milliseconds and is given by whoever records.
-/

namespace TemplateEditing

/-- The replacement of `removed` at an offset by `inserted`. -/
structure Edit where
  offset : Nat
  removed : Text
  inserted : Text
deriving DecidableEq, Repr, Inhabited

namespace Edit

/-- The edit that takes this one back. -/
def reversed (e : Edit) : Edit := ⟨e.offset, e.inserted, e.removed⟩

/-- The offset behind the removed text. -/
def removedEnd (e : Edit) : Nat := e.offset + e.removed.length

/-- No line feed is removed or inserted. -/
def isOnOneRow (e : Edit) : Bool := !e.removed.contains '\n' && !e.inserted.contains '\n'

/-- One edit with the effect of `e` and then `next`, if the second goes on with the typing or the
deleting of the first within a row. -/
def absorb? (e next : Edit) : Option Edit :=
  if e.isOnOneRow && next.isOnOneRow then
    let typing := e.removed.isEmpty && next.removed.isEmpty
    let deleting := e.inserted.isEmpty && next.inserted.isEmpty
    if typing && e.offset + e.inserted.length == next.offset then
      some { e with inserted := e.inserted ++ next.inserted }
    else if deleting && next.removedEnd == e.offset then
      some { e with removed := next.removed ++ e.removed, offset := next.offset }
    else if deleting && next.offset == e.offset then
      some { e with removed := e.removed ++ next.removed }
    else none
  else none

end Edit

/-- How an edit enters the history. -/
inductive UndoMode where
  /-- As typing does: a step of its own, or part of the typing it continues. -/
  | record
  /-- As part of the last step. -/
  | merge
deriving DecidableEq, Repr, Inhabited

/-- Edits that are undone together. -/
structure Step where
  /-- The last edit first. -/
  edits : List Edit
  /-- When an edit was last added; unknown once the step has been undone. -/
  touched : Option Nat
deriving DecidableEq, Repr, Inhabited

namespace Step

/-- How long, in milliseconds, typing continues a step. -/
def window : Nat := 300

/-- The step was added to shortly before `now`. -/
def isRecent (s : Step) (now : Nat) : Bool :=
  match s.touched with
  | some t => now - t < window
  | none => false

/-- The step with an edit absorbed by its last one, if it can be. -/
def absorb? (s : Step) (e : Edit) (now : Nat) : Option Step :=
  match s.edits with
  | [] => some { s with edits := [e] }
  | last :: earlier =>
    (last.absorb? e).map fun both => { edits := both :: earlier, touched := some now }

/-- The edits in the order in which they were made. -/
def oldestFirst (s : Step) : List Edit := s.edits.reverse

end Step

/-- What can be undone and what can be redone. -/
structure History where
  /-- Steps to undo, the last one first. -/
  undoSteps : List Step := []
  /-- Steps to redo, the next one first. -/
  redoSteps : List Step := []
  /-- How many steps are kept at most. -/
  capacity : Nat
deriving DecidableEq, Repr, Inhabited

namespace History

/-- Starts a new step and forgets the oldest one if there are too many. -/
def push (h : History) (e : Edit) (now : Nat) : History :=
  let steps := ⟨[e], some now⟩ :: h.undoSteps
  { h with undoSteps := if h.capacity < steps.length then steps.dropLast else steps }

/-- Takes an edit in. Nothing can be redone afterwards. -/
def record (h : History) (e : Edit) (mode : UndoMode) (now : Nat) : History :=
  let h := { h with redoSteps := [] }
  match h.undoSteps, mode with
  | [], _ => h.push e now
  | last :: earlier, .merge =>
    { h with undoSteps := ⟨e :: last.edits, some now⟩ :: earlier }
  | last :: earlier, .record =>
    if last.isRecent now then
      match last.absorb? e now with
      | some step => { h with undoSteps := step :: earlier }
      | none => h.push e now
    else h.push e now

/-- The edits of the last step, oldest first, which can then be redone. -/
def undo? (h : History) : Option (List Edit × History) :=
  match h.undoSteps with
  | [] => none
  | last :: earlier =>
    some (last.oldestFirst,
      { h with undoSteps := earlier, redoSteps := { last with touched := none } :: h.redoSteps })

/-- The edits of the step undone last, oldest first, which can then be undone again. -/
def redo? (h : History) : Option (List Edit × History) :=
  match h.redoSteps with
  | [] => none
  | next :: later =>
    some (next.oldestFirst,
      { h with undoSteps := next :: h.undoSteps, redoSteps := later })

end History

end TemplateEditing
