import TemplateEditing.File.Tree
import TemplateEditing.History
import TemplateEditing.Marker
import TemplateEditing.Text.Pattern

/-!
# Buffers

A buffer is a text that is being edited: with its undo history, the markers that follow its edits,
the changes nobody has looked at yet, and the file it belongs to. It also holds the time, which
only decides whether typing continues an undo step; `advance` lets it pass.

Every edit, undone and redone ones included, goes through `replaceOffsets`.
-/

namespace TemplateEditing

/-- Why an operation on a buffer is refused. -/
inductive BufferError where
  /-- The end of a range lies before its start. -/
  | invalidRange (range : Range)
  | noFilePath
  | nothingToUndo
  | nothingToRedo
  | file (cause : FileError)
deriving DecidableEq, Repr

/-- A text being edited. -/
structure Buffer where
  text : Text := []
  history : History := { capacity := 1000 }
  markers : MarkerSet := {}
  /-- Changes since they were last taken, oldest first. -/
  pending : List Change := []
  /-- There are changes that have not been saved. -/
  modified : Bool := false
  path : Option Path := none
  /-- Milliseconds passed. -/
  clock : Nat := 0
deriving DecidableEq, Repr, Inhabited

namespace Buffer

/-- A buffer with a text and no past. -/
def ofText (t : Text) : Buffer := { text := t }

/-- An empty buffer that keeps so many undo steps. -/
def withCapacity (n : Nat) : Buffer := { history := { capacity := n } }

/-- The buffer of a file. -/
def load (tree : FileTree) (p : Path) : Except FileError Buffer := do
  let content ← tree.read p
  .ok { text := content.toList, path := some p }

/-- Lets time pass. -/
def advance (b : Buffer) (milliseconds : Nat) : Buffer :=
  { b with clock := b.clock + milliseconds }

/-! ## Edits -/

/-- Replaces the characters from one offset up to another. -/
def replaceOffsets (b : Buffer) (i j : Nat) (inserted : Text) : Change × Buffer :=
  let text := b.text.splice i j inserted
  let start := b.text.positionOf i
  let change : Change :=
    { old := ⟨start, b.text.positionOf j⟩
      new := ⟨start, text.positionOf (i + inserted.length)⟩
      oldText := b.text.slice i j
      newText := inserted }
  (change,
    { b with
      text := text
      markers := b.markers.follow change
      pending := b.pending ++ [change]
      modified := true })

/-- Replaces the text in a range, clipped into the buffer. An edit that neither removes nor
inserts anything leaves no trace in the history. -/
def replace (b : Buffer) (r : Range) (inserted : Text) (mode : UndoMode) :
    Except BufferError (Change × Buffer) :=
  let i := b.text.offsetOf r.start
  let j := b.text.offsetOf r.stop
  if j < i then .error (.invalidRange r)
  else
    let (change, b) := b.replaceOffsets i j inserted
    if change.oldText.isEmpty && inserted.isEmpty then .ok (change, b)
    else
      let edit : Edit := ⟨i, change.oldText, inserted⟩
      .ok (change, { b with history := b.history.record edit mode b.clock })

/-- Inserts text at a position. -/
def insert (b : Buffer) (p : Position) (inserted : Text) : Except BufferError (Change × Buffer) :=
  b.replace (.point p) inserted .record

/-- Deletes the text in a range. -/
def delete (b : Buffer) (r : Range) : Except BufferError (Change × Buffer) :=
  b.replace r [] .record

/-- Makes an edit again that the history already knows. -/
def replay (b : Buffer) (e : Edit) : Buffer :=
  (b.replaceOffsets e.offset e.removedEnd e.inserted).2

/-- Takes the last step back. -/
def undo (b : Buffer) : Except BufferError Buffer :=
  match b.history.undo? with
  | none => .error .nothingToUndo
  | some (edits, history) =>
    .ok ((edits.reverse.map Edit.reversed).foldl replay { b with history := history })

/-- Makes the step undone last again. -/
def redo (b : Buffer) : Except BufferError Buffer :=
  match b.history.redo? with
  | none => .error .nothingToRedo
  | some (edits, history) => .ok (edits.foldl replay { b with history := history })

/-- The changes since they were last taken. -/
def takeChanges (b : Buffer) : List Change × Buffer := (b.pending, { b with pending := [] })

/-! ## Markers -/

/-- Follows a range, clipped into the buffer, its ends put in order. -/
def mark (b : Buffer) (r : Range) : MarkerId × Buffer :=
  let (id, markers) := b.markers.mark (.ofEnds (b.text.clip r.start) (b.text.clip r.stop))
  (id, { b with markers := markers })

/-- Gives a marker a style class. -/
def decorate (b : Buffer) (id : MarkerId) (style : String) : Buffer :=
  { b with markers := b.markers.decorate id style }

/-- Stops following. -/
def unmark (b : Buffer) (id : MarkerId) : Buffer := { b with markers := b.markers.erase id }

/-! ## Scans -/

/-- What a pattern takes from the text in a range, front to back. -/
def scan (b : Buffer) (pattern : Pattern) (r : Range) : List Hit :=
  pattern.scan (b.text.clip r.start) (b.text.inRange r)

/-- What a pattern takes from the text in a range, back to front. -/
def scanBack (b : Buffer) (pattern : Pattern) (r : Range) : List Hit :=
  (b.scan pattern r).reverse

/-- Shows what a pattern takes from the text in a range to a visitor, front to back. -/
def scanWith {σ : Type} (b : Buffer) (pattern : Pattern) (r : Range)
    (visitor : σ → Hit → σ × Bool) (s : σ) : σ :=
  Hit.visit visitor s (b.scan pattern r)

/-- Shows what a pattern takes from the text in a range to a visitor, back to front. -/
def scanBackWith {σ : Type} (b : Buffer) (pattern : Pattern) (r : Range)
    (visitor : σ → Hit → σ × Bool) (s : σ) : σ :=
  Hit.visit visitor s (b.scanBack pattern r)

/-! ## Files -/

/-- Writes the text to a file, by way of a temporary file beside it, which a failure may leave
behind. The buffer then belongs to that file. -/
def saveAs (b : Buffer) (p : Path) (tree : FileTree) : FileTree × Except BufferError Buffer :=
  let temporary := p.withExtension "tmp"
  match tree.write temporary (String.ofList b.text) with
  | .error e => (tree, .error (.file e))
  | .ok tree =>
    match tree.rename temporary p with
    | .error e => (tree, .error (.file e))
    | .ok tree => (tree, .ok { b with path := some p, modified := false })

/-- Writes the text to the file the buffer belongs to. -/
def save (b : Buffer) (tree : FileTree) : FileTree × Except BufferError Buffer :=
  match b.path with
  | none => (tree, .error .noFilePath)
  | some p => b.saveAs p tree

end Buffer

namespace BufferError

/-- The error in words, where this library chooses them. -/
def message? : BufferError → Option String
  | .invalidRange r => some s!"Range {r.render} is invalid"
  | .noFilePath => some "Buffer has no associated file path"
  | .nothingToUndo => some "Nothing to undo"
  | .nothingToRedo => some "Nothing to redo"
  | .file _ => none

end BufferError

end TemplateEditing
