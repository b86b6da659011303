import TemplateEditing.Buffer
import TemplateEditing.Cursor
import TemplateEditing.Grammar
import TemplateEditing.Scope.Class

/-!
# Documents

A document is a buffer with cursors and the scopes that its grammar gives the text. The scopes are
computed anew after every edit; cursors move along with all of them.
-/

namespace TemplateEditing

/-- A text being edited, with cursors and scopes. -/
structure Document where
  buffer : Buffer
  cursors : CursorList := {}
  /-- The name shown to people. -/
  name : String := "untitled"
  grammar : Grammar
  /-- The scopes of the current text. -/
  scopes : ScopeMap
deriving DecidableEq, Repr, Inhabited

namespace Document

/-- A document that belongs to no file. -/
def ofText (g : Grammar) (t : Text) : Document :=
  { buffer := .ofText t, grammar := g, scopes := g.tokenize t }

private def nameOf (p : Path) : String := p.fileName?.getD "unknown"

/-- The document of a file, in the language that its extension tells. -/
def load (tree : FileTree) (p : Path) : Except FileError Document := do
  let buffer ← Buffer.load tree p
  let grammar := Grammar.ofPath p
  .ok
    { buffer := buffer, name := nameOf p, grammar := grammar
      scopes := grammar.tokenize buffer.text }

/-- The text. -/
def text (d : Document) : Text := d.buffer.text

/-- The position of the primary caret. -/
def caret (d : Document) : Position := d.cursors.primary.position

/-- The scopes at a position. -/
def scopesAt (d : Document) (p : Position) : ScopeChain := d.scopes.scopesAt p

/-- Computes the scopes of the current text. -/
def rescope (d : Document) : Document := { d with scopes := d.grammar.tokenize d.text }

/-- Changes the language. -/
def setGrammar (d : Document) (g : Grammar) : Document := { d with grammar := g }.rescope

/-! ## Cursors -/

/-- Leaves the primary cursor alone, at a position. -/
def setCursor (d : Document) (p : Position) : Document :=
  { d with cursors := d.cursors.collapse.mapPrimary (·.moveTo (d.text.clip p)) }

/-- Adds a cursor, unless there is one. -/
def addCursor? (d : Document) (p : Position) : Option Document :=
  (d.cursors.add? (d.text.clip p)).map fun cursors => { d with cursors := cursors }

/-- Leaves the primary cursor alone and lets it select a range. -/
def select (d : Document) (r : Range) : Document :=
  let d := d.setCursor r.start
  { d with cursors := d.cursors.mapPrimary (·.selectTo (d.text.clip r.stop)) }

/-! ## Edits -/

/-- Replaces the text in a range, and moves the cursors along, but leaves the scopes as they are. -/
def edit (d : Document) (r : Range) (inserted : Text) (mode : UndoMode) :
    Except BufferError (Change × Document) := do
  let (change, buffer) ← d.buffer.replace r inserted mode
  .ok (change, { d with buffer := buffer, cursors := d.cursors.follow change })

/-- The same, without telling what changed. -/
def splice? (d : Document) (r : Range) (inserted : Text) (mode : UndoMode) :
    Except BufferError Document :=
  (·.2) <$> d.edit r inserted mode

/-- Replaces the text in a range. -/
def replace (d : Document) (r : Range) (inserted : Text) (mode : UndoMode) :
    Except BufferError (Change × Document) := do
  let (change, d) ← d.edit r inserted mode
  .ok (change, d.rescope)

/-- What typing replaces, the last range first, so that the ranges still to come stay in place. -/
def typingTargets (d : Document) : List Range :=
  (d.cursors.cursors.map Cursor.editRange).mergeSort fun a b => decide (b.start ≤ a.start)

/-- Types a text at every cursor, in the stead of what is selected. -/
def type (d : Document) (inserted : Text) : Except BufferError Document := do
  let d ← d.typingTargets.foldlM (fun d r => d.splice? r inserted .record) d
  .ok { d with cursors := d.cursors.map Cursor.clear }.rescope

/-- The start of the character before a position; a row break counts as one. -/
def beforeCaret? (d : Document) (p : Position) : Option Position :=
  if 0 < p.column then some ⟨p.row, p.column - 1⟩
  else if p.row = 0 then none
  else some ⟨p.row - 1, d.text.lineLength (p.row - 1)⟩

/-- What a deletion backwards removes: what the primary cursor selects, or the character before
it. -/
def backspaceTarget? (d : Document) : Option Range :=
  let cursor := d.cursors.primary
  match cursor.selection? with
  | some r => some r
  | none => (d.beforeCaret? cursor.position).map fun start => .ofEnds start cursor.position

/-- Deletes backwards. -/
def backspace (d : Document) : Except BufferError Document :=
  match d.backspaceTarget? with
  | none => .ok d
  | some r => do
    let d ← d.splice? r [] .record
    .ok { d with cursors := d.cursors.mapPrimary Cursor.clear }.rescope

/-- Takes on a buffer that has gone a step back or forth in history, but leaves the scopes as they
are. The cursors move along with the changes, and the primary one is left behind the last of
them. -/
def stepped (d : Document) (buffer : Buffer) : Document :=
  let changes := buffer.pending.drop d.buffer.pending.length
  let d := { d with buffer := buffer, cursors := changes.foldl CursorList.follow d.cursors }
  match changes.getLast? with
  | some last => d.setCursor last.new.stop
  | none => d

/-- Takes the last step back. -/
def undo (d : Document) : Except BufferError Document := do
  .ok (d.stepped (← d.buffer.undo)).rescope

/-- Makes the step undone last again. -/
def redo (d : Document) : Except BufferError Document := do
  .ok (d.stepped (← d.buffer.redo)).rescope

/-- The changes since they were last taken. -/
def takeChanges (d : Document) : List Change × Document :=
  let (changes, buffer) := d.buffer.takeChanges
  (changes, { d with buffer := buffer })

/-! ## Markers and files -/

/-- The marker of a number. -/
def marker? (d : Document) (id : MarkerId) : Option Marker := d.buffer.markers.get? id

/-- Follows a range. -/
def mark (d : Document) (r : Range) : MarkerId × Document :=
  let (id, buffer) := d.buffer.mark r
  (id, { d with buffer := buffer })

/-- Gives a marker a style class. -/
def decorate (d : Document) (id : MarkerId) (style : String) : Document :=
  { d with buffer := d.buffer.decorate id style }

/-- Stops following. -/
def unmark (d : Document) (id : MarkerId) : Document := { d with buffer := d.buffer.unmark id }

/-- Writes the text to a file, which the document then belongs to. -/
def saveAs (d : Document) (p : Path) (tree : FileTree) : FileTree × Except BufferError Document :=
  let (tree, saved) := d.buffer.saveAs p tree
  (tree, saved.map fun buffer => { d with buffer := buffer, name := nameOf p })

/-- Writes the text to the file the document belongs to. -/
def save (d : Document) (tree : FileTree) : FileTree × Except BufferError Document :=
  let (tree, saved) := d.buffer.save tree
  (tree, saved.map fun buffer => { d with buffer := buffer })

end Document

end TemplateEditing
