import TemplateEditing.Tag.Matcher

/-!
# Editing sessions

A session is a document being edited by someone who watches its events. Every operation is one
transaction: the document is edited, the matcher reacts to the changes until it makes none itself,
tasks put off during that are run, and if the tags shown have changed, that is announced last.

Nothing keeps the matcher from reacting to its own changes for ever. A session has patience for so
many reactions to an edit, and an operation that takes more is told apart from one that has ended.
-/

namespace TemplateEditing

/-- Work put off until the current operation is done. -/
inductive Task where
  /-- Ask for completions; by hand or not. -/
  | requestCompletion (manual : Bool)
deriving DecidableEq, Repr, Inhabited

/-- Tasks in the order in which they are to be run. -/
structure TaskQueue where
  tasks : List Task := []
deriving DecidableEq, Repr, Inhabited

namespace TaskQueue

/-- Puts a task off. -/
def push (q : TaskQueue) (t : Task) : TaskQueue := ⟨q.tasks ++ [t]⟩

/-- The next task. -/
def pop? (q : TaskQueue) : Option (Task × TaskQueue) :=
  match q.tasks with
  | [] => none
  | t :: rest => some (t, ⟨rest⟩)

end TaskQueue

/-- What a session announces. -/
inductive Event where
  | textChanged
  /-- The caret moved without a change of the text. -/
  | cursorMoved
  | grammarChanged
  | saved (path : Path)
  | destroyed
  /-- Where the tags shown are now. -/
  | highlightChanged (ranges : List Range)
  /-- Completions are wanted; by hand or not. -/
  | completionRequested (manual : Bool)
deriving DecidableEq, Repr, Inhabited

/-- Events nobody has read yet, oldest first. -/
structure EventQueue where
  events : List Event := []
deriving DecidableEq, Repr, Inhabited

namespace EventQueue

/-- How many events are kept at most. -/
def capacity : Nat := 256

/-- Adds an event. The oldest ones are lost if there are too many. -/
def push (q : EventQueue) (e : Event) : EventQueue :=
  let events := q.events ++ [e]
  ⟨events.drop (events.length - capacity)⟩

end EventQueue

/-- A document being edited. -/
structure Session where
  document : Document
  matcher : Matcher
  tasks : TaskQueue := {}
  settings : Settings
  events : EventQueue := {}
  /-- How many times the matcher may react to an edit. -/
  patience : Nat
deriving DecidableEq, Repr, Inhabited

/-- The session an operation leaves behind and, if it was refused, why. -/
structure Outcome where
  session : Session
  error : Option BufferError := none
  /-- The operation has not ended: the matcher has changes left to react to, and no patience. -/
  unsettled : Bool := false
deriving DecidableEq, Repr

namespace Session

/-- Announces an event. -/
def announce (s : Session) (e : Event) : Session := { s with events := s.events.push e }

/-- Where the tags shown are. -/
def highlighted (s : Session) : List Range := s.matcher.ranges s.document

/-- Lets a function of the matcher change matcher and document. -/
private def withMatcher (s : Session) (f : Matcher → Document → Matcher × Document) : Session :=
  let (m, d) := f s.matcher s.document
  { s with matcher := m, document := d }

/-- Runs one task. -/
def runTask (s : Session) : Task → Session
  | .requestCompletion manual =>
    if s.settings.completion.enabled && s.settings.completion.afterRename then
      s.announce (.completionRequested manual)
    else s

/-- Runs the tasks put off. -/
def runTasks (s : Session) : Session :=
  s.tasks.tasks.foldl runTask { s with tasks := {} }

/-- Runs an operation as one transaction. -/
def transaction (s : Session) (f : Session → Outcome) : Outcome :=
  let before := s.highlighted
  let outcome := f s
  let s := outcome.session.runTasks
  let after := s.highlighted
  { outcome with session := if after = before then s else s.announce (.highlightChanged after) }

/-- Lets the matcher react to one batch of changes. -/
def react (s : Session) (changes : List Change) : Outcome :=
  let s := s.announce .textChanged
  match s.matcher.afterChanges s.document changes with
  | .error e => { session := s, error := some e }
  | .ok (renamed, m, d) =>
    let tasks := if renamed then s.tasks.push (.requestCompletion false) else s.tasks
    { session := { s with matcher := m, document := d, tasks := tasks } }

/-- Lets the matcher react to changes until it makes none itself, `rounds` times at most. -/
def settleWithin : Nat → Session → Outcome
  | 0, s => { session := s, unsettled := !s.document.buffer.pending.isEmpty }
  | rounds + 1, s =>
    let (changes, d) := s.document.takeChanges
    let s := { s with document := d }
    if changes.isEmpty then { session := s }
    else
      let outcome := s.react changes
      if outcome.error.isSome then outcome else settleWithin rounds outcome.session

/-- Lets the matcher react to changes until it makes none itself, as long as there is patience. -/
def settle (s : Session) : Outcome := settleWithin s.patience s

/-- A session with a document; the tags at its caret are shown. -/
def start (d : Document) (settings : Settings) (patience : Nat := 1000) : Session :=
  let s : Session :=
    { document := d, matcher := { settings := settings.tagMatching }, settings := settings
      patience := patience }
  s.withMatcher Matcher.refresh

/-! ## Operations -/

/-- Continues with an edited document, unless the edit was refused. -/
def andSettle (s : Session) : Except BufferError Document → Outcome
  | .error e => { session := s, error := some e }
  | .ok d => { s with document := d }.settle

/-- Types a text at every cursor. -/
def type (s : Session) (typed : Text) : Outcome :=
  s.transaction fun s =>
    let s := s.withMatcher fun m d => m.beforeTyping d typed
    s.andSettle (s.document.type typed)

/-- Replaces the text in a range. -/
def replace (s : Session) (r : Range) (inserted : Text) : Outcome :=
  s.transaction fun s => s.andSettle ((·.2) <$> s.document.replace r inserted .record)

/-- Deletes what is selected, or the character before the primary caret. -/
def backspace (s : Session) : Outcome :=
  s.transaction fun s => s.andSettle s.document.backspace

/-- Takes the last step back. -/
def undo (s : Session) : Outcome := s.transaction fun s => s.andSettle s.document.undo

/-- Makes the step undone last again. -/
def redo (s : Session) : Outcome := s.transaction fun s => s.andSettle s.document.redo

private def moveWith (s : Session) (f : Document → Document) : Session :=
  (s.transaction fun s =>
    let s := { s with document := f s.document }.announce .cursorMoved
    { session := s.withMatcher Matcher.afterMove }).session

/-- Leaves one cursor, at a position. -/
def moveCursor (s : Session) (p : Position) : Session := s.moveWith (·.setCursor p)

/-- Leaves one cursor and selects a range. -/
def select (s : Session) (r : Range) : Session := s.moveWith (·.select r)

/-- Adds a cursor. Tags are not shown while there are several. -/
def addCursor (s : Session) (p : Position) : Session :=
  (s.transaction fun s =>
    match s.document.addCursor? p with
    | none => { session := s }
    | some d => { session := { s with document := d }.withMatcher Matcher.afterMove }).session

/-- Changes the language. -/
def setGrammar (s : Session) (g : Grammar) : Session :=
  (s.transaction fun s =>
    let s := { s with document := s.document.setGrammar g }.announce .grammarChanged
    { session := s.withMatcher Matcher.refresh }).session

private def afterSave (s : Session) : FileTree × Except BufferError Document → FileTree × Outcome
  | (tree, .error e) => (tree, { session := s, error := some e })
  | (tree, .ok d) =>
    let s := { s with document := d }
    (tree,
      match d.buffer.path with
      | none => { session := s, error := some .noFilePath }
      | some p => { session := s.announce (.saved p) })

/-- Writes the text to the document's file. -/
def save (s : Session) (tree : FileTree) : FileTree × Outcome := s.afterSave (s.document.save tree)

/-- Writes the text to another file. -/
def saveAs (s : Session) (p : Path) (tree : FileTree) : FileTree × Outcome :=
  s.afterSave (s.document.saveAs p tree)

/-- The events since they were last taken. -/
def takeEvents (s : Session) : List Event × Session := (s.events.events, { s with events := {} })

/-- Ends the session: the tags shown are given up and tasks are forgotten. -/
def finish (s : Session) : Session :=
  { s.withMatcher Matcher.drop with tasks := {} }.announce .destroyed

end Session

end TemplateEditing
