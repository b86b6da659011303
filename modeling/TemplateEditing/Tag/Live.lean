import TemplateEditing.Tag.Span

/-!
# Tags that follow edits

A live tag holds two markers, one on the whole tag and one on its name, and the brackets it was
found with. It stays valid as long as the markers do and the text still has these brackets. Its
markers have to be given back with `release`.
-/

namespace TemplateEditing

/-- A tag that follows edits. -/
structure LiveTag where
  kind : TagKind
  delimiters : Option (Text × Text)
  /-- Marks the whole tag. -/
  marker : MarkerId
  /-- Marks the name. -/
  nameMarker : Option MarkerId
deriving DecidableEq, Repr, Inhabited

namespace LiveTag

/-- Starts following a tag. -/
def acquire (d : Document) (s : TagSpan) : LiveTag × Document :=
  let (marker, d) := d.mark s.range
  match s.nameRange with
  | none => (⟨s.kind, s.delimiters?, marker, none⟩, d)
  | some r =>
    let (nameMarker, d) := d.mark r
    (⟨s.kind, s.delimiters?, marker, some nameMarker⟩, d)

/-- The markers held. -/
def markers (t : LiveTag) : List MarkerId := t.marker :: t.nameMarker.toList

/-- Gives the markers back. -/
def release (t : LiveTag) (d : Document) : Document := t.markers.foldl Document.unmark d

/-- Where the tag is now. -/
def range? (t : LiveTag) (d : Document) : Option Range := (d.marker? t.marker).map (·.range)

/-- Where the name is now. -/
def nameRange? (t : LiveTag) (d : Document) : Option Range :=
  t.nameMarker.bind fun id => (d.marker? id).map (·.range)

/-- The text of the name now. -/
def name? (t : LiveTag) (d : Document) : Option Text := (t.nameRange? d).map d.text.inRange

/-- A caret at a position is in the tag. -/
def touches (t : LiveTag) (d : Document) (p : Position) : Bool := (t.range? d).any (·.touches p)

/-- A caret at a position is in the name. -/
def nameTouches (t : LiveTag) (d : Document) (p : Position) : Bool :=
  (t.nameRange? d).any (·.touches p)

/-- A text has the brackets that the tag was found with, the two not overlapping. -/
def hasDelimiters (t : LiveTag) (text : Text) : Bool :=
  match t.delimiters with
  | none => !text.isEmpty
  | some (first, last) =>
    first.isPrefixOf text && last.isSuffixOf text
      && decide (first.length + last.length ≤ text.length)
      && (t.kind != .opening || !(['/', '>'].isSuffixOf text))

/-- The markers are valid and the brackets are in place. -/
def isValid (t : LiveTag) (d : Document) : Bool :=
  match d.marker? t.marker with
  | none => false
  | some m =>
    m.valid && (t.nameMarker.bind d.marker?).all (·.valid)
      && t.hasDelimiters (d.text.inRange m.range)

/-- Replaces the name. -/
def rename (t : LiveTag) (d : Document) (name : Text) (mode : UndoMode) :
    Except BufferError (Option Change × Document) :=
  match t.nameRange? d with
  | none => .ok (none, d)
  | some r => do
    let (change, d) ← d.replace r name mode
    .ok (some change, d)

/-- Gives the tag a style class. -/
def highlight (t : LiveTag) (d : Document) (style : String) : Document := d.decorate t.marker style

end LiveTag

end TemplateEditing
