import TemplateEditing.Tag.Live

/-!
# Pairs of tags

A pair is an open tag and its partner, or an open tag alone; one of them, the active one, is where
the caret is. When the name of the active tag is edited, `synchronize` gives the other one the same
name, as part of the same undo step.
-/

namespace TemplateEditing

/-- One of the tags of a pair. -/
inductive Side where
  | opening
  | closing
deriving DecidableEq, Repr, Inhabited

/-- An open tag and, if it has a partner, its close tag. -/
structure TagPair where
  opening : LiveTag
  closing : Option LiveTag
  active : Side
deriving DecidableEq, Repr, Inhabited

namespace TagPair

/-- A pair. Without a close tag the open tag is the active one. -/
def of (opening : LiveTag) (closing : Option LiveTag) (active : Side) : TagPair :=
  ⟨opening, closing, if closing.isNone then .opening else active⟩

/-- The tags, the open one first. -/
def tags (pair : TagPair) : List LiveTag := pair.opening :: pair.closing.toList

/-- The tag that the caret is in. -/
def activeTag (pair : TagPair) : LiveTag :=
  match pair.active with
  | .opening => pair.opening
  | .closing => pair.closing.getD pair.opening

/-- The other tag. -/
def inactiveTag? (pair : TagPair) : Option LiveTag :=
  match pair.active with
  | .opening => pair.closing
  | .closing => some pair.opening

/-- Makes the other tag the active one, if there is one. -/
def swap (pair : TagPair) : TagPair :=
  if pair.closing.isNone then pair
  else
    { pair with
      active := match pair.active with
        | .opening => .closing
        | .closing => .opening }

/-- The markers that the tags hold. -/
def markers (pair : TagPair) : List MarkerId := pair.tags.flatMap LiveTag.markers

/-- A caret at a position is in one of the tags. -/
def touches (pair : TagPair) (d : Document) (p : Position) : Bool := pair.tags.any (·.touches d p)

/-- Both tags are valid. -/
def isValid (pair : TagPair) (d : Document) : Bool := pair.tags.all (·.isValid d)

/-- Where the tags are now. -/
def ranges (pair : TagPair) (d : Document) : List Range := pair.tags.filterMap (·.range? d)

/-- Gives both tags a style class. -/
def highlight (pair : TagPair) (d : Document) (style : String) : Document :=
  pair.tags.foldl (fun d t => t.highlight d style) d

/-- Gives the markers of both tags back. -/
def release (pair : TagPair) (d : Document) : Document := pair.tags.foldl (fun d t => t.release d) d

/-- A name that may be given to the other tag: nothing, or a word without classes and id. -/
def isPlainName (name : Text) : Bool :=
  name.all fun c => c.isAlphanum || c == '@' || c == '_' || c == ':' || c == '-'

/-- The tag to rename and its new name, if the names of the two tags differ and may be made
equal. -/
def renaming? (pair : TagPair) (d : Document) : Option (LiveTag × Text) := do
  let other ← if pair.closing.isSome && d.cursors.isSingle then pair.inactiveTag? else none
  let name ← pair.activeTag.name? d
  let otherName ← other.name? d
  if name ≠ otherName && isPlainName name && pair.activeTag.isValid d && other.isValid d then
    some (other, name)
  else none

/-- Gives the other tag the name of the active one. Says whether the text was changed. -/
def synchronize (pair : TagPair) (d : Document) : Except BufferError (Bool × Document) :=
  match pair.renaming? d with
  | none => .ok (false, d)
  | some (other, name) => do
    let (_, d) ← other.rename d name .merge
    .ok (true, d)

end TagPair

end TemplateEditing
