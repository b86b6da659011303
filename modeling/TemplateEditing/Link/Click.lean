import TemplateEditing.Document
import TemplateEditing.Scope.Class
import TemplateEditing.Text.Pattern
import TemplateEditing.Text.Walk
import TemplateEditing.Text.WordChar

/-!
# What a click is on

A click is on a word: a quoted text, or a name, to which an open parenthesis behind it belongs. The
scopes at the start of the word say what it is: the name of a tag, the name of an attribute, a
literal, or, in plain text, a use of the component's `state` or the template's `data`.
-/

namespace TemplateEditing

/-- What a click is on. -/
inductive ClickTarget where
  /-- A tag's name; with an argument if a parenthesis follows. -/
  | tag (name : Text) (hasArgument : Bool)
  | attributeName (tagName name : Text) (hasArgument : Bool)
  /-- A quoted text, without the quotes, and the attribute it belongs to with whether a parenthesis
  follows that. -/
  | literal (value : Text) (owner : Option (Text × Bool))
  /-- A use of the component's state. -/
  | state
  /-- A use of the template's data. -/
  | data
deriving DecidableEq, Repr, Inhabited

/-- A word that was clicked, and what it is. -/
structure Click where
  range : Range
  target : ClickTarget
deriving DecidableEq, Repr, Inhabited

namespace Click

/-! ## Words -/

/-- A character of a clickable name. -/
def isNameChar (c : Char) : Bool := c.isAlphanum || c == '.' || c == '-' || c == ':'

/-- A text between two quotes of one kind. -/
def quoted : Pattern := fun t =>
  match t with
  | q :: rest =>
    if (q == '\'' || q == '"') && rest.contains q then (rest.takeWhile (· != q)).length + 2 else 0
  | [] => 0

/-- A name, and the parenthesis behind it if there is one. -/
def called : Pattern := fun t =>
  let name := t.takeWhile isNameChar
  let rest : Text := t.dropWhile isNameChar
  if name.isEmpty then 0
  else if rest.trimStart.head? == some '(' then
    name.length + (rest.takeWhile Text.isBlank).length + 1
  else name.length

/-- A clickable word. -/
def word : Pattern := quoted.orElse called

/-- The words of a row that continues at a column, with the columns they start at. -/
def wordsFrom (column : Nat) (row : Text) : List (Nat × Text) :=
  match row with
  | [] => []
  | c :: rest =>
    let taken := (c :: rest).take (word (c :: rest))
    if taken.isEmpty then wordsFrom (column + 1) rest
    else (column, taken) :: wordsFrom (column + taken.length) (rest.drop (taken.length - 1))
termination_by row.length

/-- A word without the parenthesis at its end, and whether it had one. -/
def cutArgument (w : Text) : Text × Bool :=
  if w.getLast? == some '(' then (Text.dropEndWhile Text.isBlank w.dropLast, true) else (w, false)

/-- A word without the quotes around it. -/
def unquote (w : Text) : Text :=
  match w with
  | q :: rest@(_ :: _) =>
    if q == '"' || q == '\'' then
      if rest.getLast? == some q then rest.dropLast else rest
    else w
  | _ => w

/-- A text begins with a name, and the name ends there. -/
def beginsWithWord (name t : Text) : Bool :=
  name.isPrefixOf t && !((t.drop name.length).head?).any Text.isWordChar

end Click

/-- What can be clicked. -/
inductive ClickRegion where
  | plain
  | tag
  | string
  | attributeName
deriving DecidableEq, Repr, Inhabited

/-- What can be clicked at a place with these scopes. Of a tag only its name counts. -/
def ScopeChain.clickRegion? (chain : ScopeChain) : Option ClickRegion :=
  if chain == [Scope.marko] then some .plain
  else
    chain.findSome? fun scope =>
      match Scope.region? scope with
      | some (.tag _) => if Scope.namesTag scope then some .tag else none
      | some .string => some .string
      | some .attributeName => some .attributeName
      | some .attributeSeparator | none => none

namespace Document

/-- The clickable word at a position, and its range. -/
def wordAt? (d : Document) (p : Position) : Option (Text × Range) :=
  (Click.wordsFrom 0 (d.text.line p.row)).findSome? fun (start, w) =>
    if start ≤ p.column ∧ p.column < start + w.length then
      some (w, ⟨⟨p.row, start⟩, ⟨p.row, start + w.length⟩⟩)
    else none

/-- What can be clicked at a position. -/
def clickRegion? (d : Document) (p : Position) : Option ClickRegion := (d.scopesAt p).clickRegion?

/-- A character in the name of the tag that an attribute belongs to. -/
def isOwnerTagChar (c : Char) : Bool := Click.isNameChar c || c == '_'

/-- A character in the name of the attribute that a string belongs to, or of its tag. -/
def isOwnerChar (c : Char) : Bool := Click.isNameChar c || c == '_' || c == '#'

/-- The name of the tag that an attribute at a position belongs to. -/
def tagNameFrom? (d : Document) (p : Position) : Option Text :=
  (p :: d.text.walkBack p).findSome? fun q =>
    let name := d.text.runThrough (fun c => Click.isNameChar c || c == '#') q
    if (d.text.charAt? q).any isOwnerTagChar && d.clickRegion? q == some .tag && !name.isEmpty then
      some name
    else none

/-- The attribute whose name a walk back comes to before the name of a tag, and whether a
parenthesis follows it. -/
def attributeOn? (d : Document) : List Position → Option (Text × Bool)
  | [] => none
  | q :: rest =>
    if (d.text.charAt? q).any isOwnerChar then
      match d.clickRegion? q with
      | some .attributeName =>
        let name := d.text.runThrough Click.isNameChar q
        if name.isEmpty then none
        else some (name, (d.text.rowFrom (q.right 1)).trimStart.head? == some '(')
      | some .tag => none
      | _ => d.attributeOn? rest
    else d.attributeOn? rest

/-- What a word in a range is. -/
def clickOn? (d : Document) (w : Text) (r : Range) : Option Click :=
  let (name, hasArgument) := Click.cutArgument w
  let target : Option ClickTarget :=
    match d.clickRegion? r.start with
    | none => none
    | some .tag => some (.tag name hasArgument)
    | some .attributeName =>
      (d.tagNameFrom? r.start).map fun tag => .attributeName tag name hasArgument
    | some .string =>
      some (.literal (Click.unquote name) (d.attributeOn? (r.start :: d.text.walkBack r.start)))
    | some .plain =>
      if Click.beginsWithWord "state".toList name then some .state
      else if Click.beginsWithWord "data".toList name then some .data
      else none
  target.map fun t => ⟨r, t⟩

/-- What a click at a position is on. -/
def click? (d : Document) (p : Position) : Option Click := do
  let (w, r) ← d.wordAt? p
  d.clickOn? w r

end Document

end TemplateEditing
