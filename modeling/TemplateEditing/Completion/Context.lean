import TemplateEditing.Document
import TemplateEditing.Scope.Class
import TemplateEditing.Text.Walk

/-!
# What is being completed

The completion context of a position says what a person typing there would have completed: the name
of an open or close tag, the name or the value of an attribute, or nothing.

From the position the document is walked back to the nearest tag name, past at most one attribute
name. If the row up to the position ends with the name found, that name is what is being typed.
Otherwise the scopes at the position tell whether a close tag, an attribute or a tag is about to
begin. Tags and attributes may be half typed.
-/

namespace TemplateEditing

/-- What can be completed. -/
inductive CompletionKind where
  /-- The name of an open tag. -/
  | tagStart
  /-- The name of a close tag. -/
  | tagEnd
  | attributeName
  /-- The value of an attribute, between quotes. -/
  | attributeValue
deriving DecidableEq, Repr, Inhabited

/-- What is being completed at a position. -/
structure CompletionContext where
  kind : Option CompletionKind := none
  /-- The tag that the position belongs to. -/
  tagName : Option Text := none
  attributeName : Option Text := none
  /-- The part of a word that has been typed. -/
  typed : Text := []
  /-- The tag is written without brackets. -/
  concise : Bool := false
  /-- The tag's name came with a class or an id. -/
  hasShorthand : Bool := false
  /-- The close tag, or the rest of it, is to be completed too; unknown if `none`. -/
  wantsClosing : Option Bool := none
  /-- The value of the attribute is to be completed too; unknown if `none`. -/
  wantsValue : Option Bool := none
deriving DecidableEq, Repr, Inhabited

namespace CompletionContext

/-- The completion depends on the tags that are known. -/
def needsTaglib (c : CompletionContext) : Bool :=
  match c.kind with
  | some .tagStart => !c.hasShorthand
  | some .attributeName | some .attributeValue => true
  | some .tagEnd | none => false

/-! ## Character classes -/

/-- A character of the word being typed. -/
def isTypedChar (c : Char) : Bool :=
  c.isAlphanum || c == '@' || c == '_' || c == '-' || c == '.' || c == '#'

/-- A character of a tag's name, with its classes and its id. -/
def isTagChar (c : Char) : Bool :=
  c.isAlphanum || c == '@' || c == '.' || c == '-' || c == ':' || c == '#'

/-- A character of an attribute's name. -/
def isAttributeChar (c : Char) : Bool := c.isAlphanum || c == '.' || c == '-' || c == ':'

/-- A character of a value that is being typed. -/
def isValueChar (c : Char) : Bool :=
  c.isAlphanum || c == '_' || c == '-' || c == '.' || c == '#'

/-- A character of a tag's name in front of its classes and its id. -/
def isBaseChar (c : Char) : Bool := c.isAlphanum || c == '_' || c == '-'

/-- A character of a tag's classes and its id. -/
def isShorthandChar (c : Char) : Bool :=
  c.isAlphanum || c == '_' || c == '#' || c == '.' || c == ':' || c == '-'

/-- A character at which a name is looked for on the walk back. -/
def isNameChar (c : Char) : Bool := c == '@' || isShorthandChar c

/-! ## Ends of rows -/

/-- A row ends with `</` and the part of a name: that part. -/
def closeTagAtEnd? (row : Text) : Option Text :=
  if ['<', '/'].isSuffixOf (row.dropEndWhile isTagChar) then some (row.takeEndWhile isTagChar)
  else none

/-- A row ends with the name of an attribute, or with such a name and the part of a quoted value:
the name, and whether there is a value. -/
def attributeAtEnd? (row : Text) : Option (Text × Bool) :=
  let name := row.takeEndWhile isAttributeChar
  let plain := if name.isEmpty then none else some (name, false)
  match (row.dropEndWhile isValueChar).reverse with
  | quote :: '=' :: before =>
    let name := (before.takeWhile isAttributeChar).reverse
    if (quote == '"' || quote == '\'') && !name.isEmpty then some (name, true) else plain
  | _ => plain

/-- The name in front of the first class or id that a tag's name has. -/
def shorthandBase? (name : Text) : Option Text :=
  match name with
  | [] => none
  | c :: rest =>
    match name.dropWhile isBaseChar with
    | mark :: next :: _ =>
      if isBaseChar c && (mark == '#' || mark == '.') && isShorthandChar next then
        some (name.takeWhile isBaseChar)
      else shorthandBase? rest
    | _ => shorthandBase? rest

end CompletionContext

/-- The tag around a position, and the attribute passed on the way back to its name. -/
structure EnclosingNames where
  tagName : Text
  attributeName : Option Text
  concise : Bool
deriving DecidableEq, Repr, Inhabited

/-- What a scope says about names. -/
inductive NamedThing where
  | tag (concise : Bool)
  | attribute
deriving DecidableEq, Repr, Inhabited

namespace ScopeChain

/-- The innermost name that the scopes stand for; attributes only if asked for. -/
def named? (chain : ScopeChain) (attributes : Bool) : Option NamedThing :=
  chain.findSome? fun scope =>
    match Scope.region? scope with
    | some (.tag concise) => if Scope.namesTag scope then some (.tag concise) else none
    | some .attributeName => if attributes then some .attribute else none
    | _ => none

/-- The innermost scope is that of a tag, but none of its parts. -/
def isTagInterior (chain : ScopeChain) : Bool :=
  chain.head?.any fun scope =>
    !Scope.namesTag scope && match Scope.region? scope with
      | some (.tag _) => true
      | _ => false

/-- The bracket behind an open tag. -/
def isOpenTagEnd (chain : ScopeChain) : Bool :=
  chain.any fun scope =>
    (Scope.token? scope).any fun t => t.kind == .openTagEnd || t.kind == .selfClosingEnd

/-- A tag's name, an attribute's name, a quoted value or an expression. -/
def isTagContent (chain : ScopeChain) : Bool :=
  chain.any fun scope =>
    Scope.endsWith scope ".js" || Scope.namesTag scope ||
      match Scope.region? scope with
      | some .attributeName | some .string => true
      | _ => false

end ScopeChain

namespace Document

open CompletionContext

/-- The names found on a walk back, given the name of the attribute passed before. -/
def namesOn (d : Document) (passed : Option Text) : List Position → Option EnclosingNames
  | [] => none
  | q :: rest =>
    if (d.text.charAt? q).any isNameChar then
      match (d.scopesAt q).named? passed.isNone with
      | none => d.namesOn passed rest
      | some (.tag concise) =>
        let name := d.text.runThrough isTagChar q
        if name.isEmpty then none else some ⟨name, passed, concise⟩
      | some .attribute =>
        let name := d.text.runThrough isAttributeChar q
        if name.isEmpty then none else d.namesOn (some name) rest
    else d.namesOn passed rest

/-- The names around a position. -/
def enclosingNames? (d : Document) (p : Position) : Option EnclosingNames :=
  d.namesOn none (d.text.walkBack p)

/-- On a walk back, blanks and then a part of a tag are met, up to the start of the row. -/
def meetsTagContent (d : Document) (blanks : Bool) : List Position → Bool
  | [] => false
  | q :: rest =>
    let further (blanks : Bool) : Bool :=
      if q.column = 0 then false else d.meetsTagContent blanks rest
    let other : Bool :=
      let chain := d.scopesAt q
      if 1 < chain.length then blanks && chain.isTagContent else further blanks
    match d.text.charAt? q with
    | none => other
    | some c =>
      if c == '/' || c == '<' then false
      else if Text.isBlank c then further true
      else other

/-- Blanks separate a position from a part of a tag before it. -/
def followsTagContent (d : Document) (p : Position) : Bool :=
  d.meetsTagContent false (d.text.walkBack p)

private def isInTag (d : Document) (p : Position) : Bool :=
  match (d.scopesAt p).region? with
  | some (.tag _) => true
  | _ => false

/-- The context as far as the names around the position and the row up to it tell. -/
def contextFromRow (d : Document) (p : Position) (c : CompletionContext) : CompletionContext :=
  let row := d.text.rowBefore p
  let next := (d.text.rowFrom p).trimStart.head?
  match c.attributeName with
  | some expected =>
    match attributeAtEnd? row with
    | some (name, hasValue) =>
      if name ≠ expected then c
      else if hasValue then { c with kind := some .attributeValue }
      else { c with kind := some .attributeName, wantsValue := some (next != some '=') }
    | none => c
  | none =>
    let name := row.takeEndWhile isTagChar
    if name.isEmpty || some name ≠ c.tagName then c
    else if (closeTagAtEnd? row).isSome then
      { c with kind := some .tagEnd, wantsClosing := some (next != some '>') }
    else if !c.concise && d.isInTag p then
      { c with kind := some .tagStart, wantsClosing := some true }
    else { c with kind := some .tagStart }

/-- The context with the tag's name cut before its classes and its id. -/
def contextWithoutShorthand (c : CompletionContext) : CompletionContext :=
  match c.tagName.bind shorthandBase? with
  | some base => { c with tagName := some base, hasShorthand := true }
  | none => c

/-- The context as the scopes at the position tell. Only in plain text, between the parts of a tag
and at the end of an open tag something new can begin. -/
def contextFromScopes (d : Document) (p : Position) (c : CompletionContext) : CompletionContext :=
  let chain := d.scopesAt p
  let row := d.text.rowBefore p
  let wantsClosing := some ((d.text.rowFrom p).trimStart.head? != some '>')
  let closing := { c with kind := some .tagEnd, wantsClosing := wantsClosing }
  if chain != [Scope.marko] && !chain.isTagInterior && !chain.isOpenTagEnd then c
  else if (closeTagAtEnd? row.trim).isSome && row.getLast? != some ' ' then closing
  else if (closeTagAtEnd? row.trim).isNone && d.followsTagContent p then
    { c with kind := some .attributeName, attributeName := none }
  else
    match (if c.concise then none else c.tagName), closeTagAtEnd? row with
    | some tag, some part =>
      if part.isPrefixOf tag then { closing with hasShorthand := false } else c
    | _, _ =>
      if row.getLast? == some '<' then
        { c with kind := some .tagStart, wantsClosing := some true }
      else c

/-- What is being completed at a position. -/
def completionContext (d : Document) (p : Position) : CompletionContext :=
  let c : CompletionContext :=
    match d.enclosingNames? p with
    | none => {}
    | some names =>
      { tagName := some names.tagName, attributeName := names.attributeName,
        concise := names.concise }
  let c := contextWithoutShorthand (d.contextFromRow p c)
  let c := if c.kind.isNone then d.contextFromScopes p c else c
  { c with typed := (d.text.rowBefore p).takeEndWhile isTypedChar }

end Document

end TemplateEditing
