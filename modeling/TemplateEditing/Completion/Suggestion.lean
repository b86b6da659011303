import TemplateEditing.Completion.Context
import TemplateEditing.Completion.Score
import TemplateEditing.Completion.Snippet
import TemplateEditing.Package
import TemplateEditing.Taglib.Basic

/-!
# Suggestions

What is offered to complete a context, the best first. If something has been typed, each candidate
is scored against it, and those with a score of zero or less are left out. Attributes that a tag
declares itself come before those of all tags; apart from that higher scores come first, or, where
there are none, the order of the sort texts decides, and last the order in which candidates were
found.
-/

namespace TemplateEditing

/-- What a suggestion completes. -/
inductive SuggestionKind where
  | tag
  | attributeName
  | value
deriving DecidableEq, Repr, Inhabited

/-- Something to complete a context with. -/
structure Suggestion (R : Type) where
  kind : SuggestionKind
  text : Option String := none
  /-- What is inserted instead of the text, with places to fill in. -/
  snippet : Option String := none
  displayText : Option String := none
  description : Option String := none
  /-- The kind of value of an attribute. -/
  leftLabel : Option String := none
  /-- Where the definition comes from. -/
  rightLabel : Option String := none
  sortText : String := ""
  priority : Nat := 0
  score : R
  /-- The part of the text before the caret that is replaced. -/
  replaced : String := ""
  /-- Completions are asked for again when this one has been inserted. -/
  continues : Bool := false
  /-- The number of suggestions found before. -/
  index : Nat := 0
deriving Repr, Inhabited

namespace Suggestion

variable {R : Type} [ScoreNumber R]

/-- The text that is inserted. -/
def inserted (s : Suggestion R) : String := (s.snippet.or s.text).getD ""

/-- A suggestion of a text. -/
def ofText (kind : SuggestionKind) (text : String) : Suggestion R :=
  { kind := kind, text := some text, score := ScoreNumber.ofNat 0 }

/-- A suggestion with the parts that an entry has in the stead of its own. -/
def withEntry (s : Suggestion R) (e : CompletionEntry) : Suggestion R :=
  { s with
    text := e.text.or s.text
    snippet := e.snippet.or s.snippet
    displayText := e.displayText.or s.displayText
    description := e.description.or s.description }

/-- The text that decides the order: the one given, or else what is shown or inserted. -/
def keyText (s : Suggestion R) : String :=
  if s.sortText = "" then (s.displayText.or (s.snippet.or s.text)).getD "" else s.sortText

/-- The suggestion has a score other than zero, or one that is no number. -/
def hasScore (s : Suggestion R) : Bool :=
  let zero : R := ScoreNumber.ofNat 0
  !(ScoreNumber.atMost s.score zero && ScoreNumber.atMost zero s.score)

/-- The order in which suggestions are shown. -/
def compare (a b : Suggestion R) : Ordering :=
  let byKey :=
    if a.hasScore || b.hasScore then
      if ScoreNumber.less b.score a.score then .lt
      else if ScoreNumber.less a.score b.score then .gt
      else .eq
    else compareOfLessAndEq a.sortText b.sortText
  (Ord.compare b.priority a.priority).then (byKey.then (Ord.compare a.index b.index))

/-- The first suggestion is not shown behind the second one. -/
def precedes (a b : Suggestion R) : Bool := a.compare b != .gt

/-- The suggestions that fit what was typed, with their scores. -/
def rated (scorer : Scorer R) (typed : Text) (found : List (Suggestion R)) : List (Suggestion R) :=
  found.filterMap fun s =>
    let key := s.keyText
    let s := { s with sortText := key, replaced := String.ofList typed }
    if typed.isEmpty then some s
    else
      let score := scorer key.toList typed
      if ScoreNumber.atMost score (ScoreNumber.ofNat 0) then none
      else some { s with score := score }

/-- The suggestions in the order in which they are shown. -/
def ranked (found : List (Suggestion R)) : List (Suggestion R) :=
  (found.mapIdx fun i s => { s with index := i }).mergeSort precedes

/-! ## Tags -/

/-- The rest of a close tag. -/
def ofCloseTag (c : CompletionContext) : List (Suggestion R) :=
  let name := String.ofList (c.tagName.getD [])
  let text := if c.wantsClosing = some true then name ++ ">" else name
  if c.typed = text.toList then []
  else [{ ofText .tag text with displayText := some name, sortText := name }]

/-- A tag that has been typed with its classes and its id, and its close tag. -/
def ofShorthand (c : CompletionContext) : List (Suggestion R) :=
  if c.concise || c.wantsClosing = some false then []
  else
    let name := String.ofList (c.tagName.getD [])
    let typed := String.ofList c.typed
    [{ ofText .tag name with
      displayText := some ("<" ++ typed ++ "></" ++ name ++ ">")
      snippet := some (typed ++ "$\x7b1\x7d>$\x7b2\x7d</" ++ name ++ ">") }]

/-- An entry of a tag's definition, given what is offered for the tag otherwise. -/
def ofTagEntry (c : CompletionContext) (t : TagDef) (base : Suggestion R) (e : CompletionEntry) :
    Suggestion R :=
  let s := base.withEntry e
  let displayText := match e.snippet with
    | some snippet => if e.displayText.isNone then some (Snippet.display snippet) else s.displayText
    | none => some t.name
  let ending :=
    if !c.concise && c.wantsClosing = some true then
      if t.openTagOnly || e.openTagOnly then "$\x7b99\x7d />"
      else "$\x7b98\x7d>$\x7b99\x7d</" ++ t.name ++ ">"
    else ""
  { s with
    displayText := displayText
    snippet := some (e.snippet.getD t.name ++ ending ++ "$\x7b100\x7d") }

/-- What is offered for a tag. -/
def ofTag (tree : FileTree) (c : CompletionContext) (t : TagDef) : List (Suggestion R) :=
  let base : Suggestion R :=
    { ofText .tag t.name with
      sortText := t.name
      displayText := some t.name
      description := some ((if t.html then "HTML <" else "Custom Marko <") ++ t.name ++ "> tag")
      rightLabel := t.library.bind (Package.label? tree) }
  if t.completions.isEmpty then
    if c.wantsClosing = some true && !c.concise then
      let snippet :=
        if t.openTagOnly then t.name ++ "$\x7b1\x7d />$\x7b2\x7d"
        else t.name ++ "$\x7b1\x7d>$\x7b2\x7d</" ++ t.name ++ ">$\x7b3\x7d"
      [{ base with snippet := some snippet }]
    else [base]
  else t.completions.map (ofTagEntry c t base)

/-! ## Attributes -/

/-- The priority of an attribute that a tag declares itself. -/
def localPriority : Nat := 10

/-- The priority of an attribute of all tags. -/
def globalPriority : Nat := 5

/-- An entry of an attribute's definition, given what is offered for the attribute otherwise. -/
def ofAttributeEntry (a : AttributeDef) (base : Suggestion R) (e : CompletionEntry) :
    Suggestion R :=
  let s := base.withEntry e
  let s := match e.snippet with
    | some snippet =>
      if e.displayText.isNone then { s with displayText := some (Snippet.display snippet) } else s
    | none => s
  match s.snippet with
  | some snippet => { s with snippet := some (snippet ++ "$\x7b99\x7d"), sortText := a.name }
  | none => s

/-- What is offered for an attribute that a tag declares. -/
def ofAttribute (tree : FileTree) (c : CompletionContext) (a : AttributeDef) (t : TagDef) :
    List (Suggestion R) :=
  let base : Suggestion R :=
    { ofText .attributeName a.name with
      displayText := some a.name
      description := some
        ((if a.html then "HTML attribute: " else "Custom Marko attribute: ") ++ a.name)
      priority := if t.isGlobal then globalPriority else localPriority
      leftLabel := a.valueType
      rightLabel := (t.files.definition.or t.library).bind (Package.label? tree) }
  if !a.completions.isEmpty then a.completions.map (ofAttributeEntry a base)
  else if c.wantsValue = some false then [base]
  else if !a.allowedValues.isEmpty then
    [{ base with snippet := some (a.name ++ "=\"$1\"$0"), continues := true }]
  else if a.valueType = some "string" then [{ base with snippet := some (a.name ++ "=\"$1\"") }]
  else [{ base with snippet := some (a.name ++ "=$0") }]

/-- A value that an attribute may have. -/
def ofValue (v : AllowedValue) : Suggestion R :=
  { ofText .value v.value with description := v.description? }

/-! ## All suggestions -/

/-- Tags and attributes are offered: the version of Marko is unknown or not too old. -/
def isSupported (version : Option Nat) (minVersion : Nat) : Bool :=
  version.all fun v => decide (minVersion ≤ v)

/-- All candidates for a context, in the order in which they are found. -/
def candidates (tree : FileTree) (lib : Taglib) (supported : Bool) (c : CompletionContext) :
    List (Suggestion R) :=
  match c.kind with
  | none => []
  | some .tagEnd => if supported then ofCloseTag c else []
  | some .tagStart =>
    if !supported then []
    else if c.hasShorthand then ofShorthand c
    else (lib.tags.filter TagDef.isOffered).flatMap (ofTag tree c)
  | some .attributeName =>
    match c.tagName with
    | none => []
    | some name =>
      if supported then
        ((lib.attributesOf (String.ofList name)).filter (·.1.isOffered)).flatMap fun (a, t) =>
          ofAttribute tree c a t
      else []
  | some .attributeValue =>
    match c.tagName, c.attributeName with
    | some tag, some name =>
      match lib.attribute? (String.ofList tag) (String.ofList name) with
      | some a => a.allowedValues.map ofValue
      | none => []
    | _, _ => []

/-- The suggestions for a context, the best first. -/
def forContext (scorer : Scorer R) (tree : FileTree) (lib : Taglib) (version : Option Nat)
    (minVersion : Nat) (c : CompletionContext) : List (Suggestion R) :=
  ranked (rated scorer c.typed (candidates tree lib (isSupported version minVersion) c))

end Suggestion

end TemplateEditing
