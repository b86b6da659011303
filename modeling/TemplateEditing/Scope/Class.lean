import TemplateEditing.Scope.Map
import TemplateEditing.Scope.Name

/-!
# What scopes say

A scope name is read in two ways. As a token it says which part of a tag stands here: one of the
brackets, the name, or the name of an attribute. As a region it says what a caret here is inside
of. Names are compared by their first and last parts, so that a grammar may refine them. Of a
chain, the innermost scope that says something counts.
-/

namespace TemplateEditing

/-- The parts of a tag. -/
inductive TokenKind where
  | openTagStart
  | closeTagStart
  | openTagEnd
  | selfClosingEnd
  | closeTagEnd
  | openTagName
  | closeTagName
  | attributeName
deriving DecidableEq, Repr, Inhabited

namespace TokenKind

/-- A bracket in front of a tag. -/
def isStart : TokenKind → Bool
  | .openTagStart | .closeTagStart => true
  | _ => false

/-- A bracket behind a tag. -/
def isEnd : TokenKind → Bool
  | .openTagEnd | .selfClosingEnd | .closeTagEnd => true
  | _ => false

/-- The name of a tag. -/
def isName : TokenKind → Bool
  | .openTagName | .closeTagName => true
  | _ => false

end TokenKind

/-- A part of a tag, and whether the tag is written without brackets. -/
structure Token where
  kind : TokenKind
  concise : Bool := false
deriving DecidableEq, Repr, Inhabited

/-- What a caret is inside of. -/
inductive Region where
  | tag (concise : Bool)
  | string
  | attributeSeparator
  | attributeName
deriving DecidableEq, Repr, Inhabited

namespace Scope

/-- The scope begins with a text. -/
def beginsWith (scope lead : String) : Bool := lead.toList.isPrefixOf scope.toList

/-- The scope ends with a text. -/
def endsWith (scope tail : String) : Bool := tail.toList.isSuffixOf scope.toList

/-- The part of a bracket's scope that says which bracket it is. -/
def bracket? (scope : String) : Option (List Char) :=
  let lead := "punctuation.definition.marko-tag.".toList
  if lead.isPrefixOf scope.toList then
    let rest := scope.toList.drop lead.length
    let format := ".html".toList
    some (if format.isSuffixOf rest then rest.take (rest.length - format.length) else rest)
  else none

/-- The bracket that such a part of a scope means. -/
def bracketKind? (part : List Char) : Option TokenKind :=
  [("end.self-close".toList, TokenKind.selfClosingEnd), ("begin.open".toList, .openTagStart),
    ("end.open".toList, .openTagEnd), ("begin.close".toList, .closeTagStart),
    ("end.close".toList, .closeTagEnd)].lookup part

/-- The scope begins like that of a tag's name. -/
def isTagName (scope : String) : Bool :=
  beginsWith scope "entity.name.tag" || beginsWith scope "support.function.marko-tag"

/-- The scope begins like that of an attribute's name. -/
def isAttributeName (scope : String) : Bool :=
  beginsWith scope "entity.other.attribute-name" ||
    beginsWith scope "support.function.marko-attribute"

/-- The part of a tag that a scope stands for. -/
def token? (scope : String) : Option Token :=
  match (bracket? scope).bind bracketKind? with
  | some kind => some { kind := kind }
  | none =>
    if isTagName scope then
      if endsWith scope ".close.html" then some { kind := .closeTagName }
      else some { kind := .openTagName, concise := endsWith scope ".concise" }
    else if isAttributeName scope then some { kind := .attributeName }
    else none

/-- The region that a scope stands for. -/
def region? (scope : String) : Option Region :=
  if isTagName scope || beginsWith scope "meta.tag" then
    some (.tag (endsWith scope ".concise"))
  else if beginsWith scope "string.quoted" || beginsWith scope "punctuation.definition.string" then
    some .string
  else if beginsWith scope "punctuation.separator.key-value" then some .attributeSeparator
  else if isAttributeName scope then some .attributeName
  else none

/-- The scope stands for the name of a tag. -/
def namesTag (scope : String) : Bool := (token? scope).any (·.kind.isName)

end Scope

namespace ScopeChain

/-- The part of a tag that stands at a place with these scopes. -/
def token? (chain : ScopeChain) : Option Token := chain.findSome? Scope.token?

/-- What a caret at a place with these scopes is inside of. -/
def region? (chain : ScopeChain) : Option Region := chain.findSome? Scope.region?

end ScopeChain

end TemplateEditing
