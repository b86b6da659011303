import TemplateEditing.Proofs.Text.Place
import TemplateEditing.Tag.Span

/-!
# Well-formed markup

A tree of elements, and the text it is written as. The parts carry the proofs that they are well
formed, so every tree is: names are lower-case words, attributes stand behind spaces or line feeds
and have their values in double quotes, comments do not hold the mark that ends them, and text holds
neither a bracket nor a dollar sign. Line feeds are the only row breaks.

Read from left to right, a tree is a row of segments: tags, comments and texts (`Tree.segments`).
The text of the tree is the text of its segments (`Tree.render_eq`), and the tag of a segment at an
offset has a span (`Tag.span`).
-/

namespace TemplateEditing.Markup

/-! ## Parts -/

/-- A lower-case letter, and then lower-case letters, digits and hyphens. -/
structure Name where
  first : Char
  rest : Text
  first_isLower : first.isLower = true
  rest_isNameChar : ∀ c ∈ rest, (c.isLower || c.isDigit || c == '-') = true

namespace Name

/-- The characters of a name. -/
def text (n : Name) : Text := n.first :: n.rest

/-- The name of an element that has content, and whose content is markup. -/
def IsOrdinary (n : Name) : Prop :=
  n.text ≠ "script".toList ∧ n.text ≠ "style".toList ∧ ∀ v ∈ Lexer.voidNames, v.toList ≠ n.text

instance (n : Name) : Decidable n.IsOrdinary :=
  inferInstanceAs (Decidable (_ ∧ _ ∧ ∀ v ∈ Lexer.voidNames, v.toList ≠ n.text))

end Name

/-- The name of an element with a close tag. -/
structure ElementName extends Name where
  ordinary : toName.IsOrdinary

/-- What stands between double quotes. -/
structure Value where
  text : Text
  no_quote : '"' ∉ text
  no_backslash : '\\' ∉ text
  onlyLineFeeds : text.OnlyLineFeeds

/-- An attribute, with the blanks in front of it. -/
structure Attribute where
  gap : Text
  gap_ne_nil : gap ≠ []
  gap_blank : ∀ c ∈ gap, c = ' ' ∨ c = '\n'
  name : Name
  value : Option Value

/-- What stands between the brackets of a comment. -/
structure Comment where
  body : Text
  no_end : ¬ ['-', '-', '>'] <:+: body
  onlyLineFeeds : body.OnlyLineFeeds

/-- Text between tags. -/
structure Plain where
  text : Text
  no_bracket : '<' ∉ text
  no_dollar : '$' ∉ text
  onlyLineFeeds : text.OnlyLineFeeds

/-! ## Tags -/

/-- The value of an attribute, with the sign before it. -/
def Value.render (v : Value) : Text := '=' :: '"' :: (v.text ++ ['"'])

/-- An attribute as it is written. -/
def Attribute.render (a : Attribute) : Text :=
  a.gap ++ a.name.text ++ (a.value.map Value.render).getD []

/-- Attributes as they are written. -/
def renderAttributes (as : List Attribute) : Text := as.flatMap Attribute.render

/-- What a tag of a kind begins with. -/
def opener : TagKind → Text
  | .opening | .selfClosing => ['<']
  | .closing => ['<', '/']

/-- What a tag of a kind ends with. -/
def closer : TagKind → Text
  | .opening | .closing => ['>']
  | .selfClosing => ['/', '>']

/-- A tag. -/
structure Tag where
  kind : TagKind
  name : Name
  attributes : List Attribute := []

namespace Tag

/-- A tag as it is written. -/
def render (tag : Tag) : Text :=
  opener tag.kind ++ tag.name.text ++ renderAttributes tag.attributes ++ closer tag.kind

/-- The offset of the name in a tag. -/
def nameStart (tag : Tag) : Nat := (opener tag.kind).length

/-- The offset behind the name in a tag. -/
def nameStop (tag : Tag) : Nat := tag.nameStart + tag.name.text.length

/-- The span of a tag that is written in `t` at an offset. -/
def span (tag : Tag) (t : Text) (offset : Nat) : TagSpan where
  kind := tag.kind
  range := ⟨t.positionOf offset, t.positionOf (offset + tag.render.length)⟩
  nameRange :=
    some ⟨t.positionOf (offset + tag.nameStart), t.positionOf (offset + tag.nameStop)⟩
  concise := false

end Tag

/-! ## Trees -/

/-- An element, a comment or text. -/
inductive Node where
  | element (name : ElementName) (attributes : List Attribute) (children : List Node)
  | selfClosing (name : Name) (attributes : List Attribute)
  | comment (comment : Comment)
  | text (text : Plain)

/-- The open tag of an element. -/
def openTag (name : ElementName) (attributes : List Attribute) : Tag :=
  ⟨.opening, name.toName, attributes⟩

/-- The close tag of an element. -/
def closeTag (name : ElementName) : Tag := ⟨.closing, name.toName, []⟩

/-- An element that closes itself. -/
def selfClosingTag (name : Name) (attributes : List Attribute) : Tag :=
  ⟨.selfClosing, name, attributes⟩

/-- A comment as it is written. -/
def Comment.render (c : Comment) : Text := ['<', '!', '-', '-'] ++ c.body ++ ['-', '-', '>']

mutual

/-- A node as it is written. -/
def Node.render : Node → Text
  | .element name attributes children =>
    (openTag name attributes).render ++ renderAll children ++ (closeTag name).render
  | .selfClosing name attributes => (selfClosingTag name attributes).render
  | .comment c => c.render
  | .text t => t.text

/-- Nodes as they are written, one after the other. -/
def renderAll : List Node → Text
  | [] => []
  | node :: nodes => node.render ++ renderAll nodes

end

/-- The root of a tree is an element. -/
structure Tree where
  name : ElementName
  attributes : List Attribute
  children : List Node

namespace Tree

/-- The root as a node. -/
def root (tree : Tree) : Node := .element tree.name tree.attributes tree.children

/-- A tree as it is written. -/
def render (tree : Tree) : Text := tree.root.render

end Tree

/-! ## Segments -/

/-- A stretch of markup that is all tag, all comment or all text. -/
inductive Segment where
  | tag (tag : Tag)
  | comment (comment : Comment)
  | text (text : Plain)

namespace Segment

/-- A segment as it is written. -/
def render : Segment → Text
  | .tag t => t.render
  | .comment c => c.render
  | .text p => p.text

/-- The span of the tag that a segment at an offset of `t` is, if it is one. -/
def span? (t : Text) (offset : Nat) : Segment → Option TagSpan
  | .tag mark => some (mark.span t offset)
  | .comment _ | .text _ => none

end Segment

/-- Segments as they are written, one after the other. -/
def renderSegments (segments : List Segment) : Text := segments.flatMap Segment.render

mutual

/-- The segments of a node, from left to right. -/
def Node.segments : Node → List Segment
  | .element name attributes children =>
    .tag (openTag name attributes) :: segmentsAll children ++ [.tag (closeTag name)]
  | .selfClosing name attributes => [.tag (selfClosingTag name attributes)]
  | .comment c => [.comment c]
  | .text t => [.text t]

/-- The segments of nodes, one after the other. -/
def segmentsAll : List Node → List Segment
  | [] => []
  | node :: nodes => node.segments ++ segmentsAll nodes

end

/-- The segments of a tree, from left to right. -/
def Tree.segments (tree : Tree) : List Segment := tree.root.segments

@[simp] lemma renderSegments_nil : renderSegments [] = [] := rfl

@[simp] lemma renderSegments_cons (s : Segment) (segments : List Segment) :
    renderSegments (s :: segments) = s.render ++ renderSegments segments := rfl

@[simp] lemma renderSegments_append (a b : List Segment) :
    renderSegments (a ++ b) = renderSegments a ++ renderSegments b := List.flatMap_append

mutual

lemma Node.render_eq (node : Node) : node.render = renderSegments node.segments := by
  match node with
  | .element name attributes children =>
    rw [Node.render, Node.segments, renderAll_eq children]
    simp [Segment.render]
  | .selfClosing name attributes =>
    rw [Node.render, Node.segments]
    simp [Segment.render]
  | .comment c =>
    rw [Node.render, Node.segments]
    simp [Segment.render]
  | .text t =>
    rw [Node.render, Node.segments]
    simp [Segment.render]

lemma renderAll_eq (nodes : List Node) : renderAll nodes = renderSegments (segmentsAll nodes) := by
  match nodes with
  | [] => rfl
  | node :: nodes =>
    rw [renderAll, segmentsAll, Node.render_eq node, renderAll_eq nodes, renderSegments_append]

end

/-- The text of a tree is the text of its segments. -/
lemma Tree.render_eq (tree : Tree) : tree.render = renderSegments tree.segments :=
  tree.root.render_eq

/-- A list in a list, with a tag over two rows, a bracket in a value and a tag in a comment. -/
def Tree.sample : Tree where
  name := ⟨⟨'u', ['l'], rfl, by decide⟩, by decide⟩
  attributes :=
    [⟨[' '], by decide, by decide, ⟨'i', ['d'], rfl, by decide⟩,
        some ⟨['>'], by decide, by decide, by decide⟩⟩,
      ⟨['\n', ' '], by decide, by decide, ⟨'h', ['r'], rfl, by decide⟩, none⟩]
  children :=
    [.text ⟨['a'], by decide, by decide, by decide⟩,
      .comment ⟨['<', 'b', '>'], by decide, by decide⟩,
      .selfClosing ⟨'b', ['r'], rfl, by decide⟩ [],
      .element ⟨⟨'u', ['l'], rfl, by decide⟩, by decide⟩ [] []]

end TemplateEditing.Markup
