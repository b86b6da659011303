import TemplateEditing.Tag.Span

/-!
# Partners

The partner of an open tag is the close tag at which as many elements have been closed as opened
since, and the other way round. Both have to have the same name. Tags that close themselves have no
partner.
-/

namespace TemplateEditing

/-- The first tag at which `depth` elements have ended, among tags that lead away from them: tags
of kind `outer` start an element and tags of kind `inner` end one. -/
def balancingTag? (outer inner : TagKind) (depth : Nat) : List TagSpan → Option TagSpan
  | [] => none
  | t :: rest =>
    if t.kind = outer then balancingTag? outer inner (depth + 1) rest
    else if t.kind = inner then
      if depth ≤ 1 then some t else balancingTag? outer inner (depth - 1) rest
    else balancingTag? outer inner depth rest

namespace Document

/-- The tag that balances a tag, whatever its name. -/
def counterpart? (d : Document) (s : TagSpan) : Option TagSpan :=
  match s.kind with
  | .selfClosing => none
  | .opening => balancingTag? .opening .closing 1 (d.tagsFrom s.range.stop)
  | .closing => balancingTag? .closing .opening 1 (d.tagsBefore s.range.start)

/-- The partner of a tag. -/
def partner? (d : Document) (s : TagSpan) : Option TagSpan :=
  (d.counterpart? s).filter fun t => t.name? d == s.name? d

end Document

end TemplateEditing
