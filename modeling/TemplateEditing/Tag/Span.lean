import TemplateEditing.Document

/-!
# Tags in a text

A tag span says where a tag stands. The brackets of a template are found by a scan for what could
be part of a tag; the scopes at each find tell whether it is. Runs of such tokens make up spans.
-/

namespace TemplateEditing

/-- Whether a tag opens an element, closes one, or does both. -/
inductive TagKind where
  | opening
  | closing
  | selfClosing
deriving DecidableEq, Repr, Inhabited

/-- Where a tag stands. -/
structure TagSpan where
  kind : TagKind
  /-- All of the tag, brackets included. -/
  range : Range
  /-- The name, if it has been found. -/
  nameRange : Option Range
  /-- The tag is written without brackets. -/
  concise : Bool := false
deriving DecidableEq, Repr, Inhabited

namespace TagSpan

/-- The text of the name. -/
def name? (s : TagSpan) (d : Document) : Option Text := s.nameRange.map d.text.inRange

/-- What the text of the tag starts and ends with. -/
def delimiters? (s : TagSpan) : Option (Text × Text) :=
  if s.concise then none
  else
    some (match s.kind with
      | .opening => (['<'], ['>'])
      | .closing => (['<', '/'], ['>'])
      | .selfClosing => (['<'], ['/', '>']))

end TagSpan

/-! ## Tokens -/

namespace Pattern

/-- What could be a bracket or a name: brackets first, then as much of a word as there is. -/
def tagToken : Pattern :=
  (word ['/', '>']).orElse <| (word ['>']).orElse <| (word ['<', '/']).orElse <|
    (word ['<']).orElse <| run fun c => c.isAlphanum || c == '-' || c == ':'

/-- Blanks, or a name with classes and id. -/
def nameOrBlank : Pattern :=
  (run Text.isBlank).orElse <| run fun c =>
    c.isAlphanum || c == '@' || c == '_' || c == '-' || c == ':' || c == '.' || c == '#'

end Pattern

/-- A find that is part of a tag. -/
structure TokenHit where
  hit : Hit
  token : Token
deriving DecidableEq, Repr, Inhabited

namespace TokenHit

/-- Where it stands. -/
def range (t : TokenHit) : Range := t.hit.range

/-- Which part of a tag it is. -/
def kind (t : TokenHit) : TokenKind := t.token.kind

end TokenHit

namespace Document

/-- The part of a tag that stands at a position. -/
def tokenAt? (d : Document) (p : Position) : Option Token := (d.scopesAt p).token?

/-- A find with the part of a tag that it is, if it is one. -/
def classify (d : Document) (h : Hit) : Option TokenHit :=
  (d.tokenAt? h.range.start).map (⟨h, ·⟩)

/-- The parts of tags from a position on, front to back. -/
def tokensFrom (d : Document) (p : Position) : List TokenHit :=
  (d.buffer.scan .tagToken (.ofEnds p d.text.endPosition)).filterMap d.classify

/-- The parts of tags up to a position, back to front. -/
def tokensBefore (d : Document) (p : Position) : List TokenHit :=
  (d.buffer.scanBack .tagToken (.ofEnds .origin p)).filterMap d.classify

/-- The start of the name that ends at a position, or the position if a blank is before it. -/
def nameStart (d : Document) (p : Position) : Position :=
  match d.buffer.scanBack .nameOrBlank (.ofEnds .origin p) with
  | hit :: _ => if hit.text.trim.isEmpty then p else hit.range.start
  | [] => p

end Document

/-! ## Spans -/

/-- The parts of a tag seen so far. -/
structure TagParts where
  start : Option Position := none
  name : Option Range := none
  /-- A part of an open tag was seen. -/
  opening : Bool := false
deriving DecidableEq, Repr, Inhabited

namespace TagParts

/-- The span that a last bracket completes, if there was a first one. -/
def finish? (parts : TagParts) (stop : Position) (kind : TokenKind) : Option TagSpan :=
  parts.start.map fun start =>
    { kind := match kind with
        | .selfClosingEnd => .selfClosing
        | .openTagEnd => .opening
        | _ => if parts.opening then .opening else .closing
      range := .ofEnds start stop
      nameRange := parts.name }

end TagParts

/-- The spans made up by tokens in the order of the text. A tag that is cut short by another one
is left out. -/
def spansOf (parts : TagParts) : List TokenHit → List TagSpan
  | [] => []
  | t :: rest =>
    if t.kind.isStart then
      spansOf { start := some t.range.start, opening := t.kind == .openTagStart } rest
    else if t.kind.isName then
      spansOf
        { parts with
          name := parts.name <|> some t.range
          opening := parts.opening || t.kind == .openTagName } rest
    else if t.kind.isEnd then
      (parts.finish? t.range.stop t.kind).toList ++ spansOf {} rest
    else spansOf parts rest

/-- The spans made up by tokens against the order of the text. `last` is the bracket behind the
tag, once it has been seen. -/
def spansBackOf (parts : TagParts) (last : Option (Position × TokenKind)) :
    List TokenHit → List TagSpan
  | [] => []
  | t :: rest =>
    if t.kind.isEnd then spansBackOf {} (some (t.range.stop, t.kind)) rest
    else if t.kind.isName then
      spansBackOf
        { parts with
          name := some t.range
          opening := parts.opening || t.kind == .openTagName } last rest
    else if t.kind.isStart then
      let parts : TagParts :=
        { parts with
          start := some t.range.start
          opening := parts.opening || t.kind == .openTagStart }
      (last.bind fun (stop, kind) => parts.finish? stop kind).toList ++ spansBackOf {} none rest
    else spansBackOf parts last rest

namespace Document

/-- The complete tags from a position on, front to back. -/
def tagsFrom (d : Document) (p : Position) : List TagSpan := spansOf {} (d.tokensFrom p)

/-- The complete tags up to a position, back to front. -/
def tagsBefore (d : Document) (p : Position) : List TagSpan :=
  spansBackOf {} none (d.tokensBefore p)

end Document

end TemplateEditing
