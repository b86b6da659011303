import TemplateEditing.Tag.Span

/-!
# The tag around a position

Which tag a position is in is told by the token there. From a bracket, a name or an attribute the
other parts of the tag are searched for backwards and forwards; where there is no token, the search
backwards may show that the position is outside of all tags. A tag without a name, or without a
bracket behind it, is not found.
-/

namespace TemplateEditing

/-- Tokens in an order that no markup gives. -/
inductive LocateError where
  /-- There is no bracket before the tag at this position. -/
  | missingStart (p : Position)
  /-- There is no name behind the bracket before this position. -/
  | missingName (p : Position)
deriving DecidableEq, Repr

/-- The error in words. -/
def LocateError.message : LocateError → String
  | .missingStart p => s!"no start delimiter before {p.render}"
  | .missingName p => s!"no tag name for the delimiter at {p.render}"

/-- What is known of a tag so far. -/
structure TagDraft where
  start : Position
  name : Option Range
  stop : Option Position := none
  opening : Bool
  selfClosing : Bool := false
  concise : Bool := false
deriving DecidableEq, Repr, Inhabited

/-- What a search backwards for the start of a tag comes to. -/
inductive WalkBack where
  /-- The bracket before the tag. -/
  | start (draft : TagDraft)
  /-- The name of a tag without brackets in the same row. -/
  | concise (name : Position)
  /-- The end of another tag. -/
  | outside
  /-- The start of the text. -/
  | exhausted
deriving DecidableEq, Repr, Inhabited

/-- Searches backwards through tokens for the start of a tag around a row. -/
def walkBack (row : Nat) (name : Option Range) (opening : Bool) : List TokenHit → WalkBack
  | [] => .exhausted
  | t :: rest =>
    if t.kind.isEnd then .outside
    else if t.kind == .openTagName && t.token.concise then
      if t.range.start.row = row then .concise t.range.start else .outside
    else if t.kind.isName then
      walkBack row (some t.range) (opening || t.kind == .openTagName) rest
    else if t.kind.isStart then
      .start
        { start := t.range.start, name := name, opening := opening || t.kind == .openTagStart }
    else walkBack row name opening rest

namespace Document

/-- A column past the end of a row is looked up as the last one. -/
def probe (d : Document) (p : Position) : Position :=
  let length := d.text.lineLength p.row
  if 0 < length ∧ length ≤ p.column then ⟨p.row, length - 1⟩ else p

/-- A tag without brackets goes from its name to the end of its row. -/
def conciseTag (d : Document) (p : Position) : TagDraft :=
  let start := d.nameStart p
  let name := match d.tokensFrom start with
    | t :: _ => if t.kind.isName then t.range else .point p
    | [] => .point p
  { start := start, name := some name, stop := some ⟨p.row, d.text.lineLength p.row⟩
    opening := true, selfClosing := true, concise := true }

/-- From the bracket behind a tag. -/
def tagFromEnd (d : Document) (p : Position) (kind : TokenKind) : Except LocateError TagDraft :=
  let width := if d.text.charAt? p = some '/' then 2 else 1
  let before := d.tokensBefore p
  let inside := before.takeWhile (!·.kind.isStart)
  match before.find? (·.kind.isStart) with
  | none => .error (.missingStart p)
  | some first =>
    .ok
      { start := first.range.start
        name := (inside.reverse.find? (·.kind.isName)).map (·.range)
        stop := some (p.right width)
        opening := kind != .closeTagEnd
        selfClosing := kind == .selfClosingEnd }

/-- From the bracket before a tag. The next token has to be the name. -/
def tagFromStart (d : Document) (p : Position) (kind : TokenKind) : TagDraft :=
  let start := if d.text.charAt? p = some '/' then (d.text.before? p).getD p else p
  let opening := kind == .openTagStart
  let name := match d.tokensFrom (start.right (if opening then 1 else 2)) with
    | t :: _ => if t.kind.isName then some t.range else none
    | [] => none
  { start := start, name := name, opening := opening }

/-- From the name of a tag. -/
def tagFromName (d : Document) (p : Position) (token : Token) : Except LocateError TagDraft :=
  if token.concise then .ok (d.conciseTag p)
  else
    match (d.tokensBefore p).find? (·.kind.isStart) with
    | none => .error (.missingStart p)
    | some first =>
      match (d.tokensFrom first.range.start).find? (·.kind.isName) with
      | none => .error (.missingName p)
      | some name =>
        .ok
          { start := first.range.start, name := some name.range
            opening := name.kind == .openTagName }

/-- From the name of an attribute. -/
def tagFromAttribute (d : Document) (p : Position) : Except LocateError TagDraft :=
  match walkBack p.row none false (d.tokensBefore p) with
  | .start draft => .ok draft
  | .concise name => .ok (d.conciseTag name)
  | .outside | .exhausted => .error (.missingStart p)

/-- From a place with no token. -/
def tagFromGap? (d : Document) (p : Position) : Option TagDraft :=
  match walkBack p.row none false (d.tokensBefore p) with
  | .start draft => some draft
  | .concise name => some (d.conciseTag name)
  | .outside | .exhausted => none

/-- Searches forwards for the bracket behind a tag, up to the next bracket before one. -/
def findEnd (draft : TagDraft) : List TokenHit → TagDraft
  | [] => draft
  | t :: rest =>
    match t.kind with
    | .openTagEnd => { draft with stop := some t.range.stop, opening := true, selfClosing := false }
    | .selfClosingEnd =>
      { draft with stop := some t.range.stop, opening := true, selfClosing := true }
    | .closeTagEnd => { draft with stop := some t.range.stop }
    | .openTagStart | .closeTagStart => draft
    | _ => findEnd draft rest

/-- The span of a tag, if its name and its end are found. -/
def completeTag? (d : Document) (draft : TagDraft) : Option TagSpan := do
  let name ← draft.name
  let draft := if draft.stop.isNone then findEnd draft (d.tokensFrom name.stop) else draft
  let stop ← draft.stop
  some
    { kind :=
        if draft.selfClosing then .selfClosing
        else if draft.opening then .opening
        else .closing
      range := .ofEnds draft.start stop
      nameRange := some name
      concise := draft.concise }

/-- The tag around a position. There is none in text, or while the tag is incomplete. -/
def tagAt (d : Document) (p : Position) : Except LocateError (Option TagSpan) := do
  let p := d.probe p
  match d.tokenAt? p with
  | none => .ok ((d.tagFromGap? p).bind d.completeTag?)
  | some token =>
    let draft ←
      if token.kind.isEnd then d.tagFromEnd p token.kind
      else if token.kind.isStart then .ok (d.tagFromStart p token.kind)
      else if token.kind.isName then d.tagFromName p token
      else d.tagFromAttribute p
    .ok (d.completeTag? draft)

end Document

end TemplateEditing
