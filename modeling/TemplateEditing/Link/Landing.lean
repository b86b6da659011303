import TemplateEditing.Text.Regex

/-!
# Landing places

A link leads into a file and there to its start, to the first match of a pattern, or to the place
where an attribute of a tag is declared. Rows of the file end at line feeds.
-/

namespace TemplateEditing

/-- Where in a file a link leads. -/
inductive Landing where
  | start
  /-- The first match of a regular expression. -/
  | pattern (source : Text)
  /-- The declaration of an attribute in a tag library. -/
  | declaration (tagName attributeName : Text)
deriving DecidableEq, Repr, Inhabited

namespace Text

/-- The offset at which a word first stands in a text. -/
def find? (w : Text) : Text → Option Nat
  | [] => if w.isEmpty then some 0 else none
  | c :: rest => if w.isPrefixOf (c :: rest) then some 0 else (find? w rest).map (· + 1)

/-- The position of an offset if rows end at line feeds only. -/
def lineFeedPosition (t : Text) (offset : Nat) : Position :=
  let before := t.take offset
  ⟨before.count '\n', (Text.takeEndWhile (· != '\n') before).length⟩

end Text

namespace Landing

/-- The tag that holds the attributes of all tags. -/
def anyTag : Text := ['*']

/-- The ends of a tag's name in a tag library, in angle brackets or else in quotes. -/
def tagKey? (t tagName : Text) : Option (Nat × Nat) :=
  let key (w : Text) : Option (Nat × Nat) := (Text.find? w t).map fun i => (i, i + w.length)
  (key ('<' :: tagName ++ ['>'])).or (key ('"' :: tagName ++ ['"']))

/-- The offset at which an attribute of a tag, or else of all tags, is declared, or else that of the
tag. -/
def declarationOffset? (t tagName attributeName : Text) : Option Nat :=
  let tag := (tagKey? t tagName).or (tagKey? t anyTag)
  let start := (tag.map (·.2)).getD 0
  let rest := t.drop start
  let found := (Text.find? ('@' :: attributeName) rest).or
    (Text.find? ('"' :: attributeName ++ ['"']) rest)
  (found.map (start + ·)).or (tag.map (·.1))

/-- The offset of a landing place in a text. -/
def offset? (l : Landing) (t : Text) : Option Nat :=
  match l with
  | start => some 0
  | pattern source => (Regex.ofText? source).bind (·.find? t)
  | declaration tagName attributeName => declarationOffset? t tagName attributeName

/-- The position of a landing place in a text. -/
def locate? (l : Landing) (t : Text) : Option Position := (l.offset? t).map t.lineFeedPosition

end Landing

end TemplateEditing
