import TemplateEditing.Text.Blank

/-!
# Patterns and scans

A pattern says how many characters it takes at the front of a text. A scan walks through a text,
takes what the pattern takes wherever it takes something, and reports each piece with the range it
covers, counted from a given position.

The walk starts a new row at a line feed and gives a carriage return no column of its own. On a
text whose row breaks are line feeds, with or without a carriage return before them, this agrees
with the text's own rows.
-/

namespace TemplateEditing

/-- How many characters are taken at the front of a text; none means that the pattern does not
match there. -/
abbrev Pattern := Text → Nat

namespace Pattern

/-- As many characters as possible that satisfy `p`. -/
def run (p : Char → Bool) : Pattern := fun t => (t.takeWhile p).length

/-- Exactly the characters of a word. -/
def word (w : Text) : Pattern := fun t => if w.isPrefixOf t then w.length else 0

/-- The first of two patterns that matches. -/
def orElse (p q : Pattern) : Pattern := fun t => if p t = 0 then q t else p t

end Pattern

/-- A piece of text found by a scan. -/
structure Hit where
  range : Range
  text : Text
deriving DecidableEq, Repr, Inhabited

/-- Shows pieces to a visitor, one after the other, until it has seen enough. The visitor says so
with what it makes of each piece. -/
def Hit.visit {σ : Type} (visitor : σ → Hit → σ × Bool) (s : σ) : List Hit → σ
  | [] => s
  | hit :: rest =>
    let (s, enough) := visitor s hit
    if enough then s else visit visitor s rest

/-- The position behind a character that stands at a position. -/
def Position.past (p : Position) (c : Char) : Position :=
  if c == '\n' then ⟨p.row + 1, 0⟩ else if c == '\r' then p else ⟨p.row, p.column + 1⟩

/-- The position behind a text that starts at a position. -/
def Position.pastText (p : Position) (t : Text) : Position := t.foldl Position.past p

namespace Pattern

/-- Everything a pattern takes from a text that starts at a position, front to back. -/
def scan (pattern : Pattern) (from_ : Position) (t : Text) : List Hit :=
  match t with
  | [] => []
  | c :: rest =>
    let taken := (c :: rest).take (pattern (c :: rest))
    if taken.isEmpty then pattern.scan (from_.past c) rest
    else
      let stop := from_.pastText taken
      ⟨⟨from_, stop⟩, taken⟩ :: pattern.scan stop (rest.drop (taken.length - 1))
termination_by t.length

end Pattern

end TemplateEditing
