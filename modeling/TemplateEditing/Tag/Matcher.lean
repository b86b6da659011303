import TemplateEditing.Settings
import TemplateEditing.Tag.Locate
import TemplateEditing.Tag.Pair
import TemplateEditing.Tag.Partner

/-!
# The matcher

The matcher holds the pair of tags around the caret, if there is one, and keeps it right while the
document is edited: a pair is dropped when the caret leaves it, when it is no longer valid, or when
a structural character is inserted; then the pair at the caret is searched for anew. Whenever a
pair is dropped its markers are given back.
-/

namespace TemplateEditing

/-- The pair of tags that is shown, if any. -/
structure Matcher where
  settings : TagMatchingSettings
  pair : Option TagPair := none
deriving DecidableEq, Repr, Inhabited

namespace Matcher

/-- Where the tags shown are. -/
def ranges (m : Matcher) (d : Document) : List Range := (m.pair.map (·.ranges d)).getD []

/-- Drops the pair. -/
def drop (m : Matcher) (d : Document) : Matcher × Document :=
  match m.pair with
  | none => (m, d)
  | some pair => ({ m with pair := none }, pair.release d)

/-- The spans of the tag at a position and its partner, the open one first, and which of them the
position is in. -/
def spansAt? (d : Document) (p : Position) : Option (TagSpan × Option TagSpan × Side) :=
  match d.tagAt p with
  | .error _ | .ok none => none
  | .ok (some span) =>
    match span.kind with
    | .selfClosing => some (span, none, .opening)
    | .opening => some (span, d.partner? span, .opening)
    | .closing => (d.partner? span).map fun first => (first, some span, .closing)

/-- Starts following tags. -/
def follow (m : Matcher) (d : Document) (opening : TagSpan) (closing : Option TagSpan)
    (active : Side) : Matcher × Document :=
  let (first, d) := LiveTag.acquire d opening
  let (second, d) := match closing with
    | none => (none, d)
    | some span =>
      let (tag, d) := LiveTag.acquire d span
      (some tag, d)
  let pair := TagPair.of first second active
  ({ m with pair := some pair }, pair.highlight d m.settings.highlightClass)

/-- Drops the pair and searches for the one at the caret. There is none while tag matching is off
or there are several cursors. -/
def refresh (m : Matcher) (d : Document) : Matcher × Document :=
  let (m, d) := m.drop d
  if m.settings.enabled && d.cursors.isSingle then
    match spansAt? d d.caret with
    | none => (m, d)
    | some (opening, closing, active) => m.follow d opening closing active
  else (m, d)

/-- The caret is in the active tag and the pair is valid. -/
def holds (pair : TagPair) (d : Document) : Bool :=
  pair.isValid d && pair.activeTag.touches d d.caret

/-- Before text is typed: the pair is dropped unless it holds and the text is not structural. -/
def beforeTyping (m : Matcher) (d : Document) (typed : Text) : Matcher × Document :=
  match m.pair with
  | none => (m, d)
  | some pair =>
    if !m.settings.isStructural typed && holds pair d then (m, d) else m.drop d

/-- After changes: a pair that still holds is kept, and its names are made equal if the caret is
in the active one; any other is searched for anew. Says whether a name was changed. -/
def afterChanges (m : Matcher) (d : Document) (changes : List Change) :
    Except BufferError (Bool × Matcher × Document) :=
  let (m, d) :=
    if changes.any (m.settings.isStructural ·.newText) then m.drop d else (m, d)
  match m.pair with
  | none => .ok (false, m.refresh d)
  | some pair =>
    if holds pair d then
      if m.settings.renameTogether && pair.activeTag.nameTouches d d.caret then do
        let (renamed, d) ← pair.synchronize d
        .ok (renamed, m, d)
      else .ok (false, m, d)
    else .ok (false, m.refresh d)

/-- After the caret moved without an edit: it may still be in the active tag, or have gone to the
other one. -/
def afterMove (m : Matcher) (d : Document) : Matcher × Document :=
  if !d.cursors.isSingle then m.drop d
  else
    match m.pair with
    | none => m.refresh d
    | some pair =>
      if pair.activeTag.touches d d.caret then (m, d)
      else if (pair.inactiveTag?).any (·.touches d d.caret) then
        ({ m with pair := some pair.swap }, d)
      else m.refresh d

end Matcher

end TemplateEditing
