import TemplateEditing.Bisect
import TemplateEditing.Position

/-!
# Scope maps

A scope is a dotted name that says what a piece of text is, such as `entity.name.tag.html`. Every
place of a text has a chain of them, the innermost first and the root of the grammar last. A scope
map keeps, for each row, its length and the spans of columns that have more than the root.

Spans are added from left to right. Touching spans with the same scopes become one.
-/

namespace TemplateEditing

/-- The scopes of a place, the innermost first. -/
abbrev ScopeChain := List String

/-- Columns of a row with the same scopes, the root left out. -/
structure ScopeSpan where
  start : Nat
  stop : Nat
  scopes : ScopeChain
deriving DecidableEq, Repr, Inhabited

/-- How a span lies to a column. -/
def ScopeSpan.compare (span : ScopeSpan) (column : Nat) : Ordering :=
  if span.stop ≤ column then .lt else if column < span.start then .gt else .eq

/-- The length of a row and its spans. -/
structure ScopeRow where
  length : Nat
  spans : List ScopeSpan := []
deriving DecidableEq, Repr, Inhabited

namespace ScopeRow

/-- Adds a span on the right. Empty spans and spans without scopes are left out. -/
def add (row : ScopeRow) (start stop : Nat) (scopes : ScopeChain) : ScopeRow :=
  if stop ≤ start || scopes.isEmpty then row
  else
    match row.spans.getLast? with
    | some last =>
      if last.stop == start && last.scopes == scopes then
        { row with spans := row.spans.dropLast ++ [{ last with stop := stop }] }
      else { row with spans := row.spans ++ [⟨start, stop, scopes⟩] }
    | none => { row with spans := [⟨start, stop, scopes⟩] }

/-- The span over a column, if there is one. -/
def spanAt? (row : ScopeRow) (column : Nat) : Option ScopeSpan :=
  match bisect (·.compare column) row.spans with
  | .found index => row.spans[index]?
  | .gap _ => none

end ScopeRow

/-- The scopes of a text, row by row. -/
structure ScopeMap where
  root : String
  rows : List ScopeRow := []
deriving DecidableEq, Repr, Inhabited

namespace ScopeMap

/-- Starts a row of some length below the others. -/
def addRow (m : ScopeMap) (length : Nat) : ScopeMap :=
  { m with rows := m.rows ++ [{ length := length }] }

/-- Adds a span to the last row. -/
def addSpan (m : ScopeMap) (start stop : Nat) (scopes : ScopeChain) : ScopeMap :=
  { m with rows := m.rows.modify (m.rows.length - 1) (·.add start stop scopes) }

/-- The scopes at a position. A column past the end of its row has the scopes of the last one. -/
def scopesAt (m : ScopeMap) (p : Position) : ScopeChain :=
  match m.rows[p.row]? with
  | none => [m.root]
  | some row =>
    if row.length = 0 then [m.root]
    else
      match row.spanAt? (min p.column (row.length - 1)) with
      | some span => span.scopes ++ [m.root]
      | none => [m.root]

end ScopeMap

end TemplateEditing
