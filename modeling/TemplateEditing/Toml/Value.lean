import TemplateEditing.Text.Rows

/-!
# TOML values

A TOML document is a table. Tables remember how they came about, since that decides whether they may
be added to: a table with a header of its own is closed to dotted keys, a table made by dotted keys
is closed to headers, and a table in braces is closed to both.
-/

namespace TemplateEditing

/-- How a table came about. -/
inductive TableOrigin where
  /-- It has a header of its own. -/
  | header
  /-- It lies on the way to a table with a header. -/
  | implied
  /-- It lies on the way of a dotted key. -/
  | dotted
  /-- It is written in braces. -/
  | inline
deriving DecidableEq, Repr, Inhabited

/-- A TOML value. -/
inductive TomlValue where
  | string (s : String)
  | integer (i : Int)
  | float (literal : Text)
  | boolean (b : Bool)
  /-- A date, a time or both. -/
  | date (literal : Text)
  | array (items : List TomlValue)
  | table (origin : TableOrigin) (fields : List (String × TomlValue))
  /-- The tables with one and the same header in double brackets, the last one first. -/
  | tables (items : List (List (String × TomlValue)))
deriving Repr, Inhabited

/-- The fields of a table. -/
abbrev TomlFields := List (String × TomlValue)

namespace TomlFields

/-- Gives the field of a key another value. -/
def set (fields : TomlFields) (key : String) (value : TomlValue) : TomlFields :=
  fields.map fun (k, v) => if k = key then (k, value) else (k, v)

/-- Changes the table at the end of a path. Tables that do not exist are made, `dotted` saying by
which means; other values on the way are an error, and so is a table that is closed to this means.
Of several tables with one header the last is meant. -/
def modifyAt (dotted : Bool) (f : TableOrigin → TomlFields → Option TomlFields) :
    List String → TableOrigin → TomlFields → Option TomlFields
  | [], origin, fields => f origin fields
  | key :: path, _, fields =>
    match fields.lookup key with
    | none =>
      let origin := if dotted then TableOrigin.dotted else .implied
      (modifyAt dotted f path origin []).map fun inner => fields ++ [(key, .table origin inner)]
    | some (.table origin inner) =>
      if origin = .inline ∨ (dotted = true ∧ origin = .header) then none
      else (modifyAt dotted f path origin inner).map fun inner =>
        fields.set key (.table origin inner)
    | some (.tables (last :: items)) =>
      (modifyAt dotted f path .header last).map fun last => fields.set key (.tables (last :: items))
    | some _ => none

/-- Adds a field to a table by a dotted key. The key before the last dot has to lead to a table that
was made in this way, and there must not be such a field. -/
def assign (fields : TomlFields) (origin : TableOrigin) (path : List String) (key : String)
    (value : TomlValue) : Option TomlFields :=
  modifyAt true (fun origin fields =>
    if (origin == .dotted) == path.isEmpty || (fields.lookup key).isSome then none
    else some (fields ++ [(key, value)])) path origin fields

/-- Opens the table of a header. A table that was only implied so far becomes the header's. -/
def openTable (fields : TomlFields) (path : List String) (key : String) : Option TomlFields :=
  modifyAt false (fun _ fields =>
    match fields.lookup key with
    | none => some (fields ++ [(key, .table .header [])])
    | some (.table .implied inner) => some (fields.set key (.table .header inner))
    | some _ => none) path .header fields

/-- Opens one more table of a header in double brackets. -/
def openItem (fields : TomlFields) (path : List String) (key : String) : Option TomlFields :=
  modifyAt false (fun _ fields =>
    match fields.lookup key with
    | none => some (fields ++ [(key, .tables [[]])])
    | some (.tables items) => some (fields.set key (.tables ([] :: items)))
    | some _ => none) path .header fields

end TomlFields

end TemplateEditing
