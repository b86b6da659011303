import TemplateEditing.Json.Syntax

/-!
# JSON values

A JSON value as its text means it: strings are texts, and an object has its fields in the order of
their keys, of a repeated key the last one. A text has no meaning if a string holds half of a
surrogate pair, if a number is too large for a double, or if values are nested too deeply.
-/

namespace TemplateEditing

/-- A JSON value. -/
inductive JsonValue where
  | null
  | bool (b : Bool)
  | number (literal : Text)
  | string (s : String)
  | array (items : List JsonValue)
  | object (fields : List (String × JsonValue))
deriving Repr, Inhabited

namespace JsonValue

/-- How deeply arrays and objects may be nested. -/
def maxDepth : Nat := 127

/-- The least number that is rounded beyond the largest double. -/
def doubleLimit : Nat := Nat.pow 2 1024 - Nat.pow 2 970

/-- The number that a run of decimal digits stands for. -/
def digitsToNat (t : Text) : Nat := t.foldl (fun n c => n * 10 + (c.toNat - '0'.toNat)) 0

/-- The digits of a number without its point, and the power of ten they are multiplied by. -/
def scientific (literal : Text) : Nat × Int :=
  let t := if literal.head? == some '-' then literal.drop 1 else literal
  let whole := t.takeWhile Char.isDigit
  let t := t.drop whole.length
  let fraction := if t.head? == some '.' then (t.drop 1).takeWhile Char.isDigit else []
  let t := (t.dropWhile fun c => c == '.' || c.isDigit).drop 1
  let exponent : Int :=
    if t.head? == some '-' then -(digitsToNat (t.drop 1) : Int)
    else if t.head? == some '+' then digitsToNat (t.drop 1)
    else digitsToNat t
  (digitsToNat (whole ++ fraction), exponent - fraction.length)

/-- A number is rounded to a finite double. Unless its first digit is that of the 309th place, the
number of places decides. -/
def isFinite (literal : Text) : Bool :=
  let (digits, exponent) := scientific literal
  let places : Int := (Nat.toDigits 10 digits).length + exponent
  if digits = 0 ∨ places < 309 then true
  else if 309 < places then false
  else if 0 ≤ exponent then decide (digits * Nat.pow 10 exponent.toNat < doubleLimit)
  else decide (digits < doubleLimit * Nat.pow 10 (-exponent).toNat)

/-- Puts a field at its place in the order of keys, in the stead of one with the same key. -/
def putField (key : String) (value : JsonValue) :
    List (String × JsonValue) → List (String × JsonValue)
  | [] => [(key, value)]
  | (k, v) :: rest =>
    if k < key then (k, v) :: putField key value rest
    else if k = key then (key, value) :: rest
    else (key, value) :: (k, v) :: rest

mutual

/-- What a value that is written at a place with room for `room` more levels means. -/
def ofSyntax? (room : Nat) : JsonSyntax → Option JsonValue
  | .null => some .null
  | .bool b => some (.bool b)
  | .number literal => if isFinite literal then some (.number literal) else none
  | .string units => (StringUnit.decode? units).map fun t => .string (String.ofList t)
  | .array items => if room = 0 then none else (ofItems? (room - 1) items).map .array
  | .object fields => if room = 0 then none else (ofFields? (room - 1) fields []).map .object

/-- What the items of an array mean. -/
def ofItems? (room : Nat) : List JsonSyntax → Option (List JsonValue)
  | [] => some []
  | item :: rest => do
    let value ← ofSyntax? room item
    let values ← ofItems? room rest
    some (value :: values)

/-- What the fields of an object mean, given the fields before them. -/
def ofFields? (room : Nat) :
    List (List StringUnit × JsonSyntax) → List (String × JsonValue) →
      Option (List (String × JsonValue))
  | [], before => some before
  | (units, item) :: rest, before => do
    let key ← StringUnit.decode? units
    let value ← ofSyntax? room item
    ofFields? room rest (putField (String.ofList key) value before)

end

/-- The value of a text. -/
def parse? (t : Text) : Option JsonValue := (JsonSyntax.parse? t).bind (ofSyntax? maxDepth)

/-! ## Looking into values -/

/-- The fields of an object. -/
def fields? : JsonValue → Option (List (String × JsonValue))
  | .object fields => some fields
  | _ => none

/-- The text of a string. -/
def string? : JsonValue → Option String
  | .string s => some s
  | _ => none

/-- A truth value. -/
def bool? : JsonValue → Option Bool
  | .bool b => some b
  | _ => none

/-- The strings of a list, or a single string. -/
def strings : JsonValue → List String
  | .string s => [s]
  | .array items => items.filterMap string?
  | _ => []

/-- The first of several fields that is there. -/
def field? (fields : List (String × JsonValue)) (keys : List String) : Option JsonValue :=
  keys.findSome? fun key => fields.lookup key

/-- The first of several fields that is there is true. -/
def flag (fields : List (String × JsonValue)) (keys : List String) : Bool :=
  ((field? fields keys).bind bool?).getD false

end JsonValue

end TemplateEditing
