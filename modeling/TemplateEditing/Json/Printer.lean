import TemplateEditing.Decimal.Shortest
import TemplateEditing.Json.Syntax

/-!
# Printing JSON

A value is printed with every item of an array and every field of an object on a row of its own,
indented by two spaces for each level. Empty arrays and objects stay on one row.
-/

namespace TemplateEditing

namespace StringUnit

/-- Four hexadecimal digits. -/
def hex4 (n : Nat) : Text :=
  let digits := Nat.toDigits 16 n
  List.replicate (4 - digits.length) '0' ++ digits

/-- A part of a string as it is printed. Only quotes, backslashes and control characters are
escaped. -/
def print : StringUnit → Text
  | .code n => '\\' :: 'u' :: hex4 n
  | .char '"' => ['\\', '"']
  | .char '\\' => ['\\', '\\']
  | .char '\x08' => ['\\', 'b']
  | .char '\x0c' => ['\\', 'f']
  | .char '\n' => ['\\', 'n']
  | .char '\r' => ['\\', 'r']
  | .char '\t' => ['\\', 't']
  | .char c => if c.toNat < 0x20 then '\\' :: 'u' :: hex4 c.toNat else [c]

/-- A string in its quotes. -/
def printAll (units : List StringUnit) : Text := '"' :: units.flatMap print ++ ['"']

end StringUnit

namespace JsonSyntax

/-! ## Values to print -/

/-- A text as a string. -/
def ofText (t : Text) : JsonSyntax := .string (t.map .char)

/-- The string of some characters. -/
def ofString (s : String) : JsonSyntax := ofText s.toList

/-- A whole number. -/
def ofNat (n : Nat) : JsonSyntax := .number (Nat.toDigits 10 n)

/-- An object with the fields in the given order. -/
def record (fields : List (String × JsonSyntax)) : JsonSyntax :=
  .object (fields.map fun (key, value) => (key.toList.map .char, value))

/-- A value that may be missing. -/
def ofOption {α : Type} (f : α → JsonSyntax) : Option α → JsonSyntax
  | some a => f a
  | none => .null

/-- The digits of a decimal, written out with a point if the point falls into the first sixteen
places or at most five places before them, and with a power of ten otherwise. -/
def decimalText (d : Decimal) : Text :=
  let digits := Nat.toDigits 10 d.digits
  let point := digits.length + d.exponent
  if 0 ≤ d.exponent ∧ point ≤ 16 then
    digits ++ List.replicate d.exponent.toNat '0' ++ ".0".toList
  else if 0 < point ∧ point ≤ 16 then
    digits.take point.toNat ++ '.' :: digits.drop point.toNat
  else if -5 < point ∧ point ≤ 0 then
    "0.".toList ++ List.replicate (-point).toNat '0' ++ digits
  else
    let power := 'e' :: (if point - 1 < 0 then ['-'] else []) ++ Nat.toDigits 10 (point - 1).natAbs
    match digits with
    | [digit] => digit :: power
    | first :: rest => first :: '.' :: rest ++ power
    | [] => power

/-- A double, with the fewest digits that are read back as the same double. What is no number is
printed as `null`. -/
def ofFloat (x : Float) : JsonSyntax :=
  if x.isNaN || x.isInf then .null
  else
    let bits := x.toBits.toNat
    let sign := if bits < Nat.pow 2 63 then [] else ['-']
    let b := Binary.ofBits bits
    .number (sign ++ if b.mantissa = 0 then "0.0".toList else decimalText b.shortest)

/-! ## The printed text -/

/-- The start of a row at a level. -/
def rowStart (level : Nat) : Text := '\n' :: List.replicate (2 * level) ' '

mutual

/-- A value as it is printed at a level. -/
def print (level : Nat) : JsonSyntax → Text
  | .null => "null".toList
  | .bool true => "true".toList
  | .bool false => "false".toList
  | .number literal => literal
  | .string units => StringUnit.printAll units
  | .array [] => "[]".toList
  | .array (item :: rest) =>
    '[' :: rowStart (level + 1) ++ print (level + 1) item ++ printItems (level + 1) rest ++
      rowStart level ++ [']']
  | .object [] => ['\x7b', '\x7d']
  | .object ((key, value) :: rest) =>
    '\x7b' :: rowStart (level + 1) ++ StringUnit.printAll key ++ ": ".toList ++
      print (level + 1) value ++ printFields (level + 1) rest ++ rowStart level ++ ['\x7d']

/-- The items behind the first one. -/
def printItems (level : Nat) : List JsonSyntax → Text
  | [] => []
  | item :: rest => ',' :: rowStart level ++ print level item ++ printItems level rest

/-- The fields behind the first one. -/
def printFields (level : Nat) : List (List StringUnit × JsonSyntax) → Text
  | [] => []
  | (key, value) :: rest =>
    ',' :: rowStart level ++ StringUnit.printAll key ++ ": ".toList ++ print level value ++
      printFields level rest

end

end JsonSyntax

end TemplateEditing
