/-!
# Sets of characters

A set of characters is written as the list of its ranges of code points, both ends included, in
rising order. Long ones are read from rows of hexadecimal numbers, as in `41-5A 5F 61-7A`.
-/

namespace TemplateEditing

/-- A set of characters, as ranges of code points. -/
abbrev CharRanges := List (Nat × Nat)

namespace CharRanges

/-- The character lies in one of the ranges. -/
def has (ranges : CharRanges) (c : Char) : Bool :=
  ranges.any fun (first, last) => decide (first ≤ c.toNat) && decide (c.toNat ≤ last)

/-- The value of a hexadecimal digit. -/
def digitValue (c : Char) : Nat :=
  if c.isDigit then c.toNat - '0'.toNat else c.toNat - 'A'.toNat + 10

/-- Reads the ranges of a row, inside of a number that has a value so far, and behind the first
number of a range if there is one. -/
def readRow (first : Option Nat) (value : Nat) : List Char → CharRanges
  | [] => [(first.getD value, value)]
  | c :: rest =>
    if c = '-' then readRow (some value) 0 rest
    else if c = ' ' then (first.getD value, value) :: readRow none 0 rest
    else readRow first (16 * value + digitValue c) rest

/-- The ranges of rows. -/
def ofRows (rows : List String) : CharRanges := rows.flatMap fun row => readRow none 0 row.toList

example : ofRows ["30-39 5F", "10D4E"] = [(0x30, 0x39), (0x5F, 0x5F), (0x10D4E, 0x10D4E)] := by
  decide

end CharRanges

end TemplateEditing
