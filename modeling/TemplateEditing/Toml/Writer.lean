import TemplateEditing.Text.Rows

/-!
# Writing TOML

Strings and lists of strings as they are written in a TOML document. A string is written in the
first of four forms that can hold it as it is: in double quotes, in single quotes, in three double
quotes, in three single quotes. If none can, characters are escaped.
-/

namespace TemplateEditing

namespace Toml

/-- The length of the longest run of a character. -/
def longestRun (c : Char) (t : Text) : Nat :=
  (t.foldl (fun (longest, run) d =>
    let run := if d == c then run + 1 else 0
    (max longest run, run)) (0, 0)).1

/-- A control character that no string can hold as it is. -/
def needsEscape (c : Char) : Bool :=
  (c.toNat < 0x20 && c != '\t' && c != '\n') || c.toNat == 0x7F

/-- A number in hexadecimal with at least four digits. -/
def hexCode (n : Nat) : Text :=
  let digits := (Nat.toDigits 16 n).map Char.toUpper
  List.replicate (4 - digits.length) '0' ++ digits

/-- A character in double quotes, `run` saying how many quotes stand before it. -/
def escaped (multi : Bool) (run : Nat) (c : Char) : Text :=
  match c with
  | '\x08' => ['\\', 'b']
  | '\t' => ['\\', 't']
  | '\n' => if multi then ['\n'] else ['\\', 'n']
  | '\x0c' => ['\\', 'f']
  | '\r' => ['\\', 'r']
  | '\\' => ['\\', '\\']
  | '"' => if (if multi then 2 else 0) ≤ run then ['\\', '"'] else ['"']
  | c => if needsEscape c then '\\' :: 'u' :: hexCode c.toNat else [c]

/-- The text between double quotes that stands for a string, `run` counting the quotes just
written as they are. -/
def escapedFrom (multi : Bool) (run : Nat) : Text → Text
  | [] => []
  | c :: rest =>
    let out := escaped multi run c
    out ++ escapedFrom multi (if c == '"' && out == ['"'] then run + 1 else 0) rest

/-- A string as it is written. -/
def writeString (t : Text) : Text :=
  let newline := t.contains '\n'
  let control := t.any needsEscape
  let backslash := t.contains '\\'
  let doubles := longestRun '"' t
  let singles := longestRun '\'' t
  let lead : Text := if newline then ['\n'] else []
  let inDouble : Text := '"' :: escapedFrom false 0 t ++ ['"']
  let inTripleDouble : Text := "\"\"\"".toList ++ lead ++ escapedFrom true 0 t ++ "\"\"\"".toList
  if !control && !backslash && doubles = 0 && !newline then inDouble
  else if !control && singles = 0 && !newline then '\'' :: t ++ ['\'']
  else if !control && !backslash && doubles ≤ 2 then inTripleDouble
  else if !control && singles ≤ 2 then "'''".toList ++ lead ++ t ++ "'''".toList
  else if newline then inTripleDouble
  else inDouble

/-- A list of strings as it is written: in one row, or, from two on, each in a row of its own. -/
def writeStrings (ts : List Text) : Text :=
  match ts with
  | [] => "[]".toList
  | [t] => '[' :: writeString t ++ [']']
  | ts =>
    '[' :: '\n' :: (ts.flatMap fun t => "    ".toList ++ writeString t ++ ",\n".toList) ++ [']']

/-- A truth value as it is written. -/
def writeBool (b : Bool) : Text := if b then "true".toList else "false".toList

/-- An assignment as it is written. -/
def writeField (key : String) (value : Text) : Text := key.toList ++ " = ".toList ++ value ++ ['\n']

/-- A table as it is written. -/
def writeTable (name : String) (fields : List Text) : Text :=
  '[' :: name.toList ++ "]\n".toList ++ fields.flatten

end Toml

end TemplateEditing
