import TemplateEditing.Toml.Scalar

/-!
# Reading TOML

A TOML text is a list of statements: headers, which open a table, and assignments to keys in the
table opened last. Reading first finds the statements and then carries them out. What reads a part
of a text gives that part's meaning and the rest of the text.
-/

namespace TemplateEditing

namespace Toml

/-! ## Blanks -/

/-- A blank within a row. -/
def isSpace (c : Char) : Bool := c == ' ' || c == '\t'

/-- The text without the blanks in front. -/
def skipSpaces (t : Text) : Text := t.dropWhile isSpace

/-- A character that may stand in a comment or a string as it is. -/
def isPlain (c : Char) : Bool := c == '\t' || (0x20 ≤ c.toNat && c.toNat != 0x7F)

/-- The text without the blanks, comments and row breaks in front. -/
def skipRows (inComment : Bool) : Text → Option Text
  | [] => some []
  | '\n' :: rest => skipRows false rest
  | '\r' :: '\n' :: rest => skipRows false rest
  | c :: rest =>
    if inComment then if isPlain c then skipRows true rest else none
    else if isSpace c then skipRows false rest
    else if c == '#' then skipRows true rest
    else some (c :: rest)

/-- Nothing but a comment follows in the row. -/
def endsRow (t : Text) : Bool :=
  match skipSpaces t with
  | [] => true
  | '\r' :: '\n' :: _ => true
  | c :: _ => c == '\n' || c == '#'

/-! ## Strings -/

/-- A character by its number; surrogates are none. -/
def scalar? (digits : Text) : Option Char :=
  (JsonSyntax.hexNumber? digits).bind fun n => if n.isValidChar then some (Char.ofNat n) else none

/-- The character that a letter behind a backslash stands for. -/
def escape? : Char → Option Char
  | 'b' => some '\x08'
  | 't' => some '\t'
  | 'n' => some '\n'
  | 'f' => some '\x0c'
  | 'r' => some '\r'
  | '"' => some '"'
  | '\\' => some '\\'
  | _ => none

private def prepend (c : Char) (r : Option (Text × Text)) : Option (Text × Text) :=
  r.map fun (t, rest) => (c :: t, rest)

/-- The rest of a string with escapes that stands in one row. -/
def basic : Text → Option (Text × Text)
  | [] => none
  | '"' :: rest => some ([], rest)
  | '\\' :: 'u' :: a :: b :: c :: d :: rest => (scalar? [a, b, c, d]).bind (prepend · (basic rest))
  | '\\' :: 'U' :: a :: b :: c :: d :: e :: f :: g :: h :: rest =>
    (scalar? [a, b, c, d, e, f, g, h]).bind (prepend · (basic rest))
  | '\\' :: c :: rest => (escape? c).bind (prepend · (basic rest))
  | c :: rest => if isPlain c then prepend c (basic rest) else none

/-- The rest of a string without escapes that stands in one row. -/
def literal : Text → Option (Text × Text)
  | [] => none
  | '\'' :: rest => some ([], rest)
  | c :: rest => if isPlain c then prepend c (literal rest) else none

/-- The end of a string over several rows: three quotes, and up to two more that belong to it. -/
def tripleEnd? (quote : Char) (t : Text) : Option (Text × Text) :=
  let quotes := t.takeWhile (· == quote)
  if quotes.length < 3 then none
  else
    let own := min (quotes.length - 3) 2
    some (quotes.take own, t.drop (own + 3))

/-- A backslash before the end of a row: the text without all blanks and row breaks behind it. -/
def continuation? (t : Text) : Option Text :=
  let rest := skipSpaces t
  match rest with
  | '\n' :: _ => some (rest.dropWhile fun c => isSpace c || c == '\n' || c == '\r')
  | '\r' :: '\n' :: _ => some (rest.dropWhile fun c => isSpace c || c == '\n' || c == '\r')
  | _ => none

/-- The rest of a string with escapes over several rows. -/
def multiBasic (fuel : Nat) (t : Text) : Option (Text × Text) :=
  match fuel with
  | 0 => none
  | fuel + 1 =>
    match tripleEnd? '"' t with
    | some found => some found
    | none =>
      match t with
      | [] => none
      | '\\' :: 'u' :: a :: b :: c :: d :: rest =>
        (scalar? [a, b, c, d]).bind (prepend · (multiBasic fuel rest))
      | '\\' :: 'U' :: a :: b :: c :: d :: e :: f :: g :: h :: rest =>
        (scalar? [a, b, c, d, e, f, g, h]).bind (prepend · (multiBasic fuel rest))
      | '\\' :: rest =>
        match continuation? rest with
        | some rest => multiBasic fuel rest
        | none =>
          match rest with
          | c :: rest => (escape? c).bind (prepend · (multiBasic fuel rest))
          | [] => none
      | '\r' :: '\n' :: rest => prepend '\n' (multiBasic fuel rest)
      | c :: rest =>
        if isPlain c || c == '\n' then prepend c (multiBasic fuel rest) else none

/-- The rest of a string without escapes over several rows. -/
def multiLiteral (t : Text) : Option (Text × Text) :=
  match tripleEnd? '\'' t with
  | some found => some found
  | none =>
    match t with
    | [] => none
    | '\r' :: '\n' :: rest => prepend '\n' (multiLiteral rest)
    | c :: rest => if isPlain c || c == '\n' then prepend c (multiLiteral rest) else none

/-- The text without a row break in front. -/
def cutBreak : Text → Text
  | '\n' :: rest => rest
  | '\r' :: '\n' :: rest => rest
  | t => t

/-- A string in one row. -/
def string : Text → Option (Text × Text)
  | '"' :: rest => basic rest
  | '\'' :: rest => literal rest
  | _ => none

/-! ## Keys -/

/-- A character of a key without quotes. -/
def isKeyChar (c : Char) : Bool := c.isAlphanum || c == '_' || c == '-'

/-- One part of a key. -/
def keyPart (t : Text) : Option (String × Text) :=
  let bare := t.takeWhile isKeyChar
  if bare.isEmpty then (string t).map fun (s, rest) => (String.ofList s, rest)
  else some (String.ofList bare, t.drop bare.length)

/-- How many parts a key may have, and how deeply arrays and tables in braces may be nested. -/
def maxDepth : Nat := 79

/-- The parts of a key, which are separated by dots. The last part comes extra. -/
def keyParts (fuel : Nat) (t : Text) : Option ((List String × String) × Text) :=
  match fuel with
  | 0 => none
  | fuel + 1 => do
    let (part, rest) ← keyPart (skipSpaces t)
    match skipSpaces rest with
    | '.' :: more =>
      let ((path, last), rest) ← keyParts fuel more
      some ((part :: path, last), rest)
    | rest => some (([], part), rest)

/-- A key. -/
def key (t : Text) : Option ((List String × String) × Text) :=
  (keyParts (t.length + 1) t).filter fun ((path, _), _) => path.length < maxDepth

/-! ## Values -/

mutual

/-- A value, at a place with room for `room` more levels of arrays and tables. -/
def value (fuel room : Nat) (t : Text) : Option (TomlValue × Text) :=
  match fuel with
  | 0 => none
  | fuel + 1 =>
    let quoted (r : Option (Text × Text)) : Option (TomlValue × Text) :=
      r.map fun (s, rest) => (.string (String.ofList s), rest)
    match t with
    | '"' :: '"' :: '"' :: rest => quoted (multiBasic (rest.length + 1) (cutBreak rest))
    | '\'' :: '\'' :: '\'' :: rest => quoted (multiLiteral (cutBreak rest))
    | '"' :: rest => quoted (basic rest)
    | '\'' :: rest => quoted (literal rest)
    | '[' :: rest => if room = 0 then none else items fuel (room - 1) [] rest
    | '\x7b' :: rest =>
      if room = 0 then none
      else
        match skipSpaces rest with
        | '\x7d' :: rest => some (.table .inline [], rest)
        | rest => fields fuel (room - 1) [] rest
    | _ =>
      let (word, rest) := TomlWord.cut t
      (TomlWord.value? word).map (·, rest)

/-- The rest of an array, given the items before, the last one first. -/
def items (fuel room : Nat) (before : List TomlValue) (t : Text) : Option (TomlValue × Text) :=
  match fuel with
  | 0 => none
  | fuel + 1 => do
    match ← skipRows false t with
    | ']' :: rest => some (.array before.reverse, rest)
    | t =>
      let (item, rest) ← value fuel room t
      match ← skipRows false rest with
      | ',' :: rest => items fuel room (item :: before) rest
      | ']' :: rest => some (.array (item :: before).reverse, rest)
      | _ => none

/-- The rest of a table in braces, given the fields before. -/
def fields (fuel room : Nat) (before : TomlFields) (t : Text) : Option (TomlValue × Text) :=
  match fuel with
  | 0 => none
  | fuel + 1 => do
    let ((path, last), rest) ← key t
    match rest with
    | '=' :: rest =>
      let (item, rest) ← value fuel room (skipSpaces rest)
      let all ← before.assign .inline path last item
      match skipSpaces rest with
      | ',' :: rest => fields fuel room all rest
      | '\x7d' :: rest => some (.table .inline all, rest)
      | _ => none
    | _ => none

end

/-! ## Documents -/

/-- A statement of a document. -/
inductive Statement where
  | header (path : List String) (last : String)
  /-- A header in double brackets. -/
  | item (path : List String) (last : String)
  | assign (path : List String) (last : String) (value : TomlValue)
deriving Repr, Inhabited

/-- One statement. -/
def statement (t : Text) : Option (Statement × Text) :=
  match t with
  | '[' :: '[' :: rest => do
    match ← key rest with
    | ((path, last), ']' :: ']' :: rest) => some (.item path last, rest)
    | _ => none
  | '[' :: rest => do
    match ← key rest with
    | ((path, last), ']' :: rest) => some (.header path last, rest)
    | _ => none
  | _ => do
    match ← key t with
    | ((path, last), '=' :: rest) =>
      let (v, rest) ← value (2 * rest.length + 2) maxDepth (skipSpaces rest)
      some (.assign path last v, rest)
    | _ => none

/-- The statements of a text, each in rows of its own. -/
def statements? (fuel : Nat) (t : Text) : Option (List Statement) :=
  match fuel with
  | 0 => none
  | fuel + 1 => do
    match ← skipRows false t with
    | [] => some []
    | t =>
      let (s, rest) ← statement t
      if endsRow rest then (statements? fuel rest).map (s :: ·) else none

/-- A document that is being built, and the table that assignments go to. -/
structure Draft where
  fields : TomlFields := []
  current : List String := []

/-- Carries out a statement. -/
def Draft.step (d : Draft) : Statement → Option Draft
  | .header path last => (d.fields.openTable path last).map (⟨·, path ++ [last]⟩)
  | .item path last => (d.fields.openItem path last).map (⟨·, path ++ [last]⟩)
  | .assign path last value =>
    (d.fields.modifyAt false (fun _ fields => fields.assign .header path last value) d.current
      .header).map (⟨·, d.current⟩)

/-- The document that a text describes. A byte order mark in front does not count. -/
def parse? (t : Text) : Option TomlFields := do
  let t := if t.head? == some '\ufeff' then t.drop 1 else t
  let statements ← statements? (t.length + 1) t
  let d ← statements.foldlM Draft.step {}
  some d.fields

end Toml

end TemplateEditing
