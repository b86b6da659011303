import TemplateEditing.Text.Rows

/-!
# JSON as written

A JSON text is first cut into tokens and then built up, token by token, with the arrays and objects
that are still open on a stack. The result keeps what was written: numbers as their digits, strings
with the code units of their escapes, objects with all fields in order. What these stand for is
decided later, so that parts nobody looks at need only be well formed.
-/

namespace TemplateEditing

/-- A part of a JSON string: a character, or a code unit that was escaped by its number. -/
inductive StringUnit where
  | char (c : Char)
  | code (n : Nat)
deriving DecidableEq, Repr, Inhabited

/-- A JSON value as written. -/
inductive JsonSyntax where
  | null
  | bool (b : Bool)
  | number (literal : Text)
  | string (units : List StringUnit)
  | array (items : List JsonSyntax)
  | object (fields : List (List StringUnit × JsonSyntax))
deriving Repr, Inhabited

namespace JsonSyntax

/-! ## Tokens -/

/-- A token of a JSON text. -/
inductive Token where
  | openArray
  | closeArray
  | openObject
  | closeObject
  | comma
  | colon
  | string (units : List StringUnit)
  /-- A value that is a word: `null`, a truth value or a number. -/
  | word (value : JsonSyntax)

/-- The characters that may stand between tokens. -/
def isSpace (c : Char) : Bool := c == ' ' || c == '\t' || c == '\n' || c == '\r'

/-- The token that a character is by itself. -/
def punctuation? : Char → Option Token
  | '[' => some .openArray
  | ']' => some .closeArray
  | '\x7b' => some .openObject
  | '\x7d' => some .closeObject
  | ',' => some .comma
  | ':' => some .colon
  | _ => none

/-- The value of a hexadecimal digit. -/
def hexDigit? (c : Char) : Option Nat :=
  if c.isDigit then some (c.toNat - '0'.toNat)
  else if 'a' ≤ c ∧ c ≤ 'f' then some (c.toNat - 'a'.toNat + 10)
  else if 'A' ≤ c ∧ c ≤ 'F' then some (c.toNat - 'A'.toNat + 10)
  else none

/-- The number that hexadecimal digits stand for. -/
def hexNumber? (digits : List Char) : Option Nat :=
  digits.foldlM (fun n c => (hexDigit? c).map (n * 16 + ·)) 0

/-- The character that a letter behind a backslash stands for. -/
def escape? : Char → Option Char
  | '"' => some '"'
  | '\\' => some '\\'
  | '/' => some '/'
  | 'b' => some '\x08'
  | 'f' => some '\x0c'
  | 'n' => some '\n'
  | 'r' => some '\r'
  | 't' => some '\t'
  | _ => none

/-- The rest of a string up to the quote that ends it, and what stands behind that. -/
def stringUnits? : Text → Option (List StringUnit × Text)
  | [] => none
  | '"' :: rest => some ([], rest)
  | '\\' :: 'u' :: a :: b :: c :: d :: rest => do
    let n ← hexNumber? [a, b, c, d]
    let (units, rest) ← stringUnits? rest
    some (.code n :: units, rest)
  | '\\' :: e :: rest => do
    let c ← escape? e
    let (units, rest) ← stringUnits? rest
    some (.char c :: units, rest)
  | c :: rest =>
    if c.toNat < 0x20 then none
    else do
      let (units, rest) ← stringUnits? rest
      some (.char c :: units, rest)

/-- What stands behind a string is shorter. -/
theorem stringUnits?_length {t rest : Text} {units : List StringUnit}
    (h : stringUnits? t = some (units, rest)) : rest.length < t.length := by
  fun_induction stringUnits? t generalizing units with
  | case1 => cases h
  | case2 r => cases h; simp
  | case3 a b c d r ih =>
    simp only [Option.bind_eq_bind, Option.bind_eq_some_iff] at h
    obtain ⟨n, _, ⟨us, r'⟩, hr, he⟩ := h
    cases he
    have : r'.length < r.length := ih hr
    simp only [List.length_cons]
    omega
  | case4 e r _ ih =>
    simp only [Option.bind_eq_bind, Option.bind_eq_some_iff] at h
    obtain ⟨n, _, ⟨us, r'⟩, hr, he⟩ := h
    cases he
    have : r'.length < r.length := ih hr
    simp only [List.length_cons]
    omega
  | case5 => cases h
  | case6 c r _ _ _ _ ih =>
    simp only [Option.bind_eq_bind, Option.bind_eq_some_iff] at h
    obtain ⟨⟨us, r'⟩, hr, he⟩ := h
    cases he
    have : r'.length < r.length := ih hr
    simp only [List.length_cons]
    omega

/-- Drops a run of digits, which must not be empty. -/
def dropDigits? (t : Text) : Option Text :=
  match t with
  | c :: rest => if c.isDigit then some (rest.dropWhile Char.isDigit) else none
  | [] => none

/-- The text is a number: a sign, an integer without zeros in front, a fraction and an exponent, of
which only the integer has to be there. -/
def isNumber (t : Text) : Bool :=
  let t := if t.head? == some '-' then t.drop 1 else t
  let afterInteger := if t.head? == some '0' then some (t.drop 1) else dropDigits? t
  let afterFraction := afterInteger.bind fun t =>
    if t.head? == some '.' then dropDigits? (t.drop 1) else some t
  let afterExponent := afterFraction.bind fun t =>
    if t.head? == some 'e' || t.head? == some 'E' then
      let t := t.drop 1
      dropDigits? (if t.head? == some '+' || t.head? == some '-' then t.drop 1 else t)
    else some t
  afterExponent == some []

/-- A character of a word. -/
def isWordChar (c : Char) : Bool := c.isAlphanum || c == '+' || c == '-' || c == '.'

/-- The value that a word is. -/
def wordValue? (w : Text) : Option JsonSyntax :=
  if w == "null".toList then some .null
  else if w == "true".toList then some (.bool true)
  else if w == "false".toList then some (.bool false)
  else if isNumber w then some (.number w)
  else none

/-- The tokens of a text. -/
def tokens? (t : Text) : Option (List Token) :=
  match t with
  | [] => some []
  | c :: rest =>
    if isSpace c then tokens? rest
    else
      match punctuation? c with
      | some token => (tokens? rest).map (token :: ·)
      | none =>
        if c == '"' then
          match h : stringUnits? rest with
          | none => none
          | some (units, after) =>
            have := stringUnits?_length h
            (tokens? after).map (.string units :: ·)
        else
          match wordValue? (c :: rest.takeWhile isWordChar) with
          | none => none
          | some value =>
            have := (List.dropWhile_suffix isWordChar (l := rest)).length_le
            (tokens? (rest.dropWhile isWordChar)).map (.word value :: ·)
termination_by t.length
decreasing_by all_goals simp only [List.length_cons]; omega

/-! ## Values -/

/-- An array or object that is still open, its last part first. -/
inductive Frame where
  | array (items : List JsonSyntax)
  /-- An object, and the key whose value has not been read. -/
  | object (fields : List (List StringUnit × JsonSyntax)) (key : Option (List StringUnit))

/-- What may come next. -/
inductive Expectation where
  | value
  /-- A value, or the end of an array that is empty so far. -/
  | valueOrEnd
  | key
  /-- A key, or the end of an object that is empty so far. -/
  | keyOrEnd
  | colon
  | commaOrEnd
  /-- Nothing; the whole value has been read. -/
  | nothing (value : JsonSyntax)

/-- What has been read of a value. -/
structure Draft where
  stack : List Frame := []
  expects : Expectation := .value

namespace Draft

/-- Puts a value that is complete where it belongs. -/
def complete (value : JsonSyntax) : List Frame → Option Draft
  | [] => some ⟨[], .nothing value⟩
  | .array items :: rest => some ⟨.array (value :: items) :: rest, .commaOrEnd⟩
  | .object fields (some key) :: rest =>
    some ⟨.object ((key, value) :: fields) none :: rest, .commaOrEnd⟩
  | .object _ none :: _ => none

/-- Closes the innermost array or object. -/
def close (d : Draft) (token : Token) : Option Draft :=
  match token, d.stack with
  | .closeArray, .array items :: rest => complete (.array items.reverse) rest
  | .closeObject, .object fields none :: rest => complete (.object fields.reverse) rest
  | _, _ => none

/-- Begins or completes a value. -/
def value (d : Draft) (token : Token) : Option Draft :=
  match token with
  | .openArray => some ⟨.array [] :: d.stack, .valueOrEnd⟩
  | .openObject => some ⟨.object [] none :: d.stack, .keyOrEnd⟩
  | .string units => complete (.string units) d.stack
  | .word value => complete value d.stack
  | _ => none

/-- Reads a key. -/
def key (d : Draft) (token : Token) : Option Draft :=
  match token, d.stack with
  | .string units, .object fields none :: rest =>
    some ⟨.object fields (some units) :: rest, .colon⟩
  | _, _ => none

/-- Reads one token. -/
def step (d : Draft) (token : Token) : Option Draft :=
  match d.expects with
  | .value => d.value token
  | .valueOrEnd => (d.value token).or (d.close token)
  | .key => d.key token
  | .keyOrEnd => (d.key token).or (d.close token)
  | .colon =>
    match token with
    | .colon => some { d with expects := .value }
    | _ => none
  | .commaOrEnd =>
    match token, d.stack with
    | .comma, .array _ :: _ => some { d with expects := .value }
    | .comma, .object _ _ :: _ => some { d with expects := .key }
    | _, _ => d.close token
  | .nothing _ => none

end Draft

/-- The value that a text describes. -/
def parse? (t : Text) : Option JsonSyntax := do
  let d ← (← tokens? t).foldlM Draft.step {}
  match d.expects with
  | .nothing value => some value
  | _ => none

end JsonSyntax

namespace StringUnit

/-- The character that two code units of a pair of surrogates stand for. -/
def pair (high low : Nat) : Char := Char.ofNat (0x10000 + (high - 0xD800) * 0x400 + (low - 0xDC00))

/-- The text that the parts of a string stand for; none if a surrogate stands alone. -/
def decode? : List StringUnit → Option Text
  | [] => some []
  | .char c :: rest => (decode? rest).map (c :: ·)
  | .code n :: rest =>
    if n < 0xD800 ∨ 0xE000 ≤ n then (decode? rest).map (Char.ofNat n :: ·)
    else
      match rest with
      | .code m :: rest =>
        if n < 0xDC00 ∧ 0xDC00 ≤ m ∧ m < 0xE000 then (decode? rest).map (pair n m :: ·) else none
      | _ => none

end StringUnit

end TemplateEditing
