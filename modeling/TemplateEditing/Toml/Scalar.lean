import TemplateEditing.Json.Value
import TemplateEditing.Toml.Value

/-!
# TOML words

Values that are written as one word: truth values, integers in four bases, floating point numbers,
dates and times. Digits may be separated by single underscores.
-/

namespace TemplateEditing

namespace TomlWord

/-- The digits of a run in which single underscores separate digits. -/
def digits? (isDigit : Char → Bool) (t : Text) : Option Text :=
  match t with
  | [] => none
  | c :: rest => if isDigit c then (more rest).map (c :: ·) else none
where
  /-- The digits behind a digit. -/
  more : Text → Option Text
    | [] => some []
    | '_' :: c :: rest => if isDigit c then (more rest).map (c :: ·) else none
    | c :: rest => if isDigit c then (more rest).map (c :: ·) else none

/-- Cuts the sign off. -/
def cutSign : Text → Bool × Text
  | '-' :: rest => (true, rest)
  | '+' :: rest => (false, rest)
  | t => (false, t)

/-- Decimal digits without a zero in front. -/
def wholeDigits? (t : Text) : Option Text :=
  (digits? Char.isDigit t).filter fun ds => ds.length = 1 || ds.head? != some '0'

/-- The least integer there is not. -/
def integerLimit : Nat := Nat.pow 2 63

/-- The number that digits stand for in a base. -/
def digitsToNat (base : Nat) (ds : Text) : Nat :=
  ds.foldl (fun n c => n * base + ((JsonSyntax.hexDigit? c).getD 0)) 0

/-- An integer with a sign and decimal digits, or one in another base without a sign. -/
def integer? (t : Text) : Option Int :=
  let based (base : Nat) (rest : Text) : Option Int :=
    (digits? (fun c => (JsonSyntax.hexDigit? c).any (· < base)) rest).bind fun ds =>
      let n := digitsToNat base ds
      if n < integerLimit then some n else none
  match t with
  | '0' :: 'x' :: rest => based 16 rest
  | '0' :: 'o' :: rest => based 8 rest
  | '0' :: 'b' :: rest => based 2 rest
  | _ =>
    let (negative, rest) := cutSign t
    (wholeDigits? rest).bind fun ds =>
      let n := digitsToNat 10 ds
      if negative then if n ≤ integerLimit then some (-(n : Int)) else none
      else if n < integerLimit then some n
      else none

/-- A floating point number: an integer with a fraction or an exponent or both, or a special
value. -/
def isFloat (t : Text) : Bool :=
  let (negative, rest) := cutSign t
  if rest == "inf".toList || rest == "nan".toList then true
  else
    let whole := rest.takeWhile fun c => c.isDigit || c == '_'
    let afterWhole := rest.drop whole.length
    let fraction : Option Text := match afterWhole with
      | '.' :: more => some (more.takeWhile fun c => c.isDigit || c == '_')
      | _ => none
    let afterFraction := match fraction with
      | some ds => afterWhole.drop (ds.length + 1)
      | none => afterWhole
    let exponent : Option Text := match afterFraction with
      | 'e' :: more | 'E' :: more => some more
      | _ => none
    let wholeGood := (wholeDigits? whole).isSome
    let fractionGood := fraction.all fun ds => (digits? Char.isDigit ds).isSome
    let exponentGood := match exponent with
      | some ds => (digits? Char.isDigit (cutSign ds).2).isSome
      | none => afterFraction.isEmpty
    wholeGood && fractionGood && exponentGood && (fraction.isSome || exponent.isSome) &&
      (negative || JsonValue.isFinite (rest.filter (· != '_')))

/-! ## Dates -/

/-- A number of exactly `n` digits at the front. -/
def fixed? (n : Nat) (t : Text) : Option (Nat × Text) :=
  let ds := t.take n
  if ds.length = n ∧ ds.all Char.isDigit then some (digitsToNat 10 ds, t.drop n) else none

/-- A character at the front. -/
def char? (p : Char → Bool) : Text → Option Text
  | c :: rest => if p c then some rest else none
  | [] => none

/-- The number of days of a month. -/
def daysIn (year month : Nat) : Nat :=
  if month = 2 then
    if year % 4 = 0 ∧ (year % 100 ≠ 0 ∨ year % 400 = 0) then 29 else 28
  else if month = 4 ∨ month = 6 ∨ month = 9 ∨ month = 11 then 30
  else 31

/-- Cuts off a date. -/
def cutDate? (t : Text) : Option Text := do
  let (year, t) ← fixed? 4 t
  let (month, t) ← fixed? 2 (← char? (· == '-') t)
  let (day, t) ← fixed? 2 (← char? (· == '-') t)
  if 1 ≤ month ∧ month ≤ 12 ∧ 1 ≤ day ∧ day ≤ daysIn year month then some t else none

/-- Cuts off a time of day, with a fraction of a second if there is one. -/
def cutTime? (t : Text) : Option Text := do
  let (hour, t) ← fixed? 2 t
  let (minute, t) ← fixed? 2 (← char? (· == ':') t)
  let (second, t) ← fixed? 2 (← char? (· == ':') t)
  if hour ≤ 23 ∧ minute ≤ 59 ∧ second ≤ 60 then
    match t with
    | '.' :: rest => (char? Char.isDigit rest).map (·.dropWhile Char.isDigit)
    | _ => some t
  else none

/-- Cuts off the distance from universal time, if there is one. -/
def cutOffset? (t : Text) : Option Text :=
  match t with
  | 'Z' :: rest | 'z' :: rest => some rest
  | '+' :: rest | '-' :: rest => do
    let (hour, t) ← fixed? 2 rest
    let (minute, t) ← fixed? 2 (← char? (· == ':') t)
    if hour ≤ 23 ∧ minute ≤ 59 then some t else none
  | _ => some t

/-- A date, a time, or a date and a time with or without the distance from universal time. -/
def isDate (t : Text) : Bool :=
  let afterDate := cutDate? t
  let moment := do
    let t ← char? (fun c => c == 'T' || c == 't' || c == ' ') (← afterDate)
    cutOffset? (← cutTime? t)
  afterDate == some [] || cutTime? t == some [] || moment == some []

/-! ## Words -/

/-- The value that a word is. -/
def value? (w : Text) : Option TomlValue :=
  if w == "true".toList then some (.boolean true)
  else if w == "false".toList then some (.boolean false)
  else
    match integer? w with
    | some i => some (.integer i)
    | none =>
      if isFloat w then some (.float w) else if isDate w then some (.date w) else none

/-- A character of a word. -/
def isChar (c : Char) : Bool :=
  c.isAlphanum || c == '_' || c == '+' || c == '-' || c == '.' || c == ':'

/-- Cuts a word off, and with a date the time that a space separates from it. -/
def cut (t : Text) : Text × Text :=
  let w := t.takeWhile isChar
  let rest := t.drop w.length
  match rest with
  | ' ' :: more =>
    if cutDate? w == some [] && (cutTime? (more.takeWhile isChar)).isSome then
      let time := more.takeWhile isChar
      (w ++ ' ' :: time, more.drop time.length)
    else (w, rest)
  | _ => (w, rest)

end TomlWord

end TemplateEditing
