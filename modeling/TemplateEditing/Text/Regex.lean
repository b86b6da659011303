import TemplateEditing.Text.WordChar
import TemplateEditing.Text.Blank

/-!
# Regular expressions

Regular expressions over characters, with anchors for the two ends of the text and for the edges of
words. They are matched by derivatives: the derivative by a character matches what may follow that
character. Here only the place of the first match is of interest, not how far it reaches.
-/

namespace TemplateEditing

/-- A regular expression. -/
inductive Regex where
  /-- Matches nothing at all. -/
  | never
  /-- Matches the empty text. -/
  | empty
  /-- Matches the empty text at the start of the whole text. -/
  | textStart
  /-- Matches the empty text at the end of the whole text. -/
  | textEnd
  /-- Matches the empty text where a word begins or ends, or else everywhere but there. -/
  | wordEdge (here : Bool)
  /-- Matches one character. -/
  | one (p : Char → Bool)
  | seq (r s : Regex)
  | alt (r s : Regex)
  | star (r : Regex)

namespace Regex

/-- Matches the empty text between two characters, which are missing at the ends of the whole
text. -/
def nullable (before after : Option Char) : Regex → Bool
  | never | one _ => false
  | empty | star _ => true
  | textStart => before.isNone
  | textEnd => after.isNone
  | wordEdge here => (before.any Text.isWordChar != after.any Text.isWordChar) == here
  | seq r s => r.nullable before after && s.nullable before after
  | alt r s => r.nullable before after || s.nullable before after

/-- A sequence, simplified if a part can never match or is empty. -/
def andThen : Regex → Regex → Regex
  | never, _ => never
  | _, never => never
  | empty, s => s
  | r, s => seq r s

/-- A choice, simplified if one side can never match. -/
def or : Regex → Regex → Regex
  | never, s => s
  | r, never => r
  | r, s => alt r s

/-- What may follow a character that was met behind another one. -/
def derivative (before : Option Char) (c : Char) : Regex → Regex
  | never | empty | textStart | textEnd | wordEdge _ => never
  | one p => if p c then empty else never
  | seq r s =>
    let through := (r.derivative before c).andThen s
    if r.nullable before (some c) then through.or (s.derivative before c) else through
  | alt r s => (r.derivative before c).or (s.derivative before c)
  | star r => (r.derivative before c).andThen (star r)

/-- The expression can never match, as far as can be seen at once. -/
def isNever : Regex → Bool
  | never => true
  | _ => false

/-- Some front part of a text behind a character matches. -/
def matchesFront (r : Regex) (before : Option Char) : Text → Bool
  | [] => r.nullable before none
  | c :: rest =>
    !r.isNever &&
      (r.nullable before (some c) || (r.derivative before c).matchesFront (some c) rest)

/-- The offset of the first match in a text behind a character. -/
def findFrom (r : Regex) (before : Option Char) (t : Text) : Option Nat :=
  if r.matchesFront before t then some 0
  else
    match t with
    | [] => none
    | c :: rest => (r.findFrom (some c) rest).map (· + 1)

/-- The offset of the first match in a text. -/
def find? (r : Regex) (t : Text) : Option Nat := r.findFrom none t

/-- Matches `n` times in a row. -/
def times (r : Regex) : Nat → Regex
  | 0 => empty
  | n + 1 => r.andThen (r.times n)

/-- Matches at least `low` times in a row and, if there is a limit, at most `high` times. -/
def between (r : Regex) (low : Nat) : Option Nat → Regex
  | some high => (r.times low).andThen ((alt r empty).times (high - low))
  | none => (r.times low).andThen (star r)

/-! ## Reading -/

/-- A character of a written expression, and whether a backslash stands before it. -/
structure Sign where
  char : Char
  escaped : Bool
deriving DecidableEq, Repr, Inhabited

/-- The signs of a written expression; none if a backslash stands at the end. -/
def signs? : Text → Option (List Sign)
  | [] => some []
  | ['\\'] => none
  | '\\' :: c :: rest => (signs? rest).map (⟨c, true⟩ :: ·)
  | c :: rest => (signs? rest).map (⟨c, false⟩ :: ·)

/-- The class that a letter behind a backslash stands for. -/
def namedClass? : Char → Option (Char → Bool)
  | 's' => some Text.isBlank
  | 'S' => some (!Text.isBlank ·)
  | 'd' => some Text.isDecimalDigit
  | 'D' => some (!Text.isDecimalDigit ·)
  | 'w' => some Text.isWordChar
  | 'W' => some (!Text.isWordChar ·)
  | _ => none

/-- The anchor that a letter behind a backslash stands for. -/
def anchor? : Char → Option Regex
  | 'A' => some .textStart
  | 'z' => some .textEnd
  | 'b' => some (.wordEdge true)
  | 'B' => some (.wordEdge false)
  | _ => none

/-- The character that a character behind a backslash stands for. -/
def namedChar? (c : Char) : Option Char :=
  match c with
  | 'n' => some '\n'
  | 't' => some '\t'
  | 'r' => some '\r'
  | 'f' => some '\x0c'
  | 'v' => some '\x0b'
  | 'a' => some '\x07'
  | _ => if c.toNat < 0x80 && !c.isAlphanum && c != '<' && c != '>' then some c else none

/-- A bracketed class that is being read. -/
structure ClassDraft where
  negated : Bool := false
  /-- A member has been read. -/
  started : Bool := false
  members : Char → Bool := fun _ => false
  /-- The last member, if it may start a range. -/
  low : Option Char := none
  /-- The last member is a class, which cannot start a range. -/
  afterClass : Bool := false
  /-- A dash has been read behind the last member. -/
  dash : Bool := false

namespace ClassDraft

/-- The class with the pending member and dash included. -/
def settle (d : ClassDraft) : ClassDraft :=
  { d with
    members := fun c => d.members c || d.low == some c || (d.dash && c == '-')
    low := none
    afterClass := false
    dash := false
    started := true }

/-- Adds a character, which may end a range; none if the range is reversed or starts with a
class. -/
def addChar (d : ClassDraft) (c : Char) : Option ClassDraft :=
  match d.low with
  | some low =>
    if d.dash then
      if c < low then none
      else
        some { d with
          members := fun x => d.members x || (decide (low ≤ x) && decide (x ≤ c))
          low := none
          dash := false }
    else some { d.settle with low := some c }
  | none => if d.dash then none else some { d.settle with low := some c }

/-- Adds a class, which cannot end a range. -/
def addClass (d : ClassDraft) (p : Char → Bool) : Option ClassDraft :=
  if d.dash then none
  else
    let d := d.settle
    some { d with members := fun c => d.members c || p c, afterClass := true }

/-- The expression for one character of the class. -/
def finish (d : ClassDraft) : Regex :=
  let members := d.settle.members
  .one fun c => members c != d.negated

end ClassDraft

/-- What has been read of a choice: the sequences before the last bar, and the sequence behind it
up to its last part, to which a repetition mark would belong. -/
structure ChoiceDraft where
  choices : Regex := .never
  before : Regex := .empty
  last : Option Regex := none
  /-- The last part ends with a repetition mark. -/
  repeated : Bool := false

namespace ChoiceDraft

/-- The sequence behind the last bar. -/
def sequence (d : ChoiceDraft) : Regex :=
  match d.last with
  | none => d.before
  | some r => d.before.andThen r

/-- Adds a part to the sequence. -/
def add (d : ChoiceDraft) (r : Regex) : ChoiceDraft :=
  { d with before := d.sequence, last := some r, repeated := false }

/-- Begins the next sequence. -/
def bar (d : ChoiceDraft) : ChoiceDraft := { choices := d.choices.or d.sequence }

/-- Repeats the last part; none if there is no such part. -/
def repeatLast (d : ChoiceDraft) (f : Regex → Regex) : Option ChoiceDraft :=
  d.last.map fun r => { d with last := some (f r), repeated := true }

/-- The whole choice. -/
def finish (d : ChoiceDraft) : Regex := d.choices.or d.sequence

end ChoiceDraft

/-- What has been read of the front of a group. -/
inductive GroupFront where
  /-- Nothing is being read. -/
  | done
  /-- The parenthesis. -/
  | opened
  /-- The parenthesis and a question mark. -/
  | questioned
deriving DecidableEq, Repr, Inhabited

/-- The numbers of repetitions that are written between braces: one number, a number and a comma, or
two numbers with a comma between them. -/
def bounds? (t : Text) : Option (Nat × Option Nat) := do
  let number? (t : Text) : Option Nat :=
    if t.isEmpty || !t.all Char.isDigit || 4 < t.length then none
    else some (t.foldl (fun n c => n * 10 + (c.toNat - '0'.toNat)) 0)
  let low ← number? (t.takeWhile (· != ','))
  match t.dropWhile (· != ',') with
  | [] => some (low, some low)
  | [_] => some (low, none)
  | _ :: rest =>
    let high ← number? rest
    if high < low then none else some (low, some high)

/-- An expression that is being read: the innermost choice, those around it, and the class or the
numbers of repetitions that are open. -/
structure Draft where
  current : ChoiceDraft := {}
  around : List ChoiceDraft := []
  openClass : Option ClassDraft := none
  openBounds : Option Text := none
  group : GroupFront := .done

namespace Draft

private def inClass (d : Draft) (k : ClassDraft) (s : Sign) : Option Draft :=
  let go (k : Option ClassDraft) : Option Draft := k.map fun k => { d with openClass := some k }
  if s.escaped then
    match namedClass? s.char with
    | some p => go (k.addClass p)
    | none => go ((namedChar? s.char).bind k.addChar)
  else
    match s.char with
    | ']' =>
      if k.started then some { d with openClass := none, current := d.current.add k.finish }
      else go (k.addChar ']')
    | '^' =>
      if k.started || k.negated then go (k.addChar '^') else go (some { k with negated := true })
    | '-' =>
      if (k.low.isSome || k.afterClass) && !k.dash then go (some { k with dash := true })
      else go (k.addChar '-')
    | '[' => none
    | c => go (k.addChar c)

private def inBounds (d : Draft) (written : Text) (s : Sign) : Option Draft :=
  if s.escaped then none
  else if s.char == '\x7d' then
    (bounds? written).bind fun (low, high) =>
      (d.current.repeatLast (·.between low high)).map fun c =>
        { d with current := c, openBounds := none }
  else some { d with openBounds := some (written ++ [s.char]) }

/-- Reads a sign that has a backslash before it. -/
private def escapedSign (d : Draft) (c : Char) : Option Draft :=
  let add (r : Regex) : Draft := { d with current := d.current.add r }
  match namedClass? c, anchor? c with
  | some p, _ => some (add (.one p))
  | none, some r => some (add r)
  | none, none => (namedChar? c).map fun c => add (.one (· == c))

/-- Reads a sign that has no backslash before it. -/
private def plainSign (d : Draft) (c : Char) : Option Draft :=
  let add (r : Regex) : Option Draft := some { d with current := d.current.add r }
  let modify (c : Option ChoiceDraft) : Option Draft := c.map fun c => { d with current := c }
  match c with
  | '[' => some { d with openClass := some {} }
  | '(' => some { d with current := {}, around := d.current :: d.around, group := .opened }
  | ')' =>
    match d.around with
    | [] => none
    | outer :: around => some { d with current := outer.add d.current.finish, around := around }
  | '|' => modify (some d.current.bar)
  | '*' => modify (d.current.repeatLast .star)
  | '+' => modify (d.current.repeatLast fun r => .seq r (.star r))
  | '?' =>
    if d.current.repeated then modify (some { d.current with repeated := false })
    else modify (d.current.repeatLast fun r => .alt r .empty)
  | '.' => add (.one (· != '\n'))
  | '^' => add .textStart
  | '$' => add .textEnd
  | '\x7b' => if d.current.last.isSome then some { d with openBounds := some [] } else none
  | c => add (.one (· == c))

/-- Reads one sign. A group may begin with a question mark and a colon. -/
def step (d : Draft) (s : Sign) : Option Draft :=
  match d.openClass, d.openBounds, d.group with
  | some k, _, _ => d.inClass k s
  | none, some written, _ => d.inBounds written s
  | none, none, .questioned => if s = ⟨':', false⟩ then some { d with group := .done } else none
  | none, none, group =>
    if group = .opened ∧ s = ⟨'?', false⟩ then some { d with group := .questioned }
    else
      let d := { d with group := .done }
      if s.escaped then d.escapedSign s.char else d.plainSign s.char

/-- The expression read, if nothing is left open. -/
def finish? (d : Draft) : Option Regex :=
  if d.around.isEmpty && d.openClass.isNone && d.openBounds.isNone then some d.current.finish
  else none

end Draft

/-- The expression that a text describes. -/
def ofText? (t : Text) : Option Regex := do
  let signs ← signs? t
  let d ← signs.foldlM Draft.step {}
  d.finish?

/-- A character that has to be written with a backslash to stand for itself. -/
def isSpecial (c : Char) : Bool := "\\.+*?()|[]\x7b\x7d^$#&-~".toList.contains c

/-- A description of an expression that matches exactly a given text. -/
def escape (t : Text) : Text := t.flatMap fun c => if isSpecial c then ['\\', c] else [c]

end Regex

end TemplateEditing
