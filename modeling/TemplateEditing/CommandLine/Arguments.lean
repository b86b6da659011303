import TemplateEditing.File.Path
import TemplateEditing.Json.Value
import TemplateEditing.Text.Blank
import TemplateEditing.Text.Hidden

/-!
# Command line arguments

A command line names a command, a template and a position in it. Three options may stand anywhere:
a settings file, a project folder and, any number of times, a wish for more messages. An option that
is given both before and behind the command has the value given behind it.

Arguments are read from the first to the last. A value is checked when the next argument has been
recognized, so an argument that is not known at all is reported before a bad value in front of it.
-/

namespace TemplateEditing

/-- What the command line can be asked for. -/
inductive Command where
  /-- The scopes at a position. -/
  | scopes
  /-- The pair of tags at a position. -/
  | tags
  /-- The completions at a position. -/
  | complete
  /-- Where a click at a position leads. -/
  | follow
deriving DecidableEq, Repr, Inhabited

/-- The command of a name. -/
def Command.ofName? : String → Option Command
  | "scopes" => some .scopes
  | "match" => some .tags
  | "complete" => some .complete
  | "goto" => some .follow
  | _ => none

/-! ## Positions -/

/-- What is wrong with a position. -/
inductive PositionError where
  /-- There is no colon. -/
  | noColon (value : Text)
  | badLine
  | badColumn
deriving DecidableEq, Repr, Inhabited

/-- A character in quotes. -/
def quotedChar (c : Char) : Text :=
  match c with
  | '"' => ['\\', '"']
  | '\\' => ['\\', '\\']
  | '\n' => ['\\', 'n']
  | '\r' => ['\\', 'r']
  | '\t' => ['\\', 't']
  | '\x00' => ['\\', '0']
  | c =>
    if Text.isHidden c then
      "\\u\x7b".toList ++ Nat.toDigits 16 c.toNat ++ ['\x7d']
    else [c]

/-- What is said about a bad position. -/
def PositionError.message : PositionError → String
  | noColon value => String.ofList ("expected LINE:COLUMN, got \"".toList ++
      value.flatMap quotedChar ++ ['"'])
  | badLine => "line must be a number starting at 1"
  | badColumn => "column must be a number starting at 1"

/-- The least number that is too large for a line or a column. -/
def countLimit : Nat := Nat.pow 2 64

/-- A number from one on, with blanks around it and a plus sign before it if need be. -/
def count? (t : Text) : Option Nat :=
  let t := t.trim
  let digits := if t.head? == some '+' then t.drop 1 else t
  let n := JsonValue.digitsToNat digits
  if digits.isEmpty || !digits.all Char.isDigit || n = 0 || countLimit ≤ n then none else some n

/-- A position is a line and a column, both counted from one. -/
def Position.ofArgument (value : Text) : Except PositionError Position :=
  match value.dropWhile (· != ':') with
  | [] => .error (.noColon value)
  | _ :: column =>
    match count? (value.takeWhile (· != ':')), count? column with
    | none, _ => .error .badLine
    | some _, none => .error .badColumn
    | some line, some column => .ok ⟨line - 1, column - 1⟩

/-! ## Arguments -/

/-- Why a command line says nothing to carry out. -/
inductive NoInvocation where
  | position (e : PositionError)
  /-- An argument is unknown, missing, repeated or empty. -/
  | arguments
  /-- Only help is asked for. -/
  | help
  /-- Only the version is asked for. -/
  | version
deriving DecidableEq, Repr, Inhabited

namespace NoInvocation

/-- The exit code of the program. -/
def exitCode : NoInvocation → Nat
  | position _ | arguments => 2
  | help | version => 0

/-- What is said about a bad position. -/
def message? : NoInvocation → Option String
  | position e => some e.message
  | _ => none

end NoInvocation

/-- A place for a value. -/
inductive ArgumentSlot where
  | settings
  | project
  | file
  | position
deriving DecidableEq, Repr, Inhabited

/-- The values given on one side of the command. -/
structure ArgumentValues where
  settings : Option Path := none
  project : Option Path := none
  file : Option Path := none
  position : Option Position := none
deriving DecidableEq, Repr, Inhabited

/-- A path that may be given once and must not be empty. -/
private def oncePath (old : Option Path) (value : Text) : Except NoInvocation (Option Path) :=
  if old.isSome || value.isEmpty then .error .arguments
  else .ok (some (.ofString (String.ofList value)))

/-- Puts a value in its place. -/
def ArgumentValues.put (v : ArgumentValues) (slot : ArgumentSlot) (value : Text) :
    Except NoInvocation ArgumentValues :=
  match slot with
  | .settings => do .ok { v with settings := ← oncePath v.settings value }
  | .project => do .ok { v with project := ← oncePath v.project value }
  | .file => do .ok { v with file := ← oncePath v.file value }
  | .position =>
    match Position.ofArgument value with
    | .ok p => .ok { v with position := some p }
    | .error e => .error (.position e)

/-- What has been read of the arguments on one side of the command. -/
structure ArgumentReader where
  values : ArgumentValues := {}
  /-- A value that has not been checked. -/
  pending : Option (ArgumentSlot × Text) := none
  /-- An option whose value comes next. -/
  awaiting : Option ArgumentSlot := none
  /-- The places for values that are not those of options. -/
  free : List ArgumentSlot := []
  /-- All further arguments are values. -/
  onlyValues : Bool := false
  /-- The command has not been read. -/
  inFront : Bool := true
deriving DecidableEq, Repr, Inhabited

namespace ArgumentReader

/-- Checks the pending value. An option whose value has not come is an error. -/
def settle (r : ArgumentReader) : Except NoInvocation ArgumentReader := do
  if r.awaiting.isSome then .error .arguments
  else
    match r.pending with
    | none => .ok r
    | some (slot, value) => .ok { r with values := ← r.values.put slot value, pending := none }

/-- The option of a letter. -/
def slotOfLetter? : Char → Option ArgumentSlot
  | 'c' => some .settings
  | 'p' => some .project
  | _ => none

/-- The version is asked for, which is possible in front of the command. -/
def versionOnly (r : ArgumentReader) : Except NoInvocation ArgumentReader := do
  if r.inFront then
    let _ ← r.settle
    .error .version
  else .error .arguments

/-- Reads options that are written as letters behind one dash. The value of an option may follow at
once, with or without an equals sign. -/
def letters (r : ArgumentReader) : Text → Except NoInvocation ArgumentReader
  | [] => .ok r
  | 'v' :: rest => do (← r.settle).letters rest
  | 'h' :: _ => do
    let _ ← r.settle
    .error .help
  | c :: rest =>
    match slotOfLetter? c with
    | none => if c == 'V' then r.versionOnly else .error .arguments
    | some slot => do
      let r ← r.settle
      match rest with
      | [] => .ok { r with awaiting := some slot }
      | '=' :: value => .ok { r with pending := some (slot, value) }
      | value => .ok { r with pending := some (slot, value) }

/-- Reads an option that is written as a word behind two dashes. -/
def word (r : ArgumentReader) (t : Text) : Except NoInvocation ArgumentReader :=
  let name := t.takeWhile (· != '=')
  let value := t.drop name.length
  let option (slot : ArgumentSlot) : Except NoInvocation ArgumentReader := do
    let r ← r.settle
    match value with
    | [] => .ok { r with awaiting := some slot }
    | _ :: value => .ok { r with pending := some (slot, value) }
  if name == "config".toList then option .settings
  else if name == "project".toList then option .project
  else if !value.isEmpty then .error .arguments
  else if name == "verbose".toList then r.settle
  else if name == "help".toList then do
    let _ ← r.settle
    .error .help
  else if name == "version".toList then r.versionOnly
  else .error .arguments

/-- Reads a value that is not that of an option. -/
def freeValue (r : ArgumentReader) (t : Text) : Except NoInvocation ArgumentReader :=
  match r.free with
  | [] => .error .arguments
  | slot :: free => do .ok { ← r.settle with pending := some (slot, t), free := free }

/-- Reads one argument. -/
def step (r : ArgumentReader) (argument : String) : Except NoInvocation ArgumentReader :=
  let t := argument.toList
  if r.onlyValues then r.freeValue t
  else
    match t with
    | ['-', '-'] => .ok { r with onlyValues := true }
    | '-' :: '-' :: name => r.word name
    | '-' :: c :: rest => r.letters (c :: rest)
    | _ =>
      match r.awaiting with
      | some slot => .ok { r with pending := some (slot, t), awaiting := none }
      | none => r.freeValue t

end ArgumentReader

/-- A command line that can be carried out. -/
structure Invocation where
  command : Command
  file : Path
  position : Position
  settings : Option Path := none
  project : Option Path := none
deriving DecidableEq, Repr, Inhabited

namespace Invocation

/-- Reads the arguments behind the command. -/
def ofRest (command : Command) (arguments : List String) : Except NoInvocation Invocation := do
  let r ← arguments.foldlM ArgumentReader.step
    { free := [.file, .position], inFront := false }
  let v := (← r.settle).values
  match v.file, v.position with
  | some file, some position =>
    .ok { command := command, file := file, position := position, settings := v.settings,
          project := v.project }
  | _, _ => .error .arguments

/-- The command that asks for help, with the commands it may be asked about. -/
def helpOnly : List String → NoInvocation
  | [] => .help
  | name :: rest =>
    if rest.isEmpty && (name == "help" || (Command.ofName? name).isSome) then .help else .arguments

/-- Reads the arguments up to the command, and then the rest. What is wrong behind the command is
reported before a bad value in front of it. -/
def ofArguments (r : ArgumentReader) : List String → Except NoInvocation Invocation
  | [] => .error .arguments
  | argument :: rest =>
    if r.onlyValues || r.awaiting.isSome then do ofArguments (← r.step argument) rest
    else if argument == "help" then .error (helpOnly rest)
    else
      match Command.ofName? argument with
      | none => do ofArguments (← r.step argument) rest
      | some command => do
        let i ← ofRest command rest
        let v := (← r.settle).values
        .ok { i with settings := i.settings.or v.settings, project := i.project.or v.project }

/-- Reads a command line. -/
def parse (arguments : List String) : Except NoInvocation Invocation := ofArguments {} arguments

end Invocation

end TemplateEditing
