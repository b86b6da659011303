import TemplateEditing.Grammar.Lexer
import TemplateEditing.Scope.Map

/-!
# The lexer on the columns of a row

The lexer goes over a row by columns. At each step it looks at the row from its column on, marks
spans of columns with scopes, and says at which column it goes on. A look at a column that the row
does not have gives nothing, and then there are no spans; nor are there any if the steps allowed are
used up before the row is.

The pieces that `Lexer.row` cuts a row into say the same without columns.
-/

namespace TemplateEditing.Lexer

/-! ## Looking at a row -/

/-- The row from a column on, unless the column lies behind the end. -/
def restAt? (row : Text) (column : Nat) : Option Text :=
  if column ≤ row.length then some (row.drop column) else none

/-- The row from a column up to another one, unless they are turned around or lie behind the end. -/
def partAt? (row : Text) (start stop : Nat) : Option Text :=
  if start ≤ stop ∧ stop ≤ row.length then some ((row.take stop).drop start) else none

/-- The column behind the characters from a column on that pass a test. -/
def runEnd? (row : Text) (column : Nat) (test : Char → Bool) : Option Nat :=
  (restAt? row column).map fun rest =>
    ((rest.findIdx? fun c => !test c).map (column + ·)).getD row.length

/-- The word stands at the column. -/
def standsAt (row : Text) (column : Nat) : Text → Bool
  | [] => true
  | c :: word => row[column]? == some c && standsAt row (column + 1) word

/-- The first column from some column on at which the word stands. -/
def findWord? (row word : Text) (column : Nat) : Option Nat :=
  if column < row.length then
    if standsAt row column word then some column else findWord? row word (column + 1)
  else none
termination_by row.length - column

/-- The first column from some column on whose character passes a test, or else the end. -/
def seek (row : Text) (test : Char → Bool) (column : Nat) : Nat :=
  if h : column < row.length then
    if test row[column] then column else seek row test (column + 1)
  else row.length
termination_by row.length - column

/-- The column of the quote that closes a string whose inside starts at a column. A backslash guards
the character behind it. -/
def closingQuote? (row : Text) (quote : Char) (column : Nat) : Option Nat :=
  if h : column < row.length then
    if row[column] == '\\' then closingQuote? row quote (column + 2)
    else if row[column] == quote then some column
    else closingQuote? row quote (column + 1)
  else none
termination_by row.length - column

theorem le_of_closingQuote? {row : Text} {quote : Char} {column stop : Nat}
    (h : closingQuote? row quote column = some stop) : column ≤ stop := by
  fun_induction closingQuote? row quote column with
  | case1 column hin hguard ih => exact Nat.le_trans (Nat.le_add_right _ _) (ih h)
  | case2 column hin hguard hquote => exact Nat.le_of_eq (Option.some.inj h)
  | case3 column hin hguard hquote ih => exact Nat.le_trans (Nat.le_add_right _ _) (ih h)
  | case4 => cases h

/-- The column of the quote that closes a string, or else the end of the row. -/
def closeColumn (row : Text) (quote : Char) (column : Nat) : Nat :=
  (closingQuote? row quote column).getD row.length

theorem lt_min_closeColumn {row : Text} {column : Nat} (quote : Char) (h : column < row.length) :
    column < min (closeColumn row quote (column + 1) + 1) row.length := by
  unfold closeColumn
  cases hclose : closingQuote? row quote (column + 1) with
  | none => simp only [Option.getD_none]; omega
  | some stop =>
    have hle := le_of_closingQuote? hclose
    simp only [Option.getD_some]
    omega

/-- The column behind an attribute's value without quotes. -/
def valueEnd (row : Text) (column depth : Nat) : Nat :=
  if h : column < row.length then
    let c := row[column]
    if c == '(' || c == '[' || c == '\x7b' then valueEnd row (column + 1) (depth + 1)
    else if c == ')' || c == ']' || c == '\x7d' then valueEnd row (column + 1) (depth - 1)
    else if depth == 0 && (Text.isBlank c || c == '>') then column
    else if depth == 0 && c == '/' && row[column + 1]? == some '>' then column
    else valueEnd row (column + 1) depth
  else column
termination_by row.length - column

/-! ## Steps -/

/-- What a step gives: spans to be added, the state behind them, and the column to go on at. -/
structure Advance where
  spans : List ScopeSpan := []
  state : State
  column : Nat

/-- The spans of a string in code that stands inside a tag: its quotes and what is between them. The
closing quote may be missing. -/
def stringSpans (row : Text) (quote : Char) (all : String) (start stop : Nat) : List ScopeSpan :=
  let scope := stringScope quote
  ⟨start, start + 1, [Scope.stringBegin, scope, Scope.sourceScript, all]⟩ ::
    ⟨start + 1, stop, [scope, Scope.sourceScript, all]⟩ ::
    if stop < row.length then
      [⟨stop, stop + 1, [Scope.stringEnd, scope, Scope.sourceScript, all]⟩]
    else []

/-- Code from a column on up to the bracket that closes it, or to the end of the row: its spans,
which it has inside a tag only, and the column behind it. -/
def codeAt (opener closer : Char) (all : Option String) (row : Text) (column depth : Nat) :
    List ScopeSpan × Nat :=
  if h : column < row.length then
    let c := row[column]
    if isQuote c then
      let stop := closeColumn row c (column + 1)
      let (spans, last) := codeAt opener closer all row (min (stop + 1) row.length) depth
      ((all.map (stringSpans row c · column stop)).getD [] ++ spans, last)
    else
      let span := (all.map fun all =>
        [(⟨column, column + 1, [Scope.sourceScript, all]⟩ : ScopeSpan)]).getD []
      if c == opener then
        let (spans, last) := codeAt opener closer all row (column + 1) (depth + 1)
        (span ++ spans, last)
      else if c == closer then
        if depth - 1 = 0 then (span, column + 1)
        else
          let (spans, last) := codeAt opener closer all row (column + 1) (depth - 1)
          (span ++ spans, last)
      else
        let (spans, last) := codeAt opener closer all row (column + 1) depth
        (span ++ spans, last)
  else ([], column)
termination_by row.length - column
decreasing_by
  · have := lt_min_closeColumn row[column] h
    omega
  all_goals omega

/-- A step in content. -/
def contentAt? (s : State) (row : Text) (column : Nat) : Option Advance :=
  let nameAt (i : Nat) : Bool := row[i]?.any isNameStart
  if standsAt row column "<!--".toList then
    some ⟨[⟨column, column + 4, [Scope.commentBlock]⟩], enter s .comment, column + 4⟩
  else if standsAt row column ['<', '/'] && nameAt (column + 2) then do
    let stop ← runEnd? row (column + 2) isTagChar
    some ⟨[⟨column, column + 2, [Scope.tagBeginClose, Scope.metaTagClose]⟩,
        ⟨column + 2, stop, [Scope.tagNameClose, Scope.metaTagClose]⟩],
      enter s (.tag ⟨.closing, false, .nested⟩), stop⟩
  else do
    let c ← row[column]?
    if c == '<' then
      if nameAt (column + 1) then
        let stop ← runEnd? row (column + 1) isTagChar
        let name ← partAt? row (column + 1) stop
        some ⟨[⟨column, column + 1, [Scope.tagBeginOpen, Scope.metaTagOpen]⟩,
            ⟨column + 1, stop, [Scope.tagName, Scope.metaTagOpen]⟩],
          enter s (.tag ⟨.opening, false, bodyOf name⟩), stop⟩
      else some ⟨[], s, column + 1⟩
    else if standsAt row column ['$', '\x7b'] then
      let (spans, stop) := codeAt '\x7b' '\x7d' none row (column + 1) 0
      some ⟨spans, s, stop⟩
    else some ⟨[], s, seek row (fun d => d == '<' || d == '$') (column + 1)⟩

/-- The quote that starts a string inside a tag, behind spans that come before it. -/
def openStringAt? (s : State) (tag : TagState) (before : List ScopeSpan) (row : Text)
    (column : Nat) : Option Advance := do
  let quote ← row[column]?
  some ⟨before ++
      [⟨column, column + 1, [Scope.stringBegin, stringScope quote, tag.scope]⟩],
    enter s (.string quote tag), column + 1⟩

/-- A step behind the sign between an attribute's name and its value. -/
def valueAt? (s : State) (tag : TagState) (row : Text) (column : Nat) : Option Advance := do
  let value ← runEnd? row (column + 1) fun d => d == ' ' || d == '\t'
  let before : List ScopeSpan :=
    [⟨column, column + 1, [Scope.keyValue, tag.scope]⟩, ⟨column + 1, value, [tag.scope]⟩]
  match row[value]? with
  | none => some ⟨before, s, value⟩
  | some d =>
    if isQuote d then openStringAt? s tag before row value
    else
      let stop := valueEnd row value 0
      some ⟨before ++ [⟨value, stop, [Scope.sourceScript, tag.scope]⟩], s, stop⟩

/-- A step inside a tag. -/
def tagAt? (s : State) (tag : TagState) (row : Text) (column : Nat) : Option Advance := do
  let all := tag.scope
  let c ← row[column]?
  if Text.isBlank c then
    let stop ← runEnd? row column Text.isBlank
    some ⟨[⟨column, stop, [all]⟩], s, stop⟩
  else if tag.concise && standsAt row column ['-', '-'] then some ⟨[], s, row.length⟩
  else if tag.side == .opening && !tag.concise && standsAt row column ['/', '>'] then
    some ⟨[⟨column, column + 2, [Scope.tagEndSelfClose, all]⟩], enter s .content, column + 2⟩
  else if c == '>' && !tag.concise then
    let scope := match tag.side with
      | .opening => Scope.tagEndOpen
      | .closing => Scope.tagEndClose
    some ⟨[⟨column, column + 1, [scope, all]⟩], endTag s tag, column + 1⟩
  else if c == '<' then some ⟨[], enter s .content, column⟩
  else if c == '=' then valueAt? s tag row column
  else if isQuote c then openStringAt? s tag [] row column
  else if c == '(' then
    let (spans, stop) := codeAt '(' ')' (some all) row column 0
    some ⟨spans, s, stop⟩
  else if standsAt row column ['$', '\x7b'] then
    let (spans, stop) := codeAt '\x7b' '\x7d' (some all) row (column + 1) 0
    some ⟨⟨column, column + 1, [Scope.sourceScript, all]⟩ :: spans, s, stop⟩
  else if isAttributeChar c then
    let stop ← runEnd? row column isAttributeChar
    some ⟨[⟨column, stop, [Scope.attributeName, all]⟩], s, stop⟩
  else some ⟨[⟨column, column + 1, [all]⟩], s, column + 1⟩

/-- A step inside a string. -/
def stringAt (s : State) (quote : Char) (tag : TagState) (row : Text) (column : Nat) : Advance :=
  let scope := stringScope quote
  match closingQuote? row quote column with
  | some stop =>
    ⟨[⟨column, stop, [scope, tag.scope]⟩, ⟨stop, stop + 1, [Scope.stringEnd, scope, tag.scope]⟩],
      enter s (.tag tag), stop + 1⟩
  | none => ⟨[⟨column, row.length, [scope, tag.scope]⟩], s, row.length⟩

/-- A step inside a comment. -/
def commentAt (s : State) (row : Text) (column : Nat) : Advance :=
  match findWord? row "-->".toList column with
  | some stop => ⟨[⟨column, stop + 3, [Scope.commentBlock]⟩], enter s .content, stop + 3⟩
  | none => ⟨[⟨column, row.length, [Scope.commentBlock]⟩], s, row.length⟩

/-- A step inside script or style code. -/
def rawAt (s : State) (kind : RawKind) (row : Text) (column : Nat) : Advance :=
  let (word, scope) := match kind with
    | .script => ("</script".toList, Scope.sourceScript)
    | .style => ("</style".toList, Scope.sourceStyle)
  match findWord? row word column with
  | some stop => ⟨[⟨column, stop, [scope]⟩], enter s .content, stop⟩
  | none => ⟨[⟨column, row.length, [scope]⟩], s, row.length⟩

/-- One step. -/
def advance? (s : State) (row : Text) (column : Nat) : Option Advance :=
  match s.mode with
  | .content => contentAt? s row column
  | .tag tag => tagAt? s tag row column
  | .string quote tag => some (stringAt s quote tag row column)
  | .comment => some (commentAt s row column)
  | .raw kind => some (rawAt s kind row column)

/-! ## Rows and texts -/

/-- A name at the start of a row, which is that of a tag without brackets. -/
def conciseNameAt? (s : State) (row : Text) (column : Nat) : Option Advance := do
  let stop ← runEnd? row column isTagChar
  some ⟨[⟨column, stop, [Scope.tagNameConcise, Scope.metaTagConcise]⟩],
    enter s (.tag ⟨.opening, true, .void⟩), stop⟩

/-- A row that starts with these characters may be a tag without brackets. -/
def tagStartAt? (s : State) (first : Char) (second : Text) (row : Text) (indent : Nat) :
    Option Advance :=
  if (first == '.' || first == '#') && second.head?.any isNameStart then
    conciseNameAt? s row indent
  else if isNameStart first then conciseNameAt? s row indent
  else some ⟨[], s, indent⟩

/-- The start of a row outside of all elements. -/
def rowStartAt? (s : State) (row : Text) : Option Advance := do
  let indent ← runEnd? row 0 Text.isBlank
  let rest ← restAt? row indent
  match rest with
  | '/' :: '/' :: _ => some ⟨[⟨indent, row.length, [Scope.commentLine]⟩], s, row.length⟩
  | '-' :: '-' :: _ => some ⟨[], s, indent + 2⟩
  | '|' :: _ => some ⟨[], s, indent + 1⟩
  | [] => some ⟨[], s, row.length⟩
  | first :: second => tagStartAt? s first second row indent

/-- Where the lexer starts in a row. -/
def startAt? (s : State) (row : Text) : Option Advance :=
  if s.mode = .content ∧ s.depth = 0 then rowStartAt? s row else some ⟨[], s, 0⟩

/-- Takes steps from a column on until the row is at its end, so many of them at most. -/
def walk? (row : Text) : Nat → State → Nat → Option (List ScopeSpan × State)
  | 0, s, column => if column < row.length then none else some ([], s)
  | steps + 1, s, column =>
    if column < row.length then do
      let next ← advance? s row column
      let (spans, last) ← walk? row steps next.state next.column
      some (next.spans ++ spans, last)
    else some ([], s)

/-- The spans of a row and the state behind it, unless that takes more steps than are allowed. -/
def readRow? (steps : Nat) (s : State) (row : Text) : Option (List ScopeSpan × State) := do
  let first ← startAt? s row
  let (spans, last) ← walk? row steps first.state first.column
  some (first.spans ++ spans, endRow last)

/-- Adds rows to a scope map, one below the other, each with its spans. A row is allowed two steps
for each of its characters and one more. -/
def readRows? (m : ScopeMap) (s : State) : List Text → Option ScopeMap
  | [] => some m
  | row :: below => do
    let (spans, next) ← readRow? (2 * row.length + 1) s row
    readRows? (spans.foldl (fun m span => m.addSpan span.start span.stop span.scopes)
      (m.addRow row.length)) next below

end TemplateEditing.Lexer
