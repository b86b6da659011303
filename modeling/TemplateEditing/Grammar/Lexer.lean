import TemplateEditing.Scope.Name
import TemplateEditing.Text.Blank

/-!
# The Marko lexer

The lexer cuts a template, row by row, into pieces with scopes. What a row starts inside of (a tag,
a string, a comment, script or style code) and how many tags are open is carried from row to row.
A row that starts outside of all tags may be a tag written without brackets, which ends with its
row.

Each step takes something from the front of the row, or leaves a construct without taking anything;
so the steps end. The pieces of a row concatenate to the row.
-/

namespace TemplateEditing

/-- A piece of a row and its scopes, the root left out. -/
structure Piece where
  text : Text
  scopes : List String := []
deriving DecidableEq, Repr, Inhabited

namespace Lexer

/-- Whether a tag opens or closes an element. -/
inductive Side where
  | opening
  | closing
deriving DecidableEq, Repr, Inhabited

/-- Elements whose content is not markup. -/
inductive RawKind where
  | script
  | style
deriving DecidableEq, Repr, Inhabited

/-- What follows an open tag. -/
inductive Body where
  | nested
  | void
  | raw (kind : RawKind)
deriving DecidableEq, Repr, Inhabited

/-- The tag that the lexer is inside of. -/
structure TagState where
  side : Side
  concise : Bool
  body : Body
deriving DecidableEq, Repr, Inhabited

/-- What the lexer is inside of. -/
inductive Mode where
  | content
  | tag (state : TagState)
  | string (quote : Char) (state : TagState)
  | comment
  | raw (kind : RawKind)
deriving DecidableEq, Repr, Inhabited

/-- What is carried along: the construct, and the number of elements open. -/
structure State where
  mode : Mode := .content
  depth : Nat := 0
deriving DecidableEq, Repr, Inhabited

/-! ## Characters and words -/

/-- A character that a name can start with. -/
def isNameStart (c : Char) : Bool := c.isAlpha || c == '@' || c == '_'

/-- A character of an attribute's name. -/
def isAttributeChar (c : Char) : Bool :=
  c.isAlphanum || c == '@' || c == '_' || c == ':' || c == '-' || c == '.'

/-- A character of a tag's name, which may go on with classes and an id. -/
def isTagChar (c : Char) : Bool := isAttributeChar c || c == '#'

/-- Elements without content. -/
def voidNames : List String :=
  ["area", "base", "br", "col", "embed", "hr", "img", "input", "link", "meta", "param", "source",
    "track", "wbr"]

/-- A tag's name without classes and id. -/
def baseName (name : Text) : Text := name.takeWhile fun c => !(c == '.' || c == '#')

/-- What follows an open tag of a name. -/
def bodyOf (name : Text) : Body :=
  let base := baseName name
  if base = "script".toList then .raw .script
  else if base = "style".toList then .raw .style
  else if voidNames.any (·.toList == base) then .void
  else .nested

/-- The scope of all of a tag. -/
def TagState.scope (tag : TagState) : String :=
  if tag.concise then Scope.metaTagConcise
  else
    match tag.side with
    | .opening => Scope.metaTagOpen
    | .closing => Scope.metaTagClose

/-- The scope of a string in these quotes. -/
def stringScope (quote : Char) : String :=
  if quote == '\'' then Scope.stringSingle else Scope.stringDouble

/-- The character starts and ends a string. -/
def isQuote (c : Char) : Bool := c == '"' || c == '\''

/-- The text up to a closing quote, and the text behind that quote. A backslash guards the
character behind it. -/
def closeString? (quote : Char) : Text → Option (Text × Text)
  | [] => none
  | ['\\'] => none
  | '\\' :: c :: rest =>
    (closeString? quote rest).map fun (inside, behind) => ('\\' :: c :: inside, behind)
  | c :: rest =>
    if c == quote then some ([], rest)
    else (closeString? quote rest).map fun (inside, behind) => (c :: inside, behind)

theorem closeString?_eq {quote : Char} {t inside behind : Text}
    (h : closeString? quote t = some (inside, behind)) : inside ++ quote :: behind = t := by
  fun_induction closeString? quote t generalizing inside behind with
  | case1 => simp at h
  | case2 => simp at h
  | case3 c rest ih =>
    obtain ⟨⟨i, b⟩, hb, heq⟩ := Option.map_eq_some_iff.1 h
    simp only [Prod.mk.injEq] at heq
    rw [← heq.1, ← heq.2, ← ih hb]
    rfl
  | case4 c rest _ hc => simp_all
  | case5 c rest _ _ _ ih =>
    obtain ⟨⟨i, b⟩, hb, heq⟩ := Option.map_eq_some_iff.1 h
    simp only [Prod.mk.injEq] at heq
    rw [← heq.1, ← heq.2, ← ih hb]
    rfl

theorem closeString?_length {quote : Char} {t inside behind : Text}
    (h : closeString? quote t = some (inside, behind)) : behind.length < t.length := by
  rw [← closeString?_eq h, List.length_append, List.length_cons]
  omega

/-- The text before the first place at which a word stands, and the text from there on. -/
def cutAt? (word : Text) : Text → Option (Text × Text)
  | [] => none
  | c :: rest =>
    if word.isPrefixOf (c :: rest) then some ([], c :: rest)
    else (cutAt? word rest).map fun (before, found) => (c :: before, found)

theorem cutAt?_eq {word t before found : Text} (h : cutAt? word t = some (before, found)) :
    before ++ found = t ∧ word.isPrefixOf found = true := by
  fun_induction cutAt? word t generalizing before found with
  | case1 => simp at h
  | case2 => simp_all
  | case3 c rest _ ih =>
    obtain ⟨⟨i, b⟩, hb, heq⟩ := Option.map_eq_some_iff.1 h
    simp only [Prod.mk.injEq] at heq
    rw [← heq.1, ← heq.2]
    exact ⟨by rw [← (ih hb).1]; rfl, (ih hb).2⟩

theorem cutAt?_length {word t before found : Text}
    (h : cutAt? word t = some (before, found)) : found.length ≤ t.length := by
  rw [← (cutAt?_eq h).1, List.length_append]
  omega

/-! ## Code in brackets and values -/

/-- Code from an opening bracket to the bracket that closes it, or to the end of the row. Strings
in it are pieces of their own; brackets in them do not count. `wrap` completes the scopes. -/
def balanced (opener closer : Char) (wrap : List String → List String) (depth : Nat) (t : Text) :
    List Piece × Text :=
  match t with
  | [] => ([], [])
  | c :: rest =>
    if isQuote c then
      let scope := stringScope c
      let quote : Piece := ⟨[c], wrap [Scope.stringBegin, scope]⟩
      match h : closeString? c rest with
      | some (inside, behind) =>
        have : behind.length < rest.length := closeString?_length h
        let (pieces, left) := balanced opener closer wrap depth behind
        (quote :: ⟨inside, wrap [scope]⟩ :: ⟨[c], wrap [Scope.stringEnd, scope]⟩ :: pieces, left)
      | none => ([quote, ⟨rest, wrap [scope]⟩], [])
    else
      let piece : Piece := ⟨[c], wrap []⟩
      if c == opener then
        let (pieces, left) := balanced opener closer wrap (depth + 1) rest
        (piece :: pieces, left)
      else if c == closer && depth ≤ 1 then ([piece], rest)
      else
        let (pieces, left) :=
          balanced opener closer wrap (if c == closer then depth - 1 else depth) rest
        (piece :: pieces, left)
termination_by t.length
decreasing_by all_goals simp only [List.length_cons]; omega

theorem balanced_length (opener closer : Char) (wrap : List String → List String) (depth : Nat)
    (t : Text) : (balanced opener closer wrap depth t).2.length ≤ t.length := by
  fun_induction balanced opener closer wrap depth t with
  | case1 => simp
  | case2 depth c rest _ _ _ inside behind h _ pieces left hb ih =>
    simp only [hb] at ih
    simp only [List.length_cons]; omega
  | case3 => simp
  | case4 depth c rest _ _ _ pieces left hb ih =>
    simp only [hb] at ih
    simp only [List.length_cons]; omega
  | case5 => simp
  | case6 depth c rest _ _ _ _ pieces left hb ih =>
    simp only [hb] at ih
    simp only [List.length_cons]; omega

/-- The length of an attribute's value without quotes. It ends at a blank or at the end of the tag,
unless brackets are open in it. -/
def valueLength (depth : Nat) : Text → Nat
  | [] => 0
  | c :: rest =>
    if c == '(' || c == '[' || c == '\x7b' then valueLength (depth + 1) rest + 1
    else if c == ')' || c == ']' || c == '\x7d' then valueLength (depth - 1) rest + 1
    else if depth == 0 && (Text.isBlank c || c == '>') then 0
    else if depth == 0 && c == '/' && rest.head? == some '>' then 0
    else valueLength depth rest + 1

/-! ## Steps -/

/-- What a step gives: pieces, the state behind them, and the text that is left. -/
structure Step where
  pieces : List Piece
  state : State
  left : Text

/-- The same depth in another construct. -/
def enter (s : State) (mode : Mode) : State := { s with mode := mode }

/-- A step in content: a comment or tag starts, or text goes on. -/
def contentStep (s : State) (c : Char) (rest : Text) : Step :=
  let nameAhead (t : Text) : Bool := t.head?.any isNameStart
  if "<!--".toList.isPrefixOf (c :: rest) then
    ⟨[⟨(c :: rest).take 4, [Scope.commentBlock]⟩], enter s .comment, rest.drop 3⟩
  else if c == '<' && rest.head? == some '/' && nameAhead rest.tail then
    let name := rest.tail.takeWhile isTagChar
    ⟨[⟨c :: rest.take 1, [Scope.tagBeginClose, Scope.metaTagClose]⟩,
        ⟨name, [Scope.tagNameClose, Scope.metaTagClose]⟩],
      enter s (.tag ⟨.closing, false, .nested⟩), rest.tail.dropWhile isTagChar⟩
  else if c == '<' && nameAhead rest then
    let name := rest.takeWhile isTagChar
    ⟨[⟨[c], [Scope.tagBeginOpen, Scope.metaTagOpen]⟩,
        ⟨name, [Scope.tagName, Scope.metaTagOpen]⟩],
      enter s (.tag ⟨.opening, false, bodyOf name⟩), rest.dropWhile isTagChar⟩
  else if c == '<' then ⟨[⟨[c], []⟩], s, rest⟩
  else if c == '$' && rest.head? == some '\x7b' then
    let (pieces, left) := balanced '\x7b' '\x7d' (fun _ => []) 0 rest
    ⟨⟨[c], []⟩ :: pieces, s, left⟩
  else
    let plain (d : Char) : Bool := !(d == '<' || d == '$')
    ⟨[⟨c :: rest.takeWhile plain, []⟩], s, rest.dropWhile plain⟩

/-- The state behind the bracket that ends a tag. -/
def endTag (s : State) (tag : TagState) : State :=
  match tag.side with
  | .closing => ⟨.content, s.depth - 1⟩
  | .opening =>
    match tag.body with
    | .nested => ⟨.content, s.depth + 1⟩
    | .void => ⟨.content, s.depth⟩
    | .raw kind => ⟨.raw kind, s.depth + 1⟩

/-- The pieces that start a string inside a tag. -/
def openString (s : State) (tag : TagState) (before : List Piece) (quote : Char)
    (rest : Text) : Step :=
  ⟨before ++ [⟨[quote], [Scope.stringBegin, stringScope quote, tag.scope]⟩],
    enter s (.string quote tag), rest⟩

/-- A step behind the sign between an attribute's name and its value. -/
def valueStep (s : State) (tag : TagState) (c : Char) (rest : Text) : Step :=
  let gap (d : Char) : Bool := d == ' ' || d == '\t'
  let before : List Piece :=
    [⟨[c], [Scope.keyValue, tag.scope]⟩, ⟨rest.takeWhile gap, [tag.scope]⟩]
  match rest.dropWhile gap with
  | [] => ⟨before, s, []⟩
  | d :: behind =>
    if isQuote d then openString s tag before d behind
    else
      let n := valueLength 0 (d :: behind)
      ⟨before ++ [⟨(d :: behind).take n, [Scope.sourceScript, tag.scope]⟩], s,
        (d :: behind).drop n⟩

/-- A step inside a tag. -/
def tagStep (s : State) (tag : TagState) (c : Char) (rest : Text) : Step :=
  let all := tag.scope
  let code (inner : List String) : List String := inner ++ [Scope.sourceScript, all]
  if Text.isBlank c then
    ⟨[⟨c :: rest.takeWhile Text.isBlank, [all]⟩], s, rest.dropWhile Text.isBlank⟩
  else if tag.concise && c == '-' && rest.head? == some '-' then ⟨[⟨c :: rest, []⟩], s, []⟩
  else if tag.side == .opening && !tag.concise && c == '/' && rest.head? == some '>' then
    ⟨[⟨c :: rest.take 1, [Scope.tagEndSelfClose, all]⟩], enter s .content, rest.tail⟩
  else if c == '>' && !tag.concise then
    let scope := match tag.side with
      | .opening => Scope.tagEndOpen
      | .closing => Scope.tagEndClose
    ⟨[⟨[c], [scope, all]⟩], endTag s tag, rest⟩
  else if c == '<' then ⟨[], enter s .content, c :: rest⟩
  else if c == '=' then valueStep s tag c rest
  else if isQuote c then openString s tag [] c rest
  else if c == '(' then
    let (pieces, left) := balanced '(' ')' code 1 rest
    ⟨⟨[c], code []⟩ :: pieces, s, left⟩
  else if c == '$' && rest.head? == some '\x7b' then
    let (pieces, left) := balanced '\x7b' '\x7d' code 0 rest
    ⟨⟨[c], code []⟩ :: pieces, s, left⟩
  else if isAttributeChar c then
    ⟨[⟨c :: rest.takeWhile isAttributeChar, [Scope.attributeName, all]⟩], s,
      rest.dropWhile isAttributeChar⟩
  else ⟨[⟨[c], [all]⟩], s, rest⟩

/-- A step inside a string, which may go on in the next row. -/
def stringStep (s : State) (quote : Char) (tag : TagState) (t : Text) : Step :=
  let scope := stringScope quote
  match closeString? quote t with
  | some (inside, behind) =>
    ⟨[⟨inside, [scope, tag.scope]⟩, ⟨[quote], [Scope.stringEnd, scope, tag.scope]⟩],
      enter s (.tag tag), behind⟩
  | none => ⟨[⟨t, [scope, tag.scope]⟩], s, []⟩

/-- A step inside a comment, which may go on in the next row. -/
def commentStep (s : State) (t : Text) : Step :=
  match cutAt? "-->".toList t with
  | some (before, found) =>
    ⟨[⟨before ++ found.take 3, [Scope.commentBlock]⟩], enter s .content, found.drop 3⟩
  | none => ⟨[⟨t, [Scope.commentBlock]⟩], s, []⟩

/-- A step inside script or style code, which may go on in the next row. The close tag that ends
it is left to the content that follows. -/
def rawStep (s : State) (kind : RawKind) (t : Text) : Step :=
  let (word, scope) := match kind with
    | .script => ("</script".toList, Scope.sourceScript)
    | .style => ("</style".toList, Scope.sourceStyle)
  match cutAt? word t with
  | some (before, found) => ⟨[⟨before, [scope]⟩], enter s .content, found⟩
  | none => ⟨[⟨t, [scope]⟩], s, []⟩

/-- One step. -/
def step (s : State) (c : Char) (rest : Text) : Step :=
  match s.mode with
  | .content => contentStep s c rest
  | .tag tag => tagStep s tag c rest
  | .string quote tag => stringStep s quote tag (c :: rest)
  | .comment => commentStep s (c :: rest)
  | .raw kind => rawStep s kind (c :: rest)

/-! ## Steps end -/

/-- What a step makes smaller: the text left, or, if nothing is taken, the construct left. -/
def effort (s : State) (t : Text) : Nat := 2 * t.length + if s.mode = .content then 0 else 1

theorem length_dropWhile_le (p : Char → Bool) (t : Text) : (t.dropWhile p).length ≤ t.length :=
  (List.dropWhile_suffix p).length_le

theorem effort_lt_of_length_lt {s s' : State} {t t' : Text} (h : t'.length < t.length) :
    effort s' t' < effort s t := by
  unfold effort
  split <;> split <;> omega

theorem effort_contentStep (s : State) (c : Char) (rest : Text) :
    effort (contentStep s c rest).state (contentStep s c rest).left < effort s (c :: rest) := by
  apply effort_lt_of_length_lt
  have hr := length_dropWhile_le isTagChar rest
  have ht := length_dropWhile_le isTagChar rest.tail
  have hp := length_dropWhile_le (fun d => !(d == '<' || d == '$')) rest
  have hb := balanced_length '\x7b' '\x7d' (fun _ => []) 0 rest
  simp only [List.length_tail] at ht
  unfold contentStep
  simp only [List.length_cons]
  split
  · simp only [List.length_drop]; omega
  split
  · simp only; omega
  split
  · simp only; omega
  split
  · simp
  split
  · simp only; omega
  · simp only; omega

theorem effort_tagStep (s : State) (tag : TagState) (c : Char) (rest : Text)
    (h : s.mode = .tag tag) :
    effort (tagStep s tag c rest).state (tagStep s tag c rest).left < effort s (c :: rest) := by
  by_cases hc : c = '<'
  · subst hc
    have : Text.isBlank '<' = false := by decide
    simp [tagStep, this, enter, effort, h]
  · apply effort_lt_of_length_lt
    have hb := length_dropWhile_le Text.isBlank rest
    have ha := length_dropWhile_le isAttributeChar rest
    have hg := length_dropWhile_le (fun d => d == ' ' || d == '\t') rest
    have hp := fun w d => balanced_length '(' ')' w d rest
    have hq := fun w d => balanced_length '\x7b' '\x7d' w d rest
    unfold tagStep
    simp only [List.length_cons]
    split
    · simp only; omega
    split
    · simp
    split
    · simp only [List.length_tail]; omega
    split
    · simp
    split
    · simp_all
    split
    · unfold valueStep
      dsimp only
      split
      · simp
      · rename_i d behind hd
        rw [hd] at hg
        simp only [List.length_cons] at hg
        split
        · simp only [openString]; omega
        · simp only [List.length_drop, List.length_cons]; omega
    split
    · simp [openString]
    split
    · exact Nat.lt_succ_of_le (hp _ _)
    split
    · exact Nat.lt_succ_of_le (hq _ _)
    split
    · simp only; omega
    · simp

theorem effort_step (s : State) (c : Char) (rest : Text) :
    effort (step s c rest).state (step s c rest).left < effort s (c :: rest) := by
  unfold step
  split
  · exact effort_contentStep s c rest
  · exact effort_tagStep s _ c rest ‹_›
  · apply effort_lt_of_length_lt
    unfold stringStep
    split
    · exact closeString?_length ‹_›
    · simp
  · apply effort_lt_of_length_lt
    unfold commentStep
    split
    · have := cutAt?_length ‹_›
      simp only [List.length_drop, List.length_cons] at this ⊢; omega
    · simp
  · rename_i kind hk
    have leave : ∀ found : Text, found.length ≤ (c :: rest).length →
        effort (enter s .content) found < effort s (c :: rest) := by
      intro found hf
      simp only [effort, enter, hk]
      simp; simp at hf; omega
    unfold rawStep
    cases kind <;> simp only <;> split
    · exact leave _ (cutAt?_length ‹_›)
    · exact effort_lt_of_length_lt (by simp)
    · exact leave _ (cutAt?_length ‹_›)
    · exact effort_lt_of_length_lt (by simp)

/-! ## Rows and texts -/

/-- The pieces of a text, and the state behind it. -/
def run (s : State) (t : Text) : List Piece × State :=
  match t with
  | [] => ([], s)
  | c :: rest =>
    let next := step s c rest
    let (pieces, last) := run next.state next.left
    (next.pieces ++ pieces, last)
termination_by effort s t
decreasing_by exact effort_step s c rest

/-- The start of a row outside of all elements: what is set off from the content, and the state
behind it. -/
def rowStart (s : State) (row : Text) : Step :=
  let indent : Piece := ⟨row.takeWhile Text.isBlank, []⟩
  let body := row.dropWhile Text.isBlank
  let name (t : Text) : Step :=
    ⟨[indent, ⟨t.takeWhile isTagChar, [Scope.tagNameConcise, Scope.metaTagConcise]⟩],
      enter s (.tag ⟨.opening, true, .void⟩), t.dropWhile isTagChar⟩
  match body with
  | '/' :: '/' :: _ => ⟨[indent, ⟨body, [Scope.commentLine]⟩], s, []⟩
  | '-' :: '-' :: rest => ⟨[indent, ⟨['-', '-'], []⟩], s, rest⟩
  | '|' :: rest => ⟨[indent, ⟨['|'], []⟩], s, rest⟩
  | [] => ⟨[indent], s, []⟩
  | first :: rest =>
    if (first == '.' || first == '#') && rest.head?.any isNameStart then name body
    else if isNameStart first then name body
    else ⟨[indent], s, body⟩

/-- The state behind a row: a tag written without brackets ends with it. -/
def endRow (s : State) : State :=
  match s.mode with
  | .tag tag => if tag.concise then enter s .content else s
  | .string _ tag => if tag.concise then enter s .content else s
  | _ => s

/-- The pieces of a row, and the state behind it. -/
def row (s : State) (t : Text) : List Piece × State :=
  let first : Step :=
    if s.mode = .content ∧ s.depth = 0 then rowStart s t else ⟨[], s, t⟩
  let (pieces, last) := run first.state first.left
  (first.pieces ++ pieces, endRow last)

/-- The pieces of rows that follow each other. -/
def rows (s : State) : List Text → List (List Piece)
  | [] => []
  | t :: below =>
    let (pieces, next) := row s t
    pieces :: rows next below

end Lexer

end TemplateEditing
