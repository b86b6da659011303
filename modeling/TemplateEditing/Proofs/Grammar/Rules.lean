import TemplateEditing.Grammar.Lexer

/-!
# The rules of the lexer

What a step does in content, inside a tag and at the start of a row, with a rule for each thing that
can stand there. Every step is one of these (`contentRule`, `tagRule`, `rowRule`), so that what holds
of all steps is shown rule by rule, and the order in which the lexer tries them matters here only.
-/

namespace TemplateEditing.Lexer

/-- The steps in content. -/
inductive ContentRule (s : State) : Char → Text → Step → Prop where
  | comment {c : Char} {rest : Text} (h : "<!--".toList.isPrefixOf (c :: rest) = true) :
      ContentRule s c rest
        ⟨[⟨(c :: rest).take 4, [Scope.commentBlock]⟩], enter s .comment, rest.drop 3⟩
  | closeTag {rest : Text} (h : rest.head?.any isNameStart = true) :
      ContentRule s '<' ('/' :: rest)
        ⟨[⟨['<', '/'], [Scope.tagBeginClose, Scope.metaTagClose]⟩,
            ⟨rest.takeWhile isTagChar, [Scope.tagNameClose, Scope.metaTagClose]⟩],
          enter s (.tag ⟨.closing, false, .nested⟩), rest.dropWhile isTagChar⟩
  | openTag {rest : Text} (h : rest.head?.any isNameStart = true) :
      ContentRule s '<' rest
        ⟨[⟨['<'], [Scope.tagBeginOpen, Scope.metaTagOpen]⟩,
            ⟨rest.takeWhile isTagChar, [Scope.tagName, Scope.metaTagOpen]⟩],
          enter s (.tag ⟨.opening, false, bodyOf (rest.takeWhile isTagChar)⟩),
          rest.dropWhile isTagChar⟩
  /-- A bracket that begins nothing. -/
  | bracket {rest : Text} : ContentRule s '<' rest ⟨[⟨['<'], []⟩], s, rest⟩
  | placeholder {rest : Text} (h : rest.head? = some '\x7b') :
      ContentRule s '$' rest
        ⟨⟨['$'], []⟩ :: (balanced '\x7b' '\x7d' (fun _ => []) 0 rest).1, s,
          (balanced '\x7b' '\x7d' (fun _ => []) 0 rest).2⟩
  | text {c : Char} {rest : Text} (h : c ≠ '<') :
      ContentRule s c rest
        ⟨[⟨c :: rest.takeWhile fun d => !(d == '<' || d == '$'), []⟩], s,
          rest.dropWhile fun d => !(d == '<' || d == '$')⟩

theorem contentRule (s : State) (c : Char) (rest : Text) :
    ContentRule s c rest (contentStep s c rest) := by
  unfold contentStep
  refine iteInduction .comment fun _ => ?_
  refine iteInduction (fun hclose => ?_) fun _ => ?_
  · simp only [Bool.and_eq_true, beq_iff_eq] at hclose
    obtain ⟨⟨rfl, hslash⟩, hname⟩ := hclose
    obtain ⟨behind, rfl⟩ := List.head?_eq_some_iff.1 hslash
    exact .closeTag hname
  refine iteInduction (fun hopen => ?_) fun _ => ?_
  · simp only [Bool.and_eq_true, beq_iff_eq] at hopen
    obtain ⟨rfl, hname⟩ := hopen
    exact .openTag hname
  refine iteInduction (fun hbracket => ?_) fun hbracket => ?_
  · obtain rfl : c = '<' := beq_iff_eq.1 hbracket
    exact .bracket
  refine iteInduction (fun hcode => ?_) fun _ => ?_
  · simp only [Bool.and_eq_true, beq_iff_eq] at hcode
    obtain ⟨rfl, hbrace⟩ := hcode
    exact .placeholder hbrace
  · exact .text (by simpa using hbracket)

/-- The code in brackets that follows a character inside a tag. -/
def codeStep (s : State) (tag : TagState) (c opener closer : Char) (depth : Nat) (rest : Text) :
    Step :=
  ⟨⟨[c], [Scope.sourceScript, tag.scope]⟩ ::
      (balanced opener closer (fun inner => inner ++ [Scope.sourceScript, tag.scope]) depth rest).1,
    s,
    (balanced opener closer (fun inner => inner ++ [Scope.sourceScript, tag.scope]) depth rest).2⟩

/-- The steps inside a tag. -/
inductive TagRule (s : State) (tag : TagState) : Char → Text → Step → Prop where
  | blanks {c : Char} {rest : Text} (h : Text.isBlank c = true) :
      TagRule s tag c rest
        ⟨[⟨c :: rest.takeWhile Text.isBlank, [tag.scope]⟩], s, rest.dropWhile Text.isBlank⟩
  /-- Text behind a tag without brackets. -/
  | conciseText {rest : Text} (htag : tag.concise = true) (h : rest.head? = some '-') :
      TagRule s tag '-' rest ⟨[⟨'-' :: rest, []⟩], s, []⟩
  | selfClosingEnd {rest : Text} (hside : tag.side = .opening) (htag : tag.concise = false) :
      TagRule s tag '/' ('>' :: rest)
        ⟨[⟨['/', '>'], [Scope.tagEndSelfClose, tag.scope]⟩], enter s .content, rest⟩
  | openTagEnd {rest : Text} (hside : tag.side = .opening) (htag : tag.concise = false) :
      TagRule s tag '>' rest ⟨[⟨['>'], [Scope.tagEndOpen, tag.scope]⟩], endTag s tag, rest⟩
  | closeTagEnd {rest : Text} (hside : tag.side = .closing) (htag : tag.concise = false) :
      TagRule s tag '>' rest ⟨[⟨['>'], [Scope.tagEndClose, tag.scope]⟩], endTag s tag, rest⟩
  /-- The next tag begins before this one has ended. -/
  | nextTag {rest : Text} : TagRule s tag '<' rest ⟨[], enter s .content, '<' :: rest⟩
  | value {rest : Text} : TagRule s tag '=' rest (valueStep s tag '=' rest)
  | string {quote : Char} {rest : Text} (h : isQuote quote = true) :
      TagRule s tag quote rest (openString s tag [] quote rest)
  | arguments {rest : Text} : TagRule s tag '(' rest (codeStep s tag '(' '(' ')' 1 rest)
  | placeholder {rest : Text} (h : rest.head? = some '\x7b') :
      TagRule s tag '$' rest (codeStep s tag '$' '\x7b' '\x7d' 0 rest)
  | attributeName {c : Char} {rest : Text} (h : isAttributeChar c = true) :
      TagRule s tag c rest
        ⟨[⟨c :: rest.takeWhile isAttributeChar, [Scope.attributeName, tag.scope]⟩], s,
          rest.dropWhile isAttributeChar⟩
  /-- A character that means nothing. -/
  | stray {c : Char} {rest : Text}
      (h : tag.side = .opening → tag.concise = false → c = '/' → rest.head? ≠ some '>') :
      TagRule s tag c rest ⟨[⟨[c], [tag.scope]⟩], s, rest⟩

theorem tagRule (s : State) (tag : TagState) (c : Char) (rest : Text) :
    TagRule s tag c rest (tagStep s tag c rest) := by
  unfold tagStep
  refine iteInduction .blanks fun _ => ?_
  refine iteInduction (fun htext => ?_) fun _ => ?_
  · simp only [Bool.and_eq_true, beq_iff_eq] at htext
    obtain ⟨⟨htag, rfl⟩, hnext⟩ := htext
    exact .conciseText htag hnext
  refine iteInduction (fun hself => ?_) fun hself => ?_
  · simp only [Bool.and_eq_true, beq_iff_eq, Bool.not_eq_true'] at hself
    obtain ⟨⟨⟨hside, htag⟩, rfl⟩, hnext⟩ := hself
    obtain ⟨behind, rfl⟩ := List.head?_eq_some_iff.1 hnext
    exact .selfClosingEnd hside htag
  refine iteInduction (fun hend => ?_) fun _ => ?_
  · simp only [Bool.and_eq_true, beq_iff_eq, Bool.not_eq_true'] at hend
    obtain ⟨rfl, htag⟩ := hend
    cases hside : tag.side with
    | opening => exact .openTagEnd hside htag
    | closing => exact .closeTagEnd hside htag
  refine iteInduction (fun hnext => ?_) fun _ => ?_
  · obtain rfl : c = '<' := beq_iff_eq.1 hnext
    exact .nextTag
  refine iteInduction (fun hsign => ?_) fun _ => ?_
  · obtain rfl : c = '=' := beq_iff_eq.1 hsign
    exact .value
  refine iteInduction .string fun _ => ?_
  refine iteInduction (fun hcode => ?_) fun _ => ?_
  · obtain rfl : c = '(' := beq_iff_eq.1 hcode
    exact .arguments
  refine iteInduction (fun hcode => ?_) fun _ => ?_
  · simp only [Bool.and_eq_true, beq_iff_eq] at hcode
    obtain ⟨rfl, hbrace⟩ := hcode
    exact .placeholder hbrace
  refine iteInduction .attributeName fun _ => ?_
  refine .stray fun hside htag hslash hnext => hself ?_
  simp [hside, htag, hslash, hnext]

/-- The steps at the start of a row, which is its blanks and what stands behind them. -/
inductive RowRule (s : State) (indent body : Text) : Step → Prop where
  | comment {rest : Text} (h : body = '/' :: '/' :: rest) :
      RowRule s indent body ⟨[⟨indent, []⟩, ⟨body, [Scope.commentLine]⟩], s, []⟩
  /-- A mark that text follows. -/
  | mark {mark left : Text} (hmark : mark = ['-', '-'] ∨ mark = ['|']) (h : body = mark ++ left) :
      RowRule s indent body ⟨[⟨indent, []⟩, ⟨mark, []⟩], s, left⟩
  /-- A tag without brackets. -/
  | name {first : Char} {rest : Text} (h : body = first :: rest)
      (hfirst : first = '.' ∨ first = '#' ∨ isNameStart first = true) :
      RowRule s indent body
        ⟨[⟨indent, []⟩,
            ⟨body.takeWhile isTagChar, [Scope.tagNameConcise, Scope.metaTagConcise]⟩],
          enter s (.tag ⟨.opening, true, .void⟩), body.dropWhile isTagChar⟩
  | content : RowRule s indent body ⟨[⟨indent, []⟩], s, body⟩

theorem rowRule (s : State) (t : Text) :
    RowRule s (t.takeWhile Text.isBlank) (t.dropWhile Text.isBlank) (rowStart s t) := by
  unfold rowStart
  dsimp only
  split
  · next h => exact .comment h
  · next h => exact .mark (.inl rfl) h
  · next h => exact .mark (.inr rfl) h
  · next h =>
    rw [h]
    exact .content
  · next first rest _ _ _ h =>
    refine iteInduction (fun hshort => .name h ?_) fun _ => ?_
    · simp only [Bool.and_eq_true, Bool.or_eq_true, beq_iff_eq] at hshort
      exact hshort.1.imp_right .inl
    · exact iteInduction (fun hname => .name h (.inr (.inr hname))) fun _ => .content

end TemplateEditing.Lexer
