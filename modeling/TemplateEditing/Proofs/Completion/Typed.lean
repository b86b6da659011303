import TemplateEditing.Completion.Context
import TemplateEditing.Proofs.Grammar.Pieces
import TemplateEditing.Proofs.Text.Walk

/-!
# What has been typed

What has been typed is cut off the row by one class of characters, the name being completed by
another one, and the value of an attribute begins where the grammar says. The cuts need not be at
the same place. They are exactly if the name has no colon and no mark stands before it that the
other class has, and if what stands behind the opening quote of a value does not itself look like an
attribute with a value (`Document.typed_eq_iff`).
-/

namespace TemplateEditing

open List

variable {c : Char}

/-! ## Names and values at the end of a row -/

namespace CompletionContext

lemma isTypedChar_of_isAttributeChar (h : isAttributeChar c = true) :
    isTypedChar c = true ↔ c ≠ ':' := by
  by_cases hc : c = ':'
  · subst hc
    decide
  · simp_all [isTypedChar, isAttributeChar]
    tauto

lemma isTypedChar_of_not_isAttributeChar (h : isAttributeChar c = false) :
    isTypedChar c = false ↔ c ∉ ['@', '_', '#'] := by
  simp_all [isTypedChar, isAttributeChar, and_assoc]

lemma isTypedChar_of_isTagChar (h : isTagChar c = true) :
    isTypedChar c = true ↔ c ≠ ':' := by
  by_cases hc : c = ':'
  · subst hc
    decide
  · simp_all [isTypedChar, isTagChar]
    tauto

lemma isTypedChar_of_not_isTagChar (h : isTagChar c = false) :
    isTypedChar c = false ↔ c ≠ '_' := by
  simp_all [isTypedChar, isTagChar]

lemma isTypedChar_of_isValueChar (h : isValueChar c = true) : isTypedChar c = true := by
  simp_all [isTypedChar, isValueChar]
  tauto

lemma isQuote_cases (h : Lexer.isQuote c = true) : c = '"' ∨ c = '\'' := by
  simpa [Lexer.isQuote] using h

/-- A name at the end of a row is what has been typed if both begin at the same place. -/
lemma takeEndWhile_isTypedChar_iff {q : Char → Bool} {P : Char → Prop}
    (hin : ∀ c, q c = true → (isTypedChar c = true ↔ c ≠ ':'))
    (hout : ∀ c, q c = false → (isTypedChar c = false ↔ P c)) (row : Text) :
    ∃ front, row = front ++ row.takeEndWhile q ∧
      (row.takeEndWhile isTypedChar = row.takeEndWhile q ↔
        ':' ∉ row.takeEndWhile q ∧ ∀ c ∈ front.getLast?, P c) := by
  have hcut := Text.dropEndWhile_append_takeEndWhile q row
  refine ⟨row.dropEndWhile q, hcut.symm, ?_⟩
  have hcolon : (∀ c ∈ row.takeEndWhile q, isTypedChar c = true) ↔ ':' ∉ row.takeEndWhile q := by
    constructor
    · intro h hmem
      exact absurd (h ':' hmem) (by decide)
    · intro h c hc
      rw [hin c (Text.of_mem_takeEndWhile hc)]
      rintro rfl
      exact h hc
  have hlast : (∀ c ∈ (row.dropEndWhile q).getLast?, isTypedChar c = false) ↔
      ∀ c ∈ (row.dropEndWhile q).getLast?, P c :=
    forall₂_congr fun c hc => hout c (Text.getLast?_dropEndWhile q row c hc)
  rw [← hcolon, ← hlast, ← Text.takeEndWhile_eq_iff, hcut]

/-- A row that ends with a value ends with the name of an attribute, the sign, a quote and
characters of the value. -/
lemma attributeAtEnd?_value {row name : Text} (h : attributeAtEnd? row = some (name, true)) :
    ∃ front quote, row = front ++ name ++ ['=', quote] ++ row.takeEndWhile isValueChar ∧
      Lexer.isQuote quote = true ∧ ∀ c ∈ name, isAttributeChar c = true := by
  unfold attributeAtEnd? at h
  dsimp only at h
  generalize hplain : (if (row.takeEndWhile isAttributeChar).isEmpty = true then none
    else some (row.takeEndWhile isAttributeChar, false)) = plain at h
  have hne : plain ≠ some (name, true) := by
    rw [← hplain]
    split <;> simp
  split at h
  · next quote before hrow =>
    split at h
    · next hquote =>
      obtain rfl := (Prod.mk.inj (Option.some.inj h)).1
      rw [Bool.and_eq_true] at hquote
      refine ⟨(before.dropWhile isAttributeChar).reverse, quote, ?_, hquote.1, ?_⟩
      · have hcut := Text.dropEndWhile_append_takeEndWhile isValueChar row
        have hbefore : before.reverse = (before.dropWhile isAttributeChar).reverse ++
            (before.takeWhile isAttributeChar).reverse := by
          rw [← reverse_append, takeWhile_append_dropWhile]
        rw [reverse_eq_iff.1 hrow, reverse_cons, reverse_cons, hbefore] at hcut
        conv => lhs; rw [← hcut]
        simp only [append_assoc, cons_append, nil_append]
      · intro c hc
        exact all_eq_true.1 all_takeWhile c (mem_reverse.1 hc)
    · exact absurd h hne
  · exact absurd h hne

lemma attributeAtEnd?_name {row name : Text} (h : attributeAtEnd? row = some (name, false)) :
    row.takeEndWhile isAttributeChar = name := by
  have hplain : (if (row.takeEndWhile isAttributeChar).isEmpty = true then none
      else some (row.takeEndWhile isAttributeChar, false)) = some (name, false) := by
    unfold attributeAtEnd? at h
    dsimp only at h
    split at h
    · split at h
      · cases h
      · exact h
    · exact h
  split at hplain
  · cases hplain
  · exact (Prod.mk.inj (Option.some.inj hplain)).1

end CompletionContext

namespace Document

open CompletionContext

variable {d : Document} {p : Position} {c : CompletionContext}

/-! ## How a context is found -/

/-- The row does not change the names. -/
lemma contextFromRow_names (d : Document) (p : Position) (c : CompletionContext) :
    (d.contextFromRow p c).tagName = c.tagName ∧
      (d.contextFromRow p c).attributeName = c.attributeName ∧
      (d.contextFromRow p c).hasShorthand = c.hasShorthand := by
  unfold contextFromRow
  dsimp only
  repeat' split
  all_goals exact ⟨rfl, rfl, rfl⟩

/-- What the end of the row tells is being completed. -/
inductive EndsWith (c : CompletionContext) (row : Text) : CompletionKind → Prop
  | attributeValue {name : Text} (hname : c.attributeName = some name)
      (hrow : attributeAtEnd? row = some (name, true)) : EndsWith c row .attributeValue
  | attributeName {name : Text} (hname : c.attributeName = some name)
      (hrow : attributeAtEnd? row = some (name, false)) : EndsWith c row .attributeName
  | tagEnd : EndsWith c row .tagEnd
  | tagStart {name : Text} (hname : c.tagName = some name)
      (hrow : row.takeEndWhile isTagChar = name) : EndsWith c row .tagStart

lemma endsWith_of_contextFromRow (hc : c.kind = none) {kind : CompletionKind}
    (h : (d.contextFromRow p c).kind = some kind) : EndsWith c (d.text.rowBefore p) kind := by
  unfold contextFromRow at h
  dsimp only at h
  -- the row ends in the attribute that the scopes have told, or else in the name of a tag
  split at h
  · next expected hexpected =>
    split at h
    · next name hasValue hrow =>
      split at h
      · rw [hc] at h
        cases h
      · next hname =>
        rw [not_not] at hname
        subst hname
        split at h
        · next hvalue =>
          obtain rfl := Option.some.inj h
          rw [hvalue] at hrow
          exact .attributeValue hexpected hrow
        · next hvalue =>
          obtain rfl := Option.some.inj h
          rw [Bool.not_eq_true] at hvalue
          rw [hvalue] at hrow
          exact .attributeName hexpected hrow
    · rw [hc] at h
      cases h
  · split at h
    · rw [hc] at h
      cases h
    · next hname =>
      have hname : c.tagName = some ((d.text.rowBefore p).takeEndWhile isTagChar) := by
        simp only [Bool.or_eq_true, not_or, decide_eq_true_eq, not_not] at hname
        exact hname.2.symm
      split at h
      · obtain rfl := Option.some.inj h
        exact .tagEnd
      split at h
      · obtain rfl := Option.some.inj h
        exact .tagStart hname rfl
      · obtain rfl := Option.some.inj h
        exact .tagStart hname rfl

/-- What the scopes tell is being completed. -/
lemma contextFromScopes_cases (d : Document) (p : Position) (c : CompletionContext) :
    d.contextFromScopes p c = c ∨ (d.contextFromScopes p c).kind = some .tagEnd ∨
      (d.contextFromScopes p c).kind = some .attributeName ∧
        (d.contextFromScopes p c).attributeName = none ∨
      d.contextFromScopes p c = { c with kind := some .tagStart, wantsClosing := some true } ∧
        (d.text.rowBefore p).getLast? = some '<' := by
  unfold contextFromScopes
  dsimp only
  split
  · exact .inl rfl
  split
  · exact .inr (.inl rfl)
  split
  · exact .inr (.inr (.inl ⟨rfl, rfl⟩))
  split
  · split
    · exact .inr (.inl rfl)
    · exact .inl rfl
  · split
    · next hlast => exact .inr (.inr (.inr ⟨rfl, by simpa using hlast⟩))
    · exact .inl rfl

lemma contextWithoutShorthand_names (c : CompletionContext) :
    (contextWithoutShorthand c).kind = c.kind ∧
      (contextWithoutShorthand c).attributeName = c.attributeName ∧
      ((contextWithoutShorthand c).hasShorthand = false →
        (contextWithoutShorthand c).tagName = c.tagName) := by
  unfold contextWithoutShorthand
  split
  · exact ⟨rfl, rfl, (by cases ·)⟩
  · exact ⟨rfl, rfl, fun _ => rfl⟩

/-- Tags that are found around a position have a name. -/
lemma tagName_ne_nil {passed : Option Text} {walk : List Position} {names : EnclosingNames}
    (h : d.namesOn passed walk = some names) : names.tagName ≠ [] := by
  induction walk generalizing passed with
  | nil => cases h
  | cons q rest ih =>
    unfold namesOn at h
    split at h
    · split at h
      · exact ih h
      · dsimp only at h
        split at h
        · cases h
        · next hne =>
          rw [← Option.some.inj h]
          simpa using hne
      · dsimp only at h
        split at h
        · cases h
        · exact ih h
    · exact ih h

/-- The context as far as the names around the position tell. -/
def namedContext (d : Document) (p : Position) : CompletionContext :=
  (d.enclosingNames? p).elim {} fun names =>
    { tagName := some names.tagName, attributeName := names.attributeName,
      concise := names.concise }

/-- The context as far as the names and the row tell. -/
def foundContext (d : Document) (p : Position) : CompletionContext :=
  contextWithoutShorthand (d.contextFromRow p (d.namedContext p))

lemma kind_namedContext (d : Document) (p : Position) : (d.namedContext p).kind = none := by
  unfold namedContext
  cases d.enclosingNames? p <;> rfl

lemma tagName_namedContext {name : Text} (h : (d.namedContext p).tagName = some name) :
    name ≠ [] := by
  unfold namedContext at h
  cases hnames : d.enclosingNames? p with
  | none =>
    rw [hnames] at h
    cases h
  | some names =>
    rw [hnames] at h
    rw [← Option.some.inj h]
    exact tagName_ne_nil hnames

lemma completionContext_eq (d : Document) (p : Position) : d.completionContext p =
    { (if (d.foundContext p).kind.isNone then d.contextFromScopes p (d.foundContext p)
        else d.foundContext p) with
      typed := (d.text.rowBefore p).takeEndWhile isTypedChar } := by
  unfold completionContext foundContext namedContext
  cases d.enclosingNames? p <;> rfl

lemma typed_completionContext (d : Document) (p : Position) :
    (d.completionContext p).typed = (d.text.rowBefore p).takeEndWhile isTypedChar := rfl

/-- If the row tells nothing, the scopes do. -/
lemma completionContext_of_none (h : (d.foundContext p).kind = none) :
    d.completionContext p = { d.contextFromScopes p (d.foundContext p) with
      typed := (d.text.rowBefore p).takeEndWhile isTypedChar } := by
  rw [completionContext_eq, h]
  rfl

lemma completionContext_of_some {kind : CompletionKind} (h : (d.foundContext p).kind = some kind) :
    d.completionContext p = { d.foundContext p with
      typed := (d.text.rowBefore p).takeEndWhile isTypedChar } := by
  rw [completionContext_eq, h]
  rfl

/-- What the row tells about the names. -/
lemma endsWith_of_foundContext {kind : CompletionKind} (h : (d.foundContext p).kind = some kind) :
    EndsWith (d.namedContext p) (d.text.rowBefore p) kind := by
  apply endsWith_of_contextFromRow (d.kind_namedContext p)
  rw [← h, foundContext, (contextWithoutShorthand_names _).1]

lemma attributeName_foundContext (d : Document) (p : Position) :
    (d.foundContext p).attributeName = (d.namedContext p).attributeName := by
  rw [foundContext, (contextWithoutShorthand_names _).2.1, (d.contextFromRow_names p _).2.1]

lemma tagName_foundContext (h : (d.foundContext p).hasShorthand = false) :
    (d.foundContext p).tagName = (d.namedContext p).tagName := by
  rw [foundContext] at h
  rw [foundContext, (contextWithoutShorthand_names _).2.2 h, (d.contextFromRow_names p _).1]

/-- What is being completed is told by the end of the row, or something new begins. -/
inductive Completes (c : CompletionContext) (row : Text) : Option CompletionKind → Prop
  | nothing : Completes c row none
  | attributeValue {name : Text} (hname : c.attributeName = some name)
      (hrow : attributeAtEnd? row = some (name, true)) : Completes c row (some .attributeValue)
  | attributeName {name : Text} (hname : c.attributeName = some name)
      (hrow : attributeAtEnd? row = some (name, false)) : Completes c row (some .attributeName)
  | newAttribute (hname : c.attributeName = none) : Completes c row (some .attributeName)
  | tagEnd : Completes c row (some .tagEnd)
  | tagStart (hname : c.hasShorthand = false → c.tagName = some (row.takeEndWhile isTagChar)) :
      Completes c row (some .tagStart)
  | newTag (hrow : row.getLast? = some '<')
      (hname : c.hasShorthand = false → ∀ name, c.tagName = some name → name ≠ []) :
      Completes c row (some .tagStart)

lemma completes (d : Document) (p : Position) :
    Completes (d.completionContext p) (d.text.rowBefore p) (d.completionContext p).kind := by
  cases hfound : (d.foundContext p).kind with
  | none =>
    have hcontext := completionContext_of_none hfound
    rcases d.contextFromScopes_cases p (d.foundContext p) with h | h | ⟨h, h'⟩ | ⟨h, hrow⟩
    · rw [hcontext, h, hfound]
      exact .nothing
    · rw [hcontext, h]
      exact .tagEnd
    · rw [hcontext, h]
      exact .newAttribute h'
    · rw [hcontext, h]
      refine .newTag hrow fun hshorthand name hname => ?_
      exact tagName_namedContext ((tagName_foundContext hshorthand).symm.trans hname)
  | some kind =>
    have hcontext := completionContext_of_some hfound
    have hattribute := d.attributeName_foundContext p
    rw [hcontext, hfound]
    cases endsWith_of_foundContext hfound with
    | attributeValue hname hrow => exact .attributeValue (hattribute.trans hname) hrow
    | attributeName hname hrow => exact .attributeName (hattribute.trans hname) hrow
    | tagEnd => exact .tagEnd
    | tagStart hname hrow =>
      refine .tagStart fun hshorthand => ?_
      rw [hrow, ← hname]
      exact tagName_foundContext hshorthand

/-! ## Values -/

/-- A string begins at an offset, and has not ended before another one. -/
structure OpensValue (d : Document) (i j : Nat) : Prop where
  lt : i < j
  ne_lineFeed : d.text[i]? ≠ some '\n'
  begins : (d.scopesAt (d.text.positionOf i)).head? = some Scope.stringBegin
  goesOn : ∀ k < j, i < k → d.text[k]? ≠ some '\n' →
    (d.scopesAt (d.text.positionOf k)).head? ∉ [some Scope.stringBegin, some Scope.stringEnd]

/-- A string begins with a quote. -/
lemma OpensValue.exists_quote {i j : Nat} (h : d.OpensValue i j) (hj : j ≤ d.text.length)
    (honly : d.text.OnlyLineFeeds) (hscopes : d.scopes = Grammar.marko.tokenize d.text) :
    ∃ quote, d.text[i]? = some quote ∧ Lexer.isQuote quote = true := by
  have hi : i < d.text.length := Nat.lt_of_lt_of_le h.lt hj
  have hc : d.text[i]? = some d.text[i] := getElem?_eq_getElem hi
  have hn : d.text[i] ≠ '\n' := by
    intro hn
    exact h.ne_lineFeed (hc.trans (congrArg some hn))
  obtain ⟨piece, hpiece, hmem, hchain⟩ := exists_orderly honly hscopes hc hn
  have hhead : piece.scopes.head? = some Scope.stringBegin := by
    have hbegins := h.begins
    rw [hchain] at hbegins
    cases hpieces : piece.scopes with
    | nil =>
      rw [hpieces] at hbegins
      exact absurd hbegins (by decide)
    | cons scope outer =>
      rw [hpieces] at hbegins
      exact hbegins
  obtain ⟨quote, hquote, htext⟩ := hpiece.quote hhead
  rw [htext, mem_singleton] at hmem
  exact ⟨d.text[i], hc, by rw [hmem, hquote]⟩

/-- Behind a quote stands what has been typed, or something that ends in a name, a sign, a quote and
what has been typed. -/
lemma eq_drop_iff {t front name typed : Text} {mark quote : Char} {i : Nat}
    (ht : t = front ++ name ++ ['=', mark] ++ typed) (hquote : Lexer.isQuote quote = true)
    (hi : t[i]? = some quote) (hname : ∀ c ∈ name, isAttributeChar c = true)
    (htyped : ∀ c ∈ typed, isTypedChar c = true) :
    typed = t.drop (i + 1) ↔ ¬ name ++ ['=', mark] ++ typed <:+ t.drop (i + 1) := by
  have hquoteName : quote ∉ name ++ ['='] := by
    intro hmem
    rcases isQuote_cases hquote with rfl | rfl
    all_goals
      rcases mem_append.1 hmem with hmem | hmem
      · exact absurd (hname _ hmem) (by decide)
      · exact absurd hmem (by decide)
  have hquoteTyped : quote ∉ typed := by
    intro hmem
    rcases isQuote_cases hquote with rfl | rfl
    all_goals exact absurd (htyped _ hmem) (by decide)
  have hsplit : t = front ++ ((name ++ ['=']) ++ (mark :: typed)) := by rw [ht]; simp
  -- the quote stands before the name, or it is the mark behind the sign
  by_cases hfront : i < front.length
  · have hdrop : t.drop (i + 1) = front.drop (i + 1) ++ (name ++ ['=', mark] ++ typed) := by
      rw [hsplit, drop_append_of_le_length hfront]
      simp
    refine iff_of_false ?_ fun hnot => hnot ⟨_, hdrop.symm⟩
    intro htyped
    have hlength := congrArg List.length (htyped.trans hdrop)
    simp at hlength
    omega
  · rw [hsplit, getElem?_append_right (Nat.not_lt.1 hfront)] at hi
    by_cases hin : i - front.length < (name ++ ['=']).length
    · rw [getElem?_append_left hin] at hi
      exact absurd (mem_of_getElem? hi) hquoteName
    rw [getElem?_append_right (Nat.not_lt.1 hin)] at hi
    cases hmark : i - front.length - (name ++ ['=']).length with
    | zero =>
      have hdrop : t.drop (i + 1) = typed := by
        rw [show t = (front ++ (name ++ ['=']) ++ [mark]) ++ typed by rw [hsplit]; simp]
        apply drop_left'
        simp only [length_append, length_cons, length_nil] at hin hmark ⊢
        omega
      rw [hdrop]
      refine iff_of_true rfl fun hsuffix => ?_
      have hlength := hsuffix.length_le
      simp at hlength
      omega
    | succ k =>
      rw [hmark, getElem?_cons_succ] at hi
      exact absurd (mem_of_getElem? hi) hquoteTyped

/-- A value at the end of the row, and the string that the grammar sees there. -/
lemma typed_of_attributeValue (honly : d.text.OnlyLineFeeds)
    (hscopes : d.scopes = Grammar.marko.tokenize d.text) {name : Text}
    (h : attributeAtEnd? (d.text.rowBefore p) = some (name, true)) :
    ∃ front quote, Lexer.isQuote quote = true ∧
      d.text.rowBefore p = front ++ name ++ ['=', quote] ++ (d.completionContext p).typed ∧
      ∀ i, d.OpensValue i (d.text.offsetOf p) →
        ((d.completionContext p).typed = (d.text.take (d.text.offsetOf p)).drop (i + 1) ↔
          ¬ name ++ ['=', quote] ++ (d.completionContext p).typed <:+
            (d.text.take (d.text.offsetOf p)).drop (i + 1)) := by
  obtain ⟨front, mark, hrow, hmark, hname⟩ := attributeAtEnd?_value h
  -- the mark is no character that could have been typed, those of a value are
  have htyped : (d.completionContext p).typed = (d.text.rowBefore p).takeEndWhile isValueChar := by
    rw [typed_completionContext]
    conv => lhs; rw [hrow]
    apply Text.takeEndWhile_eq_iff.2
    refine ⟨fun c hc => isTypedChar_of_isValueChar (Text.of_mem_takeEndWhile hc), fun c hc => ?_⟩
    obtain rfl : mark = c := by simpa using hc
    rcases isQuote_cases hmark with rfl | rfl <;> decide
  rw [← htyped] at hrow
  refine ⟨front, mark, hmark, hrow, fun i hopens => ?_⟩
  obtain ⟨quote, hi, hquote⟩ := hopens.exists_quote (d.text.offsetOf_le_length p) honly hscopes
  have hall : ∀ c ∈ (d.completionContext p).typed, isTypedChar c = true := by
    intro c hc
    exact Text.of_mem_takeEndWhile hc
  -- the row is the end of the text up to the position
  rcases Text.rowBefore_cases honly p with hnil | htake
  · rw [hnil] at hrow
    simp at hrow
  · have hcut := Text.dropEndWhile_append_takeEndWhile (· != '\n') (d.text.take (d.text.offsetOf p))
    rw [← htake, hrow] at hcut
    simp only [← append_assoc] at hcut
    exact eq_drop_iff hcut.symm hquote (by rw [getElem?_take_of_lt hopens.lt, hi]) hname hall

/-- **What has been typed.** A value that is being typed stands at the end of the row, behind the
name of its attribute, the sign and a quote; it is all that stands behind the quote that opens the
string, unless that ends in such a name, sign and quote itself. The name of an attribute that is
being typed is what has been typed exactly if it has no colon and none of `@`, `_` and `#` stands
before it, the name of a tag exactly if it has no colon and no `_` stands before it. Behind the
bracket of a new tag nothing has been typed, but there may be the name of another tag. -/
theorem typed_eq_iff {d : Document} (honly : d.text.OnlyLineFeeds)
    (hscopes : d.scopes = Grammar.marko.tokenize d.text) (p : Position) :
    let c := d.completionContext p
    let row := d.text.rowBefore p
    (c.kind = some .attributeValue → ∃ name front quote, c.attributeName = some name ∧
      Lexer.isQuote quote = true ∧ row = front ++ name ++ ['=', quote] ++ c.typed ∧
      ∀ i, d.OpensValue i (d.text.offsetOf p) →
        (c.typed = (d.text.take (d.text.offsetOf p)).drop (i + 1) ↔
          ¬ name ++ ['=', quote] ++ c.typed <:+ (d.text.take (d.text.offsetOf p)).drop (i + 1))) ∧
    (∀ name, c.kind = some .attributeName → c.attributeName = some name →
      ∃ front, row = front ++ name ∧
        (c.typed = name ↔ ':' ∉ name ∧ ∀ x ∈ front.getLast?, x ∉ ['@', '_', '#'])) ∧
    (∀ name, c.kind = some .tagStart → c.tagName = some name → c.hasShorthand = false →
      (∃ front, row = front ++ name ∧
        (c.typed = name ↔ ':' ∉ name ∧ ∀ x ∈ front.getLast?, x ≠ '_')) ∨
        row.getLast? = some '<' ∧ c.typed = [] ∧ name ≠ []) := by
  intro c row
  have hcompletes := d.completes p
  refine ⟨fun hkind => ?_, fun name hkind hname => ?_, fun name hkind hname hshorthand => ?_⟩
  · rw [hkind] at hcompletes
    cases hcompletes with
    | attributeValue hname hrow =>
      obtain ⟨front, quote, h⟩ := typed_of_attributeValue honly hscopes hrow
      exact ⟨_, front, quote, hname, h⟩
  · rw [hkind] at hcompletes
    cases hcompletes with
    | attributeName hname' hrow =>
      obtain rfl := Option.some.inj (hname.symm.trans hname')
      rw [← attributeAtEnd?_name hrow]
      exact takeEndWhile_isTypedChar_iff (fun _ => isTypedChar_of_isAttributeChar)
        (fun _ => isTypedChar_of_not_isAttributeChar) row
    | newAttribute hnone =>
      rw [hname] at hnone
      cases hnone
  · rw [hkind] at hcompletes
    cases hcompletes with
    | tagStart hname' =>
      obtain rfl := Option.some.inj (hname.symm.trans (hname' hshorthand))
      exact .inl (takeEndWhile_isTypedChar_iff (fun _ => isTypedChar_of_isTagChar)
        (fun _ => isTypedChar_of_not_isTagChar) row)
    | newTag hrow hne =>
      refine .inr ⟨hrow, Text.takeEndWhile_of_getLast? fun x hx => ?_, hne hshorthand name hname⟩
      rw [← Option.some.inj (hrow.symm.trans hx)]
      decide

/-- An attribute whose name has a colon. -/
def sampleColon : Document := .ofText .marko "<a x:y".toList

/-- A value that looks like an attribute with a value. -/
def sampleNested : Document := .ofText .marko "<a x=\"x='foo".toList

/-- A new tag behind another one. -/
def sampleBehind : Document := .ofText .marko "<p></p><".toList

lemma completionContext_sampleColon : sampleColon.completionContext ⟨0, 6⟩ =
    { kind := some .attributeName, tagName := some ['a'], attributeName := some ['x', ':', 'y'],
      typed := ['y'], wantsValue := some true } := by
  have hwalk := Text.walkBack_positionOf (t := sampleColon.text) (i := 6) (by decide) (by decide)
  have hposition : sampleColon.text.positionOf 6 = ⟨0, 6⟩ := by decide
  rw [completionContext, enclosingNames?, ← hposition, hwalk]
  decide +kernel

lemma completionContext_sampleNested : sampleNested.completionContext ⟨0, 12⟩ =
    { kind := some .attributeValue, tagName := some ['a'], attributeName := some ['x'],
      typed := ['f', 'o', 'o'] } := by
  have hwalk := Text.walkBack_positionOf (t := sampleNested.text) (i := 12) (by decide) (by decide)
  have hposition : sampleNested.text.positionOf 12 = ⟨0, 12⟩ := by decide
  rw [completionContext, enclosingNames?, ← hposition, hwalk]
  decide +kernel

lemma completionContext_sampleBehind : sampleBehind.completionContext ⟨0, 8⟩ =
    { kind := some .tagStart, tagName := some ['p'], wantsClosing := some true } := by
  have hwalk := Text.walkBack_positionOf (t := sampleBehind.text) (i := 8) (by decide) (by decide)
  have hposition : sampleBehind.text.positionOf 8 = ⟨0, 8⟩ := by decide
  simp only [completionContext, enclosingNames?, contextFromScopes, followsTagContent, ← hposition,
    hwalk]
  decide +kernel

theorem typed_eq_iff_sampleColon : sampleColon.text.OnlyLineFeeds ∧
    ∃ front, sampleColon.text.rowBefore ⟨0, 6⟩ = front ++ ['x', ':', 'y'] ∧
      ((sampleColon.completionContext ⟨0, 6⟩).typed = ['x', ':', 'y'] ↔
        ':' ∉ ['x', ':', 'y'] ∧ ∀ x ∈ front.getLast?, x ∉ ['@', '_', '#']) := by
  have honly : sampleColon.text.OnlyLineFeeds := by decide
  refine ⟨honly, (typed_eq_iff honly rfl ⟨0, 6⟩).2.1 _ ?_ ?_⟩
  · rw [completionContext_sampleColon]
  · rw [completionContext_sampleColon]

/-- Less has been typed than the name with the colon and than the whole value, and nothing of the
name of the tag before. -/
theorem typed_amiss :
    ((sampleColon.completionContext ⟨0, 6⟩).attributeName = some ['x', ':', 'y'] ∧
      (sampleColon.completionContext ⟨0, 6⟩).typed = ['y']) ∧
    (sampleNested.OpensValue 5 12 ∧
      (sampleNested.completionContext ⟨0, 12⟩).kind = some .attributeValue ∧
      (sampleNested.completionContext ⟨0, 12⟩).typed = ['f', 'o', 'o'] ∧
      (sampleNested.text.take 12).drop 6 = "x='foo".toList) ∧
    (sampleBehind.completionContext ⟨0, 8⟩).kind = some .tagStart ∧
      (sampleBehind.completionContext ⟨0, 8⟩).tagName = some ['p'] ∧
      (sampleBehind.completionContext ⟨0, 8⟩).typed = [] := by
  rw [completionContext_sampleColon, completionContext_sampleNested, completionContext_sampleBehind]
  refine ⟨⟨rfl, rfl⟩, ⟨⟨?_, ?_, ?_, ?_⟩, rfl, rfl, rfl⟩, rfl, rfl, rfl⟩
  all_goals decide +kernel

end Document

end TemplateEditing
