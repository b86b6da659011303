import Mathlib.Data.List.Infix
import TemplateEditing.Completion.Context
import TemplateEditing.Proofs.Grammar.Pieces
import TemplateEditing.Proofs.Text.Walk

/-!
# Names on the walk back

The walk back from a position looks for names by the scopes of characters. In a template the part of
a tag that a character belongs to says the same (`Document.Inked.named?_eq`). So the walk can be
followed over the inked text: it passes over everything but the names of tags
(`Document.Inked.namesBefore_append`), and ends at the first such name
(`Document.Inked.namesBefore_name`).
-/

namespace TemplateEditing

open List

variable {scope : String}

/-- The name that a part of a tag is; names of attributes only if asked for. -/
def Token.named? (attributes : Bool) (token : Token) : Option NamedThing :=
  if token.kind.isName then some (.tag token.concise)
  else if token.kind = .attributeName ∧ attributes = true then some .attribute
  else none

/-! ## Scopes -/

namespace Scope

/-- A scope does not begin with two texts that differ. -/
lemma not_beginsWith {scope lead lead' : String} (h : beginsWith scope lead = true)
    (hne : ¬ lead.toList <+: lead'.toList) (hne' : ¬ lead'.toList <+: lead.toList) :
    beginsWith scope lead' = false := by
  rw [Bool.eq_false_iff]
  intro h'
  rcases prefix_or_prefix_of_prefix (List.isPrefixOf_iff_prefix.1 h)
    (List.isPrefixOf_iff_prefix.1 h') with hp | hp
  · exact hne hp
  · exact hne' hp

/-- A scope does not end with two texts that differ. -/
lemma not_endsWith {scope tail tail' : String} (h : endsWith scope tail = true)
    (hne : ¬ tail.toList <:+ tail'.toList) (hne' : ¬ tail'.toList <:+ tail.toList) :
    endsWith scope tail' = false := by
  rw [Bool.eq_false_iff]
  intro h'
  rcases suffix_or_suffix_of_suffix (isSuffixOf_iff_suffix.1 h)
    (isSuffixOf_iff_suffix.1 h') with hs | hs
  · exact hne hs
  · exact hne' hs

lemma isAttributeName_cases (h : isAttributeName scope = true) :
    beginsWith scope "entity.other.attribute-name" = true ∨
      beginsWith scope "support.function.marko-attribute" = true := by
  simpa [isAttributeName] using h

/-- The name of an attribute is no region but that of an attribute's name. -/
lemma region?_of_isAttributeName (h : isAttributeName scope = true) :
    region? scope = some .attributeName := by
  have hother : ∀ lead ∈ ["entity.name.tag", "support.function.marko-tag", "meta.tag",
      "string.quoted", "punctuation.definition.string", "punctuation.separator.key-value"],
      beginsWith scope lead = false := by
    intro lead hlead
    rcases isAttributeName_cases h with h | h
    all_goals
      apply not_beginsWith h
      all_goals
        revert hlead lead
        decide
  simp only [mem_cons, not_mem_nil, or_false, forall_eq_or_imp, forall_eq] at hother
  simp [region?, isTagName, hother, h]

lemma beginsWith_of_bracket {kind : TokenKind}
    (h : (bracket? scope).bind bracketKind? = some kind) :
    beginsWith scope "punctuation.definition.marko-tag." = true := by
  obtain ⟨part, hpart, -⟩ := Option.bind_eq_some_iff.1 h
  unfold bracket? at hpart
  dsimp only at hpart
  split at hpart
  · assumption
  · cases hpart

/-- A bracket is no name. -/
lemma named?_of_bracket {kind : TokenKind}
    (h : (bracket? scope).bind bracketKind? = some kind) (attributes : Bool) :
    Token.named? attributes { kind := kind } = none := by
  obtain ⟨part, -, hkind⟩ := Option.bind_eq_some_iff.1 h
  obtain ⟨before, behind, hbrackets, -⟩ := lookup_eq_some_iff.1 hkind
  have hmem : kind ∈ (before ++ (part, kind) :: behind).map Prod.snd := by simp
  rw [← hbrackets] at hmem
  simp only [map_cons, map_nil, mem_cons, not_mem_nil, or_false] at hmem
  rcases hmem with rfl | rfl | rfl | rfl | rfl <;> rfl

/-- What begins like a name is no bracket. -/
lemma bracket_eq_none (h : isTagName scope = true ∨ isAttributeName scope = true) :
    (bracket? scope).bind bracketKind? = none := by
  rw [Option.eq_none_iff_forall_not_mem]
  intro kind hkind
  have hlead := beginsWith_of_bracket hkind
  rcases h with h | h
  · rw [isTagName, not_beginsWith hlead (by decide) (by decide),
      not_beginsWith hlead (by decide) (by decide)] at h
    cases h
  · rw [isAttributeName, not_beginsWith hlead (by decide) (by decide),
      not_beginsWith hlead (by decide) (by decide)] at h
    cases h

/-- A scope that begins like a tag's name says of names that, and whether the tag has brackets. -/
lemma named?_of_isTagName (h : isTagName scope = true) (attributes : Bool) :
    namesTag scope = true ∧ (token? scope).bind (Token.named? attributes) =
      some (.tag (endsWith scope ".concise")) := by
  rw [namesTag, token?, bracket_eq_none (.inl h)]
  simp only [h, if_true]
  split
  next hclose =>
    rw [not_endsWith hclose (by decide) (by decide)]
    exact ⟨rfl, rfl⟩
  next => exact ⟨rfl, rfl⟩

/-- A scope that begins like an attribute's name says of names that. -/
lemma named?_of_isAttributeName (h : isAttributeName scope = true)
    (attributes : Bool) : (token? scope).bind (Token.named? attributes) =
      if attributes then some .attribute else none := by
  have htag : isTagName scope = false := by
    rcases isAttributeName_cases h with h | h
    all_goals
      rw [isTagName, not_beginsWith h (by decide) (by decide),
        not_beginsWith h (by decide) (by decide)]
      rfl
  rw [token?, bracket_eq_none (.inr h)]
  simp [htag, h, Token.named?, TokenKind.isName]

/-- Any other scope says nothing of names. -/
lemma named?_of_not (htag : isTagName scope = false)
    (hattribute : isAttributeName scope = false) (attributes : Bool) :
    namesTag scope = false ∧ region? scope ≠ some .attributeName ∧
      (token? scope).bind (Token.named? attributes) = none := by
  have hnamed (attributes : Bool) : (token? scope).bind (Token.named? attributes) = none := by
    cases hbracket : (bracket? scope).bind bracketKind? with
    | none =>
      rw [token?, hbracket]
      simp [htag, hattribute]
    | some kind =>
      rw [token?, hbracket]
      exact named?_of_bracket hbracket attributes
  refine ⟨?_, ?_, hnamed attributes⟩
  · rw [namesTag, Option.any_eq_false]
    intro token htoken
    have := hnamed false
    rw [htoken, Option.bind_some, Token.named?] at this
    split at this
    · cases this
    · exact Bool.eq_false_iff.2 ‹_›
  · unfold region?
    rw [hattribute]
    repeat' split
    all_goals simp_all

end Scope

/-- A scope says of names what the part of a tag says that it stands for. -/
lemma ScopeChain.named?_singleton (scope : String) (attributes : Bool) :
    ScopeChain.named? [scope] attributes = (Scope.token? scope).bind (Token.named? attributes) := by
  simp only [ScopeChain.named?, findSome?_cons, findSome?_nil]
  cases htag : Scope.isTagName scope with
  | true =>
    obtain ⟨hnames, hnamed⟩ := Scope.named?_of_isTagName htag attributes
    have hregion : Scope.region? scope = some (.tag (Scope.endsWith scope ".concise")) := by
      simp [Scope.region?, htag]
    simp [hregion, hnames, hnamed]
  | false =>
    cases hattribute : Scope.isAttributeName scope with
    | true =>
      rw [Scope.region?_of_isAttributeName hattribute,
        Scope.named?_of_isAttributeName hattribute attributes]
      cases attributes <;> rfl
    | false =>
      obtain ⟨hnames, hregion, hnamed⟩ := Scope.named?_of_not htag hattribute attributes
      rw [hnamed, hnames]
      cases hfound : Scope.region? scope with
      | none => rfl
      | some region =>
        cases region with
        | attributeName => exact absurd hfound hregion
        | tag | string | attributeSeparator => rfl

/-- If only the innermost scope is that of a part of a tag, it alone says something of names. -/
lemma ScopeChain.named?_cons {outer : List String}
    (h : ∀ s ∈ outer, Scope.token? s = none) (attributes : Bool) :
    ScopeChain.named? (scope :: outer) attributes =
      (ScopeChain.token? (scope :: outer)).bind (Token.named? attributes) := by
  have hnamed : ScopeChain.named? outer attributes = none := by
    apply findSome?_eq_none_iff.2
    intro s hs
    have hsingle := ScopeChain.named?_singleton s attributes
    rw [h s hs, ScopeChain.named?, findSome?_singleton] at hsingle
    exact hsingle
  have htoken : ScopeChain.token? outer = none := findSome?_eq_none_iff.2 h
  have hsingle := ScopeChain.named?_singleton scope attributes
  rw [ScopeChain.named?] at hnamed hsingle
  rw [ScopeChain.token?] at htoken
  rw [← singleton_append, ScopeChain.named?, ScopeChain.token?, findSome?_append,
    findSome?_append, hnamed, htoken, Option.or_none, Option.or_none, hsingle,
    findSome?_singleton]

/-- The scopes of a piece say of names what the part of a tag says that the piece is. -/
lemma Piece.Orderly.named?_eq {piece : Piece} (h : piece.Orderly) (attributes : Bool) :
    ScopeChain.named? (piece.scopes ++ [Scope.marko]) attributes =
      (ScopeChain.token? (piece.scopes ++ [Scope.marko])).bind (Token.named? attributes) := by
  obtain ⟨t, scopes⟩ := piece
  cases scopes with
  | nil => exact ScopeChain.named?_cons (by simp) attributes
  | cons scope outer =>
    apply ScopeChain.named?_cons
    intro s hs
    rcases mem_append.1 hs with hs | hs
    · exact h.token?_outer s hs
    · rw [mem_singleton.1 hs]
      decide

namespace Document

open CompletionContext

variable {d : Document} {ink : List InkedChar}

/-- In a template the part of a tag that a character belongs to says which name it is of. -/
lemma Inked.named?_eq (h : d.Inked ink) (hscopes : d.scopes = Grammar.marko.tokenize d.text)
    {i : Nat} {c : Char} {part : Option Token} (hi : ink[i]? = some (c, part)) (hn : c ≠ '\n')
    (attributes : Bool) : (d.scopesAt (d.text.positionOf i)).named? attributes =
      part.bind (Token.named? attributes) := by
  obtain ⟨piece, hpiece, -, hchain⟩ :=
    exists_orderly h.onlyLineFeeds hscopes (h.getElem?_text hi) hn
  have hpart := h.tokenAt?_eq hi hn
  rw [tokenAt?, hchain] at hpart
  rw [hchain, hpiece.named?_eq, hpart]

/-! ## The walk back -/

/-- The names found on the walk back from an offset. -/
def namesBefore (d : Document) (passed : Option Text) (i : Nat) : Option EnclosingNames :=
  d.namesOn passed (d.text.walkBack (d.text.positionOf i))

/-- A character that the walk back goes on at: it is no character of a name, or of the name of an
attribute. -/
def IsPassed (x : InkedChar) : Prop :=
  isNameChar x.1 = false ∨ x.2 = none ∨
    x.2 = some { kind := .attributeName } ∧ isAttributeChar x.1 = true

lemma ne_lineFeed_of_isNameChar {c : Char} (h : isNameChar c = true) : c ≠ '\n' := by
  rintro rfl
  exact absurd h (by decide)

/-- At a character that is none of a name nothing happens. -/
lemma namesBefore_succ_of_not (honly : d.text.OnlyLineFeeds) {i : Nat} {c : Char}
    (hc : d.text[i]? = some c) (hname : isNameChar c = false) (passed : Option Text) :
    d.namesBefore passed (i + 1) = d.namesBefore passed i := by
  have hskip (hchar : (d.text.charAt? (d.text.positionOf i)).any isNameChar = false) :
      d.namesOn passed (d.text.positionOf i :: d.text.walkBack (d.text.positionOf i)) =
        d.namesBefore passed i := by
    rw [namesOn, hchar]
    rfl
  rw [namesBefore]
  by_cases hn : c = '\n'
  · subst hn
    rw [Text.walkBack_succ_lineFeed honly hc]
    split
    · apply hskip
      have hlength := Text.lineLength_of_lineFeed honly hc
      rw [Text.charAt?, getElem?_eq_none (Nat.le_of_eq hlength)]
      rfl
    · rfl
  · rw [Text.walkBack_succ honly hc hn]
    apply hskip
    rw [Text.charAt?_positionOf honly hc hn]
    exact hname

section
variable (h : d.Inked ink) (hscopes : d.scopes = Grammar.marko.tokenize d.text) {i : Nat} {c : Char}
  {part : Option Token} (hi : ink[i]? = some (c, part)) (hname : isNameChar c = true)
include h hscopes hi hname

/-- At a character of a name that is not looked for nothing happens. -/
lemma Inked.namesBefore_succ_of_none {passed : Option Text}
    (hpart : part.bind (Token.named? passed.isNone) = none) :
    d.namesBefore passed (i + 1) = d.namesBefore passed i := by
  have hn := ne_lineFeed_of_isNameChar hname
  have hc := h.getElem?_text hi
  rw [namesBefore, Text.walkBack_succ h.onlyLineFeeds hc hn, namesOn,
    Text.charAt?_positionOf h.onlyLineFeeds hc hn, Option.any_some, if_pos hname,
    h.named?_eq hscopes hi hn, hpart]
  rfl

/-- At a character of a tag's name the walk ends. -/
lemma Inked.namesBefore_succ_tag {passed : Option Text} {concise : Bool}
    (hpart : part.bind (Token.named? passed.isNone) = some (.tag concise)) {name : Text}
    (hrun : Text.takeEndWhile isTagChar ((textOf ink).take (i + 1)) = name) (hne : name ≠ []) :
    d.namesBefore passed (i + 1) = some ⟨name, passed, concise⟩ := by
  have hn := ne_lineFeed_of_isNameChar hname
  have hc := h.getElem?_text hi
  have hrun : d.text.runThrough isTagChar (d.text.positionOf i) = name := by
    rw [Text.runThrough_positionOf h.onlyLineFeeds hc hn (by decide), h.text_eq, hrun]
  rw [namesBefore, Text.walkBack_succ h.onlyLineFeeds hc hn, namesOn,
    Text.charAt?_positionOf h.onlyLineFeeds hc hn, Option.any_some, if_pos hname,
    h.named?_eq hscopes hi hn, hpart]
  simp [hrun, hne]

/-- At a character of an attribute's name the walk goes on with that name. -/
lemma Inked.namesBefore_succ_attribute (hpart : part = some { kind := .attributeName })
    (hattribute : isAttributeChar c = true) :
    ∃ passed, d.namesBefore none (i + 1) = d.namesBefore passed i := by
  have hn := ne_lineFeed_of_isNameChar hname
  have hc := h.getElem?_text hi
  have hrun : d.text.runThrough isAttributeChar (d.text.positionOf i) ≠ [] := by
    rw [Text.runThrough_positionOf h.onlyLineFeeds hc hn (by decide), take_add_one, hc,
      Option.toList_some, Text.takeEndWhile_append_of_pos (by simpa using hattribute)]
    simp
  refine ⟨some (d.text.runThrough isAttributeChar (d.text.positionOf i)), ?_⟩
  rw [namesBefore, Text.walkBack_succ h.onlyLineFeeds hc hn, namesOn,
    Text.charAt?_positionOf h.onlyLineFeeds hc hn, Option.any_some, if_pos hname,
    h.named?_eq hscopes hi hn, hpart]
  simp [Token.named?, TokenKind.isName, hrun, namesBefore]

end

/-- The walk goes on at a character, perhaps with the name of an attribute. -/
lemma Inked.exists_namesBefore_succ (h : d.Inked ink)
    (hscopes : d.scopes = Grammar.marko.tokenize d.text) {i : Nat} {x : InkedChar}
    (hi : ink[i]? = some x) (hx : IsPassed x) (passed : Option Text) :
    ∃ passed', d.namesBefore passed (i + 1) = d.namesBefore passed' i := by
  obtain ⟨c, part⟩ := x
  cases hname : isNameChar c with
  | false =>
    exact ⟨passed, namesBefore_succ_of_not h.onlyLineFeeds (h.getElem?_text hi) hname passed⟩
  | true =>
    rcases hx with hx | rfl | ⟨rfl, hattribute⟩
    · rw [hname] at hx
      cases hx
    · exact ⟨passed, h.namesBefore_succ_of_none hscopes hi hname rfl⟩
    · cases passed with
      | none => exact h.namesBefore_succ_attribute hscopes hi hname rfl hattribute
      | some text => exact ⟨some text, h.namesBefore_succ_of_none hscopes hi hname rfl⟩

/-- The walk goes on over a stretch without names of tags. -/
lemma Inked.namesBefore_append (h : d.Inked ink)
    (hscopes : d.scopes = Grammar.marko.tokenize d.text) {a b rest : List InkedChar}
    (hink : ink = a ++ b ++ rest) (hb : ∀ x ∈ b, IsPassed x) (passed : Option Text) :
    ∃ passed', d.namesBefore passed (a.length + b.length) = d.namesBefore passed' a.length := by
  -- the walk comes to the end of the stretch first
  induction b using List.reverseRecOn generalizing passed rest with
  | nil => exact ⟨passed, rfl⟩
  | append_singleton b x ih =>
    have hx : ink[a.length + b.length]? = some x := by
      rw [hink, ← append_assoc, append_assoc, ← length_append,
        getElem?_append_right (Nat.le_refl _), Nat.sub_self]
      rfl
    obtain ⟨passed', hstep⟩ := h.exists_namesBefore_succ hscopes hx (hb x (by simp)) passed
    have hink' : ink = a ++ b ++ (x :: rest) := by simp [hink]
    obtain ⟨passed'', hrest⟩ := ih hink' (fun y hy => hb y (by simp [hy])) passed'
    refine ⟨passed'', ?_⟩
    rw [length_append, length_singleton, ← Nat.add_assoc, hstep, hrest]

/-- The walk ends at the first name of a tag that it comes to. -/
theorem Inked.namesBefore_name (h : d.Inked ink)
    (hscopes : d.scopes = Grammar.marko.tokenize d.text) {a b rest : List InkedChar} {name : Text}
    {token : Token} (hink : ink = a ++ name.ink (some token) ++ b ++ rest)
    (htoken : token.kind.isName = true) (hne : name ≠ [])
    (hname : ∀ c ∈ name, isTagChar c = true ∧ isNameChar c = true)
    (ha : ∀ c ∈ (textOf a).getLast?, isTagChar c = false) (hb : ∀ x ∈ b, IsPassed x) :
    ∃ passed, d.namesBefore none (a.length + name.length + b.length) =
      some ⟨name, passed, token.concise⟩ := by
  have hlength : (a ++ name.ink (some token)).length = a.length + name.length := by simp
  obtain ⟨passed, hwalk⟩ := h.namesBefore_append hscopes hink hb none
  rw [hlength] at hwalk
  refine ⟨passed, hwalk.trans ?_⟩
  -- the last character of the name
  obtain ⟨front, c, rfl⟩ : ∃ front c, name = front ++ [c] :=
    ⟨name.dropLast, name.getLast hne, (dropLast_append_getLast hne).symm⟩
  have hi : ink[a.length + front.length]? = some (c, some token) := by
    rw [hink]
    simp [Text.ink]
  have hrun : Text.takeEndWhile isTagChar ((textOf ink).take (a.length + front.length + 1)) =
      front ++ [c] := by
    have htake : (textOf ink).take (a.length + front.length + 1) = textOf a ++ (front ++ [c]) := by
      rw [hink, textOf_append, textOf_append, textOf_append, textOf_ink, append_assoc,
        take_left']
      simp [Nat.add_assoc]
    rw [htake, Text.takeEndWhile_eq_iff]
    exact ⟨fun c hc => (hname c hc).1, ha⟩
  have hpart : (some token).bind (Token.named? passed.isNone) = some (.tag token.concise) := by
    simp [Token.named?, htoken]
  rw [length_append, length_singleton, ← Nat.add_assoc]
  exact h.namesBefore_succ_tag hscopes hi (hname c (by simp)).2 hpart hrun hne

end Document

end TemplateEditing
