import TemplateEditing.Proofs.Completion.Names
import TemplateEditing.Proofs.Completion.Typed
import TemplateEditing.Proofs.Grammar.WellFormed
import TemplateEditing.Proofs.Markup.Cut

/-!
# Close tags

Where a tree is cut off in the content of an element and `</` follows, a close tag is being
completed. The tag it is for is looked for on the walk back, which ends at the first name of a tag.
That is the name of the last element among the siblings, although it is finished, and the name of
the innermost open element only if there is no such sibling, or it has the same name
(`Document.tagName_closing_iff`).
-/

namespace TemplateEditing

open List

variable {x : InkedChar}

/-! ## Rows that end with the start of a close tag -/

namespace Text

lemma takeEndWhile_closing {p : Char → Bool} (h : p '/' = false) (row : Text) :
    takeEndWhile p (row ++ ['<', '/']) = [] :=
  takeEndWhile_of_getLast? (by simp [h])

lemma dropEndWhile_closing {p : Char → Bool} (h : p '/' = false) (row : Text) :
    dropEndWhile p (row ++ ['<', '/']) = row ++ ['<', '/'] := by
  have hcut := dropEndWhile_append_takeEndWhile p (row ++ ['<', '/'])
  rwa [takeEndWhile_closing h, append_nil] at hcut

lemma exists_trim_closing (row : Text) : ∃ row', trim (row ++ ['<', '/']) = row' ++ ['<', '/'] := by
  obtain ⟨row', hstart⟩ : ∃ row', trimStart (row ++ ['<', '/']) = row' ++ ['<', '/'] := by
    rw [trimStart, dropWhile_append]
    split
    · exact ⟨[], by decide⟩
    · exact ⟨_, rfl⟩
  refine ⟨row', ?_⟩
  rw [trim, hstart, dropEndWhile_closing (by decide)]

end Text

namespace CompletionContext

lemma closeTagAtEnd?_closing (row : Text) : closeTagAtEnd? (row ++ ['<', '/']) = some [] := by
  rw [closeTagAtEnd?, Text.dropEndWhile_closing (by decide), Text.takeEndWhile_closing (by decide),
    if_pos]
  exact isSuffixOf_iff_suffix.2 (suffix_append _ _)

lemma attributeAtEnd?_closing (row : Text) : attributeAtEnd? (row ++ ['<', '/']) = none := by
  have hreverse : (row ++ ['<', '/']).reverse = '/' :: '<' :: row.reverse := by simp
  rw [attributeAtEnd?, Text.takeEndWhile_closing (by decide), Text.dropEndWhile_closing (by decide),
    hreverse]
  rfl

/-- A name without marks has no class and no id. -/
lemma shorthandBase?_of_forall {name : Text} (h : ∀ c ∈ name, isBaseChar c = true) :
    shorthandBase? name = none := by
  induction name with
  | nil => rfl
  | cons c rest ih =>
    have hdrop : (c :: rest).dropWhile isBaseChar = [] := dropWhile_eq_nil_iff.2 h
    rw [shorthandBase?, hdrop]
    exact ih fun d hd => h d (mem_cons_of_mem c hd)

end CompletionContext

namespace Document

open CompletionContext

section
variable {d : Document} {p : Position} {row : Text} (hrow : d.text.rowBefore p = row ++ ['<', '/'])
include hrow

lemma contextFromRow_closing (c : CompletionContext) : d.contextFromRow p c = c := by
  unfold contextFromRow
  dsimp only
  rw [hrow, attributeAtEnd?_closing, Text.takeEndWhile_closing (by decide)]
  cases c.attributeName <;> rfl

lemma contextFromScopes_closing (hchain : d.scopesAt p = [Scope.marko])
    (hfrom : d.text.rowFrom p = []) (c : CompletionContext) :
    d.contextFromScopes p c = { c with kind := some .tagEnd, wantsClosing := some true } := by
  obtain ⟨row', htrim⟩ := Text.exists_trim_closing row
  have hlast : (row ++ ['<', '/']).getLast? = some '/' := by simp
  unfold contextFromScopes
  dsimp only
  rw [hrow, hfrom, hchain, htrim, closeTagAtEnd?_closing, hlast]
  rfl

/-- Behind the start of a close tag the context is a close tag for the name that is found. -/
lemma completionContext_closing (hchain : d.scopesAt p = [Scope.marko])
    (hfrom : d.text.rowFrom p = []) {name : Text} {passed : Option Text}
    (hnames : d.enclosingNames? p = some ⟨name, passed, false⟩)
    (hbase : ∀ c ∈ name, isBaseChar c = true) :
    d.completionContext p =
      { kind := some .tagEnd, tagName := some name, attributeName := passed,
        wantsClosing := some true } := by
  have hfound : d.foundContext p = { tagName := some name, attributeName := passed } := by
    rw [foundContext, contextFromRow_closing hrow, namedContext, hnames, contextWithoutShorthand]
    simp [shorthandBase?_of_forall hbase]
  rw [completionContext_of_none (by rw [hfound]), contextFromScopes_closing hrow hchain hfrom,
    hfound, hrow, Text.takeEndWhile_closing (by decide)]

end

end Document

/-! ## The end of a text -/

/-- Behind the last column of a row the scopes are those of that column. -/
lemma ScopeMap.scopesAt_right {m : ScopeMap} {p : Position}
    (h : ∀ row ∈ m.rows[p.row]?, row.length ≤ p.column + 1) :
    m.scopesAt (p.right 1) = m.scopesAt p := by
  have hright : m.rows[(p.right 1).row]? = m.rows[p.row]? := rfl
  rw [scopesAt, scopesAt, hright]
  cases hrow : m.rows[p.row]? with
  | none => rfl
  | some row =>
    have hle := h row hrow
    have hmin : min (p.right 1).column (row.length - 1) = min p.column (row.length - 1) := by
      show min (p.column + 1) _ = _
      omega
    simp only [hmin]

/-- Rows of a template are as long as its scope map says. -/
lemma Grammar.length_row_tokenize {t : Text} (honly : t.OnlyLineFeeds) {i : Nat} {row : ScopeRow}
    (h : (marko.tokenize t).rows[i]? = some row) : row.length = t.lineLength i := by
  have hlength := congrArg (·[i]?) (map_length_tokenize t)
  simp only [getElem?_map, h, Text.grammarRows_eq honly, ← Text.line?_eq honly] at hlength
  obtain ⟨line, hline, hlength⟩ := Option.map_eq_some_iff.1 hlength.symm
  rw [Text.lineLength, Text.line, hline, ← hlength]
  rfl

namespace Document

open CompletionContext

/-- Behind the last character of a template the scopes are those of that character. -/
lemma scopesAt_endPosition {t : Text} (honly : t.OnlyLineFeeds) {i : Nat} {c : Char}
    {label : ScopeChain} (hc : t[i]? = some c) (hn : c ≠ '\n') (hlast : i + 1 = t.length)
    (hlabel : t.labels[i]? = some label) :
    (Document.ofText .marko t).scopesAt t.endPosition = label ++ [Scope.marko] := by
  have hend : t.endPosition = (t.positionOf i).right 1 := by
    rw [Text.endPosition_eq honly, ← hlast, Text.positionOf_succ honly hc hn]
  rw [← scopesAt_positionOf honly hc hn hlabel, hend]
  apply ScopeMap.scopesAt_right
  intro row hrow
  -- the end is behind the last column of its row
  have hcolumn : t.lineLength t.endPosition.row = t.endPosition.column := rfl
  rw [Grammar.length_row_tokenize honly hrow]
  rw [hend] at hcolumn
  exact Nat.le_of_eq hcolumn

/-! ## Names before the end -/

open Markup

lemma isPassed_of_none (h : x.2 = none) : IsPassed x := .inr (.inl h)

lemma isPassed_inkAttribute (a : Attribute) (h : x ∈ a.ink) : IsPassed x := by
  simp only [Attribute.ink, Text.ink, mem_append, mem_map] at h
  rcases h with (⟨c, -, rfl⟩ | ⟨c, hc, rfl⟩) | ⟨c, -, rfl⟩
  · exact isPassed_of_none rfl
  · refine .inr (.inr ⟨rfl, ?_⟩)
    rcases a.name.isAlphanum_or_of_mem hc with halnum | rfl
    · simp [isAttributeChar, halnum]
    · decide
  · exact isPassed_of_none rfl

/-- Behind the name of a tag the walk passes over the attributes and the bracket. -/
lemma isPassed_behindName (tag : Markup.Tag)
    (h : x ∈ inkAttributes tag.attributes ++ (closer tag.kind).ink (endToken tag.kind)) :
    IsPassed x := by
  rcases mem_append.1 h with h | h
  · obtain ⟨a, -, hx⟩ := mem_flatMap.1 h
    exact isPassed_inkAttribute a hx
  · have hcloser : ∀ c ∈ closer tag.kind, isNameChar c = false := by
      cases tag.kind <;>
        simp [closer, show isNameChar '>' = false by decide, show isNameChar '/' = false by decide]
    obtain ⟨c, hc, rfl⟩ := mem_map.1 h
    exact .inl (hcloser c hc)

/-- The walk passes over comments and text. -/
lemma isPassed_inkSegment {s : Segment} (h : s.name? = none) (hx : x ∈ s.ink) :
    IsPassed x := by
  cases s with
  | tag mark => cases h
  | comment c =>
    obtain ⟨c, -, rfl⟩ := mem_map.1 hx
    exact isPassed_of_none rfl
  | text p =>
    obtain ⟨c, -, rfl⟩ := mem_map.1 hx
    exact isPassed_of_none rfl

lemma isTagChar_of_mem (name : Name) {c : Char} (hc : c ∈ name.text) :
    isTagChar c = true ∧ isNameChar c = true ∧ isBaseChar c = true := by
  rcases name.isAlphanum_or_of_mem hc with halnum | rfl
  · simp [isTagChar, isNameChar, isShorthandChar, isBaseChar, halnum]
  · decide

/-- The walk back over segments ends at the last tag. -/
lemma Inked.namesBefore_segments {d : Document} {segments : List Segment} {rest : List InkedChar}
    (h : d.Inked (inkSegments segments ++ rest))
    (hscopes : d.scopes = Grammar.marko.tokenize d.text) {name : Name}
    (hlast : lastTagName? segments = some name) (hrest : ∀ x ∈ rest, IsPassed x) :
    ∃ passed, d.namesBefore none (inkSegments segments ++ rest).length =
      some ⟨name.text, passed, false⟩ := by
  obtain ⟨a, mark, b, rfl, rfl, hb⟩ := exists_of_lastTagName? hlast
  let front := inkSegments a ++ (opener mark.kind).ink (startToken mark.kind)
  let behind := inkAttributes mark.attributes ++ (closer mark.kind).ink (endToken mark.kind) ++
    (inkSegments b ++ rest)
  have hink : inkSegments (a ++ .tag mark :: b) ++ rest =
      front ++ mark.name.text.ink (some (nameToken mark.kind)) ++ behind ++ [] := by
    simp [front, behind, Segment.ink, Tag.ink]
  -- the name of the last tag is whole, and all that stands behind it is passed
  have hfront : ∀ c ∈ (textOf front).getLast?, isTagChar c = false := by
    have hopener : textOf front = renderSegments a ++ opener mark.kind := by simp [front]
    rw [hopener, getLast?_append]
    cases mark.kind <;> simp [opener] <;> decide
  have hbehind : ∀ x ∈ behind, IsPassed x := by
    intro x hx
    rcases mem_append.1 hx with hx | hx
    · exact isPassed_behindName mark hx
    rcases mem_append.1 hx with hx | hx
    · obtain ⟨s, hs, hx⟩ := mem_flatMap.1 hx
      exact isPassed_inkSegment (hb s hs) hx
    · exact hrest x hx
  have hname : ∀ c ∈ mark.name.text, isTagChar c = true ∧ isNameChar c = true := fun c hc =>
    ⟨(isTagChar_of_mem mark.name hc).1, (isTagChar_of_mem mark.name hc).2.1⟩
  have htoken : (nameToken mark.kind).kind.isName = true := by cases mark.kind <;> rfl
  have hconcise : (nameToken mark.kind).concise = false := by cases mark.kind <;> rfl
  obtain ⟨passed, hnames⟩ := h.namesBefore_name hscopes hink htoken (cons_ne_nil _ _) hname
    hfront hbehind
  refine ⟨passed, ?_⟩
  rw [hink, ← hconcise, ← hnames]
  simp [Nat.add_assoc]

/-! ## Trees that are cut off -/

/-- What stands before a cut, and the start of a close tag, with the parts of the tags. -/
def closingInk (cut : Cut) : List InkedChar :=
  inkSegments cut.segments ++ [('<', none), ('/', none)]

lemma textOf_closingInk (cut : Cut) : textOf (closingInk cut) = cut.render ++ ['<', '/'] := by
  rw [closingInk, textOf_append, textOf_inkSegments, ← cut.render_eq]
  rfl

lemma onlyLineFeeds_closingInk (cut : Cut) : (textOf (closingInk cut)).OnlyLineFeeds := by
  rw [textOf_closingInk, cut.render_eq]
  exact (onlyLineFeeds_renderSegments cut.segments).append (by decide)

/-- The start of a close tag has no scopes of its own. -/
lemma paint_closing (depth : Nat) : Lexer.paint ⟨.content, depth⟩ ['<', '/'] = [[], []] := by
  have hbracket : Lexer.paint ⟨.content, depth⟩ ('<' :: (['/'] ++ [])) =
      [] :: Lexer.paint ⟨.content, depth⟩ ['/'] :=
    Lexer.paint_step _ (by decide) (by decide) (.inl rfl)
  have hslash : Lexer.paint ⟨.content, depth⟩ ('/' :: ([] ++ [])) =
      [] :: Lexer.paint ⟨.content, depth⟩ [] :=
    Lexer.paint_step _ (by decide) (by decide) (.inl rfl)
  rw [Lexer.paint_nil] at hslash
  exact hbracket.trans (congrArg _ hslash)

/-- The labels of what stands before a cut are those of its parts, and the start of a close tag has
none. -/
lemma exists_labels_closingInk (cut : Cut) : ∃ labels,
    labels.map Lexer.partOf = (inkSegments cut.segments).map Prod.snd ∧
      (textOf (closingInk cut)).labels = labels ++ [[], []] := by
  obtain ⟨labels, hparts, hpaint⟩ := cut.inks ['<', '/']
  have hbracket : (textOf (closingInk cut)).head? = some '<' := by
    rw [textOf_closingInk]
    obtain ⟨outer, innermost⟩ := cut
    cases outer <;> rfl
  refine ⟨labels, hparts, ?_⟩
  rw [labels_bracket hbracket, closingInk, textOf_append, ← paint_closing, ← hpaint]
  rfl

/-- The document of a tree that is cut off where a close tag starts. -/
def closing (cut : Cut) : Document := .ofText .marko (cut.render ++ ['<', '/'])

lemma inked_closing (cut : Cut) : (closing cut).Inked (closingInk cut) := by
  obtain ⟨labels, hparts, hlabels⟩ := exists_labels_closingInk cut
  rw [closing, ← textOf_closingInk]
  apply inked_of_labels (onlyLineFeeds_closingInk cut)
  rw [hlabels, map_append, hparts, closingInk, map_append]
  rfl

/-- Nothing is known at the end but that it is in the template. -/
lemma scopesAt_closing (cut : Cut) :
    (closing cut).scopesAt (closing cut).text.endPosition = [Scope.marko] := by
  have honly := onlyLineFeeds_closingInk cut
  obtain ⟨labels, hparts, hlabels⟩ := exists_labels_closingInk cut
  have hlength : labels.length = (inkSegments cut.segments).length := by
    have h := congrArg List.length hparts
    rwa [length_map, length_map] at h
  have hslash : (textOf (closingInk cut))[labels.length + 1]? = some '/' := by
    rw [closingInk, textOf_append, hlength, ← length_textOf, getElem?_append_right (by omega)]
    simp
  have hlast : labels.length + 1 + 1 = (textOf (closingInk cut)).length := by
    rw [length_textOf, closingInk, length_append, hlength]
    rfl
  have hlabel : (textOf (closingInk cut)).labels[labels.length + 1]? = some [] := by
    rw [hlabels, getElem?_append_right (by omega)]
    simp
  have h := scopesAt_endPosition honly hslash (by decide) hlast hlabel
  rw [textOf_closingInk] at h
  exact h

/-- The walk back from the end finds the name that stands last before the cut. -/
lemma exists_enclosingNames?_closing (cut : Cut) :
    ∃ passed, (closing cut).enclosingNames? (closing cut).text.endPosition =
      some ⟨cut.lastName.text, passed, false⟩ := by
  have hinked := inked_closing cut
  have hrest : ∀ x ∈ [('<', none), ('/', none)], IsPassed x := by
    simp [IsPassed]
  obtain ⟨passed, hnames⟩ := hinked.namesBefore_segments rfl cut.lastTagName?_segments hrest
  refine ⟨passed, ?_⟩
  rw [enclosingNames?, Text.endPosition_eq hinked.onlyLineFeeds, hinked.text_eq, length_textOf,
    ← hnames, namesBefore, hinked.text_eq]
  rfl

lemma exists_rowBefore_closing (cut : Cut) :
    ∃ row, (closing cut).text.rowBefore (closing cut).text.endPosition = row ++ ['<', '/'] := by
  have honly := (inked_closing cut).onlyLineFeeds
  refine ⟨Text.takeEndWhile (· != '\n') cut.render, ?_⟩
  rw [Text.endPosition_eq honly, Text.rowBefore_positionOf honly (Nat.le_refl _), take_length]
  exact Text.takeEndWhile_append_of_pos (by decide)

/-- **Completing a close tag.** Let a tree be cut off in the content of an element, whatever nodes
would follow there, so that the close tag of that element is the next one missing. If `</` stands at
the cut, a close tag is completed, with nothing typed of its name. The name is that of the last
element before the cut in the innermost open element, although that one is finished, and that of the
innermost open element if there is none. So the innermost open element is closed exactly if no
element stands before the cut in it, or the last one has the same name. -/
theorem tagName_closing_iff (cut : Cut) :
    let d := Document.ofText .marko (cut.render ++ ['<', '/'])
    let c := d.completionContext d.text.endPosition
    (∀ after, ∃ (tree : Tree) (rest : Text), tree.render =
      cut.render ++ renderAll after ++ (closeTag cut.innermost.name).render ++ rest) ∧
    c.kind = some .tagEnd ∧ c.typed = [] ∧ c.hasShorthand = false ∧ c.wantsClosing = some true ∧
      c.tagName = some ((lastName? cut.innermost.before).getD cut.innermost.name.toName).text ∧
      (c.tagName = some cut.innermost.name.text ↔
        ∀ name ∈ lastName? cut.innermost.before, name.text = cut.innermost.name.text) := by
  intro d c
  obtain ⟨row, hrow⟩ := exists_rowBefore_closing cut
  obtain ⟨passed, hnames⟩ := exists_enclosingNames?_closing cut
  have hfrom : (closing cut).text.rowFrom (closing cut).text.endPosition = [] := drop_length
  have hbase : ∀ c ∈ cut.lastName.text, isBaseChar c = true := fun c hc =>
    (isTagChar_of_mem cut.lastName hc).2.2
  have hcontext : c =
      { kind := some .tagEnd, tagName := some cut.lastName.text, attributeName := passed,
        wantsClosing := some true } :=
    completionContext_closing hrow (scopesAt_closing cut) hfrom hnames hbase
  rw [hcontext]
  refine ⟨cut.exists_tree, rfl, rfl, rfl, rfl, rfl, ?_⟩
  rw [Option.some.injEq, Cut.lastName]
  cases lastName? cut.innermost.before with
  | none => simp
  | some name => simp

/-- An entry in a menu that is not closed yet. -/
def sampleCut : Cut where
  outer := []
  innermost :=
    { name := ⟨⟨'m', ['e', 'n', 'u'], rfl, by decide⟩, by decide⟩
      attributes := []
      before := [.element ⟨⟨'e', ['n', 't', 'r', 'y'], rfl, by decide⟩, by decide⟩ [] []] }

/-- The entry is closed again, not the menu. -/
theorem tagName_closing_sampleCut :
    let d := Document.ofText .marko (sampleCut.render ++ ['<', '/'])
    let c := d.completionContext d.text.endPosition
    d.text = "<menu><entry></entry></".toList ∧
      sampleCut.innermost.name.text = ['m', 'e', 'n', 'u'] ∧
      c.kind = some .tagEnd ∧ c.tagName = some ['e', 'n', 't', 'r', 'y'] := by
  intro d c
  have hrender : sampleCut.render ++ ['<', '/'] = "<menu><entry></entry></".toList := by
    decide +kernel
  have hd : d = .ofText .marko "<menu><entry></entry></".toList :=
    congrArg (ofText .marko) hrender
  have honly : d.text.OnlyLineFeeds := (inked_closing sampleCut).onlyLineFeeds
  have hend := Text.endPosition_eq honly
  have hwalk := Text.walkBack_positionOf honly (Nat.le_refl _)
  have hcontext : c =
      { kind := some .tagEnd, tagName := some ['e', 'n', 't', 'r', 'y'],
        wantsClosing := some true } := by
    show d.completionContext d.text.endPosition = _
    rw [completionContext, enclosingNames?, hend, hwalk, hd]
    decide +kernel
  rw [hcontext, hd]
  exact ⟨rfl, rfl, rfl, rfl⟩

end Document

end TemplateEditing
