import TemplateEditing.Proofs.Grammar.Parts
import TemplateEditing.Proofs.Markup.Tree
import TemplateEditing.Proofs.Tag.Tokens

/-!
# The ink of markup

The lexer reads well-formed markup back the way it was written: each character of a tag gets the
part it was written as, and characters of comments and text get none (`Content.inks`,
`Tree.inked`). An element without content, such as `br`, is written as an open tag with no close
tag; the lexer knows such names and reads on at the same depth.
-/

namespace TemplateEditing.Markup

variable {c : Char} {t : Text} {depth : Nat}

open Lexer (Inks)

/-! ## Characters of names -/

namespace Name

lemma isAlphanum_or_of_mem (n : Name) (hc : c ∈ n.text) :
    c.isAlphanum = true ∨ c = '-' := by
  have halnum : c.isLower = true ∨ c.isDigit = true → c.isAlphanum = true := by
    intro h
    rw [Char.isAlphanum, show c.isAlpha = (c.isUpper || c.isLower) from rfl]
    rcases h with h | h <;> simp [h]
  rcases List.mem_cons.1 hc with rfl | hrest
  · exact .inl (halnum (.inl n.first_isLower))
  · have h := n.rest_isNameChar c hrest
    simp only [Bool.or_eq_true, beq_iff_eq] at h
    exact h.imp_left halnum

lemma isAttributeChar_of_mem (n : Name) (hc : c ∈ n.text) :
    Lexer.isAttributeChar c = true := by
  rcases n.isAlphanum_or_of_mem hc with h | rfl
  · simp [Lexer.isAttributeChar, h]
  · decide

lemma isWordChar_of_mem (n : Name) (hc : c ∈ n.text) :
    Pattern.isWordChar c = true := by
  rcases n.isAlphanum_or_of_mem hc with h | rfl
  · simp [Pattern.isWordChar, h]
  · decide

lemma isNameStart_first (n : Name) : Lexer.isNameStart n.first = true := by
  have halpha : n.first.isAlpha = (n.first.isUpper || n.first.isLower) := rfl
  simp [Lexer.isNameStart, halpha, n.first_isLower]

lemma ne_lineFeed_of_mem (n : Name) (hc : c ∈ n.text) : c ≠ '\n' := by
  rintro rfl
  exact absurd (n.isAttributeChar_of_mem hc) (by decide)

lemma onlyLineFeeds (n : Name) : n.text.OnlyLineFeeds := by
  intro c hc hbreak
  simp only [Text.isRowBreak, Bool.or_eq_true, beq_iff_eq] at hbreak
  rcases hbreak with (((((rfl | rfl) | rfl) | rfl) | rfl) | rfl) | rfl
  · rfl
  all_goals exact absurd (n.isAttributeChar_of_mem hc) (by decide)

/-- No class and no id goes with a name. -/
lemma baseName_eq (n : Name) : Lexer.baseName n.text = n.text := by
  apply List.takeWhile_eq_self_iff.2
  intro c hc
  have hword := n.isWordChar_of_mem hc
  have hdot : c ≠ '.' := by
    rintro rfl
    exact absurd hword (by decide)
  have hhash : c ≠ '#' := by
    rintro rfl
    exact absurd hword (by decide)
  simp [hdot, hhash]

/-- An ordinary name has a body with markup in it. -/
lemma bodyOf_eq (n : Name) (h : n.IsOrdinary) : Lexer.bodyOf n.text = .nested := by
  obtain ⟨hscript, hstyle, hvoid⟩ := h
  have hany : Lexer.voidNames.any (·.toList == n.text) = false := by
    rw [List.any_eq_false]
    intro v hv
    rw [beq_iff_eq]
    exact hvoid v hv
  rw [Lexer.bodyOf, baseName_eq]
  simp only [if_neg hscript, if_neg hstyle, hany]
  rfl

end Name

/-! ## Ink -/

/-- The part that the bracket in front of a tag is. -/
def startToken : TagKind → Token
  | .opening | .selfClosing => { kind := .openTagStart }
  | .closing => { kind := .closeTagStart }

/-- The part that the name of a tag is. -/
def nameToken : TagKind → Token
  | .opening | .selfClosing => { kind := .openTagName }
  | .closing => { kind := .closeTagName }

/-- The part that the bracket behind a tag is. -/
def endToken : TagKind → Token
  | .opening => { kind := .openTagEnd }
  | .closing => { kind := .closeTagEnd }
  | .selfClosing => { kind := .selfClosingEnd }

/-- An attribute with its parts. -/
def Attribute.ink (a : Attribute) : List InkedChar :=
  a.gap.ink none ++ a.name.text.ink (some { kind := .attributeName }) ++
    Text.ink ((a.value.map Value.render).getD []) none

/-- Attributes with their parts. -/
def inkAttributes (as : List Attribute) : List InkedChar := as.flatMap Attribute.ink

/-- A tag with its parts. -/
def Tag.ink (tag : Tag) : List InkedChar :=
  (opener tag.kind).ink (startToken tag.kind) ++ tag.name.text.ink (nameToken tag.kind) ++
    inkAttributes tag.attributes ++ (closer tag.kind).ink (endToken tag.kind)

/-- A segment with its parts. -/
def Segment.ink : Segment → List InkedChar
  | .tag mark => mark.ink
  | .comment c => c.render.ink none
  | .text p => p.text.ink none

/-- Segments with their parts, one after the other. -/
def inkSegments (segments : List Segment) : List InkedChar := segments.flatMap Segment.ink

@[simp] lemma textOf_inkAttribute (a : Attribute) : textOf a.ink = a.render := by
  simp [Attribute.ink, Attribute.render]

@[simp] lemma textOf_inkAttributes (as : List Attribute) :
    textOf (inkAttributes as) = renderAttributes as := by
  induction as with
  | nil => rfl
  | cons a as ih =>
    show textOf (a.ink ++ inkAttributes as) = a.render ++ renderAttributes as
    rw [textOf_append, textOf_inkAttribute, ih]

/-- The ink of a tag spells it. -/
@[simp] lemma textOf_inkTag (tag : Tag) : textOf tag.ink = tag.render := by
  simp [Tag.ink, Tag.render]

@[simp] lemma textOf_inkSegment (s : Segment) : textOf s.ink = s.render := by
  cases s with
  | tag mark => exact textOf_inkTag mark
  | comment c => exact textOf_ink c.render none
  | text p => exact textOf_ink p.text none

@[simp] lemma inkSegments_nil : inkSegments [] = [] := rfl

@[simp] lemma inkSegments_cons (s : Segment) (segments : List Segment) :
    inkSegments (s :: segments) = s.ink ++ inkSegments segments := rfl

@[simp] lemma inkSegments_append (a b : List Segment) :
    inkSegments (a ++ b) = inkSegments a ++ inkSegments b := List.flatMap_append

/-- The ink of segments spells them. -/
@[simp] lemma textOf_inkSegments (segments : List Segment) :
    textOf (inkSegments segments) = renderSegments segments := by
  induction segments with
  | nil => rfl
  | cons s segments ih => rw [inkSegments_cons, textOf_append, ih, textOf_inkSegment,
      renderSegments_cons]

lemma length_inkSegments (segments : List Segment) :
    (inkSegments segments).length = (renderSegments segments).length := by
  rw [← textOf_inkSegments, length_textOf]

/-! ## Tags in the lexer -/

/-- What stands behind the name of a tag. -/
lemma head_behind_name (as : List Attribute) (kind : TagKind) (t : Text) :
    ∀ c ∈ (renderAttributes as ++ (closer kind ++ t)).head?,
      c = ' ' ∨ c = '\n' ∨ c = '>' ∨ c = '/' := by
  intro c hc
  cases as with
  | nil => cases kind <;> cases hc <;> simp
  | cons a as =>
    obtain ⟨first, rest, hgap⟩ := List.exists_cons_of_ne_nil a.gap_ne_nil
    have hrender : renderAttributes (a :: as) = a.render ++ renderAttributes as := rfl
    rw [hrender, Attribute.render, hgap] at hc
    cases hc
    rcases a.gap_blank c (by rw [hgap]; exact List.mem_cons_self) with h | h
    · exact .inl h
    · exact .inr (.inl h)

/-- The lexer reads an attribute. -/
lemma Attribute.inks (a : Attribute) {tag : Lexer.TagState} (h : tag.concise = false)
    (depth : Nat) (t : Text) : Inks ⟨.tag tag, depth⟩ a.ink ⟨.tag tag, depth⟩ t := by
  have hname : ∀ c ∈ a.name.text, Lexer.isAttributeChar c = true ∧ c ≠ '\n' := fun c hc =>
    ⟨a.name.isAttributeChar_of_mem hc, a.name.ne_lineFeed_of_mem hc⟩
  have hvalue : Inks ⟨.tag tag, depth⟩ (Text.ink ((a.value.map Value.render).getD []) none)
      ⟨.tag tag, depth⟩ t := by
    cases a.value with
    | none => exact .refl _ _
    | some v => exact Lexer.inks_value depth h v.no_quote v.no_backslash t
  exact ((Lexer.inks_gap h depth a.gap_blank _).trans
    (Lexer.inks_attributeName h depth hname _)).trans hvalue

/-- Attributes are read as they are inked, inside their tag. -/
lemma inks_inkAttributes (as : List Attribute) {tag : Lexer.TagState} (h : tag.concise = false)
    (depth : Nat) (t : Text) :
    Inks ⟨.tag tag, depth⟩ (inkAttributes as) ⟨.tag tag, depth⟩ t := by
  induction as with
  | nil => exact .refl _ _
  | cons a as ih => exact (a.inks h depth _).trans ih

namespace Tag

/-- What the lexer is inside of between the name of a tag and its end. -/
def inside (tag : Tag) : Lexer.TagState :=
  match tag.kind with
  | .opening | .selfClosing => ⟨.opening, false, Lexer.bodyOf tag.name.text⟩
  | .closing => ⟨.closing, false, .nested⟩

lemma concise_inside (tag : Tag) : tag.inside.concise = false := by
  unfold inside
  split <;> rfl

/-- How many elements are open behind a tag. -/
def depthBehind (kind : TagKind) (depth : Nat) : Nat :=
  match kind with
  | .opening => depth + 1
  | .closing => depth - 1
  | .selfClosing => depth

/-- The lexer reads the start of a tag. -/
lemma inks_front (tag : Tag) (depth : Nat) (ht : ∀ c ∈ t.head?, Lexer.isTagChar c = false) :
    Inks ⟨.content, depth⟩ ((opener tag.kind).ink (startToken tag.kind) ++
      tag.name.text.ink (nameToken tag.kind)) ⟨.tag tag.inside, depth⟩ t := by
  have hname : ∀ c ∈ tag.name.first :: tag.name.rest, Lexer.isTagChar c = true ∧ c ≠ '\n' := by
    intro c hc
    refine ⟨?_, tag.name.ne_lineFeed_of_mem hc⟩
    rw [Lexer.isTagChar, tag.name.isAttributeChar_of_mem hc]
    rfl
  have hopen := Lexer.inks_openTag tag.name.isNameStart_first hname ht depth
  have hclose := Lexer.inks_closeTag tag.name.isNameStart_first hname ht depth
  obtain ⟨kind, name, attributes⟩ := tag
  cases kind with
  | opening => exact hopen
  | selfClosing => exact hopen
  | closing => exact hclose

/-- The lexer reads the end of a tag. -/
lemma inks_closer (tag : Tag) (h : tag.kind = .opening → tag.name.IsOrdinary) (depth : Nat)
    (t : Text) :
    Inks ⟨.tag tag.inside, depth⟩ ((closer tag.kind).ink (endToken tag.kind))
      ⟨.content, depthBehind tag.kind depth⟩ t := by
  obtain ⟨kind, name, attributes⟩ := tag
  cases kind with
  | opening =>
    rw [show inside ⟨.opening, name, attributes⟩ = ⟨.opening, false, .nested⟩ by
      rw [inside, name.bodyOf_eq (h rfl)]]
    exact Lexer.inks_openTagEnd ⟨.content, depth⟩ .nested t
  | selfClosing => exact Lexer.inks_selfClosingEnd depth _ t
  | closing => exact Lexer.inks_closeTagEnd depth _ t

/-- The lexer reads a tag, if it reads the end of it. -/
lemma inks_of_closer (tag : Tag) {s : Lexer.State}
    (h : Inks ⟨.tag tag.inside, depth⟩ ((closer tag.kind).ink (endToken tag.kind)) s t) :
    Inks ⟨.content, depth⟩ tag.ink s t := by
  have hbehind : ∀ c ∈ (renderAttributes tag.attributes ++ (closer tag.kind ++ t)).head?,
      Lexer.isTagChar c = false := by
    intro c hc
    rcases head_behind_name tag.attributes tag.kind t c hc with rfl | rfl | rfl | rfl <;> decide
  have hfront := tag.inks_front depth hbehind
  rw [← textOf_inkAttributes, ← textOf_ink (closer tag.kind) (endToken tag.kind)] at hfront
  exact (hfront.trans (inks_inkAttributes _ tag.concise_inside depth _)).trans h

/-- The lexer reads a tag. -/
lemma inks (tag : Tag) (h : tag.kind = .opening → tag.name.IsOrdinary) (depth : Nat) (t : Text) :
    Inks ⟨.content, depth⟩ tag.ink ⟨.content, depthBehind tag.kind depth⟩ t :=
  tag.inks_of_closer (tag.inks_closer h depth t)

end Tag

/-! ## Trees in the lexer -/

/-- The lexer reads an element, if it reads the segments inside. -/
lemma inks_enclosed (name : ElementName) (attributes : List Attribute) {inside : List Segment}
    (h : ∀ t, Inks ⟨.content, depth + 1⟩ (inkSegments inside) ⟨.content, depth + 1⟩ t) (t : Text) :
    Inks ⟨.content, depth⟩
      (inkSegments (.tag (openTag name attributes) :: inside ++ [.tag (closeTag name)]))
      ⟨.content, depth⟩ t := by
  have hopen := (openTag name attributes).inks (fun _ => name.ordinary) depth
  have hclose := (closeTag name).inks (by rintro ⟨⟩) (depth + 1) t
  rw [inkSegments_append, inkSegments_cons, inkSegments_cons, inkSegments_nil, List.append_nil]
  exact ((hopen _).trans (h _)).trans hclose

/-! ## Content -/

/-- The name of an element without content. -/
structure VoidName extends Name where
  void : ∃ v ∈ Lexer.voidNames, v.toList = toName.text

/-- The tag of an element without content. -/
def voidTag (name : VoidName) (attributes : List Attribute) : Tag :=
  ⟨.opening, name.toName, attributes⟩

/-- What can stand in an element: elements and void elements, tags that close themselves, comments
and text. -/
inductive Content : List Segment → Prop
  | nil : Content []
  | append {a b : List Segment} : Content a → Content b → Content (a ++ b)
  | element (name : ElementName) (attributes : List Attribute) {inside : List Segment} :
      Content inside →
      Content (.tag (openTag name attributes) :: inside ++ [.tag (closeTag name)])
  | void (name : VoidName) (attributes : List Attribute) :
      Content [.tag (voidTag name attributes)]
  | selfClosing (name : Name) (attributes : List Attribute) :
      Content [.tag (selfClosingTag name attributes)]
  | comment (comment : Comment) : Content [.comment comment]
  | text (text : Plain) : Content [.text text]

lemma VoidName.bodyOf_eq (name : VoidName) : Lexer.bodyOf name.text = .void := by
  obtain ⟨v, hv, htext⟩ := name.void
  have hraw : ∀ v ∈ Lexer.voidNames, v.toList ≠ "script".toList ∧ v.toList ≠ "style".toList := by
    decide
  have hany : Lexer.voidNames.any (·.toList == v.toList) = true :=
    List.any_eq_true.2 ⟨v, hv, beq_self_eq_true _⟩
  rw [Lexer.bodyOf, Name.baseName_eq, ← htext]
  simp only [if_neg (hraw v hv).1, if_neg (hraw v hv).2, if_pos hany]

/-- The lexer is as deep behind a void element as before it. -/
lemma VoidName.inks (name : VoidName) (attributes : List Attribute) (depth : Nat) (t : Text) :
    Inks ⟨.content, depth⟩ (voidTag name attributes).ink ⟨.content, depth⟩ t := by
  apply Tag.inks_of_closer
  have hinside : (voidTag name attributes).inside = ⟨.opening, false, .void⟩ := by
    show (⟨.opening, false, Lexer.bodyOf name.text⟩ : Lexer.TagState) = _
    rw [name.bodyOf_eq]
  rw [hinside]
  exact Lexer.inks_openTagEnd ⟨.content, depth⟩ .void t

/-- A segment alone in a list is read as it is read on its own. -/
lemma inks_singleton {s : Segment} (h : Inks ⟨.content, depth⟩ s.ink ⟨.content, depth⟩ t) :
    Inks ⟨.content, depth⟩ (inkSegments [s]) ⟨.content, depth⟩ t := by
  rw [inkSegments_cons, inkSegments_nil, List.append_nil]
  exact h

/-- The lexer reads content inside of an element, and is as deep behind it as before it. -/
lemma Content.inks {segments : List Segment} (h : Content segments) (hdepth : 0 < depth)
    (t : Text) :
    Inks ⟨.content, depth⟩ (inkSegments segments) ⟨.content, depth⟩ t := by
  induction h generalizing depth t with
  | nil => exact .refl _ _
  | append _ _ iha ihb =>
    rw [inkSegments_append]
    exact (iha hdepth _).trans (ihb hdepth t)
  | element name attributes _ ih =>
    exact inks_enclosed name attributes (fun t => ih (Nat.succ_pos depth) t) t
  | void name attributes => exact inks_singleton (name.inks attributes depth t)
  | selfClosing name attributes =>
    exact inks_singleton ((selfClosingTag name attributes).inks (by rintro ⟨⟩) depth t)
  | comment c => exact inks_singleton (Lexer.inks_comment c.no_end t)
  | text p => exact inks_singleton (Lexer.inks_plain hdepth p.no_bracket p.no_dollar t)

mutual

/-- What stands in an element of a tree is content without void elements. -/
lemma Node.content (node : Node) : Content node.segments := by
  match node with
  | .element name attributes children =>
    rw [Node.segments]
    exact .element name attributes (content_segmentsAll children)
  | .selfClosing name attributes =>
    rw [Node.segments]
    exact .selfClosing name attributes
  | .comment c =>
    rw [Node.segments]
    exact .comment c
  | .text p =>
    rw [Node.segments]
    exact .text p

lemma content_segmentsAll (nodes : List Node) : Content (segmentsAll nodes) := by
  match nodes with
  | [] => exact .nil
  | node :: nodes =>
    rw [segmentsAll]
    exact .append node.content (content_segmentsAll nodes)

end

/-! ## Row breaks -/

lemma Attribute.onlyLineFeeds (a : Attribute) : a.render.OnlyLineFeeds := by
  have hgap : a.gap.OnlyLineFeeds := by
    intro c hc hbreak
    rcases a.gap_blank c hc with rfl | rfl
    · exact absurd hbreak (by decide)
    · rfl
  have hvalue : Text.OnlyLineFeeds ((a.value.map Value.render).getD []) := by
    cases a.value with
    | none => exact .nil
    | some v =>
      show Text.OnlyLineFeeds (['=', '"'] ++ (v.text ++ ['"']))
      exact .append (by decide) (.append v.onlyLineFeeds (by decide))
  exact .append (.append hgap a.name.onlyLineFeeds) hvalue

lemma onlyLineFeeds_renderAttributes (as : List Attribute) :
    (renderAttributes as).OnlyLineFeeds := by
  induction as with
  | nil => exact .nil
  | cons a as ih => exact a.onlyLineFeeds.append ih

lemma Tag.onlyLineFeeds (tag : Tag) : tag.render.OnlyLineFeeds := by
  have hopener : (opener tag.kind).OnlyLineFeeds := by cases tag.kind <;> decide
  have hcloser : (closer tag.kind).OnlyLineFeeds := by cases tag.kind <;> decide
  exact ((hopener.append tag.name.onlyLineFeeds).append
    (onlyLineFeeds_renderAttributes tag.attributes)).append hcloser

lemma Segment.onlyLineFeeds (s : Segment) : s.render.OnlyLineFeeds := by
  cases s with
  | tag mark => exact mark.onlyLineFeeds
  | comment c =>
    show Text.OnlyLineFeeds (['<', '!', '-', '-'] ++ c.body ++ ['-', '-', '>'])
    exact .append (.append (by decide) c.onlyLineFeeds) (by decide)
  | text p => exact p.onlyLineFeeds

/-- Markup breaks rows by line feeds only. -/
lemma onlyLineFeeds_renderSegments (segments : List Segment) :
    (renderSegments segments).OnlyLineFeeds := by
  induction segments with
  | nil => exact .nil
  | cons s segments ih => exact s.onlyLineFeeds.append ih

/-! ## Trees in a document -/

/-- A document has the parts that its labels stand for. -/
lemma inked_of_labels {ink : List InkedChar} (honly : (textOf ink).OnlyLineFeeds)
    (h : (textOf ink).labels.map Lexer.partOf = ink.map Prod.snd) :
    (Document.ofText .marko (textOf ink)).Inked ink := by
  refine ⟨rfl, honly, ?_⟩
  intro i c part hi hc
  have hchar : (textOf ink)[i]? = some c := by
    rw [textOf, List.getElem?_map, hi]
    rfl
  have hpart : ((textOf ink).labels.map Lexer.partOf)[i]? = some part := by
    rw [h, List.getElem?_map, hi]
    rfl
  rw [List.getElem?_map, Option.map_eq_some_iff] at hpart
  obtain ⟨label, hlabel, rfl⟩ := hpart
  exact Document.tokenAt?_positionOf honly hchar hc hlabel

/-- A text that starts with a bracket has the labels with which the lexer reads it. -/
lemma labels_bracket (h : t.head? = some '<') :
    t.labels = Lexer.paint ⟨.content, 0⟩ t := by
  obtain ⟨rest, rfl⟩ := List.head?_eq_some_iff.1 h
  exact Lexer.paintRows_bracket_cons {} rest

/-- A document with the text of an element that the lexer reads has the parts of the element. -/
lemma inked_enclosed (name : ElementName) (attributes : List Attribute) {inside : List Segment}
    (h : ∀ t, Inks ⟨.content, 1⟩ (inkSegments inside) ⟨.content, 1⟩ t) :
    let segments := .tag (openTag name attributes) :: inside ++ [.tag (closeTag name)]
    (Document.ofText .marko (renderSegments segments)).Inked (inkSegments segments) := by
  intro segments
  obtain ⟨labels, hparts, hlabels⟩ := inks_enclosed name attributes h []
  rw [Lexer.paint_nil, List.append_nil, List.append_nil] at hlabels
  have honly : (textOf (inkSegments segments)).OnlyLineFeeds := by
    rw [textOf_inkSegments]
    exact onlyLineFeeds_renderSegments segments
  rw [← textOf_inkSegments]
  apply inked_of_labels honly
  -- the text starts with a bracket, so its first row is none of a tag without brackets
  rw [labels_bracket (by rw [textOf_inkSegments]; rfl), hlabels, hparts]

/-- A document with the text of a tree has the parts of the tree. -/
theorem Tree.inked (tree : Tree) :
    (Document.ofText .marko tree.render).Inked (inkSegments tree.segments) := by
  have hchildren := content_segmentsAll tree.children
  rw [tree.render_eq, Tree.segments, Tree.root, Node.segments]
  exact inked_enclosed tree.name tree.attributes fun t => hchildren.inks (Nat.succ_pos 0) t

end TemplateEditing.Markup
