import TemplateEditing.Proofs.Markup.Tokens
import TemplateEditing.Tag.Partner

/-!
# Partners in markup

In well-formed markup the partner of an element's open tag is its close tag, and the other way round
(`Tree.partner?_span`). A scan of markup meets its tags in order (`spansOf_segmentTokens`,
`spansBackOf_segmentTokens`), and a search for the tag that balances another one passes over whole
nodes, in both directions (`Node.passes_spans`).
-/

namespace TemplateEditing

open List

/-! ## Attributes in scans -/

lemma spansOf_append {tokens : List TokenHit} (h : ∀ t ∈ tokens, t.kind = .attributeName)
    (parts : TagParts) (rest : List TokenHit) :
    spansOf parts (tokens ++ rest) = spansOf parts rest := by
  induction tokens with
  | nil => rfl
  | cons t tokens ih =>
    have ht := h t mem_cons_self
    rw [cons_append, spansOf, ht]
    exact ih fun t' ht' => h t' (mem_cons_of_mem t ht')

lemma spansBackOf_append {tokens : List TokenHit} (h : ∀ t ∈ tokens, t.kind = .attributeName)
    (parts : TagParts) (last : Option (Position × TokenKind)) (rest : List TokenHit) :
    spansBackOf parts last (tokens ++ rest) = spansBackOf parts last rest := by
  induction tokens with
  | nil => rfl
  | cons t tokens ih =>
    have ht := h t mem_cons_self
    rw [cons_append, spansBackOf, ht]
    exact ih fun t' ht' => h t' (mem_cons_of_mem t ht')

/-! ## Searches that pass over tags -/

/-- A search for a balancing tag passes over these tags. -/
def Passes (outer inner : TagKind) (spans : List TagSpan) : Prop :=
  ∀ depth, 1 ≤ depth → ∀ rest,
    balancingTag? outer inner depth (spans ++ rest) = balancingTag? outer inner depth rest

namespace Passes

variable {outer inner : TagKind} {a b : List TagSpan}

lemma nil : Passes outer inner [] := fun _ _ _ => rfl

lemma append (ha : Passes outer inner a) (hb : Passes outer inner b) :
    Passes outer inner (a ++ b) := by
  intro depth hdepth rest
  rw [append_assoc, ha depth hdepth, hb depth hdepth]

lemma single {s : TagSpan} (houter : s.kind ≠ outer) (hinner : s.kind ≠ inner) :
    Passes outer inner [s] := by
  intro depth hdepth rest
  rw [singleton_append, balancingTag?, if_neg houter, if_neg hinner]

/-- Tags that are passed over are passed over between the tags of an element, too. -/
lemma wrap (ha : Passes outer inner a) (hne : outer ≠ inner) {first last : TagSpan}
    (hfirst : first.kind = outer) (hlast : last.kind = inner) :
    Passes outer inner (first :: a ++ [last]) := by
  intro depth hdepth rest
  have hlast' : last.kind ≠ outer := by
    rw [hlast]
    exact Ne.symm hne
  -- the first tag takes the search one deeper, and the last one back
  rw [cons_append, cons_append, balancingTag?, if_pos hfirst, append_assoc,
    ha (depth + 1) (by omega), singleton_append, balancingTag?, if_neg hlast', if_pos hlast,
    if_neg (by omega), Nat.add_sub_cancel]

end Passes

namespace Markup

/-! ## Tags in scans -/

namespace Tag

lemma kind_of_mem_hits {as : List Attribute} {offset : Nat} {t : Text} :
    ∀ token ∈ (tokensIn offset (inkAttributes as)).map (OffsetToken.hit t),
      token.kind = .attributeName := by
  intro hit hhit
  obtain ⟨token, htoken, rfl⟩ := mem_map.1 hhit
  exact kind_of_mem_attributes as (List.Subset.refl _) htoken

variable {t : Text} {offset : Nat} (h : t.OnlyLineFeeds)
include h

/-- A scan of a tag finds the tag. -/
lemma spansOf_tokens (tag : Tag) (hle : offset + tag.render.length ≤ t.length)
    (rest : List TokenHit) :
    spansOf {} ((tag.tokens offset).map (OffsetToken.hit t) ++ rest) =
      tag.span t offset :: spansOf {} rest := by
  have hrange := Text.ofEnds_positionOf h (Nat.le_add_right offset _) hle
  simp only [tokens, map_cons, map_append, map_nil, cons_append,
    append_assoc, nil_append]
  obtain ⟨kind, name, attributes⟩ := tag
  cases kind
  all_goals
    show spansOf _ (_ ++ _) = _
    rw [spansOf_append kind_of_mem_hits]
    exact congrArg (fun range => TagSpan.mk _ range _ _ :: spansOf {} rest) hrange

/-- A scan backwards of a tag finds the tag. -/
lemma spansBackOf_tokens (tag : Tag) (hle : offset + tag.render.length ≤ t.length)
    (rest : List TokenHit) :
    spansBackOf {} none (((tag.tokens offset).map (OffsetToken.hit t)).reverse ++ rest) =
      tag.span t offset :: spansBackOf {} none rest := by
  have hrange := Text.ofEnds_positionOf h (Nat.le_add_right offset _) hle
  have hattributes : ∀ token ∈ ((tokensIn (offset + tag.nameStop)
      (inkAttributes tag.attributes)).map (OffsetToken.hit t)).reverse,
        token.kind = .attributeName :=
    fun token htoken => kind_of_mem_hits token (mem_reverse.1 htoken)
  simp only [tokens, map_cons, map_append, map_nil, reverse_cons,
    reverse_append, reverse_nil, cons_append, append_assoc, nil_append]
  obtain ⟨kind, name, attributes⟩ := tag
  cases kind
  all_goals
    show spansBackOf _ _ (_ ++ _) = _
    rw [spansBackOf_append hattributes]
    exact congrArg (fun range => TagSpan.mk _ range _ _ :: spansBackOf {} none rest) hrange

end Tag

/-! ## Segments in scans -/

/-- The spans of the tags among segments, the first of which stands in `t` at an offset. -/
def segmentSpans (t : Text) (offset : Nat) : List Segment → List TagSpan
  | [] => []
  | s :: segments =>
    (s.span? t offset).toList ++ segmentSpans t (offset + s.render.length) segments

lemma segmentSpans_append (t : Text) (offset : Nat) (a b : List Segment) :
    segmentSpans t offset (a ++ b) =
      segmentSpans t offset a ++ segmentSpans t (offset + (renderSegments a).length) b := by
  induction a generalizing offset with
  | nil => rfl
  | cons s a ih =>
    rw [cons_append, segmentSpans, ih, segmentSpans, renderSegments_cons, length_append,
      append_assoc, Nat.add_assoc]

section
variable {t : Text} (h : t.OnlyLineFeeds)
include h

/-- A scan of segments finds their tags, front to back. -/
lemma spansOf_segmentTokens (segments : List Segment) (offset : Nat)
    (hle : offset + (renderSegments segments).length ≤ t.length) :
    spansOf {} ((segmentTokens offset segments).map (OffsetToken.hit t)) =
      segmentSpans t offset segments := by
  induction segments generalizing offset with
  | nil => rfl
  | cons s segments ih =>
    rw [renderSegments_cons, length_append] at hle
    have hs : offset + s.render.length ≤ t.length := by omega
    rw [segmentTokens, map_append, segmentSpans, ← ih (offset + s.render.length) (by omega)]
    cases s with
    | tag mark => exact mark.spansOf_tokens h hs _
    | comment c => rfl
    | text p => rfl

/-- A scan backwards of segments finds their tags, back to front. -/
lemma spansBackOf_segmentTokens (segments : List Segment) (offset : Nat)
    (hle : offset + (renderSegments segments).length ≤ t.length) (rest : List TokenHit) :
    spansBackOf {} none
        (((segmentTokens offset segments).map (OffsetToken.hit t)).reverse ++ rest) =
      (segmentSpans t offset segments).reverse ++ spansBackOf {} none rest := by
  induction segments generalizing offset rest with
  | nil => rfl
  | cons s segments ih =>
    rw [renderSegments_cons, length_append] at hle
    have hs : offset + s.render.length ≤ t.length := by omega
    rw [segmentTokens, map_append, reverse_append, append_assoc,
      ih (offset + s.render.length) (by omega), segmentSpans, reverse_append,
      append_assoc]
    congr 1
    cases s with
    | tag mark => exact mark.spansBackOf_tokens h hs _
    | comment c => rfl
    | text p => rfl

end

/-! ## Nodes in searches -/

lemma segmentSpans_enclosed (t : Text) (offset : Nat) (name : ElementName)
    (attributes : List Attribute) (inside : List Segment) :
    segmentSpans t offset (.tag (openTag name attributes) :: inside ++ [.tag (closeTag name)]) =
      (openTag name attributes).span t offset ::
        segmentSpans t (offset + (openTag name attributes).render.length) inside ++
        [(closeTag name).span t (offset + (openTag name attributes).render.length +
          (renderSegments inside).length)] := by
  rw [cons_append, segmentSpans, segmentSpans_append]
  rfl

mutual

/-- Searches in both directions pass over a node. -/
lemma Node.passes_spans (node : Node) (t : Text) (offset : Nat) :
    Passes .opening .closing (segmentSpans t offset node.segments) ∧
      Passes .closing .opening (segmentSpans t offset node.segments).reverse := by
  match node with
  | .element name attributes children =>
    -- backwards the close tag comes first
    obtain ⟨hfront, hback⟩ := passes_spansAll children t
      (offset + (openTag name attributes).render.length)
    rw [Node.segments, segmentSpans_enclosed]
    refine ⟨hfront.wrap (by decide) rfl rfl, ?_⟩
    rw [reverse_append, reverse_singleton, reverse_cons, singleton_append,
      ← cons_append]
    exact hback.wrap (by decide) rfl rfl
  | .selfClosing name attributes =>
    have hspans : segmentSpans t offset (Node.selfClosing name attributes).segments =
        [(selfClosingTag name attributes).span t offset] := by
      rw [Node.segments]
      rfl
    rw [hspans]
    have hopening : TagKind.selfClosing ≠ .opening := by decide
    have hclosing : TagKind.selfClosing ≠ .closing := by decide
    exact ⟨.single hopening hclosing, .single hclosing hopening⟩
  | .comment c =>
    rw [Node.segments]
    exact ⟨.nil, .nil⟩
  | .text p =>
    rw [Node.segments]
    exact ⟨.nil, .nil⟩

/-- Searches in both directions pass over nodes. -/
lemma passes_spansAll (nodes : List Node) (t : Text) (offset : Nat) :
    Passes .opening .closing (segmentSpans t offset (segmentsAll nodes)) ∧
      Passes .closing .opening (segmentSpans t offset (segmentsAll nodes)).reverse := by
  match nodes with
  | [] => exact ⟨.nil, .nil⟩
  | node :: nodes =>
    obtain ⟨hnode, hnode'⟩ := node.passes_spans t offset
    obtain ⟨hnodes, hnodes'⟩ := passes_spansAll nodes t
      (offset + (renderSegments node.segments).length)
    rw [segmentsAll, segmentSpans_append, reverse_append]
    exact ⟨hnode.append hnodes, hnodes'.append hnode'⟩

end

/-! ## Trees -/

/-- A node of a tree, with the segments before it and those behind it. -/
inductive Tree.Holds (tree : Tree) : List Segment → Node → List Segment → Prop where
  | root : tree.Holds [] tree.root []
  | child {before after : List Segment} {name : ElementName} {attributes : List Attribute}
      {left right : List Node} {node : Node}
      (h : tree.Holds before (.element name attributes (left ++ node :: right)) after) :
      tree.Holds (before ++ .tag (openTag name attributes) :: segmentsAll left) node
        (segmentsAll right ++ .tag (closeTag name) :: after)

lemma segmentsAll_append (a b : List Node) :
    segmentsAll (a ++ b) = segmentsAll a ++ segmentsAll b := by
  induction a with
  | nil => rfl
  | cons node a ih => rw [cons_append, segmentsAll, segmentsAll, ih, append_assoc]

/-- A node's segments stand between those before it and those behind it. -/
lemma Tree.Holds.segments_eq {tree : Tree} {before after : List Segment} {node : Node}
    (h : tree.Holds before node after) : tree.segments = before ++ (node.segments ++ after) := by
  induction h with
  | root => exact (append_nil _).symm
  | child h ih =>
    rw [ih, Node.segments, segmentsAll_append, segmentsAll]
    simp only [append_assoc, cons_append, nil_append]

section
variable {d : Document} {a b : List Segment}

lemma length_text (h : d.Inked (inkSegments (a ++ b))) :
    d.text.length = (renderSegments a).length + (renderSegments b).length := by
  rw [h.text_eq, textOf_inkSegments, renderSegments_append, length_append]

/-- The tags from behind some segments on. -/
lemma tagsFrom_eq (h : d.Inked (inkSegments (a ++ b))) :
    d.tagsFrom (d.text.positionOf (renderSegments a).length) =
      segmentSpans d.text (renderSegments a).length b := by
  have hfrom := h.tokensFrom_eq (inkSegments_append a b)
  rw [length_inkSegments, tokensIn_inkSegments] at hfrom
  rw [Document.tagsFrom, hfrom,
    spansOf_segmentTokens h.onlyLineFeeds b _ (Nat.le_of_eq (length_text h).symm)]

/-- The tags up to some segments. -/
lemma tagsBefore_eq (h : d.Inked (inkSegments (a ++ b))) :
    d.tagsBefore (d.text.positionOf (renderSegments a).length) =
      (segmentSpans d.text 0 a).reverse := by
  have hbefore := h.tokensBefore_eq (inkSegments_append a b)
  have hle : 0 + (renderSegments a).length ≤ d.text.length := by
    rw [length_text h]
    omega
  have hspans := spansBackOf_segmentTokens h.onlyLineFeeds a 0 hle []
  rw [length_inkSegments, tokensIn_inkSegments] at hbefore
  rw [append_nil] at hspans
  rw [Document.tagsBefore, hbefore, hspans, spansBackOf, append_nil]

/-- A tag's name is the text of the range of the name. -/
lemma name?_span {tag : Tag} (h : d.Inked (inkSegments (a ++ .tag tag :: b))) :
    (tag.span d.text (renderSegments a).length).name? d = some tag.name.text := by
  have htext : d.text = renderSegments a ++ opener tag.kind ++ tag.name.text ++
      (renderAttributes tag.attributes ++ (closer tag.kind ++ renderSegments b)) := by
    rw [h.text_eq, textOf_inkSegments, renderSegments_append, renderSegments_cons, Segment.render,
      Tag.render]
    simp only [append_assoc]
  have hstart : (renderSegments a ++ opener tag.kind).length =
      (renderSegments a).length + tag.nameStart := length_append
  have hslice := Text.slice_append (renderSegments a ++ opener tag.kind) tag.name.text
    (renderAttributes tag.attributes ++ (closer tag.kind ++ renderSegments b))
  rw [← htext, hstart, Nat.add_assoc, ← Tag.nameStop] at hslice
  have hlength := congrArg List.length htext
  simp only [length_append] at hlength
  have hrange : d.text.inRange ⟨d.text.positionOf ((renderSegments a).length + tag.nameStart),
      d.text.positionOf ((renderSegments a).length + tag.nameStop)⟩ = tag.name.text := by
    rw [Text.inRange_positionOf h.onlyLineFeeds, hslice]
    · rw [hlength, Tag.nameStart]
      omega
    · rw [hlength, Tag.nameStop, Tag.nameStart]
      omega
  exact congrArg some hrange

end

lemma element_split (before after : List Segment) (name : ElementName)
    (attributes : List Attribute) (children : List Node) :
    before ++ ((Node.element name attributes children).segments ++ after) =
      before ++ .tag (openTag name attributes) ::
        (segmentsAll children ++ .tag (closeTag name) :: after) := by
  rw [Node.segments]
  simp only [append_assoc, cons_append, nil_append]

section
variable {d : Document} {before inside after : List Segment} {name : ElementName}
  {attributes : List Attribute}
  (h : d.Inked (inkSegments (before ++ .tag (openTag name attributes) ::
    (inside ++ .tag (closeTag name) :: after))))
  {start stop : Nat} (hstart : start = (renderSegments before).length)
  (hstop : stop =
    start + (openTag name attributes).render.length + (renderSegments inside).length)
include h hstart hstop

/-- Behind an open tag come the tags inside of the element, then its close tag. -/
lemma tagsFrom_openTag :
    d.tagsFrom (d.text.positionOf (start + (openTag name attributes).render.length)) =
        segmentSpans d.text (start + (openTag name attributes).render.length) inside ++
          (closeTag name).span d.text stop ::
            segmentSpans d.text (stop + (closeTag name).render.length) after ∧
      ((openTag name attributes).span d.text start).name? d = some name.text := by
  have hlength : (renderSegments (before ++ [.tag (openTag name attributes)])).length =
      start + (openTag name attributes).render.length := by
    rw [renderSegments_append, length_append, hstart, renderSegments_cons, renderSegments_nil,
      append_nil]
    rfl
  have hname := name?_span h
  rw [append_cons] at h
  have htags := tagsFrom_eq h
  rw [hlength, segmentSpans_append, ← hstop, segmentSpans] at htags
  exact ⟨htags, hstart ▸ hname⟩

/-- Before a close tag come the tags inside of the element, back to front, then its open tag. -/
lemma tagsBefore_closeTag :
    d.tagsBefore (d.text.positionOf stop) =
        (segmentSpans d.text (start + (openTag name attributes).render.length) inside).reverse ++
          (openTag name attributes).span d.text start ::
            (segmentSpans d.text 0 before).reverse ∧
      ((closeTag name).span d.text stop).name? d = some name.text := by
  have hlength : (renderSegments
      (before ++ .tag (openTag name attributes) :: inside)).length = stop := by
    rw [renderSegments_append, length_append, renderSegments_cons, length_append,
      hstop, hstart, Nat.add_assoc]
    rfl
  rw [← cons_append, ← append_assoc] at h
  have hname := name?_span h
  have htags := tagsBefore_eq h
  rw [hlength] at hname
  rw [hlength, segmentSpans_append, Nat.zero_add, ← hstart, segmentSpans, reverse_append,
    reverse_append, append_assoc] at htags
  exact ⟨htags, hname⟩

end

section
variable {d : Document} {before after : List Segment} {name : ElementName}
  {attributes : List Attribute} {children : List Node}
  (h : d.Inked (inkSegments
    (before ++ ((Node.element name attributes children).segments ++ after))))
  {start stop : Nat} (hstart : start = (renderSegments before).length)
  (hstop : stop = start + (openTag name attributes).render.length + (renderAll children).length)
include h hstart hstop

/-- From the open tag on, the search passes over the children and meets the close tag. -/
lemma counterpart?_openTag :
    d.counterpart? ((openTag name attributes).span d.text start) =
        some ((closeTag name).span d.text stop) ∧
      ((openTag name attributes).span d.text start).name? d = some name.text := by
  rw [element_split] at h
  rw [renderAll_eq] at hstop
  obtain ⟨htags, hname⟩ := tagsFrom_openTag h hstart hstop
  refine ⟨?_, hname⟩
  show balancingTag? .opening .closing 1 (d.tagsFrom (d.text.positionOf (start + _))) = _
  rw [htags, (passes_spansAll children d.text _).1 1 (Nat.le_refl 1)]
  rfl

/-- Back from the close tag, the search passes over the children and meets the open tag. -/
lemma counterpart?_closeTag :
    d.counterpart? ((closeTag name).span d.text stop) =
        some ((openTag name attributes).span d.text start) ∧
      ((closeTag name).span d.text stop).name? d = some name.text := by
  rw [element_split] at h
  rw [renderAll_eq] at hstop
  obtain ⟨htags, hname⟩ := tagsBefore_closeTag h hstart hstop
  refine ⟨?_, hname⟩
  show balancingTag? .closing .opening 1 (d.tagsBefore (d.text.positionOf stop)) = _
  rw [htags, (passes_spansAll children d.text _).2 1 (Nat.le_refl 1)]
  rfl

end

lemma partner?_of_counterpart? {d : Document} {s s' : TagSpan} {name : Text}
    (h : d.counterpart? s = some s') (hs : s.name? d = some name) (hs' : s'.name? d = some name) :
    d.partner? s = some s' := by
  rw [Document.partner?, h, Option.filter_some, hs, hs', beq_self_eq_true, if_pos rfl]

namespace Tree

/-- **Partners are the tags of one element.** The partner of an element's open tag is its close tag,
the partner of the close tag is the open tag, and an element that closes itself has none. -/
theorem partner?_span (tree : Tree) :
    (∀ before name attributes children after,
      tree.Holds before (.element name attributes children) after →
        let start := (renderSegments before).length
        let stop := start + (openTag name attributes).render.length + (renderAll children).length
        let opening := (openTag name attributes).span tree.render start
        let closing := (closeTag name).span tree.render stop
        (Document.ofText .marko tree.render).partner? opening = some closing ∧
          (Document.ofText .marko tree.render).partner? closing = some opening) ∧
      ∀ before name attributes after, tree.Holds before (.selfClosing name attributes) after →
        (Document.ofText .marko tree.render).partner?
          ((selfClosingTag name attributes).span tree.render (renderSegments before).length) =
            none := by
  constructor
  · intro before name attributes children after h
    have hinked := tree.inked
    rw [h.segments_eq] at hinked
    obtain ⟨hopening, hname⟩ := counterpart?_openTag hinked rfl rfl
    obtain ⟨hclosing, hname'⟩ := counterpart?_closeTag hinked rfl rfl
    exact ⟨partner?_of_counterpart? hopening hname hname',
      partner?_of_counterpart? hclosing hname' hname⟩
  · intro before name attributes after _
    rfl

/-- The tags of the outer list are partners, with a list of the same name in between. -/
theorem partner?_sample_root :
    sample.Holds [] (.element sample.name sample.attributes sample.children) [] ∧
      (Document.ofText .marko sample.render).partner?
          ⟨.opening, ⟨⟨0, 0⟩, ⟨1, 4⟩⟩, some ⟨⟨0, 1⟩, ⟨0, 3⟩⟩, false⟩ =
        some ⟨.closing, ⟨⟨1, 29⟩, ⟨1, 34⟩⟩, some ⟨⟨1, 31⟩, ⟨1, 33⟩⟩, false⟩ ∧
      (Document.ofText .marko sample.render).partner?
          ⟨.closing, ⟨⟨1, 29⟩, ⟨1, 34⟩⟩, some ⟨⟨1, 31⟩, ⟨1, 33⟩⟩, false⟩ =
        some ⟨.opening, ⟨⟨0, 0⟩, ⟨1, 4⟩⟩, some ⟨⟨0, 1⟩, ⟨0, 3⟩⟩, false⟩ :=
  ⟨.root, sample.partner?_span.1 [] sample.name sample.attributes sample.children [] .root⟩

end Tree

end Markup

end TemplateEditing
