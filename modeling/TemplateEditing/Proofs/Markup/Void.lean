import TemplateEditing.Proofs.Markup.Partner
import TemplateEditing.Proofs.Tag.Searches

/-!
# Void elements between partners

The tag of an element without content leaves the lexer as deep as before, but a search for a partner
counts it like any other open tag. So a search forwards comes out of an element's content deeper by
the number of void elements in it, and a search backwards ends at a tag inside
(`Content.sinks_rises`): the tags of an element are partners exactly if no void element stands
between them (`Page.partner?_iff_no_void`).
-/

namespace TemplateEditing

open List

/-! ## Searches that change their depth -/

/-- A search for a balancing tag comes out of these tags `n` deeper than it went in. -/
def Sinks (outer inner : TagKind) (n : Nat) (spans : List TagSpan) : Prop :=
  ∀ depth, 1 ≤ depth → ∀ rest,
    balancingTag? outer inner depth (spans ++ rest) = balancingTag? outer inner (depth + n) rest

/-- A search for a balancing tag comes out of these tags `n` less deep, or ends at one of them. -/
def Rises (outer inner : TagKind) (n : Nat) (spans : List TagSpan) : Prop :=
  ∀ depth, 1 ≤ depth → ∀ rest,
    (n < depth → balancingTag? outer inner depth (spans ++ rest) =
      balancingTag? outer inner (depth - n) rest) ∧
    (depth ≤ n → ∃ s ∈ spans, balancingTag? outer inner depth (spans ++ rest) = some s)

variable {outer inner : TagKind} {m n : Nat} {a b : List TagSpan}

namespace Sinks

lemma of_passes (h : Passes outer inner a) : Sinks outer inner 0 a := h

lemma append (ha : Sinks outer inner m a) (hb : Sinks outer inner n b) :
    Sinks outer inner (m + n) (a ++ b) := by
  intro depth hdepth rest
  rw [append_assoc, ha depth hdepth, hb (depth + m) (by omega), Nat.add_assoc]

lemma single {s : TagSpan} (h : s.kind = outer) : Sinks outer inner 1 [s] := by
  intro depth hdepth rest
  rw [singleton_append, balancingTag?, if_pos h]

/-- The tags of an element around others do not change the depth behind them. -/
lemma wrap (ha : Sinks outer inner n a) (hne : outer ≠ inner) {first last : TagSpan}
    (hfirst : first.kind = outer) (hlast : last.kind = inner) :
    Sinks outer inner n (first :: a ++ [last]) := by
  intro depth hdepth rest
  have hlast' : last.kind ≠ outer := by
    rw [hlast]
    exact Ne.symm hne
  rw [cons_append, cons_append, balancingTag?, if_pos hfirst, append_assoc,
    ha (depth + 1) (by omega), singleton_append, balancingTag?, if_neg hlast', if_pos hlast,
    if_neg (by omega)]
  congr 1
  omega

end Sinks

namespace Rises

lemma of_passes (h : Passes outer inner a) : Rises outer inner 0 a := by
  intro depth hdepth rest
  refine ⟨fun _ => h depth hdepth rest, ?_⟩
  intro hle
  omega

lemma append (ha : Rises outer inner m a) (hb : Rises outer inner n b) :
    Rises outer inner (m + n) (a ++ b) := by
  intro depth hdepth rest
  obtain ⟨hpast, hends⟩ := ha depth hdepth (b ++ rest)
  rw [append_assoc]
  refine ⟨?_, ?_⟩
  · intro hlt
    rw [hpast (by omega), (hb (depth - m) (by omega) rest).1 (by omega), Nat.sub_sub]
  · intro hle
    -- the search ends in the first part, or comes out of it and ends in the second
    by_cases hm : depth ≤ m
    · obtain ⟨s, hs, hfound⟩ := hends hm
      exact ⟨s, mem_append_left b hs, hfound⟩
    · obtain ⟨s, hs, hfound⟩ := (hb (depth - m) (by omega) rest).2 (by omega)
      rw [hpast (by omega)]
      exact ⟨s, mem_append_right a hs, hfound⟩

lemma single {s : TagSpan} (hne : outer ≠ inner) (h : s.kind = inner) :
    Rises outer inner 1 [s] := by
  intro depth hdepth rest
  have houter : s.kind ≠ outer := by
    rw [h]
    exact Ne.symm hne
  rw [singleton_append, balancingTag?, if_neg houter, if_pos h]
  refine ⟨fun hlt => if_neg (by omega), ?_⟩
  intro hle
  exact ⟨s, mem_singleton.2 rfl, if_pos hle⟩

/-- Around others the first tag takes the search one deeper, and the last one back, unless the
search has ended before it or ends with it. -/
lemma wrap (ha : Rises outer inner n a) (hne : outer ≠ inner) {first last : TagSpan}
    (hfirst : first.kind = outer) (hlast : last.kind = inner) :
    Rises outer inner n (first :: a ++ [last]) := by
  intro depth hdepth rest
  have hlast' : last.kind ≠ outer := by
    rw [hlast]
    exact Ne.symm hne
  obtain ⟨hpast, hends⟩ := ha (depth + 1) (by omega) ([last] ++ rest)
  have hbehind : ∀ k, balancingTag? outer inner k ([last] ++ rest) =
      if k ≤ 1 then some last else balancingTag? outer inner (k - 1) rest := by
    intro k
    rw [singleton_append, balancingTag?, if_neg hlast', if_pos hlast]
  rw [cons_append, cons_append, balancingTag?, if_pos hfirst, append_assoc]
  refine ⟨?_, ?_⟩
  · intro hlt
    rw [hpast (by omega), hbehind, if_neg (by omega)]
    congr 1
    omega
  · intro hle
    by_cases hn : depth + 1 ≤ n
    · obtain ⟨s, hs, hfound⟩ := hends hn
      exact ⟨s, mem_cons_of_mem _ (mem_append_left _ hs), hfound⟩
    · -- the search comes to the last tag at depth one and ends there
      refine ⟨last, mem_cons_of_mem _ (mem_append_right _ (mem_singleton.2 rfl)), ?_⟩
      rw [hpast (by omega), hbehind, if_pos (by omega)]

end Rises

namespace Markup

/-! ## Markup with void elements -/

/-- The segment is an element without content. -/
def Segment.isVoid : Segment → Bool
  | .tag mark => mark.kind == .opening && Lexer.voidNames.any (·.toList == mark.name.text)
  | .comment _ | .text _ => false

/-- An ordinary element with all that stands in it. -/
structure Page where
  name : ElementName
  attributes : List Attribute
  inside : List Segment
  content : Content inside

namespace Page

/-- The segments of a page, from left to right. -/
def segments (page : Page) : List Segment :=
  .tag (openTag page.name page.attributes) :: page.inside ++ [.tag (closeTag page.name)]

/-- A page as it is written. -/
def render (page : Page) : Text := renderSegments page.segments

end Page

/-- A document with the text of a page has the parts of the page. -/
lemma Page.inked (page : Page) :
    (Document.ofText .marko page.render).Inked (inkSegments page.segments) :=
  inked_enclosed page.name page.attributes fun t => page.content.inks (Nat.succ_pos 0) t

/-! ## Void elements in searches -/

lemma isVoid_openTag (name : ElementName) (attributes : List Attribute) :
    Segment.isVoid (.tag (openTag name attributes)) = false := by
  have hany : Lexer.voidNames.any (·.toList == name.text) = false := by
    rw [any_eq_false]
    intro v hv
    rw [beq_iff_eq]
    exact name.ordinary.2.2 v hv
  rw [Segment.isVoid, openTag, hany, Bool.and_false]

lemma isVoid_voidTag (name : VoidName) (attributes : List Attribute) :
    Segment.isVoid (.tag (voidTag name attributes)) = true := by
  obtain ⟨v, hv, htext⟩ := name.void
  exact any_eq_true.2 ⟨v, hv, beq_iff_eq.2 htext⟩

lemma countP_isVoid_enclosed (name : ElementName) (attributes : List Attribute)
    (inside : List Segment) :
    (Segment.tag (openTag name attributes) :: inside ++ [Segment.tag (closeTag name)]).countP
      Segment.isVoid = inside.countP Segment.isVoid := by
  rw [cons_append, countP_cons, isVoid_openTag, countP_append]
  rfl

/-- Each void element in content takes a search forwards one deeper and a search backwards one less
deep. -/
lemma Content.sinks_rises {segments : List Segment} (h : Content segments) (t : Text)
    (offset : Nat) :
    Sinks .opening .closing (segments.countP Segment.isVoid) (segmentSpans t offset segments) ∧
      Rises .closing .opening (segments.countP Segment.isVoid)
        (segmentSpans t offset segments).reverse := by
  induction h generalizing offset with
  | nil => exact ⟨.of_passes .nil, .of_passes .nil⟩
  | @append a b _ _ iha ihb =>
    obtain ⟨hsinks, hrises⟩ := iha offset
    obtain ⟨hsinks', hrises'⟩ := ihb (offset + (renderSegments a).length)
    rw [segmentSpans_append, countP_append, reverse_append]
    refine ⟨hsinks.append hsinks', ?_⟩
    rw [Nat.add_comm]
    exact hrises'.append hrises
  | element name attributes _ ih =>
    -- backwards the close tag comes first
    obtain ⟨hsinks, hrises⟩ := ih (offset + (openTag name attributes).render.length)
    rw [countP_isVoid_enclosed, segmentSpans_enclosed]
    refine ⟨hsinks.wrap (by decide) rfl rfl, ?_⟩
    rw [reverse_append, reverse_singleton, reverse_cons, singleton_append,
      ← cons_append]
    exact hrises.wrap (by decide) rfl rfl
  | void name attributes =>
    -- the lexer goes no deeper, the search does
    rw [countP_singleton, isVoid_voidTag]
    exact ⟨.single rfl, .single (by decide) rfl⟩
  | selfClosing name attributes =>
    have hopening : TagKind.selfClosing ≠ .opening := by decide
    have hclosing : TagKind.selfClosing ≠ .closing := by decide
    exact ⟨.of_passes (.single hopening hclosing), .of_passes (.single hclosing hopening)⟩
  | comment c => exact ⟨.of_passes .nil, .of_passes .nil⟩
  | text p => exact ⟨.of_passes .nil, .of_passes .nil⟩

lemma Tag.length_render_pos (tag : Tag) : 0 < tag.render.length := by
  rw [render, append_assoc, append_assoc, length_append]
  cases tag.kind
  all_goals exact Nat.lt_of_lt_of_le (by decide) (Nat.le_add_right _ _)

/-- The tags of segments start at or behind the first of them, and before the end. -/
lemma exists_offset_of_mem_segmentSpans {t : Text} {offset : Nat} {segments : List Segment}
    {s : TagSpan} (h : s ∈ segmentSpans t offset segments) :
    ∃ i, offset ≤ i ∧ i < offset + (renderSegments segments).length ∧
      s.range.start = t.positionOf i := by
  induction segments generalizing offset with
  | nil => exact absurd h not_mem_nil
  | cons segment segments ih =>
    rw [renderSegments_cons, length_append]
    rcases mem_append.1 h with hfirst | hlater
    · cases segment with
      | tag mark =>
        rw [mem_singleton.1 hfirst]
        have hpos := mark.length_render_pos
        exact ⟨offset, Nat.le_refl _, Nat.lt_add_of_pos_right (Nat.add_pos_left hpos _), rfl⟩
      | comment c => exact absurd hfirst not_mem_nil
      | text p => exact absurd hfirst not_mem_nil
    · obtain ⟨i, hle, hlt, hstart⟩ := ih hlater
      exact ⟨i, by omega, by omega, hstart⟩

/-! ## Partners -/

section
variable {d : Document} {before inside after : List Segment} {name : ElementName}
  {attributes : List Attribute}
  (h : d.Inked (inkSegments (before ++ .tag (openTag name attributes) ::
    (inside ++ .tag (closeTag name) :: after))))
  {start stop : Nat} (hstart : start = (renderSegments before).length)
  (hstop : stop =
    start + (openTag name attributes).render.length + (renderSegments inside).length)
include h hstart hstop

lemma length_text_enclosed :
    d.text.length = stop + (closeTag name).render.length + (renderSegments after).length := by
  rw [h.text_eq, textOf_inkSegments, renderSegments_append, renderSegments_cons,
    renderSegments_append, renderSegments_cons, hstop, hstart]
  simp only [length_append, Segment.render]
  omega

variable (hcontent : Content inside)
include hcontent

/-- With void elements inside, a search from the open tag goes on behind the close tag. -/
lemma counterpart?_openTag_iff :
    d.counterpart? ((openTag name attributes).span d.text start) =
        some ((closeTag name).span d.text stop) ↔
      inside.countP Segment.isVoid = 0 := by
  obtain ⟨htags, -⟩ := tagsFrom_openTag h hstart hstop
  have hlength := length_text_enclosed h hstart hstop
  have hsinks := (hcontent.sinks_rises d.text
    (start + (openTag name attributes).render.length)).1 1 (Nat.le_refl 1)
  show balancingTag? .opening .closing 1 (d.tagsFrom (d.text.positionOf (start + _))) = _ ↔ _
  have hclosing : ((closeTag name).span d.text stop).kind = .closing := rfl
  rw [htags, hsinks, balancingTag?, hclosing, if_neg (by decide), if_pos rfl]
  constructor
  · intro hfound
    by_contra hvoid
    rw [if_neg (by omega)] at hfound
    -- the tag found is one behind the close tag, not the close tag
    obtain ⟨hmem, -⟩ := mem_of_balancingTag? hfound
    obtain ⟨i, hle, hlt, heq⟩ := exists_offset_of_mem_segmentSpans hmem
    have hpos := (closeTag name).length_render_pos
    have hsame := Text.positionOf_inj h.onlyLineFeeds (by omega) (by omega) heq
    omega
  · intro hnone
    rw [if_pos (by omega)]

/-- With void elements inside, a search back from the close tag ends at a tag inside. -/
lemma counterpart?_closeTag_iff :
    d.counterpart? ((closeTag name).span d.text stop) =
        some ((openTag name attributes).span d.text start) ↔
      inside.countP Segment.isVoid = 0 := by
  obtain ⟨htags, -⟩ := tagsBefore_closeTag h hstart hstop
  have hlength := length_text_enclosed h hstart hstop
  have hrises := (hcontent.sinks_rises d.text
    (start + (openTag name attributes).render.length)).2 1 (Nat.le_refl 1)
  show balancingTag? .closing .opening 1 (d.tagsBefore (d.text.positionOf stop)) = _ ↔ _
  rw [htags]
  constructor
  · intro hfound
    by_contra hvoid
    obtain ⟨s, hmem, hs⟩ := (hrises _).2 (by omega)
    rw [hs, Option.some.injEq] at hfound
    obtain ⟨i, hle, hlt, heq⟩ := exists_offset_of_mem_segmentSpans (mem_reverse.1 hmem)
    have hpos := (openTag name attributes).length_render_pos
    rw [hfound] at heq
    have hsame := Text.positionOf_inj h.onlyLineFeeds (by omega) (by omega) heq
    omega
  · intro hnone
    rw [(hrises _).1 (by omega), hnone]
    rfl

end

lemma partner?_eq_some_iff_counterpart? {d : Document} {s s' : TagSpan} {name : Text}
    (hs : s.name? d = some name) (hs' : s'.name? d = some name) :
    d.partner? s = some s' ↔ d.counterpart? s = some s' := by
  refine ⟨?_, fun h => partner?_of_counterpart? h hs hs'⟩
  intro h
  rw [Document.partner?, Option.filter_eq_some_iff] at h
  exact h.1

namespace Page

/-- **Void elements part the tags of an element.** The open tag of an element on a page has its
close tag as its partner exactly if no void element stands in the element, and the same goes for the
close tag. -/
theorem partner?_iff_no_void (page : Page) (before inside after : List Segment)
    (name : ElementName) (attributes : List Attribute)
    (hsplit : page.segments = before ++ .tag (openTag name attributes) ::
      (inside ++ .tag (closeTag name) :: after))
    (hcontent : Content inside) :
    let start := (renderSegments before).length
    let stop := start + (openTag name attributes).render.length + (renderSegments inside).length
    let opening := (openTag name attributes).span page.render start
    let closing := (closeTag name).span page.render stop
    ((Document.ofText .marko page.render).partner? opening = some closing ↔
        ∀ s ∈ inside, s.isVoid = false) ∧
      ((Document.ofText .marko page.render).partner? closing = some opening ↔
        ∀ s ∈ inside, s.isVoid = false) := by
  intro start stop opening closing
  have hinked := page.inked
  rw [hsplit] at hinked
  obtain ⟨-, hname⟩ := tagsFrom_openTag hinked rfl rfl
  obtain ⟨-, hname'⟩ := tagsBefore_closeTag hinked rfl rfl
  have hcount : inside.countP Segment.isVoid = 0 ↔ ∀ s ∈ inside, s.isVoid = false := by
    simp only [countP_eq_zero, Bool.not_eq_true]
  constructor
  · exact (partner?_eq_some_iff_counterpart? hname hname').trans
      ((counterpart?_openTag_iff hinked rfl rfl hcontent).trans hcount)
  · exact (partner?_eq_some_iff_counterpart? hname' hname).trans
      ((counterpart?_closeTag_iff hinked rfl rfl hcontent).trans hcount)

/-- `<p><wbr><q></q></p>`. -/
def sample : Page where
  name := ⟨⟨'p', [], rfl, by decide⟩, by decide⟩
  attributes := []
  inside := [.tag (voidTag ⟨⟨'w', ['b', 'r'], rfl, by decide⟩, "wbr", by decide, rfl⟩ [])] ++
    (.tag (openTag ⟨⟨'q', [], rfl, by decide⟩, by decide⟩ []) :: [] ++
      [.tag (closeTag ⟨⟨'q', [], rfl, by decide⟩, by decide⟩)])
  content := .append (.void _ _) (.element _ _ .nil)

/-- The tags of `q` are partners, and those of `p` are not. -/
theorem partner?_iff_no_void_sample :
    sample.segments = sample.segments.take 2 ++ sample.segments[2] ::
        ([] ++ sample.segments[3] :: sample.segments.drop 4) ∧
      (Document.ofText .marko sample.render).partner?
          ⟨.opening, ⟨⟨0, 8⟩, ⟨0, 11⟩⟩, some ⟨⟨0, 9⟩, ⟨0, 10⟩⟩, false⟩ =
        some ⟨.closing, ⟨⟨0, 11⟩, ⟨0, 15⟩⟩, some ⟨⟨0, 13⟩, ⟨0, 14⟩⟩, false⟩ ∧
      (Document.ofText .marko sample.render).partner?
          ⟨.opening, ⟨⟨0, 0⟩, ⟨0, 3⟩⟩, some ⟨⟨0, 1⟩, ⟨0, 2⟩⟩, false⟩ ≠
        some ⟨.closing, ⟨⟨0, 15⟩, ⟨0, 19⟩⟩, some ⟨⟨0, 17⟩, ⟨0, 18⟩⟩, false⟩ := by
  refine ⟨rfl, ?_, ?_⟩
  · exact (sample.partner?_iff_no_void (sample.segments.take 2) [] (sample.segments.drop 4)
      ⟨⟨'q', [], rfl, by decide⟩, by decide⟩ [] rfl .nil).1.2 (by decide)
  · intro hpartner
    have hvoid := (sample.partner?_iff_no_void [] sample.inside [] sample.name sample.attributes
      rfl sample.content).1.1 hpartner _ mem_cons_self
    exact absurd hvoid (by decide)

/-- With a void element inside, both tags of an element go without a partner. -/
theorem partner?_around_void :
    (Document.ofText .marko "<p><br></p>".toList).partner?
        ⟨.opening, ⟨⟨0, 0⟩, ⟨0, 3⟩⟩, some ⟨⟨0, 1⟩, ⟨0, 2⟩⟩, false⟩ = none ∧
      (Document.ofText .marko "<p><br></p>".toList).partner?
        ⟨.closing, ⟨⟨0, 7⟩, ⟨0, 11⟩⟩, some ⟨⟨0, 9⟩, ⟨0, 10⟩⟩, false⟩ = none := by
  decide +kernel

end Page

end Markup

end TemplateEditing
