import TemplateEditing.Proofs.Marker.Numbers
import TemplateEditing.Proofs.Tag.Layout
import TemplateEditing.Proofs.Tag.Paired

/-!
# Pairs that are shown

Following a tag puts markers on it and changes nothing else. So a pair that was just searched for is
where it was found, and is valid unless its close tag was misread (`Matcher.refresh_shown`).
-/

namespace TemplateEditing

/-! ## Following what was found -/

/-- Markers stay where they are, and new ones may be added. -/
structure MarkedText.Keeps (p p' : MarkedText) : Prop where
  text_eq : p'.text = p.text
  get? : ∀ {id m}, p.markers.get? id = some m →
    ∃ m', p'.markers.get? id = some m' ∧ m'.range = m.range ∧ m'.valid = m.valid

namespace MarkedText.Keeps

lemma refl (p : MarkedText) : p.Keeps p := ⟨rfl, fun h => ⟨_, h, rfl, rfl⟩⟩

lemma trans {p p' p'' : MarkedText} (h : p.Keeps p') (h' : p'.Keeps p'') : p.Keeps p'' := by
  refine ⟨h'.text_eq.trans h.text_eq, fun hm => ?_⟩
  obtain ⟨m', hm', hrange', hvalid'⟩ := h.get? hm
  obtain ⟨m'', hm'', hrange'', hvalid''⟩ := h'.get? hm'
  exact ⟨m'', hm'', hrange''.trans hrange', hvalid''.trans hvalid'⟩

end MarkedText.Keeps

lemma Text.HasRange.ofEnds_clip {t : Text} {r : Range} (ht : t.OnlyLineFeeds) (h : t.HasRange r) :
    .ofEnds (t.clip r.start) (t.clip r.stop) = r := by
  obtain ⟨a, b, hab, hb, rfl⟩ := h
  rw [rangeOf, clip_positionOf ht (by omega), clip_positionOf ht hb, ofEnds_positionOf ht hab hb]

namespace LiveTag

/-- A tag follows a span. -/
structure Marks (tag : LiveTag) (p : MarkedText) (s : TagSpan) : Prop where
  kind_eq : tag.kind = s.kind
  delimiters_eq : tag.delimiters = s.delimiters?
  marker : ∃ m, p.markers.get? tag.marker = some m ∧ m.valid = true ∧
    (p.text.HasRange s.range → m.range = s.range)
  nameMarker : ∀ r, s.nameRange = some r → ∃ id m, tag.nameMarker = some id ∧
    p.markers.get? id = some m ∧ m.valid = true ∧ (p.text.HasRange r → m.range = r)

/-- A tag stays marked as long as its markers are kept. -/
lemma Marks.keeps {tag : LiveTag} {p p' : MarkedText} {s : TagSpan} (h : tag.Marks p s)
    (hkeeps : p.Keeps p') : tag.Marks p' s := by
  obtain ⟨m, hm, hvalid, hrange⟩ := h.marker
  obtain ⟨m', hm', hrange', hvalid'⟩ := hkeeps.get? hm
  refine ⟨h.kind_eq, h.delimiters_eq, ⟨m', hm', hvalid'.trans hvalid, ?_⟩, ?_⟩
  · rw [hkeeps.text_eq, hrange']
    exact hrange
  · intro r hr
    obtain ⟨id, n, hid, hn, hvalid, hrange⟩ := h.nameMarker r hr
    obtain ⟨n', hn', hrange', hvalid'⟩ := hkeeps.get? hn
    refine ⟨id, n', hid, hn', hvalid'.trans hvalid, ?_⟩
    rw [hkeeps.text_eq, hrange']
    exact hrange

end LiveTag

namespace Document

/-- The document with other markers. -/
def withMarkers (d : Document) (markers : MarkerSet) : Document :=
  { d with buffer := { d.buffer with markers := markers } }

variable {d : Document}

lemma keeps_mark (d : Document) (r : Range) : d.buffer.marked.Keeps (d.mark r).2.buffer.marked :=
  ⟨rfl, fun h => ⟨_, MarkerSet.get?_mark_of_some h _, rfl, rfl⟩⟩

lemma keeps_decorate (d : Document) (id : MarkerId) (style : String) :
    d.buffer.marked.Keeps (d.decorate id style).buffer.marked :=
  ⟨rfl, fun h => MarkerSet.get?_decorate_of_some h _ _⟩

/-- A new marker lies on the range it was made for. -/
lemma exists_get?_mark (honly : d.text.OnlyLineFeeds) (hnumbered : d.buffer.markers.Numbered)
    (r : Range) : ∃ m, (d.mark r).2.buffer.markers.get? (d.mark r).1 = some m ∧ m.valid = true ∧
      (d.text.HasRange r → m.range = r) := by
  refine ⟨_, hnumbered.get?_mark_next _, rfl, ?_⟩
  exact fun hr => hr.ofEnds_clip honly

end Document

namespace LiveTag

variable {d : Document} {s : TagSpan}

lemma exists_acquire_eq (d : Document) (s : TagSpan) :
    ∃ markers, (acquire d s).2 = d.withMarkers markers := by
  unfold acquire
  dsimp only
  split <;> exact ⟨_, rfl⟩

/-- Marking a tag keeps all other markers. -/
lemma keeps_acquire (d : Document) (s : TagSpan) :
    d.buffer.marked.Keeps (acquire d s).2.buffer.marked := by
  unfold acquire
  dsimp only
  split
  · exact d.keeps_mark _
  · exact (d.keeps_mark _).trans (Document.keeps_mark _ _)

lemma numbered_acquire (hnumbered : d.buffer.markers.Numbered) (s : TagSpan) :
    (acquire d s).2.buffer.markers.Numbered := by
  unfold acquire
  dsimp only
  split
  · exact hnumbered.mark _
  · exact (hnumbered.mark _).mark _

/-- Following a tag with a name. -/
lemma marks_acquire (honly : d.text.OnlyLineFeeds) (hnumbered : d.buffer.markers.Numbered)
    (hs : s.nameRange ≠ none) : (acquire d s).1.Marks (acquire d s).2.buffer.marked s := by
  obtain ⟨r, hr⟩ := Option.ne_none_iff_exists'.1 hs
  have hnumbered' : (d.mark s.range).2.buffer.markers.Numbered := hnumbered.mark _
  obtain ⟨m, hm, hvalid, hrange⟩ := d.exists_get?_mark honly hnumbered s.range
  obtain ⟨m', hm', hrange', hvalid'⟩ := ((d.mark s.range).2.keeps_mark r).get? hm
  obtain ⟨n, hn, hnameValid, hnameRange⟩ :=
    (d.mark s.range).2.exists_get?_mark honly hnumbered' r
  unfold acquire
  rw [hr]
  refine ⟨rfl, rfl, ⟨m', hm', hvalid'.trans hvalid, fun h => hrange'.trans (hrange h)⟩, ?_⟩
  intro r' hr'
  obtain rfl := Option.some.inj (hr.symm.trans hr')
  exact ⟨_, n, rfl, hn, hnameValid, hnameRange⟩

end LiveTag

lemma TagPair.exists_highlight_eq (pair : TagPair) (d : Document) (style : String) :
    (∃ markers, pair.highlight d style = d.withMarkers markers) ∧
      d.buffer.marked.Keeps (pair.highlight d style).buffer.marked := by
  have hfold : ∀ (tags : List LiveTag) (d : Document),
      (∃ markers, tags.foldl (fun d t => t.highlight d style) d = d.withMarkers markers) ∧
        d.buffer.marked.Keeps (tags.foldl (fun d t => t.highlight d style) d).buffer.marked := by
    intro tags
    induction tags with
    | nil => exact fun d => ⟨⟨d.buffer.markers, rfl⟩, .refl _⟩
    | cons t tags ih =>
      intro d
      obtain ⟨⟨markers, hmarkers⟩, hkeeps⟩ := ih (t.highlight d style)
      refine ⟨⟨markers, ?_⟩, (d.keeps_decorate t.marker style).trans hkeeps⟩
      rw [List.foldl_cons, hmarkers]
      rfl
  exact hfold pair.tags d

namespace Matcher

variable {m : Matcher} {d : Document}

lemma exists_drop_eq (m : Matcher) (d : Document) :
    ∃ markers, (m.drop d).2 = d.withMarkers markers := by
  have hfold : ∀ (ids : List MarkerId) (d : Document),
      ∃ markers, ids.foldl Document.unmark d = d.withMarkers markers := by
    intro ids
    induction ids with
    | nil => exact fun d => ⟨d.buffer.markers, rfl⟩
    | cons id ids ih =>
      intro d
      obtain ⟨markers, hmarkers⟩ := ih (d.unmark id)
      exact ⟨markers, hmarkers⟩
  have hrelease : ∀ (tags : List LiveTag) (d : Document),
      ∃ markers, tags.foldl (fun d t => t.release d) d = d.withMarkers markers := by
    intro tags
    induction tags with
    | nil => exact fun d => ⟨d.buffer.markers, rfl⟩
    | cons t tags ih =>
      intro d
      obtain ⟨released, hreleased⟩ := hfold t.markers d
      obtain ⟨markers, hmarkers⟩ := ih (t.release d)
      refine ⟨markers, hmarkers.trans ?_⟩
      rw [show t.release d = d.withMarkers released from hreleased]
      rfl
  unfold drop
  split
  · exact ⟨d.buffer.markers, rfl⟩
  · exact hrelease _ d

/-- Following tags changes nothing but markers. -/
lemma exists_follow_eq (m : Matcher) (d : Document) (opening : TagSpan) (closing : Option TagSpan)
    (active : Side) : ∃ markers, (m.follow d opening closing active).2 = d.withMarkers markers := by
  obtain ⟨markers₁, hmarkers₁⟩ := LiveTag.exists_acquire_eq d opening
  cases closing with
  | none =>
    obtain ⟨⟨markers, hmarkers⟩, -⟩ := TagPair.exists_highlight_eq
      (TagPair.of (LiveTag.acquire d opening).1 none active) (LiveTag.acquire d opening).2
      m.settings.highlightClass
    refine ⟨markers, hmarkers.trans ?_⟩
    rw [hmarkers₁]
    rfl
  | some s =>
    obtain ⟨markers₂, hmarkers₂⟩ := LiveTag.exists_acquire_eq (LiveTag.acquire d opening).2 s
    obtain ⟨⟨markers, hmarkers⟩, -⟩ := TagPair.exists_highlight_eq
      (TagPair.of (LiveTag.acquire d opening).1
        (some (LiveTag.acquire (LiveTag.acquire d opening).2 s).1) active)
      (LiveTag.acquire (LiveTag.acquire d opening).2 s).2 m.settings.highlightClass
    refine ⟨markers, hmarkers.trans ?_⟩
    rw [hmarkers₂, hmarkers₁]
    rfl

/-- Following tags that have names. -/
lemma follow_cases (honly : d.text.OnlyLineFeeds) (hnumbered : d.buffer.markers.Numbered)
    {opening : TagSpan} {closing : Option TagSpan} (hopening : opening.nameRange ≠ none)
    (hclosing : ∀ s, closing = some s → s.nameRange ≠ none) (active : Side) :
    ∃ first second markers, m.follow d opening closing active =
        ({ m with pair := some (TagPair.of first second active) }, d.withMarkers markers) ∧
      first.Marks ⟨d.text, markers⟩ opening ∧
      (closing = none ∧ second = none ∨ ∃ s tag, closing = some s ∧ second = some tag ∧
        tag.Marks ⟨d.text, markers⟩ s) := by
  have hfirst := LiveTag.marks_acquire honly hnumbered hopening
  have hnumbered' := LiveTag.numbered_acquire hnumbered opening
  obtain ⟨markers₁, hmarkers₁⟩ := LiveTag.exists_acquire_eq d opening
  have honly' : (LiveTag.acquire d opening).2.text.OnlyLineFeeds := by
    rw [hmarkers₁]
    exact honly
  cases closing with
  | none =>
    obtain ⟨⟨markers, hmarkers⟩, hkeeps⟩ := TagPair.exists_highlight_eq
      (TagPair.of (LiveTag.acquire d opening).1 none active) (LiveTag.acquire d opening).2
      m.settings.highlightClass
    rw [hmarkers, hmarkers₁] at hkeeps
    refine ⟨(LiveTag.acquire d opening).1, none, markers, ?_, ?_, .inl ⟨rfl, rfl⟩⟩
    · refine Prod.ext rfl (hmarkers.trans ?_)
      rw [hmarkers₁]
      rfl
    · rw [hmarkers₁] at hfirst
      exact hfirst.keeps hkeeps
  | some s =>
    have hsecond := LiveTag.marks_acquire honly' hnumbered' (hclosing s rfl)
    -- neither following the second tag nor showing the pair loses the first one
    have hkept := LiveTag.keeps_acquire (LiveTag.acquire d opening).2 s
    obtain ⟨markers₂, hmarkers₂⟩ := LiveTag.exists_acquire_eq (LiveTag.acquire d opening).2 s
    obtain ⟨⟨markers, hmarkers⟩, hkeeps⟩ := TagPair.exists_highlight_eq
      (TagPair.of (LiveTag.acquire d opening).1
        (some (LiveTag.acquire (LiveTag.acquire d opening).2 s).1) active)
      (LiveTag.acquire (LiveTag.acquire d opening).2 s).2 m.settings.highlightClass
    have hfirst := hfirst.keeps (hkept.trans hkeeps)
    have hsecond := hsecond.keeps hkeeps
    rw [hmarkers, hmarkers₂, hmarkers₁] at hfirst
    rw [hmarkers, hmarkers₂] at hsecond
    have htext : (LiveTag.acquire d opening).2.text = d.text := by
      rw [hmarkers₁]
      rfl
    refine ⟨(LiveTag.acquire d opening).1, some (LiveTag.acquire (LiveTag.acquire d opening).2 s).1,
      markers, ?_, hfirst, .inr ⟨s, _, rfl, rfl, ?_⟩⟩
    · refine Prod.ext rfl (hmarkers.trans ?_)
      rw [hmarkers₂, hmarkers₁]
      rfl
    · rw [← htext]
      exact hsecond

end Matcher

/-! ## Pairs that are shown -/

/-- The close tag of a pair begins with an open tag that has no word in its name, as the `<_></b>`
of `<b><_></b>`. -/
def TagPair.misread (pair : TagPair) (d : Document) : Bool :=
  pair.closing.any fun close =>
    (close.range? d).any fun r => (d.text.inRange r).startsWordless

/-- What is known of a pair while it is shown. -/
structure TagPair.Shown (pair : TagPair) (d : Document) : Prop where
  isSingle : d.cursors.isSingle = true
  touches : pair.activeTag.touches d d.caret = true
  isValid_eq : pair.isValid d = !pair.misread d

namespace LiveTag

variable {tag : LiveTag} {s : TagSpan} {d : Document}

/-- A tag that was just found is where it was found, and valid if its brackets are there. -/
lemma Marks.range?_eq (h : tag.Marks d.buffer.marked s) {a b : Nat} (hab : a ≤ b)
    (hb : b ≤ d.text.length) (hrange : s.range = d.text.rangeOf a b) :
    tag.range? d = some (d.text.rangeOf a b) := by
  obtain ⟨m, hm, -, hmarked⟩ := h.marker
  have hm : d.marker? tag.marker = some m := hm
  rw [range?, hm, Option.map_some, hmarked ⟨a, b, hab, hb, hrange⟩, hrange]

/-- A marked tag is valid if its delimiters are in the text. -/
lemma Marks.isValid_eq (h : tag.Marks d.buffer.marked s) (honly : d.text.OnlyLineFeeds)
    (hname : s.nameRange ≠ none) {a b : Nat} (hab : a ≤ b) (hb : b ≤ d.text.length)
    (hrange : s.range = d.text.rangeOf a b) :
    tag.isValid d = tag.hasDelimiters (d.text.slice a b) := by
  obtain ⟨m, hm, hvalid, hmarked⟩ := h.marker
  obtain ⟨r, hr⟩ := Option.ne_none_iff_exists'.1 hname
  obtain ⟨id, n, hid, hn, hnameValid, -⟩ := h.nameMarker r hr
  have hm : d.marker? tag.marker = some m := hm
  have hn : d.marker? id = some n := hn
  unfold isValid
  rw [hm, hid, Option.bind_some, hn]
  dsimp only
  rw [hvalid, Option.all_some, hnameValid, hmarked ⟨a, b, hab, hb, hrange⟩, hrange, Text.rangeOf,
    Text.inRange_positionOf honly (by omega) hb, Bool.true_and, Bool.true_and]

lemma Marks.liesAt (h : tag.Marks d.buffer.marked s) {x : Spot} (hs : s.StandsAt d.text x) :
    tag.LiesAt d.buffer.marked x := by
  obtain ⟨m, hm, -, hmarked⟩ := h.marker
  obtain ⟨id, n, hid, hn, -, hname⟩ := h.nameMarker _ hs.nameRange_eq
  have hstart := hs.start_lt
  have hlt := hs.name_lt
  have hstop := hs.lt_stop
  have hlength := hs.stop_le
  refine ⟨⟨by omega, by omega, by omega, hlength⟩, ⟨m, hm, ?_⟩, id, n, hid, hn, ?_⟩
  · rw [hmarked ⟨x.start, x.stop, by omega, hlength, hs.range_eq⟩, hs.range_eq]
    rfl
  · exact hname ⟨x.nameStart, x.nameStop, by omega, by show x.nameStop ≤ d.text.length; omega, rfl⟩

/-- A tag touches every place from its start to its end. -/
lemma touches_of_range? {a b o : Nat} (honly : d.text.OnlyLineFeeds)
    (hrange : tag.range? d = some (d.text.rangeOf a b)) (ha : a ≤ o) (ho : o ≤ b)
    (hb : b ≤ d.text.length) : tag.touches d (d.text.positionOf o) = true := by
  rw [touches, hrange, Option.any_some, Range.touches, Bool.and_eq_true, decide_eq_true_eq,
    decide_eq_true_eq]
  exact ⟨(Text.positionOf_le_iff honly (by omega) (by omega)).2 ha,
    (Text.positionOf_le_iff honly (by omega) hb).2 ho⟩

end LiveTag

/-- A text with the brackets of a close tag does not begin with an open one. -/
lemma LiveTag.startsWordless_of_hasDelimiters {tag : LiveTag} {last text : Text}
    (hdelimiters : tag.delimiters = some (['<', '/'], last)) (h : tag.hasDelimiters text = true) :
    text.startsWordless = false := by
  obtain ⟨middle, rfl⟩ := exists_of_hasDelimiters hdelimiters h
  have hslash : Lexer.isTagChar '/' = false := by decide
  simp [Text.startsWordless, hslash]

namespace LiveTag.Marks

variable {tag : LiveTag} {d : Document} {s : TagSpan} {x : Spot}
  (h : tag.Marks d.buffer.marked s) (honly : d.text.OnlyLineFeeds) (hs : s.StandsAt d.text x)

include h honly hs

lemma isValid_eq_of_standsAt :
    tag.isValid d = tag.hasDelimiters (d.text.slice x.start x.stop) := by
  have hstart := hs.start_lt
  have hname := hs.name_lt
  have hstop := hs.lt_stop
  have hsome : s.nameRange ≠ none := by
    rw [hs.nameRange_eq]
    exact Option.some_ne_none _
  exact h.isValid_eq honly hsome (by omega) hs.stop_le hs.range_eq

/-- An open tag that was found is valid. -/
lemma isValid_of_opening (hkind : s.kind = .opening) : tag.isValid d = true := by
  rw [h.isValid_eq_of_standsAt honly hs]
  refine hs.delimited.resolve_right (fun hclosing => ?_) tag h.kind_eq h.delimiters_eq
  exact absurd (hkind.symm.trans hclosing.1) (by decide)

omit honly in
lemma delimiters_of_closing (hkind : s.kind = .closing) :
    tag.delimiters = some (['<', '/'], ['>']) := by
  rw [h.delimiters_eq, TagSpan.delimiters?, hs.concise_eq, hkind]
  rfl

/-- A close tag that was found is valid, unless an open tag without a word in its name was taken for
its start. -/
lemma isValid_of_closing (hkind : s.kind = .closing) :
    tag.isValid d = !(d.text.slice x.start x.stop).startsWordless := by
  have hdelimiters := h.delimiters_of_closing hs hkind
  rw [h.isValid_eq_of_standsAt honly hs]
  rcases hs.delimited with hdelimited | ⟨-, hwordless⟩
  · have hhas := hdelimited tag h.kind_eq h.delimiters_eq
    rw [hhas, startsWordless_of_hasDelimiters hdelimiters hhas]
    rfl
  · rw [hwordless]
    cases hhas : tag.hasDelimiters (d.text.slice x.start x.stop) with
    | false => rfl
    | true =>
      rw [startsWordless_of_hasDelimiters hdelimiters hhas] at hwordless
      cases hwordless

end LiveTag.Marks

namespace TagPair

variable {pair : TagPair} {d : Document}

/-- A valid pair is not misread. -/
lemma misread_of_isValid (honly : d.text.OnlyLineFeeds) (hvalid : pair.isValid d)
    (hclose : ∀ close, pair.closing = some close → ∃ x y, pair.LiesAt close d.buffer.marked x y) :
    pair.misread d = false := by
  unfold misread
  cases hclosing : pair.closing with
  | none => rfl
  | some close =>
    obtain ⟨x, y, hlies⟩ := hclose close hclosing
    have hcloseValid : close.isValid d = true := by
      rw [isValid, List.all_eq_true] at hvalid
      refine hvalid close ?_
      rw [tags, hclosing]
      exact List.mem_cons_of_mem _ List.mem_cons_self
    have hlength : y.stop ≤ d.text.length := hlies.closing.fits.stop_le
    have hstart := hlies.closing.fits.start_le
    have hname := hlies.closing.fits.name_le
    have hstop := hlies.closing.fits.le_stop
    rw [Option.any_some, hlies.closing.range?_eq, Option.any_some, Text.rangeOf,
      Text.inRange_positionOf honly (by omega) hlength]
    exact LiveTag.startsWordless_of_hasDelimiters hlies.closing_delimiters
      (hlies.closing.hasDelimiters_of_isValid honly hcloseValid)

/-- An open tag that was found alone. -/
lemma shown_of_marks (honly : d.text.OnlyLineFeeds) (hsingle : d.cursors.isSingle) {o : Nat}
    (hcaret : d.caret = d.text.positionOf o) {first : LiveTag} {s : TagSpan}
    (hfirst : first.Marks d.buffer.marked s) (hname : s.nameRange ≠ none) {a b : Nat}
    (hrange : s.range = d.text.rangeOf a b) (ha : a ≤ o) (ho : o ≤ b) (hb : b ≤ d.text.length)
    (hdelimited : s.Delimited (d.text.slice a b)) (active : Side) :
    (TagPair.of first none active).Shown d := by
  refine ⟨hsingle, ?_, ?_⟩
  · rw [hcaret]
    exact LiveTag.touches_of_range? honly (hfirst.range?_eq (by omega) hb hrange) ha ho hb
  · show (first.isValid d && true) = true
    rw [hfirst.isValid_eq honly hname (by omega) hb hrange,
      hdelimited first hfirst.kind_eq hfirst.delimiters_eq]
    rfl

/-- A pair that was found is shown, and its tags lie where they stand. -/
lemma shown_of_marks_of_marks (honly : d.text.OnlyLineFeeds) (hsingle : d.cursors.isSingle) {o : Nat}
    (hcaret : d.caret = d.text.positionOf o) {first second : LiveTag} {s s' : TagSpan}
    (hfirst : first.Marks d.buffer.marked s) (hsecond : second.Marks d.buffer.marked s') {x y : Spot}
    (hs : s.StandsAt d.text x) (hs' : s'.StandsAt d.text y) (hkind : s.kind = .opening)
    (hkind' : s'.kind = .closing) (horder : x.stop ≤ y.start) {active : Side}
    (hactive : active = .opening ∧ x.start ≤ o ∧ o ≤ x.stop ∨
      active = .closing ∧ y.start ≤ o ∧ o ≤ y.stop) :
    (TagPair.of first (some second) active).Shown d ∧
      (TagPair.of first (some second) active).LiesAt second d.buffer.marked x y ∧
      Clean d.text x y := by
  have hx := hfirst.liesAt hs
  have hy := hsecond.liesAt hs'
  obtain ⟨hxstart, hxname, hxstop⟩ := hs.start_lt, hs.name_lt, hs.lt_stop
  have hxlength := hs.stop_le
  have hystart := hs'.start_lt
  have hyname := hs'.name_lt
  have hystop := hs'.lt_stop
  have hylength := hs'.stop_le
  have hopening : first.delimiters = some (['<'], ['>']) := by
    rw [hfirst.delimiters_eq, TagSpan.delimiters?, hs.concise_eq, hkind]
    rfl
  refine ⟨⟨hsingle, ?_, ?_⟩, ?_, ?_⟩
  · rw [hcaret]
    rcases hactive with ⟨rfl, hle, hle'⟩ | ⟨rfl, hle, hle'⟩
    · exact LiveTag.touches_of_range? honly hx.range?_eq hle hle' hxlength
    · exact LiveTag.touches_of_range? honly hy.range?_eq hle hle' hylength
  · -- the pair is valid exactly if its close tag was not read from another tag
    show (first.isValid d && (second.isValid d && true)) =
      !((second.range? d).any fun r => (d.text.inRange r).startsWordless)
    rw [hfirst.isValid_of_opening honly hs hkind, hsecond.isValid_of_closing honly hs' hkind',
      hy.range?_eq, Option.any_some, Text.rangeOf,
      Text.inRange_positionOf honly (by omega) hylength, Bool.true_and, Bool.and_true]
  · exact
      { opening := hx
        closing := hy
        opening_kind := hfirst.kind_eq.trans hkind
        opening_delimiters := hopening
        closing_kind := hsecond.kind_eq.trans hkind'
        closing_delimiters := hsecond.delimiters_of_closing hs' hkind'
        closing_eq := rfl
        le_start := by omega }
  · -- a name is a word, and the tags stand apart
    refine ⟨?_, ?_, .inl (by omega)⟩
    · intro hmem
      have := hs.isWordChar _ hmem
      revert this
      decide
    · intro hmem
      obtain ⟨k, hk, hk', -⟩ := Text.mem_slice.1 hmem
      omega

end TagPair

namespace Document.Sound

variable {d : Document} (h : d.Sound)

include h

/-- Dropping the pair keeps a document sound. -/
lemma drop (m : Matcher) : (m.drop d).2.Sound := by
  have hfold : ∀ (ids : List MarkerId) {d : Document}, d.Sound →
      (ids.foldl Document.unmark d).Sound := by
    intro ids
    induction ids with
    | nil => exact fun h => h
    | cons id ids ih => exact fun h => ih (h.unmark id)
  have hrelease : ∀ (tags : List LiveTag) {d : Document}, d.Sound →
      (tags.foldl (fun d t => t.release d) d).Sound := by
    intro tags
    induction tags with
    | nil => exact fun h => h
    | cons t tags ih => exact fun h => ih (hfold t.markers h)
  unfold Matcher.drop
  split
  · exact h
  · exact hrelease _ h

lemma acquire (s : TagSpan) : (LiveTag.acquire d s).2.Sound := by
  unfold LiveTag.acquire
  dsimp only
  split
  · exact h.mark _
  · exact (h.mark _).mark _

lemma highlight (pair : TagPair) (style : String) : (pair.highlight d style).Sound := by
  have hfold : ∀ (tags : List LiveTag) {d : Document}, d.Sound →
      (tags.foldl (fun d t => t.highlight d style) d).Sound := by
    intro tags
    induction tags with
    | nil => exact fun h => h
    | cons t tags ih => exact fun h => ih (h.decorate t.marker style)
  exact hfold pair.tags h

/-- Following a pair keeps a document sound. -/
lemma follow (m : Matcher) (opening : TagSpan) (closing : Option TagSpan) (active : Side) :
    (m.follow d opening closing active).2.Sound := by
  have hfirst := h.acquire opening
  cases closing with
  | none => exact hfirst.highlight _ _
  | some s => exact (hfirst.acquire s).highlight _ _

end Document.Sound

namespace Matcher

variable {m : Matcher} {d : Document}

/-- A search changes nothing but markers. -/
lemma exists_refresh_eq (m : Matcher) (d : Document) :
    ∃ markers, (m.refresh d).2 = d.withMarkers markers := by
  obtain ⟨dropped, hdropped⟩ := m.exists_drop_eq d
  rcases m.refresh_cases d with heq | ⟨opening, closing, active, -, -, -, heq⟩
  · rw [heq]
    exact ⟨dropped, hdropped⟩
  · obtain ⟨markers, hmarkers⟩ := (m.drop d).1.exists_follow_eq (m.drop d).2 opening closing active
    rw [heq, hmarkers, hdropped]
    exact ⟨markers, rfl⟩

/-- What a search finds is shown. -/
theorem refresh_shown (h : d.Sound) (hnumbered : (m.drop d).2.buffer.markers.Numbered) :
    (m.refresh d).2.Sound ∧ ∀ pair, (m.refresh d).1.pair = some pair →
      m.settings.enabled = true ∧ pair.Shown (m.refresh d).2 ∧
        ∀ close, pair.closing = some close → ∃ x y,
          pair.LiesAt close (m.refresh d).2.buffer.marked x y ∧ Clean (m.refresh d).2.text x y := by
  have hdrop := h.drop m
  rcases m.refresh_cases d with heq | ⟨opening, closing, active, henabled, hsingle, hspans, heq⟩
  · -- nothing is shown where nothing is found
    rw [heq]
    refine ⟨hdrop, fun pair hpair => ?_⟩
    rw [m.pair_drop d] at hpair
    cases hpair
  obtain ⟨hopeningName, hclosingName⟩ := nameRange_spansAt? hspans
  have honly := hdrop.onlyLineFeeds
  obtain ⟨first, second, markers, hfollow, hfirst, hsecond⟩ := follow_cases (m := (m.drop d).1)
    honly hnumbered hopeningName hclosingName active
  have hsound := hdrop.follow (m.drop d).1 opening closing active
  rw [hfollow] at hsound heq
  rw [heq]
  obtain ⟨o, ho, hcaret⟩ := hdrop.caret
  rw [hcaret] at hspans
  refine ⟨hsound, fun pair hpair => ⟨henabled, ?_⟩⟩
  cases hpair
  rcases hdrop.spansAt?_cases ho hspans with
    ⟨rfl, rfl, a, b, hrange, ha, hb, hlength, hdelimited⟩ |
    ⟨s, x, y, rfl, hx, hy, hkind, hkind', horder, hactive⟩
  · obtain ⟨-, rfl⟩ | ⟨s, tag, hs, -⟩ := hsecond
    · refine ⟨TagPair.shown_of_marks (d := (m.drop d).2.withMarkers markers) honly hsingle hcaret
        hfirst hopeningName hrange ha hb hlength hdelimited _, ?_⟩
      intro close hclose
      cases hclose
    · cases hs
  · obtain ⟨hs, -⟩ | ⟨s', tag, hs, rfl, htag⟩ := hsecond
    · cases hs
    · cases hs
      obtain ⟨hshown, hlies, hclean⟩ := TagPair.shown_of_marks_of_marks
        (d := (m.drop d).2.withMarkers markers) honly hsingle hcaret hfirst htag hx hy hkind hkind'
        horder hactive
      refine ⟨hshown, ?_⟩
      intro close hclose
      cases hclose
      exact ⟨x, y, hlies, hclean⟩

end Matcher

end TemplateEditing
