import TemplateEditing.Proofs.Document.Sound
import TemplateEditing.Proofs.Tag.Located
import TemplateEditing.Proofs.Tag.Renaming

/-!
# Tags shown, by offsets

Where line feeds are the only row terminators, the markers of a tag that is followed are four
offsets (`Spot`), and every edit moves them by plain arithmetic (`LiveTag.LiesAt.tracks`). Giving
one tag of a pair the name of the other makes the names equal, unless the tags have run into each
other; then the close tag is no longer valid (`TagPair.LiesAt.renamed`).
-/

namespace TemplateEditing

open List

variable {i j : Nat} {name : Text}

/-! ## Spots that move -/

namespace Spot

/-- The tag and its name are places of a text of this length, one in the other. -/
structure Fits (x : Spot) (length : Nat) : Prop where
  start_le : x.start ≤ x.nameStart
  name_le : x.nameStart ≤ x.nameStop
  le_stop : x.nameStop ≤ x.stop
  stop_le : x.stop ≤ length

/-- Where the spot goes when the characters from `i` up to `j` give way to `n` others. -/
def move (x : Spot) (i j n : Nat) : Spot where
  start := Offset.moveStart i j n x.start
  nameStart := Offset.moveStart i j n x.nameStart
  nameStop := Offset.moveCaret i j n x.nameStop
  stop := Offset.moveCaret i j n x.stop

lemma Fits.move {x : Spot} {i j length : Nat} (h : x.Fits length) (hij : i ≤ j) (hj : j ≤ length)
    (n : Nat) : (x.move i j n).Fits (length + n - (j - i)) := by
  obtain ⟨hstart, hname, hstop, hlength⟩ := h
  have h₁ := Offset.moveStart_cases i j n x.start
  have h₂ := Offset.moveStart_cases i j n x.nameStart
  have h₃ := Offset.moveCaret_cases i j n x.nameStop
  have h₄ := Offset.moveCaret_cases i j n x.stop
  constructor
  · show Offset.moveStart i j n x.start ≤ Offset.moveStart i j n x.nameStart
    omega
  · exact Offset.moveStart_le_moveCaret hij hname n
  · show Offset.moveCaret i j n x.nameStop ≤ Offset.moveCaret i j n x.stop
    omega
  · exact Offset.moveCaret_le hij hj hlength n

end Spot

namespace LiveTag

/-- The markers of a tag lie at a spot. -/
structure LiesAt (tag : LiveTag) (p : MarkedText) (x : Spot) : Prop where
  fits : x.Fits p.text.length
  marker : ∃ m, p.markers.get? tag.marker = some m ∧ m.range = p.text.rangeOf x.start x.stop
  nameMarker : ∃ id m, tag.nameMarker = some id ∧ p.markers.get? id = some m ∧
    m.range = p.text.rangeOf x.nameStart x.nameStop

namespace LiesAt

variable {tag : LiveTag} {x : Spot}

/-- The markers go where the spot goes. -/
lemma tracks {p p' : MarkedText} {inserted : Text} {c : Change}
    (h : tag.LiesAt p x) (honly : p.text.OnlyLineFeeds)
    (ht : MarkedText.Tracks p i j inserted c p') :
    tag.LiesAt p' (x.move i j inserted.length) := by
  obtain ⟨hfits, ⟨m, hm, hrange⟩, id, n, hid, hn, hname⟩ := h
  have hij := ht.start_le_stop
  have hj := ht.stop_le_length
  have hlength : p'.text.length = p.text.length + inserted.length - (j - i) := by
    rw [ht.text_eq, Text.length_splice hij hj]
  -- a marker has one range only
  have hmoved : ∀ {id m} {a b : Nat}, p.markers.get? id = some m → a ≤ b → b ≤ p.text.length →
      m.range = p.text.rangeOf a b → ∃ m', p'.markers.get? id = some m' ∧
        m'.range = p'.text.rangeOf (Offset.moveStart i j inserted.length a)
          (Offset.moveCaret i j inserted.length b) := by
    intro id m a b hm hab hb hrange
    obtain ⟨a', b', hab', hb', hrange', m', hm', hmove⟩ := ht.marker id m hm
    obtain ⟨hstart, hstop⟩ := Range.mk.inj (hrange.symm.trans hrange')
    have ha := Text.positionOf_inj honly (by omega) (by omega) hstart
    have hb := Text.positionOf_inj honly hb hb' hstop
    subst ha hb
    exact ⟨m', hm', hmove⟩
  obtain ⟨hstart, hname', hstop, hstop'⟩ := hfits
  refine ⟨?_, hmoved hm (by omega) hstop' hrange, ?_⟩
  · rw [hlength]
    exact Spot.Fits.move ⟨hstart, hname', hstop, hstop'⟩ hij hj _
  · obtain ⟨n', hn', hmove⟩ := hmoved hn hname' (by omega) hname
    exact ⟨id, n', hid, hn', hmove⟩

variable {d : Document} (h : tag.LiesAt d.buffer.marked x)

include h

lemma range?_eq : tag.range? d = some (d.text.rangeOf x.start x.stop) := by
  obtain ⟨m, hm, hrange⟩ := h.marker
  rw [range?, Document.marker?, show d.buffer.markers.get? tag.marker = some m from hm,
    Option.map_some, hrange]
  rfl

lemma nameRange?_eq : tag.nameRange? d = some (d.text.rangeOf x.nameStart x.nameStop) := by
  obtain ⟨id, m, hid, hm, hrange⟩ := h.nameMarker
  rw [nameRange?, hid, Option.bind_some, Document.marker?,
    show d.buffer.markers.get? id = some m from hm, Option.map_some, hrange]
  rfl

lemma name?_eq (honly : d.text.OnlyLineFeeds) :
    tag.name? d = some (d.text.slice x.nameStart x.nameStop) := by
  obtain ⟨hstart, hname, hstop, hlength⟩ := h.fits
  have hlength : x.stop ≤ d.text.length := hlength
  rw [name?, h.nameRange?_eq, Option.map_some, Text.rangeOf,
    Text.inRange_positionOf honly (by omega) (by omega)]

/-- A valid tag has its brackets. -/
lemma hasDelimiters_of_isValid (honly : d.text.OnlyLineFeeds) (hvalid : tag.isValid d) :
    tag.hasDelimiters (d.text.slice x.start x.stop) = true := by
  obtain ⟨hstart, hname, hstop, hlength⟩ := h.fits
  have hlength : x.stop ≤ d.text.length := hlength
  obtain ⟨m, hm, hrange⟩ := h.marker
  have hm : d.marker? tag.marker = some m := hm
  unfold isValid at hvalid
  rw [hm] at hvalid
  dsimp only at hvalid
  rw [Bool.and_eq_true, hrange] at hvalid
  have hdelimiters := hvalid.2
  rw [Text.rangeOf] at hdelimiters
  exact Text.inRange_positionOf honly (show x.start ≤ d.text.length by omega) hlength ▸ hdelimiters

end LiesAt

/-- A text that has the brackets of a tag lies between them. -/
lemma exists_of_hasDelimiters {tag : LiveTag} {first last text : Text}
    (hdelimiters : tag.delimiters = some (first, last)) (h : tag.hasDelimiters text = true) :
    ∃ middle, text = first ++ middle ++ last := by
  unfold hasDelimiters at h
  rw [hdelimiters] at h
  simp only [Bool.and_eq_true, decide_eq_true_eq, List.isPrefixOf_iff_prefix,
    isSuffixOf_iff_suffix] at h
  obtain ⟨⟨⟨hfirst, front, rfl⟩, hlength⟩, -⟩ := h
  rw [length_append] at hlength
  obtain ⟨middle, rfl⟩ := prefix_of_prefix_length_le hfirst (prefix_append front last)
    (by omega)
  exact ⟨middle, rfl⟩

end LiveTag

/-- The brackets of a valid tag, character by character. -/
lemma LiveTag.LiesAt.brackets {tag : LiveTag} {x : Spot} {d : Document} {more : Text}
    (h : tag.LiesAt d.buffer.marked x) (honly : d.text.OnlyLineFeeds) (hvalid : tag.isValid d)
    (hdelimiters : tag.delimiters = some ('<' :: more, ['>'])) :
    d.text[x.start]? = some '<' ∧ d.text[x.stop - 1]? = some '>' ∧
      x.start + more.length + 2 ≤ x.stop := by
  obtain ⟨middle, hmiddle⟩ :=
    exists_of_hasDelimiters hdelimiters (h.hasDelimiters_of_isValid honly hvalid)
  have hfits : x.stop ≤ d.text.length := h.fits.stop_le
  have hlength : x.stop - x.start = more.length + middle.length + 2 := by
    have hlengths := congrArg List.length hmiddle
    simp only [Text.slice, length_drop, length_take, length_append, length_cons,
      length_nil] at hlengths
    omega
  have hchar : ∀ k, k < x.stop - x.start →
      d.text[x.start + k]? = (('<' :: more) ++ middle ++ ['>'])[k]? := by
    intro k hk
    rw [← hmiddle, Text.getElem?_slice, if_pos (by omega)]
  refine ⟨hchar 0 (by omega), ?_, by omega⟩
  have hlast := hchar (more.length + middle.length + 1) (by omega)
  rw [getElem?_append_right (by simp), show x.start + (more.length + middle.length + 1) =
    x.stop - 1 by omega] at hlast
  rw [hlast]
  simp

/-! ## Pairs -/

/-- The two tags of a pair lie at spots, and the name of the open one starts first. -/
structure TagPair.LiesAt (pair : TagPair) (close : LiveTag) (p : MarkedText) (x y : Spot) :
    Prop where
  opening : pair.opening.LiesAt p x
  closing : close.LiesAt p y
  opening_kind : pair.opening.kind = .opening
  opening_delimiters : pair.opening.delimiters = some (['<'], ['>'])
  closing_kind : close.kind = .closing
  closing_delimiters : close.delimiters = some (['<', '/'], ['>'])
  closing_eq : pair.closing = some close
  le_start : x.nameStart ≤ y.start

/-- No bracket stands where it would have to be removed for the two tags to run into each other. -/
structure Clean (t : Text) (x y : Spot) : Prop where
  name : '<' ∉ t.slice x.nameStart x.nameStop
  overlap : '>' ∉ t.slice y.start x.stop
  apart : x.nameStop < y.start ∨ '>' ∉ t.slice x.nameStop x.stop

section
variable {x y : Spot}

/-- Edits that bring no brackets in keep tags apart. -/
lemma Clean.splice {t inserted : Text} (h : Clean t x y) (hij : i ≤ j)
    (hj : j ≤ t.length) (hless : '<' ∉ inserted) (hgreater : '>' ∉ inserted) :
    Clean (t.splice i j inserted) (x.move i j inserted.length) (y.move i j inserted.length) := by
  have hstay : ∀ {a b lo : Nat} {c : Char},
      (lo = Offset.moveStart i j inserted.length a ∨ lo = Offset.moveCaret i j inserted.length a) →
      c ∉ t.slice a b → c ∉ inserted →
      c ∉ (t.splice i j inserted).slice lo (Offset.moveCaret i j inserted.length b) := by
    intro a b lo c hlo hold hnew hmem
    rcases Text.mem_slice_splice hij hj hlo hmem with hmem | hmem
    · exact hold hmem
    · exact hnew hmem
  refine ⟨hstay (.inl rfl) h.name hless, hstay (.inl rfl) h.overlap hgreater, ?_⟩
  by_cases hnone : '>' ∈ t.slice x.nameStop x.stop
  · have hlt := h.apart.resolve_right (not_not_intro hnone)
    by_cases hmeet : (x.move i j inserted.length).nameStop < (y.move i j inserted.length).start
    · exact .inl hmeet
    · -- all between the two was removed, and what is left of the open tag was in both of them
      right
      intro hmem
      obtain ⟨k, hlo, hhi, hk⟩ := Text.mem_slice.1 hmem
      have hname := Offset.moveCaret_cases i j inserted.length x.nameStop
      have hstart := Offset.moveStart_cases i j inserted.length y.start
      have hstop := Offset.moveCaret_cases i j inserted.length x.stop
      simp only [Spot.move] at hmeet hlo hhi
      rw [Text.getElem?_splice hij hj, if_neg (by omega), if_neg (by omega)] at hk
      exact h.overlap (Text.mem_slice.2 ⟨_, by omega, by omega, hk⟩)
  · exact .inr (hstay (.inr rfl) hnone hgreater)

namespace TagPair.LiesAt

variable {pair : TagPair} {close : LiveTag}

lemma tracks {p p' : MarkedText} {inserted : Text} {c : Change}
    (h : pair.LiesAt close p x y) (honly : p.text.OnlyLineFeeds)
    (ht : MarkedText.Tracks p i j inserted c p') :
    pair.LiesAt close p' (x.move i j inserted.length) (y.move i j inserted.length) := by
  have hle := h.le_start
  have hname := Offset.moveStart_cases i j inserted.length x.nameStart
  have hstart := Offset.moveStart_cases i j inserted.length y.start
  have hij := ht.start_le_stop
  exact
    { h with
      opening := h.opening.tracks honly ht
      closing := h.closing.tracks honly ht
      le_start := by simp only [Spot.move]; omega }

end TagPair.LiesAt

/-! ## Renaming by offsets -/

variable {t : Text}

/-- A name that is replaced is the new one. -/
lemma Spot.slice_renamed (hx : x.Fits t.length) (name : Text) :
    let x' := x.move x.nameStart x.nameStop name.length
    (t.splice x.nameStart x.nameStop name).slice x'.nameStart x'.nameStop = name := by
  obtain ⟨-, hname, hstop, hlength⟩ := hx
  have hstart := Offset.moveStart_cases x.nameStart x.nameStop name.length x.nameStart
  have hcaret := Offset.moveCaret_cases x.nameStart x.nameStop name.length x.nameStop
  simp only [Spot.move]
  rw [show Offset.moveStart x.nameStart x.nameStop name.length x.nameStart = x.nameStart by omega,
    show Offset.moveCaret x.nameStart x.nameStop name.length x.nameStop =
      x.nameStart + name.length by omega]
  exact Text.slice_splice (by omega)

/-- The first of some characters put in where a close tag started is not its bracket. -/
lemma getElem?_ne_of_splice (hij : i ≤ j) (hj : j ≤ t.length)
    (hne : name ≠ []) (hless : '<' ∉ name) : (t.splice i j name)[i]? ≠ some '<' := by
  have hpos := length_pos_iff.2 hne
  rw [Text.getElem?_splice hij hj, if_neg (by omega), if_pos (by omega)]
  exact fun hmem => hless (mem_of_getElem? hmem)

/-- Giving a close tag the name of its partner makes the names equal, unless the name of the partner
ends where the close tag starts. Then the close tag loses its bracket. -/
lemma slice_rename_closing (hx : x.Fits t.length) (hy : y.Fits t.length)
    (hle : x.nameStart ≤ y.start) (hbracket : t[y.start]? = some '<')
    (hname : t.slice x.nameStart x.nameStop = name) (hless : '<' ∉ name) :
    let x' := x.move y.nameStart y.nameStop name.length
    let y' := y.move y.nameStart y.nameStop name.length
    let t' := t.splice y.nameStart y.nameStop name
    t'.slice x'.nameStart x'.nameStop = name ∨
      x.nameStop = y.start ∧ name ≠ [] ∧ t'[y'.start]? ≠ some '<' := by
  intro x' y' t'
  obtain ⟨-, hxname, hxstop, hxlength⟩ := hx
  obtain ⟨hystart, hyname, hystop, hylength⟩ := hy
  have hstart := Offset.moveStart_cases y.nameStart y.nameStop name.length x.nameStart
  have hcaret := Offset.moveCaret_cases y.nameStart y.nameStop name.length x.nameStop
  have hx'start : x'.nameStart = x.nameStart := by
    simp only [x', Spot.move]
    omega
  rw [hx'start]
  by_cases hbefore : x.nameStop < y.nameStart
  · -- the name of the partner is not touched
    left
    rw [show x'.nameStop = x.nameStop by simp only [x', Spot.move]; omega,
      Text.slice_splice_of_le (by omega) (by omega)]
    exact hname
  · by_cases hempty : name = []
    · left
      have hlength := congrArg List.length hname
      simp only [hempty, Text.slice, length_drop, length_take, length_nil]
        at hlength hcaret
      have hx'stop : x'.nameStop = x.nameStart := by
        simp only [x', Spot.move, hempty, length_nil]
        omega
      rw [hx'stop, hempty, Text.slice_eq_take_drop, Nat.sub_self, take_zero]
    · -- otherwise the bracket would be part of the name
      right
      have hge : x.nameStop ≤ y.start := by
        by_contra hlt
        apply hless
        rw [← hname]
        exact Text.mem_slice.2 ⟨y.start, hle, by omega, hbracket⟩
      have hy'start : y'.start = y.nameStart := by
        have := Offset.moveStart_cases y.nameStart y.nameStop name.length y.start
        simp only [y', Spot.move]
        omega
      refine ⟨by omega, hempty, ?_⟩
      rw [hy'start]
      exact getElem?_ne_of_splice hyname (by omega) hempty hless

/-- Giving an open tag the name of its partner makes the names equal, unless the close tag starts in
the name of the open one. Then the close tag loses its bracket. -/
lemma slice_rename_opening (hx : x.Fits t.length) (hy : y.Fits t.length)
    (hle : x.nameStart ≤ y.start) (hbracket : t[y.start]? = some '<')
    (hname : t.slice y.nameStart y.nameStop = name) (hless : '<' ∉ name) :
    let y' := y.move x.nameStart x.nameStop name.length
    let t' := t.splice x.nameStart x.nameStop name
    t'.slice y'.nameStart y'.nameStop = name ∨
      y.start < x.nameStop ∧ name ≠ [] ∧ t'[y'.start]? ≠ some '<' := by
  intro y' t'
  obtain ⟨-, hxname, hxstop, hxlength⟩ := hx
  obtain ⟨hystart, hyname, hystop, hylength⟩ := hy
  have hstart := Offset.moveStart_cases x.nameStart x.nameStop name.length y.nameStart
  have hcaret := Offset.moveCaret_cases x.nameStart x.nameStop name.length y.nameStop
  by_cases hempty : name = []
  · left
    have hlength := congrArg List.length hname
    simp only [hempty, Text.slice, length_drop, length_take, length_nil]
      at hlength hcaret hstart
    have hsame : y'.nameStop = y'.nameStart := by
      simp only [y', Spot.move, hempty, length_nil]
      omega
    rw [hsame, hempty, Text.slice_eq_take_drop, Nat.sub_self, take_zero]
  · -- the bracket of the close tag is not part of its name
    have hpos := length_pos_iff.2 hempty
    have hlength := congrArg List.length hname
    simp only [Text.slice, length_drop, length_take] at hlength
    have hlt : y.start < y.nameStart := by
      by_contra hge
      apply hless
      rw [← hname]
      exact Text.mem_slice.2 ⟨y.start, by omega, by omega, hbracket⟩
    by_cases hbehind : x.nameStop ≤ y.nameStart
    · left
      rw [show y'.nameStart = y.nameStart + name.length - (x.nameStop - x.nameStart) by
          simp only [y', Spot.move]; omega,
        show y'.nameStop = y.nameStop + name.length - (x.nameStop - x.nameStart) by
          simp only [y', Spot.move]; omega,
        Text.slice_splice_of_ge hxname (by omega) hbehind hyname]
      exact hname
    · right
      have hy'start : y'.start = x.nameStart := by
        have := Offset.moveStart_cases x.nameStart x.nameStop name.length y.start
        simp only [y', Spot.move]
        omega
      refine ⟨by omega, hempty, ?_⟩
      rw [hy'start]
      exact getElem?_ne_of_splice hxname (by omega) hempty hless

end

/-! ## Renaming in a document -/

/-- A plain name has no brackets. -/
lemma TagPair.not_mem_of_isPlainName (h : isPlainName name) :
    '<' ∉ name ∧ '>' ∉ name := by
  rw [isPlainName, all_eq_true] at h
  constructor
  · intro hmem
    exact absurd (h '<' hmem) (by decide)
  · intro hmem
    exact absurd (h '>' hmem) (by decide)

/-- Replacing a range that lies in the text is not refused. -/
lemma Document.replace_rangeOf {d : Document} (honly : d.text.OnlyLineFeeds) {a b : Nat}
    (hab : a ≤ b) (hb : b ≤ d.text.length) (t : Text) (mode : UndoMode) :
    (·.2) <$> d.replace (d.text.rangeOf a b) t mode = .ok (d.spliced a b t mode).rescope := by
  have ha : d.text.offsetOf (d.text.positionOf a) = a :=
    Text.offsetOf_positionOf honly (Nat.le_trans hab hb)
  have hb' : d.text.offsetOf (d.text.positionOf b) = b := Text.offsetOf_positionOf honly hb
  rw [Document.replace_eq, Document.splice?_eq, Text.rangeOf, ha, hb', if_neg (Nat.not_lt.2 hab)]
  rfl

namespace TagPair

variable {pair : TagPair} {close other : LiveTag} {d : Document} {x y : Spot} {name : Text}

/-- The names of the two tags are equal. -/
def Agrees (pair : TagPair) (d : Document) : Prop :=
  ∃ close name, pair.closing = some close ∧ pair.opening.name? d = some name ∧
    close.name? d = some name

/-- One of the two tags is the active one, and the other is not. -/
lemma sides_of_closing (hclosing : pair.closing = some close) :
    pair.activeTag = pair.opening ∧ pair.inactiveTag? = some close ∨
      pair.activeTag = close ∧ pair.inactiveTag? = some pair.opening := by
  unfold activeTag inactiveTag?
  rw [hclosing]
  cases pair.active with
  | opening => exact .inl ⟨rfl, rfl⟩
  | closing => exact .inr ⟨rfl, rfl⟩

/-- Where a tag can be renamed, one of the two is the open one and the other is the close tag. -/
lemma Renames.sides (h : pair.Renames d other name) (hclosing : pair.closing = some close) :
    pair.activeTag = pair.opening ∧ other = close ∨
      pair.activeTag = close ∧ other = pair.opening := by
  rcases sides_of_closing hclosing with ⟨hactive, hinactive⟩ | ⟨hactive, hinactive⟩
  · exact .inl ⟨hactive, Option.some.inj (h.other_eq.symm.trans hinactive)⟩
  · exact .inr ⟨hactive, Option.some.inj (h.other_eq.symm.trans hinactive)⟩

lemma renaming?_of_agrees (h : pair.Agrees d) : pair.renaming? d = none := by
  obtain ⟨close, shared, hclosing, hopening, hclose⟩ := h
  by_contra hne
  obtain ⟨⟨other, name⟩, hfound⟩ := Option.ne_none_iff_exists'.1 hne
  have hrenames := renaming?_eq_some_iff.1 hfound
  obtain ⟨otherName, hother, hdiffer⟩ := hrenames.otherName
  have hname := hrenames.name_eq
  apply hdiffer
  rcases hrenames.sides hclosing with ⟨hactive, rfl⟩ | ⟨hactive, rfl⟩
  · rw [hactive, hopening] at hname
    rw [hclose] at hother
    exact (Option.some.inj hname).symm.trans (Option.some.inj hother)
  · rw [hactive, hclose] at hname
    rw [hopening] at hother
    exact (Option.some.inj hname).symm.trans (Option.some.inj hother)

lemma synchronize_of_agrees (h : pair.Agrees d) : pair.synchronize d = .ok (false, d) := by
  unfold synchronize
  rw [renaming?_of_agrees h]

lemma renaming?_of_isValid_eq_false (hclosing : pair.closing = some close)
    (h : close.isValid d = false) : pair.renaming? d = none := by
  by_contra hne
  obtain ⟨⟨other, name⟩, hfound⟩ := Option.ne_none_iff_exists'.1 hne
  have hrenames := renaming?_eq_some_iff.1 hfound
  have hactive := hrenames.activeTag_isValid
  have hother := hrenames.other_isValid
  rcases hrenames.sides hclosing with ⟨-, rfl⟩ | ⟨hclose, -⟩
  · rw [h] at hother
    cases hother
  · rw [hclose, h] at hactive
    cases hactive

/-- Once a tag is renamed the names are equal. Otherwise the tags had run into each other, and the
close tag is no longer valid. -/
lemma LiesAt.renamed (h : pair.LiesAt close d.buffer.marked x y) (hd : d.Placed)
    (hrenames : pair.Renames d other name) :
    ∃ a b, a ≤ b ∧ b ≤ d.text.length ∧ other.nameRange? d = some (d.text.rangeOf a b) ∧
      name.OnlyLineFeeds ∧
      (pair.Agrees (d.spliced a b name .merge) ∨
        close.isValid (d.spliced a b name .merge) = false ∧ ¬ Clean d.text x y) := by
  have honly := hd.onlyLineFeeds
  obtain ⟨hless, hgreater⟩ := not_mem_of_isPlainName hrenames.isPlainName
  obtain ⟨hxstart, hxname, hxstop, hxlength⟩ := h.opening.fits
  obtain ⟨hystart, hyname, hystop, hylength⟩ := h.closing.fits
  have hxlength : x.stop ≤ d.text.length := hxlength
  have hylength : y.stop ≤ d.text.length := hylength
  have hname := hrenames.name_eq
  have hvalid := hrenames.activeTag_isValid
  have hother := hrenames.other_isValid
  -- wherever a name is replaced, the tags go along, and a close tag without its bracket is
  -- not valid
  have hmoved : ∀ a b, a ≤ b → b ≤ d.text.length → name.OnlyLineFeeds →
      pair.LiesAt close (d.spliced a b name .merge).buffer.marked (x.move a b name.length)
        (y.move a b name.length) ∧ (d.spliced a b name .merge).text.OnlyLineFeeds ∧
      ((d.text.splice a b name)[(y.move a b name.length).start]? ≠ some '<' →
        close.isValid (d.spliced a b name .merge) = false) := by
    intro a b hab hb honlyName
    have hlies : pair.LiesAt close (d.spliced a b name .merge).buffer.marked _ _ :=
      h.tracks honly (hd.buffer.tidy.marked.tracks hab hb honlyName)
    have honly' : (d.spliced a b name .merge).text.OnlyLineFeeds := honly.splice honlyName a b
    refine ⟨hlies, honly', fun hlost => ?_⟩
    by_contra hstill
    exact hlost (hlies.closing.brackets (d := d.spliced a b name .merge) honly'
      ((Bool.not_eq_false _).mp hstill) h.closing_delimiters).1
  rcases hrenames.sides h.closing_eq with ⟨hactive, rfl⟩ | ⟨hactive, rfl⟩
  · rw [hactive] at hname hvalid
    rw [h.opening.name?_eq honly] at hname
    have hname := Option.some.inj hname
    have honlyName : name.OnlyLineFeeds := by
      rw [← hname]
      exact (honly.take _).drop _
    obtain ⟨hlies, honly', hlost⟩ := hmoved y.nameStart y.nameStop hyname (by omega) honlyName
    have hbracket := (h.closing.brackets honly hother h.closing_delimiters).1
    refine ⟨y.nameStart, y.nameStop, hyname, by omega, h.closing.nameRange?_eq, honlyName, ?_⟩
    rcases slice_rename_closing h.opening.fits h.closing.fits h.le_start hbracket hname hless with
      hsame | ⟨hmeet, hne, hgone⟩
    · refine .inl ⟨other, name, h.closing_eq, ?_, ?_⟩
      · rw [LiveTag.LiesAt.name?_eq hlies.opening honly']
        exact congrArg some hsame
      · rw [LiveTag.LiesAt.name?_eq hlies.closing honly']
        exact congrArg some (Spot.slice_renamed h.closing.fits name)
    · refine .inr ⟨hlost hgone, ?_⟩
      -- the bracket of the open tag stands behind its name, where there is none
      intro hclean
      obtain ⟨-, hlast, -⟩ := h.opening.brackets honly hvalid h.opening_delimiters
      have hapart := hclean.apart.resolve_left (by omega)
      have hpos := length_pos_iff.2 hne
      have hlength := congrArg List.length hname
      simp only [Text.slice, length_drop, length_take] at hlength
      by_cases hinside : x.stop - 1 < x.nameStop
      · apply hgreater
        rw [← hname]
        exact Text.mem_slice.2 ⟨x.stop - 1, by omega, hinside, hlast⟩
      · exact hapart (Text.mem_slice.2 ⟨x.stop - 1, by omega, by omega, hlast⟩)
  · rw [hactive] at hname hvalid
    rw [h.closing.name?_eq honly] at hname
    have hname := Option.some.inj hname
    have honlyName : name.OnlyLineFeeds := by
      rw [← hname]
      exact (honly.take _).drop _
    obtain ⟨hlies, honly', hlost⟩ := hmoved x.nameStart x.nameStop hxname (by omega) honlyName
    have hbracket := (h.closing.brackets honly hvalid h.closing_delimiters).1
    refine ⟨x.nameStart, x.nameStop, hxname, by omega, h.opening.nameRange?_eq, honlyName, ?_⟩
    rcases slice_rename_opening h.opening.fits h.closing.fits h.le_start hbracket hname hless with
      hsame | ⟨hmeet, hne, hgone⟩
    · refine .inl ⟨close, name, h.closing_eq, ?_, ?_⟩
      · rw [LiveTag.LiesAt.name?_eq hlies.opening honly']
        exact congrArg some (Spot.slice_renamed h.opening.fits name)
      · rw [LiveTag.LiesAt.name?_eq hlies.closing honly']
        exact congrArg some hsame
    · refine .inr ⟨hlost hgone, fun hclean => ?_⟩
      exact hclean.name (Text.mem_slice.2 ⟨y.start, h.le_start, hmeet, hbracket⟩)

end TagPair

end TemplateEditing
