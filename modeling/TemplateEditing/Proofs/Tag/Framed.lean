import TemplateEditing.Proofs.Tag.Layout

/-!
# Names between brackets

A tag is framed where it is valid and its name stands between its brackets. Replacing part of the
name by a word leaves it framed, and so does any edit before or behind the tag
(`LiveTag.Framed.replace_name`, `replace_before`, `replace_behind`). Hence a pair of framed tags, the
one before the other, stays that when one of the names is edited (`TagPair.Framed.replace`).
-/

namespace TemplateEditing

open List

/-- A change does not engulf a range that it equals, or that reaches beyond it. -/
lemma Change.engulfs_ofOffsets {t : Text} (ht : t.OnlyLineFeeds) {i j a b : Nat} (hij : i ≤ j)
    (hj : j ≤ t.length) (hab : a ≤ b) (hb : b ≤ t.length) (h : i = a ∧ j = b ∨ a < i ∨ j < b)
    (inserted : Text) : (ofOffsets t i j inserted).engulfs (t.rangeOf a b) = false := by
  have hstart : t.positionOf i ≤ t.positionOf a ↔ i ≤ a :=
    Text.positionOf_le_iff ht (by omega) (by omega)
  have hstop : t.positionOf b ≤ t.positionOf j ↔ b ≤ j := Text.positionOf_le_iff ht hb hj
  show (!(t.rangeOf i j).isEmpty && t.rangeOf i j != t.rangeOf a b &&
    (decide (t.positionOf i ≤ t.positionOf a) && decide (t.positionOf b ≤ t.positionOf j))) = false
  rcases h with ⟨rfl, rfl⟩ | hbeyond
  · rw [bne_self_eq_false, Bool.and_false, Bool.false_and]
  · rw [← Bool.decide_and, decide_eq_false, Bool.and_false]
    rw [hstart, hstop]
    omega

/-! ## Where spots go -/

namespace Spot

variable {x : Spot} {i j length : Nat} (h : x.Fits length) (hij : i ≤ j) (n : Nat)

include h

lemma move_of_behind (hbehind : x.stop < i) : x.move i j n = x := by
  obtain ⟨hstart, hname, hstop, -⟩ := h
  have h₁ := Offset.moveStart_cases i j n x.start
  have h₂ := Offset.moveStart_cases i j n x.nameStart
  have h₃ := Offset.moveCaret_cases i j n x.nameStop
  have h₄ := Offset.moveCaret_cases i j n x.stop
  unfold move
  congr 1 <;> omega

include hij

lemma move_of_before (hbefore : j < x.start) :
    x.move i j n = ⟨x.start + n - (j - i), x.nameStart + n - (j - i), x.nameStop + n - (j - i),
      x.stop + n - (j - i)⟩ := by
  obtain ⟨hstart, hname, hstop, -⟩ := h
  have h₁ := Offset.moveStart_cases i j n x.start
  have h₂ := Offset.moveStart_cases i j n x.nameStart
  have h₃ := Offset.moveCaret_cases i j n x.nameStop
  have h₄ := Offset.moveCaret_cases i j n x.stop
  unfold move
  congr 1 <;> omega

lemma move_of_name (hi : x.nameStart ≤ i) (hj : j ≤ x.nameStop) :
    x.move i j n = { x with
      nameStop := x.nameStop + n - (j - i), stop := x.stop + n - (j - i) } := by
  obtain ⟨hstart, hname, hstop, -⟩ := h
  have h₁ := Offset.moveStart_cases i j n x.start
  have h₂ := Offset.moveStart_cases i j n x.nameStart
  have h₃ := Offset.moveCaret_cases i j n x.nameStop
  have h₄ := Offset.moveCaret_cases i j n x.stop
  unfold move
  congr 1 <;> omega

end Spot

namespace LiveTag

variable {tag : LiveTag} {x : Spot}

/-! ## Validity -/

/-- None of the markers has lost its text. -/
def Unbroken (tag : LiveTag) (p : MarkedText) : Prop :=
  ∀ id ∈ tag.markers, ∀ m, p.markers.get? id = some m → m.valid = true

/-- A tag is valid if its markers are and its brackets are in place. -/
lemma LiesAt.isValid_iff {d : Document} (h : tag.LiesAt d.buffer.marked x)
    (honly : d.text.OnlyLineFeeds) :
    tag.isValid d = true ↔
      tag.Unbroken d.buffer.marked ∧ tag.hasDelimiters (d.text.slice x.start x.stop) = true := by
  obtain ⟨hstart, hname, hstop, hlength⟩ := h.fits
  have hlength : x.stop ≤ d.text.length := hlength
  obtain ⟨m, hm, hrange⟩ := h.marker
  obtain ⟨id, n, hid, hn, -⟩ := h.nameMarker
  -- the tag has two markers, one on all of it and one on its name
  have hunbroken : tag.Unbroken d.buffer.marked ↔ m.valid = true ∧ n.valid = true := by
    unfold Unbroken markers
    rw [hid]
    constructor
    · intro hall
      exact ⟨hall _ mem_cons_self m hm,
        hall _ (mem_cons_of_mem _ mem_cons_self) n hn⟩
    · rintro ⟨hmValid, hnValid⟩ other hother found hfound
      rcases mem_cons.1 hother with rfl | hother
      · obtain rfl := Option.some.inj (hm.symm.trans hfound)
        exact hmValid
      · obtain rfl := mem_singleton.1 hother
        obtain rfl := Option.some.inj (hn.symm.trans hfound)
        exact hnValid
  have hm : d.marker? tag.marker = some m := hm
  have hn : d.marker? id = some n := hn
  have htext : d.text.inRange m.range = d.text.slice x.start x.stop := by
    rw [hrange, Text.rangeOf]
    exact Text.inRange_positionOf honly (show x.start ≤ d.text.length by omega) hlength
  unfold isValid
  rw [hm, hid, Option.bind_some, hn]
  dsimp only
  rw [Option.all_some, htext, Bool.and_eq_true, Bool.and_eq_true, hunbroken]

/-- An edit that engulfs neither the tag nor its name breaks nothing. -/
lemma Unbroken.replace {p : MarkedText} (h : tag.Unbroken p) (hlies : tag.LiesAt p x)
    (honly : p.text.OnlyLineFeeds) {i j : Nat} (hij : i ≤ j) (hj : j ≤ p.text.length)
    (htag : x.start < i ∨ j < x.stop)
    (hname : i = x.nameStart ∧ j = x.nameStop ∨ x.nameStart < i ∨ j < x.nameStop)
    (inserted : Text) : tag.Unbroken (p.replace i j inserted) := by
  obtain ⟨hstart, hnameLe, hstop, hlength⟩ := hlies.fits
  obtain ⟨m, hm, hrange⟩ := hlies.marker
  obtain ⟨id, n, hid, hn, hnameRange⟩ := hlies.nameMarker
  have hkept : ∀ {id m}, id ∈ tag.markers → p.markers.get? id = some m →
      (Change.ofOffsets p.text i j inserted).engulfs m.range = false →
      ∀ m', (p.replace i j inserted).markers.get? id = some m' → m'.valid = true := by
    intro id m hid hm hengulfs m' hm'
    obtain rfl := Option.some.inj ((MarkerSet.get?_follow hm _).symm.trans hm')
    show (m.valid && !(Change.ofOffsets p.text i j inserted).engulfs m.range) = true
    rw [h id hid m hm, hengulfs]
    rfl
  intro other hother m' hm'
  have hcases : other = tag.marker ∨ other = id := by
    unfold markers at hother
    rw [hid] at hother
    simpa using hother
  rcases hcases with rfl | rfl
  · refine hkept hother hm ?_ m' hm'
    rw [hrange]
    exact Change.engulfs_ofOffsets honly hij hj (by omega) hlength (.inr htag) inserted
  · refine hkept hother hn ?_ m' hm'
    rw [hnameRange]
    exact Change.engulfs_ofOffsets honly hij hj hnameLe (by omega) hname inserted

/-! ## Brackets -/

/-- Putting a word between the brackets of a tag keeps them. -/
lemma hasDelimiters_replace {first last front old back word : Text}
    (hdelimiters : tag.delimiters = some (first, last)) (hlast : last ≠ [])
    (h : tag.hasDelimiters (front ++ old ++ back) = true) (hfront : first.length ≤ front.length)
    (hback : last.length ≤ back.length) (hword : word ≠ []) (hslash : '/' ∉ word) :
    tag.hasDelimiters (front ++ word ++ back) = true := by
  unfold hasDelimiters at h ⊢
  rw [hdelimiters] at h ⊢
  simp only [Bool.and_eq_true, Bool.or_eq_true, bne_iff_ne, Bool.not_eq_true', decide_eq_true_eq,
    List.isPrefixOf_iff_prefix, isSuffixOf_iff_suffix] at h ⊢
  obtain ⟨⟨⟨hfirst, hsuffix⟩, -⟩, hkind⟩ := h
  have hpos := length_pos_iff.2 hlast
  refine ⟨⟨⟨?_, ?_⟩, ?_⟩, ?_⟩
  · have hshort : first <+: front := by
      rw [append_assoc] at hfirst
      exact prefix_of_prefix_length_le hfirst (prefix_append _ _) hfront
    rw [append_assoc]
    exact hshort.trans (prefix_append _ _)
  · have hshort : last <:+ back :=
      suffix_of_suffix_length_le hsuffix (suffix_append _ _) hback
    exact hshort.trans (suffix_append _ _)
  · simp only [length_append]
    omega
  · refine hkind.imp_right fun hslashed => ?_
    by_contra hends
    have hends : ['/', '>'] <:+ front ++ word ++ back := by
      rw [← isSuffixOf_iff_suffix]
      exact (Bool.not_eq_false _).mp hends
    by_cases htwo : 2 ≤ back.length
    · -- both characters stand behind the word, so they stood there before
      have hback : ['/', '>'] <:+ back :=
        suffix_of_suffix_length_le hends (suffix_append _ _) htwo
      rw [isSuffixOf_iff_suffix.2 (hback.trans (suffix_append (front ++ old) back))]
        at hslashed
      cases hslashed
    · -- the first of them ends the word
      obtain ⟨c, rfl⟩ := length_eq_one_iff.1 (show back.length = 1 by omega)
      obtain ⟨before, hbefore⟩ := hends
      have hsame : before ++ ['/'] ++ ['>'] = front ++ word ++ [c] := by
        rw [← hbefore, append_assoc]
        rfl
      have hword' : before ++ ['/'] = front ++ word := (append_inj' hsame rfl).1
      obtain ⟨rest, final, rfl⟩ : ∃ rest final, word = rest ++ [final] :=
        ⟨word.dropLast, word.getLast hword, (dropLast_concat_getLast hword).symm⟩
      rw [← append_assoc] at hword'
      obtain rfl := singleton_inj.1 (append_inj' hword' rfl).2
      exact hslash (mem_append_right _ mem_cons_self)

/-! ## Framed names -/

/-- The tag is valid, and its name stands between its brackets. -/
structure Framed (tag : LiveTag) (first last : Text) (p : MarkedText) (x : Spot) : Prop where
  liesAt : tag.LiesAt p x
  delimiters_eq : tag.delimiters = some (first, last)
  unbroken : tag.Unbroken p
  hasDelimiters : tag.hasDelimiters (p.text.slice x.start x.stop) = true
  first_le : x.start + first.length ≤ x.nameStart
  last_le : x.nameStop + last.length ≤ x.stop

namespace Framed

variable {first last : Text}

lemma isValid {d : Document} (h : tag.Framed first last d.buffer.marked x)
    (honly : d.text.OnlyLineFeeds) : tag.isValid d = true :=
  (h.liesAt.isValid_iff honly).2 ⟨h.unbroken, h.hasDelimiters⟩

variable {p : MarkedText} (h : tag.Framed first last p x) (hp : p.Tidy) {i j : Nat} (hij : i ≤ j)
  (hj : j ≤ p.text.length) {inserted : Text} (hinserted : inserted.OnlyLineFeeds)

include h hp hij hj hinserted

/-- Part of the name is replaced by a word. -/
lemma replace_name (hfirst : first ≠ []) (hlast : last ≠ []) (hi : x.nameStart ≤ i)
    (hj' : j ≤ x.nameStop) (hword : inserted ≠ []) (hslash : '/' ∉ inserted) :
    tag.Framed first last (p.replace i j inserted) (x.move i j inserted.length) := by
  have hfirstPos := length_pos_iff.2 hfirst
  have hlastPos := length_pos_iff.2 hlast
  have hfirstLe := h.first_le
  have hlastLe := h.last_le
  have hlength : x.stop ≤ p.text.length := h.liesAt.fits.stop_le
  have hlies := h.liesAt.tracks hp.onlyLineFeeds (hp.tracks hij hj hinserted)
  have hunbroken := h.unbroken.replace h.liesAt hp.onlyLineFeeds hij hj (by omega) (by omega) inserted
  rw [Spot.move_of_name h.liesAt.fits hij _ hi hj'] at hlies ⊢
  refine ⟨hlies, h.delimiters_eq, hunbroken, ?_, hfirstLe, by dsimp only; omega⟩
  have hhas := h.hasDelimiters
  rw [← Text.slice_append_slice _ (show x.start ≤ j by omega) (show j ≤ x.stop by omega) hj,
    ← Text.slice_append_slice _ (show x.start ≤ i by omega) hij (by omega)] at hhas
  rw [show (p.replace i j inserted).text.slice x.start (x.stop + inserted.length - (j - i)) = _ from
    Text.slice_splice_of_le_of_ge hij hj (by omega) (by omega)]
  refine hasDelimiters_replace h.delimiters_eq hlast hhas ?_ ?_ hword hslash
  · rw [Text.slice, length_drop, length_take]
    omega
  · rw [Text.slice, length_drop, length_take]
    omega

/-- An edit before the tag. -/
lemma replace_before (hbefore : j < x.start) :
    tag.Framed first last (p.replace i j inserted) (x.move i j inserted.length) := by
  obtain ⟨hstart, hname, hstop, -⟩ := h.liesAt.fits
  have hfirstLe := h.first_le
  have hlastLe := h.last_le
  have hlies := h.liesAt.tracks hp.onlyLineFeeds (hp.tracks hij hj hinserted)
  have hunbroken := h.unbroken.replace h.liesAt hp.onlyLineFeeds hij hj (by omega) (by omega) inserted
  rw [Spot.move_of_before h.liesAt.fits hij _ hbefore] at hlies ⊢
  refine ⟨hlies, h.delimiters_eq, hunbroken, ?_, by dsimp only; omega, by dsimp only; omega⟩
  rw [show (p.replace i j inserted).text.slice (x.start + inserted.length - (j - i))
    (x.stop + inserted.length - (j - i)) = _ from Text.slice_splice_of_ge hij hj (by omega) (by omega)]
  exact h.hasDelimiters

/-- An edit behind the tag. -/
lemma replace_behind (hbehind : x.stop < i) :
    tag.Framed first last (p.replace i j inserted) (x.move i j inserted.length) := by
  obtain ⟨hstart, hname, hstop, -⟩ := h.liesAt.fits
  have hlies := h.liesAt.tracks hp.onlyLineFeeds (hp.tracks hij hj hinserted)
  have hunbroken := h.unbroken.replace h.liesAt hp.onlyLineFeeds hij hj (by omega) (by omega) inserted
  rw [Spot.move_of_behind h.liesAt.fits _ hbehind] at hlies ⊢
  refine ⟨hlies, h.delimiters_eq, hunbroken, ?_, h.first_le, h.last_le⟩
  rw [show (p.replace i j inserted).text.slice x.start x.stop = _ from
    Text.slice_splice_of_le (by omega) (by omega)]
  exact h.hasDelimiters

end Framed

end LiveTag

/-! ## Framed pairs -/

namespace TagPair

/-- Both tags are framed, the open one before the close one. -/
structure Framed (pair : TagPair) (close : LiveTag) (p : MarkedText) (x y : Spot) : Prop where
  opening : pair.opening.Framed ['<'] ['>'] p x
  closing : close.Framed ['<', '/'] ['>'] p y
  opening_kind : pair.opening.kind = .opening
  closing_kind : close.kind = .closing
  closing_eq : pair.closing = some close
  apart : x.stop ≤ y.start

namespace Framed

variable {pair : TagPair} {close : LiveTag} {x y : Spot}

lemma isValid {d : Document} (h : pair.Framed close d.buffer.marked x y)
    (honly : d.text.OnlyLineFeeds) : pair.isValid d = true := by
  rw [TagPair.isValid, tags, h.closing_eq]
  show (pair.opening.isValid d && (close.isValid d && true)) = true
  rw [h.opening.isValid honly, h.closing.isValid honly]
  rfl

/-- Part of one of the names is replaced by a word. -/
lemma replace {p : MarkedText} (h : pair.Framed close p x y) (hp : p.Tidy) {i j : Nat} (hij : i ≤ j)
    (hname : x.nameStart ≤ i ∧ j ≤ x.nameStop ∨ y.nameStart ≤ i ∧ j ≤ y.nameStop) {inserted : Text}
    (hinserted : inserted.OnlyLineFeeds) (hword : inserted ≠ []) (hslash : '/' ∉ inserted) :
    pair.Framed close (p.replace i j inserted) (x.move i j inserted.length)
      (y.move i j inserted.length) := by
  have hxlast : x.nameStop + 1 ≤ x.stop := h.opening.last_le
  have hxfirst : x.start + 1 ≤ x.nameStart := h.opening.first_le
  have hylast : y.nameStop + 1 ≤ y.stop := h.closing.last_le
  have hyfirst : y.start + 2 ≤ y.nameStart := h.closing.first_le
  have hapart := h.apart
  have hlength : y.stop ≤ p.text.length := h.closing.liesAt.fits.stop_le
  have hyname := h.closing.liesAt.fits.name_le
  have hstop := Offset.moveCaret_cases i j inserted.length x.stop
  have hstart := Offset.moveStart_cases i j inserted.length y.start
  have hj : j ≤ p.text.length := by omega
  rcases hname with ⟨hi, hj'⟩ | ⟨hi, hj'⟩
  · refine ⟨?_, ?_, h.opening_kind, h.closing_kind, h.closing_eq, ?_⟩
    · exact h.opening.replace_name hp hij hj hinserted (cons_ne_nil _ _) (cons_ne_nil _ _)
        hi hj' hword hslash
    · exact h.closing.replace_before hp hij hj hinserted (by omega)
    · simp only [Spot.move]
      omega
  · refine ⟨?_, ?_, h.opening_kind, h.closing_kind, h.closing_eq, ?_⟩
    · exact h.opening.replace_behind hp hij hj hinserted (by omega)
    · exact h.closing.replace_name hp hij hj hinserted (cons_ne_nil _ _) (cons_ne_nil _ _)
        hi hj' hword hslash
    · simp only [Spot.move]
      omega

end Framed

end TagPair

end TemplateEditing
