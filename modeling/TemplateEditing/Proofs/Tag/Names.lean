import TemplateEditing.Proofs.Tag.Shown
import TemplateEditing.Proofs.Text.Clip

/-!
# Names of tags that are found

A name is found in one piece by a scan, so its range is never turned around, whatever ends the rows
of the text (`Matcher.names_spansAt?`). A marker on such a range covers what the range covers. So
the tags of a pair that a search comes up with have the same name to begin with
(`Matcher.agrees_refresh`).
-/

namespace TemplateEditing

/-! ## Ranges of names -/

lemma Position.le_pastText (p : Position) (t : Text) : p ≤ p.pastText t := by
  rw [Text.pastText_eq_add]
  by_cases hplace : t.place = origin
  · rw [hplace, add_origin]
    exact le_refl p
  · exact le_of_lt (lt_add hplace)

lemma Pattern.start_le_stop_of_mem_scan {pattern : Pattern} {p : Position} {t : Text} {hit : Hit}
    (h : hit ∈ pattern.scan p t) : hit.range.start ≤ hit.range.stop := by
  fun_induction scan pattern p t with
  | case1 => cases h
  | case2 p c rest taken hempty ih => exact ih h
  | case3 p c rest taken hempty stop ih =>
    rcases List.mem_cons.1 h with rfl | h
    · exact p.le_pastText taken
    · exact ih h

namespace Document

variable {d : Document} {p : Position} {r : Range}

lemma start_le_stop_of_mem_tokensFrom {t : TokenHit} (h : t ∈ d.tokensFrom p) :
    t.range.start ≤ t.range.stop := by
  obtain ⟨hit, hhit, hclass⟩ := List.mem_filterMap.1 h
  obtain ⟨token, -, rfl⟩ := Option.map_eq_some_iff.1 hclass
  exact Pattern.start_le_stop_of_mem_scan hhit

lemma start_le_stop_of_mem_tokensBefore {t : TokenHit} (h : t ∈ d.tokensBefore p) :
    t.range.start ≤ t.range.stop := by
  obtain ⟨hit, hhit, hclass⟩ := List.mem_filterMap.1 h
  obtain ⟨token, -, rfl⟩ := Option.map_eq_some_iff.1 hclass
  exact Pattern.start_le_stop_of_mem_scan (List.mem_reverse.1 hhit)

lemma start_le_stop_conciseTag (h : (d.conciseTag p).name = some r) : r.start ≤ r.stop := by
  obtain rfl := Option.some.inj h
  split
  · next t rest htokens =>
    split
    · apply start_le_stop_of_mem_tokensFrom (p := d.nameStart p)
      rw [htokens]
      exact List.mem_cons_self
    · exact Position.le_refl p
  · exact Position.le_refl p

/-- In whatever way a tag is searched for, its name is a token, or empty. -/
lemma Drafted.start_le_stop {draft : TagDraft} (h : d.Drafted p draft)
    (hr : draft.name = some r) : r.start ≤ r.stop := by
  -- a search that walks back is part of two of the five ways, and a concise tag of three
  have hgap : d.tagFromGap? p = some draft → r.start ≤ r.stop := by
    intro hdraft
    rcases walkBack_of_tagFromGap? hdraft with hstart | ⟨q, -, rfl⟩
    · obtain ⟨passed, first, rest, htokens, -, -, -, hname, -⟩ := walkBack_start hstart
      rcases hname with hname | ⟨t, ht, -, hname⟩
      · rw [hname] at hr
        cases hr
      · obtain rfl := Option.some.inj (hname.symm.trans hr)
        apply start_le_stop_of_mem_tokensBefore (p := p)
        rw [htokens]
        exact List.mem_append_left _ ht
    · exact start_le_stop_conciseTag hr
  cases h with
  | gap _ hdraft => exact hgap hdraft
  | fromEnd _ _ hdraft =>
    unfold tagFromEnd at hdraft
    dsimp only at hdraft
    split at hdraft
    · cases hdraft
    · cases hdraft
      obtain ⟨t, ht, rfl⟩ := Option.map_eq_some_iff.1 hr
      have hinside := List.mem_reverse.1 (List.mem_of_find?_eq_some ht)
      exact start_le_stop_of_mem_tokensBefore ((List.takeWhile_sublist _).subset hinside)
  | fromStart _ _ hdraft =>
    subst hdraft
    unfold tagFromStart at hr
    dsimp only at hr
    split at hr
    · next t rest htokens =>
      split at hr
      · obtain rfl := Option.some.inj hr
        have ht : t ∈ t :: rest := List.mem_cons_self
        rw [← htokens] at ht
        exact start_le_stop_of_mem_tokensFrom ht
      · cases hr
    · cases hr
  | fromName _ _ hdraft =>
    unfold tagFromName at hdraft
    split at hdraft
    · cases hdraft
      exact start_le_stop_conciseTag hr
    split at hdraft
    · cases hdraft
    split at hdraft
    · cases hdraft
    · next name hname =>
      cases hdraft
      obtain rfl := Option.some.inj hr
      exact start_le_stop_of_mem_tokensFrom (List.mem_of_find?_eq_some hname)
  | fromAttribute _ _ hdraft => exact hgap (tagFromGap?_of_tagFromAttribute hdraft)

lemma start_le_stop_of_tagAt {s : TagSpan} (h : d.tagAt p = .ok (some s))
    (hr : s.nameRange = some r) : r.start ≤ r.stop := by
  obtain ⟨draft, hdrafted, hcomplete⟩ := drafted_of_tagAt h
  obtain ⟨name, hname, hspan, -⟩ := completeTag?_cases hcomplete
  obtain rfl := Option.some.inj (hspan.symm.trans hr)
  exact hdrafted.start_le_stop hname

lemma start_le_stop_of_partner? {s t : TagSpan} (h : d.partner? s = some t)
    (hr : t.nameRange = some r) : r.start ≤ r.stop := by
  have hfound := (Option.filter_eq_some_iff.1 h).1
  -- the name is a token between two brackets
  have hpassed : ∀ {first last passed}, MadeUp t first passed last →
      (∀ token ∈ passed, token.range.start ≤ token.range.stop) → r.start ≤ r.stop := by
    intro first last passed hmade hordered
    rcases hmade.nameRange with hnone | ⟨token, htoken, -, hname⟩
    · rw [hnone] at hr
      cases hr
    · obtain rfl := Option.some.inj (hname.symm.trans hr)
      exact hordered token htoken
  unfold counterpart? at hfound
  split at hfound
  · cases hfound
  · obtain ⟨skipped, first, passed, last, rest, htokens, hmade⟩ :=
      exists_of_mem_spansOf (mem_of_balancingTag? hfound).1
    refine hpassed hmade fun token htoken => ?_
    apply start_le_stop_of_mem_tokensFrom (p := s.range.stop)
    rw [htokens]
    simp [htoken]
  · obtain ⟨skipped, last, passed, first, rest, htokens, hmade⟩ :=
      exists_of_mem_spansBackOf (mem_of_balancingTag? hfound).1
    refine hpassed hmade fun token htoken => ?_
    apply start_le_stop_of_mem_tokensBefore (p := s.range.start)
    rw [htokens]
    simp [htoken]

end Document

/-- The tags of a pair are found with one name, and the ranges of their names are not turned
around. -/
lemma Matcher.names_spansAt? {d : Document} {p : Position} {opening closing : TagSpan}
    {active : Side} (h : spansAt? d p = some (opening, some closing, active)) :
    ∃ r r', opening.nameRange = some r ∧ closing.nameRange = some r' ∧ r.start ≤ r.stop ∧
      r'.start ≤ r'.stop ∧ d.text.inRange r = d.text.inRange r' := by
  obtain ⟨hopening, hclosing⟩ := nameRange_spansAt? h
  obtain ⟨r, hr⟩ := Option.ne_none_iff_exists'.1 hopening
  obtain ⟨r', hr'⟩ := Option.ne_none_iff_exists'.1 (hclosing closing rfl)
  refine ⟨r, r', hr, hr', ?_⟩
  have hname : ∀ {s t : TagSpan} {q q' : Range}, d.partner? s = some t → s.nameRange = some q →
      t.nameRange = some q' → d.text.inRange q = d.text.inRange q' := by
    intro s t q q' hpartner hq hq'
    have hnames := Document.name?_partner? hpartner
    rw [TagSpan.name?, TagSpan.name?, hq, hq'] at hnames
    exact (Option.some.inj hnames).symm
  rcases spansAt?_cases h with
    ⟨hspan, -, ⟨-, hnone⟩ | ⟨-, hpartner⟩⟩ | ⟨s, hspan, -, hsome, -, hpartner⟩
  · cases hnone
  · -- the tag at the position is the open tag, or else the close tag
    exact ⟨Document.start_le_stop_of_tagAt hspan hr,
      Document.start_le_stop_of_partner? hpartner.symm hr', hname hpartner.symm hr hr'⟩
  · cases hsome
    exact ⟨Document.start_le_stop_of_partner? hpartner hr,
      Document.start_le_stop_of_tagAt hspan hr', (hname hpartner hr' hr).symm⟩

/-! ## Names of tags that are followed -/

lemma MarkedText.Keeps.name?_eq {d d' : Document} (h : d.buffer.marked.Keeps d'.buffer.marked)
    {tag : LiveTag} {name : Text} (hname : tag.name? d = some name) : tag.name? d' = some name := by
  obtain ⟨r, hr, rfl⟩ := Option.map_eq_some_iff.1 hname
  obtain ⟨id, hid, hr⟩ := Option.bind_eq_some_iff.1 hr
  obtain ⟨m, hm, rfl⟩ := Option.map_eq_some_iff.1 hr
  obtain ⟨m', hm', hrange, -⟩ := h.get? hm
  have hm' : d'.marker? id = some m' := hm'
  have htext : d'.text = d.text := h.text_eq
  rw [LiveTag.name?, LiveTag.nameRange?, hid, Option.bind_some, hm', Option.map_some,
    Option.map_some, hrange, htext]

/-- A tag that is followed has the name it was found with. -/
lemma LiveTag.name?_acquire {d : Document} (hnumbered : d.buffer.markers.Numbered) {s : TagSpan}
    {r : Range} (hr : s.nameRange = some r) (hle : r.start ≤ r.stop) :
    (acquire d s).1.name? (acquire d s).2 = some (d.text.inRange r) := by
  have hnumbered' : (d.mark s.range).2.buffer.markers.Numbered := hnumbered.mark _
  have hget : ((d.mark s.range).2.mark r).2.marker? ((d.mark s.range).2.mark r).1 =
      some { range := .ofEnds (d.text.clip r.start) (d.text.clip r.stop) } :=
    hnumbered'.get?_mark_next _
  unfold acquire
  rw [hr]
  show (((d.mark s.range).2.mark r).2.marker? ((d.mark s.range).2.mark r).1 |>.map
    (·.range)).map d.text.inRange = _
  rw [hget, Option.map_some, Option.map_some, d.text.inRange_ofEnds_clip hle]

namespace Matcher

variable {m : Matcher} {d : Document} {pair : TagPair}

lemma agrees_follow (hnumbered : d.buffer.markers.Numbered) {p : Position}
    {opening closing : TagSpan} {active : Side}
    (h : spansAt? d p = some (opening, some closing, active)) :
    (TagPair.of (LiveTag.acquire d opening).1
      (some (LiveTag.acquire (LiveTag.acquire d opening).2 closing).1) active).Agrees
      (m.follow d opening (some closing) active).2 := by
  obtain ⟨r, r', hr, hr', hle, hle', hnames⟩ := names_spansAt? h
  obtain ⟨markers, hmarkers⟩ := LiveTag.exists_acquire_eq d opening
  have htext : (LiveTag.acquire d opening).2.text = d.text := by
    rw [hmarkers]
    rfl
  have hfirst := LiveTag.name?_acquire hnumbered hr hle
  have hsecond := LiveTag.name?_acquire (LiveTag.numbered_acquire hnumbered opening) hr' hle'
  -- the markers of the second tag and the highlighting leave those of the first in place
  have hkeeps := LiveTag.keeps_acquire (LiveTag.acquire d opening).2 closing
  have hhighlight := (TagPair.exists_highlight_eq (TagPair.of (LiveTag.acquire d opening).1
    (some (LiveTag.acquire (LiveTag.acquire d opening).2 closing).1) active)
    (LiveTag.acquire (LiveTag.acquire d opening).2 closing).2 m.settings.highlightClass).2
  rw [htext, ← hnames] at hsecond
  exact ⟨_, d.text.inRange r, rfl, hhighlight.name?_eq (hkeeps.name?_eq hfirst),
    hhighlight.name?_eq hsecond⟩

/-- The tags of a pair that was just searched for have the same name. -/
lemma agrees_refresh (hnumbered : (m.drop d).2.buffer.markers.Numbered)
    (hpair : (m.refresh d).1.pair = some pair) (hclosing : pair.closing ≠ none) :
    pair.Agrees (m.refresh d).2 := by
  rcases m.refresh_cases d with heq | ⟨opening, closing, active, -, -, hspans, heq⟩
  · rw [heq, m.pair_drop d] at hpair
    cases hpair
  · rw [heq] at hpair ⊢
    cases closing with
    | none =>
      cases hpair
      exact absurd rfl hclosing
    | some closing =>
      cases hpair
      exact agrees_follow hnumbered hspans

end Matcher

end TemplateEditing
