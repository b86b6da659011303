import TemplateEditing.Proofs.Document.Sound
import TemplateEditing.Proofs.Tag.Found

/-!
# The pair at a caret

The partner of a tag is made up by tokens as well, and stands behind an open tag or before a close
tag. So the spans at a caret are a tag around it alone, or an open tag and a close tag behind it,
the caret in one of them (`Document.Sound.spansAt?_cases`).
-/

namespace TemplateEditing

open List

lemma MadeUp.reverse {s : TagSpan} {first last : TokenHit} {passed : List TokenHit}
    (h : MadeUp s first passed last) : MadeUp s first passed.reverse last := by
  obtain ⟨hstart, hend, hno, hrange, hconcise, hname, opening, hkind, hopening⟩ := h
  refine ⟨hstart, hend, fun t ht => hno t (mem_reverse.1 ht), hrange, hconcise, ?_, opening,
    hkind, fun htrue => ?_⟩
  · rcases hname with hname | ⟨t, ht, hname⟩
    · exact .inl hname
    · exact .inr ⟨t, mem_reverse.2 ht, hname⟩
  · rcases hopening htrue with hopening | ⟨t, ht, hopening⟩
    · exact .inl hopening
    · exact .inr ⟨t, mem_reverse.2 ht, hopening⟩

/-- Two tokens of a scan, with what stands before, between and behind them. -/
structure Between (ink : List InkedChar) (i j : Nat) (first : OffsetToken)
    (passed : List OffsetToken) (last : OffsetToken) : Prop where
  first_mem : first ∈ tokensBetween ink i j
  last_mem : last ∈ tokensBetween ink i j
  passed_mem : ∀ t ∈ passed, t ∈ tokensBetween ink i j ∧ first.stop ≤ t.start ∧ t.stop ≤ last.start
  first_le : first.stop ≤ last.start
  mem_passed : ∀ t ∈ tokensBetween ink i j, first.start < t.start → t.start < last.start →
    t ∈ passed

lemma between_of_split {ink : List InkedChar} {i j : Nat} {skipped passed rest : List OffsetToken}
    {first last : OffsetToken}
    (h : tokensBetween ink i j = skipped ++ first :: (passed ++ last :: rest)) :
    Between ink i j first passed last := by
  have hmem : ∀ t, t ∈ tokensBetween ink i j ↔
      t ∈ skipped ∨ t = first ∨ t ∈ passed ∨ t = last ∨ t ∈ rest := by
    intro t
    rw [h]
    simp only [mem_append, mem_cons]
  have h' : tokensBetween ink i j = (skipped ++ first :: passed) ++ last :: rest := by
    rw [h, append_assoc, cons_append]
  have hfirst := stop_le_of_split h
  have hlast := stop_le_of_split h'
  have hle := hfirst.2 last (mem_append_right _ mem_cons_self)
  refine ⟨(hmem _).2 (.inr (.inl rfl)), (hmem _).2 (.inr (.inr (.inr (.inl rfl)))), ?_, hle, ?_⟩
  · intro t ht
    exact ⟨(hmem t).2 (.inr (.inr (.inl ht))), hfirst.2 t (mem_append_left _ ht),
      hlast.1 t (mem_append_right _ (mem_cons_of_mem _ ht))⟩
  · intro t ht hgt hlt
    have hbounds := bounds_of_mem_tokensBetween ht
    have hbounds' := bounds_of_mem_tokensBetween ((hmem last).2 (.inr (.inr (.inr (.inl rfl)))))
    rcases (hmem t).1 ht with ht | rfl | ht | rfl | ht
    · have := hfirst.1 t ht
      omega
    · omega
    · exact ht
    · omega
    · have := hlast.2 t ht
      omega

namespace Document.Drawn

variable {d : Document} {ink : List InkedChar} (h : d.Drawn ink) {s : TagSpan}

include h

/-- A span made up by tokens stands at a spot. -/
lemma exists_standsAt_of_madeUp {i j : Nat} {passed : List OffsetToken} {first last : OffsetToken}
    (hbetween : Between ink i j first passed last)
    (hmade : MadeUp s (first.hit d.text) (passed.map (OffsetToken.hit d.text)) (last.hit d.text))
    (hname : s.nameRange ≠ none) :
    ∃ x : Spot, s.StandsAt d.text x ∧ i ≤ x.start ∧ x.stop ≤ j := by
  have hbounds := bounds_of_mem_tokensBetween hbetween.first_mem
  have hbounds' := bounds_of_mem_tokensBetween hbetween.last_mem
  have hle := hbetween.first_le
  obtain ⟨side, hside, hstart⟩ := h.getElem?_of_isStart hbetween.first_mem hmade.isStart
  obtain ⟨c, hstop, hwidth⟩ := h.stop_of_isEnd hbetween.last_mem hmade.isEnd
  -- no tag starts between the two brackets
  have hno : ∀ m token, first.start < m → m < last.start → ink[m]? = some ('<', some token) →
      token.kind.isStart = false := by
    intro m token hm hm' hx
    obtain ⟨t, ht, rfl, rfl⟩ := exists_start_tokensBetween hx (i := i) (j := j) (by omega) (by omega)
    exact hmade.noStart _ (mem_map_of_mem (hbetween.mem_passed t ht hm hm'))
  obtain ⟨t, ht, hnameKind, hnameRange⟩ := hmade.nameRange.resolve_left hname
  obtain ⟨name, hmem, rfl⟩ := mem_map.1 ht
  obtain ⟨hname, hnameStart, hnameStop⟩ := hbetween.passed_mem name hmem
  obtain ⟨opening, hkind, hopening⟩ := hmade.kind
  have hrange := hmade.range_eq
  refine ⟨_, h.standsAt hstart hstop hmade.isEnd hno hname hnameKind (by omega) hnameStop
    (hwidth ▸ hrange) hnameRange hmade.concise_eq hkind ?_, hbounds.1, ?_⟩
  · intro htrue
    rcases hopening htrue with hopening | ⟨t, ht, hopening⟩
    · left
      have : first.token.kind = .openTagStart := hopening
      rw [hside] at this
      revert this
      cases side <;> decide
    · right
      obtain ⟨t, hpassed, rfl⟩ := mem_map.1 ht
      obtain ⟨htoken, htstart, htstop⟩ := hbetween.passed_mem t hpassed
      have := bounds_of_mem_tokensBetween htoken
      obtain ⟨e, he⟩ := getElem?_of_mem_tokensBetween htoken
      exact ⟨t.start, e, t.token, by omega, by omega, he, hopening⟩
  · show last.start + _ ≤ j
    omega

/-- The partner of an open tag is a close tag behind it, and the other way round. -/
lemma exists_standsAt_of_partner? {x : Spot} (hs : s.StandsAt d.text x) {s' : TagSpan}
    (hpartner : d.partner? s = some s') :
    ∃ x' : Spot, s'.StandsAt d.text x' ∧
      (s.kind = .opening ∧ s'.kind = .closing ∧ x.stop ≤ x'.start ∨
        s.kind = .closing ∧ s'.kind = .opening ∧ x'.stop ≤ x.start) := by
  have hname : s'.nameRange ≠ none := by
    apply nameRange_partner? hpartner
    rw [hs.nameRange_eq]
    exact Option.some_ne_none _
  have hcounterpart := (Option.filter_eq_some_iff.1 hpartner).1
  have hlength := hs.stop_le
  rw [h.length_eq] at hlength
  have hlt := hs.start_lt
  have hlt' := hs.name_lt
  have hlt'' := hs.lt_stop
  unfold counterpart? at hcounterpart
  split at hcounterpart
  · cases hcounterpart
  · -- forwards from the end of an open tag
    next hkind =>
    obtain ⟨hmem, hkind'⟩ := mem_of_balancingTag? hcounterpart
    rw [tagsFrom, hs.range_eq] at hmem
    have hfrom : d.tokensFrom (d.text.rangeOf x.start x.stop).stop = _ :=
      h.tokensFrom_positionOf hlength
    rw [hfrom] at hmem
    obtain ⟨skipped, first, passed, last, rest, hsplit, hmade⟩ := exists_of_mem_spansOf hmem
    obtain ⟨skipped', first', tail, htokens, -, rfl, htail⟩ := exists_of_map_eq_append hsplit
    obtain ⟨passed', last', rest', rfl, rfl, rfl, -⟩ := exists_of_map_eq_append htail
    obtain ⟨x', hx', hstart, -⟩ :=
      h.exists_standsAt_of_madeUp (between_of_split htokens) hmade hname
    exact ⟨x', hx', .inl ⟨hkind, hkind', hstart⟩⟩
  · -- backwards from the start of a close tag
    next hkind =>
    obtain ⟨hmem, hkind'⟩ := mem_of_balancingTag? hcounterpart
    rw [tagsBefore, hs.range_eq] at hmem
    have hbefore : d.tokensBefore (d.text.rangeOf x.start x.stop).start = _ :=
      h.tokensBefore_positionOf (i := x.start) (by omega)
    rw [hbefore] at hmem
    obtain ⟨skipped, last, passed, first, rest, hsplit, hmade⟩ := exists_of_mem_spansBackOf hmem
    rw [reverse_eq_iff] at hsplit
    simp only [reverse_append, reverse_cons, append_assoc, cons_append,
      nil_append] at hsplit
    obtain ⟨rest', first', tail, htokens, -, rfl, htail⟩ := exists_of_map_eq_append hsplit
    obtain ⟨passed', last', skipped', rfl, hpassed, rfl, -⟩ := exists_of_map_eq_append htail
    have hmade := hmade.reverse
    rw [← hpassed] at hmade
    obtain ⟨x', hx', -, hstop⟩ :=
      h.exists_standsAt_of_madeUp (between_of_split htokens) hmade hname
    exact ⟨x', hx', .inr ⟨hkind, hkind', hstop⟩⟩

end Document.Drawn

/-- The tags found at a caret: one that is alone, or an open tag and a close tag behind it. -/
lemma Document.Sound.spansAt?_cases {d : Document} (h : d.Sound) {o : Nat} (ho : o ≤ d.text.length)
    {opening : TagSpan} {closing : Option TagSpan} {active : Side}
    (hspans : Matcher.spansAt? d (d.text.positionOf o) = some (opening, closing, active)) :
    (closing = none ∧ active = .opening ∧ ∃ a b, opening.range = d.text.rangeOf a b ∧ a ≤ o ∧
      o ≤ b ∧ b ≤ d.text.length ∧ opening.Delimited (d.text.slice a b)) ∨
    ∃ s x y, closing = some s ∧ opening.StandsAt d.text x ∧ s.StandsAt d.text y ∧
      opening.kind = .opening ∧ s.kind = .closing ∧ x.stop ≤ y.start ∧
      (active = .opening ∧ x.start ≤ o ∧ o ≤ x.stop ∨
        active = .closing ∧ y.start ≤ o ∧ o ≤ y.stop) := by
  obtain ⟨ink, hink⟩ := exists_drawn h.onlyLineFeeds h.scopes_eq
  rcases Matcher.spansAt?_cases hspans with ⟨hspan, rfl, hclosing⟩ |
    ⟨s, hspan, hkind, rfl, rfl, hpartner⟩
  · cases hink.around_of_tagAt ho hspan with
    | @concise a b hconcise hkind hrange hlt hb hle hle' =>
      -- a tag without brackets closes itself
      rcases hclosing with ⟨-, rfl⟩ | ⟨hopening, -⟩
      · refine .inl ⟨rfl, rfl, a, b, hrange, hle, hle', hb, ?_⟩
        intro tag _ hdelimiters
        have hne : (d.text.slice a b).isEmpty = false := by
          rw [isEmpty_eq_false_iff, ne_eq, Text.slice, drop_eq_nil_iff, length_take]
          omega
        rw [TagSpan.delimiters?, hconcise, if_pos rfl] at hdelimiters
        unfold LiveTag.hasDelimiters
        rw [hdelimiters]
        exact (Bool.not_eq_true' _).mpr hne
      · rw [hkind] at hopening
        cases hopening
    | brackets hs hle hle' =>
      have halone : opening.kind ≠ .closing → closing = none → closing = none ∧
          Side.opening = .opening ∧ ∃ a b, opening.range = d.text.rangeOf a b ∧ a ≤ o ∧ o ≤ b ∧
            b ≤ d.text.length ∧ opening.Delimited (d.text.slice a b) := by
        intro hkind hnone
        refine ⟨hnone, rfl, _, _, hs.range_eq, hle, hle', hs.stop_le, ?_⟩
        exact hs.delimited.resolve_right fun hclosing => hkind hclosing.1
      rcases hclosing with ⟨hkind, rfl⟩ | ⟨hkind, rfl⟩
      · exact .inl (halone (by rw [hkind]; decide) rfl)
      · cases hpartner : d.partner? opening with
        | none => exact .inl (by rw [hpartner] at halone; exact halone (by rw [hkind]; decide) rfl)
        | some s =>
          obtain ⟨y, hy, ⟨-, hkind', horder⟩ | ⟨hclosing, -⟩⟩ :=
            hink.exists_standsAt_of_partner? hs hpartner
          · exact .inr ⟨s, _, y, rfl, hs, hy, hkind, hkind', horder, .inl ⟨rfl, hle, hle'⟩⟩
          · rw [hkind] at hclosing
            cases hclosing
  · cases hink.around_of_tagAt ho hspan with
    | concise _ hself =>
      rw [hkind] at hself
      cases hself
    | brackets hs hle hle' =>
      obtain ⟨x, hx, ⟨hopening, -⟩ | ⟨-, hkind', horder⟩⟩ :=
        hink.exists_standsAt_of_partner? hs hpartner
      · rw [hkind] at hopening
        cases hopening
      · exact .inr ⟨s, x, _, rfl, hx, hs, hkind', hkind, horder, .inr ⟨rfl, hle, hle'⟩⟩

end TemplateEditing
