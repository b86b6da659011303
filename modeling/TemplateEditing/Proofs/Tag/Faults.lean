import TemplateEditing.Proofs.Tag.Hidden

/-!
# Where the search for a tag goes wrong

The tag that is found at a position should be one that a scan of the text finds, and the search should
not fail. There are three ways in which it does otherwise, and each has to do with what is no token.
From a name without a word (`Document.wordlessAt`) the search runs on to the name of another tag or
fails, and from an attribute behind such a name that has no brackets (`Document.behindWordless`) it
fails. From a bracket that a slash hides (`Document.behindSlash`) it finds a tag that no scan does.
Otherwise the search is right (`Document.tagAt_faults`).
-/

namespace TemplateEditing

open List

variable {token : Token} {c : Char}

open Lexer (isTagChar)

/-! ## Tags that are found -/

section
variable {ink : List InkedChar} {i : Nat} {t : OffsetToken}

/-- A scan up to a place meets what a scan of the whole text does, if shortened. -/
lemma exists_mem_of_mem_tokensBetween (hi : i ≤ ink.length) (ht : t ∈ tokensBetween ink 0 i) :
    ∃ t' ∈ tokensBetween ink 0 ink.length, t'.start = t.start ∧ t'.token = t.token ∧
      (t' = t ∨ i < t'.stop) := by
  obtain ⟨cut, htokens, hcut⟩ := exists_tokensBetween_cut hi
  rw [htokens] at ht
  rcases mem_append.1 ht with ht | ht
  · exact ⟨t, (mem_filter.1 ht).1, rfl, rfl, .inl rfl⟩
  · obtain ⟨t', ht', hstart, htoken, -, hlt⟩ := hcut t ht
    exact ⟨t', ht', hstart.symm, htoken.symm, .inr hlt⟩

/-- A scan from a bracket in front of a tag meets what a scan of the whole text does from there on. -/
lemma mem_tokensBetween_bracket (hi : ink[i]? = some ('<', some token)) :
    t ∈ tokensBetween ink i ink.length ↔ t ∈ tokensBetween ink 0 ink.length ∧ i ≤ t.start := by
  obtain ⟨first, hfirst, rfl, -⟩ := exists_start_tokensBetween hi (Nat.zero_le _)
    (List.getElem?_eq_some_iff.1 hi).1
  obtain ⟨front, back, hsplit⟩ := append_of_mem hfirst
  have hfront := (stop_le_of_split hsplit).1
  refine ⟨fun ht => ⟨?_, (bounds_of_mem_tokensBetween ht).1⟩, fun ⟨ht, hle⟩ => ?_⟩
  · rw [(tokensBetween_split hsplit).2.1] at ht
    rw [hsplit]
    exact mem_append_right _ ht
  · have hbounds := bounds_of_mem_tokensBetween ht
    rw [hsplit] at ht
    rw [(tokensBetween_split hsplit).2.1]
    rcases mem_append.1 ht with ht | ht
    · have := hfront t ht
      omega
    · exact ht

end

namespace Document

/-- How a tag with brackets is found from an offset, before it is completed. -/
inductive Bracketed (d : Document) (ink : List InkedChar) (i : Nat) (draft : TagDraft) : Prop where
  | walk
      (hother : ∀ c token, ink[i]? = some (c, some token) →
        token.kind.isEnd = false ∧ token.kind.isName = false)
      (hwalk : walkBack (d.text.positionOf i).row none false
        (d.tokensBefore (d.text.positionOf i)) = .start draft)
  | fromEnd {c : Char} {token : Token} (hi : ink[i]? = some (c, some token))
      (hkind : token.kind.isEnd = true)
      (hdraft : d.tagFromEnd (d.text.positionOf i) token.kind = .ok draft)
  | fromStart {c : Char} {token : Token} (hi : ink[i]? = some (c, some token))
      (hkind : token.kind.isStart = true)
      (hdraft : d.tagFromStart (d.text.positionOf i) token.kind = draft)
  | fromName {c : Char} {token : Token} (hi : ink[i]? = some (c, some token))
      (hkind : token.kind.isName = true) (hconcise : token.concise = false)
      (hdraft : d.tagFromName (d.text.positionOf i) token = .ok draft)

namespace Drawn

variable {d : Document} {ink : List InkedChar} (h : d.Drawn ink) {i : Nat} {draft : TagDraft}
  {s : TagSpan}

include h

/-- A tag that is completed from a name which a scan of the text meets is scanned. -/
lemma exists_isScanned_of_name {name : OffsetToken}
    (hmem : name ∈ tokensBetween ink 0 ink.length) (hkind : name.token.kind.isName = true)
    (hname : draft.name = some (name.hit d.text).range) (hstop : draft.stop = none)
    (hself : draft.selfClosing = false) (hs : d.completeTag? draft = some s) :
    ∃ tag : InkedTag ink, tag.IsScanned ∧ tag.start < name.start ∧ name.start < tag.stop ∧
      s.range = .ofEnds draft.start (d.text.positionOf tag.stop) := by
  have hbounds := bounds_of_mem_tokensBetween hmem
  obtain ⟨e, he, hend, hno, hrange, -⟩ := h.exists_end hbounds.2.2.2 hname hstop hself hs
  have heBounds := bounds_of_mem_tokensBetween he
  obtain ⟨tag, -, hbefore, htagStop⟩ := h.exists_inkedTag_of_name hmem hkind he hend hno
  refine ⟨tag, ?_, hbefore, by omega, by rw [hrange, htagStop]⟩
  exact h.isScanned tag (mem_tokensBetween_of_mem hmem he) hend (by omega) (by omega) hmem hkind
    hbefore (by omega)

/-- A tag that is found ends where the search for its end stops. -/
lemma lt_stop_of_standsAt {x : Spot} {start : Nat} (tag : InkedTag ink) (hx : s.StandsAt d.text x)
    (hrange : s.range = .ofEnds (d.text.positionOf start) (d.text.positionOf tag.stop))
    (hle : start ≤ tag.stop) (hlt : i < x.stop) : i < tag.stop := by
  have honly := h.onlyLineFeeds
  have hlength : tag.stop ≤ d.text.length := by
    rw [h.length_eq]
    exact tag.stop_le_length
  rw [Text.ofEnds_positionOf honly hle hlength] at hrange
  have heq := congrArg Range.stop (hx.range_eq.symm.trans hrange)
  have := Text.positionOf_inj honly hx.stop_le hlength heq
  omega

/-- The tag that a search backwards comes to is scanned, and around the place searched from. -/
lemma exists_isScanned_of_walkBack (hi : i ≤ ink.length)
    (hother : ∀ c token, ink[i]? = some (c, some token) →
      token.kind.isEnd = false ∧ token.kind.isName = false)
    (hwalk : walkBack (d.text.positionOf i).row none false
      (d.tokensBefore (d.text.positionOf i)) = .start draft)
    (hs : d.completeTag? draft = some s) :
    ∃ tag : InkedTag ink, tag.IsScanned ∧ tag.start ≤ i ∧ i < tag.stop := by
  obtain ⟨x, hx, -, hlt⟩ := h.exists_standsAt_of_walkBack hi
    (fun c token hc => (hother c token hc).1) hwalk hs
  obtain ⟨passed, first, rest, hsplit, -, -, hfirst, hname, -, hstop, hself, -⟩ :=
    walkBack_start hwalk
  obtain ⟨a, ha, rfl, hbehind, -⟩ := h.exists_of_tokensBefore hi hsplit
  have haBounds := bounds_of_mem_tokensBetween ha
  obtain ⟨r, hr, -⟩ := completeTag?_cases hs
  rcases hname with hnone | ⟨found, hfound, hkind, hname⟩
  · rw [hnone] at hr
    cases hr
  obtain ⟨name, hmem, rfl, hle⟩ := hbehind found hfound
  have hbounds := bounds_of_mem_tokensBetween hmem
  have hkind : name.token.kind.isName = true := hkind
  -- the name does not go on, for there is no name at the place searched from
  obtain ⟨name', hmem', hstart, htoken, rfl | hcut⟩ := exists_mem_of_mem_tokensBetween hi hmem
  · obtain ⟨tag, hscanned, hbefore, hlt', hrange⟩ :=
      h.exists_isScanned_of_name hmem' hkind hname hstop hself hs
    rw [hfirst] at hrange
    exact ⟨tag, hscanned, by omega, h.lt_stop_of_standsAt tag hx hrange (by omega) hlt⟩
  · rw [← htoken] at hkind
    obtain ⟨c, hc⟩ := h.getElem?_of_isName hmem' hkind (show name'.start ≤ i by omega) hcut
    have := (hother c _ hc).2
    rw [hkind] at this
    cases this

/-- From the bracket in front of it a tag is found that is scanned. -/
lemma exists_isScanned_of_tagFromStart (hi : ink[i]? = some (c, some token))
    (hstart : token.kind.isStart = true)
    (hs : d.completeTag? (d.tagFromStart (d.text.positionOf i) token.kind) = some s) :
    ∃ tag : InkedTag ink, tag.IsScanned ∧ tag.start ≤ i ∧ i < tag.stop := by
  obtain ⟨r, hr, -⟩ := completeTag?_cases hs
  obtain ⟨a, side, hside, hbracket, hai, hlt, -, name, hname, hkind, rfl, hfirst⟩ :=
    h.exists_of_tagFromStart hi hstart hr
  have hbounds := bounds_of_mem_tokensBetween hname
  obtain ⟨first, hmem, rfl, -⟩ := exists_start_tokensBetween hbracket (Nat.zero_le _)
    (List.getElem?_eq_some_iff.1 hbracket).1
  have hmem' : name ∈ tokensBetween ink 0 ink.length := by
    rw [← h.stop_of_isStart hmem hbracket] at hname
    exact mem_tokensBetween_of_mem hmem hname
  obtain ⟨tag, hscanned, hbefore, hlt', -⟩ := h.exists_isScanned_of_name hmem' hkind hr rfl rfl hs
  refine ⟨tag, hscanned, ?_, by omega⟩
  -- no other tag starts in front of the name
  by_contra hgt
  rcases Nat.lt_or_ge tag.start (first.start + side.startInk.length) with hwithin | hbehind
  · cases side with
    | opening => 
      have : first.start + 1 > tag.start := hwithin
      omega
    | closing =>
      have : first.start + 2 > tag.start := hwithin
      have hslash := h.getElem?_slash hbracket
      rw [show first.start + 1 = tag.start by omega, tag.getElem?_start] at hslash
      cases hslash
  · obtain ⟨t, ht, hstart', -⟩ := exists_start_tokensBetween tag.getElem?_start hbehind
      (j := ink.length) (by omega)
    have := hfirst t ht
    omega

/-- A tag is scanned around each place of its name from which it is found, if the name has a word. -/
lemma exists_isScanned_of_tagFromName (hi : ink[i]? = some (c, some token))
    (hkind : token.kind.isName = true)
    (hconcise : token.concise = false)
    (hwordless : d.wordlessAt false (d.text.positionOf i) = false)
    (hdraft : d.tagFromName (d.text.positionOf i) token = .ok draft)
    (hs : d.completeTag? draft = some s) :
    ∃ tag : InkedTag ink, tag.IsScanned ∧ tag.start ≤ i ∧ i < tag.stop := by
  have hlength : i < ink.length := (List.getElem?_eq_some_iff.1 hi).1
  obtain ⟨n, -, -, -, -, rfl, -, hle, hlt⟩ := h.exists_inkedName hi hkind hconcise
  have hword : n.hasWord = true := by
    have heq := h.wordlessAt_eq n hle hlt
    rw [hconcise, hwordless] at heq
    simpa using heq
  obtain ⟨x, hx, -, hltStop⟩ := h.exists_standsAt_of_tagFromName hi hkind hconcise hdraft hs
  obtain ⟨a, ha, name, hname, hstart, hnameKind, -, hbefore, rfl⟩ :=
    h.exists_of_tagFromName (Nat.le_of_lt hlength) hconcise hdraft
  have hbounds := bounds_of_mem_tokensBetween ha
  have hnameBounds := bounds_of_mem_tokensBetween hname
  obtain ⟨side, -, hbracket⟩ := h.getElem?_of_isStart ha hstart
  -- the word is found, or a name before it
  have hnear : name.start < n.stop := by
    have hfront := n.not_mem_of_bracket hbracket
    obtain ⟨t, ht, -, hlt', htoken⟩ :=
      n.exists_token hword (i := a.start) (j := ink.length) (by omega) n.stop_le_length
    by_contra hge
    have hother := hbefore t ht (by omega)
    rw [htoken, n.isName] at hother
    cases hother
  obtain ⟨tag, hscanned, hbefore', hlt', hrange⟩ := h.exists_isScanned_of_name
    ((mem_tokensBetween_bracket hbracket).1 hname).1 hnameKind rfl rfl rfl hs
  have houtside := n.not_mem_of_bracket tag.getElem?_start
  exact ⟨tag, hscanned, by omega, h.lt_stop_of_standsAt tag hx hrange (by omega) hltStop⟩

lemma behindSlash_eq (tag : InkedTag ink) (hkind : tag.endKind = .closeTagEnd) :
    d.behindSlash (d.text.positionOf tag.front.length) =
      (['/'].isSuffixOf (textOf tag.front) && !(['<', '/'].isSuffixOf (textOf tag.front))) := by
  have hink : ink = tag.front ++ ('>', some ⟨.closeTagEnd, false⟩) :: tag.rest := by
    have heq := tag.ink_eq
    rw [hkind] at heq
    exact heq.trans (append_assoc _ _ _)
  have htoken := h.tokenAt?_length hink (by decide)
  have hlength := tag.stop_eq_front
  have hstop := tag.stop_le_length
  have hoffset : d.text.offsetOf (d.text.positionOf tag.front.length) = tag.front.length :=
    Text.offsetOf_positionOf h.onlyLineFeeds (by rw [h.length_eq]; omega)
  have htake : d.text.take tag.front.length = textOf tag.front := by
    rw [h.text_eq, textOf, ← map_take]
    refine congrArg textOf ((congrArg (List.take _) hink).trans ?_)
    rw [take_append_of_le_length (Nat.le_refl _), take_length]
  rw [behindSlash, htoken, hoffset, htake]
  rfl

/-- From the bracket behind it a tag is found that is scanned, if no slash hides the bracket. -/
lemma exists_isScanned_of_tagFromEnd (hi : ink[i]? = some (c, some token))
    (hend : token.kind.isEnd = true)
    (hslash : d.behindSlash (d.text.positionOf i) = false)
    (hdraft : d.tagFromEnd (d.text.positionOf i) token.kind = .ok draft)
    (hs : d.completeTag? draft = some s) :
    ∃ tag : InkedTag ink, tag.IsScanned ∧ tag.start ≤ i ∧ i < tag.stop := by
  have hlength : i < ink.length := (List.getElem?_eq_some_iff.1 hi).1
  obtain ⟨tag, hendKind, hstart, hlt, -⟩ := h.exists_inkedTag_of_isEnd hi rfl hend
  obtain ⟨last, hlast, hlastEnd, hle, hlt'⟩ := tag.exists_last fun hkind hsuffix => by
    rw [tag.eq_length_front hi hend (Nat.le_of_lt hstart) hlt hkind, h.behindSlash_eq tag hkind,
      isSuffixOf_iff_suffix.2 hsuffix] at hslash
    simpa using hslash
  obtain ⟨a, ha, -, hnone, hnames, -⟩ := h.exists_of_tagFromEnd (Nat.le_of_lt hlength) hdraft
  obtain ⟨r, hr, -⟩ := completeTag?_cases hs
  obtain ⟨name, hname, hkind, -, hbehind, -⟩ := hnames r hr
  have hbounds := bounds_of_mem_tokensBetween ha
  have hnameBounds := bounds_of_mem_tokensBetween hname
  -- the name is behind the bracket in front of the tag
  have hinside : tag.start ≤ a.start := by
    by_contra hgt
    obtain ⟨t, ht, htstart, htoken⟩ := exists_start_tokensBetween tag.getElem?_start (Nat.zero_le _)
      hstart
    have hother := hnone t ht (by omega)
    rw [htoken, tag.side.isStart_startKind] at hother
    cases hother
  obtain ⟨name', hname', hstart', htoken, -⟩ :=
    exists_mem_of_mem_tokensBetween (Nat.le_of_lt hlength) hname
  have hfront := tag.start_lt_length_front
  exact ⟨tag, h.isScanned tag hlast hlastEnd (by omega) hlt' hname' (by rw [htoken]; exact hkind)
    (by omega) (by omega), by omega, hlt⟩

lemma isTagChar_of_isName (hi : ink[i]? = some (c, some token))
    (hkind : token.kind.isName = true) : isTagChar c = true := by
  obtain ⟨q, hwalk, -⟩ := h.walk
  obtain ⟨a, b, hink, -⟩ := exists_append_of_getElem? hi
  rw [hink] at hwalk
  obtain ⟨q₁, -, hb⟩ := hwalk.exists_of_append
  obtain ⟨q₂, hstep, -⟩ := hb.exists_of_cons
  exact hstep.isTagChar_of_isName rfl hkind

/-- A tag that is found is scanned around the place it is found from, unless a name without a word or
a hidden bracket is there. -/
lemma exists_isScanned_of_bracketed (hi : i ≤ ink.length) (hdraft : d.Bracketed ink i draft)
    (hs : d.completeTag? draft = some s)
    (hwordless : d.wordlessAt false (d.text.positionOf i) = false)
    (hslash : d.behindSlash (d.text.positionOf i) = false) :
    ∃ tag : InkedTag ink, tag.IsScanned ∧ tag.start ≤ i ∧ i < tag.stop := by
  cases hdraft with
  | walk hother hwalk => exact h.exists_isScanned_of_walkBack hi hother hwalk hs
  | fromEnd hi hkind hdraft => exact h.exists_isScanned_of_tagFromEnd hi hkind hslash hdraft hs
  | fromStart hi hkind hdraft =>
    subst hdraft
    exact h.exists_isScanned_of_tagFromStart hi hkind hs
  | fromName hi hkind hconcise hdraft =>
    exact h.exists_isScanned_of_tagFromName hi hkind hconcise hwordless hdraft hs

lemma exists_standsAt_of_bracketed (hi : i ≤ ink.length) (hdraft : d.Bracketed ink i draft)
    (hs : d.completeTag? draft = some s) :
    ∃ x : Spot, s.StandsAt d.text x ∧ x.start ≤ i ∧ i < x.stop := by
  cases hdraft with
  | walk hother hwalk =>
    exact h.exists_standsAt_of_walkBack hi (fun c token hc => (hother c token hc).1) hwalk hs
  | fromEnd hi hkind hdraft => exact h.exists_standsAt_of_tagFromEnd hi hkind hdraft hs
  | fromStart hi hkind hdraft =>
    subst hdraft
    exact h.exists_standsAt_of_tagFromStart hi hkind hs
  | fromName hi hkind hconcise hdraft =>
    exact h.exists_standsAt_of_tagFromName hi hkind hconcise hdraft hs

section
variable (hsome : ∀ token, d.tokenAt? (d.text.positionOf i) = some token →
  ∃ c, c ≠ '\n' ∧ ink[i]? = some (c, some token))

include hsome

/-- A tag that is not found without brackets is found with them. -/
lemma bracketed_of_drafted
    (hnone : d.tokenAt? (d.text.positionOf i) = none →
      ∀ c token, ink[i]? = some (c, some token) → token.kind.isEnd = false)
    (hdraft : d.Drafted (d.text.positionOf i) draft) (hs : d.completeTag? draft = some s)
    (hconcise : s.concise = false) : d.Bracketed ink i draft := by
  -- a tag without brackets is known as one
  have hnot : ∀ p, d.conciseTag p ≠ draft := by
    rintro p rfl
    obtain ⟨-, -, -, hconcise', -⟩ := completeTag?_cases hs
    rw [hconcise] at hconcise'
    cases hconcise'
  have hwalk : d.tagFromGap? (d.text.positionOf i) = some draft →
      walkBack (d.text.positionOf i).row none false (d.tokensBefore (d.text.positionOf i)) =
        .start draft := by
    intro hgap
    rcases walkBack_of_tagFromGap? hgap with hwalk | ⟨q, -, hq⟩
    · exact hwalk
    · exact absurd hq (hnot q)
  cases hdraft with
  | gap htoken hgap =>
    refine .walk (fun c token hi => ⟨hnone htoken c token hi, ?_⟩) (hwalk hgap)
    rw [Bool.eq_false_iff]
    intro hname
    have hchar := h.isTagChar_of_isName hi hname
    rw [h.tokenAt?_eq hi (Lexer.isTagChar_ne hchar (by decide))] at htoken
    cases htoken
  | fromEnd htoken hkind hdraft =>
    obtain ⟨c, -, hi⟩ := hsome _ htoken
    exact .fromEnd hi hkind hdraft
  | fromStart htoken hkind hdraft =>
    obtain ⟨c, -, hi⟩ := hsome _ htoken
    exact .fromStart hi hkind hdraft
  | @fromName token htoken hkind hdraft =>
    obtain ⟨c, -, hi⟩ := hsome _ htoken
    cases hconcise' : token.concise with
    | false => exact .fromName hi hkind hconcise' hdraft
    | true =>
      rw [tagFromName, hconcise', if_pos rfl] at hdraft
      exact absurd (Except.ok.inj hdraft) (hnot _)
  | fromAttribute htoken hkind hdraft =>
    obtain ⟨c, -, hi⟩ := hsome _ htoken
    refine .walk (fun c' token' hi' => ?_) (hwalk (tagFromGap?_of_tagFromAttribute hdraft))
    rw [hi] at hi'
    cases hi'
    rw [hkind]
    exact ⟨rfl, rfl⟩

/-- A tag that is scanned has no name without a word, if it has a name. -/
lemma wordlessAt_of_scanned {tag : InkedTag ink} {front passed back : List OffsetToken}
    {first last : OffsetToken} (hscanned : tag.Scanned front first passed last back)
    (hname : passed.find? (·.token.kind.isName) ≠ none) (hle : tag.start ≤ i) (hlt : i < tag.stop) :
    d.wordlessAt false (d.text.positionOf i) = false := by
  have hstart : tag.inkedName.start = tag.nameStart := length_append
  have hstop : tag.inkedName.stop = tag.nameStop := by
    rw [InkedTag.nameStop, ← hstart]
    rfl
  rw [Bool.eq_false_iff]
  intro hwordless
  obtain ⟨token, htoken, hkind⟩ := (Option.any_eq_true _ _).1 (Bool.and_eq_true_iff.1 hwordless).1
  obtain ⟨c, -, hi⟩ := hsome token htoken
  have hkind := (Bool.and_eq_true_iff.1 hkind).1
  -- the name stands here
  have hwithin : tag.nameStart ≤ i ∧ i < tag.nameStop := by
    rcases tag.token_cases hi hle hlt with ⟨-, rfl⟩ | ⟨hle, hlt, -⟩ | ⟨-, -, rfl⟩ | ⟨-, rfl⟩
    · rw [tag.side.isName_startKind] at hkind
      cases hkind
    · exact ⟨hle, hlt⟩
    · cases hkind
    · exact absurd hkind (TokenKind.not_isName_of_isEnd tag.isEnd_endKind)
  obtain ⟨t, ht⟩ := Option.ne_none_iff_exists'.1 hname
  have hmem := mem_of_find?_eq_some ht
  have hname := find?_some ht
  have hmem' : t ∈ tokensBetween ink 0 ink.length := by
    rw [hscanned.tokens_eq]
    simp [hmem]
  have hbounds := bounds_of_mem_tokensBetween hmem'
  have hbehind := (stop_le_of_split hscanned.tokens_eq).2 t (by simp [hmem])
  rw [hscanned.stop_first] at hbehind
  have hword : tag.inkedName.hasWord = true := by
    rcases hscanned.passed_cases t hmem with ⟨-, hle⟩ | ⟨htoken, -⟩
    · exact h.hasWord_of_isName tag.inkedName hmem' hname (by omega) (by omega)
    · rw [htoken] at hname
      cases hname
  have heq := h.wordlessAt_eq tag.inkedName (i := i) (by omega) (by omega)
  rw [hword] at heq
  exact absurd (hwordless.symm.trans heq) (by decide)

/-- A tag that is scanned has no bracket that a slash hides. -/
lemma behindSlash_of_scanned {tag : InkedTag ink} {front passed back : List OffsetToken}
    {first last : OffsetToken} (hscanned : tag.Scanned front first passed last back)
    (hle : tag.start ≤ i) (hlt : i < tag.stop) :
    d.behindSlash (d.text.positionOf i) = false := by
  rw [Bool.eq_false_iff]
  intro hslash
  obtain ⟨token, htoken, hkind⟩ := (Option.any_eq_true _ _).1
    (Bool.and_eq_true_iff.1 (Bool.and_eq_true_iff.1 hslash).1).1
  obtain ⟨c, -, hi⟩ := hsome token htoken
  have hkind := eq_of_beq hkind
  have hisEnd : token.kind.isEnd = true := by
    rw [hkind]
    rfl
  have hend : tag.endKind = .closeTagEnd := by
    rw [← hkind, (tag.token_eq_of_isEnd hi hle hlt hisEnd).2]
  have hfront := tag.eq_length_front hi hisEnd hle hlt hend
  rw [hfront, h.behindSlash_eq tag hend, Bool.and_eq_true_iff, isSuffixOf_iff_suffix,
    Bool.not_eq_true', Bool.eq_false_iff, ne_eq, isSuffixOf_iff_suffix] at hslash
  obtain ⟨⟨lead, hlead⟩, hbracket⟩ := hslash
  obtain ⟨a, slash, ha, -, hslash⟩ := map_eq_append_iff.1 hlead.symm
  obtain ⟨x, rfl, hx⟩ := map_eq_singleton_iff.1 hslash
  have hnot : ∀ z ∈ a.getLast?, z.1 ≠ '<' := by
    intro z hz hchar
    obtain ⟨a', rfl⟩ := getLast?_eq_some_iff.1 hz
    refine hbracket ⟨textOf a', ?_⟩
    rw [ha, textOf_append, textOf_append, append_assoc]
    show _ = textOf a' ++ [z.1, x.1]
    rw [hchar, hx]
  have hink : ink = a ++ x :: ('>', some ⟨.closeTagEnd, false⟩) :: tag.rest := by
    have heq : ink = tag.front ++ tag.endKind.endInk ++ tag.rest := tag.ink_eq
    rw [ha, hend, append_assoc, append_assoc] at heq
    exact heq
  -- the bracket is met, in spite of the slash
  have hlast : last ∈ tokensBetween ink 0 ink.length := by
    rw [hscanned.tokens_eq]
    simp
  have hbounds := bounds_of_mem_tokensBetween hlast
  refine start_ne_of_slash hnot hx rfl hink hlast ?_
  have hlength : tag.front.length = a.length + 1 := by
    rw [ha, length_append, length_singleton]
  have hstop : tag.stop = tag.front.length + 1 := by
    rw [tag.stop_eq_front, hend]
    rfl
  have := hscanned.le_last
  have := hscanned.stop_last
  omega

/-- In a tag that a scan of the text finds no such fault is. -/
lemma not_fault_of_mem_tagsFrom {x : Spot} (hmem : s ∈ d.tagsFrom .origin)
    (hname : s.nameRange ≠ none) (hx : s.StandsAt d.text x) (hle : x.start ≤ i) (hlt : i < x.stop) :
    d.wordlessAt false (d.text.positionOf i) = false ∧
      d.behindSlash (d.text.positionOf i) = false := by
  have honly := h.onlyLineFeeds
  have hlength := h.length_eq
  obtain ⟨tag, front, first, passed, last, back, hscanned, rfl, hrange⟩ := h.exists_scanned hmem
  -- the tag is the one that is found
  have hbounds : x.start = tag.start ∧ x.stop = tag.stop := by
    have heq := hx.range_eq.symm.trans hrange
    have hstop := tag.stop_le_length
    have hfront := tag.stop_eq_front
    have hstart := tag.start_lt_length_front
    have hxstop := hx.stop_le
    exact ⟨Text.positionOf_inj honly (by omega) (by omega) (congrArg Range.start heq),
      Text.positionOf_inj honly hxstop (by omega) (congrArg Range.stop heq)⟩
  exact ⟨h.wordlessAt_of_scanned hsome hscanned (find?_ne_none_of_nameRange hname) (by omega)
      (by omega),
    h.behindSlash_of_scanned hsome hscanned (by omega) (by omega)⟩

end

end Drawn

end Document

/-! ## Searches that fail -/

/-- The search backwards has come to a tag. -/
def WalkBack.isFound : WalkBack → Bool
  | .start _ | .concise _ => true
  | .outside | .exhausted => false

/-- A search backwards comes to a tag, if nothing stops it on the way. -/
lemma isFound_walkBack {row : Nat} {name : Option Range} {opening : Bool}
    {passed rest : List TokenHit} {first : TokenHit}
    (hfirst : first.kind.isStart = true ∨ first.token = ⟨.openTagName, true⟩)
    (hpassed : ∀ t ∈ passed ++ [first], t.kind.isEnd = false ∧
      (t.token.concise = true → t.range.start.row = row)) :
    (walkBack row name opening (passed ++ first :: rest)).isFound = true := by
  induction passed generalizing name opening with
  | nil =>
    obtain ⟨hend, hrow⟩ := hpassed first mem_cons_self
    rcases hfirst with hstart | htoken
    · rw [nil_append, walkBack_isStart hstart]
      rfl
    · rw [nil_append, walkBack, if_neg (by rw [hend]; decide),
        if_pos (by rw [TokenHit.kind, htoken]; rfl), if_pos (hrow (by rw [htoken]))]
      rfl
  | cons t passed ih =>
    -- a name without brackets is itself found, everything else is passed or a start
    obtain ⟨hend, hrow⟩ := hpassed t mem_cons_self
    have hlater : ∀ t' ∈ passed ++ [first], t'.kind.isEnd = false ∧
        (t'.token.concise = true → t'.range.start.row = row) :=
      fun t' ht' => hpassed t' (mem_cons_of_mem t ht')
    rw [cons_append, walkBack, if_neg (by rw [hend]; decide)]
    split
    · next hconcise =>
      rw [if_pos (hrow (Bool.and_eq_true_iff.1 hconcise).2)]
      rfl
    split
    · exact ih hlater
    split
    · rfl
    · exact ih hlater

/-- The name of a tag without brackets is whole, once something else follows in its row. -/
def InkedName.ofConcise {ink lead name more back : List InkedChar}
    (hink : ink = lead ++ name ++ more ++ back) (h : IsConciseInk lead name more) (hne : more ≠ []) :
    InkedName ink where
  lead := lead
  name := name
  rest := more ++ back
  token := ⟨.openTagName, true⟩
  ink_eq := hink.trans (append_assoc _ _ _)
  isName := rfl
  isNameInk := h.isName
  lead_last := h.lead_last
  rest_head := by
    intro x hx
    rw [head?_append, head?_eq_some_head hne] at hx
    exact h.isMoreInk.head x ((head?_eq_some_head hne).trans hx)

namespace Document

lemma tagFromAttribute_eq_error {d : Document} {p : Position} {e : LocateError}
    (he : d.tagFromAttribute p = .error e) :
    e = .missingStart p ∧ (walkBack p.row none false (d.tokensBefore p)).isFound = false := by
  unfold tagFromAttribute at he
  split at he
  · cases he
  · cases he
  · next hwalk => exact ⟨(Except.error.inj he).symm, by rw [hwalk]; rfl⟩
  · next hwalk => exact ⟨(Except.error.inj he).symm, by rw [hwalk]; rfl⟩

namespace Drawn

variable {d : Document} {ink : List InkedChar} (h : d.Drawn ink) {i : Nat} {e : LocateError}

include h

lemma isFound_of_mem {row : Nat} (hi : i ≤ ink.length) {t : OffsetToken}
    (ht : t ∈ tokensBetween ink 0 i)
    (hfirst : t.token.kind.isStart = true ∨ t.token = ⟨.openTagName, true⟩)
    (hbehind : ∀ t' ∈ tokensBetween ink 0 i, t.start ≤ t'.start → t'.token.kind.isEnd = false ∧
      (t'.token.concise = true → (d.text.positionOf t'.start).row = row)) :
    (walkBack row none false (d.tokensBefore (d.text.positionOf i))).isFound = true := by
  obtain ⟨front, back, hsplit⟩ := append_of_mem ht
  have htokens : d.tokensBefore (d.text.positionOf i) =
      (back.map (OffsetToken.hit d.text)).reverse ++ t.hit d.text ::
        (front.map (OffsetToken.hit d.text)).reverse := by
    rw [h.tokensBefore_positionOf hi, hsplit]
    simp
  have hhit : (t.hit d.text).kind.isStart = true ∨ (t.hit d.text).token = ⟨.openTagName, true⟩ :=
    hfirst
  rw [htokens]
  refine isFound_walkBack hhit fun hit hhit => ?_
  rw [← reverse_cons, ← map_cons, mem_reverse] at hhit
  obtain ⟨t', ht', rfl⟩ := mem_map.1 hhit
  refine hbehind t' (by rw [hsplit]; exact mem_append_right _ ht') ?_
  rcases mem_cons.1 ht' with rfl | ht'
  · exact Nat.le_refl _
  · have := (stop_le_of_split hsplit).2 t' ht'
    have := bounds_of_mem_tokensBetween ht
    omega

lemma find?_isStart_ne_none {start : Nat} {side : Lexer.Side}
    (hstart : ink[start]? = some ('<', some ⟨side.startKind, false⟩)) (hlt : start < i)
    (hi : i ≤ ink.length) : (d.tokensBefore (d.text.positionOf i)).find? (·.kind.isStart) ≠ none := by
  intro hnone
  obtain ⟨t, ht, -, htoken⟩ := exists_start_tokensBetween hstart (Nat.zero_le _) hlt
  rw [h.tokensBefore_positionOf hi, find?_eq_none] at hnone
  apply hnone (t.hit d.text) (mem_reverse.2 (mem_map_of_mem ht))
  show t.token.kind.isStart = true
  rw [htoken]
  exact side.isStart_startKind

/-- From a bracket behind a tag the one in front is found. -/
lemma tagFromEnd_ne_error (hi : ink[i]? = some (c, some token)) (hend : token.kind.isEnd = true) :
    d.tagFromEnd (d.text.positionOf i) token.kind ≠ .error e := by
  have hlength : i < ink.length := (List.getElem?_eq_some_iff.1 hi).1
  obtain ⟨tag, -, hstart, -⟩ := h.exists_inkedTag_of_isEnd hi rfl hend
  intro he
  unfold tagFromEnd at he
  dsimp only at he
  split at he
  · next hnone =>
    exact h.find?_isStart_ne_none tag.getElem?_start hstart (Nat.le_of_lt hlength) hnone
  · cases he

/-- The search from the name of a tag fails only if the name has no word. -/
lemma tagFromName_error (hi : ink[i]? = some (c, some token)) (hkind : token.kind.isName = true)
    (he : d.tagFromName (d.text.positionOf i) token = .error e) :
    e = .missingName (d.text.positionOf i) ∧ d.wordlessAt false (d.text.positionOf i) = true := by
  have hlength : i < ink.length := (List.getElem?_eq_some_iff.1 hi).1
  unfold tagFromName at he
  split at he
  · cases he
  next hconcise =>
  rw [Bool.not_eq_true] at hconcise
  obtain ⟨n, start, side, hstart, hlt, rfl, -, hle, hlt'⟩ := h.exists_inkedName hi hkind hconcise
  have hpos := Site.length_startInk_pos side
  split at he
  · next hnone =>
    exact absurd hnone (h.find?_isStart_ne_none hstart (by omega) (Nat.le_of_lt hlength))
  next first hfirst =>
  split at he
  · next hnone =>
    refine ⟨(Except.error.inj he).symm, ?_⟩
    obtain ⟨hfirstKind, passed, rest, hsplit, -⟩ := find?_eq_some_iff_append.1 hfirst
    obtain ⟨a, ha, rfl, -⟩ := h.exists_of_tokensBefore (Nat.le_of_lt hlength) hsplit
    have hbounds := bounds_of_mem_tokensBetween ha
    obtain ⟨_, -, hbracket⟩ := h.getElem?_of_isStart ha hfirstKind
    have hfront := n.not_mem_of_bracket hbracket
    have hword := h.wordlessAt_eq n hle hlt'
    rw [hconcise] at hword
    rw [hword, Bool.not_eq_true', Bool.eq_false_iff]
    -- the word would be a name behind the bracket
    intro hword
    obtain ⟨t, ht, -, -, htoken⟩ :=
      n.exists_token hword (i := a.start) (j := ink.length) (by omega) n.stop_le_length
    have htokens : d.tokensFrom (a.hit d.text).range.start = _ :=
      h.tokensFrom_positionOf (i := a.start) (by omega)
    rw [htokens, find?_eq_none] at hnone
    apply hnone (t.hit d.text) (mem_map_of_mem ht)
    show t.token.kind.isName = true
    rw [htoken]
    exact hkind
  · cases he

/-- From behind the name of a tag with brackets the one in front is found. -/
lemma isFound_of_more {side : Lexer.Side} {lead name more back : List InkedChar}
    (hink : ink = lead ++ side.startInk ++ name ++ more ++ back) (hname : IsNameInk side name)
    (hmore : IsMoreInk more) (row : Nat) :
    (walkBack row none false (d.tokensBefore
      (d.text.positionOf (lead ++ side.startInk ++ name ++ more).length))).isFound = true := by
  rw [show lead ++ side.startInk ++ name ++ more = lead ++ (side.startInk ++ name ++ more) by
    simp only [append_assoc]] at hink ⊢
  have hlength := congrArg List.length hink
  have hpos := Site.length_startInk_pos side
  simp only [length_append] at hlength
  have hbracket : ink[lead.length]? = some ('<', some ⟨side.startKind, false⟩) := by
    rw [hink, append_assoc, getElem?_append_right (Nat.le_refl _), Nat.sub_self]
    cases side <;> rfl
  obtain ⟨t, ht, hstart, htoken⟩ := exists_start_tokensBetween hbracket (Nat.zero_le _)
    (show lead.length < (lead ++ (side.startInk ++ name ++ more)).length by
      simp only [length_append]; omega)
  refine h.isFound_of_mem (by simp only [length_append]; omega) ht
    (.inl (by rw [htoken]; exact side.isStart_startKind)) fun t' ht' hle => ?_
  -- all that is behind the bracket is part of its tag
  have hbounds := bounds_of_mem_tokensBetween ht'
  obtain ⟨c, hc⟩ := getElem?_of_mem_tokensBetween ht'
  rw [hink, getElem?_append_left (by omega), getElem?_append_right (by omega)] at hc
  rcases mem_append.1 (mem_of_getElem? hc) with hmem | hmem
  · rcases mem_append.1 hmem with hmem | hmem
    · rw [Option.some.inj (side.snd_of_mem_startInk hmem)]
      simp
    · rw [Option.some.inj (hname _ hmem).2]
      simp
  · rcases hmore.part _ hmem with hpart | hpart
    · cases hpart
    · rw [Option.some.inj hpart]
      exact ⟨rfl, fun hconcise => by cases hconcise⟩

section
variable {lead name more back : List InkedChar} (hink : ink = lead ++ name ++ more ++ back)
  (hconcise : IsConciseInk lead name more)

include hink hconcise

omit h in
/-- What stands in a tag without brackets. -/
lemma mem_of_isConciseInk {m : Nat} {x : InkedChar} (hx : ink[m]? = some x)
    (hle : lead.length ≤ m) (hlt : m < (lead ++ name ++ more).length) :
    isTagChar x.1 = true ∧ x.2 = some ⟨.openTagName, true⟩ ∨
      x.1 ≠ '\n' ∧ (x.2 = none ∨ x.2 = some ⟨.attributeName, false⟩) := by
  rw [hink, getElem?_append_left hlt, append_assoc,
    getElem?_append_right hle] at hx
  rcases mem_append.1 (mem_of_getElem? hx) with hmem | hmem
  · exact .inl (hconcise.isName x hmem)
  · exact .inr ⟨hconcise.more_row x hmem, hconcise.isMoreInk.part x hmem⟩

/-- A tag without brackets is all in one row. -/
lemma positionOf_of_isConciseInk {m : Nat} (hle : lead.length ≤ m)
    (hm : m ≤ (lead ++ name ++ more).length) :
    d.text.positionOf m = (d.text.positionOf lead.length).right (m - lead.length) := by
  have hlength := congrArg List.length hink
  rw [length_append] at hlength
  rw [← Text.positionOf_add h.onlyLineFeeds lead.length (n := m - lead.length),
    Nat.add_sub_cancel' hle]
  intro k hk
  have hx : ink[lead.length + k]? = some ink[lead.length + k] :=
    getElem?_eq_getElem (by omega)
  refine ⟨_, h.getElem?_text hx, ?_⟩
  rcases mem_of_isConciseInk hink hconcise hx (by omega) (by omega) with ⟨hchar, -⟩ | ⟨hchar, -⟩
  · exact Lexer.isTagChar_ne hchar (by decide)
  · exact hchar

/-- From behind the name of a tag without brackets it is found, if it has a word. -/
lemma isFound_of_isConciseInk (hne : more ≠ [])
    (hword : (InkedName.ofConcise hink hconcise hne).hasWord = true) :
    (walkBack (d.text.positionOf (lead ++ name ++ more).length).row none false
      (d.tokensBefore (d.text.positionOf (lead ++ name ++ more).length))).isFound = true := by
  have hlength := congrArg List.length hink
  rw [length_append] at hlength
  have hmore : lead.length + name.length ≤ (lead ++ name ++ more).length := by
    simp only [length_append]
    omega
  obtain ⟨t, ht, hle, -, htoken⟩ := InkedName.exists_token _ hword (Nat.zero_le _) hmore
  refine h.isFound_of_mem (by omega) ht (.inr htoken) fun t' ht' hle' => ?_
  have hle : lead.length ≤ t'.start := Nat.le_trans hle hle'
  have hbounds := bounds_of_mem_tokensBetween ht'
  obtain ⟨c, hc⟩ := getElem?_of_mem_tokensBetween ht'
  refine ⟨?_, fun _ => ?_⟩
  · rcases mem_of_isConciseInk hink hconcise hc hle (by omega) with ⟨-, hpart⟩ | ⟨-, hpart | hpart⟩
    · rw [Option.some.inj hpart]
      rfl
    · cases hpart
    · rw [Option.some.inj hpart]
      rfl
  · rw [h.positionOf_of_isConciseInk hink hconcise hle (by omega),
      h.positionOf_of_isConciseInk hink hconcise (by omega) (Nat.le_refl _)]
    rfl

/-- Where the name of a tag without brackets has no word, what follows it is behind such a name. -/
lemma behindWordless_of_isConciseInk (hne : more ≠ [])
    (hword : (InkedName.ofConcise hink hconcise hne).hasWord = false)
    (htoken : d.tokenAt? (d.text.positionOf (lead ++ name ++ more).length) = some token)
    (hkind : token.kind = .attributeName) :
    d.behindWordless (d.text.positionOf (lead ++ name ++ more).length) = true := by
  have hname : 0 < name.length := length_pos_iff.2 hconcise.name_ne
  have hlength : lead.length < (lead ++ name ++ more).length := by
    simp only [length_append]
    omega
  have hwordless := h.wordlessAt_eq (InkedName.ofConcise hink hconcise hne) (Nat.le_refl _)
    (Nat.lt_add_of_pos_right hname)
  rw [hword] at hwordless
  rw [behindWordless, htoken, Option.any_some, hkind, Bool.and_eq_true_iff, any_eq_true,
    h.positionOf_of_isConciseInk hink hconcise (Nat.le_of_lt hlength) (Nat.le_refl _)]
  refine ⟨rfl, (d.text.positionOf lead.length).column, mem_range.2 ?_, hwordless⟩
  show _ < _ + _
  omega

end

/-- The search from an attribute fails only behind a name without a word. -/
lemma tagFromAttribute_error (hi : ink[i]? = some (c, some token))
    (htoken : d.tokenAt? (d.text.positionOf i) = some token) (hkind : token.kind = .attributeName)
    (he : d.tagFromAttribute (d.text.positionOf i) = .error e) :
    e = .missingStart (d.text.positionOf i) ∧ d.behindWordless (d.text.positionOf i) = true := by
  obtain ⟨rfl, hfailed⟩ := tagFromAttribute_eq_error he
  refine ⟨rfl, ?_⟩
  obtain ⟨q, hwalk, -⟩ := h.walk
  obtain ⟨a, b, hink, rfl⟩ := exists_append_of_getElem? hi
  rcases Site.exists_of_attribute hwalk hink rfl hkind with
    ⟨side, lead, name, more, rfl, hname, hmore⟩ | ⟨lead, name, more, rfl, hne, hconcise⟩
  · rw [h.isFound_of_more hink hname hmore] at hfailed
    cases hfailed
  · refine h.behindWordless_of_isConciseInk hink hconcise hne ?_ htoken hkind
    rw [Bool.eq_false_iff]
    intro hword
    rw [h.isFound_of_isConciseInk hink hconcise hne hword] at hfailed
    cases hfailed

/-- The search for a tag fails only at a name without a word, or behind one. -/
lemma tagAt_error {p : Position} (hp : d.probe p = d.text.positionOf i)
    (hsome : ∀ token, d.tokenAt? (d.text.positionOf i) = some token →
      ∃ c, c ≠ '\n' ∧ ink[i]? = some (c, some token)) (he : d.tagAt p = .error e) :
    (e = .missingName (d.text.positionOf i) ∧ d.wordlessAt false (d.text.positionOf i) = true) ∨
      (e = .missingStart (d.text.positionOf i) ∧
        d.behindWordless (d.text.positionOf i) = true) := by
  cases htoken : d.tokenAt? (d.probe p) with
  | none => simp [tagAt, htoken] at he
  | some token =>
    rw [tagAt_eq_of_some htoken, hp] at he
    rw [hp] at htoken
    obtain ⟨c, -, hi⟩ := hsome token htoken
    -- a draft is always completed or dropped
    have hdraft : ∀ {draft? : Except LocateError TagDraft}, draft?.map d.completeTag? = .error e →
        draft? = .error e := by
      intro draft? he
      cases draft? with
      | error e' => exact congrArg _ (Except.error.inj he)
      | ok draft => cases he
    have he := hdraft he
    split at he
    · next hkind => exact absurd he (h.tagFromEnd_ne_error hi hkind)
    next hend =>
    split at he
    · cases he
    next hstart =>
    split at he
    · next hkind => exact .inl (h.tagFromName_error hi hkind he)
    · next hname =>
      exact .inr (h.tagFromAttribute_error hi htoken
        (TokenKind.eq_attributeName hend hstart hname) he)

end Drawn

/-- The search for the tag around a position fails only at a name without a word, or at an attribute
behind such a name that has no brackets. A tag with brackets that it finds is one of those that a scan
of the text finds, except from a name without a word and from a bracket that a slash hides. -/
theorem tagAt_faults (d : Document) (honly : d.text.OnlyLineFeeds)
    (hscopes : d.scopes = d.grammar.tokenize d.text) (p : Position) (hp : d.text.clip p = p) :
    (∀ q, d.tagAt p = .error (.missingName q) → d.wordlessAt false (d.probe p) = true) ∧
    (∀ q, d.tagAt p = .error (.missingStart q) → d.behindWordless (d.probe p) = true) ∧
    ∀ s, d.tagAt p = .ok (some s) → s.concise = false →
      (s ∈ d.tagsFrom .origin ↔
        d.wordlessAt false (d.probe p) = false ∧ d.behindSlash (d.probe p) = false) := by
  obtain ⟨ink, h⟩ := exists_drawn honly hscopes
  obtain ⟨o, ho, rfl⟩ : ∃ o ≤ d.text.length, p = d.text.positionOf o :=
    ⟨d.text.offsetOf p, d.text.offsetOf_le_length p, by rw [Text.positionOf_offsetOf honly, hp]⟩
  obtain ⟨i, hi, hprobe, -, -, hsome, hnone⟩ := h.exists_probe ho
  rw [hprobe]
  refine ⟨fun q he => ?_, fun q he => ?_, fun s hs hconcise => ⟨fun hmem => ?_, ?_⟩⟩
  · rcases h.tagAt_error hprobe hsome he with ⟨-, hwordless⟩ | ⟨hother, -⟩
    · exact hwordless
    · cases hother
  · rcases h.tagAt_error hprobe hsome he with ⟨hother, -⟩ | ⟨-, hbehind⟩
    · cases hother
    · exact hbehind
  · obtain ⟨draft, hdraft, hcomplete⟩ := drafted_of_tagAt hs
    rw [hprobe] at hdraft
    obtain ⟨x, hx, hle, hlt⟩ := h.exists_standsAt_of_bracketed hi
      (h.bracketed_of_drafted hsome hnone hdraft hcomplete hconcise) hcomplete
    exact h.not_fault_of_mem_tagsFrom hsome hmem (nameRange_completeTag? hcomplete) hx hle hlt
  · rintro ⟨hwordless, hslash⟩
    obtain ⟨draft, hdraft, hcomplete⟩ := drafted_of_tagAt hs
    rw [hprobe] at hdraft
    obtain ⟨tag, hscanned, hle, hlt⟩ := h.exists_isScanned_of_bracketed hi
      (h.bracketed_of_drafted hsome hnone hdraft hcomplete hconcise) hcomplete hwordless hslash
    exact h.mem_tagsFrom_of_isScanned hscanned hprobe hle hlt hsome hs

/-- Each fault there is, and a tag without one. -/
theorem tagAt_faults_sampleSlashes :
    let d := Document.ofText .marko "<p/>\n_ b\n</a/>\n<_>".toList
    let p : TagSpan := ⟨.selfClosing, ⟨⟨0, 0⟩, ⟨0, 4⟩⟩, some ⟨⟨0, 1⟩, ⟨0, 2⟩⟩, false⟩
    let a : TagSpan := ⟨.closing, ⟨⟨2, 0⟩, ⟨2, 5⟩⟩, some ⟨⟨2, 2⟩, ⟨2, 3⟩⟩, false⟩
    d.text.OnlyLineFeeds ∧ d.scopes = d.grammar.tokenize d.text ∧
      (d.text.clip ⟨3, 1⟩ = ⟨3, 1⟩ ∧ d.tagAt ⟨3, 1⟩ = .error (.missingName ⟨3, 1⟩) ∧
        d.wordlessAt false (d.probe ⟨3, 1⟩) = true) ∧
      (d.text.clip ⟨1, 2⟩ = ⟨1, 2⟩ ∧ d.tagAt ⟨1, 2⟩ = .error (.missingStart ⟨1, 2⟩) ∧
        d.behindWordless (d.probe ⟨1, 2⟩) = true) ∧
      (d.text.clip ⟨2, 4⟩ = ⟨2, 4⟩ ∧ d.tagAt ⟨2, 4⟩ = .ok (some a) ∧
        d.behindSlash (d.probe ⟨2, 4⟩) = true ∧ a ∉ d.tagsFrom .origin) ∧
      d.text.clip ⟨0, 3⟩ = ⟨0, 3⟩ ∧ d.tagAt ⟨0, 3⟩ = .ok (some p) ∧
        d.wordlessAt false (d.probe ⟨0, 3⟩) = false ∧ d.behindSlash (d.probe ⟨0, 3⟩) = false ∧
        p ∈ d.tagsFrom .origin := by
  intro d p a
  have honly : d.text.OnlyLineFeeds := by decide
  obtain ⟨hname, hattribute, hend, hother⟩ : d.text.clip ⟨3, 1⟩ = ⟨3, 1⟩ ∧
      d.text.clip ⟨1, 2⟩ = ⟨1, 2⟩ ∧ d.text.clip ⟨2, 4⟩ = ⟨2, 4⟩ ∧ d.text.clip ⟨0, 3⟩ = ⟨0, 3⟩ := by
    decide +kernel
  obtain ⟨hnameError, hattributeError, hendTag, hotherTag⟩ :
      d.tagAt ⟨3, 1⟩ = .error (.missingName ⟨3, 1⟩) ∧
      d.tagAt ⟨1, 2⟩ = .error (.missingStart ⟨1, 2⟩) ∧ d.tagAt ⟨2, 4⟩ = .ok (some a) ∧
      d.tagAt ⟨0, 3⟩ = .ok (some p) := by decide +kernel
  obtain ⟨hslash, hwordless, hnoSlash⟩ : d.behindSlash (d.probe ⟨2, 4⟩) = true ∧
      d.wordlessAt false (d.probe ⟨0, 3⟩) = false ∧ d.behindSlash (d.probe ⟨0, 3⟩) = false := by
    decide +kernel
  refine ⟨honly, rfl, ⟨hname, hnameError, ?_⟩, ⟨hattribute, hattributeError, ?_⟩,
    ⟨hend, hendTag, hslash, fun hmem => ?_⟩, hother, hotherTag, hwordless, hnoSlash, ?_⟩
  · exact (tagAt_faults d honly rfl ⟨3, 1⟩ hname).1 _ hnameError
  · exact (tagAt_faults d honly rfl ⟨1, 2⟩ hattribute).2.1 _ hattributeError
  · have hnot := (((tagAt_faults d honly rfl ⟨2, 4⟩ hend).2.2 a hendTag rfl).1 hmem).2
    rw [hslash] at hnot
    cases hnot
  · exact ((tagAt_faults d honly rfl ⟨0, 3⟩ hother).2.2 p hotherTag rfl).2 ⟨hwordless, hnoSlash⟩

/-- The search for a tag fails from the name of `<_>` and from the attribute of `_ b`, and from the
bracket behind `</a/>` it finds a tag that no scan does. -/
theorem tagAt_amiss :
    (Document.ofText .marko "<_>".toList).tagAt ⟨0, 1⟩ = .error (.missingName ⟨0, 1⟩) ∧
      (Document.ofText .marko "_ b".toList).tagAt ⟨0, 2⟩ = .error (.missingStart ⟨0, 2⟩) ∧
      let d := Document.ofText .marko "</a/>".toList
      let a : TagSpan := ⟨.closing, ⟨⟨0, 0⟩, ⟨0, 5⟩⟩, some ⟨⟨0, 2⟩, ⟨0, 3⟩⟩, false⟩
      d.tagAt ⟨0, 4⟩ = .ok (some a) ∧ d.tagsFrom .origin = [] := by
  decide +kernel

end Document

end TemplateEditing
