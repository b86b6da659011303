import TemplateEditing.Proofs.Tag.Faults

/-!
# How far a tag that is found reaches

A tag with brackets is read from a bracket in front of a tag up to the end of a tag, and its name is
the first one met in the latter (`Document.Reads`). Both are brackets of one tag, unless the search set
out from a name without a word (`Drawn.exists_reads`). So the tag found at a position is around it, and
its text ends with its bracket and begins with it, except that from the name of an open tag without a
word a close tag may be found that is behind (`Document.tagAt_surrounds`).
-/

namespace TemplateEditing

open Lexer (isTagChar)

namespace Document

/-- The name of an open tag with brackets stands here, and has no character of a word. -/
def opensWordless (d : Document) (p : Position) : Bool :=
  d.tokenAt? p == some ⟨.openTagName, false⟩ && d.wordlessAt false p

/-- A tag is read from the bracket at `start` up to the end of `tag`, with the first name met in the
latter. -/
structure Reads (d : Document) {ink : List InkedChar} (s : TagSpan) (start : Nat)
    (tag : InkedTag ink) (name : OffsetToken) : Prop where
  concise_eq : s.concise = false
  kind_eq : s.kind = tag.endKind.spanKind false
  range_eq : s.range = d.text.rangeOf start tag.stop
  nameRange_eq : s.nameRange = some (d.text.rangeOf name.start name.stop)
  bracket : ∃ side : Lexer.Side, ink[start]? = some ('<', some ⟨side.startKind, false⟩)
  start_le : start ≤ tag.start
  name_mem : name ∈ tokensBetween ink 0 ink.length
  isName : name.token.kind.isName = true
  start_lt_name : tag.start < name.start
  name_lt : name.start < tag.stop
  first : ∀ t ∈ tokensBetween ink 0 ink.length, tag.start < t.start → t.start < name.start →
    t.token.kind.isName = false

namespace Drawn

variable {d : Document} {ink : List InkedChar} (h : d.Drawn ink) {i : Nat} {draft : TagDraft}
  {s : TagSpan}

include h

/-! ## Tags that are read -/

/-- A tag that a scan of the text finds is read from its own bracket. -/
lemma exists_reads_of_mem_tagsFrom (hs : s ∈ d.tagsFrom .origin) (hname : s.nameRange ≠ none) :
    ∃ (tag : InkedTag ink) (name : OffsetToken), d.Reads s tag.start tag name := by
  obtain ⟨tag, front, first, passed, last, back, hscanned, rfl, hrange⟩ := h.exists_scanned hs
  obtain ⟨name, hfind⟩ := Option.ne_none_iff_exists'.1 (find?_ne_none_of_nameRange hname)
  have hkind := List.find?_some hfind
  have hspan := tagBetween_eq (d := d) hscanned hfind fun _ => (rfl : false = false)
  obtain ⟨behind, rfl⟩ := exists_passed_eq hscanned hfind
  have hbetween := between_of_split hscanned.tokens_eq
  obtain ⟨hmem, hle, hle'⟩ := hbetween.passed_mem name List.mem_cons_self
  have hbounds := bounds_of_mem_tokensBetween hmem
  have hlast := bounds_of_mem_tokensBetween hbetween.last_mem
  have hfirst := bounds_of_mem_tokensBetween hbetween.first_mem
  have hstart := hscanned.start_first
  have hstop := hscanned.stop_last
  have hsplit : tokensBetween ink 0 ink.length =
      (front ++ [first]) ++ name :: (behind ++ last :: back) := by
    rw [hscanned.tokens_eq]
    simp only [List.append_assoc, List.cons_append, List.nil_append]
  refine ⟨tag, name, ?_⟩
  exact
    { concise_eq := by rw [hspan]
      kind_eq := by rw [hspan]
      range_eq := hrange
      nameRange_eq := by rw [hspan]; rfl
      bracket := ⟨tag.side, tag.getElem?_start⟩
      start_le := Nat.le_refl _
      name_mem := hmem
      isName := hkind
      start_lt_name := by omega
      name_lt := by omega
      first := by
        intro t ht hlt hlt'
        -- there is nothing between the bracket and the name
        rcases List.mem_cons.1 (hbetween.mem_passed t ht (by omega) (by omega)) with rfl | ht
        · omega
        · have := (stop_le_of_split hsplit).2 t (List.mem_append_left _ ht)
          omega }

/-- From the bracket behind it a tag is read from its own bracket in front, even if no scan meets the
former. -/
lemma exists_reads_of_tagFromEnd {c : Char} {token : Token} (hi : ink[i]? = some (c, some token))
    (hend : token.kind.isEnd = true)
    (hdraft : d.tagFromEnd (d.text.positionOf i) token.kind = .ok draft)
    (hs : d.completeTag? draft = some s) :
    ∃ (tag : InkedTag ink) (name : OffsetToken), d.Reads s tag.start tag name := by
  have hlength : i < ink.length := (List.getElem?_eq_some_iff.1 hi).1
  obtain ⟨tag, hendKind, hstart, hlt, hstop⟩ := h.exists_inkedTag_of_isEnd hi rfl hend
  obtain ⟨hchar, hwidth⟩ := h.positionOf_width hi hend
  obtain ⟨a, ha, haStart, hlast, hnames, hdraft⟩ :=
    h.exists_of_tagFromEnd (Nat.le_of_lt hlength) hdraft
  have hbounds := bounds_of_mem_tokensBetween ha
  obtain ⟨side, -, hbracket⟩ := h.getElem?_of_isStart ha haStart
  -- the bracket gone back to is that of the tag
  have hsame : a.start = tag.start := by
    rcases Nat.lt_trichotomy a.start tag.start with hcase | hcase | hcase
    · obtain ⟨t, ht, htstart, htoken⟩ :=
        exists_start_tokensBetween tag.getElem?_start (Nat.zero_le _) hstart
      have hother := hlast t ht (by omega)
      rw [htoken, tag.side.isStart_startKind] at hother
      cases hother
    · exact hcase
    · exact absurd rfl (tag.fst_ne_of_isStart hbracket hcase (by omega) rfl side.isStart_startKind)
  obtain ⟨r, hr, hnameRange, hconcise, ⟨stop, hstop', hrange, hkind⟩ | ⟨hnone, -⟩⟩ :=
    completeTag?_cases hs
  · obtain ⟨name, hname, hnameKind, rfl, hle, hbefore⟩ := hnames r hr
    have hnameBounds := bounds_of_mem_tokensBetween hname
    rw [hdraft] at hconcise hstop' hrange hkind
    cases hstop'
    simp only [hchar, Option.some.injEq] at hrange
    have hlength' : tag.stop ≤ d.text.length := by
      rw [h.length_eq]
      exact tag.stop_le_length
    -- the name does not go on, for the bracket is no part of it
    have hmem : name ∈ tokensBetween ink 0 ink.length := by
      obtain ⟨name', hname', hstart', htoken, rfl | hcut⟩ :=
        exists_mem_of_mem_tokensBetween (Nat.le_of_lt hlength) hname
      · exact hname'
      · have hkind' : name'.token.kind.isName = true := by rw [htoken]; exact hnameKind
        obtain ⟨c', hc'⟩ := h.getElem?_of_isName hname' hkind' (m := i) (by omega) hcut
        rw [hi] at hc'
        cases hc'
        exact absurd hkind' (TokenKind.not_isName_of_isEnd hend)
    refine ⟨tag, name, ?_⟩
    exact
      { concise_eq := hconcise
        kind_eq := by rw [hkind, hendKind, TokenKind.spanKind_of_isEnd hend]
        range_eq := by
          rw [hrange, ← hwidth, hstop, hsame]
          exact Text.ofEnds_positionOf h.onlyLineFeeds (by omega) hlength'
        nameRange_eq := hnameRange
        bracket := ⟨tag.side, tag.getElem?_start⟩
        start_le := Nat.le_refl _
        name_mem := hmem
        isName := hnameKind
        start_lt_name := by omega
        name_lt := by omega
        first := by
          intro t ht hlt hlt'
          rcases apart_of_mem_tokensBetween ht hmem with rfl | hapart | hapart
          · omega
          · exact hbefore t (mem_tokensBetween_of_stop_le ht (by omega) (Nat.le_of_lt hlength))
              (by omega) hlt'
          · omega }
  · rw [hdraft] at hnone
    cases hnone

/-- From its name a tag is read from the bracket in front of the name. -/
lemma exists_reads_of_tagFromName {c : Char} {token : Token} (hi : ink[i]? = some (c, some token))
    (hkind : token.kind.isName = true) (hconcise : token.concise = false)
    (hdraft : d.tagFromName (d.text.positionOf i) token = .ok draft)
    (hs : d.completeTag? draft = some s) :
    ∃ (start : Nat) (tag : InkedTag ink) (name : OffsetToken) (side : Lexer.Side),
      d.Reads s start tag name ∧ token = ⟨side.nameKind, false⟩ ∧
        ink[start]? = some ('<', some ⟨side.startKind, false⟩) := by
  have hlength : i < ink.length := (List.getElem?_eq_some_iff.1 hi).1
  obtain ⟨a, ha, name, hname, haStart, hnameKind, hlast, hbefore, rfl⟩ :=
    h.exists_of_tagFromName (Nat.le_of_lt hlength) hconcise hdraft
  have hbounds := bounds_of_mem_tokensBetween ha
  have hnameBounds := bounds_of_mem_tokensBetween hname
  obtain ⟨_, -, hbracket⟩ := h.getElem?_of_isStart ha haStart
  obtain ⟨n, start, side, hstart, hn, rfl, htoken, hle, hlt⟩ := h.exists_inkedName hi hkind hconcise
  have hpos := Site.length_startInk_pos side
  -- the bracket gone back to is that in front of the name
  have hsame : a.start = start := by
    rcases Nat.lt_trichotomy a.start start with hcase | hcase | hcase
    · obtain ⟨t, ht, htstart, htoken'⟩ :=
        exists_start_tokensBetween hstart (Nat.zero_le _) (j := i) (by omega)
      have hother := hlast t ht (by omega)
      rw [htoken', side.isStart_startKind] at hother
      cases hother
    · exact hcase
    · have houtside := n.not_mem_of_bracket hbracket
      cases side with
      | opening =>
        have : n.start = start + 1 := hn
        omega
      | closing =>
        have : n.start = start + 2 := hn
        have hslash := h.getElem?_slash hstart
        rw [show start + 1 = a.start by omega, hbracket] at hslash
        cases hslash
  subst hsame
  obtain ⟨tag, ⟨hstart_le, hinside, hbehind⟩, -, hconcise', hspan, hrange, hnameRange⟩ :=
    h.exists_inkedTag_of_completeTag? hstart hname hnameKind hs
  refine ⟨a.start, tag, name, side, ?_, htoken, hstart⟩
  exact
    { concise_eq := hconcise'
      kind_eq := hspan
      range_eq := hrange
      nameRange_eq := hnameRange
      bracket := ⟨side, hstart⟩
      start_le := hstart_le
      name_mem := ((mem_tokensBetween_bracket hstart).1 hname).1
      isName := hnameKind
      start_lt_name := hinside
      name_lt := by omega
      first := fun t ht hlt hlt' =>
        hbefore t ((mem_tokensBetween_bracket hstart).2 ⟨ht, by omega⟩) hlt' }

/-- A tag that is found is read from its own bracket in front, or from that in front of a name without
a word at which the search set out. -/
lemma exists_reads {p : Position} (hi : i ≤ ink.length) (hp : d.probe p = d.text.positionOf i)
    (hsome : ∀ token, d.tokenAt? (d.text.positionOf i) = some token →
      ∃ c, c ≠ '\n' ∧ ink[i]? = some (c, some token))
    (hnone : d.tokenAt? (d.text.positionOf i) = none →
      ∀ c token, ink[i]? = some (c, some token) → token.kind.isEnd = false)
    (hs : d.tagAt p = .ok (some s)) (hconcise : s.concise = false) :
    ∃ (start : Nat) (tag : InkedTag ink) (name : OffsetToken), d.Reads s start tag name ∧
      if d.wordlessAt false (d.text.positionOf i) then
        ∃ side : Lexer.Side, d.tokenAt? (d.text.positionOf i) = some ⟨side.nameKind, false⟩ ∧
          ink[start]? = some ('<', some ⟨side.startKind, false⟩)
      else start = tag.start := by
  obtain ⟨draft, hdraft, hcomplete⟩ := drafted_of_tagAt hs
  rw [hp] at hdraft
  have hbracketed := h.bracketed_of_drafted hsome hnone hdraft hcomplete hconcise
  -- a tag that is scanned is found as it is scanned
  have hscan : (∃ tag : InkedTag ink, tag.IsScanned ∧ tag.start ≤ i ∧ i < tag.stop) →
      ∃ (start : Nat) (tag : InkedTag ink) (name : OffsetToken), d.Reads s start tag name ∧
        start = tag.start := by
    rintro ⟨tag, hscanned, hle, hlt⟩
    obtain ⟨tag, name, hreads⟩ := h.exists_reads_of_mem_tagsFrom
      (h.mem_tagsFrom_of_isScanned hscanned hp hle hlt hsome hs) (nameRange_completeTag? hcomplete)
    exact ⟨_, tag, name, hreads, rfl⟩
  split
  · next hwordless =>
    obtain ⟨token, htoken, hkind⟩ := (Option.any_eq_true _ _).1 (Bool.and_eq_true_iff.1 hwordless).1
    have hkind := (Bool.and_eq_true_iff.1 hkind).1
    obtain ⟨c, -, hx⟩ := hsome token htoken
    cases hbracketed with
    | walk hother hwalk =>
      rw [(hother c token hx).2] at hkind
      cases hkind
    | fromEnd hx' hend hdraft =>
      rw [hx] at hx'
      cases hx'
      exact absurd hkind (TokenKind.not_isName_of_isEnd hend)
    | fromStart hx' hstart hdraft =>
      rw [hx] at hx'
      cases hx'
      obtain ⟨-, side, hside, -⟩ := h.exists_of_isStart hx hstart
      rw [hside, side.isName_startKind] at hkind
      cases hkind
    | fromName hx' hkind' hconcise' hdraft =>
      rw [hx] at hx'
      cases hx'
      obtain ⟨start, tag, name, side, hreads, rfl, hbracket⟩ :=
        h.exists_reads_of_tagFromName hx hkind hconcise' hdraft hcomplete
      exact ⟨start, tag, name, hreads, side, htoken, hbracket⟩
  · next hwordless =>
    rw [Bool.not_eq_true] at hwordless
    cases hbracketed with
    | walk hother hwalk => exact hscan (h.exists_isScanned_of_walkBack hi hother hwalk hcomplete)
    | fromEnd hx hend hdraft =>
      obtain ⟨tag, name, hreads⟩ := h.exists_reads_of_tagFromEnd hx hend hdraft hcomplete
      exact ⟨_, tag, name, hreads, rfl⟩
    | fromStart hx hstart hdraft =>
      subst hdraft
      exact hscan (h.exists_isScanned_of_tagFromStart hx hstart hcomplete)
    | fromName hx hkind hconcise' hdraft =>
      exact hscan (h.exists_isScanned_of_tagFromName hx hkind hconcise' hwordless hdraft hcomplete)

/-! ## The brackets of a tag that is read -/

/-- The character behind the bracket in front of a tag tells which side it is of. -/
lemma fst_eq_slash_iff {start : Nat} {side : Lexer.Side} {x : InkedChar}
    (hbracket : ink[start]? = some ('<', some ⟨side.startKind, false⟩))
    (hx : ink[start + 1]? = some x) : x.1 = '/' ↔ side = .closing := by
  cases side with
  | closing =>
    rw [h.getElem?_slash hbracket] at hx
    cases hx
    exact iff_of_true rfl rfl
  | opening =>
    obtain ⟨q, hwalk, hq⟩ := h.walk
    obtain ⟨a, b, hink, rfl⟩ := exists_append_of_getElem? hbracket
    obtain ⟨name, rest, rfl, hne, hname, -⟩ := Site.exists_name_of_openTagStart hwalk hq hink
    rw [hink, List.getElem?_append_right (Nat.le_add_right _ 1), Nat.add_sub_cancel_left] at hx
    cases name with
    | nil => exact absurd rfl hne
    | cons y name =>
      obtain rfl : y = x := Option.some.inj hx
      have hslash := Lexer.isTagChar_ne (hname y List.mem_cons_self).1
        (show isTagChar '/' = false by decide)
      exact iff_of_false hslash (by decide)

/-- What a tag that is read ends with, and what it begins with. -/
lemma exists_delimiters {start : Nat} {tag : InkedTag ink} {name : OffsetToken}
    (hreads : d.Reads s start tag name) {side : Lexer.Side}
    (hbracket : ink[start]? = some ('<', some ⟨side.startKind, false⟩)) :
    ∃ first last, s.delimiters? = some (first, last) ∧ last <:+ d.text.slice start tag.stop ∧
      (s.kind = .opening → ¬ ['/', '>'] <:+ d.text.slice start tag.stop) ∧
      (first <+: d.text.slice start tag.stop ↔ (s.kind = .closing → side = .closing)) := by
  have hlt := tag.start_lt_length_front
  have hle := hreads.start_le
  have hdrop := tag.drop_front (by omega) hbracket
  rw [h.text_eq, tag.slice_stop hle, TagSpan.delimiters?, hreads.concise_eq,
    if_neg Bool.false_ne_true, hreads.kind_eq]
  rcases tag.endKind_cases with hend | hend | hend
  · have hslash := tag.not_suffix_of_openTagEnd hend (m := start) (by omega)
    rw [hend]
    refine ⟨_, _, rfl, List.suffix_append _ _, fun _ => hslash, iff_of_true ?_ fun hkind => ?_⟩
    · rw [hdrop]
      exact ⟨_, rfl⟩
    · cases hkind
  · rw [hend]
    refine ⟨_, _, rfl, List.suffix_append _ _, fun hkind => ?_, iff_of_true ?_ fun hkind => ?_⟩
    · cases hkind
    · rw [hdrop]
      exact ⟨_, rfl⟩
    · cases hkind
  · -- there is a character between the bracket in front and that behind
    have hlt' : start + 1 < tag.front.length := by
      have htwo : tag.side.startInk.length = 2 := by
        rw [tag.side_eq_of_closeTagEnd hend]
        rfl
      simp only [InkedTag.front, InkedTag.start, List.length_append] at hle ⊢
      omega
    obtain ⟨x, hx⟩ : ∃ x, ink[start + 1]? = some x :=
      ⟨_, (tag.getElem?_front hlt').symm.trans (List.getElem?_eq_getElem hlt')⟩
    rw [hend]
    refine ⟨_, _, rfl, List.suffix_append _ _, fun hkind => ?_, ?_⟩
    · cases hkind
    · rw [hdrop, tag.drop_front hlt' hx, ← h.fst_eq_slash_iff hbracket hx]
      simp [textOf_cons, TokenKind.spanKind, eq_comm]

end Drawn

/-- **Tags are found around the caret.** The tag found at a position contains it, and if it has
brackets, its text ends with them: that of an open tag not like that of one that closes itself. It also
begins with them, except for a close tag that is found from the name of an open one without a word. -/
theorem tagAt_surrounds (d : Document) (honly : d.text.OnlyLineFeeds)
    (hscopes : d.scopes = d.grammar.tokenize d.text) (p : Position) (hp : d.text.clip p = p)
    (s : TagSpan) (hs : d.tagAt p = .ok (some s)) :
    s.range.touches p = true ∧
      (s.concise = false → ∃ first last, s.delimiters? = some (first, last) ∧
        last <:+ d.text.inRange s.range ∧
        (s.kind = .opening → ¬ ['/', '>'] <:+ d.text.inRange s.range) ∧
        (first <+: d.text.inRange s.range ↔
          ¬ (s.kind = .closing ∧ d.opensWordless (d.probe p) = true))) := by
  obtain ⟨ink, h⟩ := exists_drawn honly hscopes
  have hlength := h.length_eq
  obtain ⟨o, ho, rfl⟩ : ∃ o ≤ d.text.length, p = d.text.positionOf o :=
    ⟨d.text.offsetOf p, d.text.offsetOf_le_length p, by rw [Text.positionOf_offsetOf honly, hp]⟩
  refine ⟨?_, fun hconcise => ?_⟩
  · -- a range whose ends are around an offset contains its position
    have htouches : ∀ {a b : Nat}, s.range = d.text.rangeOf a b → a ≤ o → o ≤ b →
        b ≤ d.text.length → s.range.touches (d.text.positionOf o) = true := by
      intro a b hrange hle hle' hb
      rw [hrange, Range.touches, Bool.and_eq_true, decide_eq_true_eq, decide_eq_true_eq]
      exact ⟨(Text.positionOf_le_iff honly (by omega) ho).2 hle,
        (Text.positionOf_le_iff honly ho hb).2 hle'⟩
    cases h.around_of_tagAt ho hs with
    | concise hconcise hkind hrange hlt hb hle hle' => exact htouches hrange hle hle' hb
    | brackets hx hle hle' => exact htouches hx.range_eq hle hle' hx.stop_le
  · obtain ⟨i, hi, hprobe, -, -, hsome, hnone⟩ := h.exists_probe ho
    obtain ⟨start, tag, name, hreads, hcases⟩ := h.exists_reads hi hprobe hsome hnone hs hconcise
    have hstop := tag.stop_le_length
    have hstart := tag.start_lt_length_front
    have hfront := tag.stop_eq_front
    have hle := hreads.start_le
    rw [hreads.range_eq, Text.rangeOf, Text.inRange_positionOf honly (by omega) (by omega), hprobe]
    obtain ⟨side, hbracket⟩ := hreads.bracket
    obtain ⟨first, last, hdelimiters, hlast, hopening, hfirst⟩ := h.exists_delimiters hreads hbracket
    refine ⟨first, last, hdelimiters, hlast, hopening, hfirst.trans ?_⟩
    rw [not_and, Bool.not_eq_true]
    refine forall_congr' fun hclosing => ?_
    split at hcases
    · next hwordless =>
      obtain ⟨side', htoken, hbracket'⟩ := hcases
      rw [hbracket] at hbracket'
      rw [opensWordless, htoken, hwordless]
      revert hbracket'
      cases side <;> cases side' <;> decide
    · next hwordless =>
      -- the bracket is that of the close tag
      subst hcases
      have hside := tag.side_eq_of_spanKind (hreads.kind_eq.symm.trans hclosing)
      rw [tag.getElem?_start, hside] at hbracket
      rw [opensWordless, Bool.eq_false_iff.2 hwordless, Bool.and_false]
      refine iff_of_true ?_ rfl
      revert hbracket
      cases side <;> decide

/-- From the empty row in a string, and from a name without a word. -/
theorem tagAt_surrounds_sampleQuoted :
    let d := Document.ofText .marko "<p a=\"\n\n\"><_></p>".toList
    let p : TagSpan := ⟨.opening, ⟨⟨0, 0⟩, ⟨2, 2⟩⟩, some ⟨⟨0, 1⟩, ⟨0, 2⟩⟩, false⟩
    let q : TagSpan := ⟨.closing, ⟨⟨2, 2⟩, ⟨2, 9⟩⟩, some ⟨⟨2, 7⟩, ⟨2, 8⟩⟩, false⟩
    d.text.OnlyLineFeeds ∧ d.scopes = d.grammar.tokenize d.text ∧
      (d.text.clip ⟨1, 0⟩ = ⟨1, 0⟩ ∧ d.tagAt ⟨1, 0⟩ = .ok (some p) ∧
        p.range.touches ⟨1, 0⟩ = true ∧ ['<'] <+: d.text.inRange p.range ∧
        ['>'] <:+ d.text.inRange p.range ∧ ¬ ['/', '>'] <:+ d.text.inRange p.range) ∧
      d.text.clip ⟨2, 3⟩ = ⟨2, 3⟩ ∧ d.tagAt ⟨2, 3⟩ = .ok (some q) ∧
        d.opensWordless (d.probe ⟨2, 3⟩) = true ∧ q.range.touches ⟨2, 3⟩ = true ∧
        ['>'] <:+ d.text.inRange q.range ∧ ¬ ['<', '/'] <+: d.text.inRange q.range := by
  intro d p q
  have honly : d.text.OnlyLineFeeds := by decide
  obtain ⟨hclip, hp⟩ : d.text.clip ⟨1, 0⟩ = ⟨1, 0⟩ ∧ d.tagAt ⟨1, 0⟩ = .ok (some p) := by
    decide +kernel
  obtain ⟨hclip', hq, hwordless⟩ : d.text.clip ⟨2, 3⟩ = ⟨2, 3⟩ ∧
      d.tagAt ⟨2, 3⟩ = .ok (some q) ∧ d.opensWordless (d.probe ⟨2, 3⟩) = true := by decide +kernel
  obtain ⟨htouches, hbrackets⟩ := tagAt_surrounds d honly rfl ⟨1, 0⟩ hclip p hp
  obtain ⟨first, last, hdelimiters, hlast, hopening, hfirst⟩ := hbrackets rfl
  obtain ⟨rfl, rfl⟩ : ['<'] = first ∧ ['>'] = last := Prod.mk.inj (Option.some.inj hdelimiters)
  obtain ⟨htouches', hbrackets'⟩ := tagAt_surrounds d honly rfl ⟨2, 3⟩ hclip' q hq
  obtain ⟨first, last, hdelimiters', hlast', -, hfirst'⟩ := hbrackets' rfl
  obtain ⟨rfl, rfl⟩ : ['<', '/'] = first ∧ ['>'] = last :=
    Prod.mk.inj (Option.some.inj hdelimiters')
  refine ⟨honly, rfl, ⟨hclip, hp, htouches, hfirst.2 ?_, hlast, hopening rfl⟩, hclip', hq, hwordless,
    htouches', hlast', fun hprefix => hfirst'.1 hprefix ⟨rfl, hwordless⟩⟩
  rintro ⟨hkind, -⟩
  cases hkind

/-- From the name of `<_>` a close tag is found whose text does not begin like one. -/
theorem tagAt_misread :
    let d := Document.ofText .marko "<b><_></b>".toList
    let s : TagSpan := ⟨.closing, ⟨⟨0, 3⟩, ⟨0, 10⟩⟩, some ⟨⟨0, 8⟩, ⟨0, 9⟩⟩, false⟩
    d.tagAt ⟨0, 4⟩ = .ok (some s) ∧ s.delimiters? = some (['<', '/'], ['>']) ∧
      ¬ ['<', '/'] <+: d.text.inRange s.range := by
  decide +kernel

end Document

end TemplateEditing
