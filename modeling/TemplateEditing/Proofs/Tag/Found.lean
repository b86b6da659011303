import TemplateEditing.Proofs.Buffer.Run
import TemplateEditing.Proofs.Tag.Located

/-!
# The tag at a caret

The search for the tag around a position comes to a tag that stands around it: between brackets
(`TagSpan.StandsAt`), or without them from its name to the end of its row (`around_of_tagAt`). Each
of the five ways to search is looked at by offsets in the ink of the text. An open tag without a
word in its name is taken together with the tag behind it, and is the only one that is misread.
-/

namespace TemplateEditing

open List

variable {token : Token} {c : Char}

open Lexer (isTagChar)

namespace Pattern

lemma tagToken_ne_zero (h : isWordChar c = true) (rest : Text) :
    tagToken (c :: rest) ≠ 0 := by
  rw [tagToken_cons, if_neg (isWordChar_ne h (by decide)), if_neg (isWordChar_ne h (by decide)),
    if_neg (isWordChar_ne h (by decide)), takeWhile_cons_of_pos h]
  simp

/-- What a scan finds starts at a place of the text. -/
lemma exists_of_mem_scan {pattern : Pattern} {p : Position} {t : Text} {hit : Hit}
    (h : hit ∈ pattern.scan p t) : ∃ k, hit.range.start = p.pastText (t.take k) := by
  fun_induction scan pattern p t with
  | case1 => cases h
  | case2 p c rest taken hempty ih =>
    obtain ⟨k, hk⟩ := ih h
    exact ⟨k + 1, hk⟩
  | case3 p c rest taken hempty stop ih =>
    rcases mem_cons.1 h with rfl | h
    · exact ⟨0, rfl⟩
    · obtain ⟨k, hk⟩ := ih h
      have hpos : 0 < taken.length := by
        rw [length_pos_iff]
        intro hnil
        rw [hnil] at hempty
        exact hempty rfl
      refine ⟨taken.length + k, hk.trans ?_⟩
      have htake : (c :: rest).take (taken.length + k) =
          taken ++ (rest.drop (taken.length - 1)).take k := by
        rw [take_add]
        congr 1
        · exact (prefix_iff_eq_take.1 (List.take_prefix _ _)).symm
        · congr 1
          obtain ⟨n, hn⟩ := Nat.exists_eq_add_of_lt hpos
          rw [show taken.length = n + 1 by omega]
          rfl
      rw [htake]
      exact (foldl_append ..).symm

end Pattern

/-- The first character of a word in a name is where a scan over the name first stops. -/
lemma exists_firstWord_tokensBetween {ink lead u v rest : List InkedChar} {y : InkedChar}
    {i j : Nat} (hink : ink = lead ++ (u ++ y :: v) ++ rest)
    (hlead : ∀ x ∈ lead.getLast?, Pattern.isWordChar x.1 = false)
    (hu : ∀ x ∈ u, Pattern.isWordChar x.1 = false) (hy : Pattern.isWordChar y.1 = true)
    (hpart : y.2 = some token) (hi : i ≤ lead.length) (hj : lead.length + u.length < j) :
    ∃ t ∈ tokensBetween ink i j, t.start = lead.length + u.length ∧ t.token = token := by
  have hsplit : ink = (lead ++ u) ++ y :: (v ++ rest) := by
    rw [hink]
    simp only [append_assoc, cons_append]
  have hx : ink[lead.length + u.length]? = some y := by
    rw [hsplit, getElem?_append_right (by simp), length_append, Nat.sub_self]
    rfl
  refine exists_mem_tokensBetween hx hpart (Pattern.tagToken_ne_zero hy) ?_ (by omega) hj
  intro z _ hz
  apply Pattern.joins_of_word_right _ hy
  have hlast : (lead ++ u).getLast? = some z := by
    rw [getLast?_eq_getElem?, ← hz, hsplit, length_append]
    exact (getElem?_append_left (by rw [length_append]; omega)).symm
  rw [getLast?_append, Option.or_eq_some_iff] at hlast
  rcases hlast with hlast | ⟨-, hlast⟩
  · exact hu z (mem_of_getLast? hlast)
  · exact hlead z hlast

/-- A name with a word in it, cut at the first character of the word. -/
lemma exists_of_any_isWordChar {name : List InkedChar}
    (hword : (textOf name).any Pattern.isWordChar = true) :
    ∃ u y v, name = u ++ y :: v ∧ Pattern.isWordChar y.1 = true ∧
      ∀ x ∈ u, Pattern.isWordChar x.1 = false := by
  obtain ⟨c, hc, hword⟩ := any_eq_true.1 hword
  obtain ⟨x, hx, rfl⟩ := mem_map.1 hc
  obtain ⟨y, hy⟩ := Option.isSome_iff_exists.1
    (find?_isSome (p := fun x : InkedChar => Pattern.isWordChar x.1) |>.2 ⟨x, hx, hword⟩)
  obtain ⟨hfirst, u, v, rfl, hu⟩ := find?_eq_some_iff_append.1 hy
  exact ⟨u, y, v, rfl, hfirst, fun x hx => (Bool.not_eq_true' _).mp (hu x hx)⟩

/-- A name with a character of a word in it is met by each scan over it. -/
lemma exists_word_tokensBetween {ink lead name rest : List InkedChar} {i j : Nat}
    (hink : ink = lead ++ name ++ rest)
    (hlead : ∀ x ∈ lead.getLast?, Pattern.isWordChar x.1 = false)
    (hname : ∀ x ∈ name, x.2 = some token) (hword : (textOf name).any Pattern.isWordChar = true)
    (hi : i ≤ lead.length) (hj : lead.length + name.length ≤ j) :
    ∃ t ∈ tokensBetween ink i j, lead.length ≤ t.start ∧ t.start < lead.length + name.length ∧
      t.token = token := by
  obtain ⟨u, y, v, rfl, hy, hu⟩ := exists_of_any_isWordChar hword
  rw [length_append, length_cons] at hj ⊢
  obtain ⟨t, ht, hstart, htoken⟩ := exists_firstWord_tokensBetween hink hlead hu hy
    (hname y (mem_append_right _ mem_cons_self)) hi (show _ < j by omega)
  exact ⟨t, ht, by omega, by omega, htoken⟩

lemma exists_of_map_eq_append {α β : Type} {f : α → β} {l : List α} {a b : List β} {x : β}
    (h : l.map f = a ++ x :: b) :
    ∃ a' x' b', l = a' ++ x' :: b' ∧ a'.map f = a ∧ f x' = x ∧ b'.map f = b := by
  obtain ⟨a', l', rfl, ha, hl⟩ := map_eq_append_iff.1 h
  obtain ⟨x', b', rfl, hx, hb⟩ := map_eq_cons_iff.1 hl
  exact ⟨a', x', b', rfl, ha, hx, hb⟩

lemma TokenKind.spanKind_of_isEnd {kind : TokenKind} (h : kind.isEnd = true) :
    kind.spanKind false = if kind == .selfClosingEnd then .selfClosing
      else if kind != .closeTagEnd then .opening else .closing := by
  revert h
  cases kind <;> decide

/-- The kind of a tag may be read off its name. -/
lemma InkedTag.spanKind_nameKind {ink : List InkedChar} (tag : InkedTag ink) :
    tag.endKind.spanKind (tag.side.nameKind == .openTagName) = tag.endKind.spanKind false := by
  rcases tag.endKind_cases with hcase | hcase | hcase
  · rw [hcase]
    rfl
  · rw [hcase]
    rfl
  · rw [hcase, tag.side_eq_of_closeTagEnd hcase]
    rfl

namespace Document

namespace Inked

variable {d : Document} {ink : List InkedChar} (h : d.Inked ink) {i : Nat}
  {passed rest : List TokenHit}

include h

/-- A token is told by the place where it is found. -/
lemma start_eq_of_hit {t t' : OffsetToken} (ht : t ∈ tokensBetween ink 0 i)
    (ht' : t' ∈ tokensBetween ink 0 i) (hhit : t.hit d.text = t'.hit d.text) :
    t.start = t'.start := by
  have hbounds := bounds_of_mem_tokensBetween ht
  have hbounds' := bounds_of_mem_tokensBetween ht'
  have hlength := h.length_eq
  exact Text.positionOf_inj h.onlyLineFeeds (by omega) (by omega)
    (congrArg (fun hit => hit.range.start) hhit)

/-- What a search backwards has come to, by offsets. -/
lemma exists_of_tokensBefore {first : TokenHit} (hi : i ≤ ink.length)
    (hsplit : d.tokensBefore (d.text.positionOf i) = passed ++ first :: rest) :
    ∃ t ∈ tokensBetween ink 0 i, t.hit d.text = first ∧
      (∀ found ∈ passed, ∃ t' ∈ tokensBetween ink 0 i, t'.hit d.text = found ∧ t.stop ≤ t'.start) ∧
      ∀ t' ∈ tokensBetween ink 0 i, t.start < t'.start → t'.hit d.text ∈ passed := by
  rw [h.tokensBefore_positionOf hi, reverse_eq_iff] at hsplit
  simp only [reverse_append, reverse_cons, append_assoc, cons_append,
    nil_append] at hsplit
  obtain ⟨before, t, behind, htokens, -, hfirst, hpassed⟩ := exists_of_map_eq_append hsplit
  have hmem : t ∈ tokensBetween ink 0 i := by
    rw [htokens]
    exact mem_append_right _ mem_cons_self
  -- backwards, what is passed stands behind what is come to
  have hsorted := stop_le_of_split htokens
  refine ⟨t, hmem, hfirst, ?_, ?_⟩
  · intro found hfound
    rw [← mem_reverse, ← hpassed] at hfound
    obtain ⟨t', ht', rfl⟩ := mem_map.1 hfound
    refine ⟨t', ?_, rfl, hsorted.2 t' ht'⟩
    rw [htokens]
    exact mem_append_right _ (mem_cons_of_mem _ ht')
  · intro t' ht' hlt
    have hbounds := bounds_of_mem_tokensBetween ht'
    rw [htokens, mem_append, mem_cons] at ht'
    rcases ht' with ht' | rfl | ht'
    · have := hsorted.1 t' ht'
      omega
    · omega
    · rw [← mem_reverse, ← hpassed]
      exact mem_map_of_mem ht'

/-- What a search forwards has come to, by offsets. -/
lemma exists_of_tokensFrom {last : TokenHit} (hi : i ≤ ink.length)
    (hsplit : d.tokensFrom (d.text.positionOf i) = passed ++ last :: rest) :
    ∃ t ∈ tokensBetween ink i ink.length, t.hit d.text = last ∧
      ∀ t' ∈ tokensBetween ink i ink.length, t'.start < t.start → t'.hit d.text ∈ passed := by
  rw [h.tokensFrom_positionOf hi] at hsplit
  obtain ⟨before, t, behind, htokens, rfl, hlast, -⟩ := exists_of_map_eq_append hsplit
  have hmem : t ∈ tokensBetween ink i ink.length := by
    rw [htokens]
    exact mem_append_right _ mem_cons_self
  have hsorted := stop_le_of_split htokens
  refine ⟨t, hmem, hlast, ?_⟩
  intro t' ht' hlt
  have hbounds := bounds_of_mem_tokensBetween hmem
  rw [htokens, mem_append, mem_cons] at ht'
  rcases ht' with ht' | rfl | ht'
  · exact mem_map_of_mem ht'
  · omega
  · have := hsorted.2 t' ht'
    omega

/-- A caret is looked up at the character behind it, or at the one before it if that is the last of
its row. -/
lemma probe_cases (hi : i ≤ ink.length) :
    (d.text.lineLength (d.text.positionOf i).row = 0 ∧
      d.probe (d.text.positionOf i) = d.text.positionOf i) ∨
    ∃ m c part, ink[m]? = some (c, part) ∧ c ≠ '\n' ∧ (m = i ∨ m + 1 = i) ∧
      d.probe (d.text.positionOf i) = d.text.positionOf m := by
  have honly := h.onlyLineFeeds
  rw [← h.length_eq] at hi
  unfold probe
  dsimp only
  split
  · -- behind the last character of a row that one is looked up
    next hend =>
    right
    cases i with
    | zero =>
      rw [Text.positionOf_zero honly] at hend
      have : d.text.lineLength Position.origin.row ≤ 0 := hend.2
      omega
    | succ m =>
      have hc : d.text[m]? = some d.text[m] := getElem?_eq_getElem hi
      -- the column is past zero, so that no line feed stands before
      have hne : d.text[m] ≠ '\n' := by
        intro heq
        rw [heq] at hc
        have := Text.column_positionOf_succ honly hc
        omega
      obtain ⟨part, hx⟩ := h.exists_getElem?_ink hc
      have hlt := Text.column_lt_lineLength honly hc hne
      rw [Text.positionOf_succ honly hc hne] at hend ⊢
      refine ⟨m, _, part, hx, hne, .inr rfl, ?_⟩
      have hlength : d.text.lineLength (d.text.positionOf m).row ≤
        (d.text.positionOf m).column + 1 := hend.2
      show (⟨(d.text.positionOf m).row, d.text.lineLength (d.text.positionOf m).row - 1⟩ : Position)
        = d.text.positionOf m
      rw [show d.text.lineLength (d.text.positionOf m).row - 1 = (d.text.positionOf m).column by
        omega]
  · next hinside =>
    rcases Nat.eq_zero_or_pos (d.text.lineLength (d.text.positionOf i).row) with hzero | hpos
    · exact .inl ⟨hzero, rfl⟩
    · obtain ⟨c, hc, hne⟩ := Text.exists_char_of_column_lt honly hi (by omega)
      obtain ⟨part, hx⟩ := h.exists_getElem?_ink hc
      exact .inr ⟨i, c, part, hx, hne, .inl rfl, rfl⟩

end Inked

end Document

namespace Document.Drawn

variable {d : Document} {ink : List InkedChar} (h : d.Drawn ink) {s : TagSpan} {draft : TagDraft}
  {i : Nat}

include h

/-- The columns of a bracket behind a tag. -/
lemma positionOf_width (hi : ink[i]? = some (c, some token)) (hend : token.kind.isEnd = true) :
    d.text.charAt? (d.text.positionOf i) = some c ∧
      d.text.positionOf (i + if c = '/' then 2 else 1) =
        (d.text.positionOf i).right (if c = '/' then 2 else 1) := by
  have hne : c ≠ '\n' := by
    obtain ⟨q, hwalk, -⟩ := h.walk
    obtain ⟨a, b, hink, -⟩ := exists_append_of_getElem? hi
    have hc : c = '/' ∨ c = '>' := Site.fst_of_isEnd hwalk hink rfl hend
    rcases hc with rfl | rfl <;> decide
  refine ⟨Text.charAt?_positionOf h.onlyLineFeeds (h.getElem?_text hi) hne, ?_⟩
  apply Text.positionOf_add h.onlyLineFeeds
  intro k hk
  rcases Nat.eq_zero_or_pos k with rfl | hpos
  · exact ⟨c, h.getElem?_text hi, hne⟩
  · -- only a slash has something behind it
    split at hk
    · next hslash =>
      subst hslash
      obtain rfl : k = 1 := by omega
      exact ⟨'>', h.getElem?_text (h.getElem?_of_slash hi hend), by decide⟩
    · omega

/-- A draft without an end is completed by the first end behind its name. -/
lemma exists_end {name : OffsetToken} (hlength : name.stop ≤ ink.length)
    (hname : draft.name = some (name.hit d.text).range) (hstop : draft.stop = none)
    (hself : draft.selfClosing = false) (hs : d.completeTag? draft = some s) :
    ∃ e ∈ tokensBetween ink name.stop ink.length, e.token.kind.isEnd = true ∧
      (∀ m token, name.stop ≤ m → m < e.start → ink[m]? = some ('<', some token) →
        token.kind.isStart = false) ∧
      s.range = .ofEnds draft.start (d.text.positionOf e.stop) ∧
      s.nameRange = some (d.text.rangeOf name.start name.stop) ∧ s.concise = draft.concise ∧
      s.kind = e.token.kind.spanKind draft.opening := by
  obtain ⟨r, hr, hrange, hconcise, ⟨stop, hsome, -⟩ |
    ⟨-, passed, last, rest, htokens, hend, hpassed, hspan, hkind⟩⟩ := completeTag?_cases hs
  · rw [hstop] at hsome
    cases hsome
  · rw [hname] at hr
    obtain rfl := Option.some.inj hr
    have hfrom : d.tokensFrom (d.text.positionOf name.stop) = passed ++ last :: rest := htokens
    obtain ⟨e, he, rfl, hbefore⟩ := h.exists_of_tokensFrom hlength hfrom
    have hbounds := bounds_of_mem_tokensBetween he
    refine ⟨e, he, hend, ?_, hspan, hrange, hconcise, hkind hself⟩
    intro m token hm hm' hx
    obtain ⟨t, ht, rfl, rfl⟩ :=
      exists_start_tokensBetween hx hm (j := ink.length) (by omega)
    exact hpassed _ (hbefore t ht hm')

/-- What a search from the bracket behind a tag goes back to: the last bracket in front of one, and the
first name between the two. -/
lemma exists_of_tagFromEnd {kind : TokenKind} (hi : i ≤ ink.length)
    (hdraft : d.tagFromEnd (d.text.positionOf i) kind = .ok draft) :
    ∃ a ∈ tokensBetween ink 0 i, a.token.kind.isStart = true ∧
      (∀ t ∈ tokensBetween ink 0 i, a.start < t.start → t.token.kind.isStart = false) ∧
      (∀ r, draft.name = some r → ∃ name ∈ tokensBetween ink 0 i, name.token.kind.isName = true ∧
        (name.hit d.text).range = r ∧ a.stop ≤ name.start ∧
        ∀ t ∈ tokensBetween ink 0 i, a.start < t.start → t.start < name.start →
          t.token.kind.isName = false) ∧
      draft =
        { start := d.text.positionOf a.start
          name := draft.name
          stop := some ((d.text.positionOf i).right
            (if d.text.charAt? (d.text.positionOf i) = some '/' then 2 else 1))
          opening := kind != .closeTagEnd
          selfClosing := kind == .selfClosingEnd } := by
  unfold tagFromEnd at hdraft
  dsimp only at hdraft
  split at hdraft
  · cases hdraft
  next first hfirst =>
  obtain ⟨hstart, passed, rest, hsplit, hpassed⟩ := find?_eq_some_iff_append.1 hfirst
  have hinside : (d.tokensBefore (d.text.positionOf i)).takeWhile (!·.kind.isStart) = passed := by
    rw [hsplit, takeWhile_append_of_pos hpassed, takeWhile_cons_of_neg (by simp [hstart]),
      append_nil]
  obtain ⟨a, ha, rfl, hbehind, hlast⟩ := h.exists_of_tokensBefore hi hsplit
  rw [hinside] at hdraft
  obtain rfl := Except.ok.inj hdraft
  refine ⟨a, ha, hstart, fun t ht hlt => (Bool.not_eq_true' _).mp (hpassed _ (hlast t ht hlt)), ?_,
    rfl⟩
  intro r hr
  obtain ⟨found, hfound, rfl⟩ := Option.map_eq_some_iff.1 hr
  obtain ⟨hnameKind, before, behind, hreverse, hbefore⟩ := find?_eq_some_iff_append.1 hfound
  rw [reverse_eq_iff, reverse_append, reverse_cons, append_assoc] at hreverse
  have hsplit' : d.tokensBefore (d.text.positionOf i) =
      behind.reverse ++ found :: (before.reverse ++ a.hit d.text :: rest) := by
    rw [hsplit, hreverse]
    simp only [append_assoc, cons_append, nil_append]
  obtain ⟨name, hname, rfl, hpast, -⟩ := h.exists_of_tokensBefore hi hsplit'
  have hle : a.stop ≤ name.start := by
    obtain ⟨name', hname', hhit, hle⟩ := hbehind (name.hit d.text) (by rw [hreverse]; simp)
    rwa [h.start_eq_of_hit hname' hname hhit] at hle
  refine ⟨name, hname, hnameKind, rfl, hle, fun t ht hlt hlt' => ?_⟩
  -- what is met before the name is passed by the search for it
  have hmem := hlast t ht hlt
  rw [hreverse, mem_append, singleton_append, mem_cons, mem_reverse] at hmem
  rcases hmem with hmem | hmem | hmem
  · obtain ⟨t', ht', hhit, hle'⟩ := hpast _ (mem_reverse.2 hmem)
    have := h.start_eq_of_hit ht' ht hhit
    have := bounds_of_mem_tokensBetween hname
    omega
  · have := h.start_eq_of_hit ht hname hmem
    omega
  · exact (Bool.not_eq_true' _).mp (hbefore _ (mem_reverse.1 hmem))

/-- From the bracket behind it a tag is found. -/
lemma exists_standsAt_of_tagFromEnd (hi : ink[i]? = some (c, some token))
    (hend : token.kind.isEnd = true)
    (hdraft : d.tagFromEnd (d.text.positionOf i) token.kind = .ok draft)
    (hs : d.completeTag? draft = some s) :
    ∃ x : Spot, s.StandsAt d.text x ∧ x.start ≤ i ∧ i < x.stop := by
  have hlength : i < ink.length := (List.getElem?_eq_some_iff.1 hi).1
  obtain ⟨hchar, hwidth⟩ := h.positionOf_width hi hend
  obtain ⟨a, ha, hstart, hlast, hnames, hdraft⟩ := h.exists_of_tagFromEnd (by omega) hdraft
  have hbounds := bounds_of_mem_tokensBetween ha
  obtain ⟨side, hside, hbracket⟩ := h.getElem?_of_isStart ha hstart
  -- the name lies between the brackets
  obtain ⟨r, hr, hnameRange, hconcise, ⟨stop, hstop, hrange, hkind⟩ | ⟨hnone, -⟩⟩ :=
    completeTag?_cases hs
  · obtain ⟨name, hname, hnameKind, rfl, hle, -⟩ := hnames r hr
    rw [hdraft] at hconcise hstop hrange hkind
    have hnameBounds := bounds_of_mem_tokensBetween hname
    have hno : ∀ m token, a.start < m → m < i → ink[m]? = some ('<', some token) →
        token.kind.isStart = false := by
      intro m token hm hm' hx
      obtain ⟨t, ht, rfl, rfl⟩ := exists_start_tokensBetween hx (Nat.zero_le _) hm'
      exact hlast t ht hm
    cases hstop
    rw [hchar] at hrange
    have hrange : s.range = .ofEnds (d.text.positionOf a.start)
        (d.text.positionOf (i + if c = '/' then 2 else 1)) := by
      rw [hrange, hwidth]
      simp only [Option.some.injEq]
    have hkind : s.kind = token.kind.spanKind false := by
      rw [hkind, TokenKind.spanKind_of_isEnd hend]
    refine ⟨_, h.standsAt hbracket hi hend hno hname hnameKind (by omega) (by omega) hrange
      hnameRange hconcise hkind (fun hfalse => absurd hfalse Bool.false_ne_true), ?_, ?_⟩
    · show a.start ≤ i
      omega
    · show i < i + _
      split <;> omega
  · rw [hdraft] at hnone
    cases hnone

/-- Where a search backwards meets the start of a tag, the tag is around the place searched from. -/
lemma exists_standsAt_of_walkBack {row : Nat} (hi : i ≤ ink.length)
    (hend : ∀ c token, ink[i]? = some (c, some token) → token.kind.isEnd = false)
    (hwalk : walkBack row none false (d.tokensBefore (d.text.positionOf i)) = .start draft)
    (hs : d.completeTag? draft = some s) :
    ∃ x : Spot, s.StandsAt d.text x ∧ x.start ≤ i ∧ i < x.stop := by
  obtain ⟨passed, first, rest, hsplit, hstart, hpassed, hfirst, hname, hopening, hstop, hself,
    hconcise⟩ := walkBack_start hwalk
  obtain ⟨a, ha, rfl, hbehind, hlast⟩ := h.exists_of_tokensBefore hi hsplit
  have hbounds := bounds_of_mem_tokensBetween ha
  obtain ⟨side, hside, hbracket⟩ := h.getElem?_of_isStart ha hstart
  obtain ⟨r, hr, -⟩ := completeTag?_cases hs
  rcases hname with hnone | ⟨found, hmem, hnameKind, hfound⟩
  · rw [hnone] at hr
    cases hr
  obtain ⟨name, hname, rfl, hle⟩ := hbehind found hmem
  have hnameBounds := bounds_of_mem_tokensBetween hname
  obtain ⟨e, he, heEnd, hno, hrange, hnameRange, hconcise', hkind⟩ :=
    h.exists_end (by omega) hfound hstop hself hs
  have heBounds := bounds_of_mem_tokensBetween he
  obtain ⟨c, hc, hwidth⟩ := h.stop_of_isEnd he heEnd
  -- the tag does not end before the place searched from
  have hafter : i ≤ e.start := by
    by_contra hbefore
    rcases Nat.lt_or_ge i e.stop with hlt | hge
    · -- the place would be in the middle of the bracket
      have hslash : c = '/' ∧ i = e.start + 1 := by
        split at hwidth
        · exact ⟨‹_›, by omega⟩
        · omega
      obtain ⟨rfl, rfl⟩ := hslash
      have := hend _ _ (h.getElem?_of_slash hc heEnd)
      cases this
    · -- the bracket would have been passed
      have hpass := mem_tokensBetween_of_mem hname (mem_tokensBetween_of_stop_le he hge hi)
      have := (hpassed _ (hlast e hpass (by omega))).2
      rw [show (e.hit d.text).kind = e.token.kind from rfl, heEnd] at this
      cases this
  have hno' : ∀ m token, a.start < m → m < e.start → ink[m]? = some ('<', some token) →
      token.kind.isStart = false := by
    intro m token hm hm' hx
    rcases Nat.lt_or_ge m i with hlt | hge
    · obtain ⟨t, ht, rfl, rfl⟩ := exists_start_tokensBetween hx (Nat.zero_le _) hlt
      exact (hpassed _ (hlast t ht hm)).1
    · exact hno m token (by omega) hm' hx
  rw [hfirst, hwidth] at hrange
  refine ⟨_, h.standsAt hbracket hc heEnd hno' hname hnameKind (by omega) (by omega) hrange
    hnameRange (hconcise'.trans hconcise) hkind ?_, ?_, ?_⟩
  · intro htrue
    rcases hopening htrue with hfalse | hopen | ⟨t, ht, hopen⟩
    · cases hfalse
    · left
      have : a.token.kind = .openTagStart := hopen
      rw [hside] at this
      revert this
      cases side <;> decide
    · right
      obtain ⟨t, htoken, rfl, hle'⟩ := hbehind t ht
      have := bounds_of_mem_tokensBetween htoken
      obtain ⟨e', he'⟩ := getElem?_of_mem_tokensBetween htoken
      exact ⟨t.start, e', t.token, by omega, by omega, he', hopen⟩
  · show a.start ≤ i
    omega
  · show i < e.start + _
    split <;> omega

/-- The bracket in front of a tag, from either character of it, and the place behind it. -/
lemma exists_of_isStart (hi : ink[i]? = some (c, some token)) (hstart : token.kind.isStart = true) :
    ∃ (a : Nat) (side : Lexer.Side), token.kind = side.startKind ∧
      ink[a]? = some ('<', some ⟨side.startKind, false⟩) ∧ a ≤ i ∧
      i < a + side.startInk.length ∧ a + side.startInk.length ≤ ink.length ∧
      (if d.text.charAt? (d.text.positionOf i) = some '/' then
        (d.text.before? (d.text.positionOf i)).getD (d.text.positionOf i)
        else d.text.positionOf i) = d.text.positionOf a ∧
      (d.text.positionOf a).right side.startInk.length =
        d.text.positionOf (a + side.startInk.length) := by
  have honly := h.onlyLineFeeds
  have hright : ∀ {a : Nat} {side : Lexer.Side},
      ink[a]? = some ('<', some ⟨side.startKind, false⟩) →
      (d.text.positionOf a).right side.startInk.length =
        d.text.positionOf (a + side.startInk.length) := by
    intro a side ha
    refine (Text.positionOf_add honly a fun k hk => ?_).symm
    rcases Nat.eq_zero_or_pos k with rfl | hpos
    · exact ⟨'<', h.getElem?_text ha, by decide⟩
    · cases side with
      | opening =>
        have : k < 1 := hk
        omega
      | closing =>
        have : k < 2 := hk
        obtain rfl : k = 1 := by omega
        exact ⟨'/', h.getElem?_text (h.getElem?_slash ha), by decide⟩
  have hle : ∀ {a : Nat} {side : Lexer.Side},
      ink[a]? = some ('<', some ⟨side.startKind, false⟩) →
      a + side.startInk.length ≤ ink.length := by
    intro a side ha
    cases side with
    | opening => exact (List.getElem?_eq_some_iff.1 ha).1
    | closing => exact (List.getElem?_eq_some_iff.1 (h.getElem?_slash ha)).1
  obtain ⟨q, hwalk, -⟩ := h.walk
  obtain ⟨front, b, hink, hlength⟩ := exists_append_of_getElem? hi
  have hcases := Site.isStart_cases hwalk hink rfl hstart
  dsimp only at hcases
  rcases hcases with ⟨rfl, side, rfl⟩ | ⟨rfl, rfl, ⟨lead, hlead⟩, -⟩
  · refine ⟨i, side, rfl, hi, Nat.le_refl i, ?_, hle hi, ?_, hright hi⟩
    · have := Site.length_startInk_pos side
      omega
    · rw [Text.charAt?_positionOf honly (h.getElem?_text hi) (by decide), if_neg (by decide)]
  · -- the slash of a close tag
    have hi' : i = lead.length + 1 := by
      rw [← hlength, hlead, length_append]
      rfl
    have ha : ink[lead.length]? = some ('<', some ⟨.closeTagStart, false⟩) := by
      rw [hink, hlead, append_assoc, getElem?_append_right (Nat.le_refl _), Nat.sub_self]
      rfl
    refine ⟨lead.length, .closing, rfl, ha, by omega, ?_, @hle _ .closing ha, ?_,
      @hright _ .closing ha⟩
    · show i < lead.length + 2
      omega
    · rw [Text.charAt?_positionOf honly (h.getElem?_text hi) (by decide), if_pos rfl, hi',
        Text.positionOf_succ honly (h.getElem?_text ha) (by decide), Text.before?_right]
      rfl

/-- What a search from the bracket in front of a tag goes on to: the first token is the name. -/
lemma exists_of_tagFromStart {r : Range}
    (hi : ink[i]? = some (c, some token)) (hstart : token.kind.isStart = true)
    (hr : (d.tagFromStart (d.text.positionOf i) token.kind).name = some r) :
    ∃ (a : Nat) (side : Lexer.Side), token.kind = side.startKind ∧
      ink[a]? = some ('<', some ⟨side.startKind, false⟩) ∧ a ≤ i ∧ i < a + side.startInk.length ∧
      (d.tagFromStart (d.text.positionOf i) token.kind).start = d.text.positionOf a ∧
      ∃ name ∈ tokensBetween ink (a + side.startInk.length) ink.length,
        name.token.kind.isName = true ∧ (name.hit d.text).range = r ∧
        ∀ t ∈ tokensBetween ink (a + side.startInk.length) ink.length, name.start ≤ t.start := by
  obtain ⟨a, side, hside, hbracket, hai, hlt, hlength, hposition, hright⟩ :=
    h.exists_of_isStart hi hstart
  refine ⟨a, side, hside, hbracket, hai, hlt, hposition, ?_⟩
  have hwidth : (if token.kind == .openTagStart then 1 else 2) = side.startInk.length := by
    rw [hside]
    cases side <;> rfl
  unfold tagFromStart at hr
  dsimp only at hr
  rw [hposition, hwidth, hright] at hr
  split at hr
  · next found rest htokens =>
    split at hr
    · next hkind =>
      have htokens : d.tokensFrom (d.text.positionOf (a + side.startInk.length)) =
          [] ++ found :: rest := htokens
      obtain ⟨name, hname, rfl, hbefore⟩ := h.exists_of_tokensFrom hlength htokens
      refine ⟨name, hname, hkind, Option.some.inj hr, fun t ht => ?_⟩
      by_contra hlt
      exact absurd (hbefore t ht (by omega)) not_mem_nil
    · cases hr
  · cases hr

/-- From the bracket in front of it a tag is found. -/
lemma exists_standsAt_of_tagFromStart (hi : ink[i]? = some (c, some token))
    (hstart : token.kind.isStart = true)
    (hs : d.completeTag? (d.tagFromStart (d.text.positionOf i) token.kind) = some s) :
    ∃ x : Spot, s.StandsAt d.text x ∧ x.start ≤ i ∧ i < x.stop := by
  obtain ⟨r, hr, -⟩ := completeTag?_cases hs
  obtain ⟨a, side, hside, hbracket, hai, hlt, hstart', name, hname, hnameKind, rfl, hfirst⟩ :=
    h.exists_of_tagFromStart hi hstart hr
  have hnameBounds := bounds_of_mem_tokensBetween hname
  obtain ⟨e, he, heEnd, hno, hrange, hnameRange, hconcise, hkind⟩ :=
    h.exists_end hnameBounds.2.2.2 hr rfl rfl hs
  have heBounds := bounds_of_mem_tokensBetween he
  obtain ⟨c', hc', hwidth'⟩ := h.stop_of_isEnd he heEnd
  have hno' : ∀ m token, a < m → m < e.start → ink[m]? = some ('<', some token) →
      token.kind.isStart = false := by
    intro m token' hm hm' hx
    have hge : a + side.startInk.length ≤ m := by
      by_contra hlt'
      cases side with
      | opening =>
        have : m < a + 1 := by simpa [Lexer.Side.startInk] using hlt'
        omega
      | closing =>
        have : m < a + 2 := by simpa [Lexer.Side.startInk] using hlt'
        rw [show m = a + 1 by omega, h.getElem?_slash hbracket] at hx
        cases hx
    obtain ⟨t, ht, rfl, rfl⟩ := exists_start_tokensBetween hx hge (j := ink.length) (by omega)
    rcases apart_of_mem_tokensBetween ht hname with rfl | hapart | hapart
    · revert hnameKind
      cases t.token.kind <;> decide
    · have := hfirst t ht
      have := bounds_of_mem_tokensBetween ht
      omega
    · exact hno _ _ hapart hm' hx
  rw [hwidth'] at hrange
  have hopening : (d.tagFromStart (d.text.positionOf i) token.kind).opening =
      (side.startKind == .openTagStart) := by rw [← hside]; rfl
  rw [hopening] at hkind
  rw [hstart'] at hrange
  refine ⟨_, h.standsAt hbracket hc' heEnd hno' hname hnameKind (by omega) (by omega) hrange
    hnameRange hconcise hkind ?_, hai, ?_⟩
  · intro htrue
    left
    revert htrue
    cases side <;> decide
  · show i < e.start + _
    split <;> omega

/-- An open tag in front of the one that ends here has no word in its name if none is found there. -/
lemma startsWordless_slice (tag : InkedTag ink) {start : Nat}
    (hstart : ink[start]? = some ('<', some ⟨.openTagStart, false⟩)) (hlt : start < tag.start)
    (hno : ∀ t ∈ tokensBetween ink start ink.length, t.start < tag.start →
      t.token.kind.isName = false) :
    (d.text.slice start tag.stop).startsWordless = true := by
  obtain ⟨q, hwalk, hq⟩ := h.walk
  obtain ⟨a, b, hink, hlength⟩ := exists_append_of_getElem? hstart
  obtain ⟨name, rest, rfl, hne, hname, hrest⟩ := Site.exists_name_of_openTagStart hwalk hq hink
  have hget : ∀ m, ink[start + 1 + m]? = (name ++ rest)[m]? := by
    intro m
    rw [hink, getElem?_append_right (by omega), hlength,
      show start + 1 + m - start = m + 1 by omega, getElem?_cons_succ]
  -- the name ends before the other tag starts
  have hend : start + 1 + name.length ≤ tag.start := by
    by_contra hcontra
    have htag := tag.getElem?_start
    rw [show tag.start = start + 1 + (tag.start - (start + 1)) by omega, hget,
      getElem?_append_left (by omega)] at htag
    have := (hname _ (mem_of_getElem? htag)).1
    cases this
  have hstop := tag.stop_eq
  obtain ⟨k, hk⟩ : ∃ k, tag.stop = start + (1 + name.length + k) := ⟨tag.stop -
    (start + (1 + name.length)), by omega⟩
  have hslice : d.text.slice start tag.stop = '<' :: (textOf name ++ textOf (rest.take k)) := by
    have hdrop : ink.drop start = ('<', some ⟨.openTagStart, false⟩) :: (name ++ rest) := by
      rw [hink, drop_left' hlength]
    rw [Text.slice, drop_take, h.text_eq, textOf, ← map_drop, hdrop, hk,
      Nat.add_sub_cancel_left, Nat.add_assoc, Nat.add_comm 1, map_cons, take_succ_cons,
      ← map_take, take_length_add_append, map_append]
    rfl
  have htake : (textOf name ++ textOf (rest.take k)).takeWhile isTagChar = textOf name := by
    refine (Lexer.takeWhile_dropWhile_append (fun c hc => ?_) fun c hc => ?_).1
    · obtain ⟨x, hx, rfl⟩ := mem_map.1 hc
      exact (hname x hx).1
    · obtain ⟨y, hy, rfl⟩ := Option.map_eq_some_iff.1 (head?_map.symm.trans hc)
      rw [head?_take] at hy
      split at hy
      · cases hy
      · exact hrest y hy
  have hany : (textOf name).any Pattern.isWordChar = false := by
    rw [Bool.eq_false_iff]
    intro hany
    obtain ⟨t, ht, hle, hlt', htoken⟩ := exists_word_tokensBetween (i := start) (j := ink.length)
      (show ink = (a ++ [('<', some ⟨.openTagStart, false⟩)]) ++ name ++ rest by
        rw [hink]
        simp only [append_assoc, cons_append, nil_append])
      (by
        intro x hx
        rw [getLast?_concat] at hx
        cases hx
        decide)
      (fun x hx => (hname x hx).2) hany (by simp; omega)
      (by simp [hink]; omega)
    have := hno t ht (by simp at hlt'; omega)
    rw [htoken] at this
    cases this
  rw [hslice]
  unfold Text.startsWordless
  simp only [tail_cons, head?_cons, htake, hany]
  cases name with
  | nil => exact absurd rfl hne
  | cons x name => rfl

/-- What a search from the name of a tag goes back and on to: the last bracket in front of one, and the
first name behind it. -/
lemma exists_of_tagFromName (hi : i ≤ ink.length) (hconcise : token.concise = false)
    (hdraft : d.tagFromName (d.text.positionOf i) token = .ok draft) :
    ∃ a ∈ tokensBetween ink 0 i, ∃ name ∈ tokensBetween ink a.start ink.length,
      a.token.kind.isStart = true ∧ name.token.kind.isName = true ∧
      (∀ t ∈ tokensBetween ink 0 i, a.start < t.start → t.token.kind.isStart = false) ∧
      (∀ t ∈ tokensBetween ink a.start ink.length, t.start < name.start →
        t.token.kind.isName = false) ∧
      draft =
        { start := d.text.positionOf a.start, name := some (name.hit d.text).range
          opening := name.token.kind == .openTagName } := by
  unfold tagFromName at hdraft
  rw [hconcise, if_neg Bool.false_ne_true] at hdraft
  split at hdraft
  case h_1 => cases hdraft
  case h_2 first hfirst =>
  split at hdraft
  case h_1 => cases hdraft
  case h_2 found hfound =>
  obtain rfl := Except.ok.inj hdraft
  obtain ⟨hstart, passed, rest, hsplit, hpassed⟩ := find?_eq_some_iff_append.1 hfirst
  obtain ⟨a, ha, rfl, -, hlast⟩ := h.exists_of_tokensBefore hi hsplit
  have hbounds := bounds_of_mem_tokensBetween ha
  obtain ⟨hnameKind, passed', rest', hsplit', hpassed'⟩ := find?_eq_some_iff_append.1 hfound
  have hfrom : d.tokensFrom (d.text.positionOf a.start) = passed' ++ found :: rest' := hsplit'
  obtain ⟨name, hname, rfl, hbefore⟩ := h.exists_of_tokensFrom (by omega) hfrom
  exact ⟨a, ha, name, hname, hstart, hnameKind,
    fun t ht hlt => (Bool.not_eq_true' _).mp (hpassed _ (hlast t ht hlt)),
    fun t ht hlt => (Bool.not_eq_true' _).mp (hpassed' _ (hbefore t ht hlt)), rfl⟩

/-- The first bracket behind a name, with none in front of a tag between them, ends a tag that starts
before the name. -/
lemma exists_inkedTag_of_name {k : Nat} {name e : OffsetToken}
    (hname : name ∈ tokensBetween ink k ink.length) (hkind : name.token.kind.isName = true)
    (he : e ∈ tokensBetween ink name.stop ink.length) (hend : e.token.kind.isEnd = true)
    (hno : ∀ m token, name.stop ≤ m → m < e.start → ink[m]? = some ('<', some token) →
      token.kind.isStart = false) :
    ∃ tag : InkedTag ink, tag.endKind = e.token.kind ∧ tag.start < name.start ∧
      e.stop = tag.stop := by
  have hbounds := bounds_of_mem_tokensBetween hname
  have heBounds := bounds_of_mem_tokensBetween he
  obtain ⟨c, hc, hwidth⟩ := h.stop_of_isEnd he hend
  obtain ⟨tag, hendKind, htagStart, -, htagStop⟩ := h.exists_inkedTag_of_isEnd hc rfl hend
  refine ⟨tag, hendKind, ?_, hwidth.trans htagStop⟩
  by_contra hge
  obtain ⟨t, ht, htstart, htoken⟩ := exists_start_tokensBetween tag.getElem?_start
    (i := k) (j := ink.length) (by omega) (by omega)
  rcases apart_of_mem_tokensBetween ht hname with rfl | hapart | hapart
  · rw [htoken, tag.side.isName_startKind] at hkind
    cases hkind
  · have := bounds_of_mem_tokensBetween ht
    omega
  · have := hno _ _ (by omega) htagStart tag.getElem?_start
    rw [tag.side.isStart_startKind] at this
    cases this

/-- A tag that is completed from a bracket and a name behind it ends with a tag that starts between
the two. -/
lemma exists_inkedTag_of_completeTag? {start : Nat} {side : Lexer.Side}
    (hbracket : ink[start]? = some ('<', some ⟨side.startKind, false⟩)) {name : OffsetToken}
    (hname : name ∈ tokensBetween ink start ink.length) (hkind : name.token.kind.isName = true)
    (hs : d.completeTag?
      { start := d.text.positionOf start, name := some (name.hit d.text).range
        opening := name.token.kind == .openTagName } = some s) :
    ∃ tag : InkedTag ink, (start ≤ tag.start ∧ tag.start < name.start ∧ name.stop < tag.stop) ∧
      (∃ m c token, ink[m]? = some (c, some token) ∧ token.kind.isEnd = true ∧
        name.stop ≤ m ∧ m < tag.stop) ∧
      s.concise = false ∧ s.kind = tag.endKind.spanKind false ∧
      s.range = d.text.rangeOf start tag.stop ∧
      s.nameRange = some (d.text.rangeOf name.start name.stop) := by
  have hbounds := bounds_of_mem_tokensBetween hname
  obtain ⟨e, he, heEnd, hno, hrange, hnameRange, hconcise, hspan⟩ :=
    h.exists_end hbounds.2.2.2 rfl rfl rfl hs
  have heBounds := bounds_of_mem_tokensBetween he
  obtain ⟨c, hc, -⟩ := h.stop_of_isEnd he heEnd
  obtain ⟨tag, hendKind, hinside, hstop⟩ := h.exists_inkedTag_of_name hname hkind he heEnd hno
  have hle : start ≤ tag.start := by
    by_contra hlt
    exact tag.fst_ne_of_isStart hbracket (by omega) (by omega) rfl side.isStart_startKind rfl
  obtain ⟨c', hx⟩ := getElem?_of_mem_tokensBetween hname
  have hnameToken := tag.token_eq_of_isName hx hinside (by omega) rfl hkind
  have hlength : tag.stop ≤ d.text.length := by
    rw [h.length_eq]
    exact tag.stop_le_length
  refine ⟨tag, ⟨hle, hinside, by omega⟩, ⟨e.start, c, e.token, hc, heEnd, by omega, by omega⟩,
    hconcise, ?_, ?_, hnameRange⟩
  · rw [hspan, ← hendKind, hnameToken]
    exact tag.spanKind_nameKind
  · rw [hrange, hstop]
    exact Text.ofEnds_positionOf h.onlyLineFeeds (by omega) hlength

/-- Between the last bracket before a place in a name and that place no tag ends. -/
lemma le_of_isEnd_of_isName (hi : ink[i]? = some (c, some token))
    (hkind : token.kind.isName = true) (hconcise : token.concise = false) {start : Nat}
    (hlast : ∀ t ∈ tokensBetween ink 0 i, start < t.start → t.token.kind.isStart = false)
    {m : Nat} (hm : start < m) {c' : Char} {token' : Token}
    (hx : ink[m]? = some (c', some token')) (hend : token'.kind.isEnd = true) : i ≤ m := by
  obtain ⟨q, hwalk, hq⟩ := h.walk
  by_contra hlt
  obtain ⟨front, b, hink, hfront⟩ := exists_append_of_getElem? hi
  obtain ⟨side, lead, part, rfl, hpart, -, -⟩ := Site.exists_of_name hwalk hink rfl hkind hconcise
  have hpos := Site.length_startInk_pos side
  rw [append_assoc, length_append, length_append] at hfront
  rw [append_assoc, append_assoc] at hink
  have hlead : ink[lead.length]? = some ('<', some ⟨side.startKind, false⟩) := by
    rw [hink, getElem?_append_right (Nat.le_refl _), Nat.sub_self]
    cases side <;> rfl
  -- no bracket before the one in front of the name can be the last
  have hle : lead.length ≤ start := by
    by_contra hgt
    obtain ⟨t, ht, htstart, htoken⟩ :=
      exists_start_tokensBetween hlead (Nat.zero_le _) (j := i) (by omega)
    have hstart := hlast t ht (by omega)
    rw [htoken, side.isStart_startKind] at hstart
    cases hstart
  rw [hink, getElem?_append_right (by omega), ← append_assoc,
    getElem?_append_left (by rw [length_append]; omega)] at hx
  rcases mem_append.1 (mem_of_getElem? hx) with hmem | hmem
  · rw [Option.some.inj (side.snd_of_mem_startInk hmem)] at hend
    simp at hend
  · rw [Option.some.inj (hpart _ hmem).2] at hend
    simp at hend

/-- From its name a tag is found. Its name is read again from the bracket in front of it, which may
lead on to the name of another tag. -/
lemma exists_standsAt_of_tagFromName (hi : ink[i]? = some (c, some token))
    (hkind : token.kind.isName = true)
    (hconcise : token.concise = false)
    (hdraft : d.tagFromName (d.text.positionOf i) token = .ok draft)
    (hs : d.completeTag? draft = some s) :
    ∃ x : Spot, s.StandsAt d.text x ∧ x.start ≤ i ∧ i < x.stop := by
  have hlength : i < ink.length := (List.getElem?_eq_some_iff.1 hi).1
  obtain ⟨a, ha, name, hname, hstart, hnameKind, hlast, hbefore, rfl⟩ :=
    h.exists_of_tagFromName (by omega) hconcise hdraft
  have hbounds := bounds_of_mem_tokensBetween ha
  have hnameBounds := bounds_of_mem_tokensBetween hname
  obtain ⟨side, -, hbracket⟩ := h.getElem?_of_isStart ha hstart
  obtain ⟨tag, ⟨hle, hinside, hbehind⟩, ⟨m, c', token', hx, hend, hm, hm'⟩, hconcise', hspan, hrange,
    hnameRange⟩ := h.exists_inkedTag_of_completeTag? hbracket hname hnameKind hs
  have hafter : i ≤ m := h.le_of_isEnd_of_isName hi hkind hconcise hlast (by omega) hx hend
  refine ⟨⟨a.start, name.start, name.stop, tag.stop⟩, ?_, by show a.start ≤ i; omega,
    by show i < tag.stop; omega⟩
  exact
    { concise_eq := hconcise'
      range_eq := hrange
      nameRange_eq := hnameRange
      start_lt := by show a.start < name.start; omega
      name_lt := hnameBounds.2.1
      lt_stop := hbehind
      stop_le := by
        rw [h.length_eq]
        exact tag.stop_le_length
      isWordChar := h.isWordChar_of_isName hname hnameKind
      delimited := by
        by_cases hread : s.kind = .closing → side = .closing
        · exact .inl (h.delimited tag hbracket hle hconcise' hspan hread)
        · -- the close tag is another one behind
          obtain ⟨hclosing, hopen⟩ := Classical.not_imp.1 hread
          refine .inr ⟨hclosing, ?_⟩
          obtain rfl : side = .opening := by
            cases side with
            | opening => rfl
            | closing => exact absurd rfl hopen
          have htagSide := tag.side_eq_of_spanKind (hspan.symm.trans hclosing)
          refine h.startsWordless_slice tag hbracket ?_ ?_
          · rcases Nat.lt_or_eq_of_le hle with hlt | heq
            · exact hlt
            · have hsame := tag.getElem?_start
              rw [← heq, hbracket, htagSide] at hsame
              cases hsame
          · intro t ht hlt
            exact hbefore t ht (by omega) }

end Document.Drawn

/-! ## Tags without brackets -/

/-- A tag is found around an offset. -/
inductive TagSpan.Around (s : TagSpan) (t : Text) (i : Nat) : Prop where
  /-- A tag without brackets, which closes itself. -/
  | concise {a b : Nat} (hconcise : s.concise = true) (hkind : s.kind = .selfClosing)
      (hrange : s.range = t.rangeOf a b) (hlt : a < b) (hb : b ≤ t.length) (hle : a ≤ i)
      (hle' : i ≤ b)
  | brackets {x : Spot} (hs : s.StandsAt t x) (hle : x.start ≤ i) (hle' : i ≤ x.stop)

namespace Document

variable {d : Document}

/-- The name before a place starts there or before. -/
lemma exists_nameStart (honly : d.text.OnlyLineFeeds) {m : Nat} (hm : m ≤ d.text.length) :
    ∃ a ≤ m, d.nameStart (d.text.positionOf m) = d.text.positionOf a := by
  unfold nameStart
  split
  · next hit rest hscan =>
    split
    · exact ⟨m, Nat.le_refl m, rfl⟩
    · have hmem : hit ∈ d.buffer.scanBack .nameOrBlank (.ofEnds .origin (d.text.positionOf m)) := by
        rw [hscan]
        exact mem_cons_self
      rw [Buffer.scanBack, mem_reverse, Buffer.scan, ← Text.positionOf_zero honly,
        Text.ofEnds_positionOf honly (Nat.zero_le m) hm] at hmem
      obtain ⟨k, hk⟩ := Pattern.exists_of_mem_scan hmem
      refine ⟨min k m, Nat.min_le_right k m, hk.trans ?_⟩
      show (d.text.clip (d.text.positionOf 0)).pastText ((d.text.inRange _).take k) = _
      rw [Text.inRange_positionOf honly (Nat.zero_le _) hm, Text.clip_positionOf honly (Nat.zero_le _),
        Text.positionOf_zero honly, Text.slice, drop_zero, take_take,
        Text.positionOf_eq_place honly]
      rfl
  · exact ⟨m, Nat.le_refl m, rfl⟩

/-- A tag without brackets is found around all places of its row behind its name. -/
lemma around_of_conciseTag (honly : d.text.OnlyLineFeeds) {m o : Nat} {s : TagSpan}
    (hm : d.text[m]? = some c) (hc : c ≠ '\n') (hmo : m ≤ o) (ho : o ≤ d.text.length)
    (hrow : (d.text.positionOf o).row = (d.text.positionOf m).row)
    (hs : d.completeTag? (d.conciseTag (d.text.positionOf m)) = some s) :
    s.Around d.text o := by
  have hlt : m < d.text.length := (List.getElem?_eq_some_iff.1 hm).1
  obtain ⟨a, ha, hstart⟩ := exists_nameStart honly (Nat.le_of_lt hlt)
  obtain ⟨r, -, -, hconcise, ⟨stop, hstop, hrange, hkind⟩ | ⟨hnone, -⟩⟩ := completeTag?_cases hs
  · -- the end of the row is a place of the text
    obtain ⟨⟨piece, hpiece, hcolumn⟩, -⟩ := Text.holds_place honly ho
    rw [← Text.positionOf_eq_place honly, hrow] at hpiece
    rw [← Text.positionOf_eq_place honly] at hcolumn
    have hlength : d.text.lineLength (d.text.positionOf m).row = piece.length := by
      rw [Text.lineLength, Text.line, Text.line?_eq honly, hpiece]
      rfl
    cases hstop
    have hholds : d.text.Holds
        ⟨(d.text.positionOf m).row, d.text.lineLength (d.text.positionOf m).row⟩ :=
      ⟨piece, hpiece, Nat.le_of_eq hlength⟩
    have hplace := Text.positionOf_offsetOf honly
      ⟨(d.text.positionOf m).row, d.text.lineLength (d.text.positionOf m).row⟩
    rw [Text.clip_of_holds honly hholds] at hplace
    have hle := d.text.offsetOf_le_length
      ⟨(d.text.positionOf m).row, d.text.lineLength (d.text.positionOf m).row⟩
    generalize d.text.offsetOf _ = b at hplace hle
    rw [← hplace] at hrange
    have hcolumn' := Text.column_lt_lineLength honly hm hc
    have hob : o ≤ b := by
      rw [← Text.positionOf_le_iff honly ho hle, hplace, Position.le_def]
      right
      exact ⟨hrow, by rw [hlength]; exact hcolumn⟩
    have hmb : m < b := by
      rw [← Text.positionOf_lt_iff honly (by omega) hle, hplace, Position.lt_def]
      right
      exact ⟨rfl, hcolumn'⟩
    refine .concise hconcise hkind (hrange.trans ?_) (show a < b by omega) hle (by omega) hob
    rw [show (d.conciseTag (d.text.positionOf m)).start = d.text.positionOf a from hstart,
      Text.ofEnds_positionOf honly (by omega) hle]
    rfl
  · cases hnone

namespace Drawn

variable {ink : List InkedChar} (h : d.Drawn ink) {o : Nat} {s : TagSpan}

include h

/-- Where a caret is looked up, and what stands there. -/
lemma exists_probe (ho : o ≤ d.text.length) :
    ∃ i ≤ ink.length, d.probe (d.text.positionOf o) = d.text.positionOf i ∧ (i = o ∨ i + 1 = o) ∧
      (d.text.positionOf o).row = (d.text.positionOf i).row ∧
      (∀ token, d.tokenAt? (d.text.positionOf i) = some token →
        ∃ c, c ≠ '\n' ∧ ink[i]? = some (c, some token)) ∧
      (d.tokenAt? (d.text.positionOf i) = none →
        ∀ c token, ink[i]? = some (c, some token) → token.kind.isEnd = false) := by
  have honly := h.onlyLineFeeds
  have hlength := h.length_eq
  rcases h.probe_cases (i := o) (by omega) with ⟨hempty, hprobe⟩ | ⟨i, c, part, hx, hc, hio, hprobe⟩
  · -- in an empty row there are no tokens
    refine ⟨o, by omega, hprobe, .inl rfl, rfl, fun token htoken => ?_, fun _ c token hx => ?_⟩
    · rw [h.tokenAt?_eq_none _ hempty] at htoken
      cases htoken
    · by_contra hend
      rw [Bool.not_eq_false] at hend
      obtain ⟨q, hwalk, -⟩ := h.walk
      obtain ⟨a, b, hink, -⟩ := exists_append_of_getElem? hx
      have hc : c = '/' ∨ c = '>' := Site.fst_of_isEnd hwalk hink rfl hend
      have hlt := Text.column_lt_lineLength honly (h.getElem?_text hx)
        (by rcases hc with rfl | rfl <;> decide)
      omega
  · have htoken := h.tokenAt?_eq hx hc
    have hlt : i < ink.length := (List.getElem?_eq_some_iff.1 hx).1
    refine ⟨i, by omega, hprobe, hio, ?_, fun token hsome => ?_, fun hnone c' token hx' => ?_⟩
    · rcases hio with rfl | rfl
      · rfl
      · rw [Text.positionOf_succ honly (h.getElem?_text hx) hc]
        rfl
    · rw [htoken] at hsome
      exact ⟨c, hc, hsome ▸ hx⟩
    · rw [hx] at hx'
      rw [htoken] at hnone
      rw [hnone] at hx'
      cases hx'

/-- A search backwards for the tag around a caret finds one that is. -/
lemma around_of_walkBack {i : Nat} {draft : TagDraft} (hi : i ≤ ink.length)
    (hio : i = o ∨ i + 1 = o) (ho : o ≤ d.text.length)
    (hrow : (d.text.positionOf o).row = (d.text.positionOf i).row)
    (hend : ∀ c token, ink[i]? = some (c, some token) → token.kind.isEnd = false)
    (hwalk : walkBack (d.text.positionOf i).row none false
        (d.tokensBefore (d.text.positionOf i)) = .start draft ∨
      ∃ p, walkBack (d.text.positionOf i).row none false
        (d.tokensBefore (d.text.positionOf i)) = .concise p ∧ d.conciseTag p = draft)
    (hs : d.completeTag? draft = some s) : s.Around d.text o := by
  rcases hwalk with hwalk | ⟨p, hwalk, rfl⟩
  · obtain ⟨x, hx, hle, hlt⟩ := h.exists_standsAt_of_walkBack hi hend hwalk hs
    exact .brackets hx (by omega) (by omega)
  · obtain ⟨found, hmem, -, -, rfl, hrow'⟩ := walkBack_concise hwalk
    rw [h.tokensBefore_positionOf hi, mem_reverse] at hmem
    obtain ⟨t, ht, rfl⟩ := mem_map.1 hmem
    have hbounds := bounds_of_mem_tokensBetween ht
    obtain ⟨a, x, b, hink, hlength, -, -, hne⟩ := exists_of_mem_tokensBetween ht
    have hget : ink[t.start]? = some (x.1, x.2) := by
      rw [hink, ← hlength, getElem?_append_right (Nat.le_refl _), Nat.sub_self]
      rfl
    have hchar : d.text[t.start]? = some x.1 := h.getElem?_text hget
    have hbreak : x.1 ≠ '\n' := by
      intro heq
      rw [textOf_cons, heq] at hne
      exact hne (Pattern.tagToken_lineFeed_cons _)
    exact around_of_conciseTag h.onlyLineFeeds hchar hbreak (by omega) ho (hrow.trans hrow'.symm) hs

/-- The tag found at a caret is around it. -/
theorem around_of_tagAt (ho : o ≤ d.text.length)
    (hs : d.tagAt (d.text.positionOf o) = .ok (some s)) : s.Around d.text o := by
  obtain ⟨i, hi, hprobe, hio, hrow, hsome, hnone⟩ := h.exists_probe ho
  obtain ⟨draft, hdraft, hcomplete⟩ := drafted_of_tagAt hs
  rw [hprobe] at hdraft
  -- a tag around the character looked up is around the caret
  have hbrackets : (∃ x : Spot, s.StandsAt d.text x ∧ x.start ≤ i ∧ i < x.stop) →
      s.Around d.text o := by
    rintro ⟨x, hx, hle, hlt⟩
    exact .brackets hx (by omega) (by omega)
  cases hdraft with
  | gap htoken hgap =>
    exact h.around_of_walkBack hi hio ho hrow (hnone htoken) (walkBack_of_tagFromGap? hgap)
      hcomplete
  | fromEnd htoken hkind hdraft =>
    obtain ⟨c, hc, hx⟩ := hsome _ htoken
    exact hbrackets (h.exists_standsAt_of_tagFromEnd hx hkind hdraft hcomplete)
  | fromStart htoken hkind hdraft =>
    obtain ⟨c, hc, hx⟩ := hsome _ htoken
    subst hdraft
    exact hbrackets (h.exists_standsAt_of_tagFromStart hx hkind hcomplete)
  | @fromName token htoken hkind hdraft =>
    obtain ⟨c, hc, hx⟩ := hsome _ htoken
    cases hconcise : token.concise with
    | false => exact hbrackets (h.exists_standsAt_of_tagFromName hx hkind hconcise hdraft hcomplete)
    | true =>
      rw [tagFromName, hconcise, if_pos rfl] at hdraft
      cases hdraft
      exact around_of_conciseTag h.onlyLineFeeds (h.getElem?_text hx) hc (by omega) ho hrow hcomplete
  | @fromAttribute token htoken hkind hdraft =>
    obtain ⟨c, hc, hx⟩ := hsome _ htoken
    refine h.around_of_walkBack hi hio ho hrow ?_
      (walkBack_of_tagFromGap? (tagFromGap?_of_tagFromAttribute hdraft)) hcomplete
    intro c' token' hx'
    rw [hx] at hx'
    cases hx'
    rw [hkind]
    rfl

end Drawn

end Document
end TemplateEditing
