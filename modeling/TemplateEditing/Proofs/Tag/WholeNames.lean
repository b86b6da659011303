import TemplateEditing.Proofs.Tag.Reach

/-!
# The whole names of partners

The name by which tags are compared is a token, and so only the first word of the name that the lexer
sees (`TagSpan.wholeName?`, `Drawn.exists_wholeName`). Partners have that word in common, and what is
around it is never compared: their base names are the same if and only if they are the same without
the word (`Document.partner?_firstWord`).
-/

namespace TemplateEditing

open List

open Lexer (isTagChar baseName)

/-! ## Words in names -/

namespace Text

/-- The first word of a name. -/
def firstWord : Text → Text
  | [] => []
  | c :: t => if Pattern.isWordChar c then c :: t.takeWhile Pattern.isWordChar else firstWord t

/-- A name with a gap in the stead of its first word. -/
def withoutWord : Text → List (Option Char)
  | [] => []
  | c :: t =>
    if Pattern.isWordChar c then none :: (t.dropWhile Pattern.isWordChar).map some
    else some c :: withoutWord t

lemma firstWord_append {u : Text} (hu : ∀ c ∈ u, Pattern.isWordChar c = false) (t : Text) :
    (u ++ t).firstWord = t.firstWord := by
  induction u with
  | nil => rfl
  | cons c u ih =>
    rw [cons_append, firstWord, hu c mem_cons_self, if_neg Bool.false_ne_true]
    exact ih fun c hc => hu c (mem_cons_of_mem _ hc)

/-- A name that is one word. -/
lemma withoutWord_of_forall {t : Text} (ht : ∀ c ∈ t, Pattern.isWordChar c = true) (hne : t ≠ []) :
    t.withoutWord = [none] := by
  cases t with
  | nil => exact absurd rfl hne
  | cons c t =>
    rw [withoutWord, if_pos (ht c mem_cons_self), dropWhile_eq_nil_iff.2]
    · rfl
    · exact fun c hc => ht c (mem_cons_of_mem _ hc)

/-- A word does not go on in the classes or the id. -/
lemma takeWhile_baseName (t : Text) :
    (baseName t).takeWhile Pattern.isWordChar = t.takeWhile Pattern.isWordChar := by
  induction t with
  | nil => rfl
  | cons c t ih =>
    rw [baseName, takeWhile_cons]
    split
    · rw [takeWhile_cons, takeWhile_cons]
      split
      · exact congrArg _ ih
      · rfl
    · next hdot =>
      have hc : c = '.' ∨ c = '#' := by simpa [or_iff_not_imp_left] using hdot
      rcases hc with rfl | rfl <;> rfl

/-- The base name is made up by its gap and the first word of the name, if there is a gap. -/
lemma flatMap_withoutWord_baseName (t : Text) :
    ((baseName t).withoutWord.flatMap fun c => c.elim t.firstWord ([·])) = baseName t := by
  induction t with
  | nil => rfl
  | cons c t ih =>
    by_cases hdot : (!(c == '.' || c == '#')) = true
    · have hbase : baseName (c :: t) = c :: baseName t := takeWhile_cons_of_pos hdot
      rw [hbase, withoutWord, firstWord]
      split
      · -- the gap is filled, and the rest is as it was
        rw [flatMap_cons, flatMap_map, Option.elim_none, ← takeWhile_baseName]
        show c :: (_ ++ List.flatMap (fun a => [a]) _) = _
        rw [flatMap_singleton', takeWhile_append_dropWhile]
      · rw [flatMap_cons, ih]
        rfl
    · have hbase : baseName (c :: t) = [] := takeWhile_cons_of_neg hdot
      rw [hbase]
      rfl

end Text

/-! ## Names as the lexer sees them -/

namespace Document

/-- The characters of the text, and whether each is part of the name of a tag. -/
def nameMarks (d : Document) : List (Char × Bool) :=
  d.text.mapIdx fun i c =>
    (c, c != '\n' && (d.tokenAt? (d.text.positionOf i)).any (·.kind.isName))

end Document

/-- The whole name of a tag, with all of the characters around it that are part of it. -/
def TagSpan.wholeName? (s : TagSpan) (d : Document) : Option Text :=
  s.nameRange.map fun r =>
    (stretchAround Prod.snd d.nameMarks (d.text.offsetOf r.start)).map Prod.fst

namespace Document

namespace Drawn

variable {d : Document} {ink : List InkedChar} (h : d.Drawn ink) {s s' : TagSpan}

include h

lemma nameMarks_eq :
    d.nameMarks = ink.map fun x => (x.1, x.1 != '\n' && x.2.any (·.kind.isName)) := by
  apply ext_getElem?
  intro i
  rw [nameMarks, getElem?_mapIdx, getElem?_map, h.text_eq, textOf, getElem?_map,
    Option.map_map]
  cases hx : ink[i]? with
  | none => rfl
  | some x =>
    by_cases hc : x.1 = '\n'
    · simp [hc]
    · have htoken := h.tokenAt?_eq hx hc
      rw [h.text_eq, textOf] at htoken
      simp [htoken]

/-- A whole name is found from each place in it. -/
lemma stretchAround_nameMarks (n : InkedName ink) {i : Nat} (hle : n.start ≤ i) (hlt : i < n.stop) :
    (stretchAround Prod.snd d.nameMarks i).map Prod.fst = textOf n.name := by
  -- what is no character of a name is not marked
  have hmark : ∀ x ∈ ink, isTagChar x.1 = false →
      (x.1 != '\n' && x.2.any (·.kind.isName)) = false := by
    intro x hx hchar
    obtain ⟨m, hm⟩ := getElem?_of_mem hx
    rw [Bool.and_eq_false_iff]
    refine .inr (Bool.eq_false_iff.2 fun hany => ?_)
    obtain ⟨token, htoken, hkind⟩ := (Option.any_eq_true _ _).1 hany
    obtain ⟨c, part⟩ := x
    obtain rfl : part = some token := htoken
    rw [h.isTagChar_of_isName hm hkind] at hchar
    cases hchar
  have hmarks : d.nameMarks = _ := h.nameMarks_eq.trans (congrArg (List.map _) n.ink_eq)
  rw [hmarks, map_append, map_append, stretchAround_append, map_map]
  · rfl
  · intro x hx
    obtain ⟨y, hy, rfl⟩ := Option.map_eq_some_iff.1 (getLast?_map.symm.trans hx)
    refine hmark y ?_ (n.lead_last y hy)
    rw [n.ink_eq]
    exact mem_append_left _ (mem_append_left _ (mem_of_getLast? hy))
  · intro x hx
    obtain ⟨y, hy, rfl⟩ := mem_map.1 hx
    obtain ⟨hchar, hpart⟩ := n.isNameInk y hy
    dsimp only
    rw [hpart, Option.any_some, n.isName, Bool.and_true, bne_iff_ne]
    exact Lexer.isTagChar_ne hchar (by decide)
  · intro x hx
    obtain ⟨y, hy, rfl⟩ := Option.map_eq_some_iff.1 (head?_map.symm.trans hx)
    refine hmark y ?_ (n.rest_head y hy)
    rw [n.ink_eq]
    exact mem_append_right _ (mem_of_head? hy)
  · rw [length_map]
    exact hle
  · rw [length_map, length_map]
    exact hlt

/-- The first token in a name is its first word. -/
lemma slice_eq_firstWord (n : InkedName ink) {t : OffsetToken}
    (ht : t ∈ tokensBetween ink 0 ink.length) (hkind : t.token.kind.isName = true)
    (hle : n.start ≤ t.start) (hlt : t.start < n.stop)
    (hfirst : ∀ t' ∈ tokensBetween ink 0 ink.length, n.start ≤ t'.start → t'.start < t.start →
      t'.token.kind.isName = false) :
    d.text.slice t.start t.stop = (textOf n.name).firstWord := by
  have hother : ∀ c, isTagChar c = false → Pattern.isWordChar c = false := by
    intro c hc
    rw [Bool.eq_false_iff]
    intro hword
    rw [isTagChar_of_isWordChar hword] at hc
    cases hc
  obtain ⟨u, y, v, hname, hy, hu⟩ :=
    exists_of_any_isWordChar (h.hasWord_of_isName n ht hkind hle hlt)
  have hink : ink = n.lead ++ (u ++ y :: v) ++ n.rest := by
    rw [← hname]
    exact n.ink_eq
  have hstop : n.lead.length + u.length < n.stop := by
    rw [InkedName.stop, hname, length_append, length_cons]
    omega
  obtain ⟨t', ht', hstart', htoken'⟩ := exists_firstWord_tokensBetween hink
    (fun x hx => hother _ (n.lead_last x hx)) hu hy
    (n.isNameInk y (by rw [hname]; simp)).2 (Nat.zero_le _) (Nat.lt_of_lt_of_le hstop n.stop_le_length)
  obtain ⟨a, b, hink', hstart, hslice⟩ := h.exists_slice_of_isName ht hkind
  rw [drop_length, append_nil] at hink'
  -- the token starts with the word
  have hsame : t.start = n.lead.length + u.length := by
    rcases Nat.lt_trichotomy t.start (n.lead.length + u.length) with hcase | hcase | hcase
    · obtain ⟨c, hc⟩ := getElem?_of_mem_tokensBetween ht
      have hword := h.isWordChar_of_isName ht hkind c (Text.mem_slice.2
        ⟨t.start, Nat.le_refl _, (bounds_of_mem_tokensBetween ht).2.1, h.getElem?_text hc⟩)
      rw [hink, append_assoc, getElem?_append_right hle, append_assoc,
        getElem?_append_left (by rw [InkedName.start] at hle; omega)] at hc
      rw [hu _ (mem_of_getElem? hc)] at hword
      cases hword
    · exact hcase
    · have hnot := hfirst t' ht' (by rw [hstart']; exact Nat.le_add_right _ _) (by omega)
      rw [htoken', n.isName] at hnot
      cases hnot
  have hb : b = y :: (v ++ n.rest) := by
    have heq : a ++ b = (n.lead ++ u) ++ y :: (v ++ n.rest) :=
      hink'.symm.trans (hink.trans (by simp only [append_assoc, cons_append]))
    exact (append_inj heq (by rw [hstart, hsame, length_append])).2
  rw [hslice, hb, hname, textOf_append, Text.firstWord_append, textOf_cons, textOf_cons,
    textOf_append, Text.firstWord, if_pos hy, takeWhile_cons_of_pos hy]
  · -- the word ends in the name
    rw [takeWhile_append_of_head?]
    intro c hc
    obtain ⟨x, hx, rfl⟩ := Option.map_eq_some_iff.1 (head?_map.symm.trans hc)
    exact hother x.1 (n.rest_head x hx)
  · intro c hc
    obtain ⟨x, hx, rfl⟩ := mem_map.1 hc
    exact hu x hx

/-- The name by which a tag is compared is the first word of its whole name. -/
lemma exists_wholeName {start : Nat} {tag : InkedTag ink} {name : OffsetToken}
    (hreads : d.Reads s start tag name) :
    ∃ whole : Text, s.wholeName? d = some whole ∧ s.name? d = some whole.firstWord ∧
      whole.firstWord ≠ [] := by
  have hlength := h.length_eq
  have hbounds := bounds_of_mem_tokensBetween hreads.name_mem
  have hstart : tag.inkedName.start = tag.nameStart := length_append
  have hstop : tag.inkedName.stop = tag.nameStop := by
    rw [InkedTag.nameStop, ← hstart]
    rfl
  have hlt := hreads.start_lt_name
  -- the token stands in the name of the tag
  have hwithin : tag.nameStart ≤ name.start ∧ name.start < tag.nameStop := by
    have hkind := hreads.isName
    obtain ⟨c, hc⟩ := getElem?_of_mem_tokensBetween hreads.name_mem
    rcases tag.token_cases hc (Nat.le_of_lt hlt) hreads.name_lt with
      ⟨-, htoken⟩ | ⟨hle, hlt, -⟩ | ⟨-, -, htoken⟩ | ⟨-, htoken⟩
    · rw [htoken, tag.side.isName_startKind] at hkind
      cases hkind
    · exact ⟨hle, hlt⟩
    · rw [htoken] at hkind
      cases hkind
    · rw [htoken] at hkind
      exact absurd hkind (TokenKind.not_isName_of_isEnd tag.isEnd_endKind)
  have hbefore := tag.start_lt_nameStart
  have hslice := h.slice_eq_firstWord tag.inkedName hreads.name_mem hreads.isName (by omega)
    (by omega) fun t ht hle hlt => hreads.first t ht (by omega) hlt
  refine ⟨textOf tag.name, ?_, ?_, ?_⟩
  · rw [TagSpan.wholeName?, hreads.nameRange_eq, Option.map_some]
    show some (List.map _ (stretchAround _ _ (d.text.offsetOf (d.text.positionOf name.start)))) = _
    rw [Text.offsetOf_positionOf h.onlyLineFeeds (by omega),
      h.stretchAround_nameMarks tag.inkedName (by omega) (by omega)]
    rfl
  · rw [TagSpan.name?, hreads.nameRange_eq, Option.map_some, Text.rangeOf,
      Text.inRange_positionOf h.onlyLineFeeds (by omega) (by omega), hslice]
    rfl
  · obtain ⟨c, hc⟩ := getElem?_of_mem_tokensBetween hreads.name_mem
    have hmem : c ∈ d.text.slice name.start name.stop :=
      Text.mem_slice.2 ⟨name.start, Nat.le_refl _, hbounds.2.1, h.getElem?_text hc⟩
    rw [hslice] at hmem
    exact ne_nil_of_mem hmem

/-- The partner of a tag is one of those that a scan of the text finds, even if the tag is not. -/
lemma mem_tagsFrom_of_partner? {start : Nat} {tag : InkedTag ink} {name : OffsetToken}
    (hreads : d.Reads s start tag name) (hpartner : d.partner? s = some s') :
    s' ∈ d.tagsFrom .origin := by
  have hcounterpart := (Option.filter_eq_some_iff.1 hpartner).1
  have hlength := tag.stop_le_length
  have hscan : d.tagsFrom .origin =
      spansOf {} ((tokensBetween ink 0 ink.length).map (OffsetToken.hit d.text)) := by
    rw [← Text.positionOf_zero h.onlyLineFeeds, tagsFrom, h.tokensFrom_positionOf (Nat.zero_le _)]
  rw [hscan]
  unfold counterpart? at hcounterpart
  split at hcounterpart
  · cases hcounterpart
  · next hkind =>
    -- the bracket behind an open tag is met, and the search goes on from it
    obtain ⟨hmem, -⟩ := mem_of_balancingTag? hcounterpart
    have hend : tag.endKind ≠ .closeTagEnd := by
      intro hend
      rw [hreads.kind_eq, hend] at hkind
      cases hkind
    obtain ⟨last, hlast, hlastEnd, hle, hlt⟩ := tag.exists_last fun hclose => absurd hclose hend
    have hstop := (h.stop_eq_of_isEnd tag hlast hlastEnd
      (Nat.le_trans (Nat.le_of_lt tag.start_lt_length_front) hle) hlt).2.2
    obtain ⟨front, back, hsplit⟩ := append_of_mem hlast
    rw [hreads.range_eq, tagsFrom] at hmem
    have hfrom : d.tokensFrom (d.text.rangeOf start tag.stop).stop = _ :=
      h.tokensFrom_positionOf hlength
    rw [hfrom, ← hstop, (tokensBetween_split hsplit).2.2] at hmem
    have hhit : (last.hit d.text).kind.isEnd = true := hlastEnd
    rw [hsplit, map_append, map_cons, spansOf_append_end hhit]
    exact mem_append_right _ hmem
  · -- the bracket in front is met, and the search goes back from it
    obtain ⟨hmem, -⟩ := mem_of_balancingTag? hcounterpart
    obtain ⟨side, hbracket⟩ := hreads.bracket
    obtain ⟨first, hfirst, rfl, htoken⟩ := exists_start_tokensBetween hbracket (Nat.zero_le _)
      (List.getElem?_eq_some_iff.1 hbracket).1
    have hbounds := bounds_of_mem_tokensBetween hfirst
    obtain ⟨front, back, hsplit⟩ := append_of_mem hfirst
    rw [hreads.range_eq, tagsBefore] at hmem
    have hbefore : d.tokensBefore (d.text.rangeOf first.start tag.stop).start = _ :=
      h.tokensBefore_positionOf (i := first.start) (by omega)
    rw [hbefore, (tokensBetween_split hsplit).1, spansBackOf_reverse, mem_reverse] at hmem
    have hhit : (first.hit d.text).kind.isStart = true := by
      show first.token.kind.isStart = true
      rw [htoken]
      exact side.isStart_startKind
    rw [hsplit, map_append, map_cons, spansOf_append_start hhit]
    exact mem_append_left _ hmem

end Drawn

/-- **Partners are compared by the first words of their names.** Partners have the first word of their
whole names in common, and there is one. Their base names are the same if and only if what is around
that word is, and so they are if each is a word. -/
theorem partner?_firstWord (d : Document) (honly : d.text.OnlyLineFeeds)
    (hscopes : d.scopes = d.grammar.tokenize d.text) (p : Position) (hp : d.text.clip p = p)
    (s : TagSpan) (hs : d.tagAt p = .ok (some s)) (s' : TagSpan) (hpartner : d.partner? s = some s') :
    ∃ whole whole' : Text, s.wholeName? d = some whole ∧ s'.wholeName? d = some whole' ∧
      whole.firstWord = whole'.firstWord ∧ whole.firstWord ≠ [] ∧
      (baseName whole = baseName whole' ↔
        (baseName whole).withoutWord = (baseName whole').withoutWord) ∧
      ((∀ c ∈ baseName whole ++ baseName whole', Pattern.isWordChar c = true) →
        baseName whole ≠ [] → baseName whole' ≠ [] → baseName whole = baseName whole') := by
  obtain ⟨ink, h⟩ := exists_drawn honly hscopes
  obtain ⟨o, ho, rfl⟩ : ∃ o ≤ d.text.length, p = d.text.positionOf o :=
    ⟨d.text.offsetOf p, d.text.offsetOf_le_length p, by rw [Text.positionOf_offsetOf honly, hp]⟩
  -- a tag without brackets has no partner
  have hconcise : s.concise = false := by
    cases h.around_of_tagAt ho hs with
    | concise hconcise hkind =>
      have hcounterpart := (Option.filter_eq_some_iff.1 hpartner).1
      rw [counterpart?, hkind] at hcounterpart
      cases hcounterpart
    | brackets hx => exact hx.concise_eq
  obtain ⟨i, hi, hprobe, -, -, hsome, hnone⟩ := h.exists_probe ho
  obtain ⟨start, tag, name, hreads, -⟩ := h.exists_reads hi hprobe hsome hnone hs hconcise
  obtain ⟨whole, hwhole, hname, hne⟩ := h.exists_wholeName hreads
  have hnameRange : s'.nameRange ≠ none := by
    apply nameRange_partner? hpartner
    rw [hreads.nameRange_eq]
    exact Option.some_ne_none _
  obtain ⟨tag', name', hreads'⟩ := h.exists_reads_of_mem_tagsFrom
    (h.mem_tagsFrom_of_partner? hreads hpartner) hnameRange
  obtain ⟨whole', hwhole', hname', -⟩ := h.exists_wholeName hreads'
  have hfirst : whole.firstWord = whole'.firstWord := by
    have hsame := name?_partner? hpartner
    rw [hname, hname'] at hsame
    exact (Option.some.inj hsame).symm
  have hiff : baseName whole = baseName whole' ↔
      (baseName whole).withoutWord = (baseName whole').withoutWord := by
    refine ⟨congrArg _, fun hwithout => ?_⟩
    rw [← Text.flatMap_withoutWord_baseName whole, hfirst, hwithout,
      Text.flatMap_withoutWord_baseName]
  refine ⟨whole, whole', hwhole, hwhole', hfirst, hne, hiff, fun hword hbase hbase' => ?_⟩
  rw [hiff, Text.withoutWord_of_forall _ hbase, Text.withoutWord_of_forall _ hbase']
  · exact fun c hc => hword c (mem_append_right _ hc)
  · exact fun c hc => hword c (mem_append_left _ hc)

/-- A name with more than a word in it, and classes and an id that differ. -/
theorem partner?_firstWord_sampleClasses :
    let d := Document.ofText .marko "<@a_b.c\nd=\"\"><i></i></@a_b#e>".toList
    let s : TagSpan := ⟨.opening, ⟨⟨0, 0⟩, ⟨1, 5⟩⟩, some ⟨⟨0, 2⟩, ⟨0, 3⟩⟩, false⟩
    let s' : TagSpan := ⟨.closing, ⟨⟨1, 12⟩, ⟨1, 21⟩⟩, some ⟨⟨1, 15⟩, ⟨1, 16⟩⟩, false⟩
    d.text.OnlyLineFeeds ∧ d.scopes = d.grammar.tokenize d.text ∧ d.text.clip ⟨1, 1⟩ = ⟨1, 1⟩ ∧
      d.tagAt ⟨1, 1⟩ = .ok (some s) ∧ d.partner? s = some s' ∧
      s.wholeName? d = some "@a_b.c".toList ∧ s'.wholeName? d = some "@a_b#e".toList ∧
      Text.firstWord "@a_b.c".toList = Text.firstWord "@a_b#e".toList ∧
      baseName "@a_b.c".toList = baseName "@a_b#e".toList := by
  intro d s s'
  have honly : d.text.OnlyLineFeeds := by decide
  obtain ⟨hclip, hs, hpartner, hname, hname'⟩ : d.text.clip ⟨1, 1⟩ = ⟨1, 1⟩ ∧
      d.tagAt ⟨1, 1⟩ = .ok (some s) ∧ d.partner? s = some s' ∧
      s.wholeName? d = some "@a_b.c".toList ∧ s'.wholeName? d = some "@a_b#e".toList := by
    decide +kernel
  obtain ⟨whole, whole', hwhole, hwhole', hfirst, -, hiff, -⟩ :=
    partner?_firstWord d honly rfl ⟨1, 1⟩ hclip s hs s' hpartner
  obtain rfl := Option.some.inj (hname.symm.trans hwhole)
  obtain rfl := Option.some.inj (hname'.symm.trans hwhole')
  exact ⟨honly, rfl, hclip, hs, hpartner, hname, hname', hfirst, hiff.2 (by decide)⟩

/-- `<a_b>` and `</a_c>` are partners. -/
theorem partner?_base_names_differ :
    let d := Document.ofText .marko "<a_b></a_c>".toList
    let s : TagSpan := ⟨.opening, ⟨⟨0, 0⟩, ⟨0, 5⟩⟩, some ⟨⟨0, 1⟩, ⟨0, 2⟩⟩, false⟩
    let s' : TagSpan := ⟨.closing, ⟨⟨0, 5⟩, ⟨0, 11⟩⟩, some ⟨⟨0, 7⟩, ⟨0, 8⟩⟩, false⟩
    d.tagAt ⟨0, 0⟩ = .ok (some s) ∧ d.partner? s = some s' ∧
      (s.wholeName? d).map baseName = some "a_b".toList ∧
      (s'.wholeName? d).map baseName = some "a_c".toList := by
  decide +kernel

end Document

end TemplateEditing
