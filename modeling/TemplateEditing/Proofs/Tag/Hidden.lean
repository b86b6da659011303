import TemplateEditing.Proofs.Tag.Agreement

/-!
# What a search for tags does not meet

A search meets the tokens of tags, and not all parts of tags are tokens. A name without a character of
a word, such as `_`, is none; the name is known as a whole from each character of it (`InkedName`), and
it is a token if and only if it has a word (`InkedName.exists_token`, `hasWord_of_isName`). A slash
before the bracket behind a close tag hides that bracket, unless the slash belongs to another one
(`exists_mem_of_bracket`, `start_ne_of_slash`). A tag whose bracket and name are met is one that a scan
of the text finds (`isScanned`).
-/

namespace TemplateEditing

open List

variable {token : Token} {ink : List InkedChar}

open Lexer (isTagChar)

/-! ## What is not met -/

/-- The longest stretch around an offset whose characters all satisfy `p`. -/
def Text.around (p : Char → Bool) (t : Text) (offset : Nat) : Text :=
  takeEndWhile p (t.take offset) ++ (t.drop offset).takeWhile p

namespace Document

/-- The name of a tag stands here, with brackets or without, and has no character of a word. -/
def wordlessAt (d : Document) (concise : Bool) (p : Position) : Bool :=
  (d.tokenAt? p).any (fun token => token.kind.isName && token.concise == concise) &&
    !(d.text.around isTagChar (d.text.offsetOf p)).any Pattern.isWordChar

/-- An attribute stands here, and before it in its row such a name of a tag without brackets. -/
def behindWordless (d : Document) (p : Position) : Bool :=
  (d.tokenAt? p).any (·.kind == .attributeName) &&
    (List.range p.column).any fun column => d.wordlessAt true ⟨p.row, column⟩

/-- The bracket behind a close tag stands here, and before it a slash that no bracket precedes. -/
def behindSlash (d : Document) (p : Position) : Bool :=
  let before := d.text.take (d.text.offsetOf p)
  (d.tokenAt? p).any (·.kind == .closeTagEnd) && ['/'].isSuffixOf before &&
    !(['<', '/'].isSuffixOf before)

end Document

/-- The longest stretch of a list around a place whose members all satisfy `p`. -/
def stretchAround {α : Type} (p : α → Bool) (l : List α) (i : Nat) : List α :=
  ((l.take i).reverse.takeWhile p).reverse ++ (l.drop i).takeWhile p

/-- A stretch ends where something else follows. -/
lemma takeWhile_append_of_head? {α : Type} {p : α → Bool} {l l' : List α}
    (h : ∀ x ∈ l'.head?, p x = false) : (l ++ l').takeWhile p = l.takeWhile p := by
  induction l with
  | nil =>
    cases l' with
    | nil => rfl
    | cons x l' => exact takeWhile_cons_of_neg (by rw [h x rfl]; decide)
  | cons x l ih => rw [cons_append, takeWhile_cons, takeWhile_cons, ih]

/-- A stretch is found from each place in it. -/
lemma stretchAround_append {α : Type} {p : α → Bool} {u v w : List α}
    (hu : ∀ x ∈ u.getLast?, p x = false) (hv : ∀ x ∈ v, p x = true)
    (hw : ∀ x ∈ w.head?, p x = false) {i : Nat} (hi : u.length ≤ i) (hi' : i < u.length + v.length) :
    stretchAround p (u ++ v ++ w) i = v := by
  obtain ⟨k, rfl⟩ := Nat.exists_eq_add_of_le hi
  have hk : k ≤ v.length := by omega
  have hbefore : (((u ++ v ++ w).take (u.length + k)).reverse.takeWhile p).reverse = v.take k := by
    rw [append_assoc, take_length_add_append, take_append_of_le_length hk,
      reverse_append, takeWhile_append_of_head?, takeWhile_eq_self_iff.2,
      reverse_reverse]
    · intro x hx
      exact hv x (mem_of_mem_take (mem_reverse.1 hx))
    · intro x hx
      rw [head?_reverse] at hx
      exact hu x hx
  have hbehind : ((u ++ v ++ w).drop (u.length + k)).takeWhile p = v.drop k := by
    rw [append_assoc, drop_length_add_append, drop_append_of_le_length hk,
      takeWhile_append_of_head? hw, takeWhile_eq_self_iff]
    exact fun x hx => hv x (mem_of_mem_drop hx)
  rw [stretchAround, hbefore, hbehind, take_append_drop]

/-! ## Slashes before brackets -/

section
variable {a b : List InkedChar} {x : InkedChar}

/-- Where no token can go on from before, a scan takes what can be taken there. -/
lemma tokensBetween_append (happart : Pattern.Apart (textOf a) (textOf (x :: b)))
    (hne : Pattern.tagToken (textOf (x :: b)) ≠ 0) :
    tokensBetween (a ++ x :: b) 0 (a ++ x :: b).length =
      tokensIn 0 a ++ ((x.2.map (⟨a.length, a.length + Pattern.tagToken (textOf (x :: b)), ·⟩)).toList ++
        tokensIn (a.length + Pattern.tagToken (textOf (x :: b)))
          (b.drop (Pattern.tagToken (textOf (x :: b)) - 1))) := by
  rw [tokensBetween, take_length, drop_zero, tokensIn_append happart, Nat.zero_add]
  obtain ⟨c, part⟩ := x
  rw [textOf_cons] at hne ⊢
  rw [tokensIn, if_neg hne]

lemma exists_mem_of_apart (hink : ink = a ++ x :: b)
    (happart : Pattern.Apart (textOf a) (textOf (x :: b))) (hpart : x.2 = some token)
    (hne : Pattern.tagToken (textOf (x :: b)) ≠ 0) :
    ∃ t ∈ tokensBetween ink 0 ink.length, t.start = a.length ∧ t.token = token := by
  have hmem := mem_tokensIn_of_apart happart hpart hne 0
  rw [Nat.zero_add, ← hink] at hmem
  rw [tokensBetween, take_length, drop_zero]
  exact ⟨_, hmem, rfl, rfl⟩

/-- A bracket is met behind a bracket and a slash, which belong together. -/
lemma exists_mem_of_bracket_slash {y : InkedChar} (hx : x.1 = '<') (hy : y.1 = '/')
    (hink : ink = a ++ x :: y :: ('>', some token) :: b) :
    ∃ t ∈ tokensBetween ink 0 ink.length, t.start = a.length + 2 ∧ t.token = token := by
  obtain ⟨c, part⟩ := x
  obtain ⟨c', part'⟩ := y
  obtain rfl : c = '<' := hx
  obtain rfl : c' = '/' := hy
  subst hink
  have htaken : Pattern.tagToken
      (textOf (('<', part) :: ('/', part') :: ('>', some token) :: b)) = 2 := by
    rw [textOf_cons, Pattern.tagToken_cons]
    rfl
  rw [tokensBetween_append (Pattern.apart_bracket_cons _ _) (by rw [htaken]; decide), htaken]
  refine ⟨⟨a.length + 2, a.length + 2 + 1, token⟩, ?_, rfl, rfl⟩
  refine mem_append_right _ (mem_append_right _ ?_)
  show _ ∈ tokensIn (a.length + 2) (('>', some token) :: b)
  rw [tokensIn, Pattern.tagToken_cons]
  exact mem_cons_self

/-- A bracket is not met behind another slash, which hides it. -/
lemma start_ne_of_slash {y : InkedChar} (ha : ∀ z ∈ a.getLast?, z.1 ≠ '<') (hx : x.1 = '/')
    (hy : y.1 = '>') (hink : ink = a ++ x :: y :: b) {t : OffsetToken}
    (ht : t ∈ tokensBetween ink 0 ink.length) : t.start ≠ a.length + 1 := by
  obtain ⟨c, part⟩ := x
  obtain ⟨c', part'⟩ := y
  obtain rfl : c = '/' := hx
  obtain rfl : c' = '>' := hy
  subst hink
  have htaken : Pattern.tagToken (textOf (('/', part) :: ('>', part') :: b)) = 2 := by
    rw [textOf_cons, Pattern.tagToken_cons]
    rfl
  have happart : Pattern.Apart (textOf a) (textOf (('/', part) :: ('>', part') :: b)) := by
    intro e he f hf
    cases hf
    obtain ⟨z, hz, rfl⟩ := Option.map_eq_some_iff.1
      ((getLast?_map (f := Prod.fst) (l := a)).symm.trans he)
    simp [Pattern.joins, ha z hz, show Pattern.isWordChar '/' = false by decide]
  rw [tokensBetween_append happart (by rw [htaken]; decide), htaken] at ht
  rcases mem_append.1 ht with ht | ht
  · have := start_lt_stop_of_mem ht
    omega
  rcases mem_append.1 ht with ht | ht
  · rw [Option.mem_toList, Option.map_eq_some_iff] at ht
    obtain ⟨token, -, rfl⟩ := ht
    show a.length ≠ a.length + 1
    omega
  · have := start_lt_stop_of_mem ht
    omega

/-- A bracket that is alone is met, unless such a slash hides it. -/
lemma exists_mem_of_bracket (hink : ink = a ++ ('>', some token) :: b)
    (hslash : ['/'] <:+ textOf a → ['<', '/'] <:+ textOf a) :
    ∃ t ∈ tokensBetween ink 0 ink.length, t.start = a.length ∧ t.token = token := by
  by_cases hlast : ['/'] <:+ textOf a
  · obtain ⟨lead, hlead⟩ := hslash hlast
    obtain ⟨a', last, rfl, -, hpair⟩ := map_eq_append_iff.1 hlead.symm
    obtain ⟨x, last, rfl, hx, hlast⟩ := map_eq_cons_iff.1 hpair
    obtain ⟨y, last, rfl, hy, hnil⟩ := map_eq_cons_iff.1 hlast
    obtain rfl := map_eq_nil_iff.1 hnil
    rw [length_append]
    exact exists_mem_of_bracket_slash hx hy (by rw [hink, append_assoc]; rfl)
  · have happart : Pattern.Apart (textOf a) (textOf (('>', some token) :: b)) := by
      intro c hc d hd
      cases hd
      have hne : c ≠ '/' := by
        rintro rfl
        exact hlast (singleton_suffix_iff_getLast?_eq_some.2 hc)
      simp [Pattern.joins, hne, show Pattern.isWordChar '>' = false by decide]
    exact exists_mem_of_apart hink happart rfl (by rw [textOf_cons, Pattern.tagToken_cons]; simp)

end

/-! ## Tags that are scanned -/

namespace InkedTag

variable {ink : List InkedChar} (tag : InkedTag ink)

/-- A scan of the text finds the tag, with its name. -/
def IsScanned : Prop :=
  ∃ front first passed last back, tag.Scanned front first passed last back ∧
    passed.find? (·.token.kind.isName) ≠ none

/-- The bracket behind a close tag is one character. -/
lemma eq_length_front {i : Nat} {c : Char} (hi : ink[i]? = some (c, some token))
    (hend : token.kind.isEnd = true)
    (hle : tag.start ≤ i) (hlt : i < tag.stop) (hkind : tag.endKind = .closeTagEnd) :
    i = tag.front.length := by
  have hstop : tag.stop = tag.front.length + 1 := by
    rw [tag.stop_eq_front, hkind]
    rfl
  have hfront := (tag.token_eq_of_isEnd hi hle hlt hend).1
  omega

/-- The bracket behind a tag is met, unless it is that of a close tag and a slash hides it. -/
lemma exists_last (hslash : tag.endKind = .closeTagEnd → ['/'] <:+ textOf tag.front →
      ['<', '/'] <:+ textOf tag.front) :
    ∃ t ∈ tokensBetween ink 0 ink.length, t.token.kind.isEnd = true ∧ tag.front.length ≤ t.start ∧
      t.start < tag.stop := by
  have hink : ink = tag.front ++ (tag.endKind.endInk ++ tag.rest) := by
    rw [← append_assoc]
    exact tag.ink_eq
  have hstop := tag.stop_eq_front
  -- a bracket of one character
  have hsingle : tag.endKind.endInk = [('>', some ⟨tag.endKind, false⟩)] →
      (['/'] <:+ textOf tag.front → ['<', '/'] <:+ textOf tag.front) →
      ∃ t ∈ tokensBetween ink 0 ink.length, t.token.kind.isEnd = true ∧
        tag.front.length ≤ t.start ∧ t.start < tag.stop := by
    intro hend hslash
    rw [hend] at hink hstop
    obtain ⟨t, ht, hstart, htoken⟩ := exists_mem_of_bracket hink hslash
    refine ⟨t, ht, ?_, by omega, ?_⟩
    · rw [htoken]
      exact tag.isEnd_endKind
    · rw [hstop, hstart]
      exact Nat.lt_succ_self _
  rcases tag.endKind_cases with hend | hend | hend
  · refine hsingle (by rw [hend]; rfl) fun hlast => ?_
    exact absurd (singleton_suffix_iff_getLast?_eq_some.1 hlast) (tag.getLast?_ne hend)
  · -- the slash belongs to the bracket, or to one before it
    rw [hend] at hink hstop
    have hlength : tag.stop = tag.front.length + 2 := hstop
    by_cases hlast : ['<'] <:+ textOf tag.front
    · obtain ⟨t, ht, hstart, htoken⟩ := exists_mem_of_bracket
        (hink.trans (append_cons tag.front ('/', some ⟨.selfClosingEnd, false⟩) _))
        fun _ => by
          obtain ⟨lead, hlead⟩ := hlast
          exact ⟨lead, by rw [textOf_append, ← hlead, append_assoc]; rfl⟩
      rw [length_append, length_singleton] at hstart
      exact ⟨t, ht, by rw [htoken]; rfl, by omega, by omega⟩
    · have happart : Pattern.Apart (textOf tag.front)
          (textOf (('/', some ⟨.selfClosingEnd, false⟩) ::
            ('>', some ⟨.selfClosingEnd, false⟩) :: tag.rest)) := by
        intro c hc d hd
        cases hd
        have hne : c ≠ '<' := by
          rintro rfl
          exact hlast (singleton_suffix_iff_getLast?_eq_some.2 hc)
        simp [Pattern.joins, hne, show Pattern.isWordChar '/' = false by decide]
      obtain ⟨t, ht, hstart, htoken⟩ := exists_mem_of_apart hink happart rfl
        (by rw [textOf_cons, Pattern.tagToken_cons]; simp)
      exact ⟨t, ht, by rw [htoken]; rfl, by omega, by omega⟩
  · exact hsingle (by rw [hend]; rfl) (hslash hend)

end InkedTag

namespace Document.Drawn

variable {d : Document} {ink : List InkedChar} (h : d.Drawn ink) (tag : InkedTag ink)

include h

/-- A tag is scanned if the bracket behind it and a name in it are met. -/
lemma isScanned {last t : OffsetToken} (hlast : last ∈ tokensBetween ink 0 ink.length)
    (hend : last.token.kind.isEnd = true) (hle : tag.start ≤ last.start)
    (hlt : last.start < tag.stop) (ht : t ∈ tokensBetween ink 0 ink.length)
    (hname : t.token.kind.isName = true) (hle' : tag.start < t.start) (hlt' : t.start < tag.stop) :
    tag.IsScanned := by
  obtain ⟨hfront, -, hstop⟩ := h.stop_eq_of_isEnd tag hlast hend hle hlt
  have hstart := tag.start_lt_length_front
  have hlength := tag.stop_le_length
  obtain ⟨first, hfirst, hfirst', -⟩ :=
    exists_start_tokensBetween tag.getElem?_start (Nat.zero_le _) (j := ink.length) (by omega)
  obtain ⟨front, behind, hsplit⟩ := append_of_mem hfirst
  have hmem : last ∈ behind := by
    have hbounds := bounds_of_mem_tokensBetween hlast
    rw [hsplit, mem_append, mem_cons] at hlast
    rcases hlast with hmem | rfl | hmem
    · have := (stop_le_of_split hsplit).1 last hmem
      omega
    · omega
    · exact hmem
  obtain ⟨passed, back, rfl⟩ := append_of_mem hmem
  refine ⟨front, first, passed, last, back, h.scanned tag hsplit hfirst' hstop hend, fun hnone => ?_⟩
  -- the name comes before the bracket
  have hpassed : t ∈ passed := by
    refine (between_of_split hsplit).mem_passed t ht (by omega) ?_
    rcases apart_of_mem_tokensBetween ht hlast with rfl | hapart | hapart
    · exact absurd hname (TokenKind.not_isName_of_isEnd hend)
    · have := bounds_of_mem_tokensBetween ht
      omega
    · omega
  exact find?_eq_none.1 hnone t hpassed hname

omit tag in
/-- The tag found at a place in a tag that is scanned is one of those that a scan of the text finds. -/
lemma mem_tagsFrom_of_isScanned {tag : InkedTag ink} (htag : tag.IsScanned) {p : Position} {i : Nat}
    {s : TagSpan} (hp : d.probe p = d.text.positionOf i) (hle : tag.start ≤ i) (hlt : i < tag.stop)
    (hsome : ∀ token, d.tokenAt? (d.text.positionOf i) = some token →
      ∃ c, c ≠ '\n' ∧ ink[i]? = some (c, some token))
    (hs : d.tagAt p = .ok (some s)) : s ∈ d.tagsFrom .origin := by
  obtain ⟨front, first, passed, last, back, hscanned, hname⟩ := htag
  rw [h.tagAt_of_scanned hscanned hname hp hle hlt hsome] at hs
  obtain rfl := Option.some.inj (Except.ok.inj hs)
  have hfirst : (first.hit d.text).kind.isStart = true := by
    show first.token.kind.isStart = true
    rw [hscanned.token_first]
    exact tag.side.isStart_startKind
  have hlast : (last.hit d.text).kind.isEnd = true := by
    show last.token.kind.isEnd = true
    rw [hscanned.token_last]
    exact tag.isEnd_endKind
  have htokens : d.tokensFrom .origin = front.map (OffsetToken.hit d.text) ++ first.hit d.text ::
      (passed.map (OffsetToken.hit d.text) ++ last.hit d.text ::
        back.map (OffsetToken.hit d.text)) := by
    rw [← Text.positionOf_zero h.onlyLineFeeds, h.tokensFrom_positionOf (Nat.zero_le _),
      hscanned.tokens_eq]
    simp only [map_append, map_cons]
  rw [tagsFrom, htokens, spansOf_append_start hfirst,
    spansOf_tag hfirst (noBracket_hits (isInner_passed hscanned) _) hlast]
  exact mem_append_right _ mem_cons_self

end Document.Drawn

/-! ## Names -/

/-- The whole name of a tag in an inked text. -/
structure InkedName (ink : List InkedChar) where
  lead : List InkedChar
  name : List InkedChar
  rest : List InkedChar
  token : Token
  ink_eq : ink = lead ++ name ++ rest
  isName : token.kind.isName = true
  isNameInk : ∀ x ∈ name, isTagChar x.1 = true ∧ x.2 = some token
  lead_last : ∀ x ∈ lead.getLast?, isTagChar x.1 = false
  rest_head : ∀ x ∈ rest.head?, isTagChar x.1 = false

namespace InkedName

variable {ink : List InkedChar} (n : InkedName ink)

/-- The offset of the name. -/
def start : Nat := n.lead.length

/-- The offset behind the name. -/
def stop : Nat := n.lead.length + n.name.length

/-- The name has a character of a word. -/
def hasWord : Bool := (textOf n.name).any Pattern.isWordChar

lemma stop_le_length : n.stop ≤ ink.length := by
  have hlength := congrArg List.length n.ink_eq
  rw [length_append, length_append] at hlength
  rw [stop]
  omega

lemma mem_name {m : Nat} {x : InkedChar} (hx : ink[m]? = some x) (hle : n.start ≤ m)
    (hlt : m < n.stop) : x ∈ n.name := by
  rw [n.ink_eq, getElem?_append_left (by rw [length_append]; exact hlt),
    getElem?_append_right hle] at hx
  exact mem_of_getElem? hx

/-- No tag starts in a name. -/
lemma not_mem_of_bracket {m : Nat} {part : Option Token} (hx : ink[m]? = some ('<', part)) :
    m < n.start ∨ n.stop ≤ m := by
  by_contra hwithin
  have hchar := (n.isNameInk _ (n.mem_name hx (by omega) (by omega))).1
  cases hchar

/-- A word in a name is a token. -/
lemma exists_token (hword : n.hasWord = true) {i j : Nat} (hi : i ≤ n.start) (hj : n.stop ≤ j) :
    ∃ t ∈ tokensBetween ink i j, n.start ≤ t.start ∧ t.start < n.stop ∧ t.token = n.token := by
  refine exists_word_tokensBetween n.ink_eq (fun x hx => ?_) (fun x hx => (n.isNameInk x hx).2)
    hword hi hj
  rw [Bool.eq_false_iff]
  intro hchar
  have hlast := n.lead_last x hx
  rw [isTagChar_of_isWordChar hchar] at hlast
  cases hlast

end InkedName

/-- A name does not start before the bracket in front of its tag. -/
lemma Lexer.Side.isTagChar_getLast? (side : Lexer.Side) (lead : List InkedChar) :
    ∀ x ∈ (lead ++ side.startInk).getLast?, isTagChar x.1 = false := by
  intro x hx
  rw [getLast?_append] at hx
  cases side <;> cases hx <;> decide

/-- The whole name of a tag. -/
def InkedTag.inkedName {ink : List InkedChar} (tag : InkedTag ink) : InkedName ink where
  lead := tag.lead ++ tag.side.startInk
  name := tag.name
  rest := tag.more ++ tag.endKind.endInk ++ tag.rest
  token := ⟨tag.side.nameKind, false⟩
  ink_eq := tag.ink_eq.trans (by simp only [append_assoc])
  isName := tag.side.isName_nameKind
  isNameInk := tag.isNameInk
  lead_last := tag.side.isTagChar_getLast? tag.lead
  rest_head := by
    intro x hx
    apply tag.isTagChar_nameStop
    have hlength : tag.nameStop = (tag.lead ++ tag.side.startInk ++ tag.name).length := by
      rw [InkedTag.nameStop, InkedTag.nameStart, InkedTag.start]
      simp only [length_append]
    have hink : ink = (tag.lead ++ tag.side.startInk ++ tag.name) ++
        (tag.more ++ tag.endKind.endInk ++ tag.rest) :=
      tag.ink_eq.trans (by simp only [append_assoc])
    rw [hlength]
    refine (congrArg (·[_]?) hink).trans ?_
    rw [getElem?_append_right (Nat.le_refl _), Nat.sub_self, ← head?_eq_getElem?]
    exact hx

namespace Document.Drawn

variable {d : Document} {ink : List InkedChar} (h : d.Drawn ink) {i : Nat}

include h

lemma wordlessAt_eq (n : InkedName ink) (hle : n.start ≤ i) (hlt : i < n.stop) :
    d.wordlessAt n.token.concise (d.text.positionOf i) = !n.hasWord := by
  have hlength : i < ink.length := Nat.lt_of_lt_of_le hlt n.stop_le_length
  have hx : ink[i]? = some ink[i] := getElem?_eq_getElem hlength
  obtain ⟨hchar, hpart⟩ := n.isNameInk _ (n.mem_name hx hle hlt)
  have htoken : d.tokenAt? (d.text.positionOf i) = some n.token :=
    (h.tokenAt?_eq hx (Lexer.isTagChar_ne hchar (by decide))).trans hpart
  -- the characters of a tag around the place are those of the name
  have haround : d.text.around isTagChar i = textOf n.name := by
    have htext : d.text = textOf n.lead ++ textOf n.name ++ textOf n.rest := by
      rw [← textOf_append, ← textOf_append, ← n.ink_eq]
      exact h.text_eq
    rw [htext]
    refine stretchAround_append ?_ ?_ ?_ ?_ ?_
    · intro c hc
      obtain ⟨x, hx, rfl⟩ := Option.map_eq_some_iff.1 (getLast?_map.symm.trans hc)
      exact n.lead_last x hx
    · intro c hc
      obtain ⟨x, hx, rfl⟩ := mem_map.1 hc
      exact (n.isNameInk x hx).1
    · intro c hc
      obtain ⟨x, hx, rfl⟩ := Option.map_eq_some_iff.1 (head?_map.symm.trans hc)
      exact n.rest_head x hx
    · rw [textOf, length_map]
      exact hle
    · rw [textOf, textOf, length_map, length_map]
      exact hlt
  have hoffset : d.text.offsetOf (d.text.positionOf i) = i :=
    Text.offsetOf_positionOf h.onlyLineFeeds (by rw [h.length_eq]; omega)
  rw [wordlessAt, htoken, hoffset, haround, InkedName.hasWord]
  simp [n.isName]

/-- A name that is a token has a word. -/
lemma hasWord_of_isName (n : InkedName ink) {j k : Nat} {t : OffsetToken}
    (ht : t ∈ tokensBetween ink j k) (hkind : t.token.kind.isName = true) (hle : n.start ≤ t.start)
    (hlt : t.start < n.stop) : n.hasWord = true := by
  have hbounds := bounds_of_mem_tokensBetween ht
  obtain ⟨c, hc⟩ := getElem?_of_mem_tokensBetween ht
  refine any_eq_true.2 ⟨c, mem_map_of_mem (n.mem_name hc hle hlt), ?_⟩
  exact h.isWordChar_of_isName ht hkind c
    (Text.mem_slice.2 ⟨t.start, Nat.le_refl _, hbounds.2.1, h.getElem?_text hc⟩)

/-- From each character of it the whole name of a tag with brackets is known, and the bracket in
front. -/
lemma exists_inkedName {c : Char} (hi : ink[i]? = some (c, some token))
    (hkind : token.kind.isName = true) (hconcise : token.concise = false) :
    ∃ (n : InkedName ink) (start : Nat) (side : Lexer.Side),
      ink[start]? = some ('<', some ⟨side.startKind, false⟩) ∧
      n.start = start + side.startInk.length ∧ n.token = token ∧ token = ⟨side.nameKind, false⟩ ∧
      n.start ≤ i ∧ i < n.stop := by
  obtain ⟨q, hwalk, -⟩ := h.walk
  obtain ⟨a, b, hink, rfl⟩ := exists_append_of_getElem? hi
  obtain ⟨side, lead, part, ha, hpart, hc, htoken⟩ :=
    Site.exists_of_name hwalk hink rfl hkind hconcise
  -- the name goes back to its bracket, and on as long as its characters do
  obtain ⟨more, rest, hb, hmore, hrest⟩ := Site.exists_rest_of_name hwalk hink rfl htoken
  have hink' : ink = lead ++ side.startInk ++ (part ++ ((c, some token) :: more)) ++ rest := by
    rw [hink, ha, hb]
    simp only [append_assoc, cons_append]
  have hname : IsNameInk side (part ++ ((c, some token) :: more)) := by
    refine Site.isNameInk_append hpart fun x hx => ?_
    rcases mem_cons.1 hx with rfl | hx
    · exact ⟨hc, congrArg some htoken⟩
    · exact hmore x hx
  refine ⟨⟨_, _, rest, token, hink', hkind, ?_, side.isTagChar_getLast? lead, hrest⟩, lead.length,
    side, ?_, length_append, rfl, htoken, ?_, ?_⟩
  · intro x hx
    rw [htoken]
    exact hname x hx
  · rw [hink', append_assoc, append_assoc, getElem?_append_right (Nat.le_refl _),
      Nat.sub_self]
    cases side <;> rfl
  · show (lead ++ side.startInk).length ≤ a.length
    simp only [ha, length_append]
    omega
  · show a.length < (lead ++ side.startInk).length + (part ++ ((c, some token) :: more)).length
    simp only [ha, length_append, length_cons]
    omega

end Document.Drawn

end TemplateEditing
