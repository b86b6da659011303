import TemplateEditing.Proofs.Change.Offsets
import TemplateEditing.Proofs.Grammar.Trails
import TemplateEditing.Proofs.Tag.Searches

/-!
# Where the tags found stand

Tokens are brackets and names that stand in the ink of the text, so what a search through tokens
comes to can be told by offsets: a tag goes from a bracket in front to one behind, with its name
between them (`TagSpan.StandsAt`), and its text has the brackets of its kind
(`TagSpan.Delimited`).
-/

namespace TemplateEditing

open List

variable {m i j : Nat} {token : Token} {t : OffsetToken}

open Lexer (isTagChar)

/-! ## Tokens between two offsets -/

lemma exists_append_of_getElem? {α : Type} {l : List α} {n : Nat} {x : α} (h : l[n]? = some x) :
    ∃ a b, l = a ++ x :: b ∧ a.length = n := by
  obtain ⟨hlt, rfl⟩ := List.getElem?_eq_some_iff.1 h
  refine ⟨l.take n, l.drop (n + 1), ?_, ?_⟩
  · rw [← drop_eq_getElem_cons hlt, take_append_drop]
  · rw [length_take]
    omega

/-- The tokens of the text between two offsets. -/
def tokensBetween (ink : List InkedChar) (i j : Nat) : List OffsetToken :=
  tokensIn i ((ink.take j).drop i)

section
variable {ink : List InkedChar} {i j : Nat} {t : OffsetToken}

lemma exists_of_mem_tokensBetween (h : t ∈ tokensBetween ink i j) :
    ∃ a x b, ink = a ++ x :: (b ++ ink.drop j) ∧ a.length = t.start ∧ x.2 = some t.token ∧
      t.stop = t.start + Pattern.tagToken (textOf (x :: b)) ∧
      Pattern.tagToken (textOf (x :: b)) ≠ 0 := by
  obtain ⟨a, x, b, hdrop, hstart, hpart, hstop, hne⟩ := exists_of_mem_tokensIn h
  have hlength : ((ink.take j).take i).length = i := by
    have : 0 < ((ink.take j).drop i).length := by
      rw [hdrop]
      simp only [length_append, length_cons]
      omega
    rw [length_drop] at this
    rw [length_take]
    omega
  refine ⟨(ink.take j).take i ++ a, x, b, ?_, ?_, hpart, hstop, hne⟩
  · have htake : ink.take j = (ink.take j).take i ++ (a ++ x :: b) := by
      rw [← hdrop, take_append_drop]
    calc ink = ink.take j ++ ink.drop j := (take_append_drop j ink).symm
      _ = ((ink.take j).take i ++ (a ++ x :: b)) ++ ink.drop j := by rw [← htake]
      _ = _ := by simp only [append_assoc, cons_append]
  · rw [length_append, hlength, hstart]

lemma getElem?_of_mem_tokensBetween (h : t ∈ tokensBetween ink i j) :
    ∃ c, ink[t.start]? = some (c, some t.token) := by
  obtain ⟨a, x, b, hink, hstart, hpart, -⟩ := exists_of_mem_tokensBetween h
  refine ⟨x.1, ?_⟩
  rw [hink, ← hstart, getElem?_append_right (Nat.le_refl _), Nat.sub_self, ← hpart]
  rfl

lemma bounds_of_mem_tokensBetween (h : t ∈ tokensBetween ink i j) :
    i ≤ t.start ∧ t.start < t.stop ∧ t.stop ≤ j ∧ t.stop ≤ ink.length := by
  have hbounds := start_lt_stop_of_mem h
  rw [length_drop, length_take] at hbounds
  omega

/-- Where no token can go on from before, there is a token. -/
lemma exists_mem_tokensBetween {x : InkedChar} (hx : ink[m]? = some x)
    (hpart : x.2 = some token) (hne : ∀ more, Pattern.tagToken (x.1 :: more) ≠ 0)
    (hprev : ∀ y, i < m → ink[m - 1]? = some y → Pattern.joins y.1 x.1 = false) (hi : i ≤ m)
    (hj : m < j) : ∃ t ∈ tokensBetween ink i j, t.start = m ∧ t.token = token := by
  have hx' : ((ink.take j).drop i)[m - i]? = some x := by
    rw [getElem?_drop, getElem?_take_of_lt (by omega), show i + (m - i) = m by omega, hx]
  obtain ⟨a, b, hab, hlength⟩ := exists_append_of_getElem? hx'
  have hapart : Pattern.Apart (textOf a) (textOf (x :: b)) := by
    intro c hc d hd
    cases hd
    obtain ⟨y, hy, rfl⟩ := Option.map_eq_some_iff.1
      ((getLast?_map (f := Prod.fst) (l := a)).symm.trans hc)
    have hpos : 0 < a.length := by
      cases a with
      | nil => cases hy
      | cons => simp
    refine hprev y (by omega) ?_
    have hy' : ((ink.take j).drop i)[m - i - 1]? = some y := by
      rw [hab, getElem?_append_left (by omega), ← hlength, ← getLast?_eq_getElem?, hy]
    rw [getElem?_drop, getElem?_take_of_lt (by omega)] at hy'
    rw [← hy']
    congr 1
    omega
  have hmem := mem_tokensIn_of_apart hapart hpart (hne (textOf b)) i
  rw [← hab] at hmem
  exact ⟨_, hmem, by simp only [hlength]; omega, rfl⟩

/-- A bracket in front of a tag is always a token. -/
lemma exists_start_tokensBetween (hx : ink[m]? = some ('<', some token))
    (hi : i ≤ m) (hj : m < j) : ∃ t ∈ tokensBetween ink i j, t.start = m ∧ t.token = token := by
  refine exists_mem_tokensBetween hx rfl ?_ ?_ hi hj
  · intro more
    rw [Pattern.tagToken_cons]
    simp only [show ('<' : Char) ≠ '/' by decide, show ('<' : Char) ≠ '>' by decide, if_false,
      if_true]
    split <;> decide
  · intro y _ _
    simp [Pattern.joins, show Pattern.isWordChar '<' = false by decide]

lemma pairwise_tokensBetween (ink : List InkedChar) (i j : Nat) :
    (tokensBetween ink i j).Pairwise fun t t' => t.stop ≤ t'.start := pairwise_tokensIn _ _

/-- Tokens before another one in a list of tokens stand before it in the text. -/
lemma stop_le_of_split {passed rest : List OffsetToken}
    (h : tokensBetween ink i j = passed ++ t :: rest) :
    (∀ t' ∈ passed, t'.stop ≤ t.start) ∧ ∀ t' ∈ rest, t.stop ≤ t'.start := by
  have hsorted := pairwise_tokensBetween ink i j
  rw [h, pairwise_append] at hsorted
  exact ⟨fun t' ht' => hsorted.2.2 t' ht' t mem_cons_self,
    (pairwise_cons.1 hsorted.2.1).1⟩

/-- Tokens do not overlap. -/
lemma apart_of_mem_tokensBetween {t' : OffsetToken} (ht : t ∈ tokensBetween ink i j)
    (ht' : t' ∈ tokensBetween ink i j) :
    t = t' ∨ t.stop ≤ t'.start ∨ t'.stop ≤ t.start := by
  obtain ⟨passed, rest, hsplit⟩ := append_of_mem ht
  have hsorted := stop_le_of_split hsplit
  rw [hsplit, mem_append, mem_cons] at ht'
  rcases ht' with ht' | rfl | ht'
  · exact .inr (.inr (hsorted.1 t' ht'))
  · exact .inl rfl
  · exact .inr (.inl (hsorted.2 t' ht'))

/-- A token that ends before an offset is found without what follows. -/
lemma mem_tokensBetween_of_stop_le {k : Nat} (h : t ∈ tokensBetween ink i k) (hj : t.stop ≤ j)
    (hjk : j ≤ k) : t ∈ tokensBetween ink i j := by
  have hbounds := bounds_of_mem_tokensBetween h
  have hsplit : (ink.take k).drop i = (ink.take j).drop i ++ (ink.take k).drop j := by
    have hle : i ≤ (ink.take j).length := by
      rw [length_take]
      omega
    conv_lhs => rw [← take_append_drop j (ink.take k), take_take, Nat.min_eq_left hjk]
    rw [drop_append_of_le_length hle]
  rw [tokensBetween, hsplit] at h
  refine mem_tokensIn_of_stop_le h ?_
  rw [length_drop, length_take]
  omega

/-- Behind a token the tokens are those that a search from there finds. -/
lemma mem_tokensBetween_of_mem {t' : OffsetToken} (h : t ∈ tokensBetween ink i j)
    (h' : t' ∈ tokensBetween ink t.stop j) : t' ∈ tokensBetween ink i j := by
  have hbounds := bounds_of_mem_tokensBetween h
  refine mem_tokensIn_of_mem_drop h ?_
  rw [drop_drop, show i + (t.stop - i) = t.stop by omega]
  exact h'

end

namespace Document.Inked

variable {d : Document} {ink : List InkedChar} {i : Nat}

lemma length_eq (h : d.Inked ink) : d.text.length = ink.length := by
  rw [h.text_eq, length_textOf]

lemma exists_getElem?_ink (h : d.Inked ink) {c : Char} (hc : d.text[m]? = some c) :
    ∃ part, ink[m]? = some (c, part) := by
  rw [h.text_eq, textOf, getElem?_map] at hc
  obtain ⟨x, hx, rfl⟩ := Option.map_eq_some_iff.1 hc
  exact ⟨x.2, hx⟩

lemma tokensBefore_positionOf (h : d.Inked ink) (hi : i ≤ ink.length) :
    d.tokensBefore (d.text.positionOf i) =
      ((tokensBetween ink 0 i).map (OffsetToken.hit d.text)).reverse := by
  have hlength : (ink.take i).length = i := by
    rw [length_take]
    omega
  have heq := h.tokensBefore_eq (take_append_drop i ink).symm
  rw [hlength] at heq
  exact heq

lemma tokensFrom_positionOf (h : d.Inked ink) (hi : i ≤ ink.length) :
    d.tokensFrom (d.text.positionOf i) =
      (tokensBetween ink i ink.length).map (OffsetToken.hit d.text) := by
  have hlength : (ink.take i).length = i := by
    rw [length_take]
    omega
  have heq := h.tokensFrom_eq (take_append_drop i ink).symm
  rw [hlength] at heq
  rw [heq, tokensBetween, take_length]

end Document.Inked

/-! ## Brackets and names by offsets -/

lemma isTagChar_of_isWordChar {c : Char} (h : Pattern.isWordChar c = true) : isTagChar c = true := by
  simp only [Pattern.isWordChar, Bool.or_eq_true] at h
  simp only [isTagChar, Lexer.isAttributeChar, Bool.or_eq_true]
  rcases h with (h | h) | h <;> simp [h]

namespace Document.Drawn

variable {d : Document} {ink : List InkedChar} (h : d.Drawn ink)

include h

/-- A token that is a bracket in front of a tag stands at the start of the tag. -/
lemma getElem?_of_isStart (ht : t ∈ tokensBetween ink i j) (hkind : t.token.kind.isStart = true) :
    ∃ side : Lexer.Side, t.token = ⟨side.startKind, false⟩ ∧
      ink[t.start]? = some ('<', some ⟨side.startKind, false⟩) := by
  obtain ⟨q, hwalk, -⟩ := h.walk
  obtain ⟨a, x, b, hink, hstart, hpart, -, hne⟩ := exists_of_mem_tokensBetween ht
  have hx : ink[t.start]? = some x := by
    rw [hink, ← hstart, getElem?_append_right (Nat.le_refl _), Nat.sub_self]
    rfl
  rcases Site.isStart_cases hwalk hink hpart hkind with ⟨hc, side, htoken⟩ | ⟨hc, -, -, hnext⟩
  · refine ⟨side, htoken, ?_⟩
    rw [hx, ← htoken, ← hpart, ← hc]
  · -- nothing is taken at the slash of a close tag
    rw [textOf_cons, hc, Pattern.tagToken_cons, if_pos rfl] at hne
    split at hne
    · next hhead =>
      cases b with
      | nil => cases hhead
      | cons y b =>
        have := hnext y rfl
        rw [show y.1 = '>' from Option.some.inj hhead] at this
        cases this
    · exact absurd rfl hne

/-- The tag that a bracket stands behind. -/
lemma exists_inkedTag_of_isEnd {stop : Nat} {x : InkedChar} (hx : ink[stop]? = some x)
    (hpart : x.2 = some token) (hend : token.kind.isEnd = true) :
    ∃ tag : InkedTag ink, tag.endKind = token.kind ∧ tag.start < stop ∧ stop < tag.stop ∧
      stop + (if x.1 = '/' then 2 else 1) = tag.stop := by
  obtain ⟨q, hwalk, hq⟩ := h.walk
  obtain ⟨a, b, hink, rfl⟩ := exists_append_of_getElem? hx
  obtain ⟨tag, hkind, hstart, hstop⟩ := Site.exists_inkedTag hwalk hq hink hpart hend
  exact ⟨tag, hkind, hstart, by split at hstop <;> omega, hstop⟩

/-- Between a bracket in front of a tag and one behind, with no other in front between them, lies
one tag. -/
lemma exists_inkedTag {start stop : Nat} {side : Lexer.Side} {x : InkedChar}
    (hstart : ink[start]? = some ('<', some ⟨side.startKind, false⟩)) (hlt : start < stop)
    (hx : ink[stop]? = some x) (hpart : x.2 = some token) (hend : token.kind.isEnd = true)
    (hno : ∀ m token, start < m → m < stop → ink[m]? = some ('<', some token) →
      token.kind.isStart = false) :
    ∃ tag : InkedTag ink, tag.start = start ∧ tag.side = side ∧ tag.endKind = token.kind ∧
      stop + (if x.1 = '/' then 2 else 1) = tag.stop := by
  obtain ⟨tag, hkind, hlt', hinside, hstop⟩ := h.exists_inkedTag_of_isEnd hx hpart hend
  have htag := tag.getElem?_start
  have hsame : tag.start = start := by
    rcases Nat.lt_trichotomy tag.start start with hcase | hcase | hcase
    · exact absurd rfl (tag.fst_ne_of_isStart hstart hcase (by omega) rfl side.isStart_startKind)
    · exact hcase
    · have := hno _ _ hcase hlt' htag
      rw [tag.side.isStart_startKind] at this
      cases this
  refine ⟨tag, hsame, ?_, hkind, hstop⟩
  rw [hsame, hstart] at htag
  revert htag
  cases side <;> cases tag.side <;> decide

/-- A name is the word that stands where it starts. -/
lemma exists_slice_of_isName (ht : t ∈ tokensBetween ink i j) (hkind : t.token.kind.isName = true) :
    ∃ a b, ink = a ++ (b ++ ink.drop j) ∧ a.length = t.start ∧
      d.text.slice t.start t.stop = (textOf b).takeWhile Pattern.isWordChar := by
  obtain ⟨q, hwalk, -⟩ := h.walk
  obtain ⟨a, x, b, hink, hstart, hpart, hstop, -⟩ := exists_of_mem_tokensBetween ht
  refine ⟨a, x :: b, hink, hstart, ?_⟩
  rw [hink] at hwalk
  obtain ⟨q₁, -, hbehind⟩ := hwalk.exists_of_append
  obtain ⟨q₂, hstep, -⟩ := hbehind.exists_of_cons
  have hchar := hstep.isTagChar_of_isName hpart hkind
  -- what is taken is the word at the front
  have htaken : Pattern.tagToken (textOf (x :: b)) =
      ((textOf (x :: b)).takeWhile Pattern.isWordChar).length := by
    rw [textOf_cons, Pattern.tagToken_cons, if_neg (Lexer.isTagChar_ne hchar (by decide)),
      if_neg (Lexer.isTagChar_ne hchar (by decide)), if_neg (Lexer.isTagChar_ne hchar (by decide))]
  have htext : d.text = textOf a ++ (textOf (x :: b) ++ textOf (ink.drop j)) := by
    rw [h.text_eq, ← textOf_append, ← textOf_append, cons_append, ← hink]
  have hlength : (textOf a).length = t.start := by rw [length_textOf, hstart]
  have hle := (List.takeWhile_prefix (l := textOf (x :: b)) Pattern.isWordChar).length_le
  rw [Text.slice, drop_take, htext, drop_left' hlength, hstop, Nat.add_sub_cancel_left,
    htaken, take_append_of_le_length hle]
  exact (prefix_iff_eq_take.1 (List.takeWhile_prefix _)).symm

/-- A name is a word. -/
lemma isWordChar_of_isName (ht : t ∈ tokensBetween ink i j) (hkind : t.token.kind.isName = true) :
    ∀ c ∈ d.text.slice t.start t.stop, Pattern.isWordChar c = true := by
  obtain ⟨a, b, -, -, hslice⟩ := h.exists_slice_of_isName ht hkind
  intro c hc
  rw [hslice] at hc
  exact mem_takeWhile_imp hc

/-- All of a name belongs to it. -/
lemma getElem?_of_isName {i j m : Nat} (ht : t ∈ tokensBetween ink i j)
    (hkind : t.token.kind.isName = true) (hle : t.start ≤ m) (hlt : m < t.stop) :
    ∃ c, ink[m]? = some (c, some t.token) := by
  obtain ⟨k, rfl⟩ := Nat.exists_eq_add_of_le hle
  have hbounds := bounds_of_mem_tokensBetween ht
  induction k with
  | zero => exact getElem?_of_mem_tokensBetween ht
  | succ k ih =>
    obtain ⟨c, hc⟩ := ih (by omega) (by omega)
    obtain ⟨⟨c', part⟩, hc'⟩ : ∃ y, ink[t.start + (k + 1)]? = some y :=
      ⟨_, getElem?_eq_getElem (by omega)⟩
    have hword := h.isWordChar_of_isName ht hkind c'
      (Text.mem_slice.2 ⟨_, hle, hlt, h.getElem?_text hc'⟩)
    -- a character of a word behind a part of the name is part of it
    obtain ⟨q, hwalk, -⟩ := h.walk
    obtain ⟨a, b, hink, hlength⟩ := exists_append_of_getElem? hc
    have hnext : b[0]? = some (c', part) := by
      rw [hink, getElem?_append_right (by omega),
        show t.start + (k + 1) - a.length = 0 + 1 by omega, getElem?_cons_succ] at hc'
      exact hc'
    rw [hink] at hwalk
    obtain ⟨q₁, -, hbehind⟩ := hwalk.exists_of_append
    obtain ⟨q₂, hstep, hbehind⟩ := hbehind.exists_of_cons
    cases b with
    | nil => cases hnext
    | cons y b =>
      obtain rfl : y = (c', part) := Option.some.inj hnext
      obtain ⟨q₃, hstep', -⟩ := hbehind.exists_of_cons
      have hpart := hstep.name_goes_on rfl hkind hstep' (isTagChar_of_isWordChar hword)
      dsimp only at hpart
      exact ⟨c', hpart ▸ hc'⟩

/-- Behind the bracket of a close tag stands a slash. -/
lemma getElem?_slash {start : Nat}
    (hstart : ink[start]? = some ('<', some ⟨.closeTagStart, false⟩)) :
    ink[start + 1]? = some ('/', some ⟨.closeTagStart, false⟩) := by
  obtain ⟨q, hwalk, hq⟩ := h.walk
  obtain ⟨a, b, rfl, rfl⟩ := exists_append_of_getElem? hstart
  obtain ⟨q₁, -, hb⟩ := hwalk.exists_of_append
  obtain ⟨q₂, hstep, hb⟩ := hb.exists_of_cons
  rw [getElem?_append_right (Nat.le_add_right _ 1), Nat.add_sub_cancel_left]
  rcases hstep.of_isStart rfl rfl with ⟨heq, -⟩ | ⟨-, rfl⟩ | ⟨heq, -⟩
  · cases heq
  · -- the bracket is not left half written
    cases b with
    | nil =>
      cases hb
      cases hq
    | cons y b =>
      obtain ⟨q₃, hstep, -⟩ := hb.exists_of_cons
      rw [hstep.of_halfCloser.1]
      rfl
  · cases heq

/-- A slash that belongs to the bracket behind a tag is followed by the rest of it. -/
lemma getElem?_of_slash {i : Nat} (hi : ink[i]? = some ('/', some token))
    (hend : token.kind.isEnd = true) : ink[i + 1]? = some ('>', some ⟨.selfClosingEnd, false⟩) := by
  obtain ⟨q, hwalk, hq⟩ := h.walk
  obtain ⟨a, b, rfl, rfl⟩ := exists_append_of_getElem? hi
  obtain ⟨q₁, -, hb⟩ := hwalk.exists_of_append
  obtain ⟨q₂, hstep, hb⟩ := hb.exists_of_cons
  rw [getElem?_append_right (Nat.le_add_right _ 1), Nat.add_sub_cancel_left]
  cases hstep
  case selfClosingSlash =>
    cases b with
    | nil =>
      cases hb
      cases hq
    | cons y b =>
      obtain ⟨q₃, hstep, -⟩ := hb.exists_of_cons
      rw [hstep.of_halfEnd]
      rfl
  case name side _ _ => cases side <;> cases hend
  all_goals cases hend

end Document.Drawn

/-! ## Spans by offsets -/

/-- Where a tag and its name stand, by offsets. -/
structure Spot where
  start : Nat
  nameStart : Nat
  nameStop : Nat
  stop : Nat
deriving DecidableEq, Repr

/-- The text begins and ends with the brackets of a tag of this kind. -/
def TagSpan.Delimited (s : TagSpan) (text : Text) : Prop :=
  ∀ tag : LiveTag, tag.kind = s.kind → tag.delimiters = s.delimiters? →
    tag.hasDelimiters text = true

/-- The text begins with an open tag whose name has no character of a word in it. -/
def Text.startsWordless (t : Text) : Bool :=
  let name := t.tail.takeWhile isTagChar
  t.head? == some '<' && !name.isEmpty && !name.any Pattern.isWordChar

/-- A text between the brackets of a tag has them. -/
lemma LiveTag.hasDelimiters_append {live : LiveTag} {first last : Text}
    (hdelimiters : live.delimiters = some (first, last)) (middle : Text)
    (hopening : live.kind = .opening → ¬ ['/', '>'] <:+ first ++ middle ++ last) :
    live.hasDelimiters (first ++ middle ++ last) = true := by
  unfold hasDelimiters
  rw [hdelimiters]
  simp only [Bool.and_eq_true, Bool.or_eq_true, decide_eq_true_eq, List.isPrefixOf_iff_prefix,
    isSuffixOf_iff_suffix, Bool.not_eq_true', bne_iff_ne]
  refine ⟨⟨⟨?_, suffix_append _ _⟩, ?_⟩, ?_⟩
  · rw [append_assoc]
    exact prefix_append _ _
  · simp only [length_append]
    omega
  · by_cases hkind : live.kind = .opening
    · refine .inr ?_
      rw [← Bool.not_eq_true, isSuffixOf_iff_suffix]
      exact hopening hkind
    · exact .inl hkind

/-- A tag with brackets stands at a spot of the text. Its brackets are in place, unless it is read
as a close tag but begins with an open one that has no word in its name. -/
structure TagSpan.StandsAt (s : TagSpan) (t : Text) (x : Spot) : Prop where
  concise_eq : s.concise = false
  range_eq : s.range = t.rangeOf x.start x.stop
  nameRange_eq : s.nameRange = some (t.rangeOf x.nameStart x.nameStop)
  start_lt : x.start < x.nameStart
  name_lt : x.nameStart < x.nameStop
  lt_stop : x.nameStop < x.stop
  stop_le : x.stop ≤ t.length
  isWordChar : ∀ c ∈ t.slice x.nameStart x.nameStop, Pattern.isWordChar c = true
  delimited : s.Delimited (t.slice x.start x.stop) ∨
    s.kind = .closing ∧ (t.slice x.start x.stop).startsWordless = true

namespace InkedTag

variable {ink : List InkedChar} (tag : InkedTag ink)

lemma endKind_cases : tag.endKind = .openTagEnd ∨ tag.endKind = .selfClosingEnd ∨
    tag.endKind = .closeTagEnd := by
  have hend := tag.isEnd_endKind
  revert hend
  cases tag.endKind <;> decide

/-- What stands before the bracket behind the tag. -/
def front : List InkedChar := tag.lead ++ tag.side.startInk ++ tag.name ++ tag.more

lemma take_stop : ink.take tag.stop = tag.front ++ tag.endKind.endInk := by
  have hlength : (tag.front ++ tag.endKind.endInk).length = tag.stop := length_append
  calc ink.take tag.stop = (tag.front ++ tag.endKind.endInk ++ tag.rest).take tag.stop :=
        congrArg (List.take tag.stop) tag.ink_eq
    _ = tag.front ++ tag.endKind.endInk := take_left' hlength

lemma slice_stop {start : Nat} (hstart : start ≤ tag.start) :
    (textOf ink).slice start tag.stop =
      textOf (tag.front.drop start) ++ textOf tag.endKind.endInk := by
  have hle : start ≤ tag.front.length := by
    simp only [front, length_append]
    rw [InkedTag.start] at hstart
    omega
  have htake : (textOf ink).take tag.stop = textOf (ink.take tag.stop) := map_take.symm
  have hdrop : ∀ l : List InkedChar, (textOf l).drop start = textOf (l.drop start) :=
    fun l => map_drop.symm
  rw [Text.slice, htake, hdrop, tag.take_stop, drop_append_of_le_length hle, textOf_append]

lemma start_lt_length_front : tag.start < tag.front.length := by
  have hpos := Site.length_startInk_pos tag.side
  simp only [front, start, length_append]
  omega

lemma getElem?_front (hm : m < tag.front.length) : tag.front[m]? = ink[m]? := by
  have hle : tag.front.length ≤ tag.stop := Nat.le_add_right _ _
  have htake : (ink.take tag.stop)[m]? = ink[m]? := getElem?_take_of_lt (by omega)
  rw [← htake, tag.take_stop, getElem?_append_left hm]

lemma drop_front {x : InkedChar} (hm : m < tag.front.length) (hx : ink[m]? = some x) :
    tag.front.drop m = x :: tag.front.drop (m + 1) := by
  rw [← tag.getElem?_front hm] at hx
  obtain ⟨hlt, rfl⟩ := List.getElem?_eq_some_iff.1 hx
  exact drop_eq_getElem_cons hlt

lemma side_eq_of_closeTagEnd (h : tag.endKind = .closeTagEnd) : tag.side = .closing := by
  rcases tag.endKind_eq with hkind | ⟨-, hkind⟩
  · rw [h] at hkind
    revert hkind
    cases tag.side <;> decide
  · rw [h] at hkind
    cases hkind

/-- Only a close tag is of kind closing. -/
lemma side_eq_of_spanKind (h : tag.endKind.spanKind false = .closing) :
    tag.side = .closing := by
  apply tag.side_eq_of_closeTagEnd
  revert h
  rcases tag.endKind_cases with hcase | hcase | hcase <;> rw [hcase] <;> decide

/-- Before the bracket of an open tag stands no slash, however far back one starts to read. -/
lemma not_suffix_of_openTagEnd (h : tag.endKind = .openTagEnd) (hm : m < tag.front.length) :
    ¬ ['/', '>'] <:+ textOf (tag.front.drop m) ++ ['>'] := by
  rintro ⟨front, hfront⟩
  have hcancel : (front ++ ['/']) ++ ['>'] = textOf (tag.front.drop m) ++ ['>'] := by
    rw [← hfront, append_assoc]
    rfl
  have hlast := append_cancel_right hcancel
  have hne : tag.front.drop m ≠ [] := by
    rw [ne_eq, drop_eq_nil_iff]
    omega
  apply tag.getLast?_ne h
  show (textOf tag.front).getLast? = some '/'
  rw [← take_append_drop m tag.front, Site.getLast?_textOf_append _ hne, ← hlast]
  simp

end InkedTag

namespace Document.Drawn

variable {d : Document} {ink : List InkedChar} (h : d.Drawn ink)

include h

/-- From a bracket in front of a tag to the end of a tag the brackets are in place, unless an open
tag would have to begin like a close tag. -/
lemma delimited (tag : InkedTag ink) {start : Nat} {side : Lexer.Side}
    (hstart : ink[start]? = some ('<', some ⟨side.startKind, false⟩)) (hle : start ≤ tag.start)
    {s : TagSpan} (hconcise : s.concise = false) (hkind : s.kind = tag.endKind.spanKind false)
    (hside : s.kind = .closing → side = .closing) :
    s.Delimited (d.text.slice start tag.stop) := by
  have hlt := tag.start_lt_length_front
  have hdrop := tag.drop_front (by omega) hstart
  rw [h.text_eq, tag.slice_stop hle]
  intro live hlive hdelimiters
  rw [TagSpan.delimiters?, hconcise, if_neg Bool.false_ne_true] at hdelimiters
  rcases tag.endKind_cases with hend | hend | hend
  · have hkind : s.kind = .opening := by rw [hkind, hend]; rfl
    have hslash := tag.not_suffix_of_openTagEnd hend (m := start) (by omega)
    rw [hkind] at hdelimiters
    rw [hdrop] at hslash ⊢
    rw [hend]
    exact LiveTag.hasDelimiters_append hdelimiters (textOf (tag.front.drop (start + 1)))
      fun _ => hslash
  · have hkind : s.kind = .selfClosing := by rw [hkind, hend]; rfl
    rw [hkind] at hdelimiters hlive
    rw [hdrop, hend]
    exact LiveTag.hasDelimiters_append hdelimiters (textOf (tag.front.drop (start + 1)))
      fun hopening => by rw [hlive] at hopening; cases hopening
  · have hkind : s.kind = .closing := by rw [hkind, hend]; rfl
    obtain rfl := hside hkind
    rw [hkind] at hdelimiters hlive
    -- the slash stands before the end of the tag, too
    have hlt' : start + 1 < tag.front.length := by
      have htwo : tag.side.startInk.length = 2 := by
        rw [tag.side_eq_of_closeTagEnd hend]
        rfl
      simp only [InkedTag.front, InkedTag.start, length_append] at hle ⊢
      omega
    rw [hdrop, tag.drop_front hlt' (h.getElem?_slash hstart), hend]
    exact LiveTag.hasDelimiters_append hdelimiters (textOf (tag.front.drop (start + 2)))
      fun hopening => by rw [hlive] at hopening; cases hopening

/-- The bracket behind a tag, as a token. -/
lemma stop_of_isEnd (ht : t ∈ tokensBetween ink i j) (hkind : t.token.kind.isEnd = true) :
    ∃ c, ink[t.start]? = some (c, some t.token) ∧ t.stop = t.start + if c = '/' then 2 else 1 := by
  obtain ⟨q, hwalk, -⟩ := h.walk
  obtain ⟨a, ⟨c, part⟩, b, hink, hstart, rfl, hstop, hne⟩ := exists_of_mem_tokensBetween ht
  refine ⟨c, ?_, ?_⟩
  · rw [hink, ← hstart, getElem?_append_right (Nat.le_refl _), Nat.sub_self]
    rfl
  · rw [textOf_cons, Pattern.tagToken_cons] at hstop hne
    rw [hstop]
    rcases Site.fst_of_isEnd hwalk hink rfl hkind with hc | hc
    · rw [if_pos hc] at hne ⊢
      rw [if_pos hc]
      split at hne
      · next hhead => rw [if_pos hhead]
      · exact absurd rfl hne
    · have hslash : c ≠ '/' := by
        rintro rfl
        cases hc
      rw [if_neg hslash, if_neg hslash, if_pos hc]

/-- A tag stands where its brackets and its name do. -/
lemma standsAt {start stop i j : Nat} {side : Lexer.Side} {c : Char} {name : OffsetToken}
    {s : TagSpan} {opening : Bool}
    (hstart : ink[start]? = some ('<', some ⟨side.startKind, false⟩))
    (hstop : ink[stop]? = some (c, some token)) (hend : token.kind.isEnd = true)
    (hno : ∀ m token, start < m → m < stop → ink[m]? = some ('<', some token) →
      token.kind.isStart = false)
    (hname : name ∈ tokensBetween ink i j) (hnameKind : name.token.kind.isName = true)
    (hnameStart : start < name.start) (hnameStop : name.stop ≤ stop)
    (hrange : s.range = .ofEnds (d.text.positionOf start)
      (d.text.positionOf (stop + if c = '/' then 2 else 1)))
    (hnameRange : s.nameRange = some (d.text.rangeOf name.start name.stop))
    (hconcise : s.concise = false) (hkind : s.kind = token.kind.spanKind opening)
    (hopening : opening = true → side = .opening ∨ ∃ m c token, start < m ∧ m < stop ∧
      ink[m]? = some (c, some token) ∧ token.kind = .openTagName) :
    s.StandsAt d.text ⟨start, name.start, name.stop, stop + if c = '/' then 2 else 1⟩ := by
  have hbounds := bounds_of_mem_tokensBetween hname
  obtain ⟨tag, rfl, rfl, hendKind, htag⟩ :=
    h.exists_inkedTag hstart (by omega) hstop rfl hend hno
  have hwithin : stop < tag.stop := by
    split at htag <;> omega
  have hlength : tag.stop ≤ d.text.length := by
    rw [h.length_eq]
    exact tag.stop_le_length
  dsimp only at htag
  rw [htag] at hrange ⊢
  -- the name is one of this tag
  obtain ⟨e, he⟩ := getElem?_of_mem_tokensBetween hname
  have hnameToken := tag.token_eq_of_isName he hnameStart (by omega) rfl hnameKind
  -- only a close tag is read by the kind of its parts, and then they are those of one
  have hspan : s.kind = tag.endKind.spanKind false := by
    rw [hkind, ← hendKind]
    rcases tag.endKind_cases with hcase | hcase | hcase
    · rw [hcase]; rfl
    · rw [hcase]; rfl
    · have hside := tag.side_eq_of_closeTagEnd hcase
      cases opening with
      | false => rfl
      | true =>
        rcases hopening rfl with hopen | ⟨m, e', token', hm, hm', hx, hopen⟩
        · rw [hside] at hopen
          cases hopen
        · have := tag.token_eq_of_isName hx hm (by omega) rfl (by rw [hopen]; rfl)
          rw [this, hside] at hopen
          cases hopen
  have hside : s.kind = .closing → tag.side = .closing := by
    intro hclosing
    exact tag.side_eq_of_spanKind (hspan.symm.trans hclosing)
  exact
    { concise_eq := hconcise
      range_eq := hrange.trans (Text.ofEnds_positionOf h.onlyLineFeeds (by omega) hlength)
      nameRange_eq := hnameRange
      start_lt := hnameStart
      name_lt := hbounds.2.1
      lt_stop := by show name.stop < tag.stop; omega
      stop_le := hlength
      isWordChar := h.isWordChar_of_isName hname hnameKind
      delimited := .inl (h.delimited tag hstart (Nat.le_refl _) hconcise hspan hside) }

end Document.Drawn

end TemplateEditing
