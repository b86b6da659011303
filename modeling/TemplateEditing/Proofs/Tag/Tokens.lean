import Mathlib.Data.List.TakeWhile
import TemplateEditing.Proofs.Text.Place
import TemplateEditing.Tag.Span

/-!
# The tokens of a text, by offsets

A scan for tokens reports positions; here it is done by offsets, on a text whose characters come
with the part of a tag each belongs to (`tokensIn`). On a document whose positions have these parts
the two agree, forwards and backwards (`Inked.tokensFrom_eq`, `Inked.tokensBefore_eq`).

A scan of two texts one after the other is a scan of each, unless a token goes across the border
(`tokensIn_append`). Whether one can is told by the characters at the border alone (`Apart`).
-/

namespace TemplateEditing

open List

variable {c : Char} {offset : Nat} {a b : List InkedChar}

/-! ## What is taken -/

namespace Pattern

/-- A character of a word. -/
def isWordChar (c : Char) : Bool := c.isAlphanum || c == '-' || c == ':'

lemma word_single (a c : Char) (rest : Text) :
    word [a] (c :: rest) = if c = a then 1 else 0 := by
  unfold word
  by_cases h : c = a
  · subst h
    simp
  · simp [h, Ne.symm h]

lemma word_pair (a b c : Char) (rest : Text) :
    word [a, b] (c :: rest) = if c = a ∧ rest.head? = some b then 2 else 0 := by
  unfold word
  cases rest with
  | nil => simp
  | cons d rest =>
    by_cases h : c = a ∧ d = b
    · obtain ⟨rfl, rfl⟩ := h
      simp
    · have : ¬ (a = c ∧ b = d) := fun h' => h ⟨h'.1.symm, h'.2.symm⟩
      simp [this, h]

/-- What is taken is decided by the first character, and by the one behind a bracket or slash. -/
lemma tagToken_cons (c : Char) (rest : Text) :
    tagToken (c :: rest) =
      if c = '/' then (if rest.head? = some '>' then 2 else 0)
      else if c = '>' then 1
      else if c = '<' then (if rest.head? = some '/' then 2 else 1)
      else ((c :: rest).takeWhile isWordChar).length := by
  show ((word ['/', '>']).orElse <| (word ['>']).orElse <| (word ['<', '/']).orElse <|
    (word ['<']).orElse <| run isWordChar) (c :: rest) = _
  simp only [orElse, word_pair, word_single, run]
  by_cases hslash : c = '/'
  · subst hslash
    simp [isWordChar]
  · by_cases hgt : c = '>'
    · simp [hgt]
    · by_cases hlt : c = '<' <;> simp [hslash, hgt, hlt]
      split <;> rfl

/-- A token lies inside the text. -/
lemma tagToken_le_length (c : Char) (rest : Text) :
    tagToken (c :: rest) ≤ rest.length + 1 := by
  have hpair : ∀ d, rest.head? = some d → 2 ≤ rest.length + 1 := by
    intro d h
    cases rest with
    | nil => exact absurd h (by simp)
    | cons => simp
  rw [tagToken_cons]
  split
  · split
    · exact hpair '>' ‹_›
    · omega
  · split
    · omega
    · split
      · split
        · exact hpair '/' ‹_›
        · omega
      · exact (List.takeWhile_prefix _).length_le

/-- A token may go on from one character to the next. -/
def joins (c d : Char) : Bool :=
  isWordChar c && isWordChar d || c == '/' && d == '>' || c == '<' && d == '/'

lemma isWordChar_ne {c d : Char} (hc : isWordChar c = true) (hd : isWordChar d = false) :
    c ≠ d := by
  rintro rfl
  rw [hc] at hd
  exact Bool.noConfusion hd

/-- A word ends before all that is not part of one. -/
lemma joins_of_word_left {c d : Char} (hc : isWordChar c = true) (hd : isWordChar d = false) :
    joins c d = false := by
  simp [joins, hd, isWordChar_ne hc (show isWordChar '/' = false by decide),
    isWordChar_ne hc (show isWordChar '<' = false by decide)]

/-- A word starts behind all that is not part of one. -/
lemma joins_of_word_right {c d : Char} (hc : isWordChar c = false) (hd : isWordChar d = true) :
    joins c d = false := by
  simp [joins, hc, isWordChar_ne hd (show isWordChar '>' = false by decide),
    isWordChar_ne hd (show isWordChar '/' = false by decide)]

/-- No token goes on from one text to the next. -/
def Apart (a b : Text) : Prop := ∀ c ∈ a.getLast?, ∀ d ∈ b.head?, joins c d = false

/-- Texts stay apart if less is in front. -/
lemma Apart.of_suffix {a' a b : Text} (h : Apart a b) (ha : a' <:+ a) : Apart a' b := by
  obtain ⟨lead, rfl⟩ := ha
  intro c hc
  exact h c (by rw [getLast?_append, Option.mem_def.1 hc]; rfl)

/-- Texts stay apart if less is behind. -/
lemma Apart.of_front {a b' b : Text} (h : Apart a b) (hb : b' <+: b) : Apart a b' := by
  obtain ⟨rest, rfl⟩ := hb
  intro c hc d hd
  exact h c hc d (by rw [head?_append, Option.mem_def.1 hd]; rfl)

lemma apart_bracket_cons (a b : Text) : Apart a ('<' :: b) := by
  intro c _ d hd
  cases hd
  simp [joins, show isWordChar '<' = false by decide]

lemma append_bracket_apart (a b : Text) : Apart (a ++ ['>']) b := by
  intro c hc d _
  rw [getLast?_append] at hc
  cases hc
  simp [joins, show isWordChar '>' = false by decide]

/-- Words are taken whole. -/
lemma tagToken_word {rest : Text} (h : ∀ d ∈ c :: rest, isWordChar d = true) :
    tagToken (c :: rest) = rest.length + 1 := by
  have hc := h c mem_cons_self
  rw [tagToken_cons, if_neg (isWordChar_ne hc (by decide)), if_neg (isWordChar_ne hc (by decide)),
    if_neg (isWordChar_ne hc (by decide)), takeWhile_eq_self_iff.2 h, length_cons]

/-- A word ends where texts are apart. -/
lemma takeWhile_append_of_apart {a b : Text} (ha : a ≠ []) (h : Apart a b) :
    (a ++ b).takeWhile isWordChar = a.takeWhile isWordChar := by
  rw [takeWhile_append]
  split
  · rename_i hlength
    have hall : a.takeWhile isWordChar = a :=
      (List.takeWhile_prefix isWordChar).eq_of_length hlength
    have hlast : isWordChar (a.getLast ha) = true := by
      have hmem : a.getLast ha ∈ a.takeWhile isWordChar := by
        rw [hall]
        exact getLast_mem ha
      exact mem_takeWhile_imp hmem
    rw [hall]
    cases b with
    | nil => simp
    | cons d b =>
      have hjoins := h (a.getLast ha) (getLast?_eq_some_getLast ha) d rfl
      have hd : isWordChar d = false := by
        rw [joins, hlast, Bool.true_and, Bool.or_eq_false_iff, Bool.or_eq_false_iff] at hjoins
        exact hjoins.1.1
      simp [hd]
  · rfl

/-- What is taken in the first of two texts does not depend on the second. -/
lemma tagToken_append {rest b : Text} (h : Apart (c :: rest) b) :
    tagToken (c :: (rest ++ b)) = tagToken (c :: rest) := by
  have hhead : ∀ d, joins c d = true → ((rest ++ b).head? = some d ↔ rest.head? = some d) := by
    intro d hd
    cases rest with
    | nil =>
      refine ⟨fun hb => ?_, fun hb => absurd hb (by simp)⟩
      exact absurd (h c rfl d hb) (by simp [hd])
    | cons => simp
  rw [tagToken_cons, tagToken_cons, ← cons_append,
    takeWhile_append_of_apart (cons_ne_nil c rest) h]
  by_cases hslash : c = '/'
  · rw [if_pos hslash, if_pos hslash]
    simp only [hhead '>' (by subst hslash; decide)]
  · rw [if_neg hslash, if_neg hslash]
    by_cases hlt : c = '<'
    · simp only [hhead '/' (by subst hlt; decide)]
    · simp [hlt]

/-- What is taken in two texts and ends in the first one is taken there alone. -/
lemma tagToken_append_of_le {rest b : Text} (h : tagToken (c :: (rest ++ b)) ≤ rest.length + 1) :
    tagToken (c :: (rest ++ b)) = tagToken (c :: rest) := by
  -- a pair that is found with the second text is found without it
  have hpair : ∀ d n, (if (rest ++ b).head? = some d then 2 else n) ≤ rest.length + 1 →
      (if (rest ++ b).head? = some d then 2 else n) = if rest.head? = some d then 2 else n := by
    intro d n hle
    cases rest with
    | nil =>
      rw [nil_append, length_nil] at hle
      rw [nil_append, head?_nil]
      split at hle
      · omega
      · next hb => simp [hb]
    | cons e rest => rfl
  rw [tagToken_cons] at h
  rw [tagToken_cons, tagToken_cons]
  by_cases hslash : c = '/'
  · rw [if_pos hslash] at h
    rw [if_pos hslash, if_pos hslash, hpair '>' 0 h]
  · rw [if_neg hslash] at h
    rw [if_neg hslash, if_neg hslash]
    by_cases hgt : c = '>'
    · rw [if_pos hgt, if_pos hgt]
    · rw [if_neg hgt] at h
      rw [if_neg hgt, if_neg hgt]
      by_cases hlt : c = '<'
      · rw [if_pos hlt] at h
        rw [if_pos hlt, if_pos hlt, hpair '/' 1 h]
      · rw [if_neg hlt] at h
        rw [if_neg hlt, if_neg hlt]
        rw [← cons_append, takeWhile_append] at h ⊢
        split
        · next hall =>
          rw [if_pos hall, length_append, length_cons] at h
          rw [length_append, hall, length_cons]
          omega
        · rfl

end Pattern

/-! ## Tokens between offsets -/

/-- A character, and the part of a tag that it belongs to. -/
abbrev InkedChar := Char × Option Token

/-- The characters of an inked text. -/
def textOf (ink : List InkedChar) : Text := ink.map Prod.fst

@[simp] lemma textOf_nil : textOf [] = [] := rfl

@[simp] lemma textOf_cons (x : InkedChar) (ink : List InkedChar) :
    textOf (x :: ink) = x.1 :: textOf ink := rfl

@[simp] lemma textOf_append (a b : List InkedChar) : textOf (a ++ b) = textOf a ++ textOf b :=
  map_append

@[simp] lemma length_textOf (ink : List InkedChar) : (textOf ink).length = ink.length :=
  length_map _

/-- A token between two offsets. -/
structure OffsetToken where
  start : Nat
  stop : Nat
  token : Token
deriving DecidableEq, Repr

/-- The tokens of an inked text that starts at an offset. What is taken belongs to the part of its
first character; where that is no part of a tag it is left out. -/
def tokensIn (offset : Nat) (ink : List InkedChar) : List OffsetToken :=
  match ink with
  | [] => []
  | (c, part) :: rest =>
    let taken := Pattern.tagToken (c :: textOf rest)
    if taken = 0 then tokensIn (offset + 1) rest
    else
      (part.map (⟨offset, offset + taken, ·⟩)).toList ++
        tokensIn (offset + taken) (rest.drop (taken - 1))
termination_by ink.length

lemma tokensIn_nil (offset : Nat) : tokensIn offset [] = [] := by rw [tokensIn]

/-- The tokens of two texts, one after the other, that no token goes across. -/
lemma tokensIn_append (h : Pattern.Apart (textOf a) (textOf b)) (offset : Nat) :
    tokensIn offset (a ++ b) = tokensIn offset a ++ tokensIn (offset + a.length) b := by
  fun_induction tokensIn offset a with
  | case1 offset => rfl
  | case2 offset c part rest taken htaken ih =>
    have htaken' : Pattern.tagToken (c :: (textOf rest ++ textOf b)) = taken :=
      Pattern.tagToken_append h
    rw [cons_append, tokensIn, textOf_append, htaken', if_pos htaken,
      ih (h.of_suffix (suffix_cons _ _)), length_cons, Nat.add_assoc, Nat.add_comm 1]
  | case3 offset c part rest taken htaken ih =>
    have htaken' : Pattern.tagToken (c :: (textOf rest ++ textOf b)) = taken :=
      Pattern.tagToken_append h
    have hle : taken ≤ rest.length + 1 := by
      rw [← length_textOf]
      exact Pattern.tagToken_le_length c (textOf rest)
    have hsuffix : textOf (rest.drop (taken - 1)) <:+ textOf ((c, part) :: rest) :=
      ((drop_suffix _ _).trans (suffix_cons _ _)).map Prod.fst
    have hdrop : (rest ++ b).drop (taken - 1) = rest.drop (taken - 1) ++ b :=
      drop_append_of_le_length (by omega)
    have hstop : offset + taken + (rest.drop (taken - 1)).length
        = offset + ((c, part) :: rest).length := by
      rw [length_drop, length_cons]
      omega
    rw [cons_append, tokensIn, textOf_append, htaken', if_neg htaken, hdrop,
      ih (h.of_suffix hsuffix), hstop, append_assoc]

/-- A token belongs to a part that some character of the text has. -/
lemma exists_mem_of_mem_tokensIn {ink : List InkedChar} {t : OffsetToken}
    (h : t ∈ tokensIn offset ink) : ∃ x ∈ ink, x.2 = some t.token := by
  fun_induction tokensIn offset ink with
  | case1 offset => exact absurd h not_mem_nil
  | case2 offset c part rest taken htaken ih =>
    obtain ⟨x, hx, hpart⟩ := ih h
    exact ⟨x, mem_cons_of_mem _ hx, hpart⟩
  | case3 offset c part rest taken htaken ih =>
    rcases mem_append.1 h with h | h
    · rw [Option.mem_toList, Option.map_eq_some_iff] at h
      obtain ⟨token, rfl, rfl⟩ := h
      exact ⟨_, mem_cons_self, rfl⟩
    · obtain ⟨x, hx, hpart⟩ := ih h
      exact ⟨x, mem_cons_of_mem _ (mem_of_mem_drop hx), hpart⟩

/-- A token starts at a character that it belongs to the part of, and takes what is taken there. -/
lemma exists_of_mem_tokensIn {ink : List InkedChar} {t : OffsetToken}
    (h : t ∈ tokensIn offset ink) :
    ∃ a x b, ink = a ++ x :: b ∧ t.start = offset + a.length ∧ x.2 = some t.token ∧
      t.stop = t.start + Pattern.tagToken (textOf (x :: b)) ∧
      Pattern.tagToken (textOf (x :: b)) ≠ 0 := by
  fun_induction tokensIn offset ink with
  | case1 offset => exact absurd h not_mem_nil
  | case2 offset c part rest taken htaken ih =>
    obtain ⟨a, x, b, rfl, hstart, hrest⟩ := ih h
    refine ⟨(c, part) :: a, x, b, rfl, ?_, hrest⟩
    rw [hstart, length_cons]
    omega
  | case3 offset c part rest taken htaken ih =>
    rcases mem_append.1 h with h | h
    · rw [Option.mem_toList, Option.map_eq_some_iff] at h
      obtain ⟨token, rfl, rfl⟩ := h
      exact ⟨[], (c, some token), rest, rfl, rfl, rfl, rfl, htaken⟩
    · obtain ⟨a, x, b, hdrop, hstart, hrest⟩ := ih h
      refine ⟨(c, part) :: rest.take (taken - 1) ++ a, x, b, ?_, ?_, hrest⟩
      · rw [append_assoc, ← hdrop, cons_append, take_append_drop]
      · have hle : taken ≤ rest.length + 1 := by
          rw [← length_textOf]
          exact Pattern.tagToken_le_length c (textOf rest)
        rw [hstart, length_append, length_cons, length_take]
        omega

/-- Tokens are not empty and lie inside the text. -/
lemma start_lt_stop_of_mem {ink : List InkedChar} {t : OffsetToken} (h : t ∈ tokensIn offset ink) :
    offset ≤ t.start ∧ t.start < t.stop ∧ t.stop ≤ offset + ink.length := by
  obtain ⟨a, x, b, rfl, hstart, -, hstop, hne⟩ := exists_of_mem_tokensIn h
  have hle := Pattern.tagToken_le_length x.1 (textOf b)
  rw [length_textOf, ← textOf_cons] at hle
  rw [length_append, length_cons]
  omega

/-- Tokens are found in the order of the text, and do not overlap. -/
lemma pairwise_tokensIn (offset : Nat) (ink : List InkedChar) :
    (tokensIn offset ink).Pairwise fun t t' => t.stop ≤ t'.start := by
  fun_induction tokensIn offset ink with
  | case1 offset => exact .nil
  | case2 offset c part rest taken htaken ih => exact ih
  | case3 offset c part rest taken htaken ih =>
    cases part with
    | none => exact ih
    | some token => exact .cons (fun t' ht' => (start_lt_stop_of_mem ht').1) ih

/-- Where no token can go on from before, what is taken is a token. -/
lemma mem_tokensIn_of_apart {x : InkedChar} {token : Token}
    (h : Pattern.Apart (textOf a) (textOf (x :: b))) (hpart : x.2 = some token)
    (hne : Pattern.tagToken (textOf (x :: b)) ≠ 0) (offset : Nat) :
    ⟨offset + a.length, offset + a.length + Pattern.tagToken (textOf (x :: b)), token⟩ ∈
      tokensIn offset (a ++ x :: b) := by
  rw [tokensIn_append h]
  apply mem_append_right
  obtain ⟨c, part⟩ := x
  obtain rfl : part = some token := hpart
  rw [textOf_cons] at hne ⊢
  rw [tokensIn, if_neg hne]
  exact mem_cons_self

/-- What is taken first ends in the first of two texts, if a token does. -/
lemma taken_eq_of_mem {rest v : List InkedChar} {part : Option Token} {t : OffsetToken}
    (h : t ∈ tokensIn offset ((c, part) :: rest ++ v))
    (hstop : t.stop ≤ offset + ((c, part) :: rest).length) :
    Pattern.tagToken (c :: (textOf rest ++ textOf v)) = Pattern.tagToken (c :: textOf rest) := by
  apply Pattern.tagToken_append_of_le
  rw [length_textOf]
  rw [length_cons] at hstop
  by_contra hgt
  rw [cons_append, tokensIn, textOf_append, if_neg (by omega)] at h
  rcases mem_append.1 h with h | h
  · rw [Option.mem_toList, Option.map_eq_some_iff] at h
    obtain ⟨token, -, rfl⟩ := h
    simp only at hstop
    omega
  · have := start_lt_stop_of_mem h
    omega

/-- The tokens that end in the first of two texts are those of the first text. -/
lemma mem_tokensIn_of_stop_le {u v : List InkedChar} {t : OffsetToken}
    (h : t ∈ tokensIn offset (u ++ v)) (hstop : t.stop ≤ offset + u.length) :
    t ∈ tokensIn offset u := by
  fun_induction tokensIn offset u with
  | case1 offset =>
    have := start_lt_stop_of_mem h
    simp only [length_nil] at hstop
    omega
  | case2 offset c part rest taken htaken ih =>
    have htaken' := taken_eq_of_mem h hstop
    rw [cons_append, tokensIn, textOf_append, htaken', if_pos htaken] at h
    exact ih h (by rw [length_cons] at hstop; omega)
  | case3 offset c part rest taken htaken ih =>
    have htaken' := taken_eq_of_mem h hstop
    have hle : taken ≤ rest.length + 1 := by
      rw [← length_textOf]
      exact Pattern.tagToken_le_length c (textOf rest)
    have hdrop : (rest ++ v).drop (taken - 1) = rest.drop (taken - 1) ++ v :=
      drop_append_of_le_length (by omega)
    rw [cons_append, tokensIn, textOf_append, htaken', if_neg htaken, hdrop] at h
    rcases mem_append.1 h with h | h
    · exact mem_append_left _ h
    · refine mem_append_right _ (ih h ?_)
      rw [length_cons] at hstop
      rw [length_drop]
      omega

/-- Behind a token the scan goes on as if it started there. -/
lemma mem_tokensIn_of_mem_drop {ink : List InkedChar} {t t' : OffsetToken}
    (h : t ∈ tokensIn offset ink) (h' : t' ∈ tokensIn t.stop (ink.drop (t.stop - offset))) :
    t' ∈ tokensIn offset ink := by
  fun_induction tokensIn offset ink with
  | case1 offset => exact absurd h not_mem_nil
  | case2 offset c part rest taken htaken ih =>
    refine ih h ?_
    have := start_lt_stop_of_mem h
    rwa [show t.stop - offset = t.stop - (offset + 1) + 1 by omega, drop_succ_cons] at h'
  | case3 offset c part rest taken htaken ih =>
    apply mem_append_right
    rcases mem_append.1 h with h | h
    · rw [Option.mem_toList, Option.map_eq_some_iff] at h
      obtain ⟨token, rfl, rfl⟩ := h
      obtain ⟨n, hn⟩ : ∃ n, taken = n + 1 := ⟨taken - 1, by omega⟩
      rw [hn] at h' ⊢
      rwa [Nat.add_sub_cancel_left, drop_succ_cons] at h'
    · refine ih h ?_
      have := start_lt_stop_of_mem h
      rwa [show t.stop - offset = t.stop - (offset + taken) + (taken - 1) + 1 by omega,
        drop_succ_cons, Nat.add_comm, ← drop_drop] at h'

/-- Where no character is part of a tag there is no token. -/
lemma tokensIn_of_forall_none {ink : List InkedChar} (h : ∀ x ∈ ink, x.2 = none) (offset : Nat) :
    tokensIn offset ink = [] := by
  refine eq_nil_iff_forall_not_mem.2 fun t ht => ?_
  obtain ⟨x, hx, hpart⟩ := exists_mem_of_mem_tokensIn ht
  rw [h x hx] at hpart
  exact absurd hpart (by simp)

/-- A text that is all of one part, or of none. -/
def Text.ink (t : Text) (part : Option Token) : List InkedChar := t.map (·, part)

@[simp] lemma textOf_ink (t : Text) (part : Option Token) : textOf (t.ink part) = t := by
  simp [textOf, Text.ink, Function.comp_def]

@[simp] lemma length_ink (t : Text) (part : Option Token) : (t.ink part).length = t.length :=
  length_map _

lemma ink_append (a b : Text) (part : Option Token) :
    Text.ink (a ++ b) part = a.ink part ++ b.ink part := map_append

lemma map_snd_ink (t : Text) (part : Option Token) :
    (t.ink part).map Prod.snd = List.replicate t.length part := by
  rw [Text.ink, map_map]
  exact map_const'

lemma snd_of_mem_ink {t : Text} {part : Option Token} {x : InkedChar} (h : x ∈ t.ink part) :
    x.2 = part := by
  obtain ⟨c, _, rfl⟩ := mem_map.1 h
  rfl

/-- A text that is taken whole and is all of one part is a token. -/
lemma tokensIn_ink {t : Text} (hne : t ≠ []) (h : Pattern.tagToken t = t.length) (token : Token)
    (offset : Nat) : tokensIn offset (t.ink token) = [⟨offset, offset + t.length, token⟩] := by
  cases t with
  | nil => exact absurd rfl hne
  | cons c rest =>
    have htext : textOf (rest.map (·, some token)) = rest := textOf_ink rest (some token)
    rw [Text.ink, map_cons, tokensIn, htext, h, if_neg (by simp), length_cons,
      Nat.add_sub_cancel, drop_of_length_le (by simp), tokensIn_nil]
    rfl

/-! ## Scans of a document -/

/-- The token as a scan of `t` reports it. -/
def OffsetToken.hit (t : Text) (token : OffsetToken) : TokenHit :=
  ⟨⟨⟨t.positionOf token.start, t.positionOf token.stop⟩, t.slice token.start token.stop⟩,
    token.token⟩

namespace Pattern

/-- Without a match, the scan goes on at the next character. -/
lemma scan_cons_of_eq_zero {pattern : Pattern} {rest : Text}
    (h : pattern (c :: rest) = 0) (p : Position) :
    pattern.scan p (c :: rest) = pattern.scan (p.past c) rest := by
  rw [scan, h]
  rfl

lemma scan_cons_of_ne_zero {pattern : Pattern} {rest : Text}
    (h : pattern (c :: rest) ≠ 0) (hle : pattern (c :: rest) ≤ rest.length + 1) (p : Position) :
    pattern.scan p (c :: rest) =
      ⟨⟨p, p.pastText ((c :: rest).take (pattern (c :: rest)))⟩,
        (c :: rest).take (pattern (c :: rest))⟩ ::
        pattern.scan (p.pastText ((c :: rest).take (pattern (c :: rest))))
          (rest.drop (pattern (c :: rest) - 1)) := by
  have hlength : ((c :: rest).take (pattern (c :: rest))).length = pattern (c :: rest) := by
    rw [length_take, length_cons]
    omega
  have hne : ((c :: rest).take (pattern (c :: rest))).isEmpty = false := by
    rw [isEmpty_eq_false_iff, ← length_pos_iff, hlength]
    omega
  rw [scan]
  simp only [hne, hlength]
  rfl

lemma tagToken_lineFeed_cons (rest : Text) : tagToken ('\n' :: rest) = 0 := by
  rw [tagToken_cons, if_neg (by decide), if_neg (by decide), if_neg (by decide),
    takeWhile_cons_of_neg (by decide)]
  rfl

end Pattern

namespace Text

/-- The position behind a part of a text is reached by walking through the part. -/
lemma pastText_positionOf {a u b : Text} (h : OnlyLineFeeds (a ++ u ++ b)) :
    (positionOf (a ++ u ++ b) a.length).pastText u
      = positionOf (a ++ u ++ b) (a.length + u.length) := by
  rw [positionOf_eq_place h, positionOf_eq_place h, append_assoc, take_left',
    ← append_assoc, take_left' (by simp), pastText_eq_add, place_append]
  rfl

lemma slice_append (a u b : Text) :
    slice (a ++ u ++ b) a.length (a.length + u.length) = u := by
  rw [slice, take_left' (by simp), drop_left]

end Text

namespace Document

/-- The text of a document whose rows end in line feeds, with the part of a tag at each
position. -/
structure Inked (d : Document) (ink : List InkedChar) : Prop where
  text_eq : d.text = textOf ink
  onlyLineFeeds : d.text.OnlyLineFeeds
  tokenAt?_eq : ∀ {i c part}, ink[i]? = some (c, part) → c ≠ '\n' →
    d.tokenAt? (d.text.positionOf i) = part

namespace Inked

variable {d : Document} {ink : List InkedChar}

/-- An inked document has the characters of its ink. -/
lemma getElem?_text (h : d.Inked ink) {i : Nat} {part : Option Token}
    (hi : ink[i]? = some (c, part)) : d.text[i]? = some c := by
  rw [h.text_eq, textOf, getElem?_map, hi]
  rfl

lemma pastText_positionOf (h : d.Inked ink) {a u b : List InkedChar} (hink : ink = a ++ u ++ b) :
    (d.text.positionOf a.length).pastText (textOf u) = d.text.positionOf (a.length + u.length) := by
  have htext : d.text = textOf a ++ textOf u ++ textOf b := by
    rw [h.text_eq, hink, textOf_append, textOf_append]
  have honly := h.onlyLineFeeds
  rw [htext] at honly ⊢
  simpa using Text.pastText_positionOf honly

/-- A stretch of ink is the slice of the text. -/
lemma slice_eq (h : d.Inked ink) {a u b : List InkedChar} (hink : ink = a ++ u ++ b) :
    d.text.slice a.length (a.length + u.length) = textOf u := by
  have hslice := Text.slice_append (textOf a) (textOf u) (textOf b)
  rw [h.text_eq, hink, textOf_append, textOf_append]
  simpa using hslice

lemma tokenAt?_length (h : d.Inked ink) {part : Option Token}
    (hink : ink = a ++ (c, part) :: b) (hc : c ≠ '\n') :
    d.tokenAt? (d.text.positionOf a.length) = part := by
  apply h.tokenAt?_eq (c := c) _ hc
  rw [hink, getElem?_append_right (Nat.le_refl _), Nat.sub_self]
  rfl

/-- A scan of a part of the text finds the tokens of the part. -/
lemma filterMap_scan (h : d.Inked ink) (b : List InkedChar) (offset : Nat) (u : List InkedChar) :
    ∀ a : List InkedChar, ink = a ++ u ++ b → a.length = offset →
      (Pattern.tagToken.scan (d.text.positionOf offset) (textOf u)).filterMap d.classify
        = (tokensIn offset u).map (OffsetToken.hit d.text) := by
  fun_induction tokensIn offset u with
  | case1 offset =>
    intro a _ _
    rw [textOf_nil, Pattern.scan]
    rfl
  | case2 offset c part rest taken htaken ih =>
    intro a hink hoffset
    have hpast : (d.text.positionOf offset).past c = d.text.positionOf (offset + 1) := by
      rw [← hoffset]
      exact h.pastText_positionOf (u := [(c, part)]) (b := rest ++ b) (by simp [hink])
    rw [textOf_cons, Pattern.scan_cons_of_eq_zero htaken, hpast]
    exact ih (a ++ [(c, part)]) (by simp [hink]) (by simp [hoffset])
  | case3 offset c part rest taken htaken ih =>
    intro a hink hoffset
    have hle : taken ≤ (textOf rest).length + 1 := Pattern.tagToken_le_length c (textOf rest)
    have hc : c ≠ '\n' := by
      rintro rfl
      exact htaken (Pattern.tagToken_lineFeed_cons _)
    obtain ⟨n, hn⟩ : ∃ n, taken = n + 1 := ⟨taken - 1, by omega⟩
    rw [length_textOf] at hle
    -- What is taken, as a stretch `u` of the inked text.
    obtain ⟨u, hu⟩ : ∃ u, u = (c, part) :: rest.take n := ⟨_, rfl⟩
    have hlength : u.length = taken := by
      rw [hu, length_cons, length_take]
      omega
    have htext : (c :: textOf rest).take taken = textOf u := by
      rw [hu, hn, take_succ_cons, textOf_cons, textOf, textOf, map_take]
    have hsplit : ink = a ++ u ++ (rest.drop n ++ b) := by
      rw [hink, hu]
      simp only [append_assoc, cons_append]
      rw [← append_assoc (rest.take n), take_append_drop]
    have hstop := h.pastText_positionOf hsplit
    have hslice := h.slice_eq hsplit
    have hpart := h.tokenAt?_length (b := rest ++ b) (by simpa using hink) hc
    have hrest := ih (a ++ u) (by simpa [hn] using hsplit) (by simp [hoffset, hlength])
    rw [hoffset] at hpart
    rw [hoffset, hlength] at hstop hslice
    rw [textOf_cons, Pattern.scan_cons_of_ne_zero htaken (by simpa using hle)]
    show List.filterMap _ (⟨⟨_, Position.pastText _ (List.take taken _)⟩, List.take taken _⟩ ::
      Pattern.scan _ (Position.pastText _ (List.take taken _)) (List.drop (taken - 1) _)) = _
    rw [htext, hstop, map_append, ← hrest, filterMap_cons, classify, hpart]
    have hdrop : textOf (rest.drop (taken - 1)) = (textOf rest).drop (taken - 1) := map_drop
    cases part with
    | none => rw [hdrop]; rfl
    | some token => rw [hdrop, ← hslice]; rfl

/-- The tokens from an offset on. -/
lemma tokensFrom_eq (h : d.Inked ink) (hink : ink = a ++ b) :
    d.tokensFrom (d.text.positionOf a.length)
      = (tokensIn a.length b).map (OffsetToken.hit d.text) := by
  have hlength : d.text.length = a.length + b.length := by
    rw [h.text_eq, hink, length_textOf, length_append]
  have hslice : d.text.slice a.length d.text.length = textOf b := by
    rw [Text.slice, take_length, h.text_eq, hink, textOf_append,
      drop_left' (length_textOf a)]
  rw [tokensFrom, Buffer.scan]
  show List.filterMap _ (Pattern.scan _ (d.text.clip (Range.start _)) (d.text.inRange _)) = _
  rw [Text.endPosition_eq h.onlyLineFeeds,
    Text.ofEnds_positionOf h.onlyLineFeeds (by omega) (Nat.le_refl _),
    Text.inRange_positionOf h.onlyLineFeeds (by omega) (Nat.le_refl _),
    Text.clip_positionOf h.onlyLineFeeds (by omega), hslice]
  exact h.filterMap_scan [] a.length b a (by simpa using hink) rfl

/-- The tokens up to an offset. -/
lemma tokensBefore_eq (h : d.Inked ink) (hink : ink = a ++ b) :
    d.tokensBefore (d.text.positionOf a.length)
      = ((tokensIn 0 a).map (OffsetToken.hit d.text)).reverse := by
  have hlength : d.text.length = a.length + b.length := by
    rw [h.text_eq, hink, length_textOf, length_append]
  have hslice : d.text.slice 0 a.length = textOf a := by
    rw [Text.slice, h.text_eq, hink, textOf_append, take_left' (length_textOf a)]
    rfl
  rw [tokensBefore, Buffer.scanBack, Buffer.scan, filterMap_reverse]
  show (List.filterMap _ (Pattern.scan _ (d.text.clip (Range.start _)) (d.text.inRange _))).reverse
    = _
  rw [← Text.positionOf_zero h.onlyLineFeeds,
    Text.ofEnds_positionOf h.onlyLineFeeds (Nat.zero_le _) (by omega),
    Text.inRange_positionOf h.onlyLineFeeds (Nat.zero_le _) (by omega),
    Text.clip_positionOf h.onlyLineFeeds (Nat.zero_le _), hslice]
  rw [h.filterMap_scan b 0 a [] (by simpa using hink) rfl]

end Inked

end Document

end TemplateEditing
