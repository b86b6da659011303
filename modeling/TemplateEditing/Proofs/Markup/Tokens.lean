import TemplateEditing.Proofs.Markup.Ink

/-!
# The tokens of markup

The tokens of a tag are its two brackets, its name, and between those tokens of attributes
(`Tag.tokensIn_append_ink`). Markup has the tokens of its tags (`tokensIn_inkSegments`): no token
goes from one segment to the next, and comments and text have none.
-/

namespace TemplateEditing.Markup

open List

variable {ink : List InkedChar}

open Pattern (Apart isWordChar joins tagToken)

/-! ## The tokens of a tag -/

/-- An attribute ends in a word or a quote. -/
lemma Attribute.getLast_render (a : Attribute) :
    ∀ c ∈ a.render.getLast?, isWordChar c = true ∨ c = '"' := by
  intro c hc
  rw [Attribute.render] at hc
  cases hvalue : a.value with
  | none =>
    have hne : a.name.text ≠ [] := cons_ne_nil _ _
    rw [hvalue, Option.map_none, Option.getD_none, append_nil, getLast?_append,
      getLast?_eq_some_getLast hne] at hc
    rw [← Option.some.inj hc]
    exact .inl (a.name.isWordChar_of_mem (getLast_mem hne))
  | some v =>
    have hrender : a.gap ++ a.name.text ++ v.render
        = a.gap ++ a.name.text ++ ('=' :: '"' :: v.text) ++ ['"'] := by
      simp [Value.render]
    rw [hvalue, Option.map_some, Option.getD_some, hrender, getLast?_append] at hc
    exact .inr (Option.some.inj hc).symm

lemma getLast_renderAttributes (as : List Attribute) :
    ∀ c ∈ (renderAttributes as).getLast?, isWordChar c = true ∨ c = '"' := by
  induction as with
  | nil => exact fun c hc => nomatch hc
  | cons a as ih =>
    intro c hc
    have hrender : renderAttributes (a :: as) = a.render ++ renderAttributes as := rfl
    rw [hrender, getLast?_append, Option.mem_def, Option.or_eq_some_iff] at hc
    rcases hc with hc | ⟨_, hc⟩
    · exact ih c hc
    · exact a.getLast_render c hc

namespace Tag

/-- The offset behind the attributes of a tag. -/
def attributesStop (tag : Tag) : Nat := tag.nameStop + (renderAttributes tag.attributes).length

/-- The bracket in front of a tag at an offset. -/
def startAt (tag : Tag) (offset : Nat) : OffsetToken :=
  ⟨offset, offset + tag.nameStart, startToken tag.kind⟩

/-- The name of a tag at an offset. -/
def nameAt (tag : Tag) (offset : Nat) : OffsetToken :=
  ⟨offset + tag.nameStart, offset + tag.nameStop, nameToken tag.kind⟩

/-- The bracket behind a tag at an offset. -/
def endAt (tag : Tag) (offset : Nat) : OffsetToken :=
  ⟨offset + tag.attributesStop, offset + tag.render.length, endToken tag.kind⟩

lemma length_render (tag : Tag) :
    tag.render.length = tag.attributesStop + (closer tag.kind).length := by
  simp only [render, attributesStop, nameStop, nameStart, length_append]

/-- The name of a tag, before anything that is not part of a word. -/
lemma tokensIn_name (tag : Tag) (offset : Nat)
    (h : ∀ d ∈ (textOf ink).head?, isWordChar d = false) :
    tokensIn (offset + tag.nameStart) (tag.name.text.ink (nameToken tag.kind) ++ ink) =
      tag.nameAt offset :: tokensIn (offset + tag.nameStop) ink := by
  have hname : ∀ c ∈ tag.name.text, isWordChar c = true := fun c => tag.name.isWordChar_of_mem
  have hborder : Apart tag.name.text (textOf ink) := by
    intro c hc d hd
    exact Pattern.joins_of_word_left (hname c (mem_of_getLast? hc)) (h d hd)
  have hne : tag.name.text ≠ [] := cons_ne_nil _ _
  have hword : tagToken tag.name.text = tag.name.text.length := Pattern.tagToken_word hname
  rw [tokensIn_append (by simpa using hborder), tokensIn_ink hne hword]
  simp only [length_ink, nameAt, nameStop, Nat.add_assoc]
  rfl

/-- The bracket in front of a tag, before a word. -/
lemma tokensIn_opener (tag : Tag) (offset : Nat)
    (h : ∀ d ∈ (textOf ink).head?, isWordChar d = true) :
    tokensIn offset ((opener tag.kind).ink (startToken tag.kind) ++ ink) =
      tag.startAt offset :: tokensIn (offset + tag.nameStart) ink := by
  have hborder : Apart (opener tag.kind) (textOf ink) := by
    intro c hc d hd
    have hc : isWordChar c = false := by
      cases hkind : tag.kind <;> rw [hkind] at hc <;> cases hc <;> decide
    exact Pattern.joins_of_word_right hc (h d hd)
  have htaken : tagToken (opener tag.kind) = (opener tag.kind).length := by
    cases tag.kind <;> decide
  have hne : opener tag.kind ≠ [] := by cases tag.kind <;> decide
  rw [tokensIn_append (by simpa using hborder), tokensIn_ink hne htaken, length_ink]
  rfl

/-- No token goes on from attributes into the end of a tag. -/
lemma apart_closer (tag : Tag) (t : Text) :
    Apart (renderAttributes tag.attributes) (closer tag.kind ++ t) := by
  intro c hc d hd
  have hd : d = '>' ∨ d = '/' := by
    cases hkind : tag.kind <;> rw [hkind] at hd <;> cases hd <;> simp
  rcases getLast_renderAttributes tag.attributes c hc with hc | rfl
  · rcases hd with rfl | rfl
    · exact Pattern.joins_of_word_left hc (by decide)
    · exact Pattern.joins_of_word_left hc (by decide)
  · rcases hd with rfl | rfl <;> decide

/-- The end of a tag, behind all of its attributes. -/
lemma tokensIn_back (tag : Tag) (offset : Nat) (ink : List InkedChar) :
    tokensIn (offset + tag.nameStop) (inkAttributes tag.attributes ++
        ((closer tag.kind).ink (endToken tag.kind) ++ ink)) =
      tokensIn (offset + tag.nameStop) (inkAttributes tag.attributes) ++
        tag.endAt offset :: tokensIn (offset + tag.render.length) ink := by
  have hcloser : Apart (closer tag.kind) (textOf ink) := by
    cases tag.kind
    · exact Pattern.append_bracket_apart [] _
    · exact Pattern.append_bracket_apart [] _
    · exact Pattern.append_bracket_apart ['/'] _
  have htaken : tagToken (closer tag.kind) = (closer tag.kind).length := by
    cases tag.kind <;> decide
  have hne : closer tag.kind ≠ [] := by cases tag.kind <;> decide
  have hlength : (inkAttributes tag.attributes).length =
      (renderAttributes tag.attributes).length := by
    rw [← textOf_inkAttributes, length_textOf]
  have hattributes := tag.apart_closer (textOf ink)
  rw [tokensIn_append (by simpa using hattributes), tokensIn_append (by simpa using hcloser),
    tokensIn_ink hne htaken]
  simp only [length_ink, hlength, endAt, length_render, attributesStop, Nat.add_assoc]
  rfl

/-- The tokens of a tag. -/
def tokens (tag : Tag) (offset : Nat) : List OffsetToken :=
  tag.startAt offset :: tag.nameAt offset ::
    (tokensIn (offset + tag.nameStop) (inkAttributes tag.attributes) ++ [tag.endAt offset])

/-- The front of a tag, before anything that is not part of a word. -/
lemma tokensIn_front (tag : Tag) (offset : Nat)
    (h : ∀ d ∈ (textOf ink).head?, isWordChar d = false) :
    tokensIn offset ((opener tag.kind).ink (startToken tag.kind) ++
        (tag.name.text.ink (nameToken tag.kind) ++ ink)) =
      tag.startAt offset :: tag.nameAt offset :: tokensIn (offset + tag.nameStop) ink := by
  have hname : ∀ d ∈ (textOf (tag.name.text.ink (nameToken tag.kind) ++ ink)).head?,
      isWordChar d = true := by
    intro d hd
    rw [textOf_append, textOf_ink] at hd
    obtain rfl : tag.name.first = d := Option.some.inj hd
    exact tag.name.isWordChar_of_mem mem_cons_self
  rw [tag.tokensIn_opener offset hname, tag.tokensIn_name offset h]

/-- No word goes on behind the name of a tag. -/
lemma head_behind (tag : Tag) (t : Text) :
    ∀ d ∈ (renderAttributes tag.attributes ++ (closer tag.kind ++ t)).head?,
      isWordChar d = false := by
  intro d hd
  rcases head_behind_name _ _ _ d hd with rfl | rfl | rfl | rfl <;> decide

/-- A tag has its tokens, whatever is behind it. -/
lemma tokensIn_append_ink (tag : Tag) (offset : Nat) (ink : List InkedChar) :
    tokensIn offset (tag.ink ++ ink) =
      tag.tokens offset ++ tokensIn (offset + tag.render.length) ink := by
  have hbehind := tag.head_behind (textOf ink)
  simp only [Tag.ink, append_assoc]
  rw [tag.tokensIn_front offset (by simpa using hbehind), tag.tokensIn_back]
  simp only [tokens, cons_append, append_assoc, nil_append]

/-- Attributes have tokens of their names only, also when they are cut off. -/
lemma kind_of_mem_attributes (as : List Attribute) (hink : ink ⊆ inkAttributes as) {offset : Nat}
    {t : OffsetToken} (h : t ∈ tokensIn offset ink) :
    t.token.kind = .attributeName := by
  obtain ⟨x, hx, hpart⟩ := exists_mem_of_mem_tokensIn h
  obtain ⟨a, _, hx⟩ := mem_flatMap.1 (hink hx)
  rw [Attribute.ink, mem_append, mem_append] at hx
  rcases hx with (hx | hx) | hx
  · -- the blanks
    rw [snd_of_mem_ink hx] at hpart
    cases hpart
  · -- the name
    rw [snd_of_mem_ink hx] at hpart
    rw [← Option.some.inj hpart]
  · -- the value
    rw [snd_of_mem_ink hx] at hpart
    cases hpart

/-- Half of a bracket is no token. -/
lemma tokensIn_half_closer {kind : TagKind} {v back : List InkedChar}
    (hsplit : (closer kind).ink (endToken kind) = v ++ back) (hback : back ≠ []) (offset : Nat) :
    tokensIn offset v = [] := by
  have hnil : ∀ {w : List InkedChar}, w ++ back ≠ [] := fun h =>
    hback (append_eq_nil_iff.1 h).2
  match v with
  | [] => exact tokensIn_nil offset
  | [x] =>
    have hhead := congrArg List.head? hsplit
    cases kind with
    | opening => exact absurd (List.cons.inj hsplit).2.symm hnil
    | closing => exact absurd (List.cons.inj hsplit).2.symm hnil
    | selfClosing =>
      obtain rfl : ('/', some (endToken .selfClosing)) = x := Option.some.inj hhead
      have hslash : tagToken ('/' :: textOf []) = 0 := by decide
      rw [tokensIn, hslash, if_pos rfl, tokensIn_nil]
  | x :: y :: v =>
    cases kind with
    | opening => exact absurd (List.cons.inj hsplit).2.symm (cons_ne_nil _ _)
    | closing => exact absurd (List.cons.inj hsplit).2.symm (cons_ne_nil _ _)
    | selfClosing => exact absurd (List.cons.inj (List.cons.inj hsplit).2).2.symm hnil

/-- Between its name and the last character of its end a tag has tokens of attributes only. -/
lemma kind_of_mem_tokensIn_front (tag : Tag) {front back : List InkedChar}
    (hsplit : inkAttributes tag.attributes ++ (closer tag.kind).ink (endToken tag.kind)
      = front ++ back) (hback : back ≠ []) {offset : Nat} :
    ∀ t ∈ tokensIn offset front, t.token.kind = .attributeName := by
  intro t ht
  rcases append_eq_append_iff.1 hsplit with ⟨v, rfl, hv⟩ | ⟨v, hv, -⟩
  · -- the cut is in the bracket
    have hborder : Apart (textOf (inkAttributes tag.attributes)) (textOf v) := by
      rw [textOf_inkAttributes]
      apply (tag.apart_closer []).of_front
      rw [append_nil, ← textOf_ink (closer tag.kind), hv, textOf_append]
      exact prefix_append _ _
    rw [tokensIn_append hborder, tokensIn_half_closer hv hback, append_nil] at ht
    exact kind_of_mem_attributes tag.attributes (List.Subset.refl _) ht
  · -- the cut is among the attributes
    apply kind_of_mem_attributes tag.attributes _ ht
    rw [hv]
    exact subset_append_left _ _

end Tag

/-! ## The tokens of segments -/

/-- The tokens of a segment. -/
def Segment.tokens (offset : Nat) : Segment → List OffsetToken
  | .tag mark => mark.tokens offset
  | .comment _ | .text _ => []

/-- The tokens of segments, the first of which stands at an offset. -/
def segmentTokens (offset : Nat) : List Segment → List OffsetToken
  | [] => []
  | s :: segments => s.tokens offset ++ segmentTokens (offset + s.render.length) segments

/-- No token goes on into a tag. -/
lemma Tag.apart_render (u : Text) (tag : Tag) (t : Text) : Apart u (tag.render ++ t) := by
  obtain ⟨kind, name, attributes⟩ := tag
  cases kind <;> exact Pattern.apart_bracket_cons u _

/-- Between two texts without parts, segments have the tokens of their tags. -/
lemma tokensIn_bare (u v : Text) (segments : List Segment) (offset : Nat) :
    tokensIn offset (u.ink none ++ (inkSegments segments ++ v.ink none)) =
      segmentTokens (offset + u.length) segments := by
  -- comments and texts go to the text in front, up to the next tag
  induction segments generalizing u offset with
  | nil =>
    rw [inkSegments_nil, nil_append, ← ink_append]
    exact tokensIn_of_forall_none (fun x => snd_of_mem_ink) offset
  | cons s segments ih =>
    rw [inkSegments_cons, segmentTokens, append_assoc]
    cases s with
    | tag mark =>
      have hborder : Apart (textOf (u.ink none))
          (textOf (mark.ink ++ (inkSegments segments ++ v.ink none))) := by
        rw [textOf_ink, textOf_append, textOf_inkTag]
        exact mark.apart_render u _
      have hrest := ih [] (offset + u.length + mark.render.length)
      rw [Segment.ink, tokensIn_append hborder, tokensIn_of_forall_none fun x => snd_of_mem_ink,
        length_ink, nil_append, mark.tokensIn_append_ink]
      exact congrArg _ hrest
    | comment c =>
      rw [Segment.ink, ← append_assoc, ← ink_append, ih, length_append, Nat.add_assoc]
      rfl
    | text p =>
      rw [Segment.ink, ← append_assoc, ← ink_append, ih, length_append, Nat.add_assoc]
      rfl

/-- Segments have the tokens of their tags. -/
lemma tokensIn_inkSegments (segments : List Segment) (offset : Nat) :
    tokensIn offset (inkSegments segments) = segmentTokens offset segments := by
  have h := tokensIn_bare [] [] segments offset
  rwa [show Text.ink [] none = [] from rfl, append_nil, nil_append] at h

end TemplateEditing.Markup
