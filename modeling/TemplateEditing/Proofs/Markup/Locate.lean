import TemplateEditing.Proofs.Markup.Tokens
import TemplateEditing.Tag.Locate

/-!
# The tag around a position of markup

In well-formed markup the tag around each character is found, with its kind, its range and the range
of its name; in comments and text no tag is found (`Tree.tagAt_positionOf`).

Which search is made depends on where in the tag the character is: in the bracket in front, in the
name, among the attributes, or in the bracket behind. All of them end with the same tag.
-/

namespace TemplateEditing

open List

variable {k : Nat} {d : Document} {x : InkedChar} {c : Char}

/-! ## Searches among tokens -/

lemma walkBack_append {tokens : List TokenHit} (h : ∀ t ∈ tokens, t.kind = .attributeName)
    (row : Nat) (name : Option Range) (opening : Bool) (rest : List TokenHit) :
    walkBack row name opening (tokens ++ rest) = walkBack row name opening rest := by
  induction tokens with
  | nil => rfl
  | cons t tokens ih =>
    have ht := h t mem_cons_self
    rw [cons_append, walkBack, ht]
    exact ih fun t' ht' => h t' (mem_cons_of_mem t ht')

lemma Document.findEnd_append {tokens : List TokenHit} (h : ∀ t ∈ tokens, t.kind = .attributeName)
    (draft : TagDraft) (rest : List TokenHit) :
    findEnd draft (tokens ++ rest) = findEnd draft rest := by
  induction tokens with
  | nil => rfl
  | cons t tokens ih =>
    have ht := h t mem_cons_self
    rw [cons_append, findEnd, ht]
    exact ih fun t' ht' => h t' (mem_cons_of_mem t ht')

lemma Document.completeTag?_of_stop (d : Document) {draft : TagDraft} {name : Range}
    {stop : Position} (hname : draft.name = some name) (hstop : draft.stop = some stop) :
    d.completeTag? draft = some
      { kind := if draft.selfClosing then .selfClosing
          else if draft.opening then .opening else .closing
        range := .ofEnds draft.start stop
        nameRange := some name
        concise := draft.concise } := by
  simp [completeTag?, hname, hstop]

lemma Document.completeTag?_of_findEnd (d : Document) {draft found : TagDraft} {name : Range}
    {stop : Position} (hname : draft.name = some name) (hstop : draft.stop = none)
    (hfound : findEnd draft (d.tokensFrom name.stop) = found) (hname' : found.name = some name)
    (hstop' : found.stop = some stop) : d.completeTag? draft = d.completeTag? found := by
  simp [completeTag?, hname, hstop, hfound, hname', hstop']

lemma Document.tagAt_of_none {p : Position} (hprobe : d.probe p = p)
    (htoken : d.tokenAt? p = none) : d.tagAt p = .ok ((d.tagFromGap? p).bind d.completeTag?) := by
  simp only [tagAt, hprobe, htoken]

lemma Document.tagAt_of_some {p : Position} {token : Token} {draft : TagDraft}
    (hprobe : d.probe p = p) (htoken : d.tokenAt? p = some token)
    (hdraft : (if token.kind.isEnd then d.tagFromEnd p token.kind
      else if token.kind.isStart then .ok (d.tagFromStart p token.kind)
      else if token.kind.isName then d.tagFromName p token else d.tagFromAttribute p) = .ok draft) :
    d.tagAt p = .ok (d.completeTag? draft) := by
  simp only [tagAt, hprobe, htoken]
  split at hdraft
  · rw [if_pos ‹_›, hdraft]
    rfl
  · rw [if_neg ‹_›]
    split at hdraft
    · rw [if_pos ‹_›, hdraft]
      rfl
    · rw [if_neg ‹_›]
      split at hdraft
      · rw [if_pos ‹_›, hdraft]
        rfl
      · rw [if_neg ‹_›, hdraft]
        rfl

/-- A character of a row is looked up where it is. -/
lemma Document.Inked.probe_eq {ink : List InkedChar} (h : d.Inked ink) {i : Nat}
    (hx : ink[i]? = some x) (hc : x.1 ≠ '\n') :
    d.probe (d.text.positionOf i) = d.text.positionOf i := by
  have hchar : d.text[i]? = some x.1 := by
    rw [h.text_eq, textOf, getElem?_map, hx]
    rfl
  have hcolumn := Text.column_lt_lineLength h.onlyLineFeeds hchar hc
  rw [probe, if_neg]
  omega

namespace Markup

/-! ## Tokens around a tag -/

/-- A tag stands in a document at an offset, between other segments. -/
structure Stands (d : Document) (tag : Tag) (offset : Nat) (before after : List Segment) :
    Prop where
  inked : d.Inked (inkSegments (before ++ .tag tag :: after))
  offset_eq : (renderSegments before).length = offset

lemma inkSegments_split {tag : Tag} {front back : List InkedChar} (hsplit : tag.ink = front ++ back)
    (before after : List Segment) :
    inkSegments (before ++ .tag tag :: after)
      = (inkSegments before ++ front) ++ (back ++ inkSegments after) := by
  rw [inkSegments_append, inkSegments_cons, Segment.ink, hsplit]
  simp only [append_assoc]

namespace Stands

variable {d : Document} {tag : Tag} {offset : Nat} {before after : List Segment}

lemma length_inkSegments (h : Stands d tag offset before after) :
    (inkSegments before).length = offset := by
  rw [Markup.length_inkSegments, h.offset_eq]

/-- The tokens before a place in a tag: those of the tag up to there, and those of the markup in
front of the tag. -/
lemma tokensBefore_eq (h : Stands d tag offset before after) {front back : List InkedChar}
    (hsplit : tag.ink = front ++ back) :
    d.tokensBefore (d.text.positionOf (offset + front.length)) =
      ((tokensIn offset front).map (OffsetToken.hit d.text)).reverse ++
        ((segmentTokens 0 before).map (OffsetToken.hit d.text)).reverse := by
  have hborder : Pattern.Apart (textOf (inkSegments before)) (textOf front) := by
    apply (tag.apart_render _ []).of_front
    rw [append_nil, ← textOf_inkTag, hsplit, textOf_append]
    exact prefix_append _ _
  have hbefore := h.inked.tokensBefore_eq (inkSegments_split hsplit before after)
  rw [length_append, h.length_inkSegments, tokensIn_append hborder, tokensIn_inkSegments,
    h.length_inkSegments, Nat.zero_add] at hbefore
  rw [hbefore, map_append, reverse_append]

/-- The tokens from a place in a tag on: those of the tag from there on, and those of the markup
behind the tag. -/
lemma tokensFrom_eq (h : Stands d tag offset before after) {front back : List InkedChar}
    (hsplit : tag.ink = front ++ back) :
    d.tokensFrom (d.text.positionOf (offset + front.length)) =
      (tokensIn (offset + front.length) (back ++ inkSegments after)).map
        (OffsetToken.hit d.text) := by
  have hfrom := h.inked.tokensFrom_eq (inkSegments_split hsplit before after)
  rwa [length_append, h.length_inkSegments] at hfrom

/-- The bracket in front of the tag and its name are the first tokens from the tag on. -/
lemma tokensFrom_start (h : Stands d tag offset before after) :
    ∃ rest, d.tokensFrom (d.text.positionOf offset) =
      (tag.startAt offset).hit d.text :: (tag.nameAt offset).hit d.text :: rest := by
  have hfrom := h.tokensFrom_eq (nil_append tag.ink).symm
  rw [tag.tokensIn_append_ink] at hfrom
  exact ⟨_, hfrom⟩

/-- The name is the first token from itself on. -/
lemma tokensFrom_name (h : Stands d tag offset before after) :
    ∃ rest, d.tokensFrom (d.text.positionOf (offset + tag.nameStart)) =
      (tag.nameAt offset).hit d.text :: rest := by
  have hsplit : tag.ink = (opener tag.kind).ink (startToken tag.kind) ++
      (tag.name.text.ink (nameToken tag.kind) ++ (inkAttributes tag.attributes ++
        (closer tag.kind).ink (endToken tag.kind))) := by
    simp only [Tag.ink, append_assoc]
  have hbehind := tag.head_behind (renderSegments after)
  have hfrom := h.tokensFrom_eq hsplit
  rw [length_ink] at hfrom
  simp only [append_assoc] at hfrom
  exact ⟨_, hfrom.trans (by rw [← Tag.nameStart, tag.tokensIn_name offset (by simpa using hbehind),
    map_cons])⟩

/-- From the name on there are tokens of attributes up to the bracket behind the tag. -/
lemma tokensFrom_nameStop (h : Stands d tag offset before after) :
    ∃ attributes rest, d.tokensFrom (d.text.positionOf (offset + tag.nameStop)) =
        attributes ++ (tag.endAt offset).hit d.text :: rest ∧
      ∀ t ∈ attributes, t.kind = .attributeName := by
  have hsplit : tag.ink = (opener tag.kind).ink (startToken tag.kind) ++
      tag.name.text.ink (nameToken tag.kind) ++ (inkAttributes tag.attributes ++
        (closer tag.kind).ink (endToken tag.kind)) := by
    simp only [Tag.ink, append_assoc]
  have hfrom := h.tokensFrom_eq hsplit
  rw [length_append, length_ink, length_ink, ← Tag.nameStart, ← Tag.nameStop,
    append_assoc, tag.tokensIn_back, map_append] at hfrom
  refine ⟨_, _, hfrom, ?_⟩
  intro t ht
  obtain ⟨token, htoken, rfl⟩ := mem_map.1 ht
  exact Tag.kind_of_mem_attributes tag.attributes (List.Subset.refl _) htoken

/-- Before a place behind the name there are tokens of attributes up to the name, and then the
bracket in front of the tag. -/
lemma tokensBefore_attributes (h : Stands d tag offset before after) (hk : tag.nameStop ≤ k)
    (hk' : k < tag.render.length) :
    ∃ attributes rest, d.tokensBefore (d.text.positionOf (offset + k)) =
        attributes ++ (tag.nameAt offset).hit d.text :: (tag.startAt offset).hit d.text :: rest ∧
      ∀ t ∈ attributes, t.kind = .attributeName := by
  obtain ⟨n, rfl⟩ : ∃ n, k = tag.nameStop + n := ⟨k - tag.nameStop, by omega⟩
  -- the tag behind its name, of which `n` characters are before the place
  obtain ⟨behind, hbehind⟩ : ∃ behind, inkAttributes tag.attributes ++
      (closer tag.kind).ink (endToken tag.kind) = behind := ⟨_, rfl⟩
  have htext : textOf behind = renderAttributes tag.attributes ++ (closer tag.kind ++ []) := by
    rw [← hbehind, textOf_append, textOf_inkAttributes, textOf_ink, append_nil]
  have hlength : n < behind.length := by
    rw [← length_textOf, htext, append_nil, length_append]
    rw [tag.length_render, Tag.attributesStop] at hk'
    omega
  have hhead : ∀ c ∈ (textOf (behind.take n)).head?, Pattern.isWordChar c = false := by
    intro c hc
    apply tag.head_behind [] c
    rw [← htext, ← take_append_drop n behind, textOf_append, head?_append,
      Option.mem_def.1 hc]
    rfl
  -- the tag up to the place
  obtain ⟨front, hfront⟩ : ∃ front, (opener tag.kind).ink (startToken tag.kind) ++
      (tag.name.text.ink (nameToken tag.kind) ++ behind.take n) = front := ⟨_, rfl⟩
  have hsplit : tag.ink = front ++ behind.drop n := by
    simp only [Tag.ink, ← hfront, append_assoc, take_append_drop, hbehind]
  have hstop : front.length = tag.nameStop + n := by
    simp only [← hfront, length_append, length_ink, length_take, Tag.nameStop,
      Tag.nameStart]
    omega
  have htokens : tokensIn offset front = tag.startAt offset :: tag.nameAt offset ::
      tokensIn (offset + tag.nameStop) (behind.take n) := by
    rw [← hfront, tag.tokensIn_front offset hhead]
  have hbefore := h.tokensBefore_eq hsplit
  rw [hstop, htokens] at hbefore
  simp only [map_cons, reverse_cons, append_assoc, cons_append,
    nil_append] at hbefore
  refine ⟨_, _, hbefore, ?_⟩
  intro t ht
  obtain ⟨token, htoken, rfl⟩ := mem_map.1 (mem_reverse.1 ht)
  refine tag.kind_of_mem_tokensIn_front (hbehind.trans (take_append_drop n behind).symm) ?_
    token htoken
  rw [← length_pos_iff, length_drop]
  omega

/-- Before a place in the name there is no bracket but the one in front of the tag. -/
lemma tokensBefore_name (h : Stands d tag offset before after) (hk : tag.nameStart ≤ k)
    (hk' : k < tag.nameStop) :
    (d.tokensBefore (d.text.positionOf (offset + k))).find? (·.kind.isStart) =
      some ((tag.startAt offset).hit d.text) := by
  obtain ⟨n, rfl⟩ : ∃ n, k = tag.nameStart + n := ⟨k - tag.nameStart, by omega⟩
  obtain ⟨u, hu⟩ : ∃ u : Text, tag.name.text.take n = u := ⟨_, rfl⟩
  obtain ⟨v, hv⟩ : ∃ v : Text, tag.name.text.drop n = v := ⟨_, rfl⟩
  have hname : tag.name.text = u ++ v := by rw [← hu, ← hv, take_append_drop]
  have hhead : ∀ c ∈ (textOf (u.ink (nameToken tag.kind))).head?, Pattern.isWordChar c = true := by
    intro c hc
    rw [textOf_ink] at hc
    apply tag.name.isWordChar_of_mem
    rw [hname]
    exact mem_append_left v (mem_of_head? hc)
  have hsplit : tag.ink =
      ((opener tag.kind).ink (startToken tag.kind) ++ u.ink (nameToken tag.kind)) ++
        (v.ink (nameToken tag.kind) ++ (inkAttributes tag.attributes ++
          (closer tag.kind).ink (endToken tag.kind))) := by
    simp only [Tag.ink, hname, ink_append, append_assoc]
  -- the tag is cut in its name: before stand its bracket and the front of a word
  have hbefore := h.tokensBefore_eq hsplit
  rw [tag.tokensIn_opener offset hhead, length_append, length_ink, length_ink, ← hu,
    length_take_of_le (by rw [Tag.nameStop] at hk'; omega), ← Tag.nameStart] at hbefore
  have hnone : ((tokensIn (offset + tag.nameStart) (Text.ink (tag.name.text.take n)
      (nameToken tag.kind))).map (OffsetToken.hit d.text)).reverse.find? (·.kind.isStart) =
        none := by
    rw [find?_eq_none]
    intro t ht
    obtain ⟨token, htoken, rfl⟩ := mem_map.1 (mem_reverse.1 ht)
    obtain ⟨x, hx, hpart⟩ := exists_mem_of_mem_tokensIn htoken
    rw [snd_of_mem_ink hx] at hpart
    show ¬ token.token.kind.isStart = true
    rw [← Option.some.inj hpart]
    cases tag.kind <;> decide
  have hstart : ((tag.startAt offset).hit d.text).kind.isStart = true := by
    show (startToken tag.kind).kind.isStart = true
    cases tag.kind <;> rfl
  rw [hbefore, map_cons, reverse_cons, append_assoc, find?_append, hnone,
    Option.none_or, singleton_append, find?_cons, hstart]

/-! ## Characters of a tag -/

lemma text_eq (h : Stands d tag offset before after) :
    d.text = renderSegments before ++ (tag.render ++ renderSegments after) := by
  rw [h.inked.text_eq, textOf_inkSegments, renderSegments_append, renderSegments_cons]
  rfl

lemma length_le (h : Stands d tag offset before after) :
    offset + tag.render.length ≤ d.text.length := by
  rw [h.text_eq, length_append, length_append, h.offset_eq]
  omega

lemma getElem?_text (h : Stands d tag offset before after) (hk : k < tag.render.length) :
    d.text[offset + k]? = tag.render[k]? := by
  rw [h.text_eq, getElem?_append_right (by rw [h.offset_eq]; omega), h.offset_eq,
    Nat.add_sub_cancel_left, getElem?_append_left hk]

lemma getElem?_ink (h : Stands d tag offset before after) (hk : tag.ink[k]? = some x) :
    (inkSegments (before ++ .tag tag :: after))[offset + k]? = some x := by
  have hlt : k < tag.ink.length := (List.getElem?_eq_some_iff.1 hk).1
  rw [inkSegments_append, inkSegments_cons, Segment.ink,
    getElem?_append_right (by rw [h.length_inkSegments]; omega), h.length_inkSegments,
    Nat.add_sub_cancel_left, getElem?_append_left hlt, hk]

end Stands

lemma Attribute.part_cases {as : List Attribute} (hx : x ∈ inkAttributes as) :
    x.2 = none ∨ x.2 = some { kind := .attributeName } := by
  obtain ⟨a, _, hx⟩ := mem_flatMap.1 hx
  rw [Attribute.ink, mem_append, mem_append] at hx
  rcases hx with (hx | hx) | hx
  · exact .inl (snd_of_mem_ink hx)
  · exact .inr (snd_of_mem_ink hx)
  · exact .inl (snd_of_mem_ink hx)

/-- Where in a tag a character is tells its part. -/
lemma Tag.part_cases (tag : Tag) (hk : tag.ink[k]? = some x) :
    (k < tag.nameStart ∧ x.2 = some (startToken tag.kind)) ∨
    (tag.nameStart ≤ k ∧ k < tag.nameStop ∧ x.2 = some (nameToken tag.kind)) ∨
    (tag.nameStop ≤ k ∧ k < tag.attributesStop ∧
      (x.2 = none ∨ x.2 = some { kind := .attributeName })) ∨
    (tag.attributesStop ≤ k ∧ x.2 = some (endToken tag.kind)) := by
  have hattributes : (inkAttributes tag.attributes).length =
      (renderAttributes tag.attributes).length := by
    rw [← textOf_inkAttributes, length_textOf]
  rw [Tag.ink, getElem?_append, getElem?_append, getElem?_append] at hk
  simp only [length_append, length_ink, hattributes] at hk
  simp only [Tag.attributesStop, Tag.nameStop, Tag.nameStart]
  split at hk
  · split at hk
    · split at hk
      · exact .inl ⟨‹_›, snd_of_mem_ink (mem_of_getElem? hk)⟩
      · exact .inr (.inl ⟨by omega, ‹_›, snd_of_mem_ink (mem_of_getElem? hk)⟩)
    · exact .inr (.inr (.inl ⟨by omega, ‹_›, Attribute.part_cases (mem_of_getElem? hk)⟩))
  · exact .inr (.inr (.inr ⟨by omega, snd_of_mem_ink (mem_of_getElem? hk)⟩))

/-! ## The searches -/

lemma exists_getElem?_of_row {t : Text} (h : '\n' ∉ t) {i : Nat} (hi : i < t.length) :
    ∃ c, t[i]? = some c ∧ c ≠ '\n' := by
  refine ⟨t[i], getElem?_eq_getElem hi, ?_⟩
  intro hc
  exact h (hc ▸ getElem_mem hi)

/-- A slash tells that there is more to the bracket. -/
lemma closer_width {kind : TagKind} {j : Nat} (hc : (closer kind)[j]? = some c) :
    (if some c = some '/' then 2 else 1) = (closer kind).length - j := by
  match kind, j with
  | .opening, 0 | .closing, 0 | .selfClosing, 0 | .selfClosing, 1 => cases hc; rfl
  | .opening, _ + 1 | .closing, _ + 1 | .selfClosing, _ + 2 => cases hc

namespace Tag

lemma getElem?_opener (tag : Tag) (hk : k < tag.nameStart) :
    tag.render[k]? = (opener tag.kind)[k]? := by
  rw [render, append_assoc, append_assoc, getElem?_append_left hk]

lemma getElem?_closer (tag : Tag) (k : Nat) :
    tag.render[tag.attributesStop + k]? = (closer tag.kind)[k]? := by
  have hlength : (opener tag.kind ++ tag.name.text ++ renderAttributes tag.attributes).length =
      tag.attributesStop := by
    rw [length_append, length_append, attributesStop, nameStop, nameStart]
  rw [render, getElem?_append_right (by rw [hlength]; omega), hlength, Nat.add_sub_cancel_left]


/-- What is known of a tag once its start and its name are. -/
def draft (tag : Tag) (t : Text) (offset : Nat) : TagDraft where
  start := t.positionOf offset
  name := some ⟨t.positionOf (offset + tag.nameStart), t.positionOf (offset + tag.nameStop)⟩
  opening := tag.kind != .closing

/-- What is known of a tag once its end is, too. -/
def wholeDraft (tag : Tag) (t : Text) (offset : Nat) : TagDraft :=
  { tag.draft t offset with
    stop := some (t.positionOf (offset + tag.render.length))
    selfClosing := tag.kind == .selfClosing }

end Tag

namespace Stands

variable {d : Document} {tag : Tag} {offset : Nat} {before after : List Segment}

/-- A draft with all of a tag is completed to the tag. -/
lemma completeTag?_wholeDraft (h : Stands d tag offset before after) :
    d.completeTag? (tag.wholeDraft d.text offset) = some (tag.span d.text offset) := by
  have hrange := Text.ofEnds_positionOf h.inked.onlyLineFeeds (Nat.le_add_right offset _)
    h.length_le
  rw [Document.completeTag?_of_stop d rfl rfl]
  obtain ⟨kind, _, _⟩ := tag
  cases kind <;> exact congrArg (fun range => some (TagSpan.mk _ range _ _)) hrange

/-- From the start and the name of a tag its end is found. -/
lemma completeTag?_draft (h : Stands d tag offset before after) :
    d.completeTag? (tag.draft d.text offset) = some (tag.span d.text offset) := by
  obtain ⟨attributes, rest, hfrom, hattributes⟩ := h.tokensFrom_nameStop
  have hend : Document.findEnd (tag.draft d.text offset)
      (d.tokensFrom (d.text.positionOf (offset + tag.nameStop))) =
        tag.wholeDraft d.text offset := by
    rw [hfrom, Document.findEnd_append hattributes]
    obtain ⟨kind, _, _⟩ := tag
    cases kind <;> rfl
  have hname : (tag.draft d.text offset).name = some ⟨d.text.positionOf (offset + tag.nameStart),
      d.text.positionOf (offset + tag.nameStop)⟩ := rfl
  have hname' : (tag.wholeDraft d.text offset).name = (tag.draft d.text offset).name := rfl
  have hstop' : (tag.wholeDraft d.text offset).stop =
      some (d.text.positionOf (offset + tag.render.length)) := rfl
  rw [Document.completeTag?_of_findEnd d hname rfl hend (hname'.trans hname) hstop',
    h.completeTag?_wholeDraft]

/-- From an attribute, or from between attributes, the start and the name are found. -/
lemma walkBack_eq (h : Stands d tag offset before after) (hk : tag.nameStop ≤ k)
    (hk' : k < tag.render.length) (row : Nat) :
    walkBack row none false (d.tokensBefore (d.text.positionOf (offset + k))) =
      .start (tag.draft d.text offset) := by
  obtain ⟨attributes, rest, hbefore, hattributes⟩ := h.tokensBefore_attributes hk hk'
  rw [hbefore, walkBack_append hattributes]
  obtain ⟨kind, _, _⟩ := tag
  cases kind <;> rfl

/-- From the name the start is found, and from there the name. -/
lemma tagFromName_eq (h : Stands d tag offset before after) (hk : tag.nameStart ≤ k)
    (hk' : k < tag.nameStop) :
    d.tagFromName (d.text.positionOf (offset + k)) (nameToken tag.kind) =
      .ok (tag.draft d.text offset) := by
  obtain ⟨rest, hfrom⟩ := h.tokensFrom_start
  have hconcise : (nameToken tag.kind).concise = false := by cases tag.kind <;> rfl
  have hname : (d.tokensFrom ((tag.startAt offset).hit d.text).range.start).find? (·.kind.isName) =
      some ((tag.nameAt offset).hit d.text) := by
    show (d.tokensFrom (d.text.positionOf offset)).find? _ = _
    rw [hfrom]
    obtain ⟨kind, _, _⟩ := tag
    cases kind <;> rfl
  rw [Document.tagFromName, if_neg (by rw [hconcise]; exact Bool.false_ne_true),
    h.tokensBefore_name hk hk']
  simp only [hname]
  obtain ⟨kind, _, _⟩ := tag
  cases kind <;> rfl

lemma charAt?_eq (h : Stands d tag offset before after) (hk : tag.render[k]? = some c)
    (hc : c ≠ '\n') :
    d.text.charAt? (d.text.positionOf (offset + k)) = some c := by
  have hlt : k < tag.render.length := (List.getElem?_eq_some_iff.1 hk).1
  exact Text.charAt?_positionOf h.inked.onlyLineFeeds ((h.getElem?_text hlt).trans hk) hc

/-- Within the characters of a tag that are on one row, offsets are columns. -/
lemma positionOf_add (h : Stands d tag offset before after) {k n : Nat}
    (hrow : ∀ i < n, ∃ c, tag.render[k + i]? = some c ∧ c ≠ '\n') :
    d.text.positionOf (offset + (k + n)) = (d.text.positionOf (offset + k)).right n := by
  rw [← Nat.add_assoc]
  apply Text.positionOf_add h.inked.onlyLineFeeds
  intro i hi
  obtain ⟨c, hc, hn⟩ := hrow i hi
  have hlt : k + i < tag.render.length := (List.getElem?_eq_some_iff.1 hc).1
  exact ⟨c, by rw [Nat.add_assoc, h.getElem?_text hlt, hc], hn⟩

lemma exists_opener (tag : Tag) (hk : k < tag.nameStart) :
    ∃ c, tag.render[k]? = some c ∧ c ≠ '\n' := by
  rw [tag.getElem?_opener hk]
  exact exists_getElem?_of_row (by cases tag.kind <;> decide) hk

/-- From either character of the bracket in front one comes to the start of the tag. -/
lemma before?_opener (h : Stands d tag offset before after) (hk : k < tag.nameStart) :
    (if d.text.charAt? (d.text.positionOf (offset + k)) = some '/' then
      (d.text.before? (d.text.positionOf (offset + k))).getD (d.text.positionOf (offset + k))
      else d.text.positionOf (offset + k)) = d.text.positionOf offset := by
  match k with
  | 0 =>
    have hchar : tag.render[0]? = some '<' := by
      rw [tag.getElem?_opener hk]
      cases tag.kind <;> rfl
    rw [h.charAt?_eq hchar (by decide), if_neg (by decide)]
    rfl
  | 1 =>
    have hchar : tag.render[1]? = some '/' := by
      rw [tag.getElem?_opener hk]
      rw [Tag.nameStart] at hk
      cases hkind : tag.kind with
      | closing => rfl
      | opening => rw [hkind] at hk; exact absurd hk (by decide)
      | selfClosing => rw [hkind] at hk; exact absurd hk (by decide)
    have hsucc : d.text.positionOf (offset + 1) = (d.text.positionOf offset).right 1 := by
      have hadd := h.positionOf_add (k := 0) (n := 1) fun i hi => exists_opener tag (by omega)
      rwa [Nat.zero_add] at hadd
    rw [h.charAt?_eq hchar (by decide), if_pos rfl, hsucc, Text.before?_right]
    rfl
  | k + 2 =>
    rw [Tag.nameStart] at hk
    cases hkind : tag.kind <;> rw [hkind] at hk <;> exact absurd hk (by simp [opener])

/-- From the bracket in front of the tag the name is found. -/
lemma tagFromStart_eq (h : Stands d tag offset before after) (hk : k < tag.nameStart) :
    d.tagFromStart (d.text.positionOf (offset + k)) (startToken tag.kind).kind =
      tag.draft d.text offset := by
  have hwidth : (if ((startToken tag.kind).kind == .openTagStart) = true then 1 else 2) =
      tag.nameStart := by
    rw [Tag.nameStart]
    cases tag.kind <;> rfl
  have hright := h.positionOf_add (k := 0) fun i hi => by
    rw [Nat.zero_add]
    exact exists_opener tag hi
  rw [Nat.zero_add, Nat.add_zero, ← hwidth] at hright
  obtain ⟨rest, hfrom⟩ := h.tokensFrom_name
  rw [Document.tagFromStart]
  simp only [h.before?_opener hk, ← hright]
  rw [hwidth, hfrom]
  obtain ⟨kind, _, _⟩ := tag
  cases kind <;> rfl

/-- Back from behind the name, the bracket in front is the first one, and up to it there are
attributes and the name. -/
lemma tokensBefore_start (h : Stands d tag offset before after) (hk : tag.nameStop ≤ k)
    (hk' : k < tag.render.length) :
    (d.tokensBefore (d.text.positionOf (offset + k))).find? (·.kind.isStart) =
        some ((tag.startAt offset).hit d.text) ∧
      ∃ attributes, (d.tokensBefore (d.text.positionOf (offset + k))).takeWhile
        (!·.kind.isStart) = attributes ++ [(tag.nameAt offset).hit d.text] := by
  obtain ⟨attributes, rest, hbefore, hattributes⟩ := h.tokensBefore_attributes hk hk'
  have hnot : ∀ t ∈ attributes ++ [(tag.nameAt offset).hit d.text], (!t.kind.isStart) = true := by
    intro t ht
    rcases mem_append.1 ht with ht | ht
    · rw [hattributes t ht]
      rfl
    · rw [mem_singleton.1 ht]
      show (!(nameToken tag.kind).kind.isStart) = true
      cases tag.kind <;> rfl
  have hstart : ((tag.startAt offset).hit d.text).kind.isStart = true := by
    show (startToken tag.kind).kind.isStart = true
    cases tag.kind <;> rfl
  have htokens : attributes ++ (tag.nameAt offset).hit d.text ::
      (tag.startAt offset).hit d.text :: rest =
        (attributes ++ [(tag.nameAt offset).hit d.text]) ++
          (tag.startAt offset).hit d.text :: rest := by
    simp only [append_assoc, cons_append, nil_append]
  rw [hbefore, htokens]
  refine ⟨?_, attributes, ?_⟩
  · rw [find?_append, find?_eq_none.2, Option.none_or, find?_cons, hstart]
    intro t ht
    simpa using hnot t ht
  · rw [takeWhile_append_of_pos hnot, takeWhile_cons_of_neg, append_nil]
    rw [hstart]
    exact Bool.false_ne_true

/-- From the bracket behind the tag the start and the name are found. -/
lemma tagFromEnd_eq (h : Stands d tag offset before after) (hk : tag.attributesStop ≤ k)
    (hk' : k < tag.render.length) :
    d.tagFromEnd (d.text.positionOf (offset + k)) (endToken tag.kind).kind =
      .ok (tag.wholeDraft d.text offset) := by
  obtain ⟨hfind, attributes, hinside⟩ :=
    h.tokensBefore_start (Nat.le_trans (Nat.le_add_right _ _) hk) hk'
  obtain ⟨j, rfl⟩ : ∃ j, k = tag.attributesStop + j := ⟨k - tag.attributesStop, by omega⟩
  have hj : j < (closer tag.kind).length := by
    rw [tag.length_render] at hk'
    omega
  have hrow : ∀ i < (closer tag.kind).length - j,
      ∃ c, tag.render[tag.attributesStop + j + i]? = some c ∧ c ≠ '\n' := by
    intro i hi
    rw [Nat.add_assoc, tag.getElem?_closer]
    exact exists_getElem?_of_row (by cases tag.kind <;> decide) (by omega)
  have hwidth : (if d.text.charAt? (d.text.positionOf (offset + (tag.attributesStop + j))) =
      some '/' then 2 else 1) = (closer tag.kind).length - j := by
    obtain ⟨c, hc, hn⟩ := exists_getElem?_of_row (by cases tag.kind <;> decide) hj
    rw [h.charAt?_eq ((tag.getElem?_closer j).trans hc) hn]
    exact closer_width hc
  have hright := h.positionOf_add hrow
  rw [show tag.attributesStop + j + ((closer tag.kind).length - j) = tag.render.length by
    rw [tag.length_render]; omega] at hright
  have hname : ((tag.nameAt offset).hit d.text).kind.isName = true := by
    show (nameToken tag.kind).kind.isName = true
    cases tag.kind <;> rfl
  rw [Document.tagFromEnd]
  simp only [hinside, hfind, hwidth, reverse_append, reverse_singleton,
    singleton_append, find?_cons, hname]
  rw [← hright]
  obtain ⟨kind, _, _⟩ := tag
  cases kind <;> rfl

/-- Around each character of a tag, the tag is found. -/
lemma tagAt_eq (h : Stands d tag offset before after) (hk : tag.render[k]? = some c)
    (hc : c ≠ '\n') :
    d.tagAt (d.text.positionOf (offset + k)) = .ok (some (tag.span d.text offset)) := by
  have hk' : k < tag.render.length := (List.getElem?_eq_some_iff.1 hk).1
  obtain ⟨x, hink, rfl⟩ : ∃ x, tag.ink[k]? = some x ∧ x.1 = c := by
    rw [← textOf_inkTag, textOf, getElem?_map, Option.map_eq_some_iff] at hk
    exact hk
  have hprobe := h.inked.probe_eq (h.getElem?_ink hink) hc
  have htoken := h.inked.tokenAt?_eq (h.getElem?_ink hink) hc
  rw [← h.completeTag?_draft]
  rcases tag.part_cases hink with ⟨hlt, hpart⟩ | ⟨hle, hlt, hpart⟩ | ⟨hle, -, hpart⟩ | ⟨hle, hpart⟩
  · -- in the bracket in front
    have hdraft := h.tagFromStart_eq hlt
    rw [hpart] at htoken
    apply Document.tagAt_of_some hprobe htoken
    rw [hdraft]
    cases tag.kind <;> rfl
  · -- in the name
    have hdraft := h.tagFromName_eq hle hlt
    rw [hpart] at htoken
    apply Document.tagAt_of_some hprobe htoken
    rw [hdraft]
    cases tag.kind <;> rfl
  · -- among the attributes
    have hwalk := h.walkBack_eq hle hk' (d.text.positionOf (offset + k)).row
    rcases hpart with hpart | hpart
    · rw [hpart] at htoken
      rw [Document.tagAt_of_none hprobe htoken, Document.tagFromGap?, hwalk]
      rfl
    · rw [hpart] at htoken
      apply Document.tagAt_of_some hprobe htoken
      show d.tagFromAttribute _ = _
      rw [Document.tagFromAttribute, hwalk]
  · -- in the bracket behind
    have hdraft := h.tagFromEnd_eq hle hk'
    rw [hpart] at htoken
    rw [h.completeTag?_draft, ← h.completeTag?_wholeDraft]
    apply Document.tagAt_of_some hprobe htoken
    rw [hdraft]
    cases tag.kind <;> rfl

end Stands

/-! ## Comments and text -/

/-- The last token of segments is the bracket behind a tag, if there is one. -/
lemma segmentTokens_cases (segments : List Segment) (offset : Nat) :
    segmentTokens offset segments = [] ∨
      ∃ tokens last, segmentTokens offset segments = tokens ++ [last] ∧
        last.token.kind.isEnd = true := by
  induction segments generalizing offset with
  | nil => exact .inl rfl
  | cons s segments ih =>
    rw [segmentTokens]
    rcases ih (offset + s.render.length) with hnil | ⟨tokens, last, htokens, hend⟩
    · rw [hnil, append_nil]
      cases s with
      | tag mark =>
        have hend : (mark.endAt offset).token.kind.isEnd = true := by
          show (endToken mark.kind).kind.isEnd = true
          cases mark.kind <;> rfl
        exact .inr ⟨_, _, (append_assoc [_, _] _ _).symm, hend⟩
      | comment c => exact .inl rfl
      | text p => exact .inl rfl
    · exact .inr ⟨_, last, by rw [htokens, ← append_assoc], hend⟩

/-- From behind whole segments no start of a tag is reached. -/
lemma tagFromGap?_of_segments {p : Position} {segments : List Segment}
    (h : d.tokensBefore p = ((segmentTokens 0 segments).map (OffsetToken.hit d.text)).reverse) :
    d.tagFromGap? p = none := by
  rw [Document.tagFromGap?, h]
  rcases segmentTokens_cases segments 0 with hnil | ⟨tokens, last, htokens, hend⟩
  · rw [hnil]
    rfl
  · have hend : (last.hit d.text).kind.isEnd = true := hend
    rw [htokens, map_append, reverse_append, map_singleton, reverse_singleton,
      singleton_append, walkBack, if_pos hend]

/-- Around a character of a stretch without parts, no tag is found. -/
lemma tagAt_of_bare {before after : List Segment} {s : Segment} {u : Text}
    (h : d.Inked (inkSegments (before ++ s :: after))) (hu : s.ink = u.ink none)
    (hk : u[k]? = some c) (hc : c ≠ '\n') :
    d.tagAt (d.text.positionOf ((renderSegments before).length + k)) = .ok none := by
  have hlt : k < u.length := (List.getElem?_eq_some_iff.1 hk).1
  have hlength := length_inkSegments before
  have hink : inkSegments (before ++ s :: after) =
      (inkSegments before ++ Text.ink (u.take k) none) ++
        (Text.ink (u.drop k) none ++ inkSegments after) := by
    have hsplit : u.ink none = Text.ink (u.take k) none ++ Text.ink (u.drop k) none := by
      rw [← ink_append, take_append_drop]
    rw [inkSegments_append, inkSegments_cons, hu, hsplit]
    simp only [append_assoc]
  have hx : (inkSegments (before ++ s :: after))[(renderSegments before).length + k]? =
      some (c, none) := by
    rw [inkSegments_append, inkSegments_cons, hu,
      getElem?_append_right (by rw [hlength]; omega), hlength, Nat.add_sub_cancel_left,
      getElem?_append_left (by rw [length_ink]; exact hlt), Text.ink, getElem?_map, hk]
    rfl
  have htoken := h.tokenAt?_eq hx hc
  have hprobe := h.probe_eq hx hc
  have hbefore := h.tokensBefore_eq hink
  rw [length_append, hlength, length_ink, length_take_of_le (Nat.le_of_lt hlt)] at hbefore
  have htokens := tokensIn_bare [] (u.take k) before 0
  rw [show Text.ink [] none = [] from rfl, nil_append] at htokens
  rw [htokens] at hbefore
  rw [Document.tagAt_of_none hprobe htoken, tagFromGap?_of_segments hbefore]
  rfl

/-! ## Trees -/

/-- A segment of a tree stands at an offset, and the character at offset `i` is one of its. -/
structure Tree.SegmentAt (tree : Tree) (i : Nat) (s : Segment) (offset : Nat) : Prop where
  exists_split : ∃ before after,
    tree.segments = before ++ s :: after ∧ (renderSegments before).length = offset
  offset_le : offset ≤ i
  lt_stop : i < offset + s.render.length

/-- Each character of segments is of one of them. -/
lemma exists_split_of_lt {segments : List Segment} {i : Nat}
    (h : i < (renderSegments segments).length) :
    ∃ before s after, segments = before ++ s :: after ∧ (renderSegments before).length ≤ i ∧
      i < (renderSegments before).length + s.render.length := by
  induction segments generalizing i with
  | nil => exact absurd h (Nat.not_lt_zero i)
  | cons s segments ih =>
    rw [renderSegments_cons, length_append] at h
    by_cases hi : i < s.render.length
    · exact ⟨[], s, segments, rfl, Nat.zero_le i, by simpa using hi⟩
    · obtain ⟨before, s', after, rfl, hle, hlt⟩ :=
        ih (show i - s.render.length < (renderSegments segments).length by omega)
      refine ⟨s :: before, s', after, rfl, ?_, ?_⟩
      · rw [renderSegments_cons, length_append]
        omega
      · rw [renderSegments_cons, length_append]
        omega

namespace Tree

/-- **Tags are located exactly.** Each character of a tree that is no line feed is of a segment. If
that is a tag, the tag around the character is this tag, with its kind, its range and the range of
its name; if it is a comment or text, there is no tag around the character. -/
theorem tagAt_positionOf (tree : Tree) {i : Nat} {c : Char} (hi : tree.render[i]? = some c)
    (hc : c ≠ '\n') :
    (∃ s offset, tree.SegmentAt i s offset) ∧
      ∀ s offset, tree.SegmentAt i s offset →
        (Document.ofText .marko tree.render).tagAt (tree.render.positionOf i) =
          .ok (s.span? tree.render offset) := by
  constructor
  · have hlt : i < (renderSegments tree.segments).length := by
      rw [← tree.render_eq]
      exact (List.getElem?_eq_some_iff.1 hi).1
    obtain ⟨before, s, after, hsplit, hle, hlt⟩ := exists_split_of_lt hlt
    exact ⟨s, _, ⟨before, after, hsplit, rfl⟩, hle, hlt⟩
  · rintro s offset ⟨⟨before, after, hsplit, rfl⟩, hle, hlt⟩
    obtain ⟨k, rfl⟩ : ∃ k, i = (renderSegments before).length + k :=
      ⟨i - (renderSegments before).length, by omega⟩
    have hinked := tree.inked
    rw [hsplit] at hinked
    have hk : s.render[k]? = some c := by
      rw [tree.render_eq, hsplit, renderSegments_append, renderSegments_cons,
        getElem?_append_right (by omega), Nat.add_sub_cancel_left,
        getElem?_append_left (by omega)] at hi
      exact hi
    cases s with
    | tag mark => exact Stands.tagAt_eq ⟨hinked, rfl⟩ hk hc
    | comment comment => exact tagAt_of_bare hinked rfl hk hc
    | text text => exact tagAt_of_bare hinked rfl hk hc

/-- The bracket in the value is in the open tag. -/
theorem tagAt_sample_value :
    sample.render[8]? = some '>' ∧ '>' ≠ '\n' ∧
      (Document.ofText .marko sample.render).tagAt (sample.render.positionOf 8) =
        .ok (some ⟨.opening, ⟨⟨0, 0⟩, ⟨1, 4⟩⟩, some ⟨⟨0, 1⟩, ⟨0, 3⟩⟩, false⟩) :=
  ⟨rfl, by decide, (sample.tagAt_positionOf (i := 8) rfl (by decide)).2
    (.tag (openTag sample.name sample.attributes)) 0
    ⟨⟨[], _, rfl, rfl⟩, by decide, by decide⟩⟩

end Tree

end Markup

end TemplateEditing
