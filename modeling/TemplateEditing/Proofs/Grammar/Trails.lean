import Mathlib.Data.List.Induction
import TemplateEditing.Proofs.Grammar.Sites

/-!
# What stands before a site

The site that a text has led to tells how the text ends: at the name of a tag it ends in the bracket
in front of the tag and a part of the name, and so on (`trail_of_walk`). Where a bracket stands
behind a tag, the whole of the tag is therefore known (`exists_inkedTag`): the bracket in front, the
name, what follows it, and the bracket behind, in this order and all of one kind of tag. Before an
attribute stands the start of its tag, with brackets or without (`exists_of_attribute`).

The text of every document whose rows end in line feeds, with the parts of tags that its grammar
gives it, can be drawn by the sites (`Document.exists_drawn`).
-/

namespace TemplateEditing

open List

variable {q : Site} {side : Lexer.Side} {x : InkedChar} {c : Char} {ink : List InkedChar}

open Lexer (isTagChar)

/-! ## The parts of a tag -/

/-- The bracket in front of a tag. -/
def Lexer.Side.startInk : Lexer.Side → List InkedChar
  | .opening => [('<', some ⟨.openTagStart, false⟩)]
  | .closing => [('<', some ⟨.closeTagStart, false⟩), ('/', some ⟨.closeTagStart, false⟩)]

/-- The bracket behind a tag. -/
def TokenKind.endInk : TokenKind → List InkedChar
  | .selfClosingEnd => [('/', some ⟨.selfClosingEnd, false⟩), ('>', some ⟨.selfClosingEnd, false⟩)]
  | kind => [('>', some ⟨kind, false⟩)]

namespace Lexer.Side

@[simp] lemma isStart_startKind (side : Lexer.Side) : side.startKind.isStart = true := by
  cases side <;> rfl

@[simp] lemma isEnd_startKind (side : Lexer.Side) : side.startKind.isEnd = false := by
  cases side <;> rfl

@[simp] lemma isName_startKind (side : Lexer.Side) : side.startKind.isName = false := by
  cases side <;> rfl

@[simp] lemma isStart_nameKind (side : Lexer.Side) : side.nameKind.isStart = false := by
  cases side <;> rfl

@[simp] lemma isEnd_nameKind (side : Lexer.Side) : side.nameKind.isEnd = false := by
  cases side <;> rfl

@[simp] lemma isName_nameKind (side : Lexer.Side) : side.nameKind.isName = true := by
  cases side <;> rfl

/-- The start of a tag is inked as one. -/
lemma snd_of_mem_startInk (side : Lexer.Side) (h : x ∈ side.startInk) :
    x.2 = some ⟨side.startKind, false⟩ := by
  revert h
  cases side <;> simp +contextual [startInk, startKind, or_imp]

end Lexer.Side

lemma TokenKind.mem_endInk {kind : TokenKind} (h : x ∈ kind.endInk) :
    (x.1 = '/' ∨ x.1 = '>') ∧ x.2 = some ⟨kind, false⟩ := by
  revert h
  cases kind <;> simp +contextual [endInk, or_imp]

lemma TokenKind.not_isName_of_isEnd {kind : TokenKind} (h : kind.isEnd = true) :
    ¬ kind.isName = true := by
  revert h
  cases kind <;> decide

/-- Characters of a tag's name. -/
def IsNameInk (side : Lexer.Side) (ink : List InkedChar) : Prop :=
  ∀ x ∈ ink, isTagChar x.1 = true ∧ x.2 = some ⟨side.nameKind, false⟩

/-- What stands in a tag behind its name. -/
structure IsMoreInk (ink : List InkedChar) : Prop where
  head : ∀ x ∈ ink.head?, isTagChar x.1 = false
  part : ∀ x ∈ ink, x.2 = none ∨ x.2 = some ⟨.attributeName, false⟩

/-- A tag without brackets, as far as it is written: what stands before it, its name, and what
follows in its row. -/
structure IsConciseInk (lead name more : List InkedChar) : Prop where
  /-- The name does not start before. -/
  lead_last : ∀ x ∈ lead.getLast?, isTagChar x.1 = false
  name_ne : name ≠ []
  isName : ∀ x ∈ name, isTagChar x.1 = true ∧ x.2 = some ⟨.openTagName, true⟩
  isMoreInk : IsMoreInk more
  /-- The tag is all in one row. -/
  more_row : ∀ x ∈ more, x.1 ≠ '\n'

namespace Site

/-- How a text ends that has led to a site. -/
inductive Trail : Site → List InkedChar → Prop where
  | outside (ink : List InkedChar) : Trail outside ink
  | margin {ink : List InkedChar} (h : ∀ x ∈ ink.getLast?, isTagChar x.1 = false) :
      Trail margin ink
  | conciseNamed {lead name : List InkedChar} (h : IsConciseInk lead name []) :
      Trail conciseNamed (lead ++ name)
  | concise {lead name more : List InkedChar} (h : IsConciseInk lead name more) (hmore : more ≠ []) :
      Trail concise (lead ++ name ++ more)
  | opener (lead : List InkedChar) : Trail opener (lead ++ Lexer.Side.opening.startInk)
  | halfCloser (lead : List InkedChar) :
      Trail halfCloser (lead ++ [('<', some ⟨.closeTagStart, false⟩)])
  | closer (lead : List InkedChar) : Trail closer (lead ++ Lexer.Side.closing.startInk)
  | named (lead : List InkedChar) (side : Lexer.Side) {name : List InkedChar} (hne : name ≠ [])
      (hname : IsNameInk side name) : Trail (named side) (lead ++ side.startInk ++ name)
  | inside (lead : List InkedChar) (side : Lexer.Side) {name more : List InkedChar} {slash : Bool}
      (hne : name ≠ []) (hname : IsNameInk side name) (hmore : IsMoreInk more) (hmore' : more ≠ [])
      (hslash : slash = false → (textOf more).getLast? ≠ some '/') :
      Trail (inside side slash) (lead ++ side.startInk ++ name ++ more)
  | halfEnd (lead : List InkedChar) {name more : List InkedChar} (hne : name ≠ [])
      (hname : IsNameInk .opening name) (hmore : IsMoreInk more) :
      Trail halfEnd (lead ++ Lexer.Side.opening.startInk ++ name ++ more ++
        [('/', some ⟨.selfClosingEnd, false⟩)])

/-- Two parts of a name are a part of it. -/
lemma isNameInk_append {a b : List InkedChar} (ha : IsNameInk side a)
    (hb : IsNameInk side b) : IsNameInk side (a ++ b) := by
  intro x hx
  rcases mem_append.1 hx with hx | hx
  · exact ha x hx
  · exact hb x hx

lemma isNameInk_nil : IsNameInk side [] := by
  intro x hx
  cases hx

lemma isNameInk_single (h : isTagChar c = true) :
    IsNameInk side [(c, some ⟨side.nameKind, false⟩)] := by
  intro x hx
  rw [mem_singleton.1 hx]
  exact ⟨h, rfl⟩

lemma isMoreInk_nil : IsMoreInk [] := ⟨by simp, by simp⟩

lemma isMoreInk_append {a : List InkedChar} (ha : IsMoreInk a)
    (hhead : a = [] → isTagChar x.1 = false)
    (hpart : x.2 = none ∨ x.2 = some ⟨.attributeName, false⟩) : IsMoreInk (a ++ [x]) := by
  constructor
  · intro y hy
    cases a with
    | nil =>
      cases hy
      exact hhead rfl
    | cons z a => exact ha.head y hy
  · intro y hy
    rcases mem_append.1 hy with hy | hy
    · exact ha.part y hy
    · rw [mem_singleton.1 hy]
      exact hpart

/-- Behind a character in a tag that is no part of its name or brackets. -/
lemma Trail.gap (h : Trail q ink)
    (hq : Within side c q) : Trail (.inside side (c == '/')) (ink ++ [(c, none)]) := by
  cases hq with
  | named hc =>
    cases h with
    | named lead _ hne hname =>
      have hmore : IsMoreInk [(c, none)] := by
        refine ⟨fun x hx => ?_, fun x hx => .inl ?_⟩
        · cases hx
          exact hc
        · rw [mem_singleton.1 hx]
      exact .inside lead side hne hname hmore (by simp) (by simp [textOf])
  | inside slash =>
    cases h with
    | inside lead _ hne hname hmore hmore' _ =>
      rw [append_assoc]
      exact .inside lead side hne hname (isMoreInk_append hmore (absurd · hmore') (.inl rfl))
        (by simp) (by simp [textOf])

/-- A tag without brackets goes on with something that is no part of its name. -/
lemma isConciseInk_append {lead name more : List InkedChar} (h : IsConciseInk lead name more)
    (hhead : more = [] → isTagChar x.1 = false)
    (hrow : x.1 ≠ '\n') (hpart : x.2 = none ∨ x.2 = some ⟨.attributeName, false⟩) :
    IsConciseInk lead name (more ++ [x]) := by
  refine ⟨h.lead_last, h.name_ne, h.isName, isMoreInk_append h.isMoreInk hhead hpart,
    fun y hy => ?_⟩
  rcases mem_append.1 hy with hy | hy
  · exact h.more_row y hy
  · rw [mem_singleton.1 hy]
    exact hrow

/-- The name of a tag without brackets starts or goes on. -/
lemma Trail.conciseName (h : Trail q ink)
    (hq : q = .margin ∨ q = .conciseNamed) (hc : isTagChar c = true) :
    Trail .conciseNamed (ink ++ [(c, some ⟨.openTagName, true⟩)]) := by
  rcases hq with rfl | rfl
  · cases h with
    | margin hlast =>
      refine .conciseNamed ⟨hlast, by simp, fun x hx => ?_, isMoreInk_nil, by simp⟩
      rw [mem_singleton.1 hx]
      exact ⟨hc, rfl⟩
  · cases h with
    | conciseNamed h =>
      rw [append_assoc]
      refine .conciseNamed ⟨h.lead_last, by simp, fun x hx => ?_, isMoreInk_nil, by simp⟩
      rcases mem_append.1 hx with hx | hx
      · exact h.isName x hx
      · rw [mem_singleton.1 hx]
        exact ⟨hc, rfl⟩

/-- Behind a character in a tag without brackets that is no part of its name. -/
lemma Trail.conciseGap (h : Trail q ink)
    (hq : InConcise c q) (hc : c ≠ '\n') : Trail .concise (ink ++ [(c, none)]) := by
  cases hq with
  | named htag =>
    cases h with
    | conciseNamed h => exact .concise (isConciseInk_append h (fun _ => htag) hc (.inl rfl)) (by simp)
  | inside =>
    cases h with
    | concise h hmore =>
      rw [append_assoc]
      exact .concise (isConciseInk_append h (absurd · hmore) hc (.inl rfl)) (by simp)

/-- One step goes on with the text as the sites say. -/
lemma Trail.step {q q' : Site} (h : Trail q ink) (hstep : Step q x q') : Trail q' (ink ++ [x]) := by
  -- every rule adds one character to the shape of what stands before it
  cases hstep with
  | bare => exact .outside _
  | lineFeed =>
    refine .margin fun x hx => ?_
    rw [getLast?_concat] at hx
    cases hx
    decide
  | indent hc =>
    refine .margin fun x hx => ?_
    rw [getLast?_concat] at hx
    cases hx
    exact hc
  | conciseName hq hc => exact h.conciseName hq hc
  | conciseGap hq hc => exact h.conciseGap hq hc
  | conciseAttribute hc =>
    cases h with
    | concise h hmore =>
      rw [append_assoc]
      have hrow : _ ≠ '\n' := Lexer.isTagChar_ne (Lexer.isTagChar_of_isAttributeChar hc) (by decide)
      exact .concise (isConciseInk_append h (absurd · hmore) hrow (.inr rfl)) (by simp)
  | openTagStart => exact .opener ink
  | closeTagStart => exact .halfCloser ink
  | closeTagSlash =>
    cases h with
    | halfCloser lead =>
      rw [append_assoc]
      exact .closer lead
  | openTagName hc =>
    cases h with
    | opener lead => exact .named lead .opening (cons_ne_nil _ _) (isNameInk_single hc)
  | closeTagName hc =>
    cases h with
    | closer lead => exact .named lead .closing (cons_ne_nil _ _) (isNameInk_single hc)
  | name side hc =>
    cases h with
    | named lead _ hne hname =>
      rw [append_assoc]
      exact .named lead side (by simp) (isNameInk_append hname (isNameInk_single hc))
  | gap hq => exact h.gap hq
  | attributeName side slash hc =>
    cases h with
    | inside lead _ hne hname hmore hmore' _ =>
      rw [append_assoc]
      refine .inside lead side hne hname (isMoreInk_append hmore (absurd · hmore') (.inr rfl))
        (by simp) fun _ hlast => ?_
      rw [textOf_append, getLast?_append] at hlast
      exact absurd (Option.some.inj hlast) (by rintro rfl; cases hc)
  | leave => exact .outside _
  | openTagEnd => exact .outside _
  | closeTagEnd => exact .outside _
  | selfClosingSlash hq =>
    cases hq with
    | named hc =>
      cases h with
      | named lead _ hne hname =>
        exact append_nil (lead ++ _ ++ _) ▸ .halfEnd lead hne hname isMoreInk_nil
    | inside slash =>
      cases h with
      | inside lead _ hne hname hmore _ _ => exact .halfEnd lead hne hname hmore
  | selfClosingEnd => exact .outside _

/-- What a text ends in, from the site that it has led to. -/
lemma trail_of_walk (h : Walk .margin ink q) : Trail q ink := by
  induction ink using List.reverseRecOn generalizing q with
  | nil =>
    cases h
    exact .margin (by simp)
  | append_singleton ink x ih =>
    obtain ⟨q₁, hwalk, hlast⟩ := h.exists_of_append
    obtain ⟨q₂, hstep, hnil⟩ := hlast.exists_of_cons
    cases hnil
    exact (ih hwalk).step hstep

end Site

/-! ## Whole tags -/

/-- A tag of an inked text, from the bracket in front to the one behind. -/
structure InkedTag (ink : List InkedChar) where
  lead : List InkedChar
  side : Lexer.Side
  name : List InkedChar
  more : List InkedChar
  endKind : TokenKind
  rest : List InkedChar
  ink_eq : ink = lead ++ side.startInk ++ name ++ more ++ endKind.endInk ++ rest
  isNameInk : IsNameInk side name
  isMoreInk : IsMoreInk more
  endKind_eq : endKind = side.endKind ∨ side = .opening ∧ endKind = .selfClosingEnd
  /-- A slash before the bracket is part of it. -/
  getLast?_ne : endKind = .openTagEnd →
    (textOf (lead ++ side.startInk ++ name ++ more)).getLast? ≠ some '/'

namespace InkedTag

variable {ink : List InkedChar} (tag : InkedTag ink)

/-- The offset of the tag. -/
def start : Nat := tag.lead.length

/-- The offset behind the tag. -/
def stop : Nat :=
  (tag.lead ++ tag.side.startInk ++ tag.name ++ tag.more).length + tag.endKind.endInk.length

/-- What stands in the tag behind its first character. -/
def body : List InkedChar :=
  tag.side.startInk.tail ++ tag.name ++ tag.more ++ tag.endKind.endInk

lemma ink_eq_body : ink = tag.lead ++
    ('<', some ⟨tag.side.startKind, false⟩) :: (tag.body ++ tag.rest) := by
  have hstart : tag.side.startInk =
      ('<', some ⟨tag.side.startKind, false⟩) :: tag.side.startInk.tail := by
    cases tag.side <;> rfl
  have hink := tag.ink_eq
  rw [hstart] at hink
  refine hink.trans ?_
  simp only [body, append_assoc, cons_append]

lemma stop_eq : tag.stop = tag.start + 1 + tag.body.length := by
  have hpos : 0 < tag.side.startInk.length := by
    cases tag.side <;> decide
  simp only [start, stop, body, length_append, length_tail]
  omega

/-- A tag ends inside the text. -/
lemma stop_le_length : tag.stop ≤ ink.length := by
  have hlength := congrArg List.length tag.ink_eq_body
  rw [length_append, length_cons, length_append] at hlength
  rw [stop_eq, start]
  omega

/-- A tag starts with its bracket. -/
lemma getElem?_start : ink[tag.start]? = some ('<', some ⟨tag.side.startKind, false⟩) := by
  have hstart : (tag.lead ++
      ('<', some ⟨tag.side.startKind, false⟩) :: (tag.body ++ tag.rest))[tag.lead.length]? =
        some ('<', some ⟨tag.side.startKind, false⟩) := by
    rw [getElem?_append_right (Nat.le_refl _), Nat.sub_self]
    rfl
  rw [← tag.ink_eq_body] at hstart
  exact hstart

section
variable {m : Nat} {x : InkedChar} {token : Token}

lemma mem_body (hx : ink[m]? = some x) (hstart : tag.start < m) (hstop : m < tag.stop) :
    x ∈ tag.body := by
  rw [stop_eq] at hstop
  rw [tag.ink_eq_body, append_cons, ← append_assoc,
    getElem?_append_left (by simp [start] at hstop ⊢; omega),
    getElem?_append_right (by simp [start] at hstart ⊢; omega)] at hx
  exact mem_of_getElem? hx

/-- What follows the bracket is the slash, the name, attributes or the end. -/
lemma mem_body_cases (hx : x ∈ tag.body) :
    x = ('/', some ⟨.closeTagStart, false⟩) ∨
      (isTagChar x.1 = true ∧ x.2 = some ⟨tag.side.nameKind, false⟩) ∨
      (x.2 = none ∨ x.2 = some ⟨.attributeName, false⟩) ∨ x ∈ tag.endKind.endInk := by
  simp only [body, mem_append] at hx
  rcases hx with ((hx | hx) | hx) | hx
  · left
    revert hx
    cases tag.side with
    | opening => exact fun hx => by cases hx
    | closing => exact mem_singleton.1
  · exact .inr (.inl (tag.isNameInk x hx))
  · exact .inr (.inr (.inl (tag.isMoreInk.part x hx)))
  · exact .inr (.inr (.inr hx))

lemma isEnd_endKind : tag.endKind.isEnd = true := by
  rcases tag.endKind_eq with h | ⟨-, h⟩
  · rw [h]
    cases tag.side <;> rfl
  · rw [h]
    rfl

/-- No other tag starts inside of a tag. -/
lemma fst_ne_of_isStart (hx : ink[m]? = some x) (hstart : tag.start < m) (hstop : m < tag.stop)
    (hpart : x.2 = some token) (hkind : token.kind.isStart = true) : x.1 ≠ '<' := by
  rcases tag.mem_body_cases (tag.mem_body hx hstart hstop) with rfl | ⟨hc, -⟩ | (h | h) | h
  · decide
  · exact Lexer.isTagChar_ne hc (by decide)
  · rw [h] at hpart
    cases hpart
  · rw [h] at hpart
    cases hpart
    cases hkind
  · rcases (TokenKind.mem_endInk h).1 with h | h <;> rw [h] <;> decide

/-- All names inside of a tag are parts of its own. -/
lemma token_eq_of_isName (hx : ink[m]? = some x) (hstart : tag.start < m) (hstop : m < tag.stop)
    (hpart : x.2 = some token) (hkind : token.kind.isName = true) :
    token = ⟨tag.side.nameKind, false⟩ := by
  rcases tag.mem_body_cases (tag.mem_body hx hstart hstop) with rfl | ⟨-, h⟩ | (h | h) | h
  · cases hpart
    cases hkind
  · exact Option.some.inj (hpart.symm.trans h)
  · rw [h] at hpart
    cases hpart
  · rw [h] at hpart
    cases hpart
    cases hkind
  · rw [(TokenKind.mem_endInk h).2] at hpart
    cases hpart
    exact absurd hkind (TokenKind.not_isName_of_isEnd tag.isEnd_endKind)

end

end InkedTag

namespace Site

variable {ink a b : List InkedChar} {x : InkedChar} {token : Token}

/-- The part of a tag that is written at its name or behind it. -/
lemma Trail.of_within (h : Trail q a)
    (hq : Within side c q) : ∃ lead name more, a = lead ++ side.startInk ++ name ++ more ∧
      name ≠ [] ∧ IsNameInk side name ∧ IsMoreInk more := by
  cases hq with
  | named =>
    cases h with
    | named lead _ hne hname =>
      exact ⟨lead, _, [], by rw [append_nil], hne, hname, isMoreInk_nil⟩
  | inside =>
    cases h with
    | inside lead _ hne hname hmore => exact ⟨lead, _, _, rfl, hne, hname, hmore⟩

lemma length_startInk_pos (side : Lexer.Side) : 0 < side.startInk.length := by
  cases side <;> decide

/-- A text ends as its last part does, unless that is empty. -/
lemma getLast?_textOf_append (a : List InkedChar) (hb : b ≠ []) :
    (textOf (a ++ b)).getLast? = (textOf b).getLast? := by
  have hne : textOf b ≠ [] := by
    intro hnil
    exact hb (map_eq_nil_iff.1 hnil)
  rw [textOf_append, getLast?_append, getLast?_eq_some_getLast hne]
  rfl

/-- Before the bracket behind an open tag stands no slash. -/
lemma getLast?_of_openTagEnd (h : Trail q a)
    (hq : q = named .opening ∨ q = inside .opening false) : (textOf a).getLast? ≠ some '/' := by
  rcases hq with rfl | rfl
  · cases h with
    | named lead _ hne hname =>
      rw [getLast?_textOf_append _ hne]
      intro hlast
      obtain ⟨x, hx, heq⟩ := mem_map.1 (mem_of_getLast? hlast)
      have hchar := (hname x hx).1
      rw [heq] at hchar
      cases hchar
  · cases h with
    | inside lead _ hne hname hmore hmore' hslash =>
      rw [getLast?_textOf_append _ hmore']
      exact hslash rfl

lemma Loose.settled {d : Char} (h : Loose d q) : q.Settled := by cases h <;> constructor

lemma Within.settled {d : Char} (h : Within side d q) : q.Settled := by cases h <;> constructor

lemma InConcise.settled {d : Char} (h : InConcise d q) : q.Settled := by cases h <;> constructor

/-- At a site that is not settled, just one thing may stand. -/
lemma Step.of_not_settled {q' : Site} (h : Step q x q') (hq : ¬ q.Settled) :
    (q = opener ∧ IsNameInk .opening [x] ∧ q' = named .opening) ∨
      (q = halfCloser ∧ x = ('/', some ⟨.closeTagStart, false⟩) ∧ q' = closer) ∨
      (q = closer ∧ IsNameInk .closing [x] ∧ q' = named .closing) ∨
      (q = halfEnd ∧ x = ('>', some ⟨.selfClosingEnd, false⟩) ∧ q' = outside) := by
  cases h with
  | openTagName hc => exact .inl ⟨rfl, isNameInk_single hc, rfl⟩
  | closeTagSlash => exact .inr (.inl ⟨rfl, rfl, rfl⟩)
  | closeTagName hc => exact .inr (.inr (.inl ⟨rfl, isNameInk_single hc, rfl⟩))
  | selfClosingEnd => exact .inr (.inr (.inr ⟨rfl, rfl, rfl⟩))
  -- all other steps start at settled sites
  | bare h | lineFeed h | conciseGap h | gap h | leave h | closeTagEnd h | selfClosingSlash h =>
    exact absurd h.settled hq
  | openTagStart h | closeTagStart h => exact absurd h hq
  | conciseName h | openTagEnd h => rcases h with rfl | rfl <;> exact absurd (by constructor) hq
  | indent | conciseAttribute | name | attributeName => exact absurd (by constructor) hq

/-- Slash and bracket behind a tag come together. -/
lemma Step.of_halfEnd (h : Step halfEnd x q) :
    x = ('>', some ⟨.selfClosingEnd, false⟩) := by
  have hx : x = ('>', some ⟨.selfClosingEnd, false⟩) ∧ q = outside := by
    simpa using h.of_not_settled (by rintro ⟨⟩)
  exact hx.1

/-- Where a bracket stands behind a tag, the whole of the tag is known. -/
theorem exists_inkedTag (h : Walk .margin ink q) (hq : q.Settled)
    (hink : ink = a ++ x :: b) (hpart : x.2 = some token) (hend : token.kind.isEnd = true) :
    ∃ tag : InkedTag ink, tag.endKind = token.kind ∧ tag.start < a.length ∧
      a.length + (if x.1 = '/' then 2 else 1) = tag.stop := by
  rw [hink] at h
  obtain ⟨q₁, ha, hb⟩ := h.exists_of_append
  have htrail := trail_of_walk ha
  -- a bracket of one character behind what is written so far
  have hsingle : ∀ side : Lexer.Side, Within side '>' q₁ →
      x = ('>', some ⟨side.endKind, false⟩) → token = ⟨side.endKind, false⟩ →
      (side.endKind = .openTagEnd → (textOf a).getLast? ≠ some '/') →
      ∃ tag : InkedTag ink, tag.endKind = token.kind ∧ tag.start < a.length ∧
        a.length + (if x.1 = '/' then 2 else 1) = tag.stop := by
    rintro side hwithin rfl rfl hslash
    obtain ⟨lead, name, more, rfl, -, hname, hmore⟩ := htrail.of_within hwithin
    have hendInk : side.endKind.endInk = [('>', some ⟨side.endKind, false⟩)] := by
      cases side <;> rfl
    refine ⟨⟨lead, side, name, more, side.endKind, b, ?_, hname, hmore, .inl rfl, hslash⟩, rfl, ?_,
      ?_⟩
    · rw [hink, hendInk, append_cons]
    · have := length_startInk_pos side
      simp only [InkedTag.start, length_append]
      omega
    · simp only [InkedTag.stop, hendInk, length_append, length_singleton]
      rw [if_neg (by decide)]
  -- a bracket of two characters, from either of them
  have hpair : ∀ lead name more rest : List InkedChar,
      a ++ x :: b = lead ++ Lexer.Side.opening.startInk ++ name ++ more ++
        TokenKind.selfClosingEnd.endInk ++ rest →
      a.length + (if x.1 = '/' then 2 else 1) =
        (lead ++ Lexer.Side.opening.startInk ++ name ++ more).length + 2 →
      IsNameInk .opening name → IsMoreInk more → token = ⟨.selfClosingEnd, false⟩ →
      ∃ tag : InkedTag ink, tag.endKind = token.kind ∧ tag.start < a.length ∧
        a.length + (if x.1 = '/' then 2 else 1) = tag.stop := by
    rintro lead name more rest heq hlength hname hmore rfl
    refine ⟨⟨lead, .opening, name, more, .selfClosingEnd, rest, hink.trans heq, hname, hmore,
      .inr ⟨rfl, rfl⟩, by simp⟩, rfl, ?_, ?_⟩
    · have := length_startInk_pos .opening
      simp only [InkedTag.start, length_append] at hlength ⊢
      split at hlength <;> omega
    · exact hlength
  obtain ⟨q₂, hstep, hbehind⟩ := hb.exists_of_cons
  cases hstep <;> cases hpart
  case openTagEnd.refl hq₁ =>
    refine hsingle .opening ?_ rfl rfl fun _ => getLast?_of_openTagEnd htrail hq₁
    rcases hq₁ with rfl | rfl
    · exact .named (by decide)
    · exact .inside false
  case closeTagEnd.refl hq₁ =>
    exact hsingle .closing hq₁ rfl rfl (by simp [Lexer.Side.endKind])
  case selfClosingSlash.refl hq₁ =>
    obtain ⟨lead, name, more, rfl, -, hname, hmore⟩ := htrail.of_within hq₁
    -- the bracket is not left half written
    cases b with
    | nil =>
      cases hbehind
      cases hq
    | cons y b =>
      obtain ⟨q₃, hstep, -⟩ := hbehind.exists_of_cons
      obtain rfl := hstep.of_halfEnd
      exact hpair lead name more b (by simp [TokenKind.endInk]) (by simp) hname hmore rfl
  case selfClosingEnd.refl =>
    cases htrail with
    | @halfEnd lead name more _ hname hmore =>
      refine hpair lead name more b (by simp [TokenKind.endInk]) ?_ hname hmore rfl
      rw [length_append, if_neg (by decide)]
      rfl
  case name.refl side _ _ => cases side <;> cases hend
  all_goals cases hend

/-- The characters of a bracket behind a tag. -/
lemma fst_of_isEnd (h : Walk .margin ink q) (hink : ink = a ++ x :: b)
    (hpart : x.2 = some token) (hend : token.kind.isEnd = true) : x.1 = '/' ∨ x.1 = '>' := by
  rw [hink] at h
  obtain ⟨q₁, -, hb⟩ := h.exists_of_append
  obtain ⟨q₂, hstep, -⟩ := hb.exists_of_cons
  cases hstep <;> cases hpart
  case openTagEnd.refl => exact .inr rfl
  case closeTagEnd.refl => exact .inr rfl
  case selfClosingSlash.refl => exact .inl rfl
  case selfClosingEnd.refl => exact .inr rfl
  case name.refl side _ _ => cases side <;> cases hend
  all_goals cases hend

/-- Before a character of a tag's name stand the bracket in front of the tag and the part of the
name before it. -/
lemma exists_of_name (h : Walk .margin ink q) (hink : ink = a ++ x :: b)
    (hpart : x.2 = some token) (hname : token.kind.isName = true)
    (hconcise : token.concise = false) :
    ∃ side lead name, a = lead ++ side.startInk ++ name ∧ IsNameInk side name ∧
      isTagChar x.1 = true ∧ token = ⟨side.nameKind, false⟩ := by
  rw [hink] at h
  obtain ⟨q₁, ha, hb⟩ := h.exists_of_append
  have htrail := trail_of_walk ha
  obtain ⟨q₂, hstep, -⟩ := hb.exists_of_cons
  cases hstep <;> cases hpart
  case conciseName.refl => cases hconcise
  case openTagName.refl hc =>
    cases htrail with
    | opener lead => exact ⟨.opening, lead, [], by simp, isNameInk_nil, hc, rfl⟩
  case closeTagName.refl hc =>
    cases htrail with
    | closer lead => exact ⟨.closing, lead, [], by simp, isNameInk_nil, hc, rfl⟩
  case name.refl side _ hc =>
    cases htrail with
    | named lead _ _ hname => exact ⟨side, lead, _, rfl, hname, hc, rfl⟩
  all_goals cases hname

/-- The characters of a tag's name. -/
lemma Step.isTagChar_of_isName {q q' : Site} (h : Step q x q') (hpart : x.2 = some token)
    (hname : token.kind.isName = true) : isTagChar x.1 = true := by
  cases h <;> cases hpart
  case conciseName.refl hc _ => exact hc
  case openTagName.refl hc => exact hc
  case closeTagName.refl hc => exact hc
  case name.refl hc => exact hc
  all_goals cases hname

/-- What could be part of a name behind one is part of it. -/
lemma Step.of_named (h : Step (named side) x q)
    (hx : isTagChar x.1 = true) : x.2 = some ⟨side.nameKind, false⟩ ∧ q = named side := by
  have hnot : isTagChar x.1 ≠ false := by
    rw [hx]
    decide
  cases h with
  | bare hq => cases hq
  | lineFeed hq => cases hq
  | conciseName hq => rcases hq with hq | hq <;> cases hq
  | conciseGap hq => cases hq
  | openTagStart => cases hx
  | closeTagStart => cases hx
  | name => exact ⟨rfl, rfl⟩
  | gap hq =>
    cases hq with
    | named hc => exact absurd hc hnot
  | leave hq =>
    cases hq with
    | named hc => exact absurd hc hnot
  | openTagEnd => cases hx
  | closeTagEnd => cases hx
  | selfClosingSlash => cases hx

lemma Step.of_conciseNamed (h : Step conciseNamed x q) (hx : isTagChar x.1 = true) :
    x.2 = some ⟨.openTagName, true⟩ := by
  have hnot : isTagChar x.1 ≠ false := by
    rw [hx]
    decide
  cases h with
  | bare hq =>
    cases hq with
    | conciseNamed hc => exact absurd hc hnot
  | lineFeed => cases hx
  | conciseName => rfl
  | conciseGap hq =>
    cases hq with
    | named hc => exact absurd hc hnot
  | openTagStart => cases hx
  | closeTagStart => cases hx
  | gap hq => cases hq
  | leave hq => cases hq
  | openTagEnd => cases hx
  | closeTagEnd => cases hx
  | selfClosingSlash => cases hx

/-- A name goes on as long as its characters do. -/
lemma Step.name_goes_on {q q' q'' : Site} {y : InkedChar} (h : Step q x q')
    (hpart : x.2 = some token) (hname : token.kind.isName = true) (h' : Step q' y q'')
    (hy : isTagChar y.1 = true) : y.2 = some token := by
  cases h <;> cases hpart
  case conciseName.refl => exact h'.of_conciseNamed hy
  case openTagName.refl => exact (h'.of_named hy).1
  case closeTagName.refl => exact (h'.of_named hy).1
  case name.refl => exact (h'.of_named hy).1
  all_goals cases hname

/-- Before an attribute stands its tag, as far as it is written, with brackets or without. -/
lemma exists_of_attribute (h : Walk .margin ink q) (hink : ink = a ++ x :: b)
    (hpart : x.2 = some token) (hkind : token.kind = .attributeName) :
    (∃ (side : Lexer.Side) (lead name more : List InkedChar),
      a = lead ++ side.startInk ++ name ++ more ∧ IsNameInk side name ∧ IsMoreInk more) ∨
    ∃ lead name more : List InkedChar,
      a = lead ++ name ++ more ∧ more ≠ [] ∧ IsConciseInk lead name more := by
  rw [hink] at h
  obtain ⟨q₁, ha, hb⟩ := h.exists_of_append
  have htrail := trail_of_walk ha
  obtain ⟨q₂, hstep, -⟩ := hb.exists_of_cons
  cases hstep <;> cases hpart
  case conciseAttribute.refl =>
    cases htrail with
    | concise hconcise hmore => exact .inr ⟨_, _, _, rfl, hmore, hconcise⟩
  case attributeName.refl =>
    cases htrail with
    | inside lead _ hne hname hmore => exact .inl ⟨_, lead, _, _, rfl, hname, hmore⟩
  case name.refl side _ _ => cases side <;> cases hkind
  all_goals cases hkind

/-- A name goes on as long as it can. -/
lemma exists_name_of_walk (h : Walk (named side) b q) :
    ∃ name rest, b = name ++ rest ∧ IsNameInk side name ∧
      ∀ y ∈ rest.head?, isTagChar y.1 = false := by
  induction b with
  | nil => exact ⟨[], [], rfl, isNameInk_nil, by simp⟩
  | cons y b ih =>
    obtain ⟨q', hstep, hwalk⟩ := h.exists_of_cons
    cases hy : isTagChar y.1 with
    | true =>
      obtain ⟨hpart, rfl⟩ := hstep.of_named hy
      obtain ⟨name, rest, rfl, hname, hrest⟩ := ih hwalk
      refine ⟨y :: name, rest, rfl, fun z hz => ?_, hrest⟩
      rcases mem_cons.1 hz with rfl | hz
      · exact ⟨hy, hpart⟩
      · exact hname z hz
    | false =>
      refine ⟨[], y :: b, rfl, isNameInk_nil, fun z hz => ?_⟩
      cases hz
      exact hy

/-- Behind a character of a tag's name stands the rest of the name. -/
lemma exists_rest_of_name (h : Walk .margin ink q)
    (hink : ink = a ++ x :: b) (hpart : x.2 = some token) (htoken : token = ⟨side.nameKind, false⟩) :
    ∃ name rest, b = name ++ rest ∧ IsNameInk side name ∧
      ∀ y ∈ rest.head?, isTagChar y.1 = false := by
  rw [hink] at h
  obtain ⟨q₁, -, hb⟩ := h.exists_of_append
  obtain ⟨q₂, hstep, hb⟩ := hb.exists_of_cons
  have hside : ∀ side' : Lexer.Side, (⟨side'.nameKind, false⟩ : Token) = ⟨side.nameKind, false⟩ →
      side' = side := by
    intro side'
    cases side <;> cases side' <;> decide
  have hq : q₂ = named side := by
    cases hstep <;> cases hpart
    case openTagName.refl => exact congrArg named (hside .opening htoken)
    case closeTagName.refl => exact congrArg named (hside .closing htoken)
    case name.refl => exact congrArg named (hside _ htoken)
    all_goals cases side <;> cases htoken
  rw [hq] at hb
  exact exists_name_of_walk hb

/-- Behind the bracket of an open tag stands its name. -/
lemma Step.of_opener (h : Step opener x q) :
    IsNameInk .opening [x] ∧ q = named .opening := by
  simpa using h.of_not_settled (by rintro ⟨⟩)

/-- The bracket of a close tag is not without its slash. -/
lemma Step.of_halfCloser (h : Step halfCloser x q) :
    x = ('/', some ⟨.closeTagStart, false⟩) ∧ q = closer := by
  simpa using h.of_not_settled (by rintro ⟨⟩)

/-- Behind bracket and slash of a close tag stands its name. -/
lemma Step.of_closer (h : Step closer x q) :
    IsNameInk .closing [x] ∧ q = named .closing := by
  simpa using h.of_not_settled (by rintro ⟨⟩)

/-- A tag goes on behind its first character. -/
lemma Step.of_isStart {q q' : Site} (h : Step q x q') (hpart : x.2 = some token)
    (hkind : token.kind.isStart = true) :
    (x = ('<', some ⟨.openTagStart, false⟩) ∧ q' = opener) ∨
      (x = ('<', some ⟨.closeTagStart, false⟩) ∧ q' = halfCloser) ∨
      (x = ('/', some ⟨.closeTagStart, false⟩) ∧ q = halfCloser ∧ q' = closer) := by
  cases h <;> cases hpart
  case openTagStart.refl => exact .inl ⟨rfl, rfl⟩
  case closeTagStart.refl => exact .inr (.inl ⟨rfl, rfl⟩)
  case closeTagSlash.refl => exact .inr (.inr ⟨rfl, rfl, rfl⟩)
  case name.refl side _ _ => cases side <;> cases hkind
  all_goals cases hkind

/-- The bracket in front of a tag is one, or it is one with a slash, which the name follows. -/
lemma isStart_cases (h : Walk .margin ink q) (hink : ink = a ++ x :: b)
    (hpart : x.2 = some token) (hkind : token.kind.isStart = true) :
    (x.1 = '<' ∧ ∃ side : Lexer.Side, token = ⟨side.startKind, false⟩) ∨
      (x.1 = '/' ∧ token = ⟨.closeTagStart, false⟩ ∧
        (∃ lead, a = lead ++ [('<', some ⟨.closeTagStart, false⟩)]) ∧
        ∀ y ∈ b.head?, isTagChar y.1 = true) := by
  rw [hink] at h
  obtain ⟨q₁, ha, hb⟩ := h.exists_of_append
  obtain ⟨q₂, hstep, hb⟩ := hb.exists_of_cons
  rcases hstep.of_isStart hpart hkind with ⟨rfl, -⟩ | ⟨rfl, -⟩ | ⟨rfl, rfl, rfl⟩
  · exact .inl ⟨rfl, .opening, (Option.some.inj hpart).symm⟩
  · exact .inl ⟨rfl, .closing, (Option.some.inj hpart).symm⟩
  · refine .inr ⟨rfl, (Option.some.inj hpart).symm, ?_, fun y hy => ?_⟩
    · cases trail_of_walk ha with
      | halfCloser lead => exact ⟨lead, rfl⟩
    · cases b with
      | nil => cases hy
      | cons z b =>
        cases hy
        obtain ⟨q₃, hstep, -⟩ := hb.exists_of_cons
        exact (hstep.of_closer.1 _ mem_cons_self).1

/-- Behind the bracket of an open tag stands its name, and it goes on as long as it can. -/
lemma exists_name_of_openTagStart (h : Walk .margin ink q) (hq : q.Settled)
    (hink : ink = a ++ ('<', some ⟨.openTagStart, false⟩) :: b) :
    ∃ name rest, b = name ++ rest ∧ name ≠ [] ∧ IsNameInk .opening name ∧
      ∀ y ∈ rest.head?, isTagChar y.1 = false := by
  rw [hink] at h
  obtain ⟨q₁, -, hb⟩ := h.exists_of_append
  obtain ⟨q₂, hstep, hb⟩ := hb.exists_of_cons
  obtain ⟨-, rfl⟩ | ⟨h, -⟩ | ⟨h, -⟩ := hstep.of_isStart rfl rfl
  · cases b with
    | nil =>
      cases hb
      cases hq
    | cons y b =>
      obtain ⟨q₃, hstep, hb⟩ := hb.exists_of_cons
      obtain ⟨hy, rfl⟩ := hstep.of_opener
      obtain ⟨name, rest, rfl, hname, hrest⟩ := exists_name_of_walk hb
      exact ⟨y :: name, rest, rfl, cons_ne_nil _ _, isNameInk_append hy hname, hrest⟩
  · cases h
  · cases h

end Site

/-! ## Documents -/

namespace Lexer

lemma map_joinRows {α β : Type} (f : α → β) (gap : α) (rows : List (List α)) :
    (Text.joinRows gap rows).map f = Text.joinRows (f gap) (rows.map (List.map f)) := by
  induction rows with
  | nil => rfl
  | cons row below ih =>
    cases below with
    | nil => rfl
    | cons next below =>
      rw [Text.joinRows, map_append, map_cons, ih]
      rfl

/-- The inked rows spell the text. -/
lemma textOf_inkRows (s : State) (ts : List Text) :
    textOf (inkRows s ts) = Text.joinRows '\n' ts := by
  have hrows : ((rows s ts).map Piece.ink).map textOf = ts := by
    rw [map_map]
    exact (map_congr_left fun pieces _ => Piece.textOf_ink pieces).trans (map_spell_rows s ts)
  rw [inkRows, textOf, map_joinRows]
  exact congrArg _ hrows

lemma map_snd_inkRows (t : Text) :
    (inkRows {} t.cutAtLineFeeds).map Prod.snd = t.labels.map partOf := by
  rw [inkRows, map_joinRows, Text.labels, paintRows, map_joinRows, partOf_nil, map_map,
    map_map]
  exact congrArg _ (map_congr_left fun pieces _ => Piece.map_snd_ink pieces)

end Lexer

namespace Document

/-- The text of a document with its parts of tags, in an order that the sites allow. -/
structure Drawn (d : Document) (ink : List InkedChar) : Prop extends d.Inked ink where
  walk : ∃ q, Site.Walk .margin ink q ∧ q.Settled
  /-- There are no parts in empty rows. -/
  tokenAt?_eq_none : ∀ p : Position, d.text.lineLength p.row = 0 → d.tokenAt? p = none

/-- A plain document has no tokens. -/
lemma tokenAt?_plain {d : Document} (h : d.scopes = Grammar.plain.tokenize d.text) (p : Position) :
    d.tokenAt? p = none := by
  have hscopes : d.scopesAt p = [Scope.plain] := by
    rw [scopesAt, h, Grammar.tokenize_plain, ScopeMap.scopesAt]
    split
    · rfl
    · next row hrow =>
      obtain ⟨line, -, rfl⟩ := Option.map_eq_some_iff.1 ((getElem?_map ..).symm.trans hrow)
      split <;> rfl
  rw [tokenAt?, hscopes]
  decide

/-- Every document whose rows end in line feeds is drawn. -/
theorem exists_drawn {d : Document} (honly : d.text.OnlyLineFeeds)
    (h : d.scopes = d.grammar.tokenize d.text) : ∃ ink, d.Drawn ink := by
  cases hg : d.grammar with
  | plain =>
    rw [hg] at h
    have hnone : ∀ x ∈ Text.ink d.text none, x.2 = none := fun x hx => snd_of_mem_ink hx
    have hwalk : ∃ q, Site.Walk .margin (d.text.ink none) q ∧ q.Settled := by
      cases hink : d.text.ink none with
      | nil => exact ⟨.margin, .nil _, .margin⟩
      | cons x ink => exact ⟨.outside, .loose .margin (hink ▸ hnone), .outside⟩
    refine ⟨d.text.ink none, ⟨(textOf_ink _ _).symm, honly, ?_⟩, hwalk,
      fun p _ => tokenAt?_plain h p⟩
    intro i c part hi _
    rw [tokenAt?_plain h]
    exact (hnone _ (mem_of_getElem? hi)).symm
  | marko =>
    rw [hg] at h
    have hscopes : ∀ p, d.tokenAt? p = (Document.ofText .marko d.text).tokenAt? p := by
      intro p
      rw [tokenAt?, tokenAt?, scopesAt, scopesAt, h]
      rfl
    have htext : textOf (Lexer.inkRows {} d.text.cutAtLineFeeds) = d.text := by
      rw [Lexer.textOf_inkRows, Text.joinRows_cutAtLineFeeds]
    refine ⟨Lexer.inkRows {} d.text.cutAtLineFeeds, ⟨htext.symm, honly, ?_⟩,
      Lexer.exists_walk_inkRows (Lexer.rests_margin rfl) .margin
        fun t => Text.not_mem_of_mem_cutAtLineFeeds, ?_⟩
    · intro i c part hi hc
      have hchar : d.text[i]? = some c := by
        rw [← htext, textOf, getElem?_map, hi]
        rfl
      have hpart : (d.text.labels.map Lexer.partOf)[i]? = some part := by
        rw [← Lexer.map_snd_inkRows, getElem?_map, hi]
        rfl
      rw [getElem?_map] at hpart
      obtain ⟨label, hlabel, rfl⟩ := Option.map_eq_some_iff.1 hpart
      rw [hscopes, tokenAt?_positionOf honly hchar hc hlabel]
      rfl
    · intro p hempty
      have hroot : d.scopesAt p = [Scope.marko] := by
        rw [scopesAt, h, Grammar.tokenize_marko, ScopeMap.scopesAt]
        split
        · rfl
        · next row hrow =>
          obtain ⟨pieces, hpieces, rfl⟩ :=
            Option.map_eq_some_iff.1 ((getElem?_map ..).symm.trans hrow)
          rw [Text.grammarRows_eq honly] at hpieces
          -- the pieces of the row spell it out
          have hspell : (d.text.cutAtLineFeeds)[p.row]? = some (Piece.spell pieces) := by
            rw [← Lexer.map_spell_rows {} d.text.cutAtLineFeeds, getElem?_map, hpieces]
            rfl
          have hlength : (ScopeRow.ofPieces pieces).length = 0 := by
            rw [Text.lineLength, Text.line, Text.line?_eq honly, hspell] at hempty
            rw [(ScopeRow.spansOf_ofPieces pieces).2, Piece.length_labels]
            exact hempty
          rw [if_pos hlength]
      rw [tokenAt?, hroot]
      decide

end Document

end TemplateEditing
