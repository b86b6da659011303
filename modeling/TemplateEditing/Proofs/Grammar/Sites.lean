import TemplateEditing.Proofs.Grammar.Parts
import TemplateEditing.Proofs.Tag.Tokens

/-!
# Where the lexer is in a tag

Of any text whatsoever, well formed or not, the lexer makes parts of tags in a certain order only:
brackets come whole, a name stands right behind the bracket in front of a tag, the bracket behind a
tag fits the one in front, and a tag without brackets starts its row. A small automaton says which
orders these are: its states are sites, `Site.Step` says what may stand at each, and every text,
with the parts of tags in it, is a walk of it (`exists_walk_inkRows`).

The sites do not know what strings, comments or code are. The lexer does, and `Fits` says which site
it can be at while inside of each.
-/

namespace TemplateEditing

open List

variable {s : State} {q : Site} {x : InkedChar} {c : Char} {pieces : List Piece} {tag : TagState}
  {left : Text}

/-! ## Inked pieces -/

/-- The characters of pieces, each with the part of a tag that it belongs to. -/
def Piece.ink (pieces : List Piece) : List InkedChar :=
  pieces.flatMap fun piece => piece.text.ink (Lexer.partOf piece.scopes)

@[simp] lemma Piece.ink_nil : ink [] = [] := rfl

@[simp] lemma Piece.ink_cons (piece : Piece) (pieces : List Piece) :
    ink (piece :: pieces) = piece.text.ink (Lexer.partOf piece.scopes) ++ ink pieces := rfl

@[simp] lemma Piece.ink_append (a b : List Piece) : ink (a ++ b) = ink a ++ ink b :=
  flatMap_append

/-- The inked characters of pieces spell them. -/
@[simp] lemma Piece.textOf_ink (pieces : List Piece) : textOf (ink pieces) = spell pieces := by
  induction pieces with
  | nil => rfl
  | cons piece pieces ih => simp [ih]

lemma Piece.map_snd_ink (pieces : List Piece) :
    (ink pieces).map Prod.snd = (labels pieces).map Lexer.partOf := by
  induction pieces with
  | nil => rfl
  | cons piece pieces ih =>
    rw [ink_cons, map_append, ih, TemplateEditing.map_snd_ink, labels_cons, map_append,
      map_replicate]

/-! ## Sites -/

namespace Lexer

/-- The bracket in front of a tag. -/
def Side.startKind : Side → TokenKind
  | .opening => .openTagStart
  | .closing => .closeTagStart

/-- The name of a tag. -/
def Side.nameKind : Side → TokenKind
  | .opening => .openTagName
  | .closing => .closeTagName

/-- The bracket behind a tag that does not close itself. -/
def Side.endKind : Side → TokenKind
  | .opening => .openTagEnd
  | .closing => .closeTagEnd

end Lexer

open Lexer (Side isTagChar isAttributeChar)

/-- How far a tag is written. -/
inductive Site where
  /-- No tag is being written. -/
  | outside
  /-- No tag is being written, and nothing but blanks stands before in the row. -/
  | margin
  /-- Behind the bracket of an open tag. -/
  | opener
  /-- Between bracket and slash of a close tag. -/
  | halfCloser
  /-- Behind bracket and slash of a close tag. -/
  | closer
  /-- Behind a part of the name. -/
  | named (side : Side)
  /-- Behind the name and more; `slash` if a slash is right before. -/
  | inside (side : Side) (slash : Bool)
  /-- Between slash and bracket behind a tag. -/
  | halfEnd
  /-- Behind a part of the name of a tag without brackets. -/
  | conciseNamed
  /-- Behind the name of a tag without brackets and more, in its row. -/
  | concise
deriving DecidableEq, Repr

namespace Site

/-- No bracket is half written, and no name has still to come. -/
inductive Settled : Site → Prop where
  | outside : Settled outside
  | margin : Settled margin
  | named (side : Side) : Settled (named side)
  | inside (side : Side) (slash : Bool) : Settled (inside side slash)
  | conciseNamed : Settled conciseNamed
  | concise : Settled concise

/-- At the name of a tag or behind it; a name goes on as long as it can. -/
inductive Within (side : Side) (c : Char) : Site → Prop where
  | named (h : isTagChar c = false) : Within side c (named side)
  | inside (slash : Bool) : Within side c (inside side slash)

/-- No tag with brackets is being written. -/
inductive Loose (c : Char) : Site → Prop where
  | outside : Loose c outside
  | margin : Loose c margin
  | conciseNamed (h : isTagChar c = false) : Loose c conciseNamed
  | concise : Loose c concise

/-- At the name of a tag without brackets or behind it. -/
inductive InConcise (c : Char) : Site → Prop where
  | named (h : isTagChar c = false) : InConcise c conciseNamed
  | inside : InConcise c concise

/-- What may stand at a site, and the site behind it. -/
inductive Step : Site → InkedChar → Site → Prop where
  | bare {q : Site} {c : Char} (h : Loose c q) : Step q (c, none) outside
  | lineFeed {q : Site} (h : Loose '\n' q) : Step q ('\n', none) margin
  | indent {c : Char} (h : isTagChar c = false) : Step margin (c, none) margin
  | conciseName {q : Site} {c : Char} (hq : q = margin ∨ q = conciseNamed)
      (h : isTagChar c = true) : Step q (c, some ⟨.openTagName, true⟩) conciseNamed
  /-- A tag without brackets ends with its row. -/
  | conciseGap {q : Site} {c : Char} (hq : InConcise c q) (h : c ≠ '\n') : Step q (c, none) concise
  | conciseAttribute {c : Char} (h : isAttributeChar c = true) :
      Step concise (c, some ⟨.attributeName, false⟩) concise
  | openTagStart {q : Site} (h : q.Settled) : Step q ('<', some ⟨.openTagStart, false⟩) opener
  | closeTagStart {q : Site} (h : q.Settled) : Step q ('<', some ⟨.closeTagStart, false⟩) halfCloser
  | closeTagSlash : Step halfCloser ('/', some ⟨.closeTagStart, false⟩) closer
  | openTagName {c : Char} (h : isTagChar c = true) :
      Step opener (c, some ⟨.openTagName, false⟩) (named .opening)
  | closeTagName {c : Char} (h : isTagChar c = true) :
      Step closer (c, some ⟨.closeTagName, false⟩) (named .closing)
  | name (side : Side) {c : Char} (h : isTagChar c = true) :
      Step (named side) (c, some ⟨side.nameKind, false⟩) (named side)
  | gap {q : Site} {side : Side} {c : Char} (h : Within side c q) :
      Step q (c, none) (inside side (c == '/'))
  | attributeName (side : Side) (slash : Bool) {c : Char} (h : isAttributeChar c = true) :
      Step (inside side slash) (c, some ⟨.attributeName, false⟩) (inside side false)
  /-- The tag is given up. -/
  | leave {q : Site} {side : Side} {c : Char} (h : Within side c q) : Step q (c, none) outside
  | openTagEnd {q : Site} (h : q = named .opening ∨ q = inside .opening false) :
      Step q ('>', some ⟨.openTagEnd, false⟩) outside
  | closeTagEnd {q : Site} (h : Within .closing '>' q) :
      Step q ('>', some ⟨.closeTagEnd, false⟩) outside
  | selfClosingSlash {q : Site} (h : Within .opening '/' q) :
      Step q ('/', some ⟨.selfClosingEnd, false⟩) halfEnd
  | selfClosingEnd : Step halfEnd ('>', some ⟨.selfClosingEnd, false⟩) outside

/-- What stands between two sites. -/
inductive Walk : Site → List InkedChar → Site → Prop where
  | nil (q : Site) : Walk q [] q
  | cons {q q' q'' : Site} {x : InkedChar} {ink : List InkedChar} (hstep : Step q x q')
      (hwalk : Walk q' ink q'') : Walk q (x :: ink) q''

namespace Walk

variable {q q' q'' : Site} {a b : List InkedChar}

lemma append (ha : Walk q a q') (hb : Walk q' b q'') : Walk q (a ++ b) q'' := by
  induction ha with
  | nil => exact hb
  | cons hstep _ ih => exact .cons hstep (ih hb)

lemma exists_of_cons (h : Walk q (x :: a) q'') :
    ∃ q', Step q x q' ∧ Walk q' a q'' := by
  cases h with
  | cons hstep hwalk => exact ⟨_, hstep, hwalk⟩

lemma exists_of_append (h : Walk q (a ++ b) q'') : ∃ q', Walk q a q' ∧ Walk q' b q'' := by
  induction a generalizing q with
  | nil => exact ⟨q, .nil q, h⟩
  | cons x a ih =>
    obtain ⟨q₁, hstep, hwalk⟩ := h.exists_of_cons
    obtain ⟨q', ha, hb⟩ := ih hwalk
    exact ⟨q', .cons hstep ha, hb⟩

lemma single (h : Step q x q') : Walk q [x] q' := .cons h (.nil q')

/-- What may stand again and again at a site. -/
lemma of_forall (h : ∀ x ∈ a, Step q x q) : Walk q a q := by
  induction a with
  | nil => exact .nil q
  | cons x a ih =>
    exact .cons (h x mem_cons_self) (ih fun y hy => h y (mem_cons_of_mem x hy))

/-- Text with no part leaves the walk outside all tags. -/
lemma bare (h : ∀ x ∈ a, x.2 = none) : Walk outside a outside := by
  apply of_forall
  rintro ⟨c, part⟩ hx
  obtain rfl : part = none := h _ hx
  exact .bare .outside

/-- Text without parts leads out of a tag without brackets, and from the start of a row. -/
lemma loose (hq : Loose x.1 q) (hx : ∀ y ∈ x :: a, y.2 = none) :
    Walk q (x :: a) outside := by
  obtain ⟨c, part⟩ := x
  obtain rfl : part = none := hx _ mem_cons_self
  exact .cons (.bare hq) (bare fun z hz => hx z (mem_cons_of_mem _ hz))

/-- What stands in a row behind the name of a tag without brackets. -/
lemma conciseGap (hq : InConcise x.1 q)
    (hx : ∀ y ∈ x :: a, y.1 ≠ '\n' ∧ y.2 = none) : Walk q (x :: a) concise := by
  have hstep : ∀ y ∈ x :: a, ∀ q, InConcise y.1 q → Step q y concise := by
    rintro ⟨c, part⟩ hy q hq
    obtain ⟨hc, rfl⟩ := hx _ hy
    exact .conciseGap hq hc
  exact .cons (hstep x mem_cons_self q hq)
    (of_forall fun y hy => hstep y (mem_cons_of_mem _ hy) concise .inside)

/-- What stands in a tag behind its name; whether it ends in a slash is remembered. -/
lemma gap {side : Side} (hq : Within side x.1 q) (hx : ∀ y ∈ x :: a, y.2 = none) :
    Walk q (x :: a) (inside side ((textOf (x :: a)).getLast? == some '/')) := by
  induction a generalizing q x with
  | nil =>
    obtain ⟨c, part⟩ := x
    obtain rfl : part = none := hx _ mem_cons_self
    exact single (.gap hq)
  | cons y a ih =>
    obtain ⟨c, part⟩ := x
    obtain rfl : part = none := hx _ mem_cons_self
    rw [textOf_cons, textOf_cons, getLast?_cons_cons]
    exact .cons (.gap hq) (ih (.inside _) fun z hz => hx z (mem_cons_of_mem _ hz))

/-- A tag is given up, and other text follows. -/
lemma leave {side : Side} (hq : Within side x.1 q)
    (hx : ∀ y ∈ x :: a, y.2 = none) : Walk q (x :: a) outside := by
  obtain ⟨c, part⟩ := x
  obtain rfl : part = none := hx _ mem_cons_self
  exact .cons (.leave hq) (bare fun z hz => hx z (mem_cons_of_mem _ hz))

/-- A name, from the bracket on or from within. -/
lemma name (side : Side) {t : Text} (ht : ∀ c ∈ t, isTagChar c = true) :
    Walk (named side) (t.ink (some ⟨side.nameKind, false⟩)) (named side) := by
  apply of_forall
  intro x hx
  obtain ⟨c, hc, rfl⟩ := mem_map.1 hx
  exact .name side (ht c hc)

end Walk

end Site

/-! ## The lexer is at a site -/

lemma Piece.forall_mem_ink (h : ∀ p ∈ pieces, Lexer.partOf p.scopes = none) :
    ∀ x ∈ ink pieces, x.2 = none := by
  intro x hx
  obtain ⟨piece, hpiece, hx⟩ := mem_flatMap.1 hx
  rw [snd_of_mem_ink hx, h piece hpiece]

namespace Lexer

open Site

/-- In a tag, with a text left to read. -/
inductive InTag (tag : TagState) (left : Text) : Site → Prop where
  | conciseNamed (h : tag.concise = true) (hleft : ∀ c ∈ left.head?, isTagChar c = false) :
      InTag tag left conciseNamed
  | concise (h : tag.concise = true) : InTag tag left concise
  | named (h : tag.concise = false) (hleft : ∀ c ∈ left.head?, isTagChar c = false) :
      InTag tag left (named tag.side)
  | inside (h : tag.concise = false) {slash : Bool}
      (hslash : slash = true → tag.side = .opening → left.head? ≠ some '>') :
      InTag tag left (inside tag.side slash)

/-- In a string in a tag. -/
inductive InString (tag : TagState) : Site → Prop where
  | concise (h : tag.concise = true) : InString tag concise
  | inside (h : tag.concise = false) (slash : Bool) : InString tag (inside tag.side slash)

/-- The lexer can be at a site, with a text left to read. -/
def Fits (s : State) (left : Text) (q : Site) : Prop :=
  match s.mode with
  | .content => q = outside ∨ q = margin ∨ q.Settled ∧ left.head? = some '<'
  | .tag tag => InTag tag left q
  | .string quote tag => isQuote quote = true ∧ InString tag q
  | .comment | .raw _ => q = outside

/-- A step within a row leads from a site to one that the lexer can be at behind it. -/
def Leads (q : Site) (step : Step) : Prop :=
  '\n' ∉ Piece.spell step.pieces →
    ∃ q', Walk q (Piece.ink step.pieces) q' ∧ Fits step.state step.left q'

lemma fits_content (hs : s.mode = .content) (left : Text) : Fits s left outside := by
  rw [Fits, hs]
  exact .inl rfl

/-- In the state of a tag, a site fits if it is in that tag. -/
lemma fits_tag (hs : s.mode = .tag tag) :
    Fits s left q ↔ InTag tag left q := by
  rw [Fits, hs]

lemma fits_string {quote : Char} (hs : s.mode = .string quote tag) :
    Fits s left q ↔ isQuote quote = true ∧ InString tag q := by
  rw [Fits, hs]

lemma fits_margin (hs : s.mode = .content) (left : Text) : Fits s left margin := by
  rw [Fits, hs]
  exact .inr (.inl rfl)

lemma isTagChar_ne {c d : Char} (hc : isTagChar c = true) (hd : isTagChar d = false) : c ≠ d := by
  rintro rfl
  rw [hc] at hd
  exact Bool.noConfusion hd

lemma isTagChar_of_isAttributeChar (h : isAttributeChar c = true) :
    isTagChar c = true := by
  rw [isTagChar, h]
  rfl

lemma isTagChar_of_isNameStart (h : isNameStart c = true) : isTagChar c = true := by
  apply isTagChar_of_isAttributeChar
  simp only [isNameStart, Bool.or_eq_true] at h
  simp only [isAttributeChar, Char.isAlphanum, Bool.or_eq_true]
  rcases h with (h | h) | h <;> simp [h]

/-! ### Content -/

/-- Text without parts leads out of all tags; a tag is only left for a bracket. -/
lemma walk_outside {rest : Text}
    (h : q = outside ∨ q = margin ∨ q.Settled ∧ (c :: rest).head? = some '<')
    {ink : List InkedChar} (hx : x.1 = c) (hink : ∀ y ∈ x :: ink, y.2 = none) :
    Walk q (x :: ink) outside := by
  rcases h with rfl | rfl | ⟨hq, hlt⟩
  · exact .bare hink
  · exact .loose .margin hink
  · have hx : x.1 = '<' := hx.trans (Option.some.inj hlt)
    have hend : isTagChar x.1 = false := by rw [hx]; decide
    cases hq with
    | outside => exact .bare hink
    | margin => exact .loose .margin hink
    | named side => exact .leave (.named hend) hink
    | inside side slash => exact .leave (.inside slash) hink
    | conciseNamed => exact .loose (.conciseNamed hend) hink
    | concise => exact .loose .concise hink

/-- Sites that fit content are settled. -/
lemma settled_of_fits (h : q = outside ∨ q = margin ∨ q.Settled ∧ left.head? = some '<') :
    q.Settled := by
  rcases h with rfl | rfl | h
  · exact .outside
  · exact .margin
  · exact h.1

/-- Code in brackets has no parts. -/
lemma partOf_balanced (opener closer : Char) {wrap : List String → List String}
    (hwrap : ∀ inner, (∀ scope ∈ inner, Scope.token? scope = none) → partOf (wrap inner) = none)
    (depth : Nat) (t : Text) :
    ∀ p ∈ (balanced opener closer wrap depth t).1, partOf p.scopes = none := by
  have hstring : ∀ quote, partOf (wrap [stringScope quote]) = none := by
    intro quote
    apply hwrap
    simp
  have hbegin : ∀ quote, partOf (wrap [Scope.stringBegin, stringScope quote]) = none := by
    intro quote
    apply hwrap
    simp
  have hend : ∀ quote, partOf (wrap [Scope.stringEnd, stringScope quote]) = none := by
    intro quote
    apply hwrap
    simp
  have hcode : partOf (wrap []) = none := hwrap [] (by simp)
  fun_induction balanced opener closer wrap depth t with
  | case1 => simp
  | case2 depth c rest _ scope quote inside behind h _ pieces left hb ih =>
    rw [hb] at ih
    simpa [quote, scope, hstring, hbegin, hend] using ih
  | case3 depth c rest _ scope quote => simp [quote, scope, hstring, hbegin]
  | case4 depth c rest _ piece _ pieces left hb ih =>
    rw [hb] at ih
    simpa [piece, hcode] using ih
  | case5 depth c rest _ piece => simp [piece, hcode]
  | case6 depth c rest _ piece _ _ pieces left hb ih =>
    rw [hb] at ih
    simpa [piece, hcode] using ih

/-- Code in brackets goes to its last bracket or to the end of the row. -/
lemma getLast?_balanced (opener closer : Char) (wrap : List String → List String) (depth : Nat)
    (t : Text) : (balanced opener closer wrap depth t).2 = [] ∨
      (Piece.spell (balanced opener closer wrap depth t).1).getLast? = some closer := by
  fun_induction balanced opener closer wrap depth t with
  | case1 => exact .inl rfl
  | case2 depth c rest _ _ quote inside behind h _ pieces left hb ih =>
    rw [hb] at ih
    refine ih.imp id fun ih => ?_
    simp only [Piece.spell_cons, getLast?_append, ih, Option.some_or]
  | case3 depth c rest _ _ quote => exact .inl rfl
  | case4 depth c rest _ piece _ pieces left hb ih =>
    rw [hb] at ih
    refine ih.imp id fun ih => ?_
    simp only [Piece.spell_cons, getLast?_append, ih, Option.some_or]
  | case5 depth c rest _ piece _ hcloser =>
    simp only [Bool.and_eq_true, beq_iff_eq] at hcloser
    exact .inr (by simp [piece, hcloser.1])
  | case6 depth c rest _ piece _ _ pieces left hb ih =>
    rw [hb] at ih
    refine ih.imp id fun ih => ?_
    simp only [Piece.spell_cons, getLast?_append, ih, Option.some_or]

/-- A name of a tag, behind the bracket in front of it. -/
lemma walk_name (side : Side) (hfirst : ∀ {c}, isTagChar c = true →
      Site.Step q (c, some ⟨side.nameKind, false⟩) (named side))
    {t : Text} (ht : t.head?.any isNameStart = true) :
    Walk q (Text.ink (t.takeWhile isTagChar) (some ⟨side.nameKind, false⟩)) (named side) := by
  cases t with
  | nil => simp at ht
  | cons c t =>
    have hc : isTagChar c = true := isTagChar_of_isNameStart (by simpa using ht)
    rw [takeWhile_cons_of_pos hc]
    refine .cons (hfirst hc) (.name side fun d hd => mem_takeWhile_imp hd)

lemma head?_dropWhile_not {p : Char → Bool} (t : Text) :
    ∀ c ∈ (t.dropWhile p).head?, p c = false := by
  intro c hc
  have := List.head?_dropWhile_not p t
  rw [hc] at this
  simpa using this

section
variable {s : State} {c : Char} {rest : Text} {q : Site}

/-- A step that takes text without parts, outside of all tags. -/
lemma leads_bare (hs : s.mode = .content)
    (h : q = outside ∨ q = margin ∨ q.Settled ∧ (c :: rest).head? = some '<') {more left : Text}
    (hspell : Piece.spell pieces = c :: more)
    (hnone : ∀ p ∈ pieces, partOf p.scopes = none) : Leads q ⟨pieces, s, left⟩ := by
  refine fun _ => ⟨outside, ?_, fits_content hs left⟩
  have hink := Piece.forall_mem_ink hnone
  rw [← Piece.textOf_ink] at hspell
  cases hpieces : Piece.ink pieces with
  | nil =>
    rw [hpieces] at hspell
    cases hspell
  | cons x ink =>
    rw [hpieces] at hspell hink
    exact walk_outside h (List.cons.inj hspell).1 hink

/-- Each rule for content leads to a site that fits. -/
lemma ContentRule.leads {next : Step} (hrule : ContentRule s c rest next) (hs : s.mode = .content)
    (h : q = outside ∨ q = margin ∨ q.Settled ∧ (c :: rest).head? = some '<') : Leads q next := by
  cases hrule with
  | comment =>
    refine fun _ => ⟨outside, ?_, rfl⟩
    apply walk_outside h rfl
    exact @Piece.forall_mem_ink [⟨(c :: rest).take 4, [Scope.commentBlock]⟩]
      (by simp [partOf_comment])
  | closeTag hname =>
    have hstart : partOf [Scope.tagBeginClose, Scope.metaTagClose] =
        some ⟨.closeTagStart, false⟩ := by simp [partOf_eq]
    have hpart : partOf [Scope.tagNameClose, Scope.metaTagClose] =
        some ⟨Side.closing.nameKind, false⟩ := by simp [partOf_eq, Side.nameKind]
    refine fun _ => ⟨named .closing, ?_, (fits_tag rfl).2 (.named rfl (head?_dropWhile_not _))⟩
    simp only [Piece.ink_cons, Piece.ink_nil, append_nil, hstart, hpart]
    exact .cons (.closeTagStart (settled_of_fits h)) (.cons .closeTagSlash
      (walk_name .closing .closeTagName hname))
  | openTag hname =>
    have hstart : partOf [Scope.tagBeginOpen, Scope.metaTagOpen] =
        some ⟨.openTagStart, false⟩ := by simp [partOf_eq]
    have hpart : partOf [Scope.tagName, Scope.metaTagOpen] =
        some ⟨Side.opening.nameKind, false⟩ := by simp [partOf_eq, Side.nameKind]
    refine fun _ => ⟨named .opening, ?_, (fits_tag rfl).2 (.named rfl (head?_dropWhile_not _))⟩
    simp only [Piece.ink_cons, Piece.ink_nil, append_nil, hstart, hpart]
    exact .cons (.openTagStart (settled_of_fits h)) (walk_name .opening .openTagName hname)
  | bracket => exact leads_bare hs h rfl (by simp [partOf_nil])
  | placeholder =>
    refine leads_bare hs h rfl (forall_mem_cons.2 ⟨partOf_nil, ?_⟩)
    exact partOf_balanced _ _ (fun _ _ => partOf_nil) _ _
  | text => exact leads_bare hs h rfl (by simp [partOf_nil])

end

/-! ### Tags -/

/-- In a tag, at a character that is not part of its name. -/
inductive Around (tag : TagState) (c : Char) : Site → Prop where
  | concise (h : tag.concise = true) {q : Site} (hq : InConcise c q) : Around tag c q
  | within (h : tag.concise = false) {q : Site} (hq : Within tag.side c q) : Around tag c q

lemma InTag.around {rest : Text} (h : InTag tag (c :: rest) q) : Around tag c q := by
  cases h with
  | conciseNamed h hleft => exact .concise h (.named (hleft c rfl))
  | concise h => exact .concise h .inside
  | named h hleft => exact .within h (.named (hleft c rfl))
  | inside h => exact .within h (.inside _)

lemma InString.around (h : InString tag q) (c : Char) :
    Around tag c q := by
  cases h with
  | concise h => exact .concise h .inside
  | inside h slash => exact .within h (.inside slash)

section
variable {tag : TagState} {c : Char} {q : Site}

lemma Around.within_side (h : Around tag c q) (htag : tag.concise = false) :
    Within tag.side c q := by
  cases h with
  | concise h => exact absurd (h.symm.trans htag) (by decide)
  | within _ hq => exact hq

/-- What stands in a tag without being a part of it. -/
lemma walk_gap (h : Around tag c q) {more : Text}
    (hspell : Piece.spell pieces = c :: more) (hnone : ∀ p ∈ pieces, partOf p.scopes = none)
    (hrow : '\n' ∉ Piece.spell pieces) :
    ∃ q', Walk q (Piece.ink pieces) q' ∧ InString tag q' ∧
      ∀ {left : Text}, ((Piece.spell pieces).getLast? = some '/' → tag.concise = false →
        tag.side = .opening → left.head? ≠ some '>') → InTag tag left q' := by
  have hink := Piece.forall_mem_ink hnone
  rw [← Piece.textOf_ink] at hspell hrow ⊢
  cases hpieces : Piece.ink pieces with
  | nil =>
    rw [hpieces] at hspell
    cases hspell
  | cons x ink =>
    rw [hpieces] at hspell hink hrow
    obtain rfl : x.1 = c := (List.cons.inj hspell).1
    cases h with
    | concise h hq =>
      refine ⟨concise, .conciseGap hq fun y hy => ⟨?_, hink y hy⟩, .concise h, fun _ => .concise h⟩
      rintro hlf
      exact hrow (hlf ▸ mem_map_of_mem hy)
    | within h hq =>
      exact ⟨inside tag.side ((textOf (x :: ink)).getLast? == some '/'), .gap hq hink, .inside h _,
        fun hslash => .inside h fun hlast => hslash (beq_iff_eq.1 hlast) h⟩

/-- A step that stays in the tag, or goes back to it. -/
lemma leads_gap (h : Around tag c q) (hs : s.mode = .tag tag) {more left : Text}
    (hspell : Piece.spell pieces = c :: more)
    (hnone : ∀ p ∈ pieces, partOf p.scopes = none)
    (hslash : (Piece.spell pieces).getLast? = some '/' → tag.concise = false →
      tag.side = .opening → left.head? ≠ some '>') :
    Leads q ⟨pieces, s, left⟩ := by
  intro hrow
  obtain ⟨q', hwalk, -, hq'⟩ := walk_gap h hspell hnone hrow
  exact ⟨q', hwalk, (fits_tag hs).2 (hq' hslash)⟩

/-- A step into a string of the tag, or one that stays in it. -/
lemma leads_string (h : Around tag c q) {quote : Char}
    (hs : s.mode = .string quote tag) (hquote : isQuote quote = true) {more left : Text}
    (hspell : Piece.spell pieces = c :: more)
    (hnone : ∀ p ∈ pieces, partOf p.scopes = none) : Leads q ⟨pieces, s, left⟩ := by
  intro hrow
  obtain ⟨q', hwalk, hq', -⟩ := walk_gap h hspell hnone hrow
  exact ⟨q', hwalk, (fits_string hs).2 ⟨hquote, hq'⟩⟩

end

/-- Where a value ends, a slash is not right before the bracket behind the tag. -/
lemma valueLength_slash (depth : Nat) (t : Text)
    (h : (t.take (valueLength depth t)).getLast? = some '/') :
    (t.drop (valueLength depth t)).head? ≠ some '>' := by
  -- the last character taken is the first one or stands behind it
  have hlast : ∀ {c : Char} {rest : Text} {n : Nat},
      ((c :: rest).take (n + 1)).getLast? = some '/' →
        (rest.take n).getLast? = some '/' ∨ rest.take n = [] ∧ c = '/' := by
    intro c rest n h
    rw [take_succ_cons] at h
    cases htake : rest.take n with
    | nil =>
      rw [htake] at h
      exact .inr ⟨rfl, by simpa using h⟩
    | cons d more =>
      rw [htake, getLast?_cons_cons] at h
      exact .inl h
  fun_induction valueLength depth t with
  | case1 => simp
  | case2 depth c rest hc ih =>
    rcases hlast h with h | ⟨-, rfl⟩
    · exact ih h
    · simp at hc
  | case3 depth c rest _ hc ih =>
    rcases hlast h with h | ⟨-, rfl⟩
    · exact ih h
    · simp at hc
  | case4 => simp at h
  | case5 => simp at h
  | case6 depth c rest hopen hclose hend hslash ih =>
    rcases hlast h with h | ⟨hnil, rfl⟩
    · exact ih h
    · -- the value ends right behind a slash
      show (rest.drop _).head? ≠ _
      cases rest with
      | nil => simp
      | cons d rest =>
        have hzero : valueLength depth (d :: rest) = 0 := by
          cases hn : valueLength depth (d :: rest) with
          | zero => rfl
          | succ n =>
            rw [hn] at hnil
            cases hnil
        rw [hzero]
        intro hd
        obtain rfl : d = '>' := by simpa using hd
        cases depth with
        | zero => simp at hslash
        | succ depth => simp [valueLength] at hzero

section
variable {s : State} {tag : TagState} {c : Char} {rest : Text} {q : Site}

/-- An opening quote leads into a string of the same tag. -/
lemma leads_openString (h : Around tag c q) {before : List Piece} {quote : Char} {more : Text}
    (hquote : isQuote quote = true) (hspell : Piece.spell before ++ [quote] = c :: more)
    (hnone : ∀ p ∈ before, partOf p.scopes = none) (left : Text) :
    Leads q (openString s tag before quote left) := by
  have hopen : Piece.spell (before ++
      [⟨[quote], [Scope.stringBegin, stringScope quote, tag.scope]⟩]) = c :: more := by
    rw [Piece.spell_append]
    exact hspell
  refine leads_string h rfl hquote hopen ?_
  intro p hp
  rcases mem_append.1 hp with hp | hp
  · exact hnone p hp
  · rw [mem_singleton.1 hp]
    simp [partOf_eq]

/-- An attribute value leads to a site that fits. -/
lemma leads_valueStep (hs : s.mode = .tag tag) (h : Around tag '=' q) :
    Leads q (valueStep s tag '=' rest) := by
  have hsign : partOf [Scope.keyValue, tag.scope] = none := by simp [partOf_eq]
  have hgap : partOf [tag.scope] = none := by simp [partOf_eq]
  have hvalue : partOf [Scope.sourceScript, tag.scope] = none := by simp [partOf_eq]
  unfold valueStep
  dsimp only
  split
  · -- nothing follows in the row
    refine leads_gap h hs rfl ?_ fun _ _ _ => by simp
    simp [hsign, hgap]
  · next d behind hdrop =>
    split
    · -- a string begins
      next hquote =>
      refine leads_openString h hquote rfl ?_ behind
      simp [hsign, hgap]
    · refine leads_gap h hs rfl ?_ ?_
      · simp [hsign, hgap, hvalue]
      · -- a value ends in no slash that would be part of the end of the tag
        intro hlast _ _
        have hblank : ∀ e ∈ ('=' :: rest.takeWhile fun d => d == ' ' || d == '\t'), e ≠ '/' := by
          intro e he
          rcases mem_cons.1 he with rfl | he
          · decide
          · have := mem_takeWhile_imp he
            rintro rfl
            simp at this
        simp only [Piece.spell_append, Piece.spell_cons, Piece.spell_nil, append_nil,
          singleton_append] at hlast
        rw [getLast?_append, Option.or_eq_some_iff] at hlast
        rcases hlast with hlast | ⟨-, hlast⟩
        · exact valueLength_slash 0 _ hlast
        · exact absurd rfl (hblank '/' (mem_of_getLast? hlast))

/-- A site in a tag is settled. -/
lemma InTag.settled (h : InTag tag left q) :
    q.Settled := by
  cases h with
  | conciseNamed => exact .conciseNamed
  | concise => exact .concise
  | named => exact .named _
  | inside => exact .inside _ _

lemma fits_endTag (s : State) (tag : TagState) (left : Text) :
    Fits (endTag s tag) left outside := by
  unfold endTag
  split
  · exact fits_content rfl left
  · split
    · exact fits_content rfl left
    · exact fits_content rfl left
    · rfl

/-- Blanks, the last of which is no slash. -/
lemma leads_blanks (hs : s.mode = .tag tag) (h : Around tag c q) (hblank : Text.isBlank c = true) :
    Leads q ⟨[⟨c :: rest.takeWhile Text.isBlank, [tag.scope]⟩], s,
      rest.dropWhile Text.isBlank⟩ := by
  refine leads_gap h hs rfl (by simp [partOf_eq]) fun hlast _ _ => ?_
  have hall : ∀ d ∈ c :: rest.takeWhile Text.isBlank, Text.isBlank d = true :=
    forall_mem_cons.2 ⟨hblank, fun d hd => mem_takeWhile_imp hd⟩
  have := hall '/' (mem_of_getLast? (by simpa using hlast))
  exact absurd this (by decide)

lemma leads_selfClosingEnd (h : Around tag '/' q) (hside : tag.side = .opening)
    (htag : tag.concise = false) :
    Leads q ⟨[⟨['/', '>'], [Scope.tagEndSelfClose, tag.scope]⟩], enter s .content, rest⟩ := by
  have hpart : partOf [Scope.tagEndSelfClose, tag.scope] = some ⟨.selfClosingEnd, false⟩ := by
    simp [partOf_eq]
  refine fun _ => ⟨outside, ?_, fits_content rfl _⟩
  simp only [Piece.ink_cons, Piece.ink_nil, append_nil, hpart]
  have hq := h.within_side htag
  rw [hside] at hq
  exact .cons (.selfClosingSlash hq) (.single .selfClosingEnd)

/-- The bracket behind an open tag is not one that a slash belongs to. -/
lemma leads_openTagEnd (h : InTag tag ('>' :: rest) q) (hside : tag.side = .opening)
    (htag : tag.concise = false) :
    Leads q ⟨[⟨['>'], [Scope.tagEndOpen, tag.scope]⟩], endTag s tag, rest⟩ := by
  have hpart : partOf [Scope.tagEndOpen, tag.scope] = some ⟨.openTagEnd, false⟩ := by
    simp [partOf_eq]
  refine fun _ => ⟨outside, ?_, fits_endTag s tag rest⟩
  simp only [Piece.ink_cons, Piece.ink_nil, append_nil, hpart]
  refine .single ?_
  cases h with
  | conciseNamed hconcise => exact absurd (hconcise.symm.trans htag) (by decide)
  | concise hconcise => exact absurd (hconcise.symm.trans htag) (by decide)
  | named => exact .openTagEnd (.inl (congrArg named hside))
  | @inside _ slash hslash =>
    cases slash with
    | true => exact absurd rfl (hslash rfl hside)
    | false => exact .openTagEnd (.inr (congrArg (inside · false) hside))

lemma leads_closeTagEnd (h : Around tag '>' q) (hside : tag.side = .closing)
    (htag : tag.concise = false) :
    Leads q ⟨[⟨['>'], [Scope.tagEndClose, tag.scope]⟩], endTag s tag, rest⟩ := by
  have hpart : partOf [Scope.tagEndClose, tag.scope] = some ⟨.closeTagEnd, false⟩ := by
    simp [partOf_eq]
  refine fun _ => ⟨outside, ?_, fits_endTag s tag rest⟩
  simp only [Piece.ink_cons, Piece.ink_nil, append_nil, hpart]
  have hq := h.within_side htag
  rw [hside] at hq
  exact .single (.closeTagEnd hq)

/-- Code in brackets ends in its closer, which is no slash, or with the row. -/
lemma leads_codeStep (hs : s.mode = .tag tag) (h : Around tag c q) (opener : Char) {closer : Char}
    (hcloser : closer ≠ '/') (depth : Nat) :
    Leads q (codeStep s tag c opener closer depth rest) := by
  have hcode : ∀ inner, (∀ scope ∈ inner, Scope.token? scope = none) →
      partOf (inner ++ [Scope.sourceScript, tag.scope]) = none := by
    intro inner hinner
    rw [partOf_eq, findSome?_append, findSome?_eq_none_iff.2 hinner]
    simp
  refine leads_gap h hs rfl (forall_mem_cons.2 ⟨hcode [] (by simp), ?_⟩) fun hlast _ _ => ?_
  · exact partOf_balanced opener closer hcode depth rest
  · rcases getLast?_balanced opener closer (· ++ [Scope.sourceScript, tag.scope]) depth rest
      with hleft | hleft
    · rw [hleft]
      simp
    · rw [Piece.spell_cons, getLast?_append, hleft] at hlast
      exact absurd (Option.some.inj hlast) hcloser

/-- The name of an attribute does not follow right behind the name of the tag. -/
lemma leads_attributeName (hs : s.mode = .tag tag) (h : InTag tag (c :: rest) q)
    (hc : isAttributeChar c = true) :
    Leads q ⟨[⟨c :: rest.takeWhile isAttributeChar, [Scope.attributeName, tag.scope]⟩], s,
      rest.dropWhile isAttributeChar⟩ := by
  have hpart : partOf [Scope.attributeName, tag.scope] = some ⟨.attributeName, false⟩ := by
    simp [partOf_eq]
  have hname : ∀ d ∈ c :: rest.takeWhile isAttributeChar, isAttributeChar d = true :=
    forall_mem_cons.2 ⟨hc, fun d hd => mem_takeWhile_imp hd⟩
  intro _
  simp only [Piece.ink_cons, Piece.ink_nil, append_nil, hpart]
  cases h with
  | conciseNamed _ hleft =>
    exact absurd (isTagChar_of_isAttributeChar hc) (Bool.eq_false_iff.1 (hleft c rfl))
  | concise htag =>
    refine ⟨concise, .of_forall ?_, (fits_tag hs).2 (.concise htag)⟩
    intro x hx
    obtain ⟨d, hd, rfl⟩ := mem_map.1 hx
    exact .conciseAttribute (hname d hd)
  | named _ hleft =>
    exact absurd (isTagChar_of_isAttributeChar hc) (Bool.eq_false_iff.1 (hleft c rfl))
  | @inside htag slash =>
    refine ⟨inside tag.side false, .cons (.attributeName tag.side slash hc) (.of_forall ?_),
      (fits_tag hs).2 (.inside htag (by simp))⟩
    intro x hx
    obtain ⟨d, hd, rfl⟩ := mem_map.1 hx
    exact .attributeName tag.side false (hname d (mem_cons_of_mem c hd))

/-- Each rule for tags leads to a site that fits. -/
lemma TagRule.leads {next : Step} (hrule : TagRule s tag c rest next) (hs : s.mode = .tag tag)
    (h : InTag tag (c :: rest) q) : Leads q next := by
  cases hrule with
  | blanks hblank => exact leads_blanks hs h.around hblank
  | conciseText => exact leads_gap h.around hs rfl (by simp [partOf_nil]) fun _ _ _ => by simp
  | selfClosingEnd hside htag => exact leads_selfClosingEnd h.around hside htag
  | openTagEnd hside htag => exact leads_openTagEnd h hside htag
  | closeTagEnd hside htag => exact leads_closeTagEnd h.around hside htag
  | nextTag => exact fun _ => ⟨q, .nil q, .inr (.inr ⟨h.settled, rfl⟩)⟩
  | value => exact leads_valueStep hs h.around
  | string hquote => exact leads_openString h.around hquote rfl (by simp) rest
  | arguments => exact leads_codeStep hs h.around _ (by decide) _
  | placeholder => exact leads_codeStep hs h.around _ (by decide) _
  | attributeName hc => exact leads_attributeName hs h hc
  | stray hslash =>
    refine leads_gap h.around hs rfl (by simp [partOf_eq]) fun hlast htag hside => ?_
    exact hslash hside htag (by simpa using hlast)

end

/-! ### Steps, rows and texts -/

/-- Every step leads to a site that fits. -/
lemma leads_step {rest : Text} (h : Fits s (c :: rest) q) :
    Leads q (step s c rest) := by
  unfold step
  split
  · next hs =>
    rw [Fits, hs] at h
    exact (contentRule s c rest).leads hs h
  · next tag hs => exact (tagRule s tag c rest).leads hs ((fits_tag hs).1 h)
  · next quote tag hs =>
    obtain ⟨hquote, h⟩ := (fits_string hs).1 h
    have hinside : partOf [stringScope quote, tag.scope] = none := by simp [partOf_eq]
    unfold stringStep
    dsimp only
    split
    · next inside behind hclose =>
      have hend : partOf [Scope.stringEnd, stringScope quote, tag.scope] = none := by
        simp [partOf_eq]
      obtain ⟨d, more, hspell⟩ : ∃ d more, inside ++ [quote] = d :: more :=
        exists_cons_of_ne_nil (by simp)
      refine leads_gap (h.around d) rfl (by simpa using hspell) (by simp [hinside, hend])
        fun hlast _ _ => ?_
      -- the last character is the quote
      obtain rfl : quote = '/' := by simpa using hlast
      cases hquote
    · exact leads_string (h.around c) hs hquote rfl (by simp [hinside])
  · next hs =>
    rw [Fits, hs] at h
    subst h
    unfold commentStep
    intro _
    split
    · exact ⟨outside, .bare (Piece.forall_mem_ink (by simp [partOf_comment])), fits_content rfl _⟩
    · refine ⟨outside, .bare (Piece.forall_mem_ink (by simp [partOf_comment])), ?_⟩
      rw [Fits, hs]
  · next kind hs =>
    rw [Fits, hs] at h
    subst h
    have hscript : partOf [Scope.sourceScript] = none := by simp [partOf_eq]
    have hstyle : partOf [Scope.sourceStyle] = none := by simp [partOf_eq]
    -- the code, up to its end or to the end of the row
    have hcode : ∀ {pieces : List Piece} {left : Text}, (∀ p ∈ pieces, partOf p.scopes = none) →
        Leads outside ⟨pieces, enter s .content, left⟩ ∧ Leads outside ⟨pieces, s, left⟩ := by
      intro pieces left hnone
      refine ⟨fun _ => ⟨outside, .bare (Piece.forall_mem_ink hnone), fits_content rfl _⟩,
        fun _ => ⟨outside, .bare (Piece.forall_mem_ink hnone), ?_⟩⟩
      rw [Fits, hs]
    unfold rawStep
    cases kind with
    | script =>
      dsimp only
      split
      · exact (hcode (by simp [hscript])).1
      · exact (hcode (by simp [hscript])).2
    | style =>
      dsimp only
      split
      · exact (hcode (by simp [hstyle])).1
      · exact (hcode (by simp [hstyle])).2

/-- The rest of a row is a walk to a site that fits. -/
lemma exists_walk_run (s : State) (t : Text) : ∀ q : Site, Fits s t q → '\n' ∉ t →
    ∃ q', Walk q (Piece.ink (run s t).1) q' ∧ Fits (run s t).2 [] q' := by
  fun_induction run s t with
  | case1 s => exact fun q h _ => ⟨q, .nil q, h⟩
  | case2 s c rest next pieces last hrun ih =>
    intro q h hrow
    rw [← spell_step s c rest, mem_append, not_or] at hrow
    obtain ⟨q', hstep, hfits⟩ := leads_step h hrow.1
    obtain ⟨q'', hwalk, hlast⟩ := ih q' hfits hrow.2
    rw [hrun] at hwalk hlast
    refine ⟨q'', ?_, hlast⟩
    rw [Piece.ink_append]
    exact hstep.append hwalk

/-- The lexer can be at a site at the start of any row. -/
structure Rests (s : State) (q : Site) : Prop where
  fits : ∀ left, Fits s left q
  eq_margin : s.mode = .content → q = margin

lemma rests_margin (hs : s.mode = .content) : Rests s margin :=
  ⟨fits_margin hs, fun _ => rfl⟩

lemma isTagChar_of_isBlank (h : Text.isBlank c = true) : isTagChar c = false := by
  rw [← Bool.not_eq_true, isTagChar, Bool.or_eq_true, beq_iff_eq]
  rintro (hc | rfl)
  · rw [isBlank_eq_false hc] at h
    cases h
  · cases h

/-- Blanks at the start of a row, and a name that goes on as long as it can. -/
lemma leads_conciseName {indent : Text} (hindent : ∀ c ∈ indent, Text.isBlank c = true)
    {first : Char} (hfirst : isTagChar first = true) (rest : Text) :
    Leads margin ⟨[⟨indent, []⟩, ⟨(first :: rest).takeWhile isTagChar,
        [Scope.tagNameConcise, Scope.metaTagConcise]⟩],
      enter s (.tag ⟨.opening, true, .void⟩), (first :: rest).dropWhile isTagChar⟩ := by
  have hpart : partOf [Scope.tagNameConcise, Scope.metaTagConcise] =
      some ⟨.openTagName, true⟩ := by simp [partOf_eq]
  refine fun _ => ⟨conciseNamed, ?_, (fits_tag rfl).2 (.conciseNamed rfl (head?_dropWhile_not _))⟩
  rw [takeWhile_cons_of_pos hfirst]
  simp only [Piece.ink_cons, Piece.ink_nil, append_nil, partOf_nil, hpart]
  have hblanks : Walk margin (indent.ink none) margin := by
    apply Walk.of_forall
    intro x hx
    obtain ⟨c, hc, rfl⟩ := mem_map.1 hx
    exact .indent (isTagChar_of_isBlank (hindent c hc))
  refine hblanks.append (.cons (.conciseName (.inl rfl) hfirst) (.of_forall ?_))
  intro x hx
  obtain ⟨c, hc, rfl⟩ := mem_map.1 hx
  exact .conciseName (.inr rfl) (mem_takeWhile_imp hc)

/-- A row that starts outside of all tags may be a tag without brackets. -/
lemma RowRule.leads {indent body : Text} {next : Step}
    (hrule : RowRule s indent body next) (hs : s.mode = .content)
    (hindent : ∀ c ∈ indent, Text.isBlank c = true) : Leads margin next := by
  have hbare : ∀ {pieces : List Piece} {left : Text}, (∀ p ∈ pieces, partOf p.scopes = none) →
      Leads margin ⟨pieces, s, left⟩ := by
    intro pieces left hnone _
    have hink := Piece.forall_mem_ink hnone
    cases hpieces : Piece.ink pieces with
    | nil => exact ⟨margin, .nil _, fits_margin hs left⟩
    | cons x ink =>
      rw [hpieces] at hink
      exact ⟨outside, .loose .margin hink, fits_content hs left⟩
  cases hrule with
  | comment => exact hbare (by simp [partOf_eq])
  | mark => exact hbare (by simp [partOf_nil])
  | @name first rest hbody hfirst =>
    subst hbody
    refine leads_conciseName hindent ?_ rest
    rcases hfirst with rfl | rfl | hfirst
    · decide
    · decide
    · exact isTagChar_of_isNameStart hfirst
  | content => exact hbare (by simp [partOf_nil])

/-- A line feed leads from wherever a row can end to where the next one can start. -/
lemma exists_step_lineFeed (h : Fits s [] q) :
    q.Settled ∧ ∃ q', Site.Step q ('\n', none) q' ∧ Rests (endRow s) q' := by
  obtain ⟨mode, depth⟩ := s
  -- a tag without brackets ends here, a string of it too, and all else goes on
  cases mode with
  | content =>
    obtain rfl | rfl | ⟨-, hleft⟩ := h
    · exact ⟨.outside, margin, .lineFeed .outside, rests_margin rfl⟩
    · exact ⟨.margin, margin, .lineFeed .margin, rests_margin rfl⟩
    · cases hleft
  | tag tag =>
    have h : InTag tag [] q := h
    refine ⟨h.settled, ?_⟩
    cases h with
    | conciseNamed htag _ =>
      refine ⟨margin, .lineFeed (.conciseNamed (by decide)), ?_⟩
      simp only [endRow, htag, if_true]
      exact rests_margin rfl
    | concise htag =>
      refine ⟨margin, .lineFeed .concise, ?_⟩
      simp only [endRow, htag, if_true]
      exact rests_margin rfl
    | named htag _ =>
      refine ⟨_, .gap (.named (by decide)), ?_⟩
      simp only [endRow, htag, Bool.false_eq_true, if_false]
      exact ⟨fun left => InTag.inside htag (by simp), fun hmode => by cases hmode⟩
    | inside htag _ =>
      refine ⟨_, .gap (.inside _), ?_⟩
      simp only [endRow, htag, Bool.false_eq_true, if_false]
      exact ⟨fun left => InTag.inside htag (by simp), fun hmode => by cases hmode⟩
  | string quote tag =>
    obtain ⟨hquote, h⟩ : isQuote quote = true ∧ InString tag q := h
    cases h with
    | concise htag =>
      refine ⟨.concise, margin, .lineFeed .concise, ?_⟩
      simp only [endRow, htag, if_true]
      exact rests_margin rfl
    | inside htag slash =>
      refine ⟨.inside _ _, _, .gap (.inside _), ?_⟩
      simp only [endRow, htag, Bool.false_eq_true, if_false]
      exact ⟨fun left => ⟨hquote, .inside htag _⟩, fun hmode => by cases hmode⟩
  | comment =>
    obtain rfl : q = outside := h
    exact ⟨.outside, outside, .bare .outside, fun _ => rfl, fun hmode => by cases hmode⟩
  | raw kind =>
    obtain rfl : q = outside := h
    exact ⟨.outside, outside, .bare .outside, fun _ => rfl, fun hmode => by cases hmode⟩

/-- A row is a walk to a settled site, and so is its line feed. -/
lemma exists_walk_row (h : Rests s q) {t : Text} (ht : '\n' ∉ t) :
    ∃ q', Walk q (Piece.ink (row s t).1) q' ∧ q'.Settled ∧
      ∃ q'', Site.Step q' ('\n', none) q'' ∧ Rests (row s t).2 q'' := by
  -- what is set off at the start of the row, and what is left of it
  have hfirst : ∃ first : Step, first =
      (if s.mode = .content ∧ s.depth = 0 then rowStart s t else ⟨[], s, t⟩) ∧
      Leads q first ∧ Piece.spell first.pieces ++ first.left = t := by
    refine ⟨_, rfl, ?_⟩
    split
    · next hs =>
      rw [h.eq_margin hs.1]
      exact ⟨(rowRule s t).leads hs.1 fun c hc => mem_takeWhile_imp hc, spell_rowStart s t⟩
    · exact ⟨fun _ => ⟨q, .nil q, h.fits t⟩, rfl⟩
  obtain ⟨first, hdef, hleads, hspell⟩ := hfirst
  rw [← hspell, mem_append, not_or] at ht
  obtain ⟨q', hstart, hfits⟩ := hleads ht.1
  obtain ⟨q'', hwalk, hlast⟩ := exists_walk_run _ _ q' hfits ht.2
  obtain ⟨hsettled, hnext⟩ := exists_step_lineFeed hlast
  rw [hdef] at hstart hwalk hnext
  refine ⟨q'', ?_, hsettled, hnext⟩
  show Walk q (Piece.ink (_ ++ _)) q''
  rw [Piece.ink_append]
  exact hstart.append hwalk

/-- The characters of rows, each with the part of a tag that it belongs to. -/
def inkRows (s : State) (ts : List Text) : List InkedChar :=
  Text.joinRows ('\n', none) ((rows s ts).map Piece.ink)

/-- Whatever the text, its parts of tags are in the order that the sites allow. -/
theorem exists_walk_inkRows (h : Rests s q) (hq : q.Settled)
    {ts : List Text} (hts : ∀ t ∈ ts, '\n' ∉ t) : ∃ q', Walk q (inkRows s ts) q' ∧ q'.Settled := by
  induction ts generalizing s q with
  | nil => exact ⟨q, .nil q, hq⟩
  | cons t ts ih =>
    obtain ⟨q', hrow, hsettled, q'', hstep, hrests⟩ := exists_walk_row h (hts t mem_cons_self)
    cases ts with
    | nil => exact ⟨q', hrow, hsettled⟩
    | cons next below =>
      have hq'' : q''.Settled := by
        cases hstep with
        | bare => exact .outside
        | lineFeed => exact .margin
        | indent => exact .margin
        | conciseGap _ hc => exact absurd rfl hc
        | gap => exact .inside _ _
        | leave => exact .outside
      obtain ⟨last, hwalk, hlast⟩ := ih hrests hq'' fun t ht => hts t (mem_cons_of_mem _ ht)
      exact ⟨last, hrow.append (.cons hstep hwalk), hlast⟩

end Lexer

end TemplateEditing
