import TemplateEditing.Proofs.Tag.Drafts
import TemplateEditing.Proofs.Tag.Paired
import TemplateEditing.Proofs.Tag.Scans

/-!
# The tags scanned are found

A scan of the text meets the tokens of a tag one after the other (`InkedTag.Scanned`). The search for
the tag around a position starts at whatever stands there and reads these tokens in other orders:
back from a place in the tag, forth from its name. From each part of the tag it comes to the same
span, so each tag with a name that a scan finds is found from all of its positions
(`Document.tagAt_of_mem_tagsFrom`).
-/

namespace TemplateEditing

open List

variable {name : OffsetToken} {c : Char} {x : InkedChar}

open Lexer (isTagChar)

/-- A search finds the same among those that include all that it could find. -/
lemma find?_filter_of_imp {α : Type} {p q : α → Bool} {l : List α}
    (h : ∀ x ∈ l, q x = true → p x = true) : (l.filter p).find? q = l.find? q := by
  induction l with
  | nil => rfl
  | cons x l ih =>
    have hlater := ih fun y hy => h y (mem_cons_of_mem x hy)
    by_cases hp : p x = true
    · rw [filter_cons_of_pos hp, find?_cons, find?_cons, hlater]
    · have hq : q x = false := Bool.eq_false_iff.2 fun hq => hp (h x mem_cons_self hq)
      rw [filter_cons_of_neg hp, find?_cons, hq, hlater]

/-! ## Searches through tokens that are no brackets -/

lemma walkBack_noBracket {tokens : List TokenHit} (h : NoBracket tokens)
    (hconcise : ∀ t ∈ tokens, t.token.concise = false) (row : Nat) (name : Option Range)
    (opening : Bool) (rest : List TokenHit) :
    walkBack row name opening (tokens.reverse ++ rest) =
      walkBack row ((tokens.find? (·.kind.isName)).map (·.range) <|> name)
        (opening || tokens.any (·.kind == .openTagName)) rest := by
  induction tokens generalizing rest with
  | nil => simp
  | cons t tokens ih =>
    obtain ⟨hstart, hend⟩ := h t mem_cons_self
    have hbracket := hconcise t mem_cons_self
    rw [reverse_cons, append_assoc, ih (fun t' ht' => h t' (mem_cons_of_mem t ht'))
      (fun t' ht' => hconcise t' (mem_cons_of_mem t ht')), singleton_append, walkBack,
      if_neg (by simp [hend]), if_neg (by simp [hbracket])]
    by_cases hname : t.kind.isName = true
    · rw [if_pos hname, find?_cons, hname, any_cons, Bool.or_assoc,
        Bool.or_comm (tokens.any _)]
      rfl
    · have hkind : (t.kind == .openTagName) = false := by
        rw [beq_eq_false_iff_ne]
        intro hkind
        rw [hkind] at hname
        exact hname rfl
      rw [if_neg hname, if_neg (by simp [hstart]), find?_cons, Bool.eq_false_iff.2 hname,
        any_cons, hkind, Bool.false_or]

lemma walkBack_isStart {first : TokenHit} (h : first.kind.isStart = true) (row : Nat)
    (name : Option Range) (opening : Bool) (rest : List TokenHit) :
    walkBack row name opening (first :: rest) =
      .start
        { start := first.range.start, name := name
          opening := opening || first.kind == .openTagStart } := by
  have hothers : first.kind.isEnd = false ∧ (first.kind == .openTagName) = false ∧
      first.kind.isName = false := by
    revert h
    cases first.kind <;> decide
  rw [walkBack, hothers.1, hothers.2.1, hothers.2.2, h]
  rfl

namespace Document

lemma findEnd_noBracket {passed : List TokenHit} (h : NoBracket passed) (draft : TagDraft)
    (rest : List TokenHit) : findEnd draft (passed ++ rest) = findEnd draft rest := by
  induction passed with
  | nil => rfl
  | cons t passed ih =>
    have hrest := ih fun t' ht' => h t' (mem_cons_of_mem t ht')
    obtain ⟨hstart, hend⟩ := h t mem_cons_self
    rw [cons_append, findEnd, hrest]
    revert hstart hend
    cases t.kind <;> simp [TokenKind.isStart, TokenKind.isEnd]

/-- A tag whose end has still to be found is completed by the first bracket behind its name. -/
lemma completeTag?_of_tokensFrom {d : Document} {draft : TagDraft} {name : Range}
    {passed rest : List TokenHit} {last : TokenHit} (hname : draft.name = some name)
    (hstop : draft.stop = none) (hself : draft.selfClosing = false)
    (htokens : d.tokensFrom name.stop = passed ++ last :: rest) (hpassed : NoBracket passed)
    (hlast : last.kind.isEnd = true) :
    d.completeTag? draft = some
      { kind := last.kind.spanKind draft.opening
        range := .ofEnds draft.start last.range.stop
        nameRange := some name
        concise := draft.concise } := by
  unfold completeTag?
  simp only [hname, hstop, Option.isNone_none, if_true, htokens, findEnd_noBracket hpassed,
    Option.bind_eq_bind, Option.bind_some]
  rw [findEnd]
  revert hlast
  cases last.kind <;> simp [TokenKind.isEnd, TokenKind.spanKind, hself]

end Document

/-! ## The parts of a tag by offsets -/

/-- From each character of the bracket behind a tag the rest of the bracket is known. -/
lemma TokenKind.add_width_endInk {kind : TokenKind} {k : Nat} {part : Option Token}
    (h : kind.endInk[k]? = some (c, part)) :
    k + (if c = '/' then 2 else 1) = kind.endInk.length := by
  have hsingle : ∀ {kind : TokenKind}, [('>', some (⟨kind, false⟩ : Token))][k]? = some (c, part) →
      k + (if c = '/' then 2 else 1) = 1 := by
    intro kind h
    cases k with
    | zero =>
      cases h
      rfl
    | succ k => cases h
  cases kind
  case selfClosingEnd =>
    rcases k with _ | _ | k
    · cases h
      rfl
    · cases h
      rfl
    · cases h
  all_goals exact hsingle h

/-- A token that is a part of a tag between its brackets. -/
def OffsetToken.IsInner (t : OffsetToken) (side : Lexer.Side) : Prop :=
  t.token = ⟨side.nameKind, false⟩ ∨ t.token = ⟨.attributeName, false⟩

section
variable {tokens : List OffsetToken} {side : Lexer.Side} (h : ∀ t ∈ tokens, t.IsInner side)
  (text : Text)

include h

lemma noBracket_hits : NoBracket (tokens.map (OffsetToken.hit text)) := by
  intro hit hhit
  obtain ⟨t, ht, rfl⟩ := mem_map.1 hhit
  show t.token.kind.isStart = false ∧ t.token.kind.isEnd = false
  rcases h t ht with htoken | htoken <;> rw [htoken]
  · exact ⟨side.isStart_nameKind, side.isEnd_nameKind⟩
  · exact ⟨rfl, rfl⟩

lemma concise_hits : ∀ hit ∈ tokens.map (OffsetToken.hit text), hit.token.concise = false := by
  intro hit hhit
  obtain ⟨t, ht, rfl⟩ := mem_map.1 hhit
  show t.token.concise = false
  rcases h t ht with htoken | htoken <;> rw [htoken]

/-- The parts of a close tag are not those of an open one. -/
lemma any_openTagName_hits (hside : side = .closing) :
    (tokens.map (OffsetToken.hit text)).any (·.kind == .openTagName) = false := by
  rw [any_eq_false]
  intro hit hhit
  obtain ⟨t, ht, rfl⟩ := mem_map.1 hhit
  show ¬ (t.token.kind == .openTagName) = true
  rcases h t ht with htoken | htoken <;> rw [htoken]
  · rw [hside]
    decide
  · decide

end

lemma find?_hits (text : Text) (tokens : List OffsetToken) :
    (tokens.map (OffsetToken.hit text)).find? (·.kind.isName) =
      (tokens.find? (·.token.kind.isName)).map (OffsetToken.hit text) := find?_map ..

lemma find?_ne_none_of_nameRange {text : Text} {first last : OffsetToken}
    {passed : List OffsetToken} (h : (tagBetween text first passed last).nameRange ≠ none) :
    passed.find? (·.token.kind.isName) ≠ none := by
  intro hnone
  apply h
  rw [tagBetween, spanBetween, find?_hits, hnone]
  rfl

namespace InkedTag

variable {ink : List InkedChar} (tag : InkedTag ink)

/-- The offset of the name. -/
def nameStart : Nat := tag.start + tag.side.startInk.length

/-- The offset behind the name. -/
def nameStop : Nat := tag.nameStart + tag.name.length

lemma front_eq : tag.front.length = tag.nameStop + tag.more.length := by
  simp only [front, nameStop, nameStart, start, length_append]

lemma stop_eq_front : tag.stop = tag.front.length + tag.endKind.endInk.length := rfl

lemma start_lt_nameStart : tag.start < tag.nameStart :=
  Nat.lt_add_of_pos_right (Site.length_startInk_pos tag.side)

lemma nameStart_le_nameStop : tag.nameStart ≤ tag.nameStop := Nat.le_add_right _ _

lemma length_endInk_pos : 0 < tag.endKind.endInk.length := by
  cases tag.endKind <;> decide

/-- What stands at a place in a tag, by the part of the tag that the place is in. -/
lemma getElem?_cases {m : Nat} (hx : ink[m]? = some x) (hle : tag.start ≤ m) (hlt : m < tag.stop) :
    (m < tag.nameStart ∧ x ∈ tag.side.startInk) ∨
      (tag.nameStart ≤ m ∧ m < tag.nameStop ∧ x ∈ tag.name) ∨
      (tag.nameStop ≤ m ∧ m < tag.front.length ∧ tag.more[m - tag.nameStop]? = some x) ∨
      (tag.front.length ≤ m ∧ tag.endKind.endInk[m - tag.front.length]? = some x) := by
  have hfront := tag.front_eq
  have hstop := tag.stop_eq_front
  have hstart : tag.nameStart = tag.lead.length + tag.side.startInk.length := rfl
  have hname : tag.nameStop = tag.nameStart + tag.name.length := rfl
  have hlead : tag.start = tag.lead.length := rfl
  rw [tag.ink_eq] at hx
  simp only [append_assoc] at hx
  rw [getElem?_append_right (by omega)] at hx
  -- bracket, name, what stands behind it and the last bracket, one after the other
  rcases Nat.lt_or_ge m tag.nameStart with hcase | hcase
  · rw [getElem?_append_left (by omega)] at hx
    exact .inl ⟨hcase, mem_of_getElem? hx⟩
  rw [getElem?_append_right (by omega)] at hx
  rcases Nat.lt_or_ge m tag.nameStop with hcase' | hcase'
  · rw [getElem?_append_left (by omega)] at hx
    exact .inr (.inl ⟨hcase, hcase', mem_of_getElem? hx⟩)
  rw [getElem?_append_right (by omega)] at hx
  rcases Nat.lt_or_ge m tag.front.length with hcase'' | hcase''
  · rw [getElem?_append_left (by omega)] at hx
    refine .inr (.inr (.inl ⟨hcase', hcase'', ?_⟩))
    rw [← hx]
    congr 1
    omega
  · rw [getElem?_append_right (by omega), getElem?_append_left (by omega)] at hx
    refine .inr (.inr (.inr ⟨hcase'', ?_⟩))
    rw [← hx]
    congr 1
    omega

section
variable {m : Nat} {c : Char} {token : Token}

/-- The part of a tag that stands at a place in it. -/
lemma token_cases (hx : ink[m]? = some (c, some token)) (hle : tag.start ≤ m) (hlt : m < tag.stop) :
    (m < tag.nameStart ∧ token = ⟨tag.side.startKind, false⟩) ∨
      (tag.nameStart ≤ m ∧ m < tag.nameStop ∧ token = ⟨tag.side.nameKind, false⟩) ∨
      (tag.nameStop ≤ m ∧ m < tag.front.length ∧ token = ⟨.attributeName, false⟩) ∨
      (tag.front.length ≤ m ∧ token = ⟨tag.endKind, false⟩) := by
  rcases tag.getElem?_cases hx hle hlt with ⟨hm, hmem⟩ | ⟨hm, hm', hmem⟩ | ⟨hm, hm', hmem⟩ |
    ⟨hm, hmem⟩
  · exact .inl ⟨hm, Option.some.inj (tag.side.snd_of_mem_startInk hmem)⟩
  · exact .inr (.inl ⟨hm, hm', Option.some.inj (tag.isNameInk _ hmem).2⟩)
  · refine .inr (.inr (.inl ⟨hm, hm', ?_⟩))
    rcases tag.isMoreInk.part _ (mem_of_getElem? hmem) with hpart | hpart
    · cases hpart
    · exact Option.some.inj hpart
  · exact .inr (.inr (.inr ⟨hm,
      Option.some.inj (TokenKind.mem_endInk (mem_of_getElem? hmem)).2⟩))

lemma token_eq_of_isEnd (hx : ink[m]? = some (c, some token)) (hle : tag.start ≤ m)
    (hlt : m < tag.stop) (hend : token.kind.isEnd = true) :
    tag.front.length ≤ m ∧ token = ⟨tag.endKind, false⟩ := by
  rcases tag.token_cases hx hle hlt with ⟨-, rfl⟩ | ⟨-, -, rfl⟩ | ⟨-, -, rfl⟩ | hfront
  · simp at hend
  · simp at hend
  · cases hend
  · exact hfront

/-- A name ends where no more of it can stand. -/
lemma isTagChar_nameStop (hx : ink[tag.nameStop]? = some x) :
    isTagChar x.1 = false := by
  have hfront := tag.front_eq
  have hstop := tag.stop_eq_front
  have hpos := tag.length_endInk_pos
  have hstart := tag.start_lt_nameStart
  have hname := tag.nameStart_le_nameStop
  rcases tag.getElem?_cases hx (by omega) (by omega) with ⟨hm, -⟩ | ⟨-, hm, -⟩ | ⟨-, -, hmem⟩ |
    ⟨-, hmem⟩
  · omega
  · omega
  · rw [Nat.sub_self, ← head?_eq_getElem?] at hmem
    exact tag.isMoreInk.head x hmem
  · rcases (TokenKind.mem_endInk (mem_of_getElem? hmem)).1 with hc | hc <;> rw [hc] <;> decide

end

/-- The tokens that a scan of the text meets in a tag, and around it. -/
structure Scanned (front : List OffsetToken) (first : OffsetToken) (passed : List OffsetToken)
    (last : OffsetToken) (back : List OffsetToken) : Prop where
  tokens_eq : tokensBetween ink 0 ink.length = front ++ first :: (passed ++ last :: back)
  start_first : first.start = tag.start
  stop_first : first.stop = tag.nameStart
  token_first : first.token = ⟨tag.side.startKind, false⟩
  le_last : tag.front.length ≤ last.start
  stop_last : last.stop = tag.stop
  token_last : last.token = ⟨tag.endKind, false⟩
  /-- Names come first, and then attributes. -/
  passed_cases : ∀ t ∈ passed, t.token = ⟨tag.side.nameKind, false⟩ ∧ t.stop ≤ tag.nameStop ∨
    t.token = ⟨.attributeName, false⟩ ∧ tag.nameStop ≤ t.start

end InkedTag

namespace Document.Drawn

variable {d : Document} {ink : List InkedChar} (h : d.Drawn ink)

include h

/-- The bracket in front of a tag goes up to its name. -/
lemma stop_of_isStart {i : Nat} {t : OffsetToken} {side : Lexer.Side}
    (ht : t ∈ tokensBetween ink i ink.length)
    (hbracket : ink[t.start]? = some ('<', some ⟨side.startKind, false⟩)) :
    t.stop = t.start + side.startInk.length := by
  obtain ⟨q, hwalk, hq⟩ := h.walk
  obtain ⟨a, x, b, hink, hlength, -, hstop, -⟩ := exists_of_mem_tokensBetween ht
  rw [drop_length, append_nil] at hink
  have hget : ∀ m, ink[t.start + m]? = (x :: b)[m]? := by
    intro m
    rw [hink, ← hlength, getElem?_append_right (Nat.le_add_right _ m), Nat.add_sub_cancel_left]
  obtain rfl : x = ('<', some ⟨side.startKind, false⟩) :=
    Option.some.inj ((hget 0).symm.trans hbracket)
  rw [textOf_cons, Pattern.tagToken_cons, if_neg (show ('<' : Char) ≠ '/' by decide),
    if_neg (show ('<' : Char) ≠ '>' by decide), if_pos rfl] at hstop
  rw [hstop]
  cases side with
  | opening =>
    -- the name follows, which does not start with a slash
    obtain ⟨name, rest, rfl, hne, hname, -⟩ := Site.exists_name_of_openTagStart hwalk hq hink
    cases name with
    | nil => exact absurd rfl hne
    | cons y name =>
      have hy := Lexer.isTagChar_ne (hname y mem_cons_self).1
        (show isTagChar '/' = false by decide)
      have hhead : (textOf (y :: name ++ rest)).head? ≠ some '/' := fun hhead =>
        hy (Option.some.inj hhead)
      rw [if_neg hhead]
      rfl
  | closing =>
    have hslash := (hget 1).symm.trans (h.getElem?_slash hbracket)
    cases b with
    | nil => cases hslash
    | cons y b =>
      obtain rfl := Option.some.inj hslash
      rfl

variable (tag : InkedTag ink)

/-- The bracket behind a tag is met at its end. -/
lemma stop_eq_of_isEnd {i j : Nat} {t : OffsetToken} (ht : t ∈ tokensBetween ink i j)
    (hkind : t.token.kind.isEnd = true) (hle : tag.start ≤ t.start) (hlt : t.start < tag.stop) :
    tag.front.length ≤ t.start ∧ t.token = ⟨tag.endKind, false⟩ ∧ t.stop = tag.stop := by
  obtain ⟨c, hx, hstop⟩ := h.stop_of_isEnd ht hkind
  obtain ⟨hm, htoken⟩ := tag.token_eq_of_isEnd hx hle hlt hkind
  refine ⟨hm, htoken, ?_⟩
  have hfront := tag.front_eq
  have hname := tag.nameStart_le_nameStop
  rcases tag.getElem?_cases hx hle hlt with ⟨hm', -⟩ | ⟨-, hm', -⟩ | ⟨-, hm', -⟩ | ⟨-, hend⟩
  · omega
  · omega
  · omega
  · have hwidth := TokenKind.add_width_endInk hend
    have hstop' := tag.stop_eq_front
    omega

/-- Where a scan meets both brackets of a tag, it meets the parts of the tag between them. -/
lemma scanned {front passed back : List OffsetToken} {first last : OffsetToken}
    (hsplit : tokensBetween ink 0 ink.length = front ++ first :: (passed ++ last :: back))
    (hstart : first.start = tag.start) (hstop : last.stop = tag.stop)
    (hend : last.token.kind.isEnd = true) : tag.Scanned front first passed last back := by
  have hbetween := between_of_split hsplit
  have hbracket := tag.getElem?_start
  rw [← hstart] at hbracket
  have hfirst : first.stop = tag.nameStart := by
    rw [h.stop_of_isStart hbetween.first_mem hbracket, hstart]
    rfl
  have hlast := bounds_of_mem_tokensBetween hbetween.last_mem
  have hle := tag.start_lt_nameStart
  have hbehind := hbetween.first_le
  obtain ⟨hfront, htoken, -⟩ :=
    h.stop_eq_of_isEnd tag hbetween.last_mem hend (by omega) (by omega)
  refine ⟨hsplit, hstart, hfirst, ?_, hfront, hstop, htoken, ?_⟩
  · obtain ⟨c, hx⟩ := getElem?_of_mem_tokensBetween hbetween.first_mem
    rw [hbracket, Option.some.injEq, Prod.mk.injEq, Option.some.injEq] at hx
    exact hx.2.symm
  · intro t ht
    obtain ⟨hmem, hafter, hbefore⟩ := hbetween.passed_mem t ht
    have hbounds := bounds_of_mem_tokensBetween hmem
    obtain ⟨c, hx⟩ := getElem?_of_mem_tokensBetween hmem
    rcases tag.token_cases hx (by omega) (by omega) with ⟨hm, -⟩ | ⟨hm, hm', htoken⟩ |
      ⟨hm, -, htoken⟩ | ⟨-, htoken⟩
    · omega
    · -- a name goes no further than its word
      refine .inl ⟨htoken, ?_⟩
      by_contra hlong
      have hword := h.isWordChar_of_isName hmem (by rw [htoken]; simp)
      have hlt : tag.nameStop < ink.length := by omega
      have hget : ink[tag.nameStop]? = some (ink[tag.nameStop].1, ink[tag.nameStop].2) :=
        getElem?_eq_getElem hlt
      have hchar := tag.isTagChar_nameStop hget
      have hmem' := hword _ (Text.mem_slice.2 ⟨tag.nameStop, by omega, by omega, h.getElem?_text hget⟩)
      rw [isTagChar_of_isWordChar hmem'] at hchar
      cases hchar
    · exact .inr ⟨htoken, hm⟩
    · have hkind : t.token.kind.isEnd = true := by
        rw [htoken]
        exact tag.isEnd_endKind
      have := (h.stop_eq_of_isEnd tag hmem hkind (by omega) (by omega)).2.2
      omega

variable {tag} {front passed back : List OffsetToken} {first last : OffsetToken} {i : Nat}
  (hs : tag.Scanned front first passed last back)

include hs

omit h in
lemma isInner_passed : ∀ t ∈ passed, t.IsInner tag.side := by
  intro t ht
  rcases hs.passed_cases t ht with ⟨htoken, -⟩ | ⟨htoken, -⟩
  · exact .inl htoken
  · exact .inr htoken

/-- A scan up to a place in a tag behind the bracket in front meets that bracket and, behind it, parts
of the tag. Once the place is behind the name, the first name is among them. -/
lemma exists_seen (hle : tag.nameStart ≤ i) (hlt : i < tag.stop) :
    ∃ seen, tokensBetween ink 0 i = front ++ first :: seen ∧
      (∀ t ∈ seen, t.IsInner tag.side) ∧
      (tag.nameStop ≤ i →
        seen.find? (·.token.kind.isName) = passed.find? (·.token.kind.isName)) := by
  have hbetween := between_of_split hs.tokens_eq
  have hlength := tag.stop_le_length
  have hsplit' : tokensBetween ink 0 ink.length = (front ++ first :: passed) ++ last :: back := by
    rw [hs.tokens_eq, append_assoc]
    rfl
  have hfirst := stop_le_of_split hs.tokens_eq
  have hlast := stop_le_of_split hsplit'
  have hstart := bounds_of_mem_tokensBetween hbetween.first_mem
  have hstops := hs.stop_first
  have hstops' := hs.stop_last
  have horder := hbetween.first_le
  have hbracket := tag.start_lt_nameStart
  obtain ⟨cut, hcut, hfrom⟩ := @exists_tokensBetween_cut ink i (by omega)
  -- of the tokens that end before the place only those between the brackets are in question
  rw [hs.tokens_eq, filter_append, filter_front_of_split hs.tokens_eq (by omega),
    filter_cons_of_pos (by simp; omega), filter_append,
    filter_back_of_split hsplit' (by omega), append_nil, append_assoc,
    cons_append] at hcut
  -- what is cut is a part between the brackets
  have hpart : ∀ t' ∈ cut, ∃ t ∈ passed, t'.token = t.token ∧ i < t.stop := by
    intro t' ht'
    obtain ⟨t, ht, hsame, htoken, hbefore, hbehind⟩ := hfrom t' ht'
    have hbounds := bounds_of_mem_tokensBetween ht
    rw [hs.tokens_eq, mem_append, mem_cons, mem_append, mem_cons] at ht
    rcases ht with ht | rfl | ht | rfl | ht
    · have := hfirst.1 t ht
      omega
    · omega
    · exact ⟨t, ht, htoken, hbehind⟩
    · -- the bracket behind is not met before its end
      have hmem : t' ∈ tokensBetween ink 0 i := by
        rw [hcut]
        exact mem_append_right _ (mem_cons_of_mem _ (mem_append_right _ ht'))
      have hkind : t'.token.kind.isEnd = true := by
        rw [htoken, hs.token_last]
        exact tag.isEnd_endKind
      have := bounds_of_mem_tokensBetween hmem
      have := (h.stop_eq_of_isEnd tag hmem hkind (by omega) (by omega)).2.2
      omega
    · have := hlast.2 t ht
      omega
  refine ⟨passed.filter (fun t => t.stop ≤ i) ++ cut, hcut, ?_, ?_⟩
  · intro t' ht'
    rcases mem_append.1 ht' with ht' | ht'
    · exact isInner_passed hs t' (mem_filter.1 ht').1
    · obtain ⟨t, ht, htoken, -⟩ := hpart t' ht'
      rw [OffsetToken.IsInner, htoken]
      exact isInner_passed hs t ht
  · intro hbehind
    -- a name ends before the place
    have hname : ∀ t ∈ passed, t.token.kind.isName = true → t.stop ≤ i := by
      intro t ht hkind
      rcases hs.passed_cases t ht with ⟨-, hle⟩ | ⟨htoken, -⟩
      · omega
      · rw [htoken] at hkind
        cases hkind
    have hnone : cut.find? (·.token.kind.isName) = none := by
      rw [find?_eq_none]
      intro t' ht' hkind
      obtain ⟨t, ht, htoken, hlt'⟩ := hpart t' ht'
      rw [htoken] at hkind
      have := hname t ht hkind
      omega
    rw [find?_append, hnone, Option.or_none]
    exact find?_filter_of_imp fun t ht hkind => decide_eq_true (hname t ht hkind)

omit h in
/-- The span of a tag that is scanned. Only a close tag is read by the kind of its parts. -/
lemma tagBetween_eq (hname : passed.find? (·.token.kind.isName) = some name) {opening : Bool}
    (hopening : tag.side = .closing → opening = false) :
    tagBetween d.text first passed last =
      { kind := tag.endKind.spanKind opening
        range := .ofEnds (d.text.positionOf tag.start) (d.text.positionOf tag.stop)
        nameRange := some (name.hit d.text).range } := by
  have hkind : tag.endKind.spanKind opening = (last.hit d.text).kind.spanKind
      ((first.hit d.text).kind == .openTagStart ||
        (passed.map (OffsetToken.hit d.text)).any (·.kind == .openTagName)) := by
    rw [show (last.hit d.text).kind = tag.endKind from congrArg Token.kind hs.token_last]
    rcases tag.endKind_cases with hend | hend | hend
    · rw [hend]
      rfl
    · rw [hend]
      rfl
    · have hside := tag.side_eq_of_closeTagEnd hend
      have hfirst : (first.hit d.text).kind = .closeTagStart := by
        show first.token.kind = _
        rw [hs.token_first, hside]
        rfl
      rw [hopening hside, any_openTagName_hits (isInner_passed hs) _ hside, hfirst]
      rfl
  rw [tagBetween, spanBetween, find?_hits, hname, hkind, ← hs.start_first, ← hs.stop_last]
  rfl

/-- From its start and its name a tag is completed as the scan does it. -/
lemma completeTag?_scanned {draft : TagDraft}
    (hname : passed.find? (·.token.kind.isName) = some name)
    (hstart : draft.start = d.text.positionOf tag.start)
    (hdraft : draft.name = some (name.hit d.text).range) (hstop : draft.stop = none)
    (hself : draft.selfClosing = false) (hconcise : draft.concise = false)
    (hopening : tag.side = .closing → draft.opening = false) :
    d.completeTag? draft = some (tagBetween d.text first passed last) := by
  rw [tagBetween_eq hs hname hopening]
  obtain ⟨hkind, before, behind, rfl, -⟩ := find?_eq_some_iff_append.1 hname
  have hsplit : tokensBetween ink 0 ink.length =
      (front ++ first :: before) ++ name :: (behind ++ last :: back) := by
    rw [hs.tokens_eq]
    simp only [append_assoc, cons_append]
  have hmem : name ∈ tokensBetween ink 0 ink.length := by
    rw [hsplit]
    exact mem_append_right _ mem_cons_self
  have hbounds := bounds_of_mem_tokensBetween hmem
  have htokens : d.tokensFrom (name.hit d.text).range.stop =
      behind.map (OffsetToken.hit d.text) ++ last.hit d.text :: back.map (OffsetToken.hit d.text) := by
    show d.tokensFrom (d.text.positionOf name.stop) = _
    rw [h.tokensFrom_positionOf hbounds.2.2.2, (tokensBetween_split hsplit).2.2, map_append,
      map_cons]
  have hlast : (last.hit d.text).kind = tag.endKind := congrArg Token.kind hs.token_last
  rw [completeTag?_of_tokensFrom hdraft hstop hself htokens
    (noBracket_hits (fun t ht => isInner_passed hs t
      (mem_append_right _ (mem_cons_of_mem _ ht))) _)
    (by rw [hlast]; exact tag.isEnd_endKind), hstart, hconcise, hlast, ← hs.stop_last]
  rfl

omit h in
/-- The first token behind the bracket in front of a tag is the name. -/
lemma exists_passed_eq (hname : passed.find? (·.token.kind.isName) = some name) :
    ∃ behind, passed = name :: behind := by
  obtain ⟨hkind, before, behind, rfl, hbefore⟩ := find?_eq_some_iff_append.1 hname
  cases before with
  | nil => exact ⟨behind, rfl⟩
  | cons t before =>
    -- what stands before the name would be an attribute, and those come later
    have hsplit : tokensBetween ink 0 ink.length =
        (front ++ [first]) ++ t :: (before ++ name :: behind ++ last :: back) := by
      rw [hs.tokens_eq]
      simp only [append_assoc, cons_append, nil_append]
    have hle := (stop_le_of_split hsplit).2 name (mem_append_left _
      (mem_append_right _ mem_cons_self))
    have hmem : t ∈ tokensBetween ink 0 ink.length := by
      rw [hsplit]
      exact mem_append_right _ mem_cons_self
    have hmem' : name ∈ tokensBetween ink 0 ink.length := by
      rw [hsplit]
      exact mem_append_right _ (mem_cons_of_mem _ (mem_append_left _
        (mem_append_right _ mem_cons_self)))
    have hbounds := bounds_of_mem_tokensBetween hmem
    have hbounds' := bounds_of_mem_tokensBetween hmem'
    have hother := hbefore t mem_cons_self
    rcases hs.passed_cases t mem_cons_self with ⟨htoken, -⟩ | ⟨-, hafter⟩
    · simp [htoken] at hother
    · rcases hs.passed_cases name (mem_append_right _ mem_cons_self) with ⟨-, hstop⟩ |
        ⟨htoken, -⟩
      · omega
      · rw [htoken] at hkind
        cases hkind

/-- From the bracket in front of it. -/
lemma completeTag?_tagFromStart {token : Token}
    (hname : passed.find? (·.token.kind.isName) = some name)
    (hx : ink[i]? = some (c, some token)) (hle : tag.start ≤ i) (hlt : i < tag.nameStart) :
    token.kind.isStart = true ∧ d.completeTag? (d.tagFromStart (d.text.positionOf i) token.kind) =
      some (tagBetween d.text first passed last) := by
  have hfront := tag.front_eq
  have hstop := tag.stop_eq_front
  have hnames := tag.nameStart_le_nameStop
  have htoken : token = ⟨tag.side.startKind, false⟩ := by
    rcases tag.token_cases hx hle (by omega) with ⟨-, htoken⟩ | ⟨hm, -⟩ | ⟨hm, -⟩ | ⟨hm, -⟩
    · exact htoken
    all_goals omega
  have hkind : token.kind.isStart = true := by
    rw [htoken]
    exact tag.side.isStart_startKind
  refine ⟨hkind, ?_⟩
  obtain ⟨a, side, hside, hbracket, hai, hlt', -, hposition, hright⟩ := h.exists_of_isStart hx hkind
  obtain rfl : side = tag.side := by
    rw [htoken] at hside
    revert hside
    cases side <;> cases tag.side <;> decide
  -- the bracket is that of the tag
  obtain rfl : a = tag.start := by
    rcases Nat.lt_trichotomy a tag.start with hcase | hcase | hcase
    · -- it would go on where the tag starts
      have hclosing : tag.side = .closing := by
        cases hside' : tag.side with
        | opening =>
          rw [hside'] at hlt'
          have : i < a + 1 := hlt'
          omega
        | closing => rfl
      rw [hclosing] at hbracket hlt'
      have : i < a + 2 := hlt'
      have hslash := h.getElem?_slash hbracket
      rw [show a + 1 = tag.start by omega, tag.getElem?_start] at hslash
      cases hslash
    · exact hcase
    · exact absurd rfl (tag.fst_ne_of_isStart hbracket hcase (by omega) rfl
        tag.side.isStart_startKind)
  have hwidth : (if token.kind == .openTagStart then 1 else 2) = tag.side.startInk.length := by
    rw [htoken]
    cases tag.side <;> rfl
  obtain ⟨behind, rfl⟩ := exists_passed_eq hs hname
  have hnameKind := find?_some hname
  have hbounds := bounds_of_mem_tokensBetween (between_of_split hs.tokens_eq).first_mem
  refine h.completeTag?_scanned hs hname hposition ?_ rfl rfl rfl fun hclosing => ?_
  · have htokens : d.tokensFrom (d.text.positionOf (tag.start + tag.side.startInk.length)) =
        (name :: (behind ++ last :: back)).map (OffsetToken.hit d.text) := by
      rw [show tag.start + tag.side.startInk.length = first.stop from hs.stop_first.symm,
        h.tokensFrom_positionOf hbounds.2.2.2, (tokensBetween_split hs.tokens_eq).2.2]
      rfl
    unfold tagFromStart
    dsimp only
    rw [hposition, hwidth, hright, htokens]
    exact if_pos hnameKind
  · show (token.kind == .openTagStart) = false
    rw [htoken, hclosing]
    rfl

omit hs in
omit h in
/-- The first bracket in front of a tag, and what is passed on the way to it. -/
lemma find?_isStart {passed rest : List TokenHit} {first : TokenHit}
    (hpassed : NoBracket passed) (hfirst : first.kind.isStart = true) :
    (passed ++ first :: rest).find? (·.kind.isStart) = some first ∧
      (passed ++ first :: rest).takeWhile (!·.kind.isStart) = passed := by
  have hothers : ∀ t ∈ passed, (!t.kind.isStart) = true := by
    intro t ht
    rw [(hpassed t ht).1]
    rfl
  refine ⟨find?_eq_some_iff_append.2 ⟨hfirst, passed, rest, rfl, hothers⟩, ?_⟩
  rw [takeWhile_append_of_pos hothers, takeWhile_cons_of_neg (by simp [hfirst]),
    append_nil]

/-- A search backwards for the start of the tag passes over its parts. -/
lemma exists_tokensBefore (hle : tag.nameStart ≤ i) (hlt : i < tag.stop) :
    ∃ (seen : List OffsetToken) (rest : List TokenHit), d.tokensBefore (d.text.positionOf i) =
        (seen.map (OffsetToken.hit d.text)).reverse ++ first.hit d.text :: rest ∧
      (first.hit d.text).kind.isStart = true ∧ (∀ t ∈ seen, t.IsInner tag.side) ∧
      (tag.nameStop ≤ i →
        seen.find? (·.token.kind.isName) = passed.find? (·.token.kind.isName)) := by
  have hlength := tag.stop_le_length
  obtain ⟨seen, hseen, hinner, hfind⟩ := h.exists_seen hs hle hlt
  refine ⟨seen, (front.map (OffsetToken.hit d.text)).reverse, ?_, ?_, hinner, hfind⟩
  · rw [h.tokensBefore_positionOf (by omega), hseen, map_append, map_cons,
      reverse_append, reverse_cons, append_assoc]
    rfl
  · show first.token.kind.isStart = true
    rw [hs.token_first]
    exact tag.side.isStart_startKind

/-- From its name. -/
lemma completeTag?_tagFromName {token : Token}
    (hname : passed.find? (·.token.kind.isName) = some name)
    (hx : ink[i]? = some (c, some token)) (hle : tag.nameStart ≤ i) (hlt : i < tag.nameStop) :
    token.kind.isName = true ∧ ∃ draft, d.tagFromName (d.text.positionOf i) token = .ok draft ∧
      d.completeTag? draft = some (tagBetween d.text first passed last) := by
  have hfront := tag.front_eq
  have hstop := tag.stop_eq_front
  have hstart := tag.start_lt_nameStart
  obtain rfl : token = ⟨tag.side.nameKind, false⟩ := by
    rcases tag.token_cases hx (by omega) (by omega) with ⟨hm, -⟩ | ⟨-, -, htoken⟩ | ⟨hm, -⟩ | ⟨hm, -⟩
    · omega
    · exact htoken
    all_goals omega
  refine ⟨tag.side.isName_nameKind, ?_⟩
  obtain ⟨seen, rest, htokens, hfirst, hinner, -⟩ := h.exists_tokensBefore hs hle (by omega)
  -- back to the bracket in front, and from there on to the first name
  have hbefore := (@find?_isStart _ rest _ (noBracket_hits hinner d.text).reverse hfirst).1
  rw [← htokens] at hbefore
  have hbounds := bounds_of_mem_tokensBetween (between_of_split hs.tokens_eq).first_mem
  have hfrom : (d.tokensFrom (first.hit d.text).range.start).find? (·.kind.isName) =
      some (name.hit d.text) := by
    have hother : (first.hit d.text).kind.isName = false := by
      show first.token.kind.isName = false
      rw [hs.token_first]
      exact tag.side.isName_startKind
    show (d.tokensFrom (d.text.positionOf first.start)).find? _ = _
    rw [h.tokensFrom_positionOf (by omega), (tokensBetween_split hs.tokens_eq).2.1, map_cons,
      find?_cons, hother, map_append, find?_append, find?_hits, hname]
    rfl
  refine ⟨{ start := (first.hit d.text).range.start, name := some (name.hit d.text).range
            opening := (name.hit d.text).kind == .openTagName }, ?_, ?_⟩
  · unfold tagFromName
    rw [if_neg Bool.false_ne_true, hbefore]
    dsimp only
    rw [hfrom]
  · have hmem := mem_of_find?_eq_some hname
    refine h.completeTag?_scanned hs hname ?_ rfl rfl rfl rfl fun hclosing => ?_
    · show d.text.positionOf first.start = _
      rw [hs.start_first]
    · show (name.token.kind == .openTagName) = false
      rcases isInner_passed hs name hmem with htoken | htoken
      · rw [htoken, hclosing]
        rfl
      · rw [htoken]
        rfl

/-- From a place behind its name, be it an attribute or not. -/
lemma exists_walkBack (row : Nat) (hname : passed.find? (·.token.kind.isName) = some name)
    (hle : tag.nameStop ≤ i) (hlt : i < tag.stop) :
    ∃ draft, walkBack row none false (d.tokensBefore (d.text.positionOf i)) = .start draft ∧
      d.completeTag? draft = some (tagBetween d.text first passed last) := by
  have hnames := tag.nameStart_le_nameStop
  obtain ⟨seen, rest, htokens, hfirst, hinner, hfind⟩ := h.exists_tokensBefore hs (by omega) hlt
  refine ⟨{ start := d.text.positionOf tag.start, name := some (name.hit d.text).range
            opening := (seen.map (OffsetToken.hit d.text)).any (·.kind == .openTagName) ||
              first.token.kind == .openTagStart }, ?_, ?_⟩
  · rw [htokens, walkBack_noBracket (noBracket_hits hinner _) (concise_hits hinner _),
      walkBack_isStart hfirst, find?_hits, hfind hle, hname, Bool.false_or, ← hs.start_first]
    rfl
  · refine h.completeTag?_scanned hs hname rfl rfl rfl rfl rfl fun hside => ?_
    show (_ || _) = false
    rw [any_openTagName_hits hinner _ hside, hs.token_first, hside]
    rfl

/-- From the bracket behind it. -/
lemma completeTag?_tagFromEnd {token : Token}
    (hname : passed.find? (·.token.kind.isName) = some name)
    (hx : ink[i]? = some (c, some token)) (hle : tag.front.length ≤ i) (hlt : i < tag.stop) :
    token.kind.isEnd = true ∧ ∃ draft, d.tagFromEnd (d.text.positionOf i) token.kind = .ok draft ∧
      d.completeTag? draft = some (tagBetween d.text first passed last) := by
  have hfront := tag.front_eq
  have hstop := tag.stop_eq_front
  have hstart := tag.start_lt_nameStart
  have hnames := tag.nameStart_le_nameStop
  obtain ⟨rfl, hwidth⟩ : token = ⟨tag.endKind, false⟩ ∧
      i + (if c = '/' then 2 else 1) = tag.stop := by
    rcases tag.getElem?_cases hx (by omega) hlt with ⟨hm, -⟩ | ⟨-, hm, -⟩ | ⟨-, hm, -⟩ | ⟨-, hend⟩
    · omega
    · omega
    · omega
    · have := TokenKind.add_width_endInk hend
      exact ⟨Option.some.inj (TokenKind.mem_endInk (mem_of_getElem? hend)).2, by omega⟩
  have hend := tag.isEnd_endKind
  refine ⟨hend, ?_⟩
  -- a bracket of two characters ends behind its second one, wherever it is met
  obtain ⟨hchar, hposition⟩ := h.positionOf_width hx hend
  obtain ⟨seen, rest, htokens, hfirst, hinner, hfind⟩ := h.exists_tokensBefore hs (by omega) hlt
  obtain ⟨hbefore, hinside⟩ :=
    @find?_isStart _ rest _ (noBracket_hits hinner d.text).reverse hfirst
  rw [← htokens] at hbefore hinside
  refine ⟨{ start := d.text.positionOf tag.start, name := some (name.hit d.text).range
            stop := some (d.text.positionOf tag.stop), opening := tag.endKind != .closeTagEnd
            selfClosing := tag.endKind == .selfClosingEnd }, ?_, ?_⟩
  · unfold tagFromEnd
    dsimp only
    rw [hbefore, hinside, reverse_reverse, find?_hits, hfind (by omega), hname, hchar,
      ← hwidth, hposition, ← hs.start_first]
    simp only [Option.some.injEq]
    rfl
  · rw [tagBetween_eq hs hname fun _ => rfl, TokenKind.spanKind_of_isEnd hend]
    rfl

/-- A tag with a name that is scanned is found from each place in it. -/
lemma tagAt_of_scanned {p : Position} (hname : passed.find? (·.token.kind.isName) ≠ none)
    (hp : d.probe p = d.text.positionOf i) (hle : tag.start ≤ i) (hlt : i < tag.stop)
    (hsome : ∀ token, d.tokenAt? (d.text.positionOf i) = some token →
      ∃ c, c ≠ '\n' ∧ ink[i]? = some (c, some token)) :
    d.tagAt p = .ok (some (tagBetween d.text first passed last)) := by
  obtain ⟨name, hname⟩ := Option.ne_none_iff_exists'.1 hname
  have hlength := tag.stop_le_length
  have hnames := tag.nameStart_le_nameStop
  obtain ⟨⟨c, part⟩, hx⟩ : ∃ x, ink[i]? = some x := ⟨_, getElem?_eq_getElem (by omega)⟩
  have hpart : ∀ {token}, part = some token → c ≠ '\n' → d.tokenAt? (d.probe p) = some token := by
    rintro token rfl hc
    rw [hp]
    exact h.tokenAt?_eq hx hc
  -- the search sets out from the part of the tag that stands at the place
  rcases tag.getElem?_cases hx hle hlt with ⟨hm, hmem⟩ | ⟨hm, hm', hmem⟩ | ⟨hm, hm', -⟩ | ⟨hm, hmem⟩
  · obtain ⟨token, rfl, hc⟩ : ∃ token, part = some token ∧ c ≠ '\n' := by
      revert hmem
      cases tag.side <;> simp +contextual [Lexer.Side.startInk, or_imp]
    obtain ⟨hkind, hcomplete⟩ := h.completeTag?_tagFromStart hs hname hx hle hm
    have hothers : token.kind.isEnd = false := by
      revert hkind
      cases token.kind <;> decide
    rw [tagAt_eq_of_some (hpart rfl hc), hothers, hkind, hp]
    exact congrArg Except.ok hcomplete
  · obtain ⟨hc, htoken⟩ := tag.isNameInk _ hmem
    dsimp only at htoken
    subst htoken
    obtain ⟨hkind, draft, hdraft, hcomplete⟩ := h.completeTag?_tagFromName hs hname hx hm hm'
    rw [tagAt_eq_of_some (hpart rfl (Lexer.isTagChar_ne hc (by decide))), if_neg (by simp),
      if_neg (by simp), if_pos hkind, hp, hdraft]
    exact congrArg Except.ok hcomplete
  · -- behind the name: from an attribute, or from where there is no token
    obtain ⟨draft, hwalk, hcomplete⟩ :=
      h.exists_walkBack hs (d.text.positionOf i).row hname hm hlt
    cases htoken : d.tokenAt? (d.text.positionOf i) with
    | none =>
      have hgap : d.tagFromGap? (d.text.positionOf i) = some draft := by
        rw [tagFromGap?, hwalk]
      simp only [tagAt, hp, htoken, hgap, Option.bind_some, hcomplete]
    | some token =>
      obtain ⟨c', -, hx'⟩ := hsome token htoken
      obtain rfl : token = ⟨.attributeName, false⟩ := by
        rcases tag.token_cases hx' hle hlt with ⟨hm, -⟩ | ⟨-, hm, -⟩ | ⟨-, -, htoken⟩ | ⟨hm, -⟩
        · omega
        · omega
        · exact htoken
        · omega
      have hattribute : d.tagFromAttribute (d.text.positionOf i) = .ok draft := by
        rw [tagFromAttribute, hwalk]
      rw [← hp] at htoken
      rw [tagAt_eq_of_some htoken, hp]
      show (d.tagFromAttribute _).map _ = _
      rw [hattribute]
      exact congrArg Except.ok hcomplete
  · obtain ⟨hc, htoken⟩ := TokenKind.mem_endInk (mem_of_getElem? hmem)
    dsimp only at hc htoken
    subst htoken
    obtain ⟨hkind, draft, hdraft, hcomplete⟩ := h.completeTag?_tagFromEnd hs hname hx hm hlt
    rw [tagAt_eq_of_some (hpart rfl (by rcases hc with rfl | rfl <;> decide)), if_pos hkind, hp,
      hdraft]
    exact congrArg Except.ok hcomplete

end Document.Drawn

namespace Document

namespace Drawn

variable {d : Document} {ink : List InkedChar} (h : d.Drawn ink)

include h

lemma probe_of_ne {o : Nat} (ho : ink[o]? = some x) (hx : x.1 ≠ '\n') :
    d.probe (d.text.positionOf o) = d.text.positionOf o := by
  have hcolumn := Text.column_lt_lineLength h.onlyLineFeeds (h.getElem?_text ho) hx
  unfold probe
  dsimp only
  rw [if_neg (by omega)]

/-- A caret in a stretch of text that does not start with a line feed is looked up in it. -/
lemma exists_probe_within {a b o : Nat} (ha : ink[a]? = some x) (hx : x.1 ≠ '\n')
    (hle : a ≤ o) (hlt : o < b) (hb : b ≤ ink.length) :
    ∃ i, d.probe (d.text.positionOf o) = d.text.positionOf i ∧ a ≤ i ∧ i < b ∧
      ∀ token, d.tokenAt? (d.text.positionOf i) = some token →
        ∃ c, c ≠ '\n' ∧ ink[i]? = some (c, some token) := by
  have hlength := h.length_eq
  obtain ⟨i, hi, hprobe, hio, -, hsome, -⟩ := h.exists_probe (o := o) (by omega)
  refine ⟨i, hprobe, ?_, by omega, hsome⟩
  by_contra hcase
  obtain rfl : a = o := by omega
  rw [h.probe_of_ne ha hx] at hprobe
  have := Text.positionOf_inj h.onlyLineFeeds (by omega) (by omega) hprobe
  omega

/-- The tokens of a tag that a scan of the text finds. -/
lemma exists_scanned {s : TagSpan} (hs : s ∈ d.tagsFrom .origin) :
    ∃ (tag : InkedTag ink) (front : List OffsetToken) (first : OffsetToken)
      (passed : List OffsetToken) (last : OffsetToken) (back : List OffsetToken),
      tag.Scanned front first passed last back ∧ s = tagBetween d.text first passed last ∧
        s.range = d.text.rangeOf tag.start tag.stop := by
  rw [← Text.positionOf_zero h.onlyLineFeeds] at hs
  obtain ⟨before, behind, htags⟩ := append_of_mem hs
  obtain ⟨front, first, passed, last, back, hsplit, hfirst, hpassed, hlast, hspan, hrange, -⟩ :=
    h.exists_tokens_of_tagsFrom (Nat.zero_le _) htags
  have hbetween := between_of_split hsplit
  have hbounds := bounds_of_mem_tokensBetween hbetween.first_mem
  have hbounds' := bounds_of_mem_tokensBetween hbetween.last_mem
  have horder := hbetween.first_le
  obtain ⟨side, -, hbracket⟩ := h.getElem?_of_isStart hbetween.first_mem hfirst
  obtain ⟨c, hx, hstop⟩ := h.stop_of_isEnd hbetween.last_mem hlast
  -- no tag starts between the brackets
  have hno : ∀ m token, first.start < m → m < last.start → ink[m]? = some ('<', some token) →
      token.kind.isStart = false := by
    intro m token hm hm' hx'
    obtain ⟨t, ht, rfl, rfl⟩ :=
      exists_start_tokensBetween hx' (Nat.zero_le _) (j := ink.length) (by omega)
    exact (hpassed _ (mem_map_of_mem (hbetween.mem_passed t ht hm hm'))).1
  obtain ⟨tag, hstart, -, -, htag⟩ := h.exists_inkedTag hbracket (by omega) hx rfl hlast hno
  have hstop' : last.stop = tag.stop := hstop.trans htag
  exact ⟨tag, front, first, passed, last, back, h.scanned tag hsplit hstart.symm hstop' hlast, hspan,
    by rw [hrange, hstart, hstop']⟩

end Drawn

/-- **The tags scanned are found.** In every text whose rows end in line feeds, a tag with a name that
a scan of the text finds is found from each position in it. -/
theorem tagAt_of_mem_tagsFrom (d : Document) (honly : d.text.OnlyLineFeeds)
    (hscopes : d.scopes = d.grammar.tokenize d.text) (s : TagSpan) (hs : s ∈ d.tagsFrom .origin)
    (hname : s.nameRange ≠ none) (p : Position) (hp : d.text.clip p = p)
    (hle : s.range.start ≤ p) (hlt : p < s.range.stop) : d.tagAt p = .ok (some s) := by
  obtain ⟨ink, h⟩ := exists_drawn honly hscopes
  obtain ⟨tag, front, first, passed, last, back, hscanned, rfl, hrange⟩ := h.exists_scanned hs
  have hlength := h.length_eq
  have hstop := tag.stop_le_length
  -- the position as an offset
  obtain ⟨o, ho, rfl⟩ : ∃ o ≤ d.text.length, p = d.text.positionOf o :=
    ⟨d.text.offsetOf p, d.text.offsetOf_le_length p, by rw [Text.positionOf_offsetOf honly, hp]⟩
  have hstart := tag.start_lt_length_front
  have hfront := tag.stop_eq_front
  rw [hrange] at hle hlt
  have hle := (Text.positionOf_le_iff honly (by omega) ho).1 hle
  have hlt := (Text.positionOf_lt_iff honly ho (by omega)).1 hlt
  obtain ⟨i, hprobe, hi, hi', hsome⟩ :=
    h.exists_probe_within tag.getElem?_start (show '<' ≠ '\n' by decide) hle hlt hstop
  exact h.tagAt_of_scanned hscanned (find?_ne_none_of_nameRange hname) hprobe hi hi' hsome

/-- Between tags that nothing closes, `p` is found from the empty row inside its string. -/
theorem tagAt_of_mem_tagsFrom_sampleTangled :
    let d := Document.ofText .marko "</i\n<p a=\"<b>\n\n</p>\"><u".toList
    let p : TagSpan := ⟨.opening, ⟨⟨1, 0⟩, ⟨3, 6⟩⟩, some ⟨⟨1, 1⟩, ⟨1, 2⟩⟩, false⟩
    d.text.OnlyLineFeeds ∧ d.scopes = d.grammar.tokenize d.text ∧ p ∈ d.tagsFrom .origin ∧
      p.nameRange ≠ none ∧ d.text.clip ⟨2, 0⟩ = ⟨2, 0⟩ ∧ p.range.start ≤ ⟨2, 0⟩ ∧
      ⟨2, 0⟩ < p.range.stop ∧ d.tagAt ⟨2, 0⟩ = .ok (some p) := by
  intro d p
  have honly : d.text.OnlyLineFeeds := by decide
  have hp : p ∈ d.tagsFrom .origin := by decide +kernel
  have hclip : d.text.clip ⟨2, 0⟩ = ⟨2, 0⟩ := by decide +kernel
  have hle : p.range.start ≤ ⟨2, 0⟩ := by decide
  have hlt : ⟨2, 0⟩ < p.range.stop := by decide
  exact ⟨honly, rfl, hp, by decide, hclip, hle, hlt,
    tagAt_of_mem_tagsFrom d honly rfl p hp (by decide) ⟨2, 0⟩ hclip hle hlt⟩

end Document

end TemplateEditing
