import TemplateEditing.Proofs.Grammar.Labels
import TemplateEditing.Proofs.Tag.Tokens

/-!
# The parts of tags in a text

Of the label of a character only the part of a tag it stands for matters to whoever looks for tags
(`partOf`). What the lexer makes of a text is followed here one construct at a time, each with any
text behind it: the parts it gives to the characters, and the state it is in then (`Inks`).
The constructs are content (`inks_plain`, `inks_comment`), brackets and names (`inks_openTag`,
`inks_closeTag`, `inks_openTagEnd`, `inks_closeTagEnd`, `inks_selfClosingEnd`) and what stands in a
tag (`inks_gap`, `inks_attributeName`, `inks_value`). They may go over several rows, as long as the
lexer does not look for a tag without brackets at the start of a row (`Stays`).
-/

namespace TemplateEditing.Lexer

open List

variable {c : Char}

/-- The part of a tag that a label stands for. -/
def partOf (label : ScopeChain) : Option Token := ScopeChain.token? (label ++ [Scope.marko])

open Scope in
/-- The part of a tag that each scope of the lexer stands for. -/
@[simp] lemma token?_scopes :
    (token? marko = none ∧ token? metaTagOpen = none ∧ token? metaTagClose = none ∧
      token? metaTagConcise = none ∧ token? keyValue = none ∧ token? stringBegin = none ∧
      token? stringEnd = none ∧ token? stringDouble = none ∧ token? stringSingle = none ∧
      token? sourceScript = none ∧ token? sourceStyle = none ∧ token? commentBlock = none ∧
      token? commentLine = none) ∧
    token? tagBeginOpen = some { kind := .openTagStart } ∧
    token? tagBeginClose = some { kind := .closeTagStart } ∧
    token? tagEndOpen = some { kind := .openTagEnd } ∧
    token? tagEndClose = some { kind := .closeTagEnd } ∧
    token? tagEndSelfClose = some { kind := .selfClosingEnd } ∧
    token? tagName = some { kind := .openTagName } ∧
    token? tagNameClose = some { kind := .closeTagName } ∧
    token? tagNameConcise = some { kind := .openTagName, concise := true } ∧
    token? attributeName = some { kind := .attributeName } := by
  -- one evaluation for all of them: each alone takes the names apart again
  decide +kernel

/-- The scope of a tag as a whole names no part of it. -/
@[simp] lemma token?_scope (tag : TagState) : Scope.token? tag.scope = none := by
  unfold TagState.scope
  split
  · simp
  · cases tag.side with
    | opening => simp
    | closing => simp

@[simp] lemma token?_stringScope (quote : Char) : Scope.token? (stringScope quote) = none := by
  unfold stringScope
  split <;> simp

lemma partOf_eq (label : ScopeChain) : partOf label = label.findSome? Scope.token? := by
  simp [partOf, ScopeChain.token?, findSome?_append]

lemma partOf_nil : partOf [] = none := partOf_eq []

/-- From a state the lexer reads an inked text, with `t` behind it, and is in another state then. -/
def Inks (s : State) (ink : List InkedChar) (s' : State) (t : Text) : Prop :=
  ∃ labels, labels.map partOf = ink.map Prod.snd ∧ paint s (textOf ink ++ t) = labels ++ paint s' t

section
variable {s s' s'' : State} {a b : List InkedChar} {t : Text}

lemma Inks.refl (s : State) (t : Text) : Inks s [] s t := ⟨[], rfl, rfl⟩

/-- Stretches that follow each other are inked one by one. -/
lemma Inks.trans (ha : Inks s a s' (textOf b ++ t)) (hb : Inks s' b s'' t) :
    Inks s (a ++ b) s'' t := by
  obtain ⟨la, hla, ha⟩ := ha
  obtain ⟨lb, hlb, hb⟩ := hb
  refine ⟨la ++ lb, by rw [map_append, map_append, hla, hlb], ?_⟩
  rw [textOf_append, append_assoc, ha, hb, append_assoc]

/-- A text with one label. -/
lemma inks_replicate {a : Text} {label : ScopeChain} {part : Option Token}
    (h : paint s (a ++ t) = List.replicate a.length label ++ paint s' t)
    (hpart : partOf label = part) : Inks s (a.ink part) s' t := by
  refine ⟨List.replicate a.length label, ?_, by rw [textOf_ink, h]⟩
  rw [map_snd_ink, map_replicate, hpart]

/-- A character painted with a label is inked with its part. -/
lemma inks_cons {label : ScopeChain} {part : Option Token}
    (h : paint s (c :: t) = label :: paint s' t) (hpart : partOf label = part) :
    Inks s [(c, part)] s' t := ⟨[label], congrArg (fun part => [part]) hpart, h⟩

end

/-! ## Line feeds -/

/-- A row that ends in this state leaves it, and the next one goes on in it. -/
def Stays (s : State) : Prop := endRow s = s ∧ ¬ (s.mode = .content ∧ s.depth = 0)

lemma stays_content {depth : Nat} (h : 0 < depth) : Stays ⟨.content, depth⟩ :=
  ⟨rfl, fun h' => absurd h'.2 (Nat.pos_iff_ne_zero.1 h)⟩

lemma stays_comment (depth : Nat) : Stays ⟨.comment, depth⟩ := ⟨rfl, fun h => nomatch h.1⟩

lemma stays_tag {tag : TagState} (h : tag.concise = false) (depth : Nat) :
    Stays ⟨.tag tag, depth⟩ := by
  refine ⟨?_, fun h' => nomatch h'.1⟩
  simp [endRow, h]

lemma stays_string (quote : Char) {tag : TagState} (h : tag.concise = false) (depth : Nat) :
    Stays ⟨.string quote tag, depth⟩ := by
  refine ⟨?_, fun h' => nomatch h'.1⟩
  simp [endRow, h]

/-- Where rows are not told apart, a line feed changes nothing. -/
lemma Stays.paint_lineFeed {s : State} (hs : Stays s) (t : Text) :
    paint s ('\n' :: t) = [] :: paint s t := by
  rw [Lexer.paint_lineFeed, hs.1, paintRows_eq_paint hs.2]

/-- Characters without a part, one after the other, over any number of rows. -/
lemma inks_forall {s : State} (hs : Stays s) {a : Text}
    (h : ∀ c ∈ a, c ≠ '\n' → ∀ t, Inks s [(c, none)] s t) (t : Text) : Inks s (a.ink none) s t := by
  induction a with
  | nil => exact .refl s t
  | cons c a ih =>
    have hrest := ih fun d hd => h d (mem_cons_of_mem c hd)
    by_cases hc : c = '\n'
    · subst hc
      exact (inks_cons (hs.paint_lineFeed _) partOf_nil).trans hrest
    · exact (h c mem_cons_self hc _).trans hrest

/-- A step that takes all characters of a class. -/
lemma inks_run {s : State} {p : Char → Bool} {label : ScopeChain}
    (hstep : ∀ c rest, p c = true →
      step s c rest = ⟨[⟨c :: rest.takeWhile p, label⟩], s, rest.dropWhile p⟩)
    {part : Option Token} (hpart : partOf label = part) {a : Text}
    (ha : ∀ c ∈ a, p c = true ∧ c ≠ '\n') (t : Text) : Inks s (a.ink part) s t :=
  inks_replicate (paint_run hstep ha t) hpart

/-! ## Content -/

/-- A character of plain text. -/
def isPlain (c : Char) : Bool := !(c == '<' || c == '$')

/-- Plain content is read up to its end. -/
lemma contentStep_plain (s : State) (h : isPlain c = true) (rest : Text) :
    contentStep s c rest = ⟨[⟨c :: rest.takeWhile isPlain, []⟩], s, rest.dropWhile isPlain⟩ := by
  have hlt : (c == '<') = false := by
    simp only [isPlain, Bool.not_eq_true', Bool.or_eq_false_iff] at h
    exact h.1
  have hdollar : (c == '$') = false := by
    simp only [isPlain, Bool.not_eq_true', Bool.or_eq_false_iff] at h
    exact h.2
  have hcomment : "<!--".toList.isPrefixOf (c :: rest) = false := by
    show ('<' == c && _) = false
    rw [Bool.beq_comm, hlt]
    rfl
  unfold contentStep
  simp only [hcomment, hlt, hdollar, Bool.false_and, Bool.false_eq_true, if_false]
  rfl

lemma isPlain_of_mem {a : Text} (hlt : '<' ∉ a) (hdollar : '$' ∉ a) (hc : c ∈ a) :
    isPlain c = true := by
  have h1 : c ≠ '<' := by
    rintro rfl
    exact hlt hc
  have h2 : c ≠ '$' := by
    rintro rfl
    exact hdollar hc
  simp [isPlain, h1, h2]

/-- Text without brackets and dollar signs has no parts. -/
lemma inks_plain {depth : Nat} (hdepth : 0 < depth) {a : Text} (hlt : '<' ∉ a) (hdollar : '$' ∉ a)
    (t : Text) : Inks ⟨.content, depth⟩ (a.ink none) ⟨.content, depth⟩ t := by
  apply inks_forall (stays_content hdepth)
  intro c hc hn t
  apply inks_run (s := ⟨.content, depth⟩) (p := isPlain) (a := [c])
    (fun c rest h => contentStep_plain _ h rest) partOf_nil
  simp [isPlain_of_mem hlt hdollar hc, hn]

/-! ## Comments -/

lemma partOf_comment : partOf [Scope.commentBlock] = none := by simp [partOf_eq]

lemma commentEnd_toList : "-->".toList = ['-', '-', '>'] := by decide

/-- A comment goes up to its end, or to the end of the row and on below. -/
lemma paint_comment_row (depth : Nat) {row below : Text} (hrow : '\n' ∉ row)
    (hbelow : below.EndsRow) :
    paint ⟨.comment, depth⟩ (row ++ below) =
      match cutAt? ['-', '-', '>'] row with
      | some (before, found) =>
        List.replicate (before.length + 3) [Scope.commentBlock] ++
          paint ⟨.content, depth⟩ (found.drop 3 ++ below)
      | none =>
        List.replicate row.length [Scope.commentBlock] ++ paint ⟨.comment, depth⟩ below := by
  cases row with
  | nil => rfl
  | cons c row =>
    rw [mem_cons, not_or] at hrow
    -- one step takes all that is in this row
    rw [cons_append, paint_step _ (Ne.symm hrow.1) hrow.2 hbelow]
    simp only [step, commentStep, commentEnd_toList]
    cases hcut : cutAt? ['-', '-', '>'] (c :: row) with
    | none => simp only [Piece.labels_cons, Piece.labels_nil, append_nil, nil_append]
    | some cut =>
      obtain ⟨before, found⟩ := cut
      obtain ⟨rest, hfound⟩ := List.isPrefixOf_iff_prefix.1 (cutAt?_eq hcut).2
      have hlength : (before ++ found.take 3).length = before.length + 3 := by
        rw [← hfound, length_append]
        rfl
      simp only [Piece.labels_cons, Piece.labels_nil, append_nil, hlength]
      rfl

/-- A character that does not start the end of a comment is part of it. -/
lemma paint_comment_cons (depth : Nat) (hc : c ≠ '\n') {t : Text}
    (h : ¬ ['-', '-', '>'] <+: c :: t) :
    paint ⟨.comment, depth⟩ (c :: t) = [Scope.commentBlock] :: paint ⟨.comment, depth⟩ t := by
  obtain ⟨row, below, hrow, hbelow, rfl⟩ := t.exists_row_append
  have hcons : '\n' ∉ c :: row := by
    rw [mem_cons, not_or]
    exact ⟨Ne.symm hc, hrow⟩
  -- the end could only start here in the row if it did in the text
  have hprefix : (['-', '-', '>'].isPrefixOf (c :: row)) = false := by
    rw [Bool.eq_false_iff, ne_eq, List.isPrefixOf_iff_prefix]
    exact fun hp => h (hp.trans ⟨below, rfl⟩)
  have hstep := paint_comment_row depth hcons hbelow
  rw [cutAt?, if_neg (Bool.eq_false_iff.1 hprefix), cons_append] at hstep
  rw [hstep, paint_comment_row depth hrow hbelow]
  cases cutAt? ['-', '-', '>'] row with
  | none => rfl
  | some cut => rfl

/-- The end of a comment belongs to it. -/
lemma paint_comment_end (depth : Nat) (t : Text) :
    paint ⟨.comment, depth⟩ (['-', '-', '>'] ++ t) =
      List.replicate 3 [Scope.commentBlock] ++ paint ⟨.content, depth⟩ t := by
  obtain ⟨row, below, hrow, hbelow, rfl⟩ := t.exists_row_append
  have hend : '\n' ∉ ['-', '-', '>'] ++ row := by
    rw [mem_append, not_or]
    exact ⟨by decide, hrow⟩
  rw [← append_assoc, paint_comment_row depth hend hbelow]
  rfl

/-- The start of a comment belongs to it. -/
lemma paint_comment_start (depth : Nat) (t : Text) :
    paint ⟨.content, depth⟩ (['<', '!', '-', '-'] ++ t) =
      List.replicate 4 [Scope.commentBlock] ++ paint ⟨.comment, depth⟩ t := by
  obtain ⟨row, below, hrow, hbelow, rfl⟩ := t.exists_row_append
  have hrest : '\n' ∉ ['!', '-', '-'] ++ row := by
    rw [mem_append, not_or]
    exact ⟨by decide, hrow⟩
  rw [← append_assoc]
  exact paint_step ⟨.content, depth⟩ (show '<' ≠ '\n' by decide) hrest hbelow

/-- The mark at the end of a comment cannot start inside of a body that does not hold it. -/
lemma commentEnd_not_leading {body : Text} (h : ¬ ['-', '-', '>'] <:+: c :: body)
    (t : Text) : ¬ ['-', '-', '>'] <+: c :: (body ++ (['-', '-', '>'] ++ t)) := by
  intro hp
  -- with less than two characters of the body, the mark would run into the one behind the body
  match body with
  | [] =>
    obtain ⟨rest, hrest⟩ := hp
    simp at hrest
  | [d] =>
    obtain ⟨rest, hrest⟩ := hp
    simp at hrest
  | d :: e :: body =>
    apply h
    obtain ⟨rest, hrest⟩ := hp
    obtain ⟨rfl, rfl, rfl, -⟩ : '-' = c ∧ '-' = d ∧ '>' = e ∧ _ := by simpa using hrest
    exact List.IsPrefix.isInfix ⟨body, rfl⟩

/-- A comment has no parts. -/
lemma inks_comment {depth : Nat} {body : Text} (h : ¬ ['-', '-', '>'] <:+: body) (t : Text) :
    Inks ⟨.content, depth⟩ (Text.ink (['<', '!', '-', '-'] ++ body ++ ['-', '-', '>']) none)
      ⟨.content, depth⟩ t := by
  have hstart : ∀ t, Inks ⟨.content, depth⟩ (Text.ink ['<', '!', '-', '-'] none)
      ⟨.comment, depth⟩ t := fun t => inks_replicate (paint_comment_start depth t) partOf_comment
  have hend : Inks ⟨.comment, depth⟩ (Text.ink ['-', '-', '>'] none) ⟨.content, depth⟩ t :=
    inks_replicate (paint_comment_end depth t) partOf_comment
  have hbody : Inks ⟨.comment, depth⟩ (body.ink none) ⟨.comment, depth⟩ (['-', '-', '>'] ++ t) := by
    induction body with
    | nil => exact .refl _ _
    | cons c body ih =>
      have hrest := ih fun hi => h (hi.trans (suffix_cons c body).isInfix)
      by_cases hc : c = '\n'
      · subst hc
        exact (inks_cons ((stays_comment depth).paint_lineFeed _) partOf_nil).trans hrest
      · have hcons := paint_comment_cons depth hc (commentEnd_not_leading h t)
        rw [← textOf_ink body none] at hcons
        exact (inks_cons hcons partOf_comment).trans hrest
  rw [ink_append, ink_append]
  exact ((hstart _).trans hbody).trans hend

/-! ## Brackets and names -/

lemma takeWhile_dropWhile_append {p : Char → Bool} {a b : Text} (ha : ∀ c ∈ a, p c = true)
    (hb : ∀ c ∈ b.head?, p c = false) :
    (a ++ b).takeWhile p = a ∧ (a ++ b).dropWhile p = b := by
  rw [takeWhile_append_of_pos ha, dropWhile_append_of_pos ha]
  cases b with
  | nil => exact ⟨append_nil a, rfl⟩
  | cons c b =>
    have hc : ¬ p c = true := by
      rw [hb c rfl]
      exact Bool.false_ne_true
    rw [takeWhile_cons_of_neg hc, dropWhile_cons_of_neg hc]
    exact ⟨append_nil a, rfl⟩

lemma isNameStart_ne {c d : Char} (h : isNameStart c = true) (hd : isNameStart d = false) :
    (c == d) = false := by
  rw [beq_eq_false_iff_ne]
  rintro rfl
  rw [h] at hd
  exact Bool.noConfusion hd

/-- An opening tag is read with its name. -/
lemma contentStep_openTag (s : State) (hc : isNameStart c = true) (rest : Text) :
    contentStep s '<' (c :: rest) =
      ⟨[⟨['<'], [Scope.tagBeginOpen, Scope.metaTagOpen]⟩,
          ⟨(c :: rest).takeWhile isTagChar, [Scope.tagName, Scope.metaTagOpen]⟩],
        ⟨.tag ⟨.opening, false, bodyOf ((c :: rest).takeWhile isTagChar)⟩, s.depth⟩,
        (c :: rest).dropWhile isTagChar⟩ := by
  have hcomment : "<!--".toList.isPrefixOf ('<' :: c :: rest) = false := by
    show ('<' == '<' && ('!' == c && _)) = false
    rw [Bool.beq_comm (a := '!'), isNameStart_ne hc (by decide)]
    rfl
  have hslash : (some c == some '/') = false := isNameStart_ne hc (by decide)
  have hname : (some c).any isNameStart = true := hc
  unfold contentStep
  simp only [hcomment, hslash, hname, head?_cons, beq_self_eq_true, Bool.true_and,
    Bool.false_and, Bool.and_false, Bool.false_eq_true, if_false, if_true]
  rfl

/-- A closing tag is read with its name. -/
lemma contentStep_closeTag (s : State) (hc : isNameStart c = true) (rest : Text) :
    contentStep s '<' ('/' :: c :: rest) =
      ⟨[⟨['<', '/'], [Scope.tagBeginClose, Scope.metaTagClose]⟩,
          ⟨(c :: rest).takeWhile isTagChar, [Scope.tagNameClose, Scope.metaTagClose]⟩],
        ⟨.tag ⟨.closing, false, .nested⟩, s.depth⟩, (c :: rest).dropWhile isTagChar⟩ := by
  have hcomment : "<!--".toList.isPrefixOf ('<' :: '/' :: c :: rest) = false := rfl
  have hname : (some c).any isNameStart = true := hc
  unfold contentStep
  simp only [hcomment, hname, head?_cons, tail_cons, beq_self_eq_true, Bool.true_and,
    Bool.and_true, Bool.false_eq_true, if_false, if_true]
  rfl

section
variable {c : Char} {name t : Text} (hc : isNameStart c = true)
  (hname : ∀ d ∈ c :: name, isTagChar d = true ∧ d ≠ '\n')
  (ht : ∀ d ∈ t.head?, isTagChar d = false)

include hname ht

/-- The rest of a row that begins with a name, cut behind the name. -/
lemma exists_row_append_name :
    ∃ row below, t = row ++ below ∧ '\n' ∉ c :: (name ++ row) ∧ below.EndsRow ∧
      (c :: (name ++ row)).takeWhile isTagChar = c :: name ∧
      (c :: (name ++ row)).dropWhile isTagChar = row := by
  obtain ⟨row, below, hrow, hbelow, rfl⟩ := t.exists_row_append
  have hstop : ∀ d ∈ row.head?, isTagChar d = false := by
    intro d hd
    apply ht d
    rw [head?_append, hd]
    rfl
  refine ⟨row, below, rfl, ?_, hbelow,
    takeWhile_dropWhile_append (fun d hd => (hname d hd).1) hstop⟩
  rw [← cons_append, mem_append, not_or]
  exact ⟨fun h => (hname _ h).2 rfl, hrow⟩

include hc

/-- The start of an opening tag and its name are painted. -/
lemma paint_openTag (depth : Nat) :
    paint ⟨.content, depth⟩ ('<' :: c :: (name ++ t)) =
      [Scope.tagBeginOpen, Scope.metaTagOpen] ::
        (List.replicate (name.length + 1) [Scope.tagName, Scope.metaTagOpen] ++
          paint ⟨.tag ⟨.opening, false, bodyOf (c :: name)⟩, depth⟩ t) := by
  obtain ⟨row, below, rfl, hrow, hbelow, htake, hdrop⟩ := exists_row_append_name hname ht
  rw [← append_assoc, ← cons_append, paint_step _ (by decide) hrow hbelow]
  simp only [step, contentStep_openTag _ hc, htake, hdrop, Piece.labels_cons, Piece.labels_nil,
    append_nil, append_assoc]
  rfl

/-- An open tag up to its name. -/
lemma inks_openTag (depth : Nat) :
    Inks ⟨.content, depth⟩ (Text.ink ['<'] (some { kind := .openTagStart }) ++
        Text.ink (c :: name) (some { kind := .openTagName }))
      ⟨.tag ⟨.opening, false, bodyOf (c :: name)⟩, depth⟩ t := by
  have hstart : partOf [Scope.tagBeginOpen, Scope.metaTagOpen] =
      some { kind := .openTagStart } := by simp [partOf_eq]
  have hpart : partOf [Scope.tagName, Scope.metaTagOpen] = some { kind := .openTagName } := by
    simp [partOf_eq]
  refine ⟨[Scope.tagBeginOpen, Scope.metaTagOpen] ::
    List.replicate (name.length + 1) [Scope.tagName, Scope.metaTagOpen], ?_, ?_⟩
  · rw [map_cons, map_replicate, hstart, hpart, map_append, map_snd_ink, map_snd_ink]
    rfl
  · rw [textOf_append, textOf_ink, textOf_ink]
    exact paint_openTag hc hname ht depth

/-- The start of a closing tag and its name are painted. -/
lemma paint_closeTag (depth : Nat) :
    paint ⟨.content, depth⟩ ('<' :: '/' :: c :: (name ++ t)) =
      List.replicate 2 [Scope.tagBeginClose, Scope.metaTagClose] ++
        (List.replicate (name.length + 1) [Scope.tagNameClose, Scope.metaTagClose] ++
          paint ⟨.tag ⟨.closing, false, .nested⟩, depth⟩ t) := by
  obtain ⟨row, below, rfl, hrow, hbelow, htake, hdrop⟩ := exists_row_append_name hname ht
  have hslash : '\n' ∉ '/' :: c :: (name ++ row) := by
    rw [mem_cons, not_or]
    exact ⟨by decide, hrow⟩
  rw [← append_assoc, ← cons_append, ← cons_append,
    paint_step _ (by decide) hslash hbelow]
  simp only [step, contentStep_closeTag _ hc, htake, hdrop, Piece.labels_cons, Piece.labels_nil,
    append_nil, append_assoc]
  rfl

/-- A close tag up to its name. -/
lemma inks_closeTag (depth : Nat) :
    Inks ⟨.content, depth⟩ (Text.ink ['<', '/'] (some { kind := .closeTagStart }) ++
        Text.ink (c :: name) (some { kind := .closeTagName }))
      ⟨.tag ⟨.closing, false, .nested⟩, depth⟩ t := by
  have hstart : partOf [Scope.tagBeginClose, Scope.metaTagClose] =
      some { kind := .closeTagStart } := by simp [partOf_eq]
  have hpart : partOf [Scope.tagNameClose, Scope.metaTagClose] =
      some { kind := .closeTagName } := by simp [partOf_eq]
  refine ⟨List.replicate 2 [Scope.tagBeginClose, Scope.metaTagClose] ++
    List.replicate (name.length + 1) [Scope.tagNameClose, Scope.metaTagClose], ?_, ?_⟩
  · rw [map_append, map_replicate, map_replicate, hstart, hpart, map_append,
      map_snd_ink, map_snd_ink]
    rfl
  · rw [textOf_append, textOf_ink, textOf_ink, append_assoc]
    exact paint_closeTag hc hname ht depth

end

/-! ## Inside of a tag -/

section
variable {tag : TagState} (hconcise : tag.concise = false) (depth : Nat)

omit hconcise in
/-- The bracket behind an open tag that closes itself. -/
lemma inks_selfClosingEnd (body : Body) (t : Text) :
    Inks ⟨.tag ⟨.opening, false, body⟩, depth⟩
      (Text.ink ['/', '>'] (some { kind := .selfClosingEnd })) ⟨.content, depth⟩ t := by
  obtain ⟨row, below, hrow, hbelow, rfl⟩ := t.exists_row_append
  have hbracket : '\n' ∉ '>' :: row := by
    rw [mem_cons, not_or]
    exact ⟨by decide, hrow⟩
  have hpaint : paint ⟨.tag ⟨.opening, false, body⟩, depth⟩ ('/' :: ('>' :: row ++ below)) =
      List.replicate 2 [Scope.tagEndSelfClose, Scope.metaTagOpen] ++
        paint ⟨.content, depth⟩ (row ++ below) :=
    paint_step _ (by decide) hbracket hbelow
  exact inks_replicate hpaint (by simp [partOf_eq])

omit hconcise in
/-- The bracket behind an open tag. What follows depends on the element. -/
lemma inks_openTagEnd (s : State) (body : Body) (t : Text) :
    Inks ⟨.tag ⟨.opening, false, body⟩, s.depth⟩ (Text.ink ['>'] (some { kind := .openTagEnd }))
      (endTag s ⟨.opening, false, body⟩) t := by
  obtain ⟨row, below, hrow, hbelow, rfl⟩ := t.exists_row_append
  have hpaint : paint ⟨.tag ⟨.opening, false, body⟩, s.depth⟩ ('>' :: (row ++ below)) =
      [Scope.tagEndOpen, Scope.metaTagOpen] ::
        paint (endTag s ⟨.opening, false, body⟩) (row ++ below) :=
    paint_step _ (by decide) hrow hbelow
  exact inks_cons hpaint (by simp [partOf_eq])

omit hconcise in
/-- The bracket behind a close tag. -/
lemma inks_closeTagEnd (body : Body) (t : Text) :
    Inks ⟨.tag ⟨.closing, false, body⟩, depth⟩ (Text.ink ['>'] (some { kind := .closeTagEnd }))
      ⟨.content, depth - 1⟩ t := by
  obtain ⟨row, below, hrow, hbelow, rfl⟩ := t.exists_row_append
  have hpaint : paint ⟨.tag ⟨.closing, false, body⟩, depth⟩ ('>' :: (row ++ below)) =
      [Scope.tagEndClose, Scope.metaTagClose] :: paint ⟨.content, depth - 1⟩ (row ++ below) :=
    paint_step _ (by decide) hrow hbelow
  exact inks_cons hpaint (by simp [partOf_eq])

omit hconcise in
lemma step_blank (h : Text.isBlank c = true) (rest : Text) :
    step ⟨.tag tag, depth⟩ c rest = ⟨[⟨c :: rest.takeWhile Text.isBlank, [tag.scope]⟩],
      ⟨.tag tag, depth⟩, rest.dropWhile Text.isBlank⟩ := by
  simp only [step, tagStep, h, if_true]

include hconcise

/-- Spaces and line feeds between attributes have no parts. -/
lemma inks_gap {a : Text} (ha : ∀ c ∈ a, c = ' ' ∨ c = '\n') (t : Text) :
    Inks ⟨.tag tag, depth⟩ (a.ink none) ⟨.tag tag, depth⟩ t := by
  apply inks_forall (stays_tag hconcise depth)
  intro c hc hn t
  obtain rfl : c = ' ' := (ha c hc).resolve_right hn
  have hpart : partOf [tag.scope] = none := by simp [partOf_eq]
  exact inks_run (a := [' ']) (fun c rest h => step_blank depth h rest) hpart (by decide) t

omit hconcise in
lemma isAttributeChar_cases (h : isAttributeChar c = true) :
    (48 ≤ c.toNat ∧ c.toNat ≤ 122) ∨ c = '@' ∨ c = '_' ∨ c = ':' ∨ c = '-' ∨ c = '.' := by
  simp only [isAttributeChar, Bool.or_eq_true, beq_iff_eq] at h
  rcases h with ((((h | h) | h) | h) | h) | h
  · have halpha : c.isAlpha = (c.isUpper || c.isLower) := rfl
    have hupper : c.isUpper = decide (c.val ≥ 'A'.val ∧ c.val ≤ 'Z'.val) := rfl
    have hlower : c.isLower = (decide (c.val ≥ 'a'.val) && decide (c.val ≤ 'z'.val)) := rfl
    simp only [Char.isAlphanum, halpha, hupper, hlower, Char.isDigit, Bool.or_eq_true,
      Bool.and_eq_true, decide_eq_true_eq, UInt32.le_iff_toNat_le, ge_iff_le] at h
    have : c.toNat = c.val.toNat := rfl
    simp at h
    refine .inl ?_
    omega
  · exact .inr (.inl h)
  · exact .inr (.inr (.inl h))
  · exact .inr (.inr (.inr (.inl h)))
  · exact .inr (.inr (.inr (.inr (.inl h))))
  · exact .inr (.inr (.inr (.inr (.inr h))))

omit hconcise in
lemma isBlank_eq_false (h : isAttributeChar c = true) : Text.isBlank c = false := by
  have hv : c.toNat = c.val.toNat := rfl
  rcases isAttributeChar_cases h with hrange | rfl | rfl | rfl | rfl | rfl
  · simp only [Text.isBlank, Bool.or_eq_false_iff, Bool.and_eq_false_iff, decide_eq_false_iff_not,
      beq_eq_false_iff_ne, ne_eq, ← UInt32.toNat_inj, UInt32.le_iff_toNat_le, UInt32.reduceToNat]
    omega
  all_goals decide

omit hconcise in
lemma isAttributeChar_ne {c d : Char} (h : isAttributeChar c = true)
    (hd : isAttributeChar d = false) : (c == d) = false := by
  rw [beq_eq_false_iff_ne]
  rintro rfl
  rw [h] at hd
  exact Bool.noConfusion hd

/-- An attribute name is read to its end. -/
lemma step_attributeChar (h : isAttributeChar c = true) (rest : Text) :
    step ⟨.tag tag, depth⟩ c rest =
      ⟨[⟨c :: rest.takeWhile isAttributeChar, [Scope.attributeName, tag.scope]⟩],
        ⟨.tag tag, depth⟩, rest.dropWhile isAttributeChar⟩ := by
  have hquote : isQuote c = false := by
    rw [isQuote, isAttributeChar_ne h (by decide), isAttributeChar_ne h (by decide)]
    rfl
  simp only [step, tagStep, isBlank_eq_false h, hconcise, hquote, h,
    isAttributeChar_ne h (show isAttributeChar '/' = false by decide),
    isAttributeChar_ne h (show isAttributeChar '>' = false by decide),
    isAttributeChar_ne h (show isAttributeChar '<' = false by decide),
    isAttributeChar_ne h (show isAttributeChar '=' = false by decide),
    isAttributeChar_ne h (show isAttributeChar '(' = false by decide),
    isAttributeChar_ne h (show isAttributeChar '$' = false by decide),
    Bool.false_and, Bool.and_false, Bool.false_eq_true, if_false, if_true]

/-- The name of an attribute. -/
lemma inks_attributeName {a : Text} (ha : ∀ c ∈ a, isAttributeChar c = true ∧ c ≠ '\n')
    (t : Text) :
    Inks ⟨.tag tag, depth⟩ (a.ink (some { kind := .attributeName })) ⟨.tag tag, depth⟩ t := by
  have hpart : partOf [Scope.attributeName, tag.scope] = some { kind := .attributeName } := by
    simp [partOf_eq]
  exact inks_run (fun c rest h => step_attributeChar hconcise depth h rest) hpart ha t

end

/-! ## Values -/

section
variable {tag : TagState} (depth : Nat)

/-- A string goes up to its end, or to the end of the row and on below. -/
lemma paint_string_row {row below : Text} (hrow : '\n' ∉ row) (hbelow : below.EndsRow) :
    paint ⟨.string '"' tag, depth⟩ (row ++ below) =
      match closeString? '"' row with
      | some (inside, behind) =>
        List.replicate inside.length [Scope.stringDouble, tag.scope] ++
          [Scope.stringEnd, Scope.stringDouble, tag.scope] ::
            paint ⟨.tag tag, depth⟩ (behind ++ below)
      | none => List.replicate row.length [Scope.stringDouble, tag.scope] ++
          paint ⟨.string '"' tag, depth⟩ below := by
  cases row with
  | nil => rfl
  | cons c row =>
    rw [mem_cons, not_or] at hrow
    rw [cons_append, paint_step _ (Ne.symm hrow.1) hrow.2 hbelow]
    simp only [step, stringStep]
    cases closeString? '"' (c :: row) with
    | none =>
      simp only [Piece.labels_cons, Piece.labels_nil, append_nil]
      rfl
    | some cut =>
      obtain ⟨inside, behind⟩ := cut
      simp only [Piece.labels_cons, Piece.labels_nil, append_nil, append_assoc]
      rfl

/-- A plain character in a string is part of it. -/
lemma paint_string_cons (hc : c ≠ '\n') (hquote : c ≠ '"') (hbackslash : c ≠ '\\') (t : Text) :
    paint ⟨.string '"' tag, depth⟩ (c :: t) =
      [Scope.stringDouble, tag.scope] :: paint ⟨.string '"' tag, depth⟩ t := by
  obtain ⟨row, below, hrow, hbelow, rfl⟩ := t.exists_row_append
  have hcons : '\n' ∉ c :: row := by
    rw [mem_cons, not_or]
    exact ⟨Ne.symm hc, hrow⟩
  have hclose : closeString? '"' (c :: row) =
      (closeString? '"' row).map fun cut => (c :: cut.1, cut.2) := by
    rw [closeString?, if_neg (by simpa using hquote)]
    · exact fun h => absurd h hbackslash
    · exact fun _ _ h => absurd h hbackslash
  have hstep : paint ⟨.string '"' tag, depth⟩ (c :: row ++ below) = _ :=
    paint_string_row depth hcons hbelow
  rw [hclose, cons_append] at hstep
  rw [hstep, paint_string_row depth hrow hbelow]
  cases closeString? '"' row with
  | none => rfl
  | some cut => rfl

/-- The closing quote leads back to the tag. -/
lemma paint_string_end (t : Text) :
    paint ⟨.string '"' tag, depth⟩ ('"' :: t) =
      [Scope.stringEnd, Scope.stringDouble, tag.scope] :: paint ⟨.tag tag, depth⟩ t := by
  obtain ⟨row, below, hrow, hbelow, rfl⟩ := t.exists_row_append
  have hcons : '\n' ∉ '"' :: row := by
    rw [mem_cons, not_or]
    exact ⟨by decide, hrow⟩
  exact paint_string_row depth hcons hbelow

/-- An equals sign and a quote open a string. -/
lemma paint_value_start (t : Text) :
    paint ⟨.tag tag, depth⟩ ('=' :: '"' :: t) =
      [Scope.keyValue, tag.scope] :: [Scope.stringBegin, Scope.stringDouble, tag.scope] ::
        paint ⟨.string '"' tag, depth⟩ t := by
  obtain ⟨row, below, hrow, hbelow, rfl⟩ := t.exists_row_append
  have hcons : '\n' ∉ '"' :: row := by
    rw [mem_cons, not_or]
    exact ⟨by decide, hrow⟩
  rw [← cons_append, paint_step _ (by decide) hcons hbelow]
  have hstep : step ⟨.tag tag, depth⟩ '=' ('"' :: row) =
      valueStep ⟨.tag tag, depth⟩ tag '=' ('"' :: row) := by
    have hblank : Text.isBlank '=' = false := by decide
    simp [step, tagStep, hblank]
  rw [hstep]
  rfl

/-- A value in double quotes, with the sign before it, has no parts. -/
lemma inks_value (hconcise : tag.concise = false) {v : Text} (hquote : '"' ∉ v)
    (hbackslash : '\\' ∉ v) (t : Text) :
    Inks ⟨.tag tag, depth⟩ (Text.ink ('=' :: '"' :: (v ++ ['"'])) none) ⟨.tag tag, depth⟩ t := by
  have hsign : partOf [Scope.keyValue, tag.scope] = none := by simp [partOf_eq]
  have hbegin : partOf [Scope.stringBegin, Scope.stringDouble, tag.scope] = none := by
    simp [partOf_eq]
  have hend : partOf [Scope.stringEnd, Scope.stringDouble, tag.scope] = none := by
    simp [partOf_eq]
  have hstring : partOf [Scope.stringDouble, tag.scope] = none := by simp [partOf_eq]
  have hstart : ∀ t, Inks ⟨.tag tag, depth⟩ (Text.ink ['=', '"'] none)
      ⟨.string '"' tag, depth⟩ t := by
    intro t
    refine ⟨[[Scope.keyValue, tag.scope], [Scope.stringBegin, Scope.stringDouble, tag.scope]], ?_,
      paint_value_start depth t⟩
    rw [map_cons, map_cons, hsign, hbegin]
    rfl
  have hinside : ∀ t, Inks ⟨.string '"' tag, depth⟩ (v.ink none) ⟨.string '"' tag, depth⟩ t := by
    apply inks_forall (stays_string '"' hconcise depth)
    intro c hc hn t
    refine inks_cons (paint_string_cons depth hn ?_ ?_ t) hstring
    · rintro rfl
      exact hquote hc
    · rintro rfl
      exact hbackslash hc
  have hquotes : Text.ink ('=' :: '"' :: (v ++ ['"'])) none =
      Text.ink ['=', '"'] none ++ (v.ink none ++ [('"', none)]) := by
    simp [Text.ink]
  rw [hquotes]
  exact (hstart _).trans ((hinside _).trans (inks_cons (paint_string_end depth t) hend))

end

end TemplateEditing.Lexer
