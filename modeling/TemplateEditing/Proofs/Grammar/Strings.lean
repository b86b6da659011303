import TemplateEditing.Proofs.Grammar.Pieces
import TemplateEditing.Proofs.Grammar.Rows

/-!
# Strings in a row

A string in a tag begins with a quote and ends with the next quote of the same kind that no
backslash guards. In the pieces of a row, a quote that begins a string is followed by what is inside
and the quote that ends it, or by nothing else that begins or ends a string (`Strung`); every step
of the lexer keeps this (`Lexer.keeps_step`). So where the scopes say that a string goes from one
column of a row to another, both hold the same quote, and such a quote in between stands behind a
backslash (`Document.StringOn.quotes`).
-/

namespace TemplateEditing

open List

variable {pieces more : List Piece} {piece : Piece} {quote : Char}

/-- Such a character stands behind backslashes only. -/
def Text.Guards (t : Text) (quote : Char) : Prop :=
  ∀ k, t[k]? = some quote → 0 < k ∧ t[k - 1]? = some '\\'

lemma Text.Guards.cons {t : Text} {quote c : Char} (h : t.Guards quote) (hc : c ≠ quote) :
    Text.Guards (c :: t) quote := by
  rintro (_ | k) hk
  · exact absurd (Option.some.inj hk) hc
  · obtain ⟨hpos, hguard⟩ := h k hk
    obtain ⟨m, rfl⟩ := Nat.exists_eq_add_one.2 hpos
    exact ⟨Nat.succ_pos _, hguard⟩

/-- Inside of a string its quote is guarded. -/
lemma Lexer.guards_of_closeString? (hquote : isQuote quote = true)
    {t inside behind : Text} (h : closeString? quote t = some (inside, behind)) :
    inside.Guards quote := by
  have hslash : '\\' ≠ quote := by
    rintro rfl
    exact absurd hquote (by decide)
  fun_induction closeString? quote t generalizing inside behind with
  | case1 => cases h
  | case2 => cases h
  | case3 c rest ih =>
    obtain ⟨⟨i, b⟩, hb, heq⟩ := Option.map_eq_some_iff.1 h
    obtain ⟨rfl, rfl⟩ := Prod.mk.inj heq
    -- what stands behind the backslash may be the quote
    rintro (_ | _ | k) hk
    · exact absurd (Option.some.inj hk) hslash
    · exact ⟨Nat.one_pos, rfl⟩
    · obtain ⟨hpos, hguard⟩ := ih hb k hk
      obtain ⟨m, rfl⟩ := Nat.exists_eq_add_one.2 hpos
      exact ⟨Nat.succ_pos _, hguard⟩
  | case4 c rest _ hc =>
    obtain ⟨rfl, rfl⟩ := Prod.mk.inj (Option.some.inj h)
    intro k hk
    cases hk
  | case5 c rest _ _ hne ih =>
    obtain ⟨⟨i, b⟩, hb, heq⟩ := Option.map_eq_some_iff.1 h
    obtain ⟨rfl, rfl⟩ := Prod.mk.inj heq
    exact (ih hb).cons fun hc => hne (beq_iff_eq.2 hc)

/-! ## Pieces -/

/-- The innermost scope of a piece. -/
def Piece.innermost? (piece : Piece) : Option String := piece.scopes.head?

/-- No string begins in these pieces. -/
def Piece.Plain (pieces : List Piece) : Prop :=
  ∀ piece ∈ pieces, piece.innermost? ≠ some Scope.stringBegin

/-- A piece that begins a string is a quote, with the inside of the string and the same quote behind
it, or no string begins or ends behind it. -/
inductive Strung : List Piece → Prop
  | nil : Strung []
  | cons {piece : Piece} {pieces : List Piece} :
      piece.innermost? ≠ some Scope.stringBegin → Strung pieces → Strung (piece :: pieces)
  | closed {quote : Char} {begins inside ends : Piece} {pieces : List Piece} :
      Lexer.isQuote quote = true → begins.text = [quote] → ends.text = [quote] →
      inside.text.Guards quote → inside.innermost? ≠ some Scope.stringBegin →
      inside.innermost? ≠ some Scope.stringEnd → ends.innermost? = some Scope.stringEnd →
      Strung pieces → Strung (begins :: inside :: ends :: pieces)
  | unfinished {begins : Piece} {pieces : List Piece} :
      begins.text.length = 1 → Piece.Plain pieces →
      (∀ piece ∈ pieces, piece.innermost? ≠ some Scope.stringEnd) → Strung (begins :: pieces)

namespace Piece.Plain

lemma nil : Plain [] := forall_mem_nil _

lemma cons (h : piece.innermost? ≠ some Scope.stringBegin) (hs : Plain pieces) :
    Plain (piece :: pieces) := forall_mem_cons.2 ⟨h, hs⟩

lemma single (h : piece.innermost? ≠ some Scope.stringBegin) : Plain [piece] :=
  .cons h .nil

lemma append {a b : List Piece} (ha : Plain a) (hb : Plain b) : Plain (a ++ b) :=
  forall_mem_append.2 ⟨ha, hb⟩

/-- Pieces that open no string can stand in front. -/
lemma strung_append {a pieces : List Piece} (ha : Plain a) (h : Strung pieces) :
    Strung (a ++ pieces) := by
  induction a with
  | nil => exact h
  | cons piece a ih =>
    obtain ⟨hpiece, ha⟩ := forall_mem_cons.1 ha
    exact .cons hpiece (ih ha)

end Piece.Plain

namespace Lexer

open TemplateEditing.Piece (Plain)

lemma innermost?_ne {scope other : String} (h : scope ≠ other) (t : Text)
    (outer : List String) : Piece.innermost? ⟨t, scope :: outer⟩ ≠ some other :=
  fun heq => h (Option.some.inj heq)

lemma innermost?_nil_ne (t : Text) (scope : String) : Piece.innermost? ⟨t, []⟩ ≠ some scope :=
  Option.some_ne_none scope |>.symm

lemma stringScope_ne_stringEnd (quote : Char) : stringScope quote ≠ Scope.stringEnd := by
  unfold stringScope
  split <;> decide

/-- A string that ends in its row. -/
lemma strung_closed (hquote : isQuote quote = true) {t inside behind : Text}
    (h : closeString? quote t = some (inside, behind)) (outer around outer' : List String)
    (hmore : Strung more) :
    Strung (⟨[quote], Scope.stringBegin :: outer⟩ :: ⟨inside, stringScope quote :: around⟩ ::
      ⟨[quote], Scope.stringEnd :: outer'⟩ :: more) :=
  .closed hquote rfl rfl (guards_of_closeString? hquote h)
    (innermost?_ne (stringScope_ne_stringBegin quote) _ _)
    (innermost?_ne (stringScope_ne_stringEnd quote) _ _) rfl hmore

/-- A string that takes the rest of its row. -/
lemma strung_unfinished (quote : Char) (t : Text) (outer around : List String) :
    Strung [⟨[quote], Scope.stringBegin :: outer⟩, ⟨t, stringScope quote :: around⟩] :=
  .unfinished rfl (.single (innermost?_ne (stringScope_ne_stringBegin quote) _ _))
    (forall_mem_singleton.2 (innermost?_ne (stringScope_ne_stringEnd quote) _ _))

/-! ## Steps -/

/-- The pieces that a run from a state gives on a text, as far as strings are concerned. A state
inside of a string may have been entered with the quote right in front of the text. -/
structure Follows (s : State) (t : Text) (pieces : List Piece) : Prop where
  strung : Strung pieces
  opened : ∀ quote tag outer, s.mode = .string quote tag → isQuote quote = true →
    Strung (⟨[quote], Scope.stringBegin :: outer⟩ :: pieces)
  eq_nil : t = [] → pieces = []

/-- A step keeps the strings of whatever follows it. -/
def Step.Keeps (step : Step) : Prop :=
  ∀ more, Follows step.state step.left more → Strung (step.pieces ++ more)

lemma Step.keeps_of_plain {step : Step} (h : Plain step.pieces) : step.Keeps :=
  fun _ hmore => h.strung_append hmore.strung

/-- No string begins in code outside of tags. -/
lemma plain_balanced (opener closer : Char) (depth : Nat) (t : Text) :
    Plain (balanced opener closer (fun _ => []) depth t).1 := by
  fun_induction balanced opener closer (fun _ => []) depth t with
  | case1 => exact .nil
  | case2 depth c rest _ scope quote inside behind _ _ pieces left hb ih =>
    rw [hb] at ih
    exact .cons (innermost?_nil_ne _ _)
      (.cons (innermost?_nil_ne _ _) (.cons (innermost?_nil_ne _ _) ih))
  | case3 => exact .cons (innermost?_nil_ne _ _) (.single (innermost?_nil_ne _ _))
  | case4 depth c rest _ piece _ pieces left hb ih =>
    rw [hb] at ih
    exact .cons (innermost?_nil_ne _ _) ih
  | case5 => exact .single (innermost?_nil_ne _ _)
  | case6 depth c rest _ piece _ _ pieces left hb ih =>
    rw [hb] at ih
    exact .cons (innermost?_nil_ne _ _) ih

/-- The strings in code in a tag. One that is left open takes all of the row. -/
lemma strung_balanced (opener closer : Char) (tag : TagState) (depth : Nat) (t : Text)
    (hmore : Strung more)
    (hnil : (balanced opener closer (fun inner => inner ++ [Scope.sourceScript, tag.scope])
      depth t).2 = [] → more = []) :
    Strung ((balanced opener closer (fun inner => inner ++ [Scope.sourceScript, tag.scope])
      depth t).1 ++ more) := by
  have hcode : ∀ c, Piece.innermost? ⟨[c], [Scope.sourceScript, tag.scope]⟩ ≠
      some Scope.stringBegin := fun c => innermost?_ne (by decide) _ _
  fun_induction balanced opener closer (fun inner => inner ++ [Scope.sourceScript, tag.scope])
    depth t with
  | case1 => exact hmore
  | case2 depth c rest hquote scope quote inside behind h _ pieces left hb ih =>
    rw [hb] at ih
    exact strung_closed hquote h _ _ _ (ih hnil)
  | case3 depth c rest hquote scope quote =>
    obtain rfl := hnil rfl
    exact strung_unfinished c rest _ _
  | case4 depth c rest _ piece _ pieces left hb ih =>
    rw [hb] at ih
    exact .cons (hcode c) (ih hnil)
  | case5 depth c rest => exact .cons (hcode c) hmore
  | case6 depth c rest _ piece _ _ pieces left hb ih =>
    rw [hb] at ih
    exact .cons (hcode c) (ih hnil)

/-- No rule for content opens a string. -/
lemma ContentRule.plain {s : State} {c : Char} {rest : Text} {next : Step}
    (h : ContentRule s c rest next) : Plain next.pieces := by
  cases h with
  | comment => exact .single (innermost?_ne (by decide) _ _)
  | closeTag =>
    exact .cons (innermost?_ne (by decide) _ _) (.single (innermost?_ne (by decide) _ _))
  | openTag =>
    exact .cons (innermost?_ne (by decide) _ _) (.single (innermost?_ne (by decide) _ _))
  | bracket => exact .single (innermost?_nil_ne _ _)
  | placeholder => exact .cons (innermost?_nil_ne _ _) (plain_balanced _ _ _ _)
  | text => exact .single (innermost?_nil_ne _ _)

/-- An opening quote keeps the strings of what follows. -/
lemma keeps_openString (s : State) (tag : TagState) {before : List Piece} (hbefore : Plain before)
    (hquote : isQuote quote = true) (rest : Text) :
    (openString s tag before quote rest).Keeps := by
  intro more hmore
  rw [openString, append_assoc]
  exact hbefore.strung_append (hmore.opened quote tag _ rfl hquote)

lemma keeps_valueStep (s : State) (tag : TagState) (c : Char) (rest : Text) :
    (valueStep s tag c rest).Keeps := by
  have hbefore : ∀ gap : Text, Plain [⟨[c], [Scope.keyValue, tag.scope]⟩, ⟨gap, [tag.scope]⟩] :=
    fun gap => .cons (innermost?_ne (by decide) _ _)
      (.single (innermost?_ne (scope_ne_stringBegin tag) _ _))
  unfold valueStep
  dsimp only
  split
  · exact Step.keeps_of_plain (hbefore _)
  split
  · next hquote => exact keeps_openString s tag (hbefore _) hquote _
  · refine Step.keeps_of_plain ?_
    exact (hbefore _).append (.single (innermost?_ne (by decide) _ _))

lemma keeps_codeStep (s : State) (tag : TagState) (c opener closer : Char) (depth : Nat)
    (rest : Text) : (codeStep s tag c opener closer depth rest).Keeps := by
  intro more hmore
  exact .cons (innermost?_ne (by decide) _ _)
    (strung_balanced opener closer tag depth rest hmore.strung hmore.eq_nil)

/-- Every rule for tags keeps the strings of what follows. -/
lemma TagRule.keeps {s : State} {tag : TagState} {c : Char} {rest : Text} {next : Step}
    (h : TagRule s tag c rest next) : next.Keeps := by
  have hplain : ∀ t, Plain [⟨t, [tag.scope]⟩] := fun t =>
    .single (innermost?_ne (scope_ne_stringBegin tag) _ _)
  have hpart : ∀ t scope, scope ≠ Scope.stringBegin → Plain [⟨t, [scope, tag.scope]⟩] :=
    fun t scope hscope => .single (innermost?_ne hscope _ _)
  cases h with
  | blanks => exact Step.keeps_of_plain (hplain _)
  | conciseText => exact Step.keeps_of_plain (.single (innermost?_nil_ne _ _))
  | selfClosingEnd => exact Step.keeps_of_plain (hpart _ _ (by decide))
  | openTagEnd => exact Step.keeps_of_plain (hpart _ _ (by decide))
  | closeTagEnd => exact Step.keeps_of_plain (hpart _ _ (by decide))
  | nextTag => exact Step.keeps_of_plain .nil
  | value => exact keeps_valueStep s tag '=' rest
  | string hquote => exact keeps_openString s tag .nil hquote rest
  | arguments => exact keeps_codeStep s tag _ _ _ _ rest
  | placeholder => exact keeps_codeStep s tag _ _ _ _ rest
  | attributeName => exact Step.keeps_of_plain (hpart _ _ (by decide))
  | stray => exact Step.keeps_of_plain (hplain _)

/-- Going on in a string keeps the strings of what follows. -/
lemma keeps_stringStep (s : State) (quote : Char) (tag : TagState) (t : Text) :
    (stringStep s quote tag t).Keeps := by
  have hinside : ∀ t, Piece.innermost? ⟨t, [stringScope quote, tag.scope]⟩ ≠
      some Scope.stringBegin := fun t => innermost?_ne (stringScope_ne_stringBegin quote) _ _
  unfold stringStep
  dsimp only
  split
  · refine Step.keeps_of_plain (.cons (hinside _) (.single ?_))
    exact innermost?_ne (by decide) _ _
  · exact Step.keeps_of_plain (.single (hinside _))

/-- A string with the quote that begins it in front. -/
lemma strung_stringStep (s : State) (hquote : isQuote quote = true)
    (tag : TagState) (t : Text) (outer : List String)
    (hmore : Follows (stringStep s quote tag t).state (stringStep s quote tag t).left more) :
    Strung (⟨[quote], Scope.stringBegin :: outer⟩ ::
      ((stringStep s quote tag t).pieces ++ more)) := by
  cases h : closeString? quote t with
  | some cut =>
    simp only [stringStep, h] at hmore ⊢
    exact strung_closed hquote h _ _ _ hmore.strung
  | none =>
    simp only [stringStep, h] at hmore ⊢
    obtain rfl := hmore.eq_nil rfl
    exact strung_unfinished quote t _ _

/-- Every step keeps the strings of what follows it. -/
theorem keeps_step (s : State) (c : Char) (rest : Text) : (step s c rest).Keeps := by
  unfold step
  split
  · exact Step.keeps_of_plain (contentRule s c rest).plain
  · exact (tagRule s _ c rest).keeps
  · exact keeps_stringStep s _ _ _
  · unfold commentStep
    split <;> exact Step.keeps_of_plain (.single (innermost?_ne (by decide) _ _))
  · next kind _ =>
    unfold rawStep
    cases kind <;> dsimp only <;> split
    all_goals exact Step.keeps_of_plain (.single (innermost?_ne (by decide) _ _))

/-- A step can be put in front of the pieces that follow it. -/
lemma follows_step (s : State) (c : Char) (rest : Text)
    (hmore : Follows (step s c rest).state (step s c rest).left more) :
    Follows s (c :: rest) ((step s c rest).pieces ++ more) := by
  refine ⟨keeps_step s c rest more hmore, ?_, by simp⟩
  intro quote tag outer hmode hquote
  simp only [step, hmode] at hmore ⊢
  exact strung_stringStep s hquote tag (c :: rest) outer hmore

/-! ## Rows and texts -/

/-- A run gives pieces that follow its state. -/
lemma follows_run (s : State) (t : Text) : Follows s t (run s t).1 := by
  fun_induction run s t with
  | case1 s => exact ⟨.nil, fun _ _ _ _ _ => .unfinished rfl .nil (by simp), fun _ => rfl⟩
  | case2 s c rest next pieces last h ih =>
    rw [h] at ih
    exact follows_step s c rest ih

lemma RowRule.plain {s : State} {indent body : Text} {next : Step}
    (h : RowRule s indent body next) : Plain next.pieces := by
  cases h with
  | comment => exact .cons (innermost?_nil_ne _ _) (.single (innermost?_ne (by decide) _ _))
  | mark => exact .cons (innermost?_nil_ne _ _) (.single (innermost?_nil_ne _ _))
  | name => exact .cons (innermost?_nil_ne _ _) (.single (innermost?_ne (by decide) _ _))
  | content => exact .single (innermost?_nil_ne _ _)

/-- In every row, the strings that close do so by their quotes. -/
lemma strung_row (s : State) (t : Text) : Strung (row s t).1 := by
  unfold row
  dsimp only
  refine Plain.strung_append ?_ (follows_run _ _).strung
  split
  · exact (rowRule s t).plain
  · exact .nil

/-- In every row each string that begins ends with its quote or is left open. -/
theorem strung_rows (s : State) (ts : List Text) : ∀ pieces ∈ rows s ts, Strung pieces := by
  induction ts generalizing s with
  | nil => simp [rows]
  | cons t ts ih =>
    rw [rows]
    exact forall_mem_cons.2 ⟨strung_row s t, ih _⟩

end Lexer

/-! ## Columns -/

/-- The same quote stands at two columns of a row, and where it stands in between, it is behind a
backslash. -/
structure Text.Quotes (t : Text) (quote : Char) (i j : Nat) : Prop where
  isQuote : Lexer.isQuote quote = true
  begins : t[i]? = some quote
  ends : t[j]? = some quote
  guarded : ∀ k, i < k → k < j → t[k]? = some quote → t[k - 1]? = some '\\'

/-- By the innermost scopes of a row, a string begins at one column and ends at another one. -/
structure Piece.StringIn (pieces : List Piece) (i j : Nat) : Prop where
  lt : i < j
  begins : ((labels pieces)[i]?).bind List.head? = some Scope.stringBegin
  ends : ((labels pieces)[j]?).bind List.head? = some Scope.stringEnd
  goesOn : ∀ k, i < k → k < j → ((labels pieces)[k]?).bind List.head? ≠ some Scope.stringEnd

namespace Piece

lemma innermost_labels_left (pieces : List Piece) {i : Nat} (h : i < piece.text.length) :
    ((labels (piece :: pieces))[i]?).bind List.head? = piece.innermost? := by
  rw [labels_cons, getElem?_append_left (by simpa using h), getElem?_replicate_of_lt h]
  rfl

lemma getElem?_labels_right (piece : Piece) (pieces : List Piece) (i : Nat) :
    (labels (piece :: pieces))[piece.text.length + i]? = (labels pieces)[i]? := by
  rw [labels_cons, getElem?_append_right (by simp)]
  simp

lemma getElem?_spell_right (piece : Piece) (pieces : List Piece) (i : Nat) :
    (spell (piece :: pieces))[piece.text.length + i]? = (spell pieces)[i]? := by
  rw [spell_cons, getElem?_append_right (Nat.le_add_right _ _), Nat.add_sub_cancel_left]

/-- A string that does not begin in the first piece is one of the others. -/
lemma StringIn.tail {i j : Nat}
    (h : StringIn (piece :: pieces) (piece.text.length + i) (piece.text.length + j)) :
    StringIn pieces i j := by
  refine ⟨Nat.lt_of_add_lt_add_left h.lt, ?_, ?_, ?_⟩
  · rw [← getElem?_labels_right piece, h.begins]
  · rw [← getElem?_labels_right piece, h.ends]
  · intro k hik hkj
    rw [← getElem?_labels_right piece]
    exact h.goesOn _ (Nat.add_lt_add_left hik _) (Nat.add_lt_add_left hkj _)

/-- A quoted stretch stays one behind another piece. -/
lemma quotes_cons {i j : Nat} (h : (spell pieces).Quotes quote i j) :
    (spell (piece :: pieces)).Quotes quote (piece.text.length + i) (piece.text.length + j) := by
  refine ⟨h.isQuote, ?_, ?_, ?_⟩
  · rw [getElem?_spell_right, h.begins]
  · rw [getElem?_spell_right, h.ends]
  · intro k hik hkj hk
    obtain ⟨m, rfl⟩ : ∃ m, k = piece.text.length + m := Nat.exists_eq_add_of_le (by omega)
    rw [getElem?_spell_right] at hk
    rw [Nat.add_sub_assoc (by omega), getElem?_spell_right]
    exact h.guarded m (by omega) (by omega) hk

/-- The strings of a row go from a quote to the same quote. -/
def Closed (pieces : List Piece) : Prop :=
  ∀ i j, StringIn pieces i j → ∃ quote, (spell pieces).Quotes quote i j

/-- Only the first piece is left to be looked at. -/
lemma Closed.cons_of_first (hpieces : Closed pieces)
    (h : ∀ i j, i < piece.text.length → StringIn (piece :: pieces) i j →
      ∃ quote, (spell (piece :: pieces)).Quotes quote i j) : Closed (piece :: pieces) := by
  intro i j hstring
  by_cases hi : i < piece.text.length
  · exact h i j hi hstring
  · have hlt := hstring.lt
    obtain ⟨i', rfl⟩ := Nat.exists_eq_add_of_le (Nat.le_of_not_lt hi)
    obtain ⟨j', rfl⟩ : ∃ j', j = piece.text.length + j' := Nat.exists_eq_add_of_le (by omega)
    obtain ⟨quote, hquotes⟩ := hpieces i' j' hstring.tail
    exact ⟨quote, quotes_cons hquotes⟩

lemma Closed.cons (hpiece : piece.innermost? ≠ some Scope.stringBegin) (hpieces : Closed pieces) :
    Closed (piece :: pieces) := by
  refine hpieces.cons_of_first ?_
  intro i j hi hstring
  exact absurd ((innermost_labels_left pieces hi).symm.trans hstring.begins) hpiece

lemma Plain.closed (h : Plain pieces) : Closed pieces := by
  induction pieces with
  | nil =>
    intro i j hstring
    cases hstring.begins
  | cons piece pieces ih =>
    obtain ⟨hpiece, hpieces⟩ := forall_mem_cons.1 h
    exact (ih hpieces).cons hpiece

/-- A label comes from a piece. -/
lemma exists_innermost {i : Nat} {scope : String}
    (h : ((labels pieces)[i]?).bind List.head? = some scope) :
    ∃ piece ∈ pieces, piece.innermost? = some scope := by
  obtain ⟨label, hlabel, hscope⟩ := Option.bind_eq_some_iff.1 h
  obtain ⟨piece, hpiece, hmem⟩ := mem_flatMap.1 (mem_of_getElem? hlabel)
  obtain rfl := eq_of_mem_replicate hmem
  exact ⟨piece, hpiece, hscope⟩

/-- The string that the first three pieces are. -/
lemma StringIn.eq_length {begins inside ends : Piece} {j : Nat}
    (hbegins : begins.text.length = 1) (hends : ends.text.length = 1)
    (hinside : inside.innermost? ≠ some Scope.stringEnd)
    (hend : ends.innermost? = some Scope.stringEnd)
    (h : StringIn (begins :: inside :: ends :: pieces) 0 j) : j = inside.text.length + 1 := by
  have hright : ∀ k, (labels (begins :: inside :: ends :: pieces))[k + 1]? =
      (labels (inside :: ends :: pieces))[k]? := by
    intro k
    rw [Nat.add_comm, ← hbegins, getElem?_labels_right]
  have hlast : ((labels (inside :: ends :: pieces))[inside.text.length]?).bind List.head? =
      some Scope.stringEnd := by
    have hlookup := getElem?_labels_right inside (ends :: pieces) 0
    rw [Nat.add_zero] at hlookup
    rw [hlookup, innermost_labels_left pieces (by rw [hends]; exact Nat.one_pos), hend]
  obtain ⟨m, rfl⟩ := Nat.exists_eq_add_one.2 h.lt
  have hm := h.ends
  rw [hright] at hm
  rcases Nat.lt_trichotomy m inside.text.length with hlt | heq | hgt
  · rw [innermost_labels_left _ hlt] at hm
    exact absurd hm hinside
  · rw [heq]
  · have hgoes := h.goesOn (inside.text.length + 1) (Nat.succ_pos _) (Nat.succ_lt_succ hgt)
    rw [hright] at hgoes
    exact absurd hlast hgoes

end Piece

lemma Text.Guards.quotes {inside behind : Text} (h : inside.Guards quote)
    (hquote : Lexer.isQuote quote = true) :
    Text.Quotes (quote :: (inside ++ quote :: behind)) quote 0 (inside.length + 1) := by
  refine ⟨hquote, rfl, ?_, ?_⟩
  · rw [getElem?_cons_succ, getElem?_append_right (Nat.le_refl _), Nat.sub_self]
    rfl
  · intro k hpos hlt hk
    obtain ⟨m, rfl⟩ := Nat.exists_eq_add_one.2 hpos
    rw [getElem?_cons_succ, getElem?_append_left (by omega)] at hk
    obtain ⟨hm, hguard⟩ := h m hk
    obtain ⟨n, rfl⟩ := Nat.exists_eq_add_one.2 hm
    rw [Nat.add_sub_cancel, getElem?_cons_succ, getElem?_append_left (by omega)]
    exact hguard

/-- By its scopes a string in strung pieces goes from a quote to the same quote. -/
theorem Strung.closed_labels (h : Strung pieces) : Piece.Closed pieces := by
  induction h with
  | nil => exact Piece.Plain.nil.closed
  | cons hpiece _ ih => exact ih.cons hpiece
  | @closed quote begins inside ends pieces hquote hbegins hends hguards hbegin hgoes hend _ ih =>
    have hrest : Piece.Closed (inside :: ends :: pieces) :=
      (ih.cons (by rw [hend]; decide)).cons hbegin
    refine hrest.cons_of_first ?_
    intro i j hi hstring
    obtain rfl : i = 0 := by
      rw [hbegins] at hi
      exact Nat.lt_one_iff.1 hi
    obtain rfl := hstring.eq_length (congrArg List.length hbegins) (congrArg List.length hends)
      hgoes hend
    refine ⟨quote, ?_⟩
    rw [Piece.spell_cons, Piece.spell_cons, Piece.spell_cons, hbegins, hends]
    exact hguards.quotes hquote
  | @unfinished begins pieces hlength hplain hend =>
    refine hplain.closed.cons_of_first ?_
    intro i j hi hstring
    obtain ⟨j', rfl⟩ : ∃ j', j = begins.text.length + j' :=
      Nat.exists_eq_add_of_le (by have := hstring.lt; omega)
    have hends := hstring.ends
    rw [Piece.getElem?_labels_right] at hends
    obtain ⟨piece, hpiece, hscope⟩ := Piece.exists_innermost hends
    exact absurd hscope (hend piece hpiece)

/-! ## Documents -/

namespace Grammar

/-- A column past the end of its row has the scopes of the last one. -/
lemma head?_scopesAt_iff {t : Text} {row : Nat}
    (hpieces : (Lexer.rows {} t.grammarRows)[row]? = some pieces) (column : Nat) {scope : String}
    (hscope : scope ≠ Scope.marko) :
    ((marko.tokenize t).scopesAt ⟨row, column⟩).head? = some scope ↔
      ((Piece.labels pieces)[min column ((Piece.labels pieces).length - 1)]?).bind List.head? =
        some scope := by
  have hrow : (marko.tokenize t).rows[row]? = some (.ofPieces pieces) := by
    rw [getElem?_rows_tokenize, hpieces]
    rfl
  have hlength := (ScopeRow.spansOf_ofPieces pieces).2
  by_cases hempty : (Piece.labels pieces).length = 0
  · have hroot : (marko.tokenize t).scopesAt ⟨row, column⟩ = [Scope.marko] := by
      rw [ScopeMap.scopesAt, hrow, root_tokenize_marko]
      exact if_pos (hlength.trans hempty)
    rw [hroot, length_eq_zero_iff.1 hempty]
    simp [hscope.symm]
  · let last := (Piece.labels pieces).length - 1
    have hclamp : (marko.tokenize t).scopesAt ⟨row, column⟩ =
        (marko.tokenize t).scopesAt ⟨row, min column last⟩ := by
      rw [ScopeMap.scopesAt, ScopeMap.scopesAt, hrow]
      simp only [hlength, last, Nat.min_assoc, Nat.min_self]
    have hlt : min column last < (Piece.labels pieces).length := by omega
    have hlabel := getElem?_eq_getElem hlt
    have hat : (marko.tokenize t).scopesAt ⟨row, min column last⟩ =
        (Piece.labels pieces)[min column last] ++ [Scope.marko] :=
      scopesAt_tokenize hpieces hlabel
    rw [hclamp, hat, hlabel, Option.bind_some, head?_append]
    cases (Piece.labels pieces)[min column last].head? with
    | some inner => simp
    | none => simpa using hscope.symm

end Grammar

/-- By the scopes of its characters, a string goes from one column of a row to another one. -/
structure Document.StringOn (d : Document) (row i j : Nat) : Prop where
  lt : i < j
  begins : (d.scopesAt ⟨row, i⟩).head? = some Scope.stringBegin
  ends : (d.scopesAt ⟨row, j⟩).head? = some Scope.stringEnd
  goesOn : ∀ k, i < k → k < j → (d.scopesAt ⟨row, k⟩).head? ≠ some Scope.stringEnd

namespace Document

lemma StringOn.stringIn {d : Document} {row i j : Nat}
    (hscopes : d.scopes = Grammar.marko.tokenize d.text) (h : d.StringOn row i j)
    (hpieces : (Lexer.rows {} d.text.grammarRows)[row]? = some pieces) :
    Piece.StringIn pieces i j := by
  obtain ⟨hlt, hbegins, hends, hgoes⟩ := h
  have hiff := fun column {scope : String} (hscope : scope ≠ Scope.marko) =>
    Grammar.head?_scopesAt_iff hpieces column hscope
  simp only [scopesAt, hscopes] at hbegins hends hgoes
  -- the row goes on to the end of the string: otherwise its last column begins or ends it too
  have hj : j ≤ (Piece.labels pieces).length - 1 := by
    by_contra hj
    have hlast : ((Grammar.marko.tokenize d.text).scopesAt
        ⟨row, (Piece.labels pieces).length - 1⟩).head? = some Scope.stringEnd := by
      rw [hiff _ (by decide)] at hends ⊢
      rwa [Nat.min_eq_right (by omega)] at hends ⊢
    by_cases hi : i < (Piece.labels pieces).length - 1
    · exact hgoes _ hi (by omega) hlast
    · rw [hiff _ (by decide)] at hbegins hlast
      rw [Nat.min_eq_right (by omega)] at hbegins hlast
      rw [hbegins] at hlast
      exact absurd hlast (by decide)
  have hcolumn : ∀ k ≤ j, ∀ scope, scope ≠ Scope.marko →
      (((Grammar.marko.tokenize d.text).scopesAt ⟨row, k⟩).head? = some scope ↔
        ((Piece.labels pieces)[k]?).bind List.head? = some scope) := by
    intro k hk scope hscope
    rw [hiff k hscope, Nat.min_eq_left (by omega)]
  refine ⟨hlt, (hcolumn i hlt.le _ (by decide)).1 hbegins,
    (hcolumn j le_rfl _ (by decide)).1 hends, ?_⟩
  intro k hik hkj hk
  exact hgoes k hik hkj ((hcolumn k hkj.le _ (by decide)).2 hk)

/-- A string goes from a quote to the same quote, and backslashes guard those in between. -/
theorem StringOn.quotes {d : Document} {row i j : Nat}
    (hscopes : d.scopes = Grammar.marko.tokenize d.text) (hnone : d.text.strayBreaks = 0)
    (h : d.StringOn row i j) : ∃ quote, (d.text.line row).Quotes quote i j := by
  have hline : d.text.line row =
      (((Lexer.rows {} d.text.grammarRows)[row]?).map Piece.spell).getD [] := by
    rw [Text.line, Text.line?, ← getElem?_map, ← getElem?_map,
      Text.map_content_rows_eq hnone, Lexer.map_spell_rows]
  cases hpieces : (Lexer.rows {} d.text.grammarRows)[row]? with
  | none =>
    -- below the last row there are no scopes but the root
    have hrow : (Grammar.marko.tokenize d.text).rows[row]? = none := by
      rw [Grammar.getElem?_rows_tokenize, hpieces]
      rfl
    have hbegins := h.begins
    rw [scopesAt, hscopes, ScopeMap.scopesAt, hrow, Grammar.root_tokenize_marko] at hbegins
    exact absurd (show some Scope.marko = some Scope.stringBegin from hbegins) (by decide)
  | some pieces =>
    have hstrung := Lexer.strung_rows {} _ pieces (mem_of_getElem? hpieces)
    rw [hline, hpieces]
    exact hstrung.closed_labels i j (h.stringIn hscopes hpieces)

end Document

end TemplateEditing
