import TemplateEditing.Proofs.Grammar.Trails

/-!
# The scopes of single pieces

Whatever the lexer is inside of, only the innermost scope of a piece can be that of a part of a tag,
and where a string begins there is a quote and nothing else (`Piece.Orderly`). Every step keeps this
(`orderly_step`), so every character of a text is one of an orderly piece (`Text.exists_orderly`).
-/

namespace TemplateEditing

open List

variable {c : Char}

/-- Only the innermost scope can be a part of a tag, and a string begins with its quote. -/
structure Piece.Orderly (piece : Piece) : Prop where
  token?_outer : ∀ scope ∈ piece.scopes.tail, Scope.token? scope = none
  quote : piece.scopes.head? = some Scope.stringBegin →
    ∃ c, Lexer.isQuote c = true ∧ piece.text = [c]

/-- All pieces are orderly. -/
def Piece.AllOrderly (pieces : List Piece) : Prop := ∀ piece ∈ pieces, piece.Orderly

namespace Piece.AllOrderly

lemma nil : AllOrderly [] := by simp [AllOrderly]

lemma cons {piece : Piece} {pieces : List Piece} (h : piece.Orderly) (hs : AllOrderly pieces) :
    AllOrderly (piece :: pieces) := forall_mem_cons.2 ⟨h, hs⟩

lemma append {a b : List Piece} (ha : AllOrderly a) (hb : AllOrderly b) : AllOrderly (a ++ b) :=
  forall_mem_append.2 ⟨ha, hb⟩

lemma single {piece : Piece} (h : piece.Orderly) : AllOrderly [piece] := .cons h .nil

end Piece.AllOrderly

namespace Lexer

open Piece (AllOrderly)

/-! ## Shapes of pieces -/

lemma orderly_nil (t : Text) : Piece.Orderly ⟨t, []⟩ := ⟨by simp, by simp⟩

lemma orderly_cons (t : Text) {scope : String} {outer : List String}
    (hscope : scope ≠ Scope.stringBegin) (houter : ∀ s ∈ outer, Scope.token? s = none) :
    Piece.Orderly ⟨t, scope :: outer⟩ :=
  ⟨houter, fun h => absurd (Option.some.inj h) hscope⟩

lemma orderly_begin {quote : Char} (hquote : isQuote quote = true) {outer : List String}
    (houter : ∀ s ∈ outer, Scope.token? s = none) :
    Piece.Orderly ⟨[quote], Scope.stringBegin :: outer⟩ :=
  ⟨houter, fun _ => ⟨quote, hquote, rfl⟩⟩

lemma scope_ne_stringBegin (tag : TagState) : tag.scope ≠ Scope.stringBegin := by
  unfold TagState.scope
  split
  · decide
  · cases tag.side <;> decide

lemma stringScope_ne_stringBegin (quote : Char) : stringScope quote ≠ Scope.stringBegin := by
  unfold stringScope
  split <;> decide

/-- A part of a tag, or anything else right inside of it. -/
lemma orderly_inTag (t : Text) {scope : String} (hscope : scope ≠ Scope.stringBegin)
    (tag : TagState) : Piece.Orderly ⟨t, [scope, tag.scope]⟩ :=
  orderly_cons t hscope (by simp)

/-- Code in a tag. -/
lemma Piece.Orderly.code {piece : Piece} (h : piece.Orderly) (tag : TagState) :
    Piece.Orderly ⟨piece.text, piece.scopes ++ [Scope.sourceScript, tag.scope]⟩ := by
  have htoken : ∀ s ∈ [Scope.sourceScript, tag.scope], Scope.token? s = none := by
    simp
  obtain ⟨t, scopes⟩ := piece
  cases scopes with
  | nil => exact orderly_inTag t (by decide) tag
  | cons scope outer =>
    refine ⟨?_, h.quote⟩
    intro s hs
    rcases mem_append.1 hs with hs | hs
    · exact h.token?_outer s hs
    · exact htoken s hs

/-- Code in brackets, with scopes that keep pieces orderly around it. -/
lemma orderly_balanced (opener closer : Char) {wrap : List String → List String}
    (hwrap : ∀ piece : Piece, piece.Orderly → Piece.Orderly ⟨piece.text, wrap piece.scopes⟩)
    (depth : Nat) (t : Text) : AllOrderly (balanced opener closer wrap depth t).1 := by
  have hstring : ∀ inside quote, Piece.Orderly ⟨inside, wrap [stringScope quote]⟩ := by
    intro inside quote
    exact hwrap ⟨inside, [stringScope quote]⟩
      (orderly_cons inside (stringScope_ne_stringBegin quote) (by simp))
  have hbegin : ∀ quote, isQuote quote = true →
      Piece.Orderly ⟨[quote], wrap [Scope.stringBegin, stringScope quote]⟩ := by
    intro quote hquote
    exact hwrap ⟨[quote], [Scope.stringBegin, stringScope quote]⟩
      (orderly_begin hquote (by simp))
  have hend : ∀ quote, Piece.Orderly ⟨[quote], wrap [Scope.stringEnd, stringScope quote]⟩ := by
    intro quote
    exact hwrap ⟨[quote], [Scope.stringEnd, stringScope quote]⟩
      (orderly_cons [quote] (by decide) (by simp))
  have hcode : ∀ c, Piece.Orderly ⟨[c], wrap []⟩ := fun c => hwrap ⟨[c], []⟩ (orderly_nil [c])
  fun_induction balanced opener closer wrap depth t with
  | case1 => exact .nil
  | case2 depth c rest hquote scope quote inside behind h _ pieces left hb ih =>
    rw [hb] at ih
    exact .cons (hbegin c hquote) (.cons (hstring inside c) (.cons (hend c) ih))
  | case3 depth c rest hquote scope quote =>
    exact .cons (hbegin c hquote) (.single (hstring rest c))
  | case4 depth c rest _ piece _ pieces left hb ih =>
    rw [hb] at ih
    exact .cons (hcode c) ih
  | case5 depth c rest _ piece => exact .single (hcode c)
  | case6 depth c rest _ piece _ _ pieces left hb ih =>
    rw [hb] at ih
    exact .cons (hcode c) ih

/-! ## Steps -/

/-- A rule for content gives orderly pieces. -/
lemma ContentRule.allOrderly {s : State} {rest : Text} {next : Step}
    (h : ContentRule s c rest next) : AllOrderly next.pieces := by
  cases h with
  | comment => exact .single (orderly_cons _ (by decide) (by simp))
  | closeTag =>
    exact .cons (orderly_inTag _ (by decide) ⟨.closing, false, .nested⟩)
      (.single (orderly_inTag _ (by decide) ⟨.closing, false, .nested⟩))
  | openTag =>
    exact .cons (orderly_inTag _ (by decide) ⟨.opening, false, .nested⟩)
      (.single (orderly_inTag _ (by decide) ⟨.opening, false, .nested⟩))
  | bracket => exact .single (orderly_nil _)
  | placeholder =>
    have hwrap : ∀ piece : Piece, piece.Orderly → Piece.Orderly ⟨piece.text, []⟩ := fun piece _ =>
      orderly_nil piece.text
    exact .cons (orderly_nil _) (orderly_balanced _ _ hwrap _ _)
  | text => exact .single (orderly_nil _)

lemma orderly_openString (s : State) (tag : TagState) {before : List Piece}
    (hbefore : AllOrderly before) {quote : Char} (hquote : isQuote quote = true) (rest : Text) :
    AllOrderly (openString s tag before quote rest).pieces := by
  refine .append hbefore (.single (orderly_begin hquote ?_))
  simp

lemma orderly_valueStep (s : State) (tag : TagState) (c : Char) (rest : Text) :
    AllOrderly (valueStep s tag c rest).pieces := by
  have hbefore : ∀ gap : Text,
      AllOrderly [⟨[c], [Scope.keyValue, tag.scope]⟩, ⟨gap, [tag.scope]⟩] := fun gap =>
    .cons (orderly_inTag _ (by decide) tag)
      (.single (orderly_cons gap (scope_ne_stringBegin tag) (by simp)))
  unfold valueStep
  dsimp only
  split
  · exact hbefore _
  split
  · next hquote => exact orderly_openString s tag (hbefore _) hquote _
  · exact .append (hbefore _) (.single (orderly_inTag _ (by decide) tag))

lemma orderly_codeStep (s : State) (tag : TagState) (c opener closer : Char) (depth : Nat)
    (rest : Text) : AllOrderly (codeStep s tag c opener closer depth rest).pieces :=
  .cons (orderly_inTag _ (by decide) tag)
    (orderly_balanced _ _ (fun _ h => Piece.Orderly.code h tag) _ _)

lemma TagRule.allOrderly {s : State} {tag : TagState} {rest : Text} {next : Step}
    (h : TagRule s tag c rest next) : AllOrderly next.pieces := by
  have hplain : ∀ t, Piece.Orderly ⟨t, [tag.scope]⟩ := fun t =>
    orderly_cons t (scope_ne_stringBegin tag) (by simp)
  cases h with
  | blanks => exact .single (hplain _)
  | conciseText => exact .single (orderly_nil _)
  | selfClosingEnd => exact .single (orderly_inTag _ (by decide) tag)
  | openTagEnd => exact .single (orderly_inTag _ (by decide) tag)
  | closeTagEnd => exact .single (orderly_inTag _ (by decide) tag)
  | nextTag => exact .nil
  | value => exact orderly_valueStep s tag '=' rest
  | string hquote => exact orderly_openString s tag .nil hquote rest
  | arguments => exact orderly_codeStep s tag _ _ _ _ rest
  | placeholder => exact orderly_codeStep s tag _ _ _ _ rest
  | attributeName => exact .single (orderly_inTag _ (by decide) tag)
  | stray => exact .single (hplain _)

/-- Every step gives orderly pieces. -/
theorem orderly_step (s : State) (c : Char) (rest : Text) :
    AllOrderly (step s c rest).pieces := by
  unfold step
  split
  · exact (contentRule s c rest).allOrderly
  · exact (tagRule s _ c rest).allOrderly
  · next quote tag _ =>
    have hinside : ∀ t, Piece.Orderly ⟨t, [stringScope quote, tag.scope]⟩ := fun t =>
      orderly_inTag t (stringScope_ne_stringBegin quote) tag
    unfold stringStep
    split
    · refine .cons (hinside _) (.single (orderly_cons _ (by decide) ?_))
      simp
    · exact .single (hinside _)
  · unfold commentStep
    split <;> exact .single (orderly_cons _ (by decide) (by simp))
  · next kind _ =>
    unfold rawStep
    cases kind <;> dsimp only <;> split
    all_goals exact .single (orderly_cons _ (by decide) (by simp))

/-! ## Rows and texts -/

/-- A run gives orderly pieces. -/
lemma orderly_run (s : State) (t : Text) : AllOrderly (run s t).1 := by
  fun_induction run s t with
  | case1 => exact .nil
  | case2 s c rest next pieces last h ih =>
    rw [h] at ih
    exact (orderly_step s c rest).append ih

lemma RowRule.allOrderly {s : State} {indent body : Text} {next : Step}
    (h : RowRule s indent body next) : AllOrderly next.pieces := by
  cases h with
  | comment => exact .cons (orderly_nil _) (.single (orderly_cons _ (by decide) (by simp)))
  | mark => exact .cons (orderly_nil _) (.single (orderly_nil _))
  | name =>
    exact .cons (orderly_nil _)
      (.single (orderly_inTag _ (by decide) ⟨.opening, true, .void⟩))
  | content => exact .single (orderly_nil _)

/-- A row has orderly pieces. -/
lemma orderly_row (s : State) (t : Text) : AllOrderly (row s t).1 := by
  unfold row
  dsimp only
  refine .append ?_ (orderly_run _ _)
  split
  · exact (rowRule s t).allOrderly
  · exact .nil

/-- All pieces of all rows are orderly. -/
theorem orderly_rows (s : State) (ts : List Text) : ∀ pieces ∈ rows s ts, AllOrderly pieces := by
  induction ts generalizing s with
  | nil => simp [rows]
  | cons t ts ih =>
    rw [rows]
    exact forall_mem_cons.2 ⟨orderly_row s t, ih _⟩

end Lexer

/-! ## Labels -/

/-- The characters of pieces with their scopes. -/
def Piece.marks (pieces : List Piece) : List (Char × ScopeChain) :=
  pieces.flatMap fun piece => piece.text.map (·, piece.scopes)

lemma Piece.map_fst_marks (pieces : List Piece) : (marks pieces).map Prod.fst = spell pieces := by
  induction pieces with
  | nil => rfl
  | cons piece pieces ih =>
    rw [spell_cons, ← ih]
    simp [marks, Function.comp_def]

lemma Piece.map_snd_marks (pieces : List Piece) : (marks pieces).map Prod.snd = labels pieces := by
  induction pieces with
  | nil => rfl
  | cons piece pieces ih =>
    rw [labels_cons, ← ih]
    simp [marks, Function.comp_def, map_const']

namespace Text

lemma mem_joinRows {α : Type} {gap x : α} {rows : List (List α)} (h : x ∈ joinRows gap rows) :
    x = gap ∨ ∃ row ∈ rows, x ∈ row := by
  induction rows with
  | nil => cases h
  | cons row below ih =>
    cases below with
    | nil => exact .inr ⟨row, mem_cons_self, h⟩
    | cons next below =>
      rcases mem_append.1 h with h | h
      · exact .inr ⟨row, mem_cons_self, h⟩
      rcases mem_cons.1 h with h | h
      · exact .inl h
      · refine (ih h).imp_right ?_
        rintro ⟨row', hrow', hx⟩
        exact ⟨row', mem_cons_of_mem row hrow', hx⟩

/-- Every character of a text is one of an orderly piece, whose scopes are its label. -/
theorem exists_orderly {t : Text} {i : Nat} (hc : t[i]? = some c) (hn : c ≠ '\n') :
    ∃ piece : Piece, piece.Orderly ∧ c ∈ piece.text ∧ t.labels[i]? = some piece.scopes := by
  -- the text with its labels
  let marked := joinRows ('\n', []) ((Lexer.rows {} t.cutAtLineFeeds).map Piece.marks)
  have hfst : marked.map Prod.fst = t := by
    rw [Lexer.map_joinRows, map_map]
    conv => rhs; rw [← joinRows_cutAtLineFeeds t, ← Lexer.map_spell_rows {} t.cutAtLineFeeds]
    exact congrArg _ (map_congr_left fun pieces _ => Piece.map_fst_marks pieces)
  have hsnd : marked.map Prod.snd = t.labels := by
    rw [Lexer.map_joinRows, map_map]
    exact congrArg _ (map_congr_left fun pieces _ => Piece.map_snd_marks pieces)
  rw [← hfst, getElem?_map] at hc
  obtain ⟨x, hx, rfl⟩ := Option.map_eq_some_iff.1 hc
  rcases mem_joinRows (mem_of_getElem? hx) with rfl | ⟨row, hrow, hmem⟩
  · exact absurd rfl hn
  · obtain ⟨pieces, hpieces, rfl⟩ := mem_map.1 hrow
    obtain ⟨piece, hpiece, hmem⟩ := mem_flatMap.1 hmem
    obtain ⟨c, hchar, rfl⟩ := mem_map.1 hmem
    refine ⟨piece, Lexer.orderly_rows _ _ pieces hpieces piece hpiece, hchar, ?_⟩
    rw [← hsnd, getElem?_map, hx]
    rfl

end Text

/-- The scopes at a character of a template are those of an orderly piece that it is one of. -/
theorem Document.exists_orderly {d : Document} (honly : d.text.OnlyLineFeeds)
    (hscopes : d.scopes = Grammar.marko.tokenize d.text) {i : Nat} (hc : d.text[i]? = some c)
    (hn : c ≠ '\n') :
    ∃ piece : Piece, piece.Orderly ∧ c ∈ piece.text ∧
      d.scopesAt (d.text.positionOf i) = piece.scopes ++ [Scope.marko] := by
  obtain ⟨piece, hpiece, hmem, hlabel⟩ := Text.exists_orderly hc hn
  refine ⟨piece, hpiece, hmem, ?_⟩
  rw [← scopesAt_positionOf honly hc hn hlabel, scopesAt, hscopes]
  rfl

end TemplateEditing
