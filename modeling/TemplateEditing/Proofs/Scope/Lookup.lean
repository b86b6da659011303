import Mathlib.Tactic.Lemma
import TemplateEditing.Grammar
import TemplateEditing.Proofs.Bisect

/-!
# Looking up the scopes of a column

The pieces of a row give every character its scopes, one after the other (`Piece.labels`). The spans
that are kept instead say the same: one span for each longest stretch of equal scopes, none for
characters without scopes (`SpansOf`). Adding a span keeps this (`spansOf_add`), and since the spans
are in order the binary search finds the one over a column (`spanAt?_eq_some`, `spanAt?_eq_none`).
So a look-up gives back what the pieces said (`scopesAt_eq`).
-/

namespace TemplateEditing

open List

variable {column : Nat} {row : ScopeRow}

/-- The scopes of each character of pieces that follow each other. -/
def Piece.labels (pieces : List Piece) : List ScopeChain :=
  pieces.flatMap fun piece => List.replicate piece.text.length piece.scopes

@[simp] lemma Piece.labels_nil : labels [] = [] := rfl

@[simp] lemma Piece.labels_cons (piece : Piece) (pieces : List Piece) :
    labels (piece :: pieces) = List.replicate piece.text.length piece.scopes ++ labels pieces := rfl

@[simp] lemma Piece.labels_append (a b : List Piece) : labels (a ++ b) = labels a ++ labels b :=
  flatMap_append

lemma Piece.width_eq (pieces : List Piece) : width pieces = (labels pieces).length := by
  induction pieces with
  | nil => rfl
  | cons piece pieces ih =>
    rw [width_cons, labels_cons, length_append, length_replicate, ih]

/-- The column lies in the span. -/
def ScopeSpan.Covers (span : ScopeSpan) (column : Nat) : Prop :=
  span.start ≤ column ∧ column < span.stop

lemma ScopeSpan.compare_eq_eq {span : ScopeSpan} :
    span.compare column = .eq ↔ span.Covers column := by
  unfold ScopeSpan.compare ScopeSpan.Covers
  split
  · simp only [reduceCtorEq, false_iff]
    omega
  · split
    · simp only [reduceCtorEq, false_iff]
      omega
    · simp only [true_iff]
      omega

lemma ScopeSpan.compare_eq_gt {span : ScopeSpan} (h : span.start < span.stop) :
    span.compare column = .gt ↔ column < span.start := by
  unfold ScopeSpan.compare
  split
  · simp only [reduceCtorEq, false_iff]
    omega
  · split
    · simp only [true_iff]
      assumption
    · simp only [reduceCtorEq, false_iff]
      assumption

/-- The spans that are kept of a row whose characters have these labels: one for each longest
stretch of equal ones, none for characters without scopes. -/
inductive SpansOf : List ScopeSpan → List ScopeChain → Prop
  | nil : SpansOf [] []
  /-- Characters without scopes. -/
  | bare {spans : List ScopeSpan} {labels : List ScopeChain} (n : Nat) :
      SpansOf spans labels → 0 < n → SpansOf spans (labels ++ List.replicate n [])
  /-- Characters with scopes that differ from those of the span right before them. -/
  | snoc {spans : List ScopeSpan} {labels : List ScopeChain} (n : Nat) (scopes : ScopeChain) :
      SpansOf spans labels → 0 < n → scopes ≠ [] →
      (∀ last ∈ spans.getLast?, last.stop = labels.length → last.scopes ≠ scopes) →
      SpansOf (spans ++ [⟨labels.length, labels.length + n, scopes⟩])
        (labels ++ List.replicate n scopes)

namespace SpansOf

variable {spans : List ScopeSpan} {labels : List ScopeChain} {span : ScopeSpan}

lemma stop_le_length (h : SpansOf spans labels) (hmem : span ∈ spans) :
    span.stop ≤ labels.length := by
  induction h with
  | nil => exact nomatch hmem
  | bare n _ _ ih =>
    rw [length_append]
    exact Nat.le_trans (ih hmem) (Nat.le_add_right _ _)
  | snoc n scopes _ _ _ _ ih =>
    rw [length_append, length_replicate]
    rcases mem_append.1 hmem with hold | hnew
    · exact Nat.le_trans (ih hold) (Nat.le_add_right _ _)
    · obtain rfl := mem_singleton.1 hnew
      exact Nat.le_refl _

lemma start_lt_stop (h : SpansOf spans labels) (hmem : span ∈ spans) :
    span.start < span.stop := by
  induction h with
  | nil => exact nomatch hmem
  | bare n _ _ ih => exact ih hmem
  | snoc n scopes _ hn _ _ ih =>
    rcases mem_append.1 hmem with hold | hnew
    · exact ih hold
    · rw [mem_singleton.1 hnew]
      exact Nat.lt_add_of_pos_right hn

lemma sorted (h : SpansOf spans labels) : spans.Pairwise fun a b => a.stop ≤ b.start := by
  induction h with
  | nil => exact .nil
  | bare n _ _ ih => exact ih
  | snoc n scopes h _ _ _ ih =>
    rw [pairwise_append]
    refine ⟨ih, pairwise_singleton _ _, ?_⟩
    intro a ha b hb
    rw [mem_singleton.1 hb]
    exact h.stop_le_length ha

/-- Under a span all characters have its scopes. -/
lemma label_of_covers (h : SpansOf spans labels) (hmem : span ∈ spans)
    (hcovers : span.Covers column) : labels[column]? = some span.scopes := by
  induction h with
  | nil => exact nomatch hmem
  | bare n h _ ih =>
    rw [getElem?_append_left (Nat.lt_of_lt_of_le hcovers.2 (h.stop_le_length hmem))]
    exact ih hmem
  | snoc n scopes h _ _ _ ih =>
    rcases mem_append.1 hmem with hold | hnew
    · rw [getElem?_append_left (Nat.lt_of_lt_of_le hcovers.2 (h.stop_le_length hold))]
      exact ih hold
    · rw [mem_singleton.1 hnew] at hcovers ⊢
      obtain ⟨hstart, hstop⟩ := hcovers
      simp only at hstart hstop
      rw [getElem?_append_right hstart, getElem?_replicate, if_pos (by omega)]

lemma scopes_ne_nil (h : SpansOf spans labels) (hmem : span ∈ spans) : span.scopes ≠ [] := by
  induction h with
  | nil => exact nomatch hmem
  | bare n _ _ ih => exact ih hmem
  | snoc n scopes _ _ hne _ ih =>
    rcases mem_append.1 hmem with hold | hnew
    · exact ih hold
    · rw [mem_singleton.1 hnew]
      exact hne

/-- A character with scopes is under a span. -/
lemma exists_covers (h : SpansOf spans labels) {label : ScopeChain}
    (hlabel : labels[column]? = some label) (hne : label ≠ []) :
    ∃ span ∈ spans, span.Covers column := by
  induction h with
  | nil => simp at hlabel
  | @bare spans labels n _ _ ih =>
    rcases Nat.lt_or_ge column labels.length with hlt | hge
    · rw [getElem?_append_left hlt] at hlabel
      exact ih hlabel
    · rw [getElem?_append_right hge] at hlabel
      have hmem := mem_of_getElem? hlabel
      exact absurd (eq_of_mem_replicate hmem) hne
  | @snoc spans labels n scopes _ _ _ _ ih =>
    rcases Nat.lt_or_ge column labels.length with hlt | hge
    · rw [getElem?_append_left hlt] at hlabel
      obtain ⟨span, hmem, hcovers⟩ := ih hlabel
      exact ⟨span, mem_append_left _ hmem, hcovers⟩
    · have hlt := (List.getElem?_eq_some_iff.1 hlabel).1
      rw [length_append, length_replicate] at hlt
      exact ⟨_, mem_append_right _ (mem_singleton.2 rfl), hge, hlt⟩

/-- A last span that reaches up to the end can be longer. -/
lemma extend {start : Nat} {scopes : ScopeChain}
    (h : SpansOf (spans ++ [⟨start, labels.length, scopes⟩]) labels) (n : Nat) :
    SpansOf (spans ++ [⟨start, labels.length + n, scopes⟩])
      (labels ++ List.replicate n scopes) := by
  generalize hall : spans ++ [⟨start, labels.length, scopes⟩] = all at h
  cases h with
  | nil => simp at hall
  | @bare _ labels m h hm =>
    -- a span does not reach over characters without scopes
    have hmem : (⟨start, (labels ++ List.replicate m []).length, scopes⟩ : ScopeSpan) ∈ all := by
      rw [← hall]
      exact mem_append_right _ (mem_singleton.2 rfl)
    have hle : (labels ++ List.replicate m []).length ≤ labels.length := h.stop_le_length hmem
    rw [length_append, length_replicate] at hle
    omega
  | @snoc before labels m scopes' h hm hne hnew =>
    obtain ⟨rfl, hlast⟩ := append_inj' hall rfl
    simp only [List.cons.injEq, ScopeSpan.mk.injEq, and_true] at hlast
    obtain ⟨rfl, -, rfl⟩ := hlast
    rw [append_assoc, replicate_append_replicate, length_append,
      length_replicate, Nat.add_assoc]
    exact h.snoc (m + n) scopes (by omega) hne hnew

end SpansOf

namespace ScopeRow

/-- Adding a span behind all labels adds its scopes to them. -/
lemma spansOf_add {labels : List ScopeChain} (h : SpansOf row.spans labels)
    (n : Nat) (scopes : ScopeChain) :
    SpansOf (row.add labels.length (labels.length + n) scopes).spans
      (labels ++ List.replicate n scopes) := by
  unfold ScopeRow.add
  by_cases hn : n = 0
  · subst hn
    rw [if_pos (by simp), replicate_zero, append_nil]
    exact h
  by_cases hscopes : scopes = []
  · subst hscopes
    rw [if_pos (by simp)]
    exact h.bare n (by omega)
  rw [if_neg (by simp [hscopes]; omega)]
  split
  · -- the last span goes on if it has the same scopes and ends where this one starts
    next last hlast =>
    split
    · next hsame =>
      obtain ⟨start, stop, same⟩ := last
      simp only [Bool.and_eq_true, beq_iff_eq] at hsame
      obtain ⟨rfl, rfl⟩ := hsame
      obtain ⟨spans, hspans⟩ := getLast?_eq_some_iff.1 hlast
      rw [hspans] at h ⊢
      simp only [dropLast_concat]
      exact h.extend n
    · next hdiffer =>
      apply h.snoc n scopes (by omega) hscopes
      intro last' hlast' hstop heq
      rw [hlast, Option.mem_some_iff] at hlast'
      subst hlast'
      exact hdiffer (by simp [hstop, heq])
  · next hnone =>
    have hnil : row.spans = [] := getLast?_eq_none_iff.1 hnone
    have hsnoc := h.snoc n scopes (by omega) hscopes (by simp [hnil])
    rw [hnil, nil_append] at hsnoc
    exact hsnoc

/-- Adding the spans of pieces behind all labels adds the labels of the pieces. -/
lemma spansOf_addAll {labels : List ScopeChain} (h : SpansOf row.spans labels)
    (pieces : List Piece) :
    SpansOf (row.addAll (Piece.spans labels.length pieces)).spans
      (labels ++ Piece.labels pieces) := by
  induction pieces generalizing row labels with
  | nil =>
    rw [Piece.labels_nil, append_nil]
    exact h
  | cons piece pieces ih =>
    have hnext := ih (spansOf_add h piece.text.length piece.scopes)
    rw [length_append, length_replicate, append_assoc] at hnext
    rw [Piece.labels_cons]
    exact hnext

@[simp]
lemma length_add (row : ScopeRow) (start stop : Nat) (scopes : ScopeChain) :
    (row.add start stop scopes).length = row.length := by
  unfold add
  split
  · rfl
  · split
    · split <;> rfl
    · rfl

lemma length_addAll (row : ScopeRow) (spans : List ScopeSpan) :
    (row.addAll spans).length = row.length := by
  induction spans generalizing row with
  | nil => rfl
  | cons span spans ih => exact (ih _).trans (length_add ..)

/-- The spans of pieces say what the pieces say. -/
lemma spansOf_ofPieces (pieces : List Piece) :
    SpansOf (ofPieces pieces).spans (Piece.labels pieces) ∧
      (ofPieces pieces).length = (Piece.labels pieces).length := by
  have hnone : SpansOf ({ length := Piece.width pieces } : ScopeRow).spans [] := .nil
  exact ⟨spansOf_addAll hnone pieces, (length_addAll ..).trans (Piece.width_eq pieces)⟩

/-! ## Search -/

lemma spanAt?_eq_some {labels : List ScopeChain} (h : SpansOf row.spans labels)
    {span : ScopeSpan} (hmem : span ∈ row.spans) (hcovers : span.Covers column) :
    row.spanAt? column = some span := by
  obtain ⟨k, hk, rfl⟩ := mem_iff_getElem.1 hmem
  have hget : row.spans[k]? = some row.spans[k] := getElem?_eq_getElem hk
  have hsorted := pairwise_iff_getElem.1 h.sorted
  have hlast : LastNotAbove (·.compare column) row.spans k := by
    refine ⟨hk, ?_, ?_⟩
    · intro j x hx hjk hgt
      rw [ScopeSpan.compare_eq_gt (h.start_lt_stop (mem_of_getElem? hx))] at hgt
      obtain ⟨hj, rfl⟩ := List.getElem?_eq_some_iff.1 hx
      have hstart := hcovers.1
      rcases Nat.lt_or_eq_of_le hjk with hlt | rfl
      · have := hsorted j k hj hk hlt
        have := h.start_lt_stop (getElem_mem hj)
        omega
      · omega
    · intro j x hx hkj
      rw [ScopeSpan.compare_eq_gt (h.start_lt_stop (mem_of_getElem? hx))]
      obtain ⟨hj, rfl⟩ := List.getElem?_eq_some_iff.1 hx
      have := hsorted k j hk hj hkj
      have := hcovers.2
      omega
  rw [spanAt?, bisect_eq hlast hget, if_pos (ScopeSpan.compare_eq_eq.2 hcovers)]
  exact hget

lemma spanAt?_eq_none (h : ∀ span ∈ row.spans, ¬ span.Covers column) :
    row.spanAt? column = none := by
  obtain ⟨k, hk⟩ : ∃ k, bisect (·.compare column) row.spans = .gap k :=
    bisect_of_forall_ne fun span hmem heq => h span hmem (ScopeSpan.compare_eq_eq.1 heq)
  rw [spanAt?, hk]

end ScopeRow

/-- The scopes at a position are those of the character there, and the root. -/
theorem ScopeMap.scopesAt_eq {m : ScopeMap} {p : Position} {pieces : List Piece}
    (hrow : m.rows[p.row]? = some (.ofPieces pieces)) {label : ScopeChain}
    (hlabel : (Piece.labels pieces)[p.column]? = some label) :
    m.scopesAt p = label ++ [m.root] := by
  obtain ⟨hspans, hlength⟩ := ScopeRow.spansOf_ofPieces pieces
  have hlt := (List.getElem?_eq_some_iff.1 hlabel).1
  rw [← hlength] at hlt
  have hmin : min p.column ((ScopeRow.ofPieces pieces).length - 1) = p.column := by omega
  rw [scopesAt, hrow]
  simp only
  rw [if_neg (by omega), hmin]
  by_cases hne : label = []
  · rw [ScopeRow.spanAt?_eq_none]
    · rw [hne, nil_append]
    · -- a span over the character would give it scopes
      intro span hmem hcovers
      have hscopes := hspans.label_of_covers hmem hcovers
      rw [hlabel, Option.some.injEq, hne] at hscopes
      exact hspans.scopes_ne_nil hmem hscopes.symm
  · obtain ⟨span, hmem, hcovers⟩ := hspans.exists_covers hlabel hne
    have hscopes := hspans.label_of_covers hmem hcovers
    rw [hlabel, Option.some.injEq] at hscopes
    rw [ScopeRow.spanAt?_eq_some hspans hmem hcovers, hscopes]

/-- Where the lexer gave a piece to a character, the scopes are those of the piece and the root. -/
theorem Grammar.scopesAt_tokenize {t : Text} {p : Position} {pieces : List Piece}
    {label : ScopeChain} (hpieces : (Lexer.rows {} t.grammarRows)[p.row]? = some pieces)
    (hlabel : (Piece.labels pieces)[p.column]? = some label) :
    (marko.tokenize t).scopesAt p = label ++ [Scope.marko] := by
  rw [tokenize_marko]
  exact ScopeMap.scopesAt_eq ((getElem?_map ..).trans (congrArg _ hpieces)) hlabel

end TemplateEditing
