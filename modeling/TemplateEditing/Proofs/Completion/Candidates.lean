import Mathlib.Tactic.Lemma
import TemplateEditing.Completion.Suggestion

/-!
# Candidates for a completion

What is offered for a context is of the kind that the context asks for, and has no score before it
is rated (`unrated_of_mem_candidates`). The tags that are known matter only to contexts that need
them (`candidates_of_not_needsTaglib`), and if the version is not supported, nothing is offered but
values (`candidates_unsupported`).
-/

namespace TemplateEditing

/-- The kind of suggestion that completes something. -/
def CompletionKind.offers : CompletionKind → SuggestionKind
  | .tagStart | .tagEnd => .tag
  | .attributeName => .attributeName
  | .attributeValue => .value

namespace Suggestion

variable {R : Type} [ScoreNumber R]

/-- A suggestion of a kind that has not been rated. -/
structure Unrated (kind : SuggestionKind) (s : Suggestion R) : Prop where
  kind_eq : s.kind = kind
  score_eq : s.score = ScoreNumber.ofNat 0

variable {s : Suggestion R} {tree : FileTree} {lib : Taglib} {c : CompletionContext}

lemma unrated_of_mem_ofCloseTag (h : s ∈ ofCloseTag c) : s.Unrated .tag := by
  unfold ofCloseTag at h
  dsimp only at h
  generalize (if c.wantsClosing = some true then _ else _) = text at h
  split at h
  · cases h
  · rw [List.mem_singleton.1 h]
    exact ⟨rfl, rfl⟩

lemma unrated_of_mem_ofShorthand (h : s ∈ ofShorthand c) : s.Unrated .tag := by
  unfold ofShorthand at h
  split at h
  · cases h
  · rw [List.mem_singleton.1 h]
    exact ⟨rfl, rfl⟩

lemma unrated_of_mem_ofTag {t : TagDef} (h : s ∈ ofTag tree c t) : s.Unrated .tag := by
  unfold ofTag at h
  dsimp only at h
  split at h
  · split at h
    · rw [List.mem_singleton.1 h]
      exact ⟨rfl, rfl⟩
    · rw [List.mem_singleton.1 h]
      exact ⟨rfl, rfl⟩
  · obtain ⟨e, -, rfl⟩ := List.mem_map.1 h
    exact ⟨rfl, rfl⟩

lemma Unrated.ofAttributeEntry {kind : SuggestionKind} (h : s.Unrated kind) (a : AttributeDef)
    (e : CompletionEntry) : (ofAttributeEntry a s e).Unrated kind := by
  unfold Suggestion.ofAttributeEntry
  dsimp only
  repeat' split
  all_goals exact ⟨h.kind_eq, h.score_eq⟩

lemma unrated_of_mem_ofAttribute {a : AttributeDef} {t : TagDef} (h : s ∈ ofAttribute tree c a t) :
    s.Unrated .attributeName := by
  unfold ofAttribute at h
  dsimp only at h
  split at h
  · obtain ⟨e, -, rfl⟩ := List.mem_map.1 h
    refine Unrated.ofAttributeEntry ?_ a e
    exact ⟨rfl, rfl⟩
  repeat' split at h
  all_goals
    rw [List.mem_singleton.1 h]
    exact ⟨rfl, rfl⟩

/-- Candidates are of the kind that the context asks for. -/
lemma unrated_of_mem_candidates {supported : Bool} (h : s ∈ candidates tree lib supported c) :
    ∃ kind, c.kind = some kind ∧ s.Unrated kind.offers := by
  unfold candidates at h
  split at h
  · cases h
  · next hkind =>
    split at h
    · exact ⟨.tagEnd, hkind, unrated_of_mem_ofCloseTag h⟩
    · cases h
  · next hkind =>
    refine ⟨.tagStart, hkind, ?_⟩
    split at h
    · cases h
    split at h
    · exact unrated_of_mem_ofShorthand h
    · obtain ⟨t, -, ht⟩ := List.mem_flatMap.1 h
      exact unrated_of_mem_ofTag ht
  · next hkind =>
    refine ⟨.attributeName, hkind, ?_⟩
    split at h
    · cases h
    split at h
    · obtain ⟨x, -, hx⟩ := List.mem_flatMap.1 h
      exact unrated_of_mem_ofAttribute hx
    · cases h
  · next hkind =>
    refine ⟨.attributeValue, hkind, ?_⟩
    split at h
    · split at h
      · obtain ⟨v, -, rfl⟩ := List.mem_map.1 h
        exact ⟨rfl, rfl⟩
      · cases h
    · cases h

/-- The tags that are known only matter where they are needed. -/
lemma candidates_of_not_needsTaglib (h : c.needsTaglib = false) (lib lib' : Taglib)
    (supported : Bool) :
    (candidates tree lib supported c : List (Suggestion R)) = candidates tree lib' supported c := by
  unfold CompletionContext.needsTaglib at h
  unfold candidates
  split at h
  · next hkind =>
    have hshorthand : c.hasShorthand = true := by simpa using h
    simp only [hkind, hshorthand, if_true]
  · cases h
  · cases h
  · next hkind => rw [hkind]
  · next hkind => rw [hkind]

/-- Without a supported version nothing is offered but values. -/
lemma candidates_unsupported :
    (candidates tree lib false c : List (Suggestion R)) =
      if c.kind = some .attributeValue then candidates tree lib true c else [] := by
  unfold candidates
  split
  · next hkind => rw [hkind, if_neg (by decide)]
  · next hkind => rw [hkind, if_neg (by decide), if_neg (by decide)]
  · next hkind => rw [hkind, if_pos (by decide), if_neg (by decide)]
  · next hkind =>
    rw [hkind, if_neg (by decide)]
    split <;> rfl
  · next hkind => rw [hkind, if_pos rfl]

end Suggestion

end TemplateEditing
