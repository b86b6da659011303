import TemplateEditing.Assistant
import TemplateEditing.Proofs.Completion.Ranking
import TemplateEditing.Proofs.Text.Walk

/-!
# Suggestions without the library

The library of a project is only read for contexts that need it. For the others it makes no
difference (`Suggestion.forContext_of_not_needsTaglib`), but with the library the version of the
project is skipped as well. So close tags and tags with classes are offered as if the version were
unknown, and the answer is the one that the library and the version would give exactly if the
version is supported or there is nothing to offer (`Assistant.suggestions_eq_fullSuggestions_iff`).
-/

namespace TemplateEditing

variable {R : Type} [ScoreNumber R]

namespace Suggestion

variable {scorer : Scorer R} {tree : FileTree} {lib : Taglib} {version : Option Nat}
  {minVersion : Nat} {c : CompletionContext}

lemma forContext_of_candidates_nil
    (h : (candidates tree lib (isSupported version minVersion) c : List (Suggestion R)) = []) :
    forContext scorer tree lib version minVersion c = [] := by
  simp [forContext, h, rated, ranked]

lemma forContext_of_kind_none (h : c.kind = none) :
    forContext scorer tree lib version minVersion c = [] :=
  forContext_of_candidates_nil (by rw [candidates, h])

/-- The library only matters where it is needed. -/
lemma forContext_of_not_needsTaglib (h : c.needsTaglib = false) (lib lib' : Taglib) :
    forContext scorer tree lib version minVersion c =
      forContext scorer tree lib' version minVersion c := by
  rw [forContext, candidates_of_not_needsTaglib h lib lib', ← forContext]

/-- A supported version might as well be unknown. -/
lemma forContext_of_isSupported (h : isSupported version minVersion = true) :
    forContext scorer tree lib version minVersion c =
      forContext scorer tree lib none minVersion c := by
  rw [forContext, h]
  rfl

/-- With a version that is not supported, a context that does not need the library has no
suggestions. -/
lemma forContext_unsupported (h : isSupported version minVersion = false)
    (hneeds : c.needsTaglib = false) : forContext scorer tree lib version minVersion c = [] := by
  have hkind : c.kind ≠ some .attributeValue := by
    intro hkind
    simp [CompletionContext.needsTaglib, hkind] at hneeds
  apply forContext_of_candidates_nil
  rw [h, candidates_unsupported, if_neg hkind]

/-- Suggestions are of the kind that the context asks for. -/
lemma kind_of_mem_forContext {s : Suggestion R}
    (hs : s ∈ forContext scorer tree lib version minVersion c) :
    ∃ kind, c.kind = some kind ∧ s.kind = kind.offers := by
  refine forall_mem_ranked _ (P := fun s => ∃ kind, c.kind = some kind ∧ s.kind = kind.offers)
    (fun s i h => h) (fun s hs => ?_) s hs
  obtain ⟨t, ht, heq⟩ := List.mem_filterMap.1 hs
  obtain ⟨kind, hkind, hunrated⟩ := unrated_of_mem_candidates ht
  refine ⟨kind, hkind, ?_⟩
  rw [← hunrated.kind_eq]
  dsimp only at heq
  split at heq
  · rw [← Option.some.inj heq]
  split at heq
  · cases heq
  · rw [← Option.some.inj heq]

/-- With a version that is not supported, only values are offered. -/
lemma kind_of_mem_forContext_unsupported (h : isSupported version minVersion = false)
    {s : Suggestion R} (hs : s ∈ forContext scorer tree lib version minVersion c) :
    s.kind = .value := by
  obtain ⟨kind, hkind, heq⟩ := kind_of_mem_forContext hs
  by_cases hvalue : c.kind = some .attributeValue
  · rw [heq, Option.some.inj (hkind.symm.trans hvalue)]
    rfl
  · have hnil : forContext scorer tree lib version minVersion c = [] := by
      apply forContext_of_candidates_nil
      rw [h, candidates_unsupported, if_neg hvalue]
    rw [hnil] at hs
    cases hs

end Suggestion

/-! ## The assistant -/

namespace TaglibCache

/-- Asking for a library does not change what is known about versions. -/
lemma markoVersion_lookup (cache : TaglibCache) (tree : FileTree) (folder : Path) :
    ((cache.lookup tree folder).2.markoVersion tree folder).1 =
      (cache.markoVersion tree folder).1 := by
  have hcache : (cache.lookup tree folder).2.options = cache.options ∧
      (cache.lookup tree folder).2.versions = cache.versions := by
    unfold lookup
    dsimp only
    split
    · exact ⟨rfl, rfl⟩
    · split <;> exact ⟨rfl, rfl⟩
  unfold markoVersion rootOf
  rw [hcache.1, hcache.2]
  dsimp only
  split <;> rfl

end TaglibCache

namespace Assistant

variable (a : Assistant R) (tree : FileTree) (d : Document) (p : Position)

/-- The library for a document. -/
def library : Except TaglibError Taglib := (a.cache.lookup tree (a.folderOf d)).1

/-- The version of Marko for a document. -/
def version : Option Nat := (a.cache.markoVersion tree (a.folderOf d)).1

/-- The suggestions that a library and a version give at a position. -/
def suggestionsOf (lib : Taglib) (version : Option Nat) : List (Suggestion R) :=
  Suggestion.forContext a.scorer tree lib version a.settings.completion.minVersion
    (d.completionContext p)

/-- The suggestions at a position if nothing is skipped. -/
def fullSuggestions : Except TaglibError (List (Suggestion R)) :=
  (a.library tree d).map fun lib => a.suggestionsOf tree d p lib (a.version tree d)

lemma suggestions_of_disabled (h : a.settings.completion.enabled = false) :
    (a.suggestions tree d p).1 = .ok [] := by
  simp [suggestions, h]

variable {a tree d p}

lemma suggestions_of_needsTaglib (henabled : a.settings.completion.enabled = true)
    (h : (d.completionContext p).needsTaglib = true) :
    (a.suggestions tree d p).1 = a.fullSuggestions tree d p := by
  have hkind : (d.completionContext p).kind.isNone = false := by
    cases hkind : (d.completionContext p).kind with
    | none => simp [CompletionContext.needsTaglib, hkind] at h
    | some kind => rfl
  have hversion := a.cache.markoVersion_lookup tree (a.folderOf d)
  unfold suggestions fullSuggestions library
  simp only [henabled, hkind, h, Bool.not_true, Bool.or_false, Bool.false_eq_true, if_false,
    if_true]
  cases hlookup : a.cache.lookup tree (a.folderOf d) with
  | mk result cache =>
    rw [hlookup] at hversion
    cases result with
    | error e => rfl
    | ok lib =>
      dsimp only [Except.map]
      rw [hversion]
      rfl

lemma suggestions_of_not_needsTaglib (henabled : a.settings.completion.enabled = true)
    (h : (d.completionContext p).needsTaglib = false) (lib : Taglib) :
    (a.suggestions tree d p).1 = .ok (a.suggestionsOf tree d p lib none) := by
  cases hkind : (d.completionContext p).kind with
  | none =>
    rw [suggestionsOf, Suggestion.forContext_of_kind_none hkind]
    simp [suggestions, hkind]
  | some kind =>
    rw [suggestionsOf, Suggestion.forContext_of_not_needsTaglib h lib {}]
    simp [suggestions, henabled, hkind, h]

/-- What is offered for a context that does not need the library are tags. -/
lemma kind_of_mem_suggestionsOf (h : (d.completionContext p).needsTaglib = false) {lib : Taglib}
    {version : Option Nat} {s : Suggestion R} (hs : s ∈ a.suggestionsOf tree d p lib version) :
    s.kind = .tag := by
  obtain ⟨kind, hkind, heq⟩ := Suggestion.kind_of_mem_forContext hs
  cases kind with
  | tagStart => exact heq
  | tagEnd => exact heq
  | attributeName => simp [CompletionContext.needsTaglib, hkind] at h
  | attributeValue => simp [CompletionContext.needsTaglib, hkind] at h

/-- Without the library, a version that is not supported makes a difference if there is something to
offer. -/
lemma suggestionsOf_eq_iff (h : (d.completionContext p).needsTaglib = false) (lib : Taglib)
    (version : Option Nat) :
    a.suggestionsOf tree d p lib none = a.suggestionsOf tree d p lib version ↔
      Suggestion.isSupported version a.settings.completion.minVersion = true ∨
        a.suggestionsOf tree d p lib none = [] := by
  by_cases hsupported : Suggestion.isSupported version a.settings.completion.minVersion = true
  · have heq : a.suggestionsOf tree d p lib version = a.suggestionsOf tree d p lib none :=
      Suggestion.forContext_of_isSupported hsupported
    exact iff_of_true heq.symm (.inl hsupported)
  · have hnil : a.suggestionsOf tree d p lib version = [] :=
      Suggestion.forContext_unsupported (by simpa using hsupported) h
    rw [hnil, or_iff_right hsupported]

/-- **Skipping the library skips the version.** If completion is turned off, nothing is offered.
Otherwise a context that does not need the library is answered as if the version were unknown,
whatever the library is. So the answer is the one that the library and the version give exactly if
the library is needed, or if it can be read and either the version is supported or there is nothing
to offer. With a version that is not supported only values should be offered, and what is offered
besides are tags for contexts that do not need the library. -/
theorem suggestions_eq_fullSuggestions_iff (a : Assistant R) (tree : FileTree) (d : Document)
    (p : Position) :
    let needsTaglib := (d.completionContext p).needsTaglib
    let supported := Suggestion.isSupported (a.version tree d) a.settings.completion.minVersion
    (a.settings.completion.enabled = false → (a.suggestions tree d p).1 = .ok []) ∧
    (a.settings.completion.enabled = true →
      ((a.suggestions tree d p).1 = a.fullSuggestions tree d p ↔
        needsTaglib = true ∨ ∃ lib, a.library tree d = .ok lib ∧
          (supported = true ∨ a.suggestionsOf tree d p lib none = [])) ∧
      (needsTaglib = false → ∀ lib,
        (a.suggestions tree d p).1 = .ok (a.suggestionsOf tree d p lib none)) ∧
      (supported = false →
        (∀ shown, a.fullSuggestions tree d p = .ok shown → ∀ s ∈ shown, s.kind = .value) ∧
        ∀ shown, (a.suggestions tree d p).1 = .ok shown → ∀ s ∈ shown,
          s.kind = .value ∨ s.kind = .tag ∧ needsTaglib = false)) := by
  intro needsTaglib supported
  refine ⟨suggestions_of_disabled a tree d p, fun henabled => ?_⟩
  have hfull : supported = false → ∀ shown, a.fullSuggestions tree d p = .ok shown →
      ∀ s ∈ shown, s.kind = .value := by
    intro hsupported shown hshown s hs
    rw [fullSuggestions] at hshown
    cases hlib : a.library tree d with
    | error e =>
      rw [hlib] at hshown
      cases hshown
    | ok lib =>
      rw [hlib] at hshown
      obtain rfl := Except.ok.inj hshown
      exact Suggestion.kind_of_mem_forContext_unsupported hsupported hs
  cases hneeds : needsTaglib with
  | true =>
    have heq : (a.suggestions tree d p).1 = a.fullSuggestions tree d p :=
      suggestions_of_needsTaglib henabled hneeds
    refine ⟨iff_of_true heq (.inl rfl), (by cases ·), fun hsupported => ?_⟩
    refine ⟨hfull hsupported, fun shown hshown s hs => .inl ?_⟩
    exact hfull hsupported shown (heq.symm.trans hshown) s hs
  | false =>
    have heq : ∀ lib, (a.suggestions tree d p).1 = .ok (a.suggestionsOf tree d p lib none) :=
      suggestions_of_not_needsTaglib henabled hneeds
    refine ⟨?_, fun _ => heq, fun hsupported => ⟨hfull hsupported, fun shown hshown s hs => ?_⟩⟩
    · rw [fullSuggestions]
      cases hlib : a.library tree d with
      | error e => simp [heq {}, Except.map]
      | ok lib => simp [heq lib, Except.map, suggestionsOf_eq_iff hneeds, supported]
    · obtain rfl := Except.ok.inj ((heq {}).symm.trans hshown)
      exact .inr ⟨kind_of_mem_suggestionsOf hneeds hs, rfl⟩

/-- A project with an old version of Marko. -/
def sampleProject : FileTree where
  entries :=
    [(["package.json"], .file "\x7b\x7d"), (["node_modules"], .folder),
      (["node_modules", "marko"], .folder),
      (["node_modules", "marko", "package.json"], .file "\x7b\"version\":\"2.0.0\"\x7d")]

/-- A document in which a close tag has been begun. -/
def sampleDocument : Document := .ofText .marko "<div></".toList

/-- An assistant that has not been asked anything. -/
def sample : Assistant Rat := .start {} none (.similarity Rat)

/-- The close tag is offered, though the version is known and not supported. -/
theorem suggestions_sampleProject :
    sample.version sampleProject sampleDocument = some 2 ∧
      sample.settings.completion.minVersion = 3 ∧
      (sample.suggestions sampleProject sampleDocument ⟨0, 7⟩).1.map
        (·.map fun s => (s.kind, s.inserted)) = .ok [(.tag, "div>")] := by
  have hwalk := Text.walkBack_positionOf (t := sampleDocument.text) (i := 7) (by decide) (by decide)
  have hposition : sampleDocument.text.positionOf 7 = ⟨0, 7⟩ := by decide
  have hcontext : sampleDocument.completionContext ⟨0, 7⟩ =
      { kind := some .tagEnd, tagName := some ['d', 'i', 'v'], wantsClosing := some true } := by
    rw [Document.completionContext, Document.enclosingNames?, ← hposition, hwalk]
    decide +kernel
  refine ⟨by decide +kernel, rfl, ?_⟩
  rw [suggestions, hcontext]
  decide +kernel

end Assistant

end TemplateEditing
