import Mathlib.Algebra.Order.Field.Rat
import Mathlib.Tactic.Linarith
import Mathlib.Tactic.Positivity
import TemplateEditing.Proofs.Completion.Ranking

/-!
# Similar texts

The similarity of two texts by Jaro and Winkler, in exact numbers. The characters that match are no
more than either text has (`length_matching_le_left`, `length_matching_le_right`), and there are
some exactly if the texts meet: if they have a character in common at places that are less than the
window apart (`matching_ne_nil_iff`). So the similarity is at most one (`jaroWinkler_le_one`), and
positive only for texts that meet (`jaroWinkler_pos_iff`).

Hence what begins with what was typed is always rated higher than what does not
(`similarity_prefix_lt`), but what contains the typed characters in order may be rated zero and
dropped (`offered_iff_meet`).
-/

namespace TemplateEditing

open List

variable {a b : Text}

open scoped List

namespace Similarity

/-- Two texts have a character in common at places that are less than the window apart. -/
def Meet (a b : Text) : Prop :=
  ∃ i j c, a[i]? = some c ∧ b[j]? = some c ∧
    i < j + window a.length b.length ∧ j < i + window a.length b.length

lemma window_pos (m n : Nat) : 0 < window m n := by
  unfold window
  omega

/-! ## Marks -/

section
variable {c : Char} {low high : Nat}

/-- A mark is set if a character that is equal and not marked yet stands where it is looked for. -/
lemma isSome_mark?_iff {i : Nat} {marks : List (Char × Bool)} :
    (mark? c low high i marks).isSome ↔
      ∃ k, marks[k]? = some (c, false) ∧ low ≤ i + k ∧ i + k < high := by
  induction marks generalizing i with
  | nil => simp [mark?]
  | cons m marks ih =>
    obtain ⟨d, marked⟩ := m
    rw [mark?]
    split
    · next h =>
      obtain ⟨hlow, hhigh, rfl, rfl⟩ := h
      exact iff_of_true rfl ⟨0, rfl, hlow, hhigh⟩
    · next h =>
      rw [Option.isSome_map, ih]
      constructor
      · rintro ⟨k, hk, hlow, hhigh⟩
        exact ⟨k + 1, hk, by omega, by omega⟩
      · rintro ⟨k, hk, hlow, hhigh⟩
        cases k with
        | zero =>
          obtain ⟨rfl, rfl⟩ := Prod.mk.inj (Option.some.inj hk)
          exact absurd ⟨hlow, hhigh, rfl, rfl⟩ h
        | succ k => exact ⟨k, hk, by omega, by omega⟩

/-- One mark is set at a time. -/
lemma countP_mark? {i : Nat} {marks marks' : List (Char × Bool)}
    (h : mark? c low high i marks = some marks') :
    marks'.length = marks.length ∧ marks'.countP (·.2) = marks.countP (·.2) + 1 := by
  induction marks generalizing i marks' with
  | nil => cases h
  | cons m marks ih =>
    obtain ⟨d, marked⟩ := m
    rw [mark?] at h
    split at h
    · next hfree =>
      obtain ⟨-, -, -, rfl⟩ := hfree
      obtain rfl := Option.some.inj h
      exact ⟨rfl, by simp⟩
    · obtain ⟨rest, hrest, rfl⟩ := Option.map_eq_some_iff.1 h
      obtain ⟨hlength, hcount⟩ := ih hrest
      refine ⟨by simp [hlength], ?_⟩
      rw [countP_cons, countP_cons, hcount]
      omega

end

/-! ## Matching characters -/

/-- Each matching character sets a mark. -/
lemma countP_pairUp (reach i : Nat) (marks : List (Char × Bool)) (t : Text) :
    (pairUp reach i marks t).2.length = marks.length ∧
      (pairUp reach i marks t).2.countP (·.2) =
        marks.countP (·.2) + (pairUp reach i marks t).1.length := by
  induction t generalizing i marks with
  | nil => exact ⟨rfl, rfl⟩
  | cons c t ih =>
    rw [pairUp]
    split
    · next marks' hmark =>
      obtain ⟨hlength, hcount⟩ := countP_mark? hmark
      obtain ⟨ihlength, ihcount⟩ := ih (i + 1) marks'
      refine ⟨ihlength.trans hlength, ?_⟩
      show (pairUp reach (i + 1) marks' t).2.countP (·.2) =
        marks.countP (·.2) + ((pairUp reach (i + 1) marks' t).1.length + 1)
      omega
    · exact ih (i + 1) marks

lemma length_pairUp_le (reach i : Nat) (marks : List (Char × Bool)) (t : Text) :
    (pairUp reach i marks t).1.length ≤ t.length := by
  induction t generalizing i marks with
  | nil => exact Nat.le_refl 0
  | cons c t ih =>
    rw [pairUp]
    split
    · exact Nat.succ_le_succ (ih (i + 1) _)
    · exact Nat.le_succ_of_le (ih (i + 1) marks)

/-- As long as no character finds a partner, the marks stay as they are. -/
lemma pairUp_ne_nil_iff {reach i : Nat} {marks : List (Char × Bool)} {t : Text} :
    (pairUp reach i marks t).1 ≠ [] ↔
      ∃ k c, t[k]? = some c ∧
        (mark? c (i + k - (reach - 1)) (i + k + reach) 0 marks).isSome := by
  induction t generalizing i with
  | nil => simp [pairUp]
  | cons c t ih =>
    rw [pairUp]
    split
    · next marks' hmark =>
      refine iff_of_true (cons_ne_nil _ _) ⟨0, c, rfl, ?_⟩
      rw [Nat.add_zero, hmark]
      rfl
    · next hmark =>
      rw [ih]
      constructor
      · rintro ⟨k, d, hk, hsome⟩
        refine ⟨k + 1, d, hk, ?_⟩
        rwa [show i + (k + 1) = i + 1 + k by omega]
      · rintro ⟨k, d, hk, hsome⟩
        cases k with
        | zero =>
          obtain rfl := Option.some.inj hk
          rw [Nat.add_zero, hmark] at hsome
          cases hsome
        | succ k =>
          refine ⟨k, d, hk, ?_⟩
          rwa [show i + 1 + k = i + (k + 1) by omega]

lemma length_matching_le_left (a b : Text) : (matching a b).1.length ≤ a.length :=
  length_pairUp_le _ _ _ _

lemma length_matching_le_right (a b : Text) : (matching a b).1.length ≤ b.length := by
  obtain ⟨hlength, hcount⟩ :=
    countP_pairUp (window a.length b.length) 0 (b.map (·, false)) a
  have hnone : (b.map (·, false)).countP (·.2) = 0 := by simp [countP_map, Function.comp_def]
  calc
    (matching a b).1.length = (pairUp _ 0 (b.map (·, false)) a).2.countP (·.2) := by
      rw [hcount, hnone, Nat.zero_add]
      rfl
    _ ≤ (pairUp _ 0 (b.map (·, false)) a).2.length := countP_le_length
    _ = b.length := by rw [hlength, length_map]

/-- Some characters match exactly if the texts meet. -/
lemma matching_ne_nil_iff (a b : Text) : (matching a b).1 ≠ [] ↔ Meet a b := by
  have hwindow := window_pos a.length b.length
  refine pairUp_ne_nil_iff.trans ⟨?_, ?_⟩
  · rintro ⟨i, c, hi, hsome⟩
    obtain ⟨j, hj, hlow, hhigh⟩ := isSome_mark?_iff.1 hsome
    rw [getElem?_map] at hj
    obtain ⟨d, hd, heq⟩ := Option.map_eq_some_iff.1 hj
    obtain ⟨rfl, -⟩ := Prod.mk.inj heq
    exact ⟨i, j, d, hi, hd, by omega, by omega⟩
  · rintro ⟨i, j, c, hi, hj, hij, hji⟩
    refine ⟨i, c, hi, isSome_mark?_iff.2 ⟨j, ?_, by omega, by omega⟩⟩
    rw [getElem?_map, hj]
    rfl

/-- Texts that begin alike meet. -/
lemma meet_of_isPrefix (h : b <+: a) (hb : b ≠ []) : Meet a b := by
  have hwindow := window_pos a.length b.length
  obtain ⟨rest, rfl⟩ := h
  obtain ⟨c, b, rfl⟩ := exists_cons_of_ne_nil hb
  exact ⟨0, 0, c, rfl, rfl, by omega, by omega⟩

/-- A text that contains another one in order, and little else, meets it: what stands before the
first character of the other one is shorter than the window. -/
lemma meet_of_sublist (h : b <+ a) (hb : b ≠ [])
    (hlength : a.length < b.length + window a.length b.length) : Meet a b := by
  obtain ⟨c, b, rfl⟩ := exists_cons_of_ne_nil hb
  obtain ⟨front, rest, hcut, hmem, hrest⟩ := cons_sublist_iff.1 h
  obtain ⟨i, hi, hc⟩ := mem_iff_getElem.1 hmem
  have hshorter := hrest.length_le
  have htotal : a.length = front.length + rest.length := by rw [hcut, length_append]
  rw [length_cons] at hlength
  refine ⟨i, 0, c, ?_, rfl, ?_, ?_⟩
  · rw [hcut, getElem?_append_left hi, getElem?_eq_getElem hi, hc]
  · rw [length_cons]
    omega
  · have hwindow := window_pos a.length (c :: b).length
    omega

/-! ## The similarity by Jaro -/

lemma jaro_eq_zero (ha : a ≠ []) (h : ¬ Meet a b) : jaro Rat a b = 0 := by
  have hnil : (matching a b).1 = [] := not_not.1 (mt (matching_ne_nil_iff a b).1 h)
  unfold jaro
  rw [if_neg (by simp [ha])]
  split
  · rfl
  · dsimp only
    rw [if_pos (by rw [hnil]; rfl)]
    rfl

/-- The mean of three parts, if there are matching characters. -/
lemma jaro_eq (h : Meet a b) :
    jaro Rat a b =
      ((matching a b).1.length / a.length + (matching a b).1.length / b.length +
        ((matching a b).1.length - transpositions (matching a b).1 (matching a b).2 : Nat) /
          (matching a b).1.length) / 3 := by
  have hne := (matching_ne_nil_iff a b).2 h
  obtain ⟨i, j, c, hi, hj, -⟩ := h
  have ha : a ≠ [] := by
    rintro rfl
    cases hi
  have hb : b ≠ [] := by
    rintro rfl
    cases hj
  unfold jaro
  rw [if_neg (by simp [ha]), if_neg (by simp [ha, hb])]
  dsimp only
  rw [if_neg (by simpa using hne)]
  rfl

lemma jaro_pos (h : Meet a b) : 0 < jaro Rat a b := by
  have hne := length_pos_iff.2 ((matching_ne_nil_iff a b).2 h)
  have hmatched : (0 : Rat) < (matching a b).1.length := by exact_mod_cast hne
  have ha : (0 : Rat) < a.length := by
    exact_mod_cast Nat.lt_of_lt_of_le hne (length_matching_le_left a b)
  rw [jaro_eq h]
  positivity

lemma jaro_le_one (a b : Text) (ha : a ≠ []) : jaro Rat a b ≤ 1 := by
  by_cases h : Meet a b
  · have hleft : ((matching a b).1.length : Rat) / a.length ≤ 1 :=
      div_le_one_of_le₀ (by exact_mod_cast length_matching_le_left a b) (by positivity)
    have hright : ((matching a b).1.length : Rat) / b.length ≤ 1 :=
      div_le_one_of_le₀ (by exact_mod_cast length_matching_le_right a b) (by positivity)
    have hordered : (((matching a b).1.length -
        transpositions (matching a b).1 (matching a b).2 : Nat) : Rat) /
          (matching a b).1.length ≤ 1 :=
      div_le_one_of_le₀ (by exact_mod_cast Nat.sub_le _ _) (by positivity)
    rw [jaro_eq h]
    linarith
  · rw [jaro_eq_zero ha h]
    exact zero_le_one

/-! ## The similarity by Jaro and Winkler -/

lemma commonFront_le (a b : Text) : commonFront a b ≤ 4 :=
  (List.takeWhile_prefix _).length_le.trans (length_take_le _ _)

/-- Texts that are not similar gain nothing by a common front. -/
lemma jaroWinkler_of_le (h : jaro Rat a b ≤ (7 : Nat) / (10 : Nat)) :
    jaroWinkler Rat a b = jaro Rat a b :=
  if_neg fun hless => h.not_gt ((ExactNumber.less_iff _ _).1 hless)

/-- A common front moves the similarity closer to one, but never past it. -/
lemma jaroWinkler_mem (h : jaro Rat a b ≤ 1) :
    jaro Rat a b ≤ jaroWinkler Rat a b ∧ jaroWinkler Rat a b ≤ 1 := by
  have hfront : (commonFront a b : Rat) ≤ 4 := by exact_mod_cast commonFront_le a b
  have hnonneg : (0 : Rat) ≤ commonFront a b := by positivity
  unfold jaroWinkler
  dsimp only
  split
  · show jaro Rat a b ≤ jaro Rat a b + (1 : Nat) / (10 : Nat) * commonFront a b *
        ((1 : Nat) - jaro Rat a b) ∧
      jaro Rat a b + (1 : Nat) / (10 : Nat) * commonFront a b * ((1 : Nat) - jaro Rat a b) ≤ 1
    push_cast
    constructor <;> nlinarith
  · exact ⟨le_rfl, h⟩

lemma jaroWinkler_le_one (ha : a ≠ []) : jaroWinkler Rat a b ≤ 1 :=
  (jaroWinkler_mem (jaro_le_one a b ha)).2

lemma jaroWinkler_pos_iff (ha : a ≠ []) : 0 < jaroWinkler Rat a b ↔ Meet a b := by
  refine ⟨fun hpos => ?_, fun h => ?_⟩
  · by_contra h
    have hzero := jaro_eq_zero ha h
    rw [jaroWinkler_of_le (by rw [hzero]; positivity), hzero] at hpos
    exact lt_irrefl _ hpos
  · exact (jaro_pos h).trans_le (jaroWinkler_mem (jaro_le_one a b ha)).1

end Similarity

/-! ## Scores -/

lemma Text.lowercaseChar_ne_nil (c : Char) : lowercaseChar c ≠ [] := by
  unfold lowercaseChar
  dsimp only
  split
  · exact cons_ne_nil _ _
  split
  · exact cons_ne_nil _ _
  split <;> exact cons_ne_nil _ _

lemma Text.lowercase_ne_nil {t : Text} (h : t ≠ []) : t.lowercase ≠ [] := by
  obtain ⟨c, rest, rfl⟩ := exists_cons_of_ne_nil h
  rw [lowercase, lowercaseAfter]
  refine append_ne_nil_of_left_ne_nil ?_ _
  split
  · split <;> exact cons_ne_nil _ _
  · exact lowercaseChar_ne_nil c

namespace Scorer

open Similarity (Meet)

variable {candidate query : Text}

lemma lowercase_ne_nil_of_sublist (hquery : query ≠ [])
    (h : query.lowercase <+ candidate.lowercase) : candidate.lowercase ≠ [] := by
  intro hnil
  rw [hnil, sublist_nil] at h
  exact Text.lowercase_ne_nil hquery h

lemma similarity_of_not_sublist (h : ¬ query.lowercase <+ candidate.lowercase) :
    similarity Rat candidate query = 0 := by
  unfold similarity
  dsimp only
  rw [if_neg (by rwa [isSublist_iff_sublist])]
  rfl

/-- What begins with what was typed has a whole point more than its similarity. -/
lemma similarity_of_isPrefix (h : query.lowercase <+: candidate.lowercase) :
    similarity Rat candidate query =
      Similarity.jaroWinkler Rat candidate.lowercase query.lowercase + 1 := by
  unfold similarity
  dsimp only
  rw [if_pos (isSublist_iff_sublist.2 h.sublist), if_pos (List.isPrefixOf_iff_prefix.2 h)]
  rfl

lemma similarity_of_sublist (h : query.lowercase <+ candidate.lowercase)
    (hfront : ¬ query.lowercase <+: candidate.lowercase) :
    similarity Rat candidate query =
      Similarity.jaroWinkler Rat candidate.lowercase query.lowercase := by
  unfold similarity
  dsimp only
  rw [if_pos (isSublist_iff_sublist.2 h), if_neg (by rwa [List.isPrefixOf_iff_prefix])]

/-- A candidate has a score exactly if it contains what was typed in order and meets it. -/
lemma similarity_pos_iff (hquery : query ≠ []) :
    0 < similarity Rat candidate query ↔
      query.lowercase <+ candidate.lowercase ∧ Meet candidate.lowercase query.lowercase := by
  by_cases hsub : query.lowercase <+ candidate.lowercase
  · have hne := lowercase_ne_nil_of_sublist hquery hsub
    rw [and_iff_right hsub]
    by_cases hfront : query.lowercase <+: candidate.lowercase
    · have hmeet := Similarity.meet_of_isPrefix hfront (Text.lowercase_ne_nil hquery)
      have hpos := (Similarity.jaroWinkler_pos_iff hne).2 hmeet
      rw [similarity_of_isPrefix hfront]
      exact iff_of_true (by linarith) hmeet
    · rw [similarity_of_sublist hsub hfront, Similarity.jaroWinkler_pos_iff hne]
  · rw [similarity_of_not_sublist hsub]
    exact iff_of_false (lt_irrefl _) fun h => hsub h.1

/-- **What begins with what was typed is rated higher than what does not.** The one has a score
above one, the other one at most. -/
theorem similarity_prefix_lt {query c₁ c₂ : Text} (hquery : query ≠ [])
    (h₁ : query.lowercase <+: c₁.lowercase) (h₂ : ¬ query.lowercase <+: c₂.lowercase) :
    1 < similarity Rat c₁ query ∧ similarity Rat c₂ query ≤ 1 := by
  constructor
  · have hmeet := Similarity.meet_of_isPrefix h₁ (Text.lowercase_ne_nil hquery)
    have hne := lowercase_ne_nil_of_sublist hquery h₁.sublist
    have hpos := (Similarity.jaroWinkler_pos_iff hne).2 hmeet
    rw [similarity_of_isPrefix h₁]
    linarith
  · by_cases hsub : query.lowercase <+ c₂.lowercase
    · rw [similarity_of_sublist hsub h₂]
      exact Similarity.jaroWinkler_le_one (lowercase_ne_nil_of_sublist hquery hsub)
    · rw [similarity_of_not_sublist hsub]
      exact zero_le_one

theorem similarity_prefix_lt_sampleClass :
    Text.lowercase ['c', 'l'] <+: Text.lowercase ['C', 'l', 'a', 's', 's'] ∧
      ¬ Text.lowercase ['c', 'l'] <+: Text.lowercase ['c', 'o', 'l'] ∧
      1 < similarity Rat ['C', 'l', 'a', 's', 's'] ['c', 'l'] ∧
      similarity Rat ['c', 'o', 'l'] ['c', 'l'] ≤ 1 := by
  have h₁ : Text.lowercase ['c', 'l'] <+: Text.lowercase ['C', 'l', 'a', 's', 's'] := by
    decide +kernel
  have h₂ : ¬ Text.lowercase ['c', 'l'] <+: Text.lowercase ['c', 'o', 'l'] := by decide +kernel
  exact ⟨h₁, h₂, similarity_prefix_lt (by decide) h₁ h₂⟩

end Scorer

/-! ## Suggestions -/

namespace Suggestion

open Similarity (Meet window)

/-- The sort texts of the suggestions shown are those of the suggestions found. -/
lemma sortText_mem_ranked {R : Type} [ScoreNumber R] (found : List (Suggestion R)) (key : String) :
    (∃ s ∈ ranked found, s.sortText = key) ↔ ∃ s ∈ found, s.sortText = key := by
  have hperm : ((ranked found).map sortText).Perm (found.map sortText) := by
    refine ((ranked_perm found).map sortText).trans (List.Perm.of_eq ?_)
    apply ext_getElem
    · simp [numbered]
    · intro i _ _
      simp [numbered]
  rw [← mem_map, ← mem_map, hperm.mem_iff]

/-- What was typed keeps the candidates whose score is not zero or less, under the texts that they were
scored by. -/
lemma sortText_mem_rated {R : Type} [ScoreNumber R] {scorer : Scorer R} {typed : Text}
    (htyped : typed ≠ []) (found : List (Suggestion R)) (key : String) :
    (∃ s ∈ rated scorer typed found, s.sortText = key) ↔ (∃ s ∈ found, s.keyText = key) ∧
      ¬ ScoreNumber.atMost (scorer key.toList typed) (ScoreNumber.ofNat 0) = true := by
  have hnot : ¬ typed.isEmpty = true := by simpa using htyped
  constructor
  · rintro ⟨s, hs, rfl⟩
    obtain ⟨t, ht, heq⟩ := mem_filterMap.1 hs
    dsimp only at heq
    rw [if_neg hnot] at heq
    split at heq
    · cases heq
    · next hpos =>
      obtain rfl := Option.some.inj heq
      exact ⟨⟨t, ht, rfl⟩, hpos⟩
  · rintro ⟨⟨t, ht, rfl⟩, hpos⟩
    refine ⟨{ t with
      sortText := t.keyText
      replaced := String.ofList typed
      score := scorer t.keyText.toList typed }, mem_filterMap.2 ⟨t, ht, ?_⟩, rfl⟩
    dsimp only
    rw [if_neg hnot, if_neg hpos]

/-- **What is offered meets what was typed.** A candidate has a positive score exactly if it
contains the characters typed in order and shares one of them at places that are less than the
window apart; only such candidates are offered. All that contain what was typed in order are offered
only where little is missing: where they are shorter than what was typed and the window together. -/
theorem offered_iff_meet {typed : Text} (htyped : typed ≠ []) (candidate : Text) :
    let fits := typed.lowercase <+ candidate.lowercase ∧
      Meet candidate.lowercase typed.lowercase
    (0 < Scorer.similarity Rat candidate typed ↔ fits) ∧
    (candidate.lowercase.length < typed.lowercase.length +
        window candidate.lowercase.length typed.lowercase.length →
      (0 < Scorer.similarity Rat candidate typed ↔ typed.lowercase <+ candidate.lowercase)) ∧
    ∀ (tree : FileTree) (lib : Taglib) (version : Option Nat) (minVersion : Nat)
      (c : CompletionContext), c.typed = typed →
      ((∃ s ∈ forContext (Scorer.similarity Rat) tree lib version minVersion c,
          s.sortText.toList = candidate) ↔
        (∃ s ∈ (candidates tree lib (isSupported version minVersion) c : List (Suggestion Rat)),
          s.keyText.toList = candidate) ∧ fits) := by
  intro fits
  have hscore : 0 < Scorer.similarity Rat candidate typed ↔ fits :=
    Scorer.similarity_pos_iff htyped
  refine ⟨hscore, fun hlength => ?_, ?_⟩
  · rw [hscore]
    exact and_iff_left_of_imp fun hsub =>
      Similarity.meet_of_sublist hsub (Text.lowercase_ne_nil htyped) hlength
  · rintro tree lib version minVersion c rfl
    have hkey : ∀ key : String, key.toList = candidate ↔ key = String.ofList candidate := by
      intro key
      constructor
      · rintro rfl
        rw [String.ofList_toList]
      · rintro rfl
        rw [String.toList_ofList]
    simp only [hkey]
    rw [forContext, sortText_mem_ranked, sortText_mem_rated htyped, ExactNumber.atMost_iff,
      not_le, String.toList_ofList]
    exact and_congr_right fun _ => hscore

/-- A letter that is not the first one, but in the first half. -/
theorem offered_iff_meet_sampleInner :
    ['b'] ≠ [] ∧ ¬ Text.lowercase ['b'] <+: Text.lowercase ['a', 'b', 'c', 'd'] ∧
      0 < Scorer.similarity Rat ['a', 'b', 'c', 'd'] ['b'] := by
  have hsub : Text.lowercase ['b'] <+ Text.lowercase ['a', 'b', 'c', 'd'] := by decide +kernel
  have hmeet : Meet (Text.lowercase ['a', 'b', 'c', 'd']) (Text.lowercase ['b']) :=
    ⟨1, 0, 'b', by decide +kernel⟩
  exact ⟨by decide, by decide +kernel, (offered_iff_meet (by decide) _).1.2 ⟨hsub, hmeet⟩⟩

/-- The letter `b` has been typed. -/
def sampleSecondLetter : CompletionContext := { sampleContext with typed := ['b'] }

/-- The value `ab` contains the letter `b`, but is rated zero and not offered. -/
theorem forContext_sampleSecondLetter :
    Text.lowercase ['b'] <+ Text.lowercase ['a', 'b'] ∧
      Scorer.similarity Rat ['a', 'b'] ['b'] = 0 ∧
      (candidates {} sampleLibrary true sampleSecondLetter : List (Suggestion Rat)).map keyText =
        ["ab", "aa"] ∧
      (forContext (Scorer.similarity Rat) {} sampleLibrary none 3 sampleSecondLetter).map sortText =
        [] := by
  decide +kernel

end Suggestion

end TemplateEditing
