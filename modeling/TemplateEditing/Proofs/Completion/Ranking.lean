import Mathlib.Algebra.Order.Ring.Unbundled.Rat
import Mathlib.Data.List.Chain
import Mathlib.Data.Prod.Lex
import Mathlib.Data.String.Basic
import TemplateEditing.Proofs.Completion.Candidates

/-!
# The order of suggestions

Two suggestions are compared by a key of four parts (`Suggestion.rank`): the priority, the score,
the sort text, and the place among those found. The sort text only counts where there is no score.
So the list shown is in the order of these ranks (`pairwise_ranked`). It is also in the order in
which sort texts always count (`Suggestion.fullRank`) exactly if nothing was typed, or if
suggestions with the same priority and the same score were found in the order of their sort texts
(`forContext_fullRank_iff`).
-/

namespace TemplateEditing

/-- Numbers that are compared exactly. -/
class ExactNumber (R : Type) [ScoreNumber R] extends LinearOrder R where
  atMost_iff : ∀ a b : R, ScoreNumber.atMost a b = true ↔ a ≤ b

instance : ExactNumber Rat where
  atMost_iff _ _ := decide_eq_true_iff

lemma ExactNumber.less_iff {R : Type} [ScoreNumber R] [ExactNumber R] (a b : R) :
    ScoreNumber.less a b = true ↔ a < b := by
  rw [ScoreNumber.less, Bool.and_eq_true, Bool.not_eq_true', ← Bool.not_eq_true, atMost_iff,
    atMost_iff, lt_iff_le_not_ge]

namespace Suggestion

/-! ## Numbers -/

section
variable {R : Type} (found : List (Suggestion R))

/-- Suggestions with their numbers. -/
def numbered : List (Suggestion R) := found.mapIdx fun i s => { s with index := i }

/-- No two suggestions have the same number. -/
lemma pairwise_index_numbered : (numbered found).Pairwise fun a b => a.index < b.index := by
  rw [List.pairwise_iff_getElem]
  intro i j hi hj hij
  simpa [numbered] using hij

/-- What does not depend on the numbers holds of the suggestions with their numbers as well. -/
lemma pairwise_numbered {P : Suggestion R → Suggestion R → Prop}
    (hP : ∀ a b i j, P { a with index := i } { b with index := j } ↔ P a b) :
    (numbered found).Pairwise P ↔ found.Pairwise P := by
  simp [List.pairwise_iff_getElem, numbered, hP]

/-- All suggestions found are shown, with their numbers. -/
lemma ranked_perm [ScoreNumber R] : (ranked found).Perm (numbered found) := List.mergeSort_perm _ _

/-- What does not depend on the numbers holds of all suggestions shown if it holds of those
found. -/
lemma forall_mem_ranked [ScoreNumber R] {P : Suggestion R → Prop}
    (hP : ∀ s i, P s → P { s with index := i }) (h : ∀ s ∈ found, P s) :
    ∀ s ∈ ranked found, P s := by
  intro s hs
  obtain ⟨i, hi, rfl⟩ := List.mem_mapIdx.1 ((ranked_perm found).mem_iff.1 hs)
  exact hP _ i (h _ (List.getElem_mem hi))

end

section
variable {R : Type} {a b : Suggestion R}

/-- Suggestions that differ in neither priority nor score are in the order of their sort texts. -/
def TiesByText (a b : Suggestion R) : Prop :=
  a.priority = b.priority → a.score = b.score → a.sortText ≤ b.sortText

/-- Suggestions that tie are in the order of their sort texts where they are in that of their
numbers. -/
def TiesByIndex (a b : Suggestion R) : Prop :=
  (a.index < b.index → a.TiesByText b) ∧ (b.index < a.index → b.TiesByText a)

lemma tiesByIndex_iff_of_index_lt (h : a.index < b.index) : a.TiesByIndex b ↔ a.TiesByText b :=
  ⟨fun h' => h'.1 h, fun h' => ⟨fun _ => h', fun hlt => absurd hlt h.not_gt⟩⟩

end

/-! ## Ranks -/

variable {R : Type} [ScoreNumber R] [ExactNumber R]

/-- The place of a suggestion by priority, score, a text, and the order of finding. -/
def rankBy (text : String) (s : Suggestion R) : ℕᵒᵈ ×ₗ Rᵒᵈ ×ₗ String ×ₗ ℕ :=
  toLex (.toDual s.priority, toLex (.toDual s.score, toLex (text, s.index)))

/-- The place of a suggestion among those shown: its sort text counts only without a score. -/
def rank (s : Suggestion R) : ℕᵒᵈ ×ₗ Rᵒᵈ ×ₗ String ×ₗ ℕ :=
  s.rankBy (if s.score = ScoreNumber.ofNat 0 then s.sortText else "")

/-- The place of a suggestion if its sort text always counts. -/
def fullRank (s : Suggestion R) : ℕᵒᵈ ×ₗ Rᵒᵈ ×ₗ String ×ₗ ℕ := s.rankBy s.sortText

lemma rankBy_lt_iff {t u : String} {a b : Suggestion R} :
    a.rankBy t < b.rankBy u ↔ b.priority < a.priority ∨ a.priority = b.priority ∧
      (b.score < a.score ∨ a.score = b.score ∧ (t < u ∨ t = u ∧ a.index < b.index)) := by
  simp only [rankBy, Prod.Lex.toLex_lt_toLex, OrderDual.toDual_lt_toDual, OrderDual.toDual_inj]

lemma rank_ne_of_index_ne {a b : Suggestion R} (h : a.index ≠ b.index) : a.rank ≠ b.rank := by
  intro heq
  simp only [rank, rankBy, toLex_inj, Prod.mk.injEq] at heq
  exact h heq.2.2.2

lemma hasScore_iff (s : Suggestion R) : s.hasScore = true ↔ s.score ≠ ScoreNumber.ofNat 0 := by
  rw [hasScore, Bool.not_eq_true', ← Bool.not_eq_true, Bool.and_eq_true, ExactNumber.atMost_iff,
    ExactNumber.atMost_iff, ← le_antisymm_iff]

/-- Suggestions are compared by their ranks. -/
lemma precedes_iff (a b : Suggestion R) : a.precedes b = true ↔ a.rank ≤ b.rank := by
  rw [← not_lt, rank, rank, rankBy_lt_iff, precedes, bne_iff_ne, ne_eq, not_iff_not, compare,
    Ordering.then_eq_gt, Ordering.then_eq_gt, Nat.compare_eq_gt, Nat.compare_eq_eq,
    Nat.compare_eq_gt]
  refine or_congr_right (and_congr_right fun _ => ?_)
  simp only [Bool.or_eq_true, hasScore_iff, ExactNumber.less_iff]
  rcases lt_trichotomy a.score b.score with hlt | heq | hgt
  · -- one of two different scores is not zero
    have hscore : a.score ≠ ScoreNumber.ofNat 0 ∨ b.score ≠ ScoreNumber.ofNat 0 := by
      by_contra! hzero
      exact hlt.ne (hzero.1.trans hzero.2.symm)
    simp [hscore, hlt, hlt.not_gt]
  · by_cases hzero : a.score = ScoreNumber.ofNat 0
    · simp only [← heq, hzero, ne_eq, not_true_eq_false, or_self, if_false, if_true, lt_irrefl,
        false_or, true_and, ← LinearOrder.compare_eq_compareOfLessAndEq, compare_gt_iff_gt,
        compare_eq_iff_eq, eq_comm (a := b.sortText)]
    · simp [← heq, hzero]
  · have hscore : a.score ≠ ScoreNumber.ofNat 0 ∨ b.score ≠ ScoreNumber.ofNat 0 := by
      by_contra! hzero
      exact hgt.ne (hzero.2.trans hzero.1.symm)
    simp [hscore, hgt, hgt.not_gt, hgt.ne]

/-- Suggestions are shown in the order of their ranks. -/
lemma pairwise_ranked (found : List (Suggestion R)) :
    (ranked found).Pairwise fun a b => a.rank < b.rank := by
  have hle : (ranked found).Pairwise fun a b => a.rank ≤ b.rank := by
    have hsorted := @List.pairwise_mergeSort _ precedes
      (fun a b c hab hbc => by
        rw [precedes_iff] at hab hbc ⊢
        exact hab.trans hbc)
      (fun a b => by
        rw [Bool.or_eq_true, precedes_iff, precedes_iff]
        exact le_total _ _)
      (numbered found)
    exact hsorted.imp fun h => (precedes_iff _ _).1 h
  have hne : (ranked found).Pairwise fun a b => a.rank ≠ b.rank := by
    rw [(ranked_perm found).pairwise_iff fun h => h.symm]
    exact (pairwise_index_numbered found).imp fun h => rank_ne_of_index_ne h.ne
  exact hle.imp₂ (fun _ _ h h' => lt_of_le_of_ne h h') hne

/-! ## Sort texts -/

/-- Without a score the sort text counts. -/
lemma rank_eq_fullRank {s : Suggestion R} (h : s.score = ScoreNumber.ofNat 0) :
    s.rank = s.fullRank := by
  rw [rank, fullRank, if_pos h]

/-- With scores, suggestions that tie are shown in the order of finding. -/
lemma rank_lt_iff {a b : Suggestion R} (ha : a.score ≠ ScoreNumber.ofNat 0)
    (hb : b.score ≠ ScoreNumber.ofNat 0) :
    a.rank < b.rank ↔ b.priority < a.priority ∨ a.priority = b.priority ∧
      (b.score < a.score ∨ a.score = b.score ∧ a.index < b.index) := by
  rw [rank, rank, if_neg ha, if_neg hb, rankBy_lt_iff]
  simp

lemma fullRank_lt_iff {a b : Suggestion R} (ha : a.score ≠ ScoreNumber.ofNat 0)
    (hb : b.score ≠ ScoreNumber.ofNat 0) (h : a.rank < b.rank) :
    a.fullRank < b.fullRank ↔ a.TiesByText b := by
  rw [fullRank, fullRank, rankBy_lt_iff, TiesByText]
  rcases (rank_lt_iff ha hb).1 h with hpriority | ⟨hpriority, hscore | ⟨hscore, hindex⟩⟩
  · simp [hpriority, hpriority.ne']
  · simp [hpriority, hscore, hscore.ne']
  · simp [hpriority, hscore, hindex, le_iff_lt_or_eq]

lemma tiesByIndex_iff_of_rank_lt {a b : Suggestion R} (ha : a.score ≠ ScoreNumber.ofNat 0)
    (hb : b.score ≠ ScoreNumber.ofNat 0) (h : a.rank < b.rank) :
    a.TiesByIndex b ↔ a.TiesByText b := by
  rcases (rank_lt_iff ha hb).1 h with hpriority | ⟨hpriority, hscore | ⟨-, hindex⟩⟩
  · simp [TiesByIndex, TiesByText, hpriority.ne, hpriority.ne']
  · simp [TiesByIndex, TiesByText, hscore.ne, hscore.ne']
  · exact tiesByIndex_iff_of_index_lt hindex

lemma pairwise_congr {α : Type} {P Q S : α → α → Prop} {l : List α} (hP : l.Pairwise P)
    (h : ∀ a ∈ l, ∀ b ∈ l, P a b → (Q a b ↔ S a b)) : l.Pairwise Q ↔ l.Pairwise S := by
  have hmem := List.Pairwise.and_mem.1 hP
  exact ⟨fun hQ => hmem.imp₂ (fun _ _ hab hq => (h _ hab.1 _ hab.2.1 hab.2.2).1 hq) hQ,
    fun hS => hmem.imp₂ (fun _ _ hab hs => (h _ hab.1 _ hab.2.1 hab.2.2).2 hs) hS⟩

section
variable {found : List (Suggestion R)} (hscore : ∀ s ∈ found, s.score ≠ ScoreNumber.ofNat 0)
include hscore

/-- Suggestions that tie are shown in the order of their sort texts if and only if they were found
in that order. -/
lemma pairwise_tiesByText_ranked :
    (ranked found).Pairwise TiesByText ↔ found.Pairwise TiesByText :=
  have hshown := forall_mem_ranked found (fun _ _ h => h) hscore
  -- the order of numbers can be asked for in any list of the same suggestions
  calc
    (ranked found).Pairwise TiesByText ↔ (ranked found).Pairwise TiesByIndex :=
      pairwise_congr (pairwise_ranked found) fun _ ha _ hb h =>
        (tiesByIndex_iff_of_rank_lt (hshown _ ha) (hshown _ hb) h).symm
    _ ↔ (numbered found).Pairwise TiesByIndex :=
      (ranked_perm found).pairwise_iff fun h => ⟨h.2, h.1⟩
    _ ↔ (numbered found).Pairwise TiesByText :=
      pairwise_congr (pairwise_index_numbered found) fun _ _ _ _ h => tiesByIndex_iff_of_index_lt h
    _ ↔ found.Pairwise TiesByText := pairwise_numbered found fun _ _ _ _ => Iff.rfl

/-- With scores, sort texts count throughout exactly if suggestions that tie were found in the order
of their sort texts. -/
lemma pairwise_fullRank_ranked :
    ((ranked found).Pairwise fun a b => a.fullRank < b.fullRank) ↔ found.Pairwise TiesByText := by
  have hshown := forall_mem_ranked found (fun _ _ h => h) hscore
  rw [← pairwise_tiesByText_ranked hscore]
  exact pairwise_congr (pairwise_ranked found) fun a ha b hb h =>
    fullRank_lt_iff (hshown a ha) (hshown b hb) h

/-- It is enough that neighbours that tie are in the order of their sort texts. -/
lemma isChain_tiesByText_ranked :
    (ranked found).IsChain TiesByText ↔ found.Pairwise TiesByText := by
  have hshown := forall_mem_ranked found (fun _ _ h => h) hscore
  refine ⟨fun hchain => ?_, fun h => ((pairwise_tiesByText_ranked hscore).2 h).isChain⟩
  have hfull : ((ranked found).map fullRank).IsChain (· < ·) := by
    rw [List.isChain_map, List.isChain_iff_getElem]
    intro i hi
    have hrank := List.pairwise_iff_getElem.1 (pairwise_ranked found) i (i + 1) (by omega) hi
      (Nat.lt_succ_self i)
    exact (fullRank_lt_iff (hshown _ (List.getElem_mem _)) (hshown _ (List.getElem_mem _)) hrank).2
      (hchain.getElem i hi)
  exact (pairwise_fullRank_ranked hscore).1
    (List.pairwise_map.1 (List.isChain_iff_pairwise.1 hfull))

end

/-! ## All suggestions -/

omit [ExactNumber R] in
/-- If nothing was typed, all suggestions fit, and none gets a score. -/
lemma score_of_mem_rated_nil {scorer : Scorer R} {found : List (Suggestion R)}
    (h : ∀ s ∈ found, s.score = ScoreNumber.ofNat 0) {s : Suggestion R}
    (hs : s ∈ rated scorer [] found) : s.score = ScoreNumber.ofNat 0 := by
  obtain ⟨t, ht, heq⟩ := List.mem_filterMap.1 hs
  obtain rfl := Option.some.inj heq
  exact h t ht

/-- What was typed gives each suggestion that fits a score. -/
lemma score_ne_of_mem_rated {scorer : Scorer R} {typed : Text} (htyped : typed ≠ [])
    {found : List (Suggestion R)} {s : Suggestion R} (hs : s ∈ rated scorer typed found) :
    s.score ≠ ScoreNumber.ofNat 0 := by
  obtain ⟨t, -, heq⟩ := List.mem_filterMap.1 hs
  dsimp only at heq
  rw [if_neg (by simpa using htyped)] at heq
  split at heq
  · cases heq
  · next hpos =>
    obtain rfl := Option.some.inj heq
    rw [ExactNumber.atMost_iff, not_le] at hpos
    exact hpos.ne'

lemma tiesByText_of_fullRank_lt {a b : Suggestion R} (h : a.fullRank < b.fullRank) :
    a.TiesByText b := by
  intro hpriority hscore
  rcases rankBy_lt_iff.1 h with hlt | ⟨-, hlt | ⟨-, htext⟩⟩
  · exact absurd hpriority hlt.ne'
  · exact absurd hscore hlt.ne'
  · exact le_iff_lt_or_eq.2 (htext.imp_right And.left)

/-- **Sort texts do not count among suggestions with the same score.** All suggestions found are
shown, in the order of their ranks. They are also in the order of the ranks in which sort texts
always count exactly if nothing was typed, or if those with the same priority and the same score
were found in the order of their sort texts; and no less is needed for neighbours that tie to be in
the order of their sort texts. -/
theorem forContext_fullRank_iff (scorer : Scorer R) (tree : FileTree) (lib : Taglib)
    (version : Option Nat) (minVersion : Nat) (c : CompletionContext) :
    let found := rated scorer c.typed (candidates tree lib (isSupported version minVersion) c)
    let shown := forContext scorer tree lib version minVersion c
    shown.Perm (numbered found) ∧ (shown.Pairwise fun a b => a.rank < b.rank) ∧
      ((shown.Pairwise fun a b => a.fullRank < b.fullRank) ↔
        c.typed = [] ∨ found.Pairwise TiesByText) ∧
      (shown.IsChain TiesByText ↔ c.typed = [] ∨ found.Pairwise TiesByText) := by
  intro found shown
  refine ⟨ranked_perm found, pairwise_ranked found, ?_⟩
  by_cases htyped : c.typed = []
  · -- without scores the two orders are the same
    have hzero : ∀ s ∈ shown, s.score = ScoreNumber.ofNat 0 := by
      refine forall_mem_ranked found (fun _ _ h => h) fun s hs => ?_
      have hs : s ∈ rated scorer c.typed _ := hs
      rw [htyped] at hs
      refine score_of_mem_rated_nil (fun t ht => ?_) hs
      obtain ⟨kind, -, hunrated⟩ := unrated_of_mem_candidates ht
      exact hunrated.score_eq
    have hfull : shown.Pairwise fun a b => a.fullRank < b.fullRank := by
      refine (pairwise_congr (pairwise_ranked found) fun a ha b hb _ => ?_).1
        (pairwise_ranked found)
      rw [rank_eq_fullRank (hzero a ha), rank_eq_fullRank (hzero b hb)]
    exact ⟨iff_of_true hfull (.inl htyped),
      iff_of_true (hfull.imp tiesByText_of_fullRank_lt).isChain (.inl htyped)⟩
  · have hscore : ∀ s ∈ found, s.score ≠ ScoreNumber.ofNat 0 :=
      fun s hs => score_ne_of_mem_rated htyped hs
    rw [or_iff_right htyped]
    exact ⟨pairwise_fullRank_ranked hscore, isChain_tiesByText_ranked hscore⟩

/-- A tag with an attribute whose values are not declared in alphabetical order. -/
def sampleLibrary : Taglib where
  tags := [{ name := "x", attributes := [{ name := "k", allowedValues := [.plain "ab", .plain "aa"] }] }]

/-- A value of that attribute, of which the first letter has been typed. -/
def sampleContext : CompletionContext where
  kind := some .attributeValue
  tagName := some ['x']
  attributeName := some ['k']
  typed := ['a']

/-- The value `ab` is shown before `aa`, though neither fits better. -/
theorem forContext_ties_reversed :
    (forContext (Scorer.similarity Rat) {} sampleLibrary none 3 sampleContext).map
        (fun s => (s.priority, s.score, s.sortText)) =
      [(0, 37 / 20, "ab"), (0, 37 / 20, "aa")] := by
  rw [forContext, ranked, List.mergeSort_of_pairwise]
  · decide +kernel
  · decide +kernel

end Suggestion

end TemplateEditing
