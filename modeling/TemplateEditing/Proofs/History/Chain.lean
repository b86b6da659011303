import Mathlib.Tactic.Lemma
import TemplateEditing.History

/-!
# Chains of edits

The steps of a history are links of a chain of texts: what can be undone leads from an older text to
the present one, and what can be redone leads on from there. Recording an edit makes the chain
longer by that edit, whichever step takes it in (`StepsLead.recorded`); only the capacity cuts the
chain off at its old end (`History.undoSteps_record`).
-/

namespace TemplateEditing

open List

/-! ## Edits -/

namespace Edit

/-- The edit leads from one text to another. -/
def Leads (e : Edit) (t t' : Text) : Prop :=
  ∃ a b, a.length = e.offset ∧ t = a ++ e.removed ++ b ∧ t' = a ++ e.inserted ++ b

/-- What it takes for an edit to absorb another one, and what comes out. -/
lemma absorb?_cases {e next both : Edit} (h : e.absorb? next = some both) :
    (e.removed = [] ∧ next.removed = [] ∧ next.offset = e.offset + e.inserted.length ∧
      both = { e with inserted := e.inserted ++ next.inserted }) ∨
    (e.inserted = [] ∧ next.inserted = [] ∧ e.offset = next.removedEnd ∧
      both = { e with removed := next.removed ++ e.removed, offset := next.offset }) ∨
    (e.inserted = [] ∧ next.inserted = [] ∧ e.offset = next.offset ∧
      both = { e with removed := e.removed ++ next.removed }) := by
  unfold absorb? at h
  simp only [Bool.and_eq_true, List.isEmpty_iff, beq_iff_eq] at h
  split at h
  · split at h
    · rename_i htyping
      exact .inl ⟨htyping.1.1, htyping.1.2, htyping.2.symm, (Option.some.inj h).symm⟩
    · split at h
      · rename_i hdeleting
        exact .inr (.inl ⟨hdeleting.1.1, hdeleting.1.2, hdeleting.2.symm, (Option.some.inj h).symm⟩)
      · split at h
        · rename_i hdeleting
          exact .inr (.inr ⟨hdeleting.1.1, hdeleting.1.2, hdeleting.2.symm,
            (Option.some.inj h).symm⟩)
        · cases h
  · cases h

namespace Leads

variable {e next both : Edit} {t t' t'' : Text}

lemma reversed (h : e.Leads t t') : e.reversed.Leads t' t := by
  obtain ⟨a, b, hlength, ht, ht'⟩ := h
  exact ⟨a, b, hlength, ht', ht⟩

lemma removedEnd_le (h : e.Leads t t') : e.removedEnd ≤ t.length := by
  obtain ⟨a, b, hlength, rfl, -⟩ := h
  rw [removedEnd, length_append, length_append]
  omega

/-- Where the edit leads is what replacing the removed text gives. -/
lemma splice_eq (h : e.Leads t t') : t.splice e.offset e.removedEnd e.inserted = t' := by
  obtain ⟨a, b, hlength, rfl, rfl⟩ := h
  have hend : (a ++ e.removed).length = e.removedEnd := by
    rw [length_append, removedEnd, hlength]
  rw [Text.splice, append_assoc a, take_left' hlength, ← append_assoc,
    drop_left' hend]

/-- A replacement between offsets is an edit. -/
lemma of_splice {i j : Nat} (hij : i ≤ j) (hj : j ≤ t.length) (inserted : Text) :
    Leads ⟨i, t.slice i j, inserted⟩ t (t.splice i j inserted) := by
  refine ⟨t.take i, t.drop j, ?_, ?_, rfl⟩
  · show (t.take i).length = i
    rw [length_take]
    omega
  · show t = t.take i ++ (t.take j).drop i ++ t.drop j
    have htake : t.take i = (t.take j).take i := by
      rw [take_take, Nat.min_eq_left hij]
    rw [htake, take_append_drop, take_append_drop]

/-- An edit that absorbs the next one leads where the two lead. -/
lemma absorb? (h : e.Leads t t') (hnext : next.Leads t' t'') (hboth : e.absorb? next = some both) :
    both.Leads t t'' := by
  obtain ⟨a, b, ha, rfl, rfl⟩ := h
  obtain ⟨a', b', ha', ht', rfl⟩ := hnext
  rcases absorb?_cases hboth with ⟨he, hn, hoffset, rfl⟩ | ⟨he, hn, hoffset, rfl⟩ |
    ⟨he, hn, hoffset, rfl⟩
  · -- typing on: the next text is inserted behind the first
    rw [hn, append_nil] at ht'
    obtain ⟨rfl, rfl⟩ := append_inj ht' (by rw [length_append, ha, ha', hoffset])
    exact ⟨a, b, ha, rfl, by simp only [append_assoc]⟩
  · -- deleting backwards: the next text stood before the first
    rw [he, append_nil] at ht'
    obtain ⟨rfl, rfl⟩ := append_inj ht' (by
      rw [length_append, ha, ha', hoffset, removedEnd])
    refine ⟨a', b, ha', by simp only [append_assoc], ?_⟩
    rw [hn, he]
  · -- deleting forwards: the next text stood behind the first
    rw [he, append_nil, append_assoc] at ht'
    obtain ⟨rfl, rfl⟩ := append_inj ht' (by rw [ha, ha', hoffset])
    refine ⟨a, b', ha, by simp only [append_assoc], ?_⟩
    rw [hn, he]

end Leads

end Edit

/-! ## Steps -/

/-- Edits, the last one first, lead from one text to another. -/
inductive EditsLead : List Edit → Text → Text → Prop where
  | nil (t : Text) : EditsLead [] t t
  | cons {last : Edit} {earlier : List Edit} {t between t' : Text}
      (h : EditsLead earlier t between) (hlast : last.Leads between t') :
      EditsLead (last :: earlier) t t'

/-- Steps to undo, the last one first, lead from one text to another. -/
inductive StepsLead : List Step → Text → Text → Prop where
  | nil (t : Text) : StepsLead [] t t
  | cons {last : Step} {earlier : List Step} {t between t' : Text}
      (h : StepsLead earlier t between) (hlast : EditsLead last.edits between t') :
      StepsLead (last :: earlier) t t'

/-- Steps to redo, the next one first, lead on from a text. -/
inductive StepsFollow : List Step → Text → Prop where
  | nil (t : Text) : StepsFollow [] t
  | cons {next : Step} {later : List Step} {t t' : Text} (hnext : EditsLead next.edits t t')
      (h : StepsFollow later t') : StepsFollow (next :: later) t

/-- A chain without its oldest step starts at a later text. -/
lemma StepsLead.dropLast {steps : List Step} {t t' : Text} (h : StepsLead steps t t') :
    ∃ later, StepsLead steps.dropLast later t' := by
  induction h with
  | nil t => exact ⟨t, .nil t⟩
  | @cons last earlier t between t' h hlast ih =>
    cases h with
    | nil =>
      -- the only step is dropped
      exact ⟨t', .nil t'⟩
    | cons h hearlier =>
      obtain ⟨later, hlater⟩ := ih
      exact ⟨later, .cons hlater hlast⟩

/-! ## Recording -/

namespace History

/-- The same history with room for one more step. -/
def roomy (h : History) : History := { h with capacity := h.undoSteps.length + 1 }

/-- An edit gets a step of its own, or else enters the last step: behind its edits, or absorbed by
the last of them. The capacity has no part in that. -/
lemma record_cases (h : History) (e : Edit) (mode : UndoMode) (now : Nat) :
    (∀ n, { h with capacity := n }.record e mode now =
      { h with capacity := n, redoSteps := [] }.push e now) ∨
    ∃ last earlier step, h.undoSteps = last :: earlier ∧
      (∀ n, { h with capacity := n }.record e mode now =
        { h with capacity := n, redoSteps := [], undoSteps := step :: earlier }) ∧
      (step.edits = e :: last.edits ∨ ∃ previous rest both,
        last.edits = previous :: rest ∧ previous.absorb? e = some both ∧
          step.edits = both :: rest) := by
  obtain ⟨undoSteps, redoSteps, capacity⟩ := h
  match undoSteps, mode with
  | [], mode => exact .inl fun n => rfl
  | last :: earlier, .merge =>
    exact .inr ⟨last, earlier, _, rfl, fun n => rfl, .inl rfl⟩
  | last :: earlier, .record =>
    -- typing: the last step takes it in if it is recent and its last edit absorbs it
    cases hrecent : last.isRecent now with
    | false =>
      refine .inl fun n => ?_
      show (if last.isRecent now then _ else _) = _
      rw [hrecent, if_neg Bool.false_ne_true]
    | true =>
      cases habsorb : last.absorb? e now with
      | none =>
        refine .inl fun n => ?_
        show (if last.isRecent now then _ else _) = _
        rw [hrecent, if_pos rfl, habsorb]
      | some step =>
        refine .inr ⟨last, earlier, step, rfl, fun n => ?_, ?_⟩
        · show (if last.isRecent now then _ else _) = _
          rw [hrecent, if_pos rfl, habsorb]
        · unfold Step.absorb? at habsorb
          split at habsorb
          · rename_i hnil
            rw [← Option.some.inj habsorb, hnil]
            exact .inl rfl
          · rename_i previous rest hedits
            obtain ⟨both, hboth, rfl⟩ := Option.map_eq_some_iff.1 habsorb
            exact .inr ⟨previous, rest, both, hedits, hboth, rfl⟩

variable (h : History) (e : Edit) (mode : UndoMode) (now : Nat)

lemma redoSteps_record : (h.record e mode now).redoSteps = [] := by
  rcases h.record_cases e mode now with hpush | ⟨last, earlier, step, hsteps, henter, -⟩
  · rw [show h.record e mode now = _ from hpush h.capacity]
    rfl
  · rw [show h.record e mode now = _ from henter h.capacity]

lemma capacity_record : (h.record e mode now).capacity = h.capacity := by
  rcases h.record_cases e mode now with hpush | ⟨last, earlier, step, hsteps, henter, -⟩
  · rw [show h.record e mode now = _ from hpush h.capacity]
    rfl
  · rw [show h.record e mode now = _ from henter h.capacity]

/-- The steps to undo once an edit is recorded, as long as there is room for them. -/
def recorded : List Step := (h.roomy.record e mode now).undoSteps

variable {h e mode now}

lemma recorded_of_push
    (hpush : ∀ n, { h with capacity := n }.record e mode now =
      { h with capacity := n, redoSteps := [] }.push e now) :
    h.recorded e mode now = ⟨[e], some now⟩ :: h.undoSteps := by
  rw [recorded, show h.roomy.record e mode now = _ from hpush _, push]
  exact if_neg (Nat.lt_irrefl _)

lemma recorded_of_enter {steps : List Step}
    (henter : ∀ n, { h with capacity := n }.record e mode now =
      { h with capacity := n, redoSteps := [], undoSteps := steps }) :
    h.recorded e mode now = steps := by
  rw [recorded, show h.roomy.record e mode now = _ from henter _]

variable (h e mode now)

lemma recorded_cases :
    h.recorded e mode now = ⟨[e], some now⟩ :: h.undoSteps ∨
    ∃ last earlier step, h.undoSteps = last :: earlier ∧ h.recorded e mode now = step :: earlier ∧
      (step.edits = e :: last.edits ∨ ∃ previous rest both,
        last.edits = previous :: rest ∧ previous.absorb? e = some both ∧
          step.edits = both :: rest) := by
  rcases h.record_cases e mode now with hpush | ⟨last, earlier, step, hsteps, henter, hedits⟩
  · exact .inl (recorded_of_push hpush)
  · exact .inr ⟨last, earlier, step, hsteps, recorded_of_enter henter, hedits⟩

lemma length_recorded_le : (h.recorded e mode now).length ≤ h.undoSteps.length + 1 := by
  rcases h.recorded_cases e mode now with hnew | ⟨last, earlier, step, hsteps, henter, -⟩
  · rw [hnew]
    exact Nat.le_refl _
  · rw [henter, hsteps, length_cons, length_cons]
    omega

variable {h}

/-- The capacity drops the oldest step, if there is one too many, and nothing else. -/
lemma undoSteps_record (hle : h.undoSteps.length ≤ h.capacity) :
    (h.record e mode now).undoSteps =
      if h.capacity < (h.recorded e mode now).length then (h.recorded e mode now).dropLast
      else h.recorded e mode now := by
  rcases h.record_cases e mode now with hpush | ⟨last, earlier, step, hsteps, henter, -⟩
  · rw [recorded_of_push hpush, show h.record e mode now = _ from hpush h.capacity]
    rfl
  · rw [recorded_of_enter henter, show h.record e mode now = _ from henter h.capacity, if_neg]
    rw [hsteps] at hle
    rw [length_cons] at hle ⊢
    omega

lemma mem_recorded (hle : h.undoSteps.length ≤ h.capacity) {step : Step}
    (hstep : step ∈ (h.record e mode now).undoSteps) : step ∈ h.recorded e mode now := by
  rw [undoSteps_record e mode now hle] at hstep
  split at hstep
  · exact (dropLast_sublist _).subset hstep
  · exact hstep

end History

/-- Recording an edit makes the chain longer by the edit. -/
lemma StepsLead.recorded {h : History} {e : Edit} {base t t' : Text}
    (hsteps : StepsLead h.undoSteps base t) (he : e.Leads t t') (mode : UndoMode) (now : Nat) :
    StepsLead (h.recorded e mode now) base t' := by
  rcases h.recorded_cases e mode now with hnew | ⟨last, earlier, step, hlast, henter, hedits⟩
  · rw [hnew]
    exact .cons hsteps (.cons (.nil t) he)
  · rw [hlast] at hsteps
    rw [henter]
    cases hsteps with
    | cons hearlier hlead =>
      refine .cons hearlier ?_
      rcases hedits with hedits | ⟨previous, rest, both, hprevious, habsorb, hedits⟩
      · rw [hedits]
        exact .cons hlead he
      · rw [hprevious] at hlead
        rw [hedits]
        cases hlead with
        | cons hrest hlead => exact .cons hrest (hlead.absorb? he habsorb)

end TemplateEditing
