import Mathlib.Tactic.Lemma
import TemplateEditing.Tag.Matcher

/-!
# What a tag is found from

The search for the tag around a position starts from the token there, in one of five ways, and ends
with completing what it has found (`Drafted`). Tags found so, and their partners, have names.
-/

namespace TemplateEditing

variable {d : Document} {p : Position}

lemma TokenKind.eq_attributeName {kind : TokenKind} (hend : ¬ kind.isEnd) (hstart : ¬ kind.isStart)
    (hname : ¬ kind.isName) : kind = .attributeName := by
  revert hend hstart hname
  cases kind <;> decide

namespace Document

/-- What the search for the tag around a position, already moved to where it is looked up, comes to
before the tag is completed. -/
inductive Drafted (d : Document) (p : Position) (draft : TagDraft) : Prop where
  | gap (htoken : d.tokenAt? p = none) (h : d.tagFromGap? p = some draft)
  | fromEnd {token : Token} (htoken : d.tokenAt? p = some token) (hkind : token.kind.isEnd)
      (h : d.tagFromEnd p token.kind = .ok draft)
  | fromStart {token : Token} (htoken : d.tokenAt? p = some token) (hkind : token.kind.isStart)
      (h : d.tagFromStart p token.kind = draft)
  | fromName {token : Token} (htoken : d.tokenAt? p = some token) (hkind : token.kind.isName)
      (h : d.tagFromName p token = .ok draft)
  | fromAttribute {token : Token} (htoken : d.tokenAt? p = some token)
      (hkind : token.kind = .attributeName) (h : d.tagFromAttribute p = .ok draft)

lemma tagAt_eq_of_some {token : Token} (htoken : d.tokenAt? (d.probe p) = some token) :
    d.tagAt p = (if token.kind.isEnd then d.tagFromEnd (d.probe p) token.kind
      else if token.kind.isStart then .ok (d.tagFromStart (d.probe p) token.kind)
      else if token.kind.isName then d.tagFromName (d.probe p) token
      else d.tagFromAttribute (d.probe p)).map d.completeTag? := by
  simp only [tagAt, htoken]
  split
  · cases d.tagFromEnd (d.probe p) token.kind <;> rfl
  · split
    · rfl
    · split
      · cases d.tagFromName (d.probe p) token <;> rfl
      · cases d.tagFromAttribute (d.probe p) <;> rfl

lemma drafted_of_tagAt {s : TagSpan} (h : d.tagAt p = .ok (some s)) :
    ∃ draft, d.Drafted (d.probe p) draft ∧ d.completeTag? draft = some s := by
  cases htoken : d.tokenAt? (d.probe p) with
  | none =>
    simp only [tagAt, htoken, Except.ok.injEq] at h
    obtain ⟨draft, hdraft, h⟩ := Option.bind_eq_some_iff.1 h
    exact ⟨draft, .gap htoken hdraft, h⟩
  | some token =>
    rw [tagAt_eq_of_some htoken] at h
    -- a draft that is refused is not completed
    have hcomplete : ∀ {draft? : Except LocateError TagDraft}, draft?.map d.completeTag? =
        .ok (some s) → ∃ draft, draft? = .ok draft ∧ d.completeTag? draft = some s := by
      intro draft? h
      cases draft? with
      | error e => cases h
      | ok draft => exact ⟨draft, rfl, Except.ok.inj h⟩
    obtain ⟨draft, hdraft, h⟩ := hcomplete h
    refine ⟨draft, ?_, h⟩
    split at hdraft
    · rename_i hkind
      exact .fromEnd htoken hkind hdraft
    · split at hdraft
      · rename_i hkind
        exact .fromStart htoken hkind (Except.ok.inj hdraft)
      · split at hdraft
        · rename_i hkind
          exact .fromName htoken hkind hdraft
        · rename_i hend hstart hname
          exact .fromAttribute htoken (TokenKind.eq_attributeName hend hstart hname) hdraft

/-- Where there is no token, the search backwards comes to a bracket, or to a tag without. -/
lemma walkBack_of_tagFromGap? {draft : TagDraft} (h : d.tagFromGap? p = some draft) :
    walkBack p.row none false (d.tokensBefore p) = .start draft ∨
      ∃ q, walkBack p.row none false (d.tokensBefore p) = .concise q ∧ d.conciseTag q = draft := by
  unfold tagFromGap? at h
  split at h
  · next hwalk => exact .inl (hwalk.trans (congrArg _ (Option.some.inj h)))
  · next q hwalk => exact .inr ⟨q, hwalk, Option.some.inj h⟩
  · cases h
  · cases h

/-- From an attribute the search is the same one, but may not fail. -/
lemma tagFromAttribute_eq (d : Document) (p : Position) :
    d.tagFromAttribute p = (d.tagFromGap? p).elim (.error (.missingStart p)) .ok := by
  unfold tagFromAttribute tagFromGap?
  cases walkBack p.row none false (d.tokensBefore p) <;> rfl

lemma tagFromGap?_of_tagFromAttribute {draft : TagDraft}
    (h : d.tagFromAttribute p = .ok draft) : d.tagFromGap? p = some draft := by
  rw [tagFromAttribute_eq] at h
  cases hgap : d.tagFromGap? p with
  | none =>
    rw [hgap] at h
    cases h
  | some found =>
    rw [hgap] at h
    exact congrArg some (Except.ok.inj h)

/-! ## Names -/

lemma nameRange_completeTag? {draft : TagDraft} {s : TagSpan}
    (h : d.completeTag? draft = some s) : s.nameRange ≠ none := by
  unfold completeTag? at h
  obtain ⟨name, hname, h⟩ := Option.bind_eq_some_iff.1 h
  obtain ⟨stop, hstop, h⟩ := Option.bind_eq_some_iff.1 h
  cases h
  exact Option.some_ne_none name

lemma name?_partner? {s t : TagSpan} (h : d.partner? s = some t) :
    t.name? d = s.name? d :=
  eq_of_beq (Option.filter_eq_some_iff.1 h).2

lemma nameRange_partner? {s t : TagSpan} (h : d.partner? s = some t)
    (hs : s.nameRange ≠ none) : t.nameRange ≠ none := by
  have hnames := name?_partner? h
  intro hnone
  rw [TagSpan.name?, TagSpan.name?, hnone, Option.map_none] at hnames
  exact hs (Option.map_eq_none_iff.1 hnames.symm)

end Document

namespace Matcher

/-- The spans at a position are those of the tag there and of its partner. -/
lemma spansAt?_cases {opening : TagSpan} {closing : Option TagSpan} {active : Side}
    (h : spansAt? d p = some (opening, closing, active)) :
    (d.tagAt p = .ok (some opening) ∧ active = .opening ∧
      (opening.kind = .selfClosing ∧ closing = none ∨
        opening.kind = .opening ∧ closing = d.partner? opening)) ∨
    ∃ s, d.tagAt p = .ok (some s) ∧ s.kind = .closing ∧ closing = some s ∧ active = .closing ∧
      d.partner? s = some opening := by
  unfold spansAt? at h
  split at h
  · cases h
  · cases h
  · rename_i span hspan
    split at h
    · rename_i hkind
      cases h
      exact .inl ⟨hspan, rfl, .inl ⟨hkind, rfl⟩⟩
    · rename_i hkind
      cases h
      exact .inl ⟨hspan, rfl, .inr ⟨hkind, rfl⟩⟩
    · rename_i hkind
      obtain ⟨first, hfirst, h⟩ := Option.map_eq_some_iff.1 h
      cases h
      exact .inr ⟨span, hspan, hkind, rfl, rfl, hfirst⟩

lemma nameRange_spansAt? {opening : TagSpan} {closing : Option TagSpan} {active : Side}
    (h : spansAt? d p = some (opening, closing, active)) :
    opening.nameRange ≠ none ∧ ∀ s, closing = some s → s.nameRange ≠ none := by
  have hnamed : ∀ {s}, d.tagAt p = .ok (some s) → s.nameRange ≠ none := by
    intro s hs
    obtain ⟨draft, -, hdraft⟩ := Document.drafted_of_tagAt hs
    exact Document.nameRange_completeTag? hdraft
  rcases spansAt?_cases h with ⟨hspan, -, ⟨-, rfl⟩ | ⟨-, rfl⟩⟩ | ⟨s, hspan, -, rfl, -, hpartner⟩
  · exact ⟨hnamed hspan, fun _ hnone => by cases hnone⟩
  · exact ⟨hnamed hspan, fun s hs => Document.nameRange_partner? hs (hnamed hspan)⟩
  · refine ⟨Document.nameRange_partner? hpartner (hnamed hspan), ?_⟩
    intro s' hs'
    cases hs'
    exact hnamed hspan

end Matcher

end TemplateEditing
