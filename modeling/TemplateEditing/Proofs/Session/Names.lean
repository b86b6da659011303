import TemplateEditing.Proofs.Session.Settling
import TemplateEditing.Proofs.Tag.Names

/-!
# The names of the pair that is shown

The tags of a pair have the same name when they are found, and renaming together sees to it that
they keep it, but only while the caret is in the name of the active tag and that name is plain. So
the names of a pair can differ only if an edit has left it out of reach, and nothing but the caret
has moved since (`run_names`). Replacing the name of the other tag is such an edit
(`names_differ_sampleAttribute`).

All of this holds whatever ends the rows of the text. Only that the matcher comes to an end with
the changes is known for line feeds alone.
-/

namespace TemplateEditing

open List

/-! ## Pairs -/

namespace TagPair

variable {pair : TagPair} {d d' : Document}

/-- Renaming together does not reach the pair: the caret is not in the name of the active tag, or
that name is not plain. -/
def OutOfReach (pair : TagPair) (d : Document) : Prop :=
  pair.activeTag.nameTouches d d.caret = false ∨
    ∃ name, pair.activeTag.name? d = some name ∧ isPlainName name = false

lemma eq_of_tags {shown : TagPair} (h : shown.tags = pair.tags) :
    shown.opening = pair.opening ∧ shown.closing = pair.closing := by
  rw [tags, tags, List.cons.injEq] at h
  refine ⟨h.1, ?_⟩
  rw [← Option.head?_toList (o := shown.closing), h.2, Option.head?_toList]

/-- Which names the tags have depends on text and markers only. -/
lemma Agrees.of_tags {shown : TagPair} (h : shown.Agrees d) (htags : shown.tags = pair.tags)
    (hmarked : d'.buffer.marked = d.buffer.marked) : pair.Agrees d' := by
  obtain ⟨close, name, hclosing, hopening, hclose⟩ := h
  obtain ⟨hsameOpening, hsameClosing⟩ := eq_of_tags htags
  obtain ⟨htext, hmarkers⟩ := MarkedText.mk.inj hmarked
  have hsame : ∀ tag : LiveTag, tag.name? d' = tag.name? d := by
    intro tag
    unfold LiveTag.name? LiveTag.nameRange? Document.marker? Document.text
    rw [htext, hmarkers]
  refine ⟨close, name, hsameClosing.symm.trans hclosing, ?_, ?_⟩
  · rw [← hsameOpening, hsame]
    exact hopening
  · rw [hsame]
    exact hclose

/-- The names of a valid pair are equal, unless renaming together does not reach it. -/
lemma agrees_or_outOfReach (hclosing : pair.closing ≠ none) (hsingle : d.cursors.isSingle = true)
    (hvalid : pair.isValid d = true) (hnamed : ∀ tag ∈ pair.tags, tag.name? d ≠ none)
    (hrenaming : pair.activeTag.nameTouches d d.caret = true → pair.renaming? d = none) :
    pair.Agrees d ∨ pair.OutOfReach d := by
  obtain ⟨close, hclose⟩ := Option.ne_none_iff_exists'.1 hclosing
  have htags : pair.tags = [pair.opening, close] := by
    rw [tags, hclose]
    rfl
  rw [isValid, htags] at hvalid
  rw [htags] at hnamed
  obtain ⟨hopeningName, hcloseName⟩ : pair.opening.name? d ≠ none ∧ close.name? d ≠ none := by
    simpa using hnamed
  obtain ⟨hopeningValid, hcloseValid⟩ : pair.opening.isValid d = true ∧ close.isValid d = true := by
    simpa using hvalid
  obtain ⟨name, hname⟩ := Option.ne_none_iff_exists'.1 hopeningName
  obtain ⟨name', hname'⟩ := Option.ne_none_iff_exists'.1 hcloseName
  by_cases hsame : name = name'
  · subst hsame
    exact .inl ⟨close, name, hclose, hname, hname'⟩
  right
  -- otherwise the other tag would have been given the name of the active one
  by_contra hreach
  unfold OutOfReach at hreach
  push Not at hreach
  obtain ⟨htouches, hplain⟩ := hreach
  have hnone := hrenaming (by simpa using htouches)
  rcases sides_of_closing hclose with ⟨hactive, hinactive⟩ | ⟨hactive, hinactive⟩
  · -- the open tag is the active one
    rw [hactive] at hplain
    have hrenames : pair.Renames d close name := by
      refine ⟨hclosing, hsingle, hinactive, ?_, ⟨name', hname', hsame⟩, ?_, ?_, hcloseValid⟩
      · rw [hactive, hname]
      · simpa using hplain name hname
      · rw [hactive, hopeningValid]
    rw [renaming?_eq_some_iff.2 hrenames] at hnone
    cases hnone
  · -- the close tag is the active one
    rw [hactive] at hplain
    have hrenames : pair.Renames d pair.opening name' := by
      refine ⟨hclosing, hsingle, hinactive, ?_, ⟨name, hname, Ne.symm hsame⟩, ?_, ?_,
        hopeningValid⟩
      · rw [hactive, hname']
      · simpa using hplain name' hname'
      · rw [hactive, hcloseValid]
    rw [renaming?_eq_some_iff.2 hrenames] at hnone
    cases hnone

end TagPair

/-! ## Edits without changes -/

namespace Buffer

/-- Changes are added to those that nobody has looked at yet. If there are none, neither the text
nor a marker has changed. -/
def Extends (b b' : Buffer) : Prop :=
  ∃ changes, b'.pending = b.pending ++ changes ∧ (changes = [] → b'.marked = b.marked)

lemma Extends.refl (b : Buffer) : b.Extends b := ⟨[], (append_nil _).symm, fun _ => rfl⟩

lemma Extends.trans {b b' b'' : Buffer} (h : b.Extends b') (h' : b'.Extends b'') :
    b.Extends b'' := by
  obtain ⟨changes, hpending, hmarked⟩ := h
  obtain ⟨changes', hpending', hmarked'⟩ := h'
  refine ⟨changes ++ changes', by rw [hpending', hpending, append_assoc], fun hnil => ?_⟩
  obtain ⟨hnil, hnil'⟩ := append_eq_nil_iff.1 hnil
  exact (hmarked' hnil').trans (hmarked hnil)

/-- A replay adds changes behind those that are pending. -/
lemma extends_foldl_replay (edits : List Edit) (b : Buffer) :
    b.Extends (edits.foldl replay b) := by
  induction edits generalizing b with
  | nil => exact .refl b
  | cons e edits ih =>
    refine Extends.trans ⟨_, rfl, fun hnil => ?_⟩ (ih (b.replay e))
    cases hnil

end Buffer

/-- An edit adds changes behind those that are pending. -/
lemma Document.Edited.extends {allowed : Text → Prop} {d d' : Document} (h : Edited allowed d d') :
    d.buffer.Extends d'.buffer := by
  refine h.keeps (I := fun d' => d.buffer.Extends d'.buffer) ?_ (fun hd => hd) (.refl _)
  intro d₁ d₂ halters hd₁
  refine hd₁.trans ?_
  cases halters with
  | splice hij hj ht mode =>
    -- a change is recorded even if it replaces a text by itself
    refine ⟨_, rfl, fun hnil => ?_⟩
    cases hnil
  | undo hundo =>
    rw [buffer_stepped]
    unfold Buffer.undo at hundo
    split at hundo
    · cases hundo
    · cases hundo
      exact Buffer.extends_foldl_replay _ _
  | redo hredo =>
    rw [buffer_stepped]
    unfold Buffer.redo at hredo
    split at hredo
    · cases hredo
    · cases hredo
      exact Buffer.extends_foldl_replay _ _
  | clearAll => exact .refl _
  | clearPrimary => exact .refl _

/-! ## The matcher -/

namespace Matcher

variable {base : List MarkerId} {settings : TagMatchingSettings} {m : Matcher} {d : Document}
  {pair : TagPair}

/-- The tags shown have names. -/
lemma Owns.name?_ne_none (h : Owns base m d) : ∀ tag ∈ m.tags, tag.name? d ≠ none := by
  intro tag htag
  obtain ⟨id, hid⟩ := Option.ne_none_iff_exists'.1 (h.named tag htag)
  have hheld : id ∈ m.held := by
    refine mem_flatMap.2 ⟨tag, htag, ?_⟩
    rw [LiveTag.markers, hid]
    exact mem_cons_of_mem _ mem_cons_self
  have hmem : id ∈ d.buffer.markers.ids := by
    rw [h.holds.ids_eq]
    exact mem_append_right _ hheld
  obtain ⟨entry, hentry, rfl⟩ := mem_map.1 hmem
  intro hnone
  rw [LiveTag.name?, Option.map_eq_none_iff, LiveTag.nameRange?, hid, Option.bind_some,
    Option.map_eq_none_iff] at hnone
  have hne := lookup_eq_none_iff.1 hnone entry hentry
  rw [bne_self_eq_false] at hne
  cases hne

/-- What is known of the matcher at any time, whatever ends the rows of the text. -/
structure Ready (base : List MarkerId) (settings : TagMatchingSettings) (m : Matcher)
    (d : Document) : Prop where
  owns : Owns base m d
  settings_eq : m.settings = settings
  isSingle : m.pair ≠ none → d.cursors.isSingle = true

lemma ready_drop (howns : Owns base m d) (hsettings : m.settings = settings) :
    Ready base settings (m.drop d).1 (m.drop d).2 :=
  ⟨howns.drop, (m.settings_drop d).trans hsettings, fun hne => absurd (m.pair_drop d) hne⟩

/-- A refresh makes the matcher ready. -/
lemma ready_refresh (howns : Owns base m d) (hsettings : m.settings = settings) :
    Ready base settings (m.refresh d).1 (m.refresh d).2 := by
  refine ⟨howns.refresh, (m.settings_refresh d).trans hsettings, fun hne => ?_⟩
  rcases m.refresh_cases d with heq | ⟨opening, closing, active, -, hsingle, -, heq⟩
  · rw [heq] at hne
    exact absurd (m.pair_drop d) hne
  · obtain ⟨markers, hmarkers⟩ := (m.drop d).1.exists_follow_eq (m.drop d).2 opening closing active
    rw [heq, hmarkers]
    exact hsingle

/-- A move makes the matcher ready. -/
lemma ready_afterMove (howns : Owns base m d) (hsettings : m.settings = settings) :
    Ready base settings (m.afterMove d).1 (m.afterMove d).2 := by
  rcases m.afterMove_cases d with heq | heq | ⟨hsingle, pair, side, hpair, -, heq⟩
  · rw [heq]
    exact ready_drop howns hsettings
  · rw [heq]
    exact ready_refresh howns hsettings
  · rw [heq]
    exact ⟨howns.withActive hpair side, hsettings, fun _ => hsingle⟩

/-- Once all changes have been looked at, the names of the pair are equal, or it was kept and is out
of reach. -/
lemma Ready.agrees_or_outOfReach (h : Ready base settings m d)
    (htogether : settings.renameTogether = true) {renamed : Bool} {m' : Matcher} {d' : Document}
    (hreaction : Session.reaction m d = .ok (renamed, m', d')) (hpending : d'.buffer.pending = [])
    (hpair : m'.pair = some pair) (hclosing : pair.closing ≠ none) :
    pair.Agrees d' ∨ holds pair d' = true ∧ pair.OutOfReach d' := by
  have howns : Owns base m d.takeChanges.2 := h.owns.of_numbers rfl
  rcases Session.reaction_cases hreaction with
    ⟨-, rfl, rfl⟩ | ⟨shown, hshown, rfl, ⟨-, rfl, hholds, hrenaming⟩ | ⟨-, -, hne⟩⟩
  · exact .inl (agrees_refresh howns.hasMarkers_drop.numbered hpair hclosing)
  · -- the pair was kept, and there was nothing to rename
    obtain rfl := Option.some.inj (hshown.symm.trans hpair)
    have hvalid := (Bool.and_eq_true_iff.1 hholds).1
    have hsingle : d.takeChanges.2.cursors.isSingle = true := by
      apply h.isSingle
      rw [hshown]
      exact Option.some_ne_none _
    have hnamed : ∀ tag ∈ shown.tags, tag.name? d.takeChanges.2 ≠ none := by
      have htags := howns.name?_ne_none
      rw [tags, hshown] at htags
      exact htags
    rw [h.settings_eq] at hrenaming
    rcases TagPair.agrees_or_outOfReach hclosing hsingle hvalid hnamed (hrenaming htogether) with
      hagrees | hreach
    · exact .inl hagrees
    · exact .inr ⟨hholds, hreach⟩
  · -- after a renaming there is a change left to look at
    exact absurd hpending hne

/-- The pair was shown before, and neither the text nor a marker has changed since. -/
def Retains (m : Matcher) (d : Document) (pair : TagPair) (d' : Document) : Prop :=
  ∃ shown, m.pair = some shown ∧ shown.tags = pair.tags ∧ d'.buffer.marked = d.buffer.marked

lemma Owns.agrees_or_retains_afterMove (h : Owns base m d)
    (hpair : (m.afterMove d).1.pair = some pair) (hclosing : pair.closing ≠ none) :
    pair.Agrees (m.afterMove d).2 ∨ m.Retains d pair (m.afterMove d).2 := by
  rcases m.afterMove_cases d with heq | heq | ⟨-, shown, side, hshown, -, heq⟩
  · rw [heq, m.pair_drop d] at hpair
    cases hpair
  · rw [heq] at hpair ⊢
    exact .inl (agrees_refresh h.hasMarkers_drop.numbered hpair hclosing)
  · rw [heq] at hpair ⊢
    cases hpair
    exact .inr ⟨shown, hshown, rfl, rfl⟩

end Matcher

/-! ## Operations -/

/-- The operation was not refused, and the matcher has looked at all changes. -/
def Outcome.Ended (outcome : Outcome) : Prop :=
  outcome.error = none ∧ outcome.session.document.buffer.pending = []

namespace Session

open Matcher (Ready)

variable {base : List MarkerId} {settings : TagMatchingSettings} {s : Session} {op : Operation}
  {pair : TagPair}

lemma kept_ready (base : List MarkerId) (settings : TagMatchingSettings) :
    Kept (fun _ => True) (Ready base settings) where
  prepare := by
    intro m d h typed
    rcases m.beforeTyping_cases d typed with heq | heq
    · rw [heq]
      exact h
    · rw [heq]
      exact Matcher.ready_drop h.owns h.settings_eq
  edit := by
    intro m d d' op edit h hedit hop hd'
    have hedited : Document.Edited (fun _ => True) d d' := op.edited_of_edit? hedit hop hd'
    refine ⟨(kept_owns base).edit h.owns hedit hop hd', h.settings_eq, fun hne => ?_⟩
    exact hedited.keeps Document.Alters.isSingle (fun hd => hd) (h.isSingle hne)
  react := by
    intro m d renamed m' d' h hreaction
    have howns := (kept_owns base).react h.owns hreaction
    rcases reaction_cases hreaction with
      ⟨-, rfl, rfl⟩ | ⟨pair, -, rfl, ⟨-, rfl, -, -⟩ | ⟨-, hedited, -⟩⟩
    · exact Matcher.ready_refresh (h.owns.of_numbers rfl) h.settings_eq
    · exact ⟨howns, h.settings_eq, h.isSingle⟩
    · refine ⟨howns, h.settings_eq, fun hne => ?_⟩
      exact hedited.keeps Document.Alters.isSingle (fun hd => hd) (h.isSingle hne)
  refuse h _ := ⟨h.owns.of_numbers rfl, h.settings_eq, h.isSingle⟩
  turn := by
    intro m d h op
    rcases op.turn_cases m d with
      ⟨d', hbuffer, heq⟩ | ⟨d', hbuffer, heq⟩ | ⟨d', -, hmarkers, hcursors, heq⟩
    · rw [heq]
      exact Matcher.ready_afterMove (h.owns.of_numbers (by rw [hbuffer])) h.settings_eq
    · rw [heq]
      exact Matcher.ready_refresh (h.owns.of_numbers (by rw [hbuffer])) h.settings_eq
    · rw [heq]
      refine ⟨h.owns.of_numbers (by rw [hmarkers]), h.settings_eq, ?_⟩
      rw [hcursors]
      exact h.isSingle

/-- What the matcher does before an edit leaves a pair that is still shown as it was. -/
lemma Operation.prepare_eq {m : Matcher} {d : Document}
    (hpair : (op.prepare m d).1.pair = some pair) : op.prepare m d = (m, d) := by
  cases op
  case type typed =>
    show m.beforeTyping d typed = (m, d)
    have hpair : (m.beforeTyping d typed).1.pair = some pair := hpair
    rcases m.beforeTyping_cases d typed with heq | heq
    · exact heq
    · rw [heq, m.pair_drop d] at hpair
      cases hpair
  all_goals rfl

lemma agrees_or_retains_turn {m : Matcher} {d : Document} (h : Matcher.Owns base m d)
    (hpair : (op.turn m d).1.pair = some pair) (hclosing : pair.closing ≠ none) :
    pair.Agrees (op.turn m d).2 ∨ m.Retains d pair (op.turn m d).2 := by
  rcases op.turn_cases m d with
    ⟨d', hbuffer, heq⟩ | ⟨d', hbuffer, heq⟩ | ⟨d', htext, hmarkers, -, heq⟩
  · rw [heq] at hpair ⊢
    have howns : Matcher.Owns base m d' := h.of_numbers (by rw [hbuffer])
    unfold Matcher.Retains
    rw [← hbuffer]
    exact howns.agrees_or_retains_afterMove hpair hclosing
  · rw [heq] at hpair ⊢
    have howns : Matcher.Owns base m d' := h.of_numbers (by rw [hbuffer])
    exact .inl (Matcher.agrees_refresh howns.hasMarkers_drop.numbered hpair hclosing)
  · rw [heq] at hpair ⊢
    exact .inr ⟨pair, hpair, rfl, congrArg₂ MarkedText.mk htext hmarkers⟩

/-- The reactions to changes come to an end with equal names, or with a pair that is out of
reach. -/
lemma settleWithin_cases (htogether : settings.renameTogether = true) (rounds : Nat) :
    ∀ s : Session, Ready base settings s.matcher s.document → s.document.buffer.pending ≠ [] →
      (s.settleWithin rounds).Ended → (s.settleWithin rounds).session.matcher.pair = some pair →
      pair.closing ≠ none → pair.Agrees (s.settleWithin rounds).session.document ∨
        Matcher.holds pair (s.settleWithin rounds).session.document = true ∧
          pair.OutOfReach (s.settleWithin rounds).session.document := by
  induction rounds with
  | zero => exact fun s _ hsome hended => absurd hended.2 hsome
  | succ rounds ih =>
    intro s h hsome hended hpair hclosing
    cases hreaction : reaction s.matcher s.document with
    | error e =>
      rw [settleWithin_of_error hsome hreaction] at hended
      cases hended.1
    | ok result =>
      obtain ⟨renamed, m, d⟩ := result
      rw [settleWithin_of_ok hsome hreaction] at hended hpair ⊢
      by_cases hnone : d.buffer.pending = []
      · -- this round was the last one
        rw [settleWithin_of_nil (s := s.reacted renamed m d) hnone] at hpair ⊢
        exact h.agrees_or_outOfReach htogether hreaction hnone hpair hclosing
      · have hready : Ready base settings m d := (kept_ready base settings).react h hreaction
        exact ih (s.reacted renamed m d) hready hnone hended hpair hclosing

/-- An operation ends exactly if its edit settles. -/
lemma ended_perform_iff {edited : Session} (hedited : s.edited? op = some edited) :
    (s.perform op).Ended ↔ edited.settle.Ended := by
  have hcore := core_transaction s fun _ => edited.settle
  have hdocument : (s.transaction fun _ => edited.settle).session.document =
      edited.settle.session.document := congrArg Prod.snd hcore
  unfold Outcome.Ended
  rw [perform_of_edited? hedited, hdocument]
  rfl

/-- The operation is an edit with changes, and the pair is shown after it. If the matcher has come
to an end with the changes, it has kept the pair, and renaming together does not reach that. -/
structure LeavesOutOfReach (s : Session) (op : Operation) (pair : TagPair) : Prop where
  edited : ∃ edited, s.edited? op = some edited ∧ edited.document.buffer.pending ≠ []
  pair_eq : (s.perform op).session.matcher.pair = some pair
  outOfReach : (s.perform op).Ended →
    Matcher.holds pair (s.perform op).session.document = true ∧
      pair.OutOfReach (s.perform op).session.document

/-- An edit without changes leaves a pair that is still shown as it was. -/
lemma retains_of_edited? {edited : Session} (hedited : s.edited? op = some edited)
    (hnone : edited.document.buffer.pending = []) (hpair : edited.matcher.pair = some pair) :
    s.matcher.Retains s.document pair edited.document := by
  obtain ⟨edit, d, hedit, hd, rfl⟩ := exists_of_edited? hedited
  have hprepare : op.prepare s.matcher s.document = (s.matcher, s.document) := op.prepare_eq hpair
  unfold prepared at hd hpair
  rw [hprepare] at hd hpair
  have hedited : Document.Edited (fun _ => True) s.document d := op.edited_of_edit? hedit trivial hd
  obtain ⟨changes, hpending, hmarked⟩ := hedited.extends
  have hnone : d.buffer.pending = [] := hnone
  rw [hnone] at hpending
  exact ⟨pair, hpair, rfl, hmarked (append_eq_nil_iff.1 hpending.symm).2⟩

/-- After an operation the names are equal, or nothing has changed, or the pair is out of reach. -/
lemma perform_cases (h : Ready base settings s.matcher s.document)
    (htogether : settings.renameTogether = true)
    (hpair : (s.perform op).session.matcher.pair = some pair) (hclosing : pair.closing ≠ none) :
    pair.Agrees (s.perform op).session.document ∨
      s.matcher.Retains s.document pair (s.perform op).session.document ∨
      s.LeavesOutOfReach op pair := by
  have hdocument : (s.perform op).session.document = (s.perform op).session.core.2 := rfl
  have hshown : (s.perform op).session.core.1.pair = some pair := hpair
  rcases s.core_perform op with hcore | hcore | ⟨edited, hedited, hcore⟩
  · -- the operation makes no edit
    rw [hcore] at hdocument hshown
    rw [hdocument]
    exact (agrees_or_retains_turn h.owns hshown hclosing).imp_right .inl
  · -- the edit is refused
    rw [hcore] at hdocument hshown
    rw [op.prepare_eq hshown] at hdocument hshown
    rw [hdocument]
    exact .inr (.inl ⟨pair, hshown, rfl, rfl⟩)
  · rw [hcore] at hdocument hshown
    by_cases hnone : edited.document.buffer.pending = []
    · have hsettle : edited.settle = { session := edited } := settleWithin_of_nil hnone _
      rw [hsettle] at hdocument hshown
      rw [hdocument]
      exact .inr (.inl (retains_of_edited? hedited hnone hshown))
    · by_cases hended : (s.perform op).Ended
      · have hready := (kept_ready base settings).edited trivial h hedited
        have hcases := settleWithin_cases htogether _ edited hready hnone
          ((ended_perform_iff hedited).1 hended) hshown hclosing
        rw [hdocument]
        refine hcases.imp_right fun hreach => .inr ⟨⟨edited, hedited, hnone⟩, hpair, fun _ => ?_⟩
        rw [hdocument]
        exact hreach
      · exact .inr (.inr ⟨⟨edited, hedited, hnone⟩, hpair, fun hcontra => absurd hcontra hended⟩)

/-! ## Runs -/

/-- With line feeds alone the matcher always comes to an end. -/
lemma ended_perform {edited : Session} (hpatience : 2 ≤ s.patience)
    (h : Matcher.Shows base settings s.matcher s.document)
    (hop : op.inserted.OnlyLineFeeds) (hedited : s.edited? op = some edited) :
    (s.perform op).Ended := by
  obtain ⟨rounds, last, hsettled⟩ := settled_of_inStep (inStep_of_edited? h hop hedited)
  have hlength := hsettled.length_le
  have hsame : edited.patience = s.patience := patience_of_edited? hedited
  rw [ended_perform_iff hedited, settle, hsettled.settles.settleWithin_eq (by omega)]
  exact ⟨rfl, hsettled.settles.pending_eq⟩

lemma core_start (d : Document) (settings : Settings) (patience : Nat) :
    (Session.start d settings patience).core =
      Matcher.refresh { settings := settings.tagMatching } d := rfl

section

variable {d : Document} (hnumbered : d.buffer.markers.Numbered) (settings : Settings)

include hnumbered

lemma owns_start : Matcher.Owns d.buffer.markers.ids { settings := settings.tagMatching } d :=
  ⟨⟨(append_nil _).symm, hnumbered⟩, fun _ ht => absurd ht not_mem_nil⟩

/-- The pair shown at the start has one name. -/
lemma agrees_start {patience : Nat}
    (hpair : (Session.start d settings patience).matcher.pair = some pair)
    (hclosing : pair.closing ≠ none) :
    pair.Agrees (Session.start d settings patience).document := by
  have hpair : (Session.start d settings patience).core.1.pair = some pair := hpair
  show pair.Agrees (Session.start d settings patience).core.2
  have howns := owns_start hnumbered settings
  rw [core_start] at hpair ⊢
  exact Matcher.agrees_refresh howns.hasMarkers_drop.numbered hpair hclosing

/-- Every run leaves the matcher ready. -/
lemma ready_run (patience : Nat) (ops : List Operation) :
    Ready d.buffer.markers.ids settings.tagMatching
      ((Session.start d settings patience).run ops).matcher
      ((Session.start d settings patience).run ops).document := by
  have hstart : Ready d.buffer.markers.ids settings.tagMatching
      (Session.start d settings patience).matcher (Session.start d settings patience).document :=
    Matcher.ready_refresh (owns_start hnumbered settings) rfl
  exact (kept_ready _ _).run (fun _ _ => trivial) hstart

end

lemma run_concat (s : Session) (ops : List Operation) (op : Operation) :
    s.run (ops ++ [op]) = ((s.run ops).perform op).session := by
  unfold run
  rw [foldl_append]
  rfl

/-- Whatever is done in a session, and however many times the matcher reacts to an edit, the tags of
a pair that is shown have the same name, unless some edit has left the pair out of reach, and neither
the text nor a marker has changed since. If line feeds are the only row terminators, the matcher has
come to an end with that edit after two reactions. -/
theorem run_names (d : Document) (hnumbered : d.buffer.markers.Numbered) (settings : Settings)
    (htogether : settings.tagMatching.renameTogether = true) (patience : Nat)
    (ops : List Operation) (pair : TagPair)
    (hpair : ((Session.start d settings patience).run ops).matcher.pair = some pair)
    (hclosing : pair.closing ≠ none) :
    let start := Session.start d settings patience
    let s := start.run ops
    pair.Agrees s.document ∨
      ∃ before op after shown, ops = before ++ op :: after ∧
        (start.run before).LeavesOutOfReach op shown ∧
        shown.tags = pair.tags ∧
        s.document.buffer.marked = (start.run (before ++ [op])).document.buffer.marked ∧
        (2 ≤ patience → d.Sound → (∀ op ∈ ops, op.inserted.OnlyLineFeeds) →
          ((start.run before).perform op).Ended) := by
  dsimp only
  -- on the run from its end: a pair kept by the last operation was shown before it, perhaps with
  -- the other tag active, so the statement is needed for all pairs
  induction ops using List.reverseRecOn generalizing pair with
  | nil => exact .inl (agrees_start hnumbered settings hpair hclosing)
  | append_singleton ops op ih =>
    rw [run_concat] at hpair ⊢
    rcases perform_cases (ready_run hnumbered settings patience ops) htogether hpair hclosing with
      hagrees | ⟨shown, hshown, htags, hmarked⟩ | hleaves
    · exact .inl hagrees
    · -- nothing has changed since the operation before
      rw [← (TagPair.eq_of_tags htags).2] at hclosing
      rcases ih shown hshown hclosing with
        hagrees | ⟨before, op', after, shown', rfl, hleaves, htags', hmarked', hended⟩
      · exact .inl (hagrees.of_tags htags hmarked)
      · refine .inr ⟨before, op', after ++ [op], shown', ?_, hleaves, htags'.trans htags,
          hmarked.trans hmarked', fun htwo hd hops => hended htwo hd fun op'' hop'' => ?_⟩
        · rw [append_assoc, cons_append]
        · exact hops op'' (mem_append_left _ hop'')
    · refine .inr ⟨ops, op, [], pair, rfl, hleaves, rfl, by rw [run_concat],
        fun htwo hd hops => ?_⟩
      obtain ⟨edited, hedited, -⟩ := hleaves.edited
      have hsame := patience_run (Session.start d settings patience) ops
      refine ended_perform (hsame ▸ htwo)
        (run_shows hd hnumbered settings patience htwo fun op' hop' => ?_) ?_ hedited
      · exact hops op' (mem_append_left _ hop')
      · exact hops op (mem_append_right _ mem_cons_self)

/-- A document with an attribute, and the caret in it. -/
def sampleAttribute : Document :=
  (Document.ofText .marko "<div a></div>".toList).setCursor ⟨0, 6⟩

lemma sound_sampleAttribute : sampleAttribute.Sound :=
  (Document.sound_ofText .marko (by decide)).setCursor _

/-- The names of the tags shown, the one of the open tag first. -/
def shownNames (s : Session) : Option (Option Text × Option Text) :=
  s.matcher.pair.map fun pair =>
    (pair.opening.name? s.document, pair.closing.bind (·.name? s.document))

/-- The name of the other tag is replaced while the caret is in an attribute. -/
theorem names_differ_sampleAttribute :
    let s := (Session.start sampleAttribute {}).run [.replace ⟨⟨0, 9⟩, ⟨0, 12⟩⟩ "p".toList]
    s.shownNames = some (some "div".toList, some "p".toList) := by
  decide +kernel

theorem run_names_sampleAttribute :
    let s := Session.start sampleAttribute {}
    let op := Operation.replace ⟨⟨0, 9⟩, ⟨0, 12⟩⟩ "p".toList
    ∃ pair, (s.perform op).session.matcher.pair = some pair ∧
      Matcher.holds pair (s.perform op).session.document = true ∧
      pair.OutOfReach (s.perform op).session.document := by
  intro s op
  have hnames : (s.run [op]).shownNames = some (some "div".toList, some "p".toList) := by
    decide +kernel
  obtain ⟨pair, hpair, hshown⟩ := Option.map_eq_some_iff.1 hnames
  obtain ⟨hopening, hclose⟩ := Prod.mk.inj hshown
  obtain ⟨close, hclosing, hname⟩ := Option.bind_eq_some_iff.1 hclose
  rcases run_names sampleAttribute ⟨by decide, by decide⟩ {} rfl 1000 [op] pair hpair
      (by rw [hclosing]; exact Option.some_ne_none _) with
    ⟨close', name, hclosing', hopening', hclose'⟩ |
    ⟨before, op', after, shown, hops, hleaves, -, -, hended⟩
  · -- the names are not equal
    obtain rfl := Option.some.inj (hclosing.symm.trans hclosing')
    have hsame : "div".toList = "p".toList :=
      (Option.some.inj (hopening.symm.trans hopening')).trans
        (Option.some.inj (hname.symm.trans hclose')).symm
    exact absurd hsame (by decide)
  · obtain ⟨rfl, rfl, rfl⟩ : before = [] ∧ op' = op ∧ after = [] := by
      rcases append_eq_singleton_iff.1 hops.symm with ⟨hbefore, hrest⟩ | ⟨-, hrest⟩
      · exact ⟨hbefore, (List.cons.inj hrest).1, (List.cons.inj hrest).2⟩
      · cases hrest
    have hplain : ∀ op' ∈ [op], op'.inserted.OnlyLineFeeds :=
      forall_mem_singleton.2 (by decide)
    exact ⟨shown, hleaves.pair_eq, hleaves.outOfReach (hended (by decide) sound_sampleAttribute hplain)⟩

end Session

end TemplateEditing
