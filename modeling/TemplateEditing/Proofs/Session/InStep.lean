import TemplateEditing.Proofs.Session.Ownership
import TemplateEditing.Proofs.Tag.Shown

/-!
# The matcher keeps in step

Where line feeds are the only row terminators, the tags of the pair that is shown stay where the
edits have moved them, whatever is done (`Follows`), and between operations what is shown is what
there is to show (`Shows`). In the middle of an operation that holds again once the matcher has
looked at all changes (`InStep`). One reaction keeps this, and a reaction that has renamed a tag is
not followed by another one that does (`InStep.reaction`).
-/

namespace TemplateEditing

/-! ## Brackets that are guarded -/

namespace TagMatchingSettings

/-- Inserting a bracket drops the pair. -/
def GuardsBrackets (s : TagMatchingSettings) : Prop :=
  '<' ∈ s.structuralChars.toList ∧ '>' ∈ s.structuralChars.toList

instance : DecidablePred GuardsBrackets := fun s =>
  inferInstanceAs (Decidable ('<' ∈ s.structuralChars.toList ∧ '>' ∈ s.structuralChars.toList))

lemma GuardsBrackets.not_mem {s : TagMatchingSettings} (h : s.GuardsBrackets) {t : Text}
    (ht : s.isStructural t = false) : '<' ∉ t ∧ '>' ∉ t := by
  have hnone : ∀ c ∈ t, c ∉ s.structuralChars.toList := by
    intro c hc hmem
    rw [isStructural, List.any_eq_false] at ht
    exact ht c hc (List.contains_iff_mem.2 hmem)
  exact ⟨fun hmem => hnone _ hmem h.1, fun hmem => hnone _ hmem h.2⟩

end TagMatchingSettings

/-- The tags of a pair follow edits one after the other. They stay clean unless one of the edits is
structural. -/
lemma TagPair.LiesAt.tracksAll {pair : TagPair} {close : LiveTag} {p p' : MarkedText}
    {edits : List Edit} {changes : List Change} (h : MarkedText.TracksAll p edits changes p')
    (settings : TagMatchingSettings) {x y : Spot} (hlies : pair.LiesAt close p x y)
    (honly : p.text.OnlyLineFeeds) (hedits : ∀ e ∈ edits, e.inserted.OnlyLineFeeds) :
    ∃ x' y', pair.LiesAt close p' x' y' ∧ (settings.GuardsBrackets → Clean p.text x y →
      Clean p'.text x' y' ∨ changes.any (settings.isStructural ·.newText) = true) := by
  induction h generalizing x y with
  | nil p => exact ⟨x, y, hlies, fun _ hclean => .inl hclean⟩
  | cons hfirst hlater ih =>
    rename_i p p' p'' e edits c changes
    have honly' : p'.text.OnlyLineFeeds := by
      rw [hfirst.text_eq]
      exact honly.splice (hedits e List.mem_cons_self) _ _
    obtain ⟨x', y', hlies', hlast⟩ := ih (hlies.tracks honly hfirst) honly'
      fun e' he' => hedits e' (List.mem_cons_of_mem e he')
    refine ⟨x', y', hlies', fun hguards hclean => ?_⟩
    rw [List.any_cons, Bool.or_eq_true, hfirst.newText_eq]
    by_cases hstructural : settings.isStructural e.inserted = true
    · exact .inr (.inl hstructural)
    · obtain ⟨hless, hgreater⟩ := hguards.not_mem (Bool.eq_false_iff.2 hstructural)
      have hmoved := hclean.splice hfirst.start_le_stop hfirst.stop_le_length hless hgreater
      rw [← hfirst.text_eq] at hmoved
      rcases hlast hguards hmoved with hclean' | hlater'
      · exact .inl hclean'
      · exact .inr (.inr hlater')

/-! ## What depends on text and markers only -/

section

variable {d d' : Document} (h : d'.buffer.marked = d.buffer.marked)

include h

lemma LiveTag.touches_congr (tag : LiveTag) (p : Position) :
    tag.touches d' p = tag.touches d p := by
  obtain ⟨-, hmarkers⟩ := MarkedText.mk.inj h
  unfold LiveTag.touches LiveTag.range? Document.marker?
  rw [hmarkers]

lemma TagPair.isValid_congr (pair : TagPair) : pair.isValid d' = pair.isValid d := by
  obtain ⟨htext, hmarkers⟩ := MarkedText.mk.inj h
  unfold TagPair.isValid LiveTag.isValid Document.marker? Document.text
  rw [htext, hmarkers]

lemma TagPair.misread_congr (pair : TagPair) : pair.misread d' = pair.misread d := by
  obtain ⟨htext, hmarkers⟩ := MarkedText.mk.inj h
  unfold TagPair.misread LiveTag.range? Document.marker? Document.text
  rw [htext, hmarkers]

lemma TagPair.Shown.of_marked {pair : TagPair} (hshown : pair.Shown d)
    (hsingle : d'.cursors.isSingle = true) (hcaret : d'.caret = d.caret) : pair.Shown d' := by
  refine ⟨hsingle, ?_, ?_⟩
  · rw [LiveTag.touches_congr h, hcaret]
    exact hshown.touches
  · rw [pair.isValid_congr h, pair.misread_congr h]
    exact hshown.isValid_eq

end

/-! ## The matcher and its document -/

namespace Matcher

/-- The tags of the pair are where the edits have moved them. Brackets may stand in the way of that
only if a change that nobody has looked at yet is structural. -/
structure Follows (base : List MarkerId) (settings : TagMatchingSettings) (m : Matcher)
    (d : Document) : Prop where
  owns : Owns base m d
  settings_eq : m.settings = settings
  sound : d.Sound
  enabled : m.pair ≠ none → settings.enabled = true
  layout : ∀ pair close, m.pair = some pair → pair.closing = some close → ∃ x y,
    pair.LiesAt close d.buffer.marked x y ∧ (settings.GuardsBrackets →
      Clean d.text x y ∨ d.buffer.pending.any (settings.isStructural ·.newText) = true)

/-- Moreover what is shown is what there is to show. -/
structure Shows (base : List MarkerId) (settings : TagMatchingSettings) (m : Matcher)
    (d : Document) : Prop extends Follows base settings m d where
  shown : ∀ pair, m.pair = some pair → pair.Shown d

/-- In the middle of an operation that need not be so while there are changes that nobody has looked
at yet. -/
structure InStep (base : List MarkerId) (settings : TagMatchingSettings) (m : Matcher)
    (d : Document) : Prop extends Follows base settings m d where
  isSingle : m.pair ≠ none → d.cursors.isSingle = true
  shown : d.buffer.pending = [] → ∀ pair, m.pair = some pair → pair.Shown d

variable {base : List MarkerId} {settings : TagMatchingSettings} {m : Matcher} {d d' : Document}

lemma Shows.inStep (h : Shows base settings m d) : InStep base settings m d := by
  refine ⟨h.toFollows, fun hne => ?_, fun _ => h.shown⟩
  obtain ⟨pair, hpair⟩ := Option.ne_none_iff_exists'.1 hne
  exact (h.shown pair hpair).isSingle

lemma shows_of_pair_eq_none (howns : Owns base m d) (hsettings : m.settings = settings)
    (hsound : d.Sound) (hnone : m.pair = none) : Shows base settings m d := by
  refine ⟨⟨howns, hsettings, hsound, fun hne => absurd hnone hne, ?_⟩, ?_⟩
  · intro pair close hpair
    rw [hnone] at hpair
    cases hpair
  · intro pair hpair
    rw [hnone] at hpair
    cases hpair

lemma shows_drop (howns : Owns base m d) (hsettings : m.settings = settings) (hsound : d.Sound) :
    Shows base settings (m.drop d).1 (m.drop d).2 :=
  shows_of_pair_eq_none howns.drop ((m.settings_drop d).trans hsettings) (hsound.drop m)
    (m.pair_drop d)

/-- A search shows what there is to show, whatever was shown before. -/
lemma shows_refresh (howns : Owns base m d) (hsettings : m.settings = settings) (hsound : d.Sound) :
    Shows base settings (m.refresh d).1 (m.refresh d).2 := by
  obtain ⟨hsound', hfound⟩ := refresh_shown hsound howns.hasMarkers_drop.numbered
  refine ⟨⟨howns.refresh, (m.settings_refresh d).trans hsettings, hsound', ?_, ?_⟩, ?_⟩
  · intro hne
    obtain ⟨pair, hpair⟩ := Option.ne_none_iff_exists'.1 hne
    rw [← hsettings]
    exact (hfound pair hpair).1
  · intro pair close hpair hclosing
    obtain ⟨x, y, hlies, hclean⟩ := (hfound pair hpair).2.2 close hclosing
    exact ⟨x, y, hlies, fun _ => .inl hclean⟩
  · exact fun pair hpair => (hfound pair hpair).2.1

namespace Follows

variable (h : Follows base settings m d)

include h

/-- What else a document holds does not matter. -/
lemma of_marked (hsound : d'.Sound) (hmarked : d'.buffer.marked = d.buffer.marked)
    (hpending : d'.buffer.pending = d.buffer.pending) : Follows base settings m d' := by
  obtain ⟨htext, hmarkers⟩ := MarkedText.mk.inj hmarked
  refine ⟨h.owns.of_numbers (by rw [hmarkers]), h.settings_eq, hsound, h.enabled, ?_⟩
  intro pair close hpair hclosing
  obtain ⟨x, y, hlies, hclean⟩ := h.layout pair close hpair hclosing
  refine ⟨x, y, by rw [hmarked]; exact hlies, ?_⟩
  rw [hpending, show d'.text = d.text from htext]
  exact hclean

/-- Once changes that are not structural have been looked at. -/
lemma takeChanges (hplain : d.buffer.pending.any (settings.isStructural ·.newText) = false) :
    Follows base settings m d.takeChanges.2 := by
  refine ⟨h.owns.of_numbers rfl, h.settings_eq, h.sound.takeChanges, h.enabled, ?_⟩
  intro pair close hpair hclosing
  obtain ⟨x, y, hlies, hclean⟩ := h.layout pair close hpair hclosing
  refine ⟨x, y, hlies, fun hguards => .inl ?_⟩
  refine (hclean hguards).resolve_right fun hstructural => ?_
  rw [hplain] at hstructural
  cases hstructural

lemma edited (hedited : Document.Edited Text.OnlyLineFeeds d d') : Follows base settings m d' := by
  obtain ⟨hsound, hfollows⟩ := hedited.sound h.sound
  refine ⟨h.owns.of_numbers hedited.numbers, h.settings_eq, hsound, h.enabled, ?_⟩
  intro pair close hpair hclosing
  obtain ⟨x, y, hlies, hclean⟩ := h.layout pair close hpair hclosing
  obtain ⟨edits, changes, htracks, honly, hpending⟩ := hfollows.tracked
  obtain ⟨x', y', hlies', hclean'⟩ := hlies.tracksAll htracks settings h.sound.onlyLineFeeds honly
  refine ⟨x', y', hlies', fun hguards => ?_⟩
  rw [hpending, List.any_append, Bool.or_eq_true]
  rcases hclean hguards with hclean | hstructural
  · rcases hclean' hguards hclean with hclean | hstructural
    · exact .inl hclean
    · exact .inr (.inr hstructural)
  · exact .inr (.inl hstructural)

/-- After the caret has moved, whatever it was before. -/
lemma afterMove (hread : ∀ pair, m.pair = some pair → pair.isValid d = !pair.misread d) :
    Shows base settings (m.afterMove d).1 (m.afterMove d).2 := by
  rcases m.afterMove_cases d with heq | heq | ⟨hsingle, pair, side, hpair, htouches, heq⟩
  · rw [heq]
    exact shows_drop h.owns h.settings_eq h.sound
  · rw [heq]
    exact shows_refresh h.owns h.settings_eq h.sound
  · rw [heq]
    refine ⟨⟨h.owns.withActive hpair side, h.settings_eq, h.sound, fun _ => h.enabled ?_, ?_⟩, ?_⟩
    · rw [hpair]
      exact Option.some_ne_none _
    · intro shown close hshown hclosing
      cases hshown
      obtain ⟨x, y, hlies, hclean⟩ := h.layout pair close hpair hclosing
      exact ⟨x, y, { hlies with }, hclean⟩
    · intro shown hshown
      cases hshown
      exact ⟨hsingle, htouches, hread pair hpair⟩

end Follows

namespace Shows

variable (h : Shows base settings m d)

include h

lemma beforeTyping (typed : Text) :
    Shows base settings (m.beforeTyping d typed).1 (m.beforeTyping d typed).2 := by
  rcases m.beforeTyping_cases d typed with heq | heq
  · rw [heq]
    exact h
  · rw [heq]
    exact shows_drop h.owns h.settings_eq h.sound

/-- An edit that changes nothing leaves what is shown. -/
lemma edited (hedited : Document.Edited Text.OnlyLineFeeds d d') : InStep base settings m d' := by
  obtain ⟨-, htracked, hsingle, hcaret⟩ := hedited.sound h.sound
  refine ⟨h.toFollows.edited hedited, ?_, ?_⟩
  · intro hne
    obtain ⟨pair, hpair⟩ := Option.ne_none_iff_exists'.1 hne
    exact hsingle (h.shown pair hpair).isSingle
  · intro hnone pair hpair
    obtain ⟨edits, changes, htracks, -, hpending⟩ := htracked
    rw [hnone] at hpending
    obtain ⟨hbefore, rfl⟩ := List.append_eq_nil_iff.1 hpending.symm
    have hshown := h.shown pair hpair
    have hsame := hcaret (hnone.trans hbefore.symm)
    exact hshown.of_marked htracks.eq_of_nil (hsingle hshown.isSingle) hsame

/-- The caret, the file and the time may change at will. -/
lemma turn (op : Session.Operation) :
    Shows base settings (op.turn m d).1 (op.turn m d).2 := by
  have hread : ∀ pair, m.pair = some pair → pair.isValid d = !pair.misread d :=
    fun pair hpair => (h.shown pair hpair).isValid_eq
  -- what leaves text, markers and cursors alone leaves what is shown
  have hsame : ∀ {d' : Document}, d'.Sound → d'.buffer.marked = d.buffer.marked →
      d'.buffer.pending = d.buffer.pending → d'.cursors = d.cursors →
      Shows base settings m d' := by
    intro d' hsound hmarked hpending hcursors
    refine ⟨h.toFollows.of_marked hsound hmarked hpending, fun pair hpair => ?_⟩
    have hshown := h.shown pair hpair
    refine hshown.of_marked hmarked (by rw [hcursors]; exact hshown.isSingle) ?_
    rw [Document.caret, Document.caret, hcursors]
  cases op
  case moveCursor p =>
    exact (h.toFollows.of_marked (h.sound.setCursor p) rfl rfl).afterMove hread
  case select r =>
    exact (h.toFollows.of_marked (h.sound.select r) rfl rfl).afterMove hread
  case addCursor p =>
    show Shows base settings (((d.addCursor? p).map m.afterMove).getD (m, d)).1
      (((d.addCursor? p).map m.afterMove).getD (m, d)).2
    cases hadd : d.addCursor? p with
    | none => exact h
    | some d' =>
      have hsound := h.sound.addCursor? hadd
      obtain ⟨cursors, -, rfl⟩ := Option.map_eq_some_iff.1 hadd
      exact (h.toFollows.of_marked hsound rfl rfl).afterMove hread
  case setGrammar g =>
    exact shows_refresh (h.owns.of_numbers rfl) h.settings_eq (h.sound.setGrammar g)
  case save tree =>
    obtain ⟨name, path, modified, hsaved⟩ := d.exists_save_eq tree
    show Shows base settings m ((d.save tree).2.toOption.getD d)
    rw [hsaved]
    exact hsame (h.sound.filed name path modified) rfl rfl rfl
  case saveAs p tree =>
    obtain ⟨name, path, modified, hsaved⟩ := d.exists_saveAs_eq p tree
    show Shows base settings m ((d.saveAs p tree).2.toOption.getD d)
    rw [hsaved]
    exact hsame (h.sound.filed name path modified) rfl rfl rfl
  case wait milliseconds => exact hsame (h.sound.advance milliseconds) rfl rfl rfl
  all_goals exact h

end Shows

/-! ## One reaction -/

/-- Where the names need not be made equal, no tag is renamed. -/
lemma renamed_eq_false {pair : TagPair} (hpair : m.pair = some pair)
    (hnone : pair.renaming? d = none) {renamed : Bool} {m' : Matcher}
    (h : Session.reaction m d = .ok (renamed, m', d')) : renamed = false := by
  rcases Session.reaction_cases h with
    ⟨hrenamed, -⟩ | ⟨shown, hshown, -, ⟨hrenamed, -⟩ | ⟨⟨other, name, hrenames⟩, -⟩⟩
  · exact hrenamed
  · exact hrenamed
  · obtain rfl := Option.some.inj (hpair.symm.trans hshown)
    have hsome := TagPair.renaming?_eq_some_iff.2 hrenames
    rw [show pair.renaming? d.takeChanges.2 = none from hnone] at hsome
    cases hsome

/-- The matcher reacts to changes without an error and keeps in step. It has seen all changes then,
or it has renamed a tag, and will not do so a second time. -/
lemma InStep.reaction (h : InStep base settings m d) :
    ∃ renamed m' d', Session.reaction m d = .ok (renamed, m', d') ∧ InStep base settings m' d' ∧
      (renamed = false ∧ d'.buffer.pending = [] ∧ d'.text = d.text ∨
        renamed = true ∧ d'.buffer.pending ≠ [] ∧ m' = m ∧
          ∃ pair, m.pair = some pair ∧ pair.renaming? d' = none ∧
            (settings.GuardsBrackets → pair.Agrees d')) := by
  have hsound := h.sound.takeChanges
  have howns : Owns base m d.takeChanges.2 := h.owns.of_numbers rfl
  unfold Session.reaction
  rcases m.afterChanges_eq d.takeChanges.2 d.takeChanges.1 with
    hrefresh | ⟨pair, hpair, hholds, hplain, hrest⟩
  · -- the pair is searched for anew
    obtain ⟨markers, hmarkers⟩ := m.exists_refresh_eq d.takeChanges.2
    refine ⟨false, (m.refresh d.takeChanges.2).1, (m.refresh d.takeChanges.2).2, hrefresh,
      (shows_refresh howns h.settings_eq hsound).inStep, .inl ?_⟩
    rw [hmarkers]
    exact ⟨rfl, rfl, rfl⟩
  · rw [h.settings_eq] at hplain
    have htaken := h.toFollows.takeChanges hplain
    have hne : m.pair ≠ none := by
      rw [hpair]
      exact Option.some_ne_none _
    rcases hrest with ⟨hsame, -⟩ | ⟨other, name, r, hrenames, hr, hrename⟩
    · -- the pair is kept, and there is nothing to rename
      refine ⟨false, m, _, hsame, Shows.inStep ⟨htaken, fun shown hshown => ?_⟩,
        .inl ⟨rfl, rfl, rfl⟩⟩
      obtain rfl := Option.some.inj (hpair.symm.trans hshown)
      rw [holds, Bool.and_eq_true] at hholds
      refine ⟨h.isSingle hne, hholds.2, ?_⟩
      rw [hholds.1, TagPair.misread_of_isValid hsound.onlyLineFeeds hholds.1]
      · rfl
      · intro close hclosing
        obtain ⟨x, y, hlies, -⟩ := htaken.layout pair close hpair hclosing
        exact ⟨x, y, hlies⟩
    · -- the other tag is renamed, which is a change that is still to be seen
      obtain ⟨close, hclosing⟩ := Option.ne_none_iff_exists'.1 hrenames.closing_ne
      obtain ⟨x, y, hlies, hclean⟩ := htaken.layout pair close hpair hclosing
      obtain ⟨a, b, hab, hb, hrange, honly, hnames⟩ := hlies.renamed hsound.toPlaced hrenames
      obtain rfl := Option.some.inj (hr.symm.trans hrange)
      have hreplace := Document.replace_rangeOf hsound.onlyLineFeeds hab hb name .merge
      have hedited := Document.edited_replace honly hreplace
      rw [hreplace] at hrename
      refine ⟨true, m, _, hrename, ⟨htaken.edited hedited, ?_, ?_⟩,
        .inr ⟨rfl, ?_, rfl, pair, hpair, ?_⟩⟩
      · exact fun _ => (hedited.sound hsound).2.isSingle hrenames.isSingle
      · intro hnone
        cases hnone
      · exact List.cons_ne_nil _ _
      · rcases hnames with hagrees | ⟨hinvalid, hdirty⟩
        · exact ⟨TagPair.renaming?_of_agrees hagrees, fun _ => hagrees⟩
        · refine ⟨TagPair.renaming?_of_isValid_eq_false hclosing hinvalid, fun hguards => ?_⟩
          refine absurd ((hclean hguards).resolve_right ?_) hdirty
          exact Bool.false_ne_true

end Matcher

end TemplateEditing
