import TemplateEditing.Proofs.Session.InStep

/-!
# Edits settle

After an edit the matcher reacts to the changes, round by round, until there are none. It never
takes more than two rounds: only a rename makes changes for another one, and there is at most one
rename (`settled_of_inStep`). So a run of operations, whatever they are, leaves the matcher in step
with the document (`run_shows`). Where inserting a bracket drops the pair, a rename makes the names
of its tags equal (`run_settles`).
-/

namespace TemplateEditing

variable {s : Session}

namespace Session

/-! ## Rounds -/

/-- One reaction of the matcher. -/
structure Round where
  before : Session
  /-- Whether a tag was renamed. -/
  renamed : Bool
  after : Session

/-- The matcher reacts to changes until there are none. -/
inductive Settles : Session → List Round → Session → Prop where
  | done {s : Session} (h : s.document.buffer.pending = []) : Settles s [] s
  | react {s last : Session} {renamed : Bool} {m : Matcher} {d : Document} {rounds : List Round}
      (h : s.document.buffer.pending ≠ [])
      (hreaction : reaction s.matcher s.document = .ok (renamed, m, d))
      (hrest : Settles (s.reacted renamed m d) rounds last) :
      Settles s (⟨s, renamed, s.reacted renamed m d⟩ :: rounds) last

/-- However many rounds are allowed, they lead there if they are enough. -/
lemma Settles.settleWithin_eq {s last : Session} {rounds : List Round} (h : Settles s rounds last)
    {n : Nat} (hn : rounds.length ≤ n) : s.settleWithin n = { session := last } := by
  induction h generalizing n with
  | done hnone => exact settleWithin_of_nil hnone n
  | react hsome hreaction _ ih =>
    rw [List.length_cons] at hn
    obtain ⟨n, rfl⟩ := Nat.exists_eq_add_of_le' (Nat.le_of_add_left_le hn)
    rw [settleWithin_of_ok hsome hreaction]
    exact ih (by omega)

/-- A settled session has no change pending. -/
lemma Settles.pending_eq {s last : Session} {rounds : List Round} (h : Settles s rounds last) :
    last.document.buffer.pending = [] := by
  induction h with
  | done hnone => exact hnone
  | react _ _ _ ih => exact ih

/-- The rounds in which a tag was renamed. -/
def renames (rounds : List Round) : List Round := rounds.filter (·.renamed)

/-- Settling asks for completions once for each rename. -/
lemma Settles.tasks_eq {s last : Session} {rounds : List Round} (h : Settles s rounds last) :
    last.tasks.tasks = s.tasks.tasks ++ (renames rounds).map fun _ => .requestCompletion false := by
  induction h with
  | done => exact (List.append_nil _).symm
  | react _ _ _ ih =>
    rename_i s last renamed m d rounds _ _ _
    rw [ih]
    cases renamed with
    | false => rfl
    | true => exact List.append_assoc _ _ _

/-- How the reactions to an edit come to an end. -/
structure Settled (base : List MarkerId) (settings : TagMatchingSettings) (s : Session)
    (rounds : List Round) (last : Session) : Prop where
  settles : Settles s rounds last
  length_le : rounds.length ≤ 2
  renames_le : (renames rounds).length ≤ 1
  text_eq : ∀ r ∈ rounds, r.renamed = false → r.after.document.text = r.before.document.text
  agrees : settings.GuardsBrackets → ∀ r ∈ rounds, r.renamed = true →
    ∃ pair, r.after.matcher.pair = some pair ∧ pair.Agrees r.after.document
  shows : Matcher.Shows base settings last.matcher last.document

variable {base : List MarkerId} {settings : TagMatchingSettings}

/-- There are no changes, or one round sees all of them, or it renames a tag and a second one sees
what that has changed. -/
lemma settled_of_inStep (h : Matcher.InStep base settings s.matcher s.document) :
    ∃ rounds last, Settled base settings s rounds last := by
  have hnothing : ∀ {s : Session}, Matcher.InStep base settings s.matcher s.document →
      s.document.buffer.pending = [] → Settled base settings s [] s := by
    intro s h hnone
    exact ⟨.done hnone, Nat.zero_le _, Nat.zero_le _, fun r hr => absurd hr List.not_mem_nil,
      fun _ r hr => absurd hr List.not_mem_nil, h.toFollows, h.shown hnone⟩
  by_cases hnone : s.document.buffer.pending = []
  · exact ⟨[], s, hnothing h hnone⟩
  · obtain ⟨renamed, m, d, hreaction, hinStep, ⟨rfl, hnone', htext⟩ |
      ⟨rfl, hsome', rfl, pair, hpair, hrenaming, hagrees⟩⟩ := h.reaction
    · -- one round has seen all changes
      have hlast := hnothing (s := s.reacted false m d) hinStep hnone'
      refine ⟨_, _, .react hnone hreaction hlast.settles, Nat.le_succ 1, Nat.zero_le 1, ?_, ?_,
        hlast.shows⟩
      · exact List.forall_mem_singleton.2 fun _ => htext
      · intro _ r hr hrenamed
        rw [List.mem_singleton.1 hr] at hrenamed
        cases hrenamed
    · obtain ⟨renamed', m', d', hreaction', hinStep', hcases⟩ :=
        Matcher.InStep.reaction (m := s.matcher) (d := d) hinStep
      -- the second round finds the names equal, so that it renames nothing
      have hfalse := Matcher.renamed_eq_false hpair hrenaming hreaction'
      rcases hcases with ⟨-, hnone'', htext'⟩ | ⟨htrue, -⟩
      · subst hfalse
        have hlast :=
          hnothing (s := (s.reacted true s.matcher d).reacted false m' d') hinStep' hnone''
        refine ⟨_, _, .react hnone hreaction
          (.react (s := s.reacted true s.matcher d) hsome' hreaction' hlast.settles),
          Nat.le_refl 2, Nat.le_refl 1, ?_, ?_, hlast.shows⟩
        · refine List.forall_mem_cons.2 ⟨fun hcontra => ?_, ?_⟩
          · cases hcontra
          · exact List.forall_mem_singleton.2 fun _ => htext'
        · intro hguards
          refine List.forall_mem_cons.2 ⟨fun _ => ⟨pair, hpair, hagrees hguards⟩, ?_⟩
          refine List.forall_mem_singleton.2 fun hcontra => ?_
          cases hcontra
      · rw [hfalse] at htrue
        cases htrue

/-! ## Runs -/

/-- An edit leaves the matcher in step with the document. -/
lemma inStep_of_edited? {s edited : Session} (h : Matcher.Shows base settings s.matcher s.document)
    {op : Operation} (hop : op.inserted.OnlyLineFeeds) (hedited : s.edited? op = some edited) :
    Matcher.InStep base settings edited.matcher edited.document := by
  obtain ⟨edit, d, hedit, hd, rfl⟩ := exists_of_edited? hedited
  have hprepared : Matcher.Shows base settings (s.prepared op).matcher (s.prepared op).document := by
    cases op
    case type typed => exact h.beforeTyping typed
    all_goals exact h
  exact hprepared.edited (op.edited_of_edit? hedit hop hd)

/-- Two rounds are enough for every edit. -/
lemma shows_perform (hpatience : 2 ≤ s.patience)
    (h : Matcher.Shows base settings s.matcher s.document)
    {op : Operation} (hop : op.inserted.OnlyLineFeeds) :
    Matcher.Shows base settings (s.perform op).session.matcher (s.perform op).session.document := by
  show Matcher.Shows base settings (s.perform op).session.core.1 (s.perform op).session.core.2
  rcases s.core_perform op with hcore | hcore | ⟨edited, hedited, hcore⟩ <;> rw [hcore]
  · exact h.turn op
  · cases op
    case type typed => exact h.beforeTyping typed
    all_goals exact h
  · obtain ⟨rounds, last, hsettled⟩ := settled_of_inStep (inStep_of_edited? h hop hedited)
    have hlength := hsettled.length_le
    have hsame : edited.patience = s.patience := patience_of_edited? hedited
    rw [settle, hsettled.settles.settleWithin_eq (by omega)]
    exact hsettled.shows

/-- A session shows the pair at the caret from its start. -/
lemma shows_start {d : Document} (hd : d.Sound) (hnumbered : d.buffer.markers.Numbered)
    (settings : Settings) (patience : Nat) :
    Matcher.Shows d.buffer.markers.ids settings.tagMatching
      (Session.start d settings patience).matcher
      (Session.start d settings patience).document := by
  have howns : Matcher.Owns d.buffer.markers.ids { settings := settings.tagMatching } d :=
    ⟨⟨(List.append_nil _).symm, hnumbered⟩, fun _ ht => absurd ht List.not_mem_nil⟩
  exact Matcher.shows_refresh howns rfl hd

/-- Whatever is done in a session, the matcher is in step with the document after it. -/
lemma run_shows {d : Document} (hd : d.Sound) (hnumbered : d.buffer.markers.Numbered)
    (settings : Settings) (patience : Nat) (hpatience : 2 ≤ patience) {ops : List Operation}
    (hops : ∀ op ∈ ops, op.inserted.OnlyLineFeeds) :
    Matcher.Shows d.buffer.markers.ids settings.tagMatching
      ((Session.start d settings patience).run ops).matcher
      ((Session.start d settings patience).run ops).document := by
  have hrun : ∀ (ops : List Operation) (s : Session), (∀ op ∈ ops, op.inserted.OnlyLineFeeds) →
      2 ≤ s.patience →
      Matcher.Shows d.buffer.markers.ids settings.tagMatching s.matcher s.document →
      Matcher.Shows d.buffer.markers.ids settings.tagMatching (s.run ops).matcher
        (s.run ops).document := by
    intro ops
    induction ops with
    | nil => exact fun s _ _ h => h
    | cons op ops ih =>
      intro s hops hpatience h
      refine ih _ (fun op' hop' => hops op' (List.mem_cons_of_mem op hop')) ?_
        (shows_perform hpatience h (hops op List.mem_cons_self))
      rw [patience_perform]
      exact hpatience
  exact hrun ops _ hops hpatience (shows_start hd hnumbered settings patience)

/-- While a pair is shown, tag matching is on, there is one cursor, and it is in the active tag. The
pair is valid unless its close tag was misread. -/
theorem run_highlight (d : Document) (hd : d.Sound) (hnumbered : d.buffer.markers.Numbered)
    (settings : Settings) (ops : List Operation) (hops : ∀ op ∈ ops, op.inserted.OnlyLineFeeds)
    (pair : TagPair) (hpair : ((Session.start d settings).run ops).matcher.pair = some pair) :
    let s := (Session.start d settings).run ops
    settings.tagMatching.enabled = true ∧ s.document.cursors.isSingle = true ∧
      pair.activeTag.touches s.document s.document.caret = true ∧
      (pair.isValid s.document = true ↔ pair.misread s.document = false) := by
  intro s
  have hshows := run_shows hd hnumbered settings 1000 (by decide) hops
  have hshown := hshows.shown pair hpair
  refine ⟨hshows.enabled ?_, hshown.isSingle, hshown.touches, ?_⟩
  · rw [hpair]
    exact Option.some_ne_none _
  · rw [hshown.isValid_eq, Bool.not_eq_true']

/-- A document with an empty element. -/
def sampleElement : Document := .ofText .marko "<a></a>".toList

lemma sound_sampleElement : sampleElement.Sound :=
  Document.sound_ofText .marko (by decide)

lemma numbered_sampleElement : sampleElement.buffer.markers.Numbered := ⟨by decide, by decide⟩

theorem run_highlight_sampleElement :
    let s := (Session.start sampleElement {}).run [.moveCursor ⟨0, 2⟩, .type "b".toList]
    ∃ pair, s.matcher.pair = some pair ∧ pair.isValid s.document = true ∧
      pair.activeTag.touches s.document s.document.caret = true := by
  intro s
  have hshown : s.matcher.pair.map (·.misread s.document) = some false := by decide +kernel
  obtain ⟨pair, hpair, hread⟩ := Option.map_eq_some_iff.1 hshown
  obtain ⟨-, -, htouches, hvalid⟩ := run_highlight sampleElement sound_sampleElement
    numbered_sampleElement {} [.moveCursor ⟨0, 2⟩, .type "b".toList]
    (by decide) pair hpair
  exact ⟨pair, hpair, hvalid.2 hread, htouches⟩

/-- The name of `<_>` has no word, so the next one is taken for it, and that is the name of a close
tag. -/
theorem start_sampleWordless :
    let s := Session.start ((Document.ofText .marko "<b><_></b>".toList).setCursor ⟨0, 4⟩) {}
    s.matcher.pair.map (fun pair => (pair.isValid s.document, pair.misread s.document)) =
      some (false, true) := by
  decide +kernel

/-! ## Tasks -/

/-- Tasks put off are run before an operation ends. -/
lemma tasks_perform (h : s.tasks = {}) (op : Operation) :
    (s.perform op).session.tasks = {} := by
  cases hedit : op.edit? with
  | none =>
    obtain ⟨tasks, events, htasks, heq⟩ := exists_perform_eq_of_edit?_eq_none hedit s
    rw [heq]
    exact htasks h
  | some edit =>
    rw [perform_of_edit? hedit]
    obtain ⟨events, heq⟩ := s.exists_transaction_eq fun s =>
      (s.prepared op).andSettle (edit (s.prepared op).document)
    rw [heq]

/-- No task is left after a run. -/
lemma tasks_run (h : s.tasks = {}) (ops : List Operation) :
    (s.run ops).tasks = {} := by
  induction ops generalizing s with
  | nil => exact h
  | cons op ops ih => exact ih (tasks_perform h op)

/-! ## Every edit settles -/

/-- Where inserting a bracket drops the pair, the reactions to an edit end after two rounds at most.
At most one of them renames a tag, and the names of the pair are equal right after it; the other ones
leave the text as it is. -/
theorem run_settles (d : Document) (hd : d.Sound) (hnumbered : d.buffer.markers.Numbered)
    (settings : Settings) (hguards : settings.tagMatching.GuardsBrackets) (ops : List Operation)
    (hops : ∀ op ∈ ops, op.inserted.OnlyLineFeeds) (op : Operation)
    (hop : op.inserted.OnlyLineFeeds) (edited : Session)
    (hedited : ((Session.start d settings).run ops).edited? op = some edited) :
    let s := (Session.start d settings).run ops
    ∃ rounds last, Settles edited rounds last ∧
      s.perform op = s.transaction (fun _ => { session := last }) ∧
      rounds.length ≤ 2 ∧ (renames rounds).length ≤ 1 ∧
      last.tasks.tasks = (renames rounds).map (fun _ => .requestCompletion false) ∧
      (∀ r ∈ rounds, r.renamed = false → r.after.document.text = r.before.document.text) ∧
      ∀ r ∈ rounds, r.renamed = true →
        ∃ pair, r.after.matcher.pair = some pair ∧ pair.Agrees r.after.document := by
  intro s
  obtain ⟨rounds, last, hsettled⟩ :=
    settled_of_inStep
      (inStep_of_edited? (run_shows hd hnumbered settings 1000 (by decide) hops) hop hedited)
  have hlength := hsettled.length_le
  have htasks : edited.tasks = {} := by
    obtain ⟨edit, d', -, -, rfl⟩ := exists_of_edited? hedited
    exact tasks_run (s := Session.start d settings) rfl ops
  refine ⟨rounds, last, hsettled.settles, ?_, hlength, hsettled.renames_le, ?_, hsettled.text_eq,
    hsettled.agrees hguards⟩
  · have hpatience : edited.patience = 1000 :=
      (patience_of_edited? hedited).trans (patience_run _ ops)
    rw [perform_of_edited? hedited, settle, hsettled.settles.settleWithin_eq (by omega)]
  · rw [hsettled.settles.tasks_eq, htasks]
    rfl

theorem run_settles_sampleElement :
    let s := (Session.start sampleElement {}).run [.moveCursor ⟨0, 2⟩]
    ∃ edited rounds last, s.edited? (.type "b".toList) = some edited ∧ Settles edited rounds last ∧
      rounds.length ≤ 2 ∧ last.document.text = "<ab></ab>".toList := by
  intro s
  obtain ⟨hsome, htext⟩ : (s.edited? (.type "b".toList)).isSome = true ∧
      (s.perform (.type "b".toList)).session.core.2.text = "<ab></ab>".toList := by decide +kernel
  obtain ⟨edited, hedited⟩ := Option.isSome_iff_exists.1 hsome
  obtain ⟨rounds, last, hsettles, hperform, hlength, -⟩ := run_settles sampleElement
    sound_sampleElement numbered_sampleElement {} (by decide) [.moveCursor ⟨0, 2⟩]
    (by decide) (.type "b".toList) (by decide) edited hedited
  rw [show s.perform _ = _ from hperform, core_transaction] at htext
  exact ⟨edited, rounds, last, hedited, hsettles, hlength, htext⟩

end Session

end TemplateEditing
