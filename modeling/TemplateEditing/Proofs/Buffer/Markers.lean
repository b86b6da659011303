import TemplateEditing.Proofs.Buffer.Undo
import TemplateEditing.Proofs.Change.Offsets

/-!
# Markers along a run

Where the line feed is the only row terminator, every edit of a buffer, undone and redone ones
included, moves markers and carets as plain arithmetic on offsets says, and the change it makes
known tells the old and the new text by their ranges (`Tracks`). Markers therefore never leave the
text or turn around, whatever is done (`run_tracks`).
-/

namespace TemplateEditing

open List

variable {t : Text}

/-! ## Marked texts -/

namespace Text

/-- The ends of a range are places of the text, in this order. -/
def HasRange (t : Text) (r : Range) : Prop := ∃ a b, a ≤ b ∧ b ≤ t.length ∧ r = t.rangeOf a b

/-- A range of the text goes forward. -/
lemma HasRange.start_le_stop {r : Range} (ht : t.OnlyLineFeeds) (h : t.HasRange r) :
    r.start ≤ r.stop := by
  obtain ⟨a, b, hab, hb, rfl⟩ := h
  exact (positionOf_le_iff ht (Nat.le_trans hab hb) hb).2 hab

/-- Two clipped ends are a range of the text. -/
lemma hasRange_ofEnds_clip (ht : t.OnlyLineFeeds) (p q : Position) :
    t.HasRange (.ofEnds (t.clip p) (t.clip q)) := by
  have hp := t.offsetOf_le_length p
  have hq := t.offsetOf_le_length q
  -- clipped positions are those of offsets, and these are put in order
  rw [← positionOf_offsetOf ht, ← positionOf_offsetOf ht, Range.ofEnds]
  split
  · rename_i hle
    exact ⟨_, _, (positionOf_le_iff ht hp hq).1 hle, hq, rfl⟩
  · rename_i hle
    rw [positionOf_le_iff ht hp hq] at hle
    exact ⟨_, _, Nat.le_of_not_le hle, hp, rfl⟩

end Text

namespace MarkerSet

lemma mem_of_get? {ms : MarkerSet} {id : MarkerId} {m : Marker} (h : ms.get? id = some m) :
    (id, m) ∈ ms.entries := by
  obtain ⟨front, back, hentries, -⟩ := lookup_eq_some_iff.1 h
  rw [hentries]
  exact mem_append_right front mem_cons_self

/-- A marker is found after a change, with its range moved. -/
lemma get?_follow {ms : MarkerSet} {id : MarkerId} {m : Marker} (h : ms.get? id = some m)
    (c : Change) : (ms.follow c).get? id = some (m.follow c) := by
  -- numbers stay, so the first entry with this number is still the first one
  obtain ⟨front, back, hentries, hfront⟩ := lookup_eq_some_iff.1 h
  refine lookup_eq_some_iff.2 ⟨front.map fun e => (e.1, e.2.follow c),
    back.map fun e => (e.1, e.2.follow c), ?_, ?_⟩
  · rw [follow, hentries, map_append, map_cons]
  · intro entry hentry
    obtain ⟨old, hold, rfl⟩ := mem_map.1 hentry
    exact hfront old hold

end MarkerSet

/-- What edits change: a text with its markers. -/
structure MarkedText where
  text : Text
  markers : MarkerSet

namespace MarkedText

/-- The text with the characters from `i` up to `j` replaced, and the markers after that. -/
def replace (p : MarkedText) (i j : Nat) (inserted : Text) : MarkedText :=
  ⟨p.text.splice i j inserted, p.markers.follow (.ofOffsets p.text i j inserted)⟩

/-- All rows end in line feeds, and all markers are places of the text. -/
structure Tidy (p : MarkedText) : Prop where
  onlyLineFeeds : p.text.OnlyLineFeeds
  hasRange : ∀ entry ∈ p.markers.entries, p.text.HasRange entry.2.range

/-- Replacing the characters from `i` up to `j` makes a change known whose ranges tell the old and
the new text, and markers and carets go where their offsets go. -/
structure Tracks (p : MarkedText) (i j : Nat) (inserted : Text) (c : Change) (p' : MarkedText) :
    Prop where
  start_le_stop : i ≤ j
  stop_le_length : j ≤ p.text.length
  text_eq : p'.text = p.text.splice i j inserted
  oldText_eq : c.oldText = p.text.slice i j
  newText_eq : c.newText = inserted
  inRange_old : p.text.inRange c.old = c.oldText
  inRange_new : p'.text.inRange c.new = c.newText
  marker : ∀ id m, p.markers.get? id = some m → ∃ a b, a ≤ b ∧ b ≤ p.text.length ∧
    m.range = p.text.rangeOf a b ∧ ∃ m', p'.markers.get? id = some m' ∧
      m'.range = p'.text.rangeOf (Offset.moveStart i j inserted.length a)
        (Offset.moveCaret i j inserted.length b)
  caret : ∀ o ≤ p.text.length, c.moveCaret (p.text.positionOf o) =
    p'.text.positionOf (Offset.moveCaret i j inserted.length o)

/-- Edits made one after the other, with the changes they make known. -/
inductive TracksAll : MarkedText → List Edit → List Change → MarkedText → Prop where
  | nil (p : MarkedText) : TracksAll p [] [] p
  | cons {p p' p'' : MarkedText} {e : Edit} {edits : List Edit} {c : Change}
      {changes : List Change} (h : Tracks p e.offset e.removedEnd e.inserted c p')
      (hlater : TracksAll p' edits changes p'') : TracksAll p (e :: edits) (c :: changes) p''

section

variable {p : MarkedText} (h : p.Tidy) {i j : Nat} (hij : i ≤ j) (hj : j ≤ p.text.length)
  {inserted : Text} (hinserted : inserted.OnlyLineFeeds)

include h hij hj hinserted

/-- An edit keeps a marked text tidy. -/
lemma Tidy.replace : (p.replace i j inserted).Tidy := by
  refine ⟨h.onlyLineFeeds.splice hinserted i j, ?_⟩
  intro entry hentry
  obtain ⟨old, hold, rfl⟩ := mem_map.1 hentry
  obtain ⟨a, b, hab, hb, hrange⟩ := h.hasRange old hold
  refine ⟨Offset.moveStart i j inserted.length a, Offset.moveCaret i j inserted.length b,
    Offset.moveStart_le_moveCaret hij hab _, ?_, ?_⟩
  · show _ ≤ (p.text.splice i j inserted).length
    rw [Text.length_splice hij hj]
    exact Offset.moveCaret_le hij hj hb _
  · show Change.moveRange _ old.2.range = _
    rw [hrange]
    exact Change.moveRange_rangeOf h.onlyLineFeeds hinserted hij hj hab hb

/-- In a tidy text, an edit tracks its change. -/
lemma Tidy.tracks :
    Tracks p i j inserted (.ofOffsets p.text i j inserted) (p.replace i j inserted) := by
  have ht := h.onlyLineFeeds
  have hi : i ≤ p.text.length := Nat.le_trans hij hj
  have hbehind : i + inserted.length ≤ (p.text.splice i j inserted).length := by
    rw [Text.length_splice hij hj]
    omega
  refine ⟨hij, hj, rfl, rfl, rfl, Text.inRange_positionOf ht hi hj, ?_, ?_, ?_⟩
  · show Text.inRange (p.text.splice i j inserted) ⟨p.text.positionOf i, _⟩ = inserted
    rw [← Text.positionOf_splice ht hinserted hi (Nat.le_refl i),
      Text.inRange_positionOf (ht.splice hinserted i j) (by omega) hbehind, Text.slice_splice hi]
  · intro id m hm
    obtain ⟨a, b, hab, hb, hrange⟩ := h.hasRange (id, m) (MarkerSet.mem_of_get? hm)
    refine ⟨a, b, hab, hb, hrange, _, MarkerSet.get?_follow hm _, ?_⟩
    show Change.moveRange _ m.range = _
    rw [show m.range = _ from hrange]
    exact Change.moveRange_rangeOf ht hinserted hij hj hab hb
  · intro o ho
    exact Change.moveCaret_positionOf ht hinserted hij hj ho

end

end MarkedText

/-! ## Histories of such texts -/

namespace Edit

/-- The line feed is the only row terminator in the removed and in the inserted text. -/
def OnlyLineFeeds (e : Edit) : Prop := e.removed.OnlyLineFeeds ∧ e.inserted.OnlyLineFeeds

lemma OnlyLineFeeds.reversed {e : Edit} (h : e.OnlyLineFeeds) : e.reversed.OnlyLineFeeds :=
  ⟨h.2, h.1⟩

/-- Two edits merged write line feeds only, as both did. -/
lemma OnlyLineFeeds.absorb? {e next both : Edit} (h : e.OnlyLineFeeds)
    (hnext : next.OnlyLineFeeds) (hboth : e.absorb? next = some both) : both.OnlyLineFeeds := by
  rcases absorb?_cases hboth with ⟨-, -, -, rfl⟩ | ⟨-, -, -, rfl⟩ | ⟨-, -, -, rfl⟩
  · exact ⟨h.1, h.2.append hnext.2⟩
  · exact ⟨hnext.1.append h.1, h.2⟩
  · exact ⟨h.1.append hnext.1, h.2⟩

end Edit

/-- No edit of the step has another row terminator than the line feed. -/
def Step.OnlyLineFeeds (step : Step) : Prop := ∀ e ∈ step.edits, e.OnlyLineFeeds

lemma History.onlyLineFeeds_recorded {h : History} {e : Edit}
    (hsteps : ∀ step ∈ h.undoSteps, step.OnlyLineFeeds) (he : e.OnlyLineFeeds) (mode : UndoMode)
    (now : Nat) : ∀ step ∈ h.recorded e mode now, step.OnlyLineFeeds := by
  rcases h.recorded_cases e mode now with hnew | ⟨last, earlier, step, hlast, henter, hedits⟩
  · -- a step of its own
    rw [hnew]
    refine forall_mem_cons.2 ⟨?_, hsteps⟩
    exact forall_mem_singleton.2 he
  · rw [hlast, forall_mem_cons] at hsteps
    obtain ⟨hlastEdits, hearlier⟩ := hsteps
    rw [henter]
    refine forall_mem_cons.2 ⟨?_, hearlier⟩
    rw [Step.OnlyLineFeeds] at hlastEdits ⊢
    rcases hedits with hedits | ⟨previous, rest, both, hprevious, habsorb, hedits⟩
    · -- behind the edits of the last step
      rw [hedits]
      exact forall_mem_cons.2 ⟨he, hlastEdits⟩
    · -- absorbed by the last of them
      rw [hprevious, forall_mem_cons] at hlastEdits
      rw [hedits]
      exact forall_mem_cons.2 ⟨hlastEdits.1.absorb? he habsorb, hlastEdits.2⟩

/-- The text an operation inserts has no other row terminator than the line feed. -/
def Operation.OnlyLineFeeds : Operation → Prop
  | .replace _ t _ => t.OnlyLineFeeds
  | .insert _ t => t.OnlyLineFeeds
  | _ => True

instance : DecidablePred Operation.OnlyLineFeeds
  | .replace _ t _ => inferInstanceAs (Decidable t.OnlyLineFeeds)
  | .insert _ t => inferInstanceAs (Decidable t.OnlyLineFeeds)
  | .delete _ | .undo | .redo | .mark _ | .unmark _ | .advance _ => .isTrue trivial

/-! ## Runs -/

namespace Buffer

/-- The text of a buffer with its markers. -/
def marked (b : Buffer) : MarkedText := ⟨b.text, b.markers⟩

/-- The line feed is the only row terminator in the text and the history, and all markers are
places of the text. -/
structure Tidy (b : Buffer) : Prop where
  marked : b.marked.Tidy
  undoSteps : ∀ step ∈ b.history.undoSteps, step.OnlyLineFeeds
  redoSteps : ∀ step ∈ b.history.redoSteps, step.OnlyLineFeeds

/-- Replayed edits are tracked one by one. -/
lemma tracksAll_replay {edits : List Edit} {t t' : Text} (h : Replays edits t t') :
    ∀ b : Buffer, b.text = t → b.marked.Tidy → (∀ e ∈ edits, e.OnlyLineFeeds) →
    (edits.foldl replay b).marked.Tidy ∧ ∃ changes,
      MarkedText.TracksAll b.marked edits changes (edits.foldl replay b).marked ∧
        (edits.foldl replay b).pending = b.pending ++ changes := by
  induction h with
  | nil t =>
    intro b _ htidy _
    exact ⟨htidy, [], .nil b.marked, (append_nil b.pending).symm⟩
  | @cons first later t between t' hfirst _ ih =>
    rintro b rfl htidy hedits
    -- the first edit is made inside the text, and the others in what it leads to
    have hstop : first.removedEnd ≤ b.marked.text.length := hfirst.removedEnd_le
    have hle : first.offset ≤ first.removedEnd := Nat.le_add_right _ _
    have hinserted := (hedits first mem_cons_self).2
    have hnext : (b.replay first).marked.Tidy := htidy.replace hle hstop hinserted
    obtain ⟨hlast, changes, htracks, hpending⟩ := ih (b.replay first) hfirst.splice_eq hnext
      (fun e he => hedits e (mem_cons_of_mem first he))
    refine ⟨hlast, _, .cons (htidy.tracks hle hstop hinserted) htracks, ?_⟩
    rw [foldl_cons, hpending]
    exact append_assoc b.pending
      [.ofOffsets b.text first.offset first.removedEnd first.inserted] changes

namespace Tidy

variable {b : Buffer} {base : Text} {n : Nat}

/-- An edit keeps a buffer tidy. -/
lemma edited (h : b.Tidy) (hchain : b.Chained base n) {i j : Nat} (hij : i ≤ j)
    (hj : j ≤ b.text.length) (ht : t.OnlyLineFeeds) (mode : UndoMode) :
    (b.edited i j t mode).Tidy := by
  have hmarked : (b.edited i j t mode).marked.Tidy := h.marked.replace hij hj ht
  by_cases hempty : (b.text.slice i j).isEmpty && t.isEmpty
  · have hhistory : (b.edited i j t mode).history = b.history := if_pos hempty
    refine ⟨hmarked, ?_, ?_⟩
    · rw [hhistory]
      exact h.undoSteps
    · rw [hhistory]
      exact h.redoSteps
  · have hhistory : (b.edited i j t mode).history =
        b.history.record ⟨i, b.text.slice i j, t⟩ mode b.clock := if_neg hempty
    refine ⟨hmarked, ?_, ?_⟩
    · rw [hhistory]
      intro step hstep
      exact History.onlyLineFeeds_recorded h.undoSteps ⟨h.marked.onlyLineFeeds.slice i j, ht⟩ mode
        b.clock step (History.mem_recorded _ _ _ hchain.undoSteps_le hstep)
    · rw [hhistory, History.redoSteps_record]
      exact fun _ hstep => absurd hstep not_mem_nil

/-- Undo of a tidy buffer gives a tidy one. -/
lemma exists_undo (h : b.Tidy) (hchain : b.Chained base n) {edits : List Edit} {history : History}
    (hnext : b.history.undo? = some (edits, history)) :
    ∃ b' changes, b.undo = .ok b' ∧ b'.Tidy ∧
      MarkedText.TracksAll b.marked (edits.reverse.map Edit.reversed) changes b'.marked ∧
        b'.pending = b.pending ++ changes := by
  have hleads := hchain.leads
  cases hsteps : b.history.undoSteps with
  | nil =>
    rw [History.undo?, hsteps] at hnext
    cases hnext
  | cons last earlier =>
    have hstep := undo?_of_cons hsteps
    rw [hnext, Option.some.injEq, Prod.mk.injEq] at hstep
    obtain ⟨rfl, hhistory⟩ := hstep
    have hundo := h.undoSteps
    rw [hsteps] at hleads hundo
    have hlastEdits := hundo last mem_cons_self
    cases hleads with
    | cons _ hlast =>
      -- the step leads to the present text, so its edits can be taken back one by one
      have hback := hlast.replays_reversed
      rw [← last.edits.reverse_reverse] at hback
      have hedits : ∀ e ∈ last.edits.reverse.reverse.map Edit.reversed, e.OnlyLineFeeds := by
        intro e he
        rw [reverse_reverse] at he
        obtain ⟨made, hmade, rfl⟩ := mem_map.1 he
        exact (hlastEdits made hmade).reversed
      obtain ⟨htidy, changes, htracks, hpending⟩ :=
        tracksAll_replay hback { b with history := history } rfl h.marked hedits
      refine ⟨_, changes, by rw [undo, hnext], ⟨htidy, ?_, ?_⟩, htracks, hpending⟩
      · rw [history_foldl_replay, hhistory]
        exact fun step hstep => hundo step (mem_cons_of_mem last hstep)
      · rw [history_foldl_replay, hhistory]
        intro step hstep
        rcases mem_cons.1 hstep with rfl | hstep
        · exact hlastEdits
        · exact h.redoSteps step hstep

/-- Redo of a tidy buffer gives a tidy one. -/
lemma exists_redo (h : b.Tidy) (hchain : b.Chained base n) {edits : List Edit} {history : History}
    (hnext : b.history.redo? = some (edits, history)) :
    ∃ b' changes, b.redo = .ok b' ∧ b'.Tidy ∧
      MarkedText.TracksAll b.marked edits changes b'.marked ∧
        b'.pending = b.pending ++ changes := by
  have hfollows := hchain.follows
  cases hsteps : b.history.redoSteps with
  | nil =>
    rw [History.redo?, hsteps] at hnext
    cases hnext
  | cons next later =>
    have hstep := redo?_of_cons hsteps
    rw [hnext, Option.some.injEq, Prod.mk.injEq] at hstep
    obtain ⟨rfl, hhistory⟩ := hstep
    have hredo := h.redoSteps
    rw [hsteps] at hfollows hredo
    have hnextEdits := hredo next mem_cons_self
    cases hfollows with
    | cons hlead _ =>
      have hedits : ∀ e ∈ next.edits.reverse, e.OnlyLineFeeds :=
        fun e he => hnextEdits e (mem_reverse.1 he)
      -- the step is played again from the text that it was recorded at
      obtain ⟨htidy, changes, htracks, hpending⟩ :=
        tracksAll_replay hlead.replays { b with history := history } rfl h.marked hedits
      refine ⟨_, changes, by rw [redo, hnext], ⟨htidy, ?_, ?_⟩, htracks, hpending⟩
      · rw [history_foldl_replay, hhistory]
        intro step hstep
        rcases mem_cons.1 hstep with rfl | hstep
        · exact hnextEdits
        · exact h.undoSteps step hstep
      · rw [history_foldl_replay, hhistory]
        exact fun step hstep => hredo step (mem_cons_of_mem next hstep)

lemma perform_replace (h : b.Tidy) (hchain : b.Chained base n) (r : Range) (ht : t.OnlyLineFeeds)
    (mode : UndoMode) : (b.perform (.replace r t mode)).Tidy := by
  rw [Buffer.perform_replace]
  split
  · exact h
  · rename_i hrange
    exact h.edited hchain (Nat.le_of_not_lt hrange) (b.text.offsetOf_le_length r.stop) ht mode

lemma mark (h : b.Tidy) (r : Range) : (b.mark r).2.Tidy := by
  refine ⟨⟨h.marked.onlyLineFeeds, ?_⟩, h.undoSteps, h.redoSteps⟩
  intro entry hentry
  rcases mem_append.1 hentry with hentry | hentry
  · exact h.marked.hasRange entry hentry
  · rw [mem_singleton.1 hentry]
    exact Text.hasRange_ofEnds_clip h.marked.onlyLineFeeds r.start r.stop

lemma unmark (h : b.Tidy) (id : MarkerId) : (b.unmark id).Tidy := by
  refine ⟨⟨h.marked.onlyLineFeeds, ?_⟩, h.undoSteps, h.redoSteps⟩
  intro entry hentry
  exact h.marked.hasRange entry (mem_filter.1 hentry).1

/-- Every operation keeps a buffer tidy. -/
lemma perform (h : b.Tidy) (hchain : b.Chained base n) {op : Operation} (hop : op.OnlyLineFeeds) :
    (b.perform op).Tidy := by
  cases op with
  | replace r t mode => exact h.perform_replace hchain r hop mode
  | insert p t => exact h.perform_replace hchain (.point p) hop .record
  | delete r => exact h.perform_replace hchain r .nil .record
  | undo =>
    cases hnext : b.history.undo? with
    | none =>
      rw [Buffer.perform, apply, undo, hnext]
      exact h
    | some next =>
      obtain ⟨b', changes, hundo, hb', -⟩ := h.exists_undo hchain hnext
      rw [Buffer.perform, apply, hundo]
      exact hb'
  | redo =>
    cases hnext : b.history.redo? with
    | none =>
      rw [Buffer.perform, apply, redo, hnext]
      exact h
    | some next =>
      obtain ⟨b', changes, hredo, hb', -⟩ := h.exists_redo hchain hnext
      rw [Buffer.perform, apply, hredo]
      exact hb'
  | mark r => exact h.mark r
  | unmark id => exact h.unmark id
  | advance milliseconds => exact ⟨h.marked, h.undoSteps, h.redoSteps⟩

/-- Every run of operations keeps a buffer tidy. -/
lemma run (h : b.Tidy) (hchain : b.Chained base n) {ops : List Operation}
    (hops : ∀ op ∈ ops, op.OnlyLineFeeds) : (b.run ops).Tidy := by
  induction ops generalizing b base with
  | nil => exact h
  | cons op ops ih =>
    obtain ⟨base', hchain', -⟩ := hchain.perform op
    exact ih (h.perform hchain (hops op mem_cons_self)) hchain'
      (fun op' hop' => hops op' (mem_cons_of_mem op hop'))

end Tidy

lemma tidy_fresh (ht : t.OnlyLineFeeds) (n : Nat) : (fresh t n).Tidy :=
  ⟨⟨ht, fun _ h => absurd h not_mem_nil⟩, fun _ h => absurd h not_mem_nil,
    fun _ h => absurd h not_mem_nil⟩

/-- After every run on texts whose only row terminator is the line feed, every edit, undone and
redone ones included, tells its texts by ranges and moves markers and carets by offsets; and every
marker lies in the text with its ends in order. -/
theorem run_tracks {t : Text} (ht : t.OnlyLineFeeds) (n : Nat) {ops : List Operation}
    (hops : ∀ op ∈ ops, op.OnlyLineFeeds) :
    let b := (fresh t n).run ops
    (∀ r inserted mode c b', inserted.OnlyLineFeeds → b.replace r inserted mode = .ok (c, b') →
      b.marked.Tracks (b.text.offsetOf r.start) (b.text.offsetOf r.stop) inserted c b'.marked) ∧
    (∀ edits history, b.history.undo? = some (edits, history) → ∃ b' changes,
      b.undo = .ok b' ∧ b'.pending = b.pending ++ changes ∧
        b.marked.TracksAll (edits.reverse.map Edit.reversed) changes b'.marked) ∧
    (∀ edits history, b.history.redo? = some (edits, history) → ∃ b' changes,
      b.redo = .ok b' ∧ b'.pending = b.pending ++ changes ∧
        b.marked.TracksAll edits changes b'.marked) ∧
    ∀ id m, b.markers.get? id = some m →
      m.range.start ≤ m.range.stop ∧ b.text.HasRange m.range := by
  intro b
  obtain ⟨base, hchain, -⟩ := (chained_fresh t n).run ops
  have htidy : b.Tidy := (tidy_fresh ht n).run (chained_fresh t n) hops
  refine ⟨?_, ?_, ?_, ?_⟩
  · intro r inserted mode c b' hinserted hreplace
    rw [replace_eq] at hreplace
    split at hreplace
    · cases hreplace
    · rename_i hrange
      cases hreplace
      exact htidy.marked.tracks (Nat.le_of_not_lt hrange) (b.text.offsetOf_le_length r.stop)
        hinserted
  · intro edits history hnext
    obtain ⟨b', changes, hundo, -, htracks, hpending⟩ := htidy.exists_undo hchain hnext
    exact ⟨b', changes, hundo, hpending, htracks⟩
  · intro edits history hnext
    obtain ⟨b', changes, hredo, -, htracks, hpending⟩ := htidy.exists_redo hchain hnext
    exact ⟨b', changes, hredo, hpending, htracks⟩
  · intro id m hm
    have hrange := htidy.marked.hasRange (id, m) (MarkerSet.mem_of_get? hm)
    exact ⟨hrange.start_le_stop htidy.marked.onlyLineFeeds, hrange⟩

/-- A range marked, text inserted at its start, the first row deleted and brought back. -/
def sampleMarks : List Operation :=
  [.mark ⟨⟨0, 1⟩, ⟨1, 1⟩⟩, .insert ⟨0, 1⟩ "x\ny".toList, .advance 500, .delete ⟨⟨0, 0⟩, ⟨1, 0⟩⟩,
    .undo]

theorem run_tracks_sampleMarks :
    let b := (fresh "ab\ncd".toList 2).run sampleMarks
    (∃ c b', b.replace ⟨⟨0, 1⟩, ⟨2, 1⟩⟩ "z".toList .record = .ok (c, b') ∧
      b.marked.Tracks 1 7 "z".toList c b'.marked) ∧
    (∃ edits b' changes, b.undo = .ok b' ∧ b.marked.TracksAll edits changes b'.marked) ∧
    (∃ edits b' changes, b.redo = .ok b' ∧ b.marked.TracksAll edits changes b'.marked) ∧
    b.markers.get? 0 = some { range := ⟨⟨0, 0⟩, ⟨2, 1⟩⟩ } ∧
      b.text.HasRange ⟨⟨0, 0⟩, ⟨2, 1⟩⟩ := by
  intro b
  have h := run_tracks (show Text.OnlyLineFeeds "ab\ncd".toList by decide) 2
    (show ∀ op ∈ sampleMarks, op.OnlyLineFeeds by decide)
  obtain ⟨hreplace, hundo, hredo, hmarkers⟩ := h
  have hmarker : b.markers.get? 0 = some { range := ⟨⟨0, 0⟩, ⟨2, 1⟩⟩ } := by decide
  refine ⟨⟨_, _, rfl, hreplace ⟨⟨0, 1⟩, ⟨2, 1⟩⟩ "z".toList .record _ _ (by decide) rfl⟩, ?_, ?_,
    hmarker, (hmarkers 0 _ hmarker).2⟩
  · obtain ⟨b', changes, hb', -, htracks⟩ := hundo _ _ rfl
    exact ⟨_, b', changes, hb', htracks⟩
  · obtain ⟨b', changes, hb', -, htracks⟩ := hredo _ _ rfl
    exact ⟨_, b', changes, hb', htracks⟩

end Buffer

end TemplateEditing
