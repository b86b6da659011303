import TemplateEditing.Proofs.Session.Settling
import TemplateEditing.Proofs.Tag.Names

/-!
# Operations that are refused

An operation is made as a whole or refused as a whole, whatever characters the text has. Ranges that
a session edits on its own (selections, the character before the caret, marked names) are never
turned around, and offsets have the order of the positions; so only a range given by hand can be
refused, and only if its ends are turned around. The matcher never refuses to react
(`settleWithin_error`). What is refused leaves the session as it was, and the scopes are those of
the text after every operation (`run_refusals`).
-/

namespace TemplateEditing

/-! ## Ranges that are not turned around -/

/-- A range moved by a change goes forward. -/
lemma Change.start_le_stop_moveRange (c : Change) (r : Range) :
    (c.moveRange r).start ≤ (c.moveRange r).stop := by
  show c.moveStart r.start ≤ (c.moveStop r.stop).later (c.moveStart r.start)
  unfold Position.later
  split
  · exact Position.le_refl _
  · rename_i hle
    exact (Position.le_total _ _).resolve_right hle

namespace MarkerSet

/-- No marker is turned around. -/
def Ordered (ms : MarkerSet) : Prop := ∀ e ∈ ms.entries, e.2.range.start ≤ e.2.range.stop

instance (ms : MarkerSet) : Decidable ms.Ordered :=
  inferInstanceAs (Decidable (∀ e ∈ ms.entries, e.2.range.start ≤ e.2.range.stop))

variable {ms : MarkerSet}

/-- Markers that follow a change go forward. -/
lemma ordered_follow (ms : MarkerSet) (c : Change) : (ms.follow c).Ordered := by
  intro e he
  obtain ⟨old, -, rfl⟩ := List.mem_map.1 he
  exact c.start_le_stop_moveRange old.2.range

namespace Ordered

lemma mark (h : ms.Ordered) {r : Range} (hr : r.start ≤ r.stop) : (ms.mark r).2.Ordered := by
  intro e he
  rcases List.mem_append.1 he with he | he
  · exact h e he
  · obtain rfl := List.mem_singleton.1 he
    exact hr

lemma erase (h : ms.Ordered) (id : MarkerId) : (ms.erase id).Ordered :=
  fun e he => h e (List.mem_filter.1 he).1

lemma decorate (h : ms.Ordered) (id : MarkerId) (style : String) :
    (ms.decorate id style).Ordered := by
  intro e he
  obtain ⟨old, hold, rfl⟩ := List.mem_map.1 he
  by_cases hid : old.1 = id
  · rw [if_pos hid]
    exact h old hold
  · rw [if_neg hid]
    exact h old hold

lemma get? (h : ms.Ordered) {id : MarkerId} {m : Marker} (hm : ms.get? id = some m) :
    m.range.start ≤ m.range.stop :=
  h (id, m) (mem_of_get? hm)

end Ordered

end MarkerSet

/-! ## Documents -/

namespace Buffer

/-- A replay keeps all markers going forward. -/
lemma ordered_foldl_replay (edits : List Edit) {b : Buffer} (h : b.markers.Ordered) :
    (edits.foldl replay b).markers.Ordered := by
  induction edits generalizing b with
  | nil => exact h
  | cons e edits ih => exact ih (MarkerSet.ordered_follow _ _)

/-- Undo keeps all markers going forward. -/
lemma ordered_undo {b b' : Buffer} (hb : b.markers.Ordered) (h : b.undo = .ok b') :
    b'.markers.Ordered := by
  rw [undo] at h
  split at h
  · cases h
  · cases h
    exact ordered_foldl_replay _ hb

lemma ordered_redo {b b' : Buffer} (hb : b.markers.Ordered) (h : b.redo = .ok b') :
    b'.markers.Ordered := by
  rw [redo] at h
  split at h
  · cases h
  · cases h
    exact ordered_foldl_replay _ hb

end Buffer

namespace Document

/-- The scopes are those of the text, and no marker is turned around. -/
structure InOrder (d : Document) : Prop where
  scopes_eq : d.scopes = d.grammar.tokenize d.text
  ordered : d.buffer.markers.Ordered

namespace InOrder

variable {d : Document}

lemma mark (h : d.InOrder) (r : Range) : (d.mark r).2.InOrder :=
  ⟨h.scopes_eq, h.ordered.mark (Range.start_le_stop_ofEnds _ _)⟩

lemma unmark (h : d.InOrder) (id : MarkerId) : (d.unmark id).InOrder :=
  ⟨h.scopes_eq, h.ordered.erase id⟩

lemma decorate (h : d.InOrder) (id : MarkerId) (style : String) : (d.decorate id style).InOrder :=
  ⟨h.scopes_eq, h.ordered.decorate id style⟩

/-- Edits compute the scopes last. -/
lemma edited (h : d.InOrder) {allowed : Text → Prop} {d' : Document} (hd' : Edited allowed d d') :
    d'.InOrder := by
  refine ⟨?_, ?_⟩
  · cases hd' with
    | nothing => exact h.scopes_eq
    | rescope => rfl
  · refine hd'.keeps (I := fun d => d.buffer.markers.Ordered) ?_ (fun hd => hd) h.ordered
    intro d₁ d₂ halters hd₁
    cases halters with
    | splice hij hj ht mode => exact MarkerSet.ordered_follow _ _
    | undo hundo =>
      rw [buffer_stepped]
      exact Buffer.ordered_undo hd₁ hundo
    | redo hredo =>
      rw [buffer_stepped]
      exact Buffer.ordered_redo hd₁ hredo
    | clearAll => exact hd₁
    | clearPrimary => exact hd₁

end InOrder

variable {d : Document}

/-- A splice succeeds on a range that goes forward. -/
lemma splice?_of_le {r : Range} (h : r.start ≤ r.stop) (t : Text) (mode : UndoMode) :
    d.splice? r t mode =
      .ok (d.spliced (d.text.offsetOf r.start) (d.text.offsetOf r.stop) t mode) := by
  rw [splice?_eq, if_neg (Nat.not_lt.2 (d.text.offsetOf_le_offsetOf h))]

/-- Splices succeed on ranges that go forward. -/
lemma exists_foldlM_splice? {targets : List Range} (h : ∀ r ∈ targets, r.start ≤ r.stop) (t : Text)
    (d : Document) :
    ∃ d', targets.foldlM (fun (d : Document) r => d.splice? r t .record) d = .ok d' := by
  induction targets generalizing d with
  | nil => exact ⟨d, rfl⟩
  | cons r targets ih =>
    have hr := h r List.mem_cons_self
    obtain ⟨d', hd'⟩ := ih (fun r' hr' => h r' (List.mem_cons_of_mem r hr'))
      (d.spliced (d.text.offsetOf r.start) (d.text.offsetOf r.stop) t .record)
    refine ⟨d', ?_⟩
    rw [List.foldlM_cons, splice?_of_le hr]
    exact hd'

/-- Typing is never refused, however many cursors there are. -/
lemma exists_type (d : Document) (t : Text) : ∃ d', d.type t = .ok d' := by
  have htargets : ∀ r ∈ d.typingTargets, r.start ≤ r.stop := by
    intro r hr
    obtain ⟨c, -, rfl⟩ := List.mem_map.1 (List.mem_mergeSort.1 hr)
    exact c.start_le_stop_editRange
  obtain ⟨d', hd'⟩ := exists_foldlM_splice? htargets t d
  exact ⟨_, by rw [type_eq, hd']; rfl⟩

/-- Backspace deletes a range that goes forward. -/
lemma start_le_stop_of_backspaceTarget? {r : Range} (h : d.backspaceTarget? = some r) :
    r.start ≤ r.stop := by
  unfold backspaceTarget? at h
  dsimp only at h
  split at h
  · next hselection =>
    cases h
    exact Cursor.start_le_stop_of_selection? hselection
  · obtain ⟨start, -, rfl⟩ := Option.map_eq_some_iff.1 h
    exact Range.start_le_stop_ofEnds _ _

/-- Backspace never fails. -/
lemma exists_backspace (d : Document) : ∃ d', d.backspace = .ok d' := by
  rw [backspace_eq]
  cases htarget : d.backspaceTarget? with
  | none => exact ⟨d, rfl⟩
  | some r =>
    rw [Option.map_some, Option.getD_some,
      splice?_of_le (start_le_stop_of_backspaceTarget? htarget)]
    exact ⟨_, rfl⟩

end Document

/-! ## Tags that are shown -/

namespace Matcher

variable {m : Matcher} {d : Document}

lemma inOrder_drop (h : d.InOrder) : (m.drop d).2.InOrder := by
  unfold drop
  split
  · exact h
  · show (List.foldl (fun d (t : LiveTag) => t.release d) d _).InOrder
    rw [foldl_release]
    exact List.foldlRecOn _ _ h fun d hd id _ => hd.unmark id

lemma inOrder_acquire (h : d.InOrder) (s : TagSpan) : (LiveTag.acquire d s).2.InOrder := by
  unfold LiveTag.acquire
  dsimp only
  split
  · exact h.mark _
  · exact (h.mark _).mark _

lemma inOrder_follow (h : d.InOrder) (opening : TagSpan) (closing : Option TagSpan)
    (active : Side) : (m.follow d opening closing active).2.InOrder := by
  have hhighlight : ∀ (tags : List LiveTag) {d : Document}, d.InOrder → ∀ style,
      (tags.foldl (fun d t => t.highlight d style) d).InOrder := fun tags d hd style =>
    List.foldlRecOn _ _ hd fun d hd t _ => hd.decorate t.marker style
  cases closing with
  | none => exact hhighlight _ (inOrder_acquire h opening) _
  | some s => exact hhighlight _ (inOrder_acquire (inOrder_acquire h opening) s) _

/-- A refresh keeps all markers going forward. -/
lemma inOrder_refresh (h : d.InOrder) : (m.refresh d).2.InOrder := by
  rcases m.refresh_cases d with heq | ⟨opening, closing, active, -, -, -, heq⟩
  · rw [heq]
    exact inOrder_drop h
  · rw [heq]
    exact inOrder_follow (inOrder_drop h) opening closing active

lemma inOrder_beforeTyping (h : d.InOrder) (typed : Text) : (m.beforeTyping d typed).2.InOrder := by
  unfold beforeTyping
  split
  · exact h
  · split
    · exact h
    · exact inOrder_drop h

lemma inOrder_afterMove (h : d.InOrder) : (m.afterMove d).2.InOrder := by
  rcases m.afterMove_cases d with heq | heq | ⟨-, pair, side, -, -, heq⟩
  · rw [heq]
    exact inOrder_drop h
  · rw [heq]
    exact inOrder_refresh h
  · rw [heq]
    exact h

/-- A marked name is not turned around, so it can be replaced. -/
lemma exists_afterChanges (h : d.InOrder) (changes : List Change) :
    ∃ result, m.afterChanges d changes = .ok result := by
  rcases m.afterChanges_eq d changes with
    heq | ⟨pair, -, -, -, ⟨heq, -⟩ | ⟨other, name, r, -, hr, heq⟩⟩
  · exact ⟨_, heq⟩
  · exact ⟨_, heq⟩
  · obtain ⟨id, -, hrange⟩ := Option.bind_eq_some_iff.1 hr
    obtain ⟨marker, hmarker, rfl⟩ := Option.map_eq_some_iff.1 hrange
    rw [heq, Document.replace_eq, Document.splice?_of_le (h.ordered.get? hmarker)]
    exact ⟨_, rfl⟩

end Matcher

namespace Session

/-- With markers in order, the reaction never fails. -/
lemma exists_reaction {m : Matcher} {d : Document} (h : d.InOrder) :
    ∃ result, reaction m d = .ok result := by
  have htaken : d.takeChanges.2.InOrder := ⟨h.scopes_eq, h.ordered⟩
  exact Matcher.exists_afterChanges htaken _

/-- Whatever is done, the scopes are those of the text and no marker is turned around. -/
lemma kept_inOrder : Kept (fun _ => True) fun _ d => d.InOrder where
  prepare h typed := Matcher.inOrder_beforeTyping h typed
  edit := by
    intro m d d' op edit h hedit hop hd'
    have hedited : Document.Edited (fun _ => True) d d' := op.edited_of_edit? hedit hop hd'
    exact h.edited hedited
  react := by
    intro m d renamed m' d' h hreaction
    have htaken : d.takeChanges.2.InOrder := ⟨h.scopes_eq, h.ordered⟩
    rcases reaction_cases hreaction with
      ⟨-, -, rfl⟩ | ⟨pair, -, -, ⟨-, rfl, -, -⟩ | ⟨-, hedited, -⟩⟩
    · exact Matcher.inOrder_refresh htaken
    · exact htaken
    · exact htaken.edited hedited
  refuse h _ := ⟨h.scopes_eq, h.ordered⟩
  turn := by
    intro m d h op
    cases op
    case moveCursor p => exact Matcher.inOrder_afterMove ⟨h.scopes_eq, h.ordered⟩
    case select r => exact Matcher.inOrder_afterMove ⟨h.scopes_eq, h.ordered⟩
    case addCursor p =>
      show (((d.addCursor? p).map m.afterMove).getD (m, d)).2.InOrder
      cases hadd : d.addCursor? p with
      | none => exact h
      | some d' =>
        obtain ⟨cursors, -, rfl⟩ := Option.map_eq_some_iff.1 hadd
        exact Matcher.inOrder_afterMove ⟨h.scopes_eq, h.ordered⟩
    case setGrammar g => exact Matcher.inOrder_refresh ⟨rfl, h.ordered⟩
    case save tree =>
      obtain ⟨name, path, modified, hsaved⟩ := d.exists_save_eq tree
      show ((d.save tree).2.toOption.getD d).InOrder
      rw [hsaved]
      exact ⟨h.scopes_eq, h.ordered⟩
    case saveAs p tree =>
      obtain ⟨name, path, modified, hsaved⟩ := d.exists_saveAs_eq p tree
      show ((d.saveAs p tree).2.toOption.getD d).InOrder
      rw [hsaved]
      exact ⟨h.scopes_eq, h.ordered⟩
    case wait milliseconds => exact ⟨h.scopes_eq, h.ordered⟩
    all_goals exact h

/-! ## What is refused -/

/-- The matcher never refuses to react, however many rounds it takes. -/
lemma settleWithin_error (rounds : Nat) : ∀ s : Session, s.document.InOrder →
    (s.settleWithin rounds).error = none := by
  induction rounds with
  | zero => exact fun _ _ => rfl
  | succ rounds ih =>
    intro s hs
    by_cases hnone : s.document.buffer.pending = []
    · rw [settleWithin_of_nil hnone]
    · obtain ⟨⟨renamed, m, d⟩, hreaction⟩ := exists_reaction (m := s.matcher) hs
      rw [settleWithin_of_ok hnone hreaction]
      exact ih _ (kept_inOrder.react hs hreaction)

/-- With nothing to do, running the tasks does nothing. -/
lemma runTasks_of_nil {s : Session} (h : s.tasks = {}) : s.runTasks = s := by
  unfold runTasks
  rw [h]
  show { s with tasks := {} } = s
  rw [← h]

/-- A transaction that does nothing but refuse leaves no trace. -/
lemma transaction_refused {s : Session} (h : s.tasks = {}) (e : BufferError) :
    s.transaction (fun s => { session := s, error := some e }) =
      { session := s, error := some e } := by
  unfold transaction
  dsimp only
  rw [runTasks_of_nil h, if_pos rfl]

section

variable {s : Session} (op : Operation) {edit : Document → Except BufferError Document}

/-- A refused edit leaves the session as it was. -/
lemma perform_of_error (htasks : s.tasks = {}) (hedit : op.edit? = some edit) {e : BufferError}
    (hprepared : s.prepared op = s) (he : edit s.document = .error e) :
    s.perform op = { session := s, error := some e } := by
  have hrefused : s.perform op = s.transaction fun s => { session := s, error := some e } := by
    rw [perform_of_edit? hedit, transaction, transaction, hprepared, he]
    rfl
  rw [hrefused, transaction_refused htasks]

/-- A performed edit reports no error. -/
lemma error_perform_of_ok (hs : s.document.InOrder) (hedit : op.edit? = some edit) {d : Document}
    (hd : edit (s.prepared op).document = .ok d) : (s.perform op).error = none := by
  rw [perform_of_edit? hedit]
  show ((s.prepared op).andSettle (edit (s.prepared op).document)).error = none
  have hprepared : (s.prepared op).document.InOrder := kept_inOrder.prepared hs op
  rw [hd]
  exact settleWithin_error _ _
    (kept_inOrder.edit (m := (s.prepared op).matcher) hprepared hedit trivial hd)

end

variable {s : Session}

/-- Typing is never refused. -/
lemma error_type (hs : s.document.InOrder) (typed : Text) : (s.type typed).error = none := by
  obtain ⟨d, hd⟩ := (s.prepared (.type typed)).document.exists_type typed
  exact error_perform_of_ok (.type typed) hs rfl hd

/-- Backspace is never refused. -/
lemma error_backspace (hs : s.document.InOrder) : s.backspace.error = none := by
  obtain ⟨d, hd⟩ := s.document.exists_backspace
  exact error_perform_of_ok .backspace hs rfl hd

/-- A replacement is made, or it is refused and the range is turned around. -/
lemma replace_cases (hs : s.document.InOrder) (htasks : s.tasks = {}) (r : Range)
    (inserted : Text) :
    s.document.text.offsetOf r.stop < s.document.text.offsetOf r.start ∧
        s.replace r inserted = { session := s, error := some (.invalidRange r) } ∨
      ¬ s.document.text.offsetOf r.stop < s.document.text.offsetOf r.start ∧
        (s.replace r inserted).error = none := by
  have heq : (·.2) <$> s.document.replace r inserted .record =
      (s.document.splice? r inserted .record).map Document.rescope := s.document.replace_eq ..
  rw [Document.splice?_eq] at heq
  by_cases hlt : s.document.text.offsetOf r.stop < s.document.text.offsetOf r.start
  · rw [if_pos hlt] at heq
    exact .inl ⟨hlt, perform_of_error (.replace r inserted) htasks rfl rfl heq⟩
  · rw [if_neg hlt] at heq
    exact .inr ⟨hlt, error_perform_of_ok (.replace r inserted) hs rfl heq⟩

/-- A text that cannot be written leaves the session as it was. One that is written belongs to a
file from then on. -/
lemma saveAs_cases (s : Session) (p : Path) (tree : FileTree) :
    (∃ e, (s.saveAs p tree).2 = { session := s, error := some e }) ∨
      (s.saveAs p tree).2.error = none := by
  unfold Session.saveAs Document.saveAs
  dsimp only
  rcases Document.saveAs_cases s.document.buffer p tree with ⟨e, he⟩ | hok
  · rw [he]
    exact .inl ⟨e, rfl⟩
  · rw [hok]
    exact .inr rfl

/-- Saving is refused and changes nothing, or succeeds. -/
lemma save_cases (s : Session) (tree : FileTree) :
    (∃ e, (s.save tree).2 = { session := s, error := some e }) ∨
      (s.save tree).2.error = none := by
  unfold Session.save Document.save Buffer.save
  cases s.document.buffer.path with
  | none => exact .inl ⟨.noFilePath, rfl⟩
  | some p =>
    dsimp only
    rcases Document.saveAs_cases s.document.buffer p tree with ⟨e, he⟩ | hok
    · rw [he]
      exact .inl ⟨e, rfl⟩
    · rw [hok]
      exact .inr rfl

/-- Undo is refused exactly with nothing to undo. -/
lemma undo_cases (hs : s.document.InOrder) (htasks : s.tasks = {}) :
    s.document.buffer.history.undoSteps = [] ∧
        s.undo = { session := s, error := some .nothingToUndo } ∨
      s.document.buffer.history.undoSteps ≠ [] ∧ s.undo.error = none := by
  have heq := s.document.undo_eq
  cases hsteps : s.document.buffer.history.undoSteps with
  | nil =>
    rw [Buffer.undo_of_nil hsteps] at heq
    exact .inl ⟨rfl, perform_of_error .undo htasks rfl rfl heq⟩
  | cons step others =>
    rw [Buffer.undo, Buffer.undo?_of_cons hsteps] at heq
    exact .inr ⟨List.cons_ne_nil _ _, error_perform_of_ok .undo hs rfl heq⟩

/-- Redo is refused exactly with nothing to redo. -/
lemma redo_cases (hs : s.document.InOrder) (htasks : s.tasks = {}) :
    s.document.buffer.history.redoSteps = [] ∧
        s.redo = { session := s, error := some .nothingToRedo } ∨
      s.document.buffer.history.redoSteps ≠ [] ∧ s.redo.error = none := by
  have heq := s.document.redo_eq
  cases hsteps : s.document.buffer.history.redoSteps with
  | nil =>
    rw [Buffer.redo_of_nil hsteps] at heq
    exact .inl ⟨rfl, perform_of_error .redo htasks rfl rfl heq⟩
  | cons step others =>
    rw [Buffer.redo, Buffer.redo?_of_cons hsteps] at heq
    exact .inr ⟨List.cons_ne_nil _ _, error_perform_of_ok .redo hs rfl heq⟩

/-- An operation is refused and has done nothing, or it is not refused. Apart from edits only writing
a file can be. -/
lemma refused_or_error_eq_none (hs : s.document.InOrder) (htasks : s.tasks = {}) (op : Operation) :
    (∃ e, s.perform op = { session := s, error := some e }) ∨ (s.perform op).error = none := by
  cases op
  case type typed => exact .inr (error_type hs typed)
  case replace r inserted =>
    exact (replace_cases hs htasks r inserted).imp (fun h => ⟨_, h.2⟩) And.right
  case backspace => exact .inr (error_backspace hs)
  case undo => exact (undo_cases hs htasks).imp (fun h => ⟨_, h.2⟩) And.right
  case redo => exact (redo_cases hs htasks).imp (fun h => ⟨_, h.2⟩) And.right
  case save tree => exact s.save_cases tree
  case saveAs p tree => exact s.saveAs_cases p tree
  all_goals exact .inr rfl

/-- After any run of operations, whatever the text and what is inserted, and however many times the
matcher reacts to an edit, be that enough for the edit to end or not: typing and deleting backwards
are never refused, a replacement is refused just if the end of its range comes before the start in
the text, and undoing and redoing just if there is no step. What is refused has ended and leaves the
session as it was, events included. After every operation the scopes are those of the text. -/
theorem run_refusals (d : Document) (hscopes : d.scopes = d.grammar.tokenize d.text)
    (hmarkers : d.buffer.markers.Ordered) (settings : Settings) (patience : Nat)
    (ops : List Operation) :
    let s := (Session.start d settings patience).run ops
    let text := s.document.text
    let history := s.document.buffer.history
    (∀ typed, (s.type typed).error = none) ∧
      s.backspace.error = none ∧
      (∀ r inserted, (s.replace r inserted).error =
        if text.offsetOf r.stop < text.offsetOf r.start then some (.invalidRange r) else none) ∧
      (∀ r : Range, text.offsetOf r.stop < text.offsetOf r.start → r.stop < r.start) ∧
      s.undo.error = (if history.undoSteps = [] then some .nothingToUndo else none) ∧
      s.redo.error = (if history.redoSteps = [] then some .nothingToRedo else none) ∧
      (∀ op e, (s.perform op).error = some e →
        s.perform op = { session := s, error := some e, unsettled := false }) ∧
      ∀ op, (s.perform op).session.document.scopes =
        (s.perform op).session.document.grammar.tokenize
          (s.perform op).session.document.text := by
  intro s text history
  have hstart : (Session.start d settings patience).document.InOrder :=
    Matcher.inOrder_refresh (m := { settings := settings.tagMatching }) ⟨hscopes, hmarkers⟩
  have hs : s.document.InOrder := kept_inOrder.run (fun _ _ => trivial) hstart
  have htasks : s.tasks = {} := tasks_run rfl ops
  refine ⟨error_type hs, error_backspace hs, ?_, fun r => text.lt_of_offsetOf_lt, ?_, ?_, ?_, ?_⟩
  · intro r inserted
    rcases replace_cases hs htasks r inserted with ⟨hlt, heq⟩ | ⟨hlt, hnone⟩
    · rw [heq, if_pos hlt]
    · rw [hnone, if_neg hlt]
  · rcases undo_cases hs htasks with ⟨hnil, heq⟩ | ⟨hsteps, hnone⟩
    · rw [heq, if_pos hnil]
    · rw [hnone, if_neg hsteps]
  · rcases redo_cases hs htasks with ⟨hnil, heq⟩ | ⟨hsteps, hnone⟩
    · rw [heq, if_pos hnil]
    · rw [hnone, if_neg hsteps]
  · intro op e he
    rcases refused_or_error_eq_none hs htasks op with ⟨e', heq⟩ | hnone
    · rw [heq] at he ⊢
      cases he
      rfl
    · rw [hnone] at he
      cases he
  · intro op
    have hafter : (s.perform op).session.document.InOrder := kept_inOrder.perform trivial hs
    exact hafter.scopes_eq

/-- A document whose rows end in different ways. -/
def sampleBreaks : Document := .ofText .marko "<a>\r\n</a>\x0b".toList

/-- A range with its ends turned around is refused inside the text. Below the text both of its ends
are clipped to the same place. -/
theorem run_refusals_sampleBreaks :
    let s := (Session.start sampleBreaks {}).run [.moveCursor ⟨0, 2⟩, .type "b".toList]
    s.document.text = "<ab>\r\n</ab>\x0b".toList ∧
      (s.perform (.replace ⟨⟨1, 3⟩, ⟨0, 9⟩⟩ [])).error = some (.invalidRange ⟨⟨1, 3⟩, ⟨0, 9⟩⟩) ∧
      (s.perform (.replace ⟨⟨1, 3⟩, ⟨0, 9⟩⟩ [])).session = s ∧
      (s.perform (.replace ⟨⟨7, 1⟩, ⟨7, 0⟩⟩ [])).error = none ∧
      s.undo.error = none ∧ (s.perform .redo).error = some .nothingToRedo ∧
      (s.perform .redo).session = s := by
  intro s
  obtain ⟨-, -, hreplace, -, hundo, hredo, hsame, -⟩ := run_refusals sampleBreaks rfl
    (by decide) {} 1000 [.moveCursor ⟨0, 2⟩, .type "b".toList]
  obtain ⟨htext, hsteps, hnone⟩ : s.document.text = "<ab>\r\n</ab>\x0b".toList ∧
      s.document.buffer.history.undoSteps ≠ [] ∧ s.document.buffer.history.redoSteps = [] := by
    decide +kernel
  have hrefused : (s.perform (.replace ⟨⟨1, 3⟩, ⟨0, 9⟩⟩ [])).error =
      some (.invalidRange ⟨⟨1, 3⟩, ⟨0, 9⟩⟩) := by
    show (s.replace ⟨⟨1, 3⟩, ⟨0, 9⟩⟩ []).error = _
    rw [hreplace, htext]
    decide
  have hclipped : (s.perform (.replace ⟨⟨7, 1⟩, ⟨7, 0⟩⟩ [])).error = none := by
    show (s.replace ⟨⟨7, 1⟩, ⟨7, 0⟩⟩ []).error = _
    rw [hreplace, htext]
    decide
  have hended : (s.perform .redo).error = some .nothingToRedo := by
    show s.redo.error = _
    rw [hredo, if_pos hnone]
  have hleft := congrArg Outcome.session (hsame _ _ hrefused)
  have hstays := congrArg Outcome.session (hsame _ _ hended)
  refine ⟨htext, hrefused, hleft, hclipped, ?_, hended, hstays⟩
  rw [hundo, if_neg hsteps]

end Session

end TemplateEditing
