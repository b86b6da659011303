import Mathlib.Tactic.Lemma
import TemplateEditing.Session

/-!
# Runs of a session

What is done in a session, one operation after the other. An operation either edits the document,
and the matcher then reacts to the changes until it makes none itself, or it leaves the text alone.
Events and tasks decide nothing, so all that matters about an operation is what it does to the
matcher and the document (`core_perform`), and a property of these two that each of their parts
keeps is kept by every run (`Kept.run`).
-/

namespace TemplateEditing

variable {op : Operation} {s : Session}

namespace Session

/-- What is done in a session. -/
inductive Operation where
  | type (typed : Text)
  | replace (r : Range) (inserted : Text)
  | backspace
  | undo
  | redo
  | moveCursor (p : Position)
  | select (r : Range)
  | addCursor (p : Position)
  | setGrammar (g : Grammar)
  | save (tree : FileTree)
  | saveAs (p : Path) (tree : FileTree)
  /-- Time passes. -/
  | wait (milliseconds : Nat)

/-- Performs an operation. -/
def perform (s : Session) : Operation → Outcome
  | .type typed => s.type typed
  | .replace r inserted => s.replace r inserted
  | .backspace => s.backspace
  | .undo => s.undo
  | .redo => s.redo
  | .moveCursor p => { session := s.moveCursor p }
  | .select r => { session := s.select r }
  | .addCursor p => { session := s.addCursor p }
  | .setGrammar g => { session := s.setGrammar g }
  | .save tree => (s.save tree).2
  | .saveAs p tree => (s.saveAs p tree).2
  | .wait milliseconds =>
    { session :=
        { s with document := { s.document with buffer := s.document.buffer.advance milliseconds } } }

/-- Performs operations one after the other, whether or not they are refused. -/
def run (s : Session) (ops : List Operation) : Session :=
  ops.foldl (fun s op => (s.perform op).session) s

/-! ## Parts of an operation -/

namespace Operation

/-- The text that is brought in. -/
def inserted : Operation → Text
  | .type typed => typed
  | .replace _ inserted => inserted
  | _ => []

/-- What the matcher does before the document is edited. -/
def prepare : Operation → Matcher → Document → Matcher × Document
  | .type typed, m, d => m.beforeTyping d typed
  | _, m, d => (m, d)

/-- How the document is edited, if it is. -/
def edit? : Operation → Option (Document → Except BufferError Document)
  | .type typed => some (·.type typed)
  | .replace r inserted => some fun d => (·.2) <$> d.replace r inserted .record
  | .backspace => some Document.backspace
  | .undo => some Document.undo
  | .redo => some Document.redo
  | _ => none

/-- What an operation that makes no edit does. -/
def turn : Operation → Matcher → Document → Matcher × Document
  | .moveCursor p, m, d => m.afterMove (d.setCursor p)
  | .select r, m, d => m.afterMove (d.select r)
  | .addCursor p, m, d => ((d.addCursor? p).map m.afterMove).getD (m, d)
  | .setGrammar g, m, d => m.refresh (d.setGrammar g)
  | .save tree, m, d => (m, (d.save tree).2.toOption.getD d)
  | .saveAs p tree, m, d => (m, (d.saveAs p tree).2.toOption.getD d)
  | .wait milliseconds, m, d => (m, { d with buffer := d.buffer.advance milliseconds })
  | _, m, d => (m, d)

end Operation

/-- The session once the matcher has prepared for an operation. -/
def prepared (s : Session) (op : Operation) : Session :=
  { s with
    matcher := (op.prepare s.matcher s.document).1
    document := (op.prepare s.matcher s.document).2 }

/-- The session once the document is edited, before the matcher reacts to that. -/
def edited? (s : Session) (op : Operation) : Option Session :=
  op.edit?.bind fun edit =>
    (edit (s.prepared op).document).toOption.map fun d => { s.prepared op with document := d }

/-- The matcher and the document of a session. -/
def core (s : Session) : Matcher × Document := (s.matcher, s.document)

/-- Running tasks announces something at most. -/
lemma exists_foldl_runTask_eq (tasks : List Task) (s : Session) :
    ∃ events, tasks.foldl runTask s = { s with events := events } := by
  induction tasks generalizing s with
  | nil => exact ⟨s.events, rfl⟩
  | cons task tasks ih =>
    obtain ⟨events, hevents⟩ : ∃ events, s.runTask task = { s with events := events } := by
      cases task
      rw [runTask]
      split
      · exact ⟨_, rfl⟩
      · exact ⟨s.events, rfl⟩
    rw [List.foldl_cons, hevents]
    exact ih { s with events := events }

/-- All that a transaction does on its own is to run the tasks and to announce something. -/
lemma exists_transaction_eq (s : Session) (f : Session → Outcome) :
    ∃ events, s.transaction f =
      { f s with session := { (f s).session with tasks := {}, events := events } } := by
  obtain ⟨events, hevents⟩ :=
    exists_foldl_runTask_eq (f s).session.tasks.tasks { (f s).session with tasks := {} }
  unfold transaction runTasks
  dsimp only
  rw [hevents]
  split
  · exact ⟨events, rfl⟩
  · exact ⟨_, rfl⟩

/-- Events and tasks are no part of matcher and document. -/
lemma core_transaction (s : Session) (f : Session → Outcome) :
    (s.transaction f).session.core = (f s).session.core := by
  obtain ⟨events, heq⟩ := s.exists_transaction_eq f
  rw [heq]
  rfl

/-- An edit is performed as a transaction that settles. -/
lemma perform_of_edit? {edit : Document → Except BufferError Document}
    (h : op.edit? = some edit) (s : Session) :
    s.perform op =
      s.transaction fun s => (s.prepared op).andSettle (edit (s.prepared op).document) := by
  cases op <;> cases h <;> rfl

lemma exists_of_edited? {s edited : Session} (h : s.edited? op = some edited) :
    ∃ edit d, op.edit? = some edit ∧ edit (s.prepared op).document = .ok d ∧
      edited = { s.prepared op with document := d } := by
  obtain ⟨edit, hedit, h⟩ := Option.bind_eq_some_iff.1 h
  obtain ⟨d, hd, rfl⟩ := Option.map_eq_some_iff.1 h
  refine ⟨edit, d, hedit, ?_, rfl⟩
  cases hresult : edit (s.prepared op).document with
  | error e =>
    rw [hresult] at hd
    cases hd
  | ok d' =>
    rw [hresult] at hd
    cases hd
    rfl

/-- An edit that is not refused is followed by the reactions of the matcher. -/
lemma perform_of_edited? {s edited : Session} (h : s.edited? op = some edited) :
    s.perform op = s.transaction fun _ => edited.settle := by
  obtain ⟨edit, d, hedit, hd, rfl⟩ := exists_of_edited? h
  rw [perform_of_edit? hedit, transaction, transaction, hd]
  rfl

/-- An edit that is refused leaves what the matcher has prepared. -/
lemma core_perform_of_edited?_eq_none (hedit : op.edit? ≠ none) (h : s.edited? op = none) :
    (s.perform op).session.core = op.prepare s.matcher s.document := by
  obtain ⟨edit, hedit⟩ := Option.ne_none_iff_exists'.1 hedit
  rw [edited?, hedit, Option.bind_some, Option.map_eq_none_iff] at h
  rw [perform_of_edit? hedit, core_transaction]
  cases hresult : edit (s.prepared op).document with
  | error e => rfl
  | ok d => rw [hresult] at h; cases h

/-- Gives a session the result of a function of its matcher and document. -/
def put (s : Session) (result : Matcher × Document) : Session :=
  { s with matcher := result.1, document := result.2 }

lemma exists_moveCursor_eq (s : Session) (p : Position) :
    ∃ events, s.moveCursor p =
      { s.put (s.matcher.afterMove (s.document.setCursor p)) with
        tasks := {}, events := events } := by
  obtain ⟨events, heq⟩ := s.exists_transaction_eq fun s =>
    { session := ({ s with document := s.document.setCursor p }.announce .cursorMoved).put
        (s.matcher.afterMove (s.document.setCursor p)) }
  exact ⟨events, congrArg Outcome.session heq⟩

lemma exists_select_eq (s : Session) (r : Range) :
    ∃ events, s.select r =
      { s.put (s.matcher.afterMove (s.document.select r)) with tasks := {}, events := events } := by
  obtain ⟨events, heq⟩ := s.exists_transaction_eq fun s =>
    { session := ({ s with document := s.document.select r }.announce .cursorMoved).put
        (s.matcher.afterMove (s.document.select r)) }
  exact ⟨events, congrArg Outcome.session heq⟩

lemma exists_setGrammar_eq (s : Session) (g : Grammar) :
    ∃ events, s.setGrammar g =
      { s.put (s.matcher.refresh (s.document.setGrammar g)) with
        tasks := {}, events := events } := by
  obtain ⟨events, heq⟩ := s.exists_transaction_eq fun s =>
    { session := ({ s with document := s.document.setGrammar g }.announce .grammarChanged).put
        (s.matcher.refresh (s.document.setGrammar g)) }
  exact ⟨events, congrArg Outcome.session heq⟩

lemma exists_addCursor_eq (s : Session) (p : Position) :
    ∃ events, s.addCursor p =
      { s.put (((s.document.addCursor? p).map s.matcher.afterMove).getD s.core) with
        tasks := {}, events := events } := by
  have hadd : s.addCursor p = (s.transaction fun s =>
      { session := s.put
          (((s.document.addCursor? p).map s.matcher.afterMove).getD s.core) }).session := by
    unfold addCursor
    congr 2
    funext s
    cases s.document.addCursor? p <;> rfl
  obtain ⟨events, heq⟩ := s.exists_transaction_eq fun s =>
    { session := s.put (((s.document.addCursor? p).map s.matcher.afterMove).getD s.core) }
  exact ⟨events, hadd.trans (congrArg Outcome.session heq)⟩

/-- Saving changes the document, and announces something at most. -/
lemma exists_save_eq (s : Session) (tree : FileTree) :
    ∃ events, (s.save tree).2.session =
      { s with document := (s.document.save tree).2.toOption.getD s.document, events := events } := by
  unfold Session.save
  rcases s.document.save tree with ⟨tree', _ | ⟨⟨_, _, _, _, _, _ | _, _⟩, _, _, _, _⟩⟩
  · exact ⟨s.events, rfl⟩
  · exact ⟨s.events, rfl⟩
  · exact ⟨_, rfl⟩

lemma exists_saveAs_eq (s : Session) (p : Path) (tree : FileTree) :
    ∃ events, (s.saveAs p tree).2.session =
      { s with
        document := (s.document.saveAs p tree).2.toOption.getD s.document, events := events } := by
  unfold Session.saveAs
  rcases s.document.saveAs p tree with ⟨tree', _ | ⟨⟨_, _, _, _, _, _ | _, _⟩, _, _, _, _⟩⟩
  · exact ⟨s.events, rfl⟩
  · exact ⟨s.events, rfl⟩
  · exact ⟨_, rfl⟩

/-- An operation that makes no edit does what `Operation.turn` says, and runs tasks or announces
something at most. -/
lemma exists_perform_eq_of_edit?_eq_none (h : op.edit? = none) (s : Session) :
    ∃ tasks events, (s.tasks = {} → tasks = {}) ∧ (s.perform op).session =
      { s.put (op.turn s.matcher s.document) with tasks := tasks, events := events } := by
  cases op <;> cases h
  case moveCursor p =>
    obtain ⟨events, heq⟩ := s.exists_moveCursor_eq p
    exact ⟨{}, events, fun _ => rfl, heq⟩
  case select r =>
    obtain ⟨events, heq⟩ := s.exists_select_eq r
    exact ⟨{}, events, fun _ => rfl, heq⟩
  case addCursor p =>
    obtain ⟨events, heq⟩ := s.exists_addCursor_eq p
    exact ⟨{}, events, fun _ => rfl, heq⟩
  case setGrammar g =>
    obtain ⟨events, heq⟩ := s.exists_setGrammar_eq g
    exact ⟨{}, events, fun _ => rfl, heq⟩
  case save tree =>
    obtain ⟨events, heq⟩ := s.exists_save_eq tree
    exact ⟨s.tasks, events, id, heq⟩
  case saveAs p tree =>
    obtain ⟨events, heq⟩ := s.exists_saveAs_eq p tree
    exact ⟨s.tasks, events, id, heq⟩
  case wait milliseconds => exact ⟨s.tasks, s.events, id, rfl⟩

/-- Other operations leave the text alone. -/
lemma core_perform_of_edit?_eq_none (h : op.edit? = none) (s : Session) :
    (s.perform op).session.core = op.turn s.matcher s.document := by
  obtain ⟨tasks, events, -, heq⟩ := exists_perform_eq_of_edit?_eq_none h s
  rw [heq]
  rfl

/-- An operation leaves the text alone, is refused, or edits the document, to which the matcher
reacts. -/
lemma core_perform (s : Session) (op : Operation) :
    (s.perform op).session.core = op.turn s.matcher s.document ∨
    (s.perform op).session.core = op.prepare s.matcher s.document ∨
    ∃ edited, s.edited? op = some edited ∧
      (s.perform op).session.core = edited.settle.session.core := by
  by_cases hedit : op.edit? = none
  · exact .inl (core_perform_of_edit?_eq_none hedit s)
  · cases hedited : s.edited? op with
    | none => exact .inr (.inl (core_perform_of_edited?_eq_none hedit hedited))
    | some edited =>
      refine .inr (.inr ⟨edited, rfl, ?_⟩)
      rw [perform_of_edited? hedited, core_transaction]

/-! ## Reactions -/

/-- The session after a reaction of the matcher. -/
def reacted (s : Session) (renamed : Bool) (m : Matcher) (d : Document) : Session :=
  { s.announce .textChanged with
    matcher := m
    document := d
    tasks := if renamed then s.tasks.push (.requestCompletion false) else s.tasks }

/-- What the matcher makes of the changes that nobody has looked at yet. -/
def reaction (m : Matcher) (d : Document) : Except BufferError (Bool × Matcher × Document) :=
  m.afterChanges d.takeChanges.2 d.takeChanges.1

/-- One round more is a look at the changes and a reaction. -/
lemma settleWithin_succ (rounds : Nat) (s : Session) :
    settleWithin (rounds + 1) s =
      if s.document.buffer.pending.isEmpty then
        { session := { s with document := s.document.takeChanges.2 } }
      else
        let outcome :=
          { s with document := s.document.takeChanges.2 }.react s.document.buffer.pending
        if outcome.error.isSome then outcome else settleWithin rounds outcome.session := rfl

/-- With no change pending, a session is settled. -/
lemma settleWithin_of_nil (h : s.document.buffer.pending = []) (rounds : Nat) :
    settleWithin rounds s = { session := s } := by
  cases rounds with
  | zero => rw [settleWithin, h]; rfl
  | succ rounds =>
    have hsame : s.document.takeChanges.2 = s.document := by
      show { s.document with buffer := { s.document.buffer with pending := [] } } = _
      rw [← h]
    rw [settleWithin_succ, if_pos (List.isEmpty_iff.2 h), hsame]

section

variable {s : Session} (h : s.document.buffer.pending ≠ [])

include h

/-- A reaction uses up one round. -/
lemma settleWithin_of_ok {renamed : Bool} {m : Matcher} {d : Document}
    (hreaction : reaction s.matcher s.document = .ok (renamed, m, d)) (rounds : Nat) :
    settleWithin (rounds + 1) s = settleWithin rounds (s.reacted renamed m d) := by
  have hreact : { s with document := s.document.takeChanges.2 }.react s.document.buffer.pending =
      { session := s.reacted renamed m d } := by
    unfold react reacted announce
    dsimp only
    rw [show s.matcher.afterChanges _ s.document.buffer.pending = _ from hreaction]
  rw [settleWithin_succ, if_neg (mt List.isEmpty_iff.1 h), hreact]
  rfl

/-- A failed reaction ends the rounds with its error. -/
lemma settleWithin_of_error {e : BufferError}
    (hreaction : reaction s.matcher s.document = .error e) (rounds : Nat) :
    settleWithin (rounds + 1) s =
      { session := { s with document := s.document.takeChanges.2 }.announce .textChanged
        error := some e } := by
  have hreact : { s with document := s.document.takeChanges.2 }.react s.document.buffer.pending =
      { session := { s with document := s.document.takeChanges.2 }.announce .textChanged
        error := some e } := by
    unfold react announce
    dsimp only
    rw [show s.matcher.afterChanges _ s.document.buffer.pending = _ from hreaction]
  rw [settleWithin_succ, if_neg (mt List.isEmpty_iff.1 h), hreact]
  rfl

end

/-- An operation that has not ended has left changes to react to. One that has ended without being
refused has left none. -/
lemma unsettled_settleWithin (rounds : Nat) (s : Session) :
    ((s.settleWithin rounds).unsettled = true →
      (s.settleWithin rounds).session.document.buffer.pending ≠ []) ∧
    ((s.settleWithin rounds).unsettled = false → (s.settleWithin rounds).error = none →
      (s.settleWithin rounds).session.document.buffer.pending = []) := by
  induction rounds generalizing s with
  | zero => simp [settleWithin]
  | succ rounds ih =>
    by_cases hnone : s.document.buffer.pending = []
    · simp [settleWithin_of_nil hnone, hnone]
    · cases hreaction : reaction s.matcher s.document with
      | error e => simp [settleWithin_of_error hnone hreaction]
      | ok result =>
        rw [settleWithin_of_ok hnone hreaction]
        exact ih _

/-- Once an operation has ended, more rounds change nothing. -/
lemma settleWithin_of_le {rounds more : Nat} (hle : rounds ≤ more)
    (h : (s.settleWithin rounds).unsettled = false) :
    s.settleWithin more = s.settleWithin rounds := by
  induction rounds generalizing s more with
  | zero =>
    have hnone : s.document.buffer.pending = [] := (unsettled_settleWithin 0 s).2 h rfl
    rw [settleWithin_of_nil hnone, settleWithin_of_nil hnone]
  | succ rounds ih =>
    obtain ⟨more, rfl⟩ := Nat.exists_eq_add_of_le' (Nat.le_of_add_left_le hle)
    by_cases hnone : s.document.buffer.pending = []
    · rw [settleWithin_of_nil hnone, settleWithin_of_nil hnone]
    · cases hreaction : reaction s.matcher s.document with
      | error e => rw [settleWithin_of_error hnone hreaction, settleWithin_of_error hnone hreaction]
      | ok result =>
        rw [settleWithin_of_ok hnone hreaction] at h ⊢
        rw [settleWithin_of_ok hnone hreaction]
        exact ih (by omega) h

lemma patience_settleWithin (rounds : Nat) (s : Session) :
    (s.settleWithin rounds).session.patience = s.patience := by
  induction rounds generalizing s with
  | zero => rfl
  | succ rounds ih =>
    by_cases hnone : s.document.buffer.pending = []
    · rw [settleWithin_of_nil hnone]
    · cases hreaction : reaction s.matcher s.document with
      | error e => rw [settleWithin_of_error hnone hreaction]; rfl
      | ok result =>
        obtain ⟨renamed, m, d⟩ := result
        rw [settleWithin_of_ok hnone hreaction, ih]
        simp only [reacted, announce]

/-- The patience is the same for all edits of a session. -/
lemma patience_perform (s : Session) (op : Operation) :
    (s.perform op).session.patience = s.patience := by
  cases hedit : op.edit? with
  | none =>
    obtain ⟨tasks, events, -, heq⟩ := exists_perform_eq_of_edit?_eq_none hedit s
    rw [heq]
    rfl
  | some edit =>
    rw [perform_of_edit? hedit]
    obtain ⟨events, heq⟩ := s.exists_transaction_eq fun s =>
      (s.prepared op).andSettle (edit (s.prepared op).document)
    rw [heq]
    show ((s.prepared op).andSettle (edit (s.prepared op).document)).session.patience = s.patience
    cases edit (s.prepared op).document with
    | error e => rfl
    | ok d => exact patience_settleWithin _ _

lemma patience_of_edited? {s edited : Session} (h : s.edited? op = some edited) :
    edited.patience = s.patience := by
  obtain ⟨edit, d, -, -, rfl⟩ := exists_of_edited? h
  rfl

/-- No operation changes the patience. -/
lemma patience_run (s : Session) (ops : List Operation) : (s.run ops).patience = s.patience := by
  induction ops generalizing s with
  | nil => rfl
  | cons op ops ih => exact (ih _).trans (s.patience_perform op)

/-! ## What a run keeps -/

/-- A property of matcher and document that every part of an operation keeps, as long as the texts
brought in are `allowed`. -/
structure Kept (allowed : Text → Prop) (I : Matcher → Document → Prop) : Prop where
  prepare : ∀ {m d}, I m d → ∀ typed, I (m.beforeTyping d typed).1 (m.beforeTyping d typed).2
  edit : ∀ {m d d'} {op : Operation} {edit}, I m d → op.edit? = some edit → allowed op.inserted →
    edit d = .ok d' → I m d'
  react : ∀ {m d renamed m' d'}, I m d → reaction m d = .ok (renamed, m', d') → I m' d'
  refuse : ∀ {m d e}, I m d → reaction m d = .error e → I m d.takeChanges.2
  turn : ∀ {m d}, I m d → ∀ op : Operation, I (op.turn m d).1 (op.turn m d).2

namespace Kept

variable {allowed : Text → Prop} {I : Matcher → Document → Prop} (h : Kept allowed I)

include h

/-- What every reaction keeps, all the rounds keep. -/
lemma settleWithin (rounds : Nat) : ∀ s : Session, I s.matcher s.document →
    I (s.settleWithin rounds).session.matcher (s.settleWithin rounds).session.document := by
  induction rounds with
  | zero => exact fun _ hs => hs
  | succ rounds ih =>
    intro s hs
    by_cases hnone : s.document.buffer.pending = []
    · rw [settleWithin_of_nil hnone]
      exact hs
    · cases hreaction : reaction s.matcher s.document with
      | error e =>
        rw [settleWithin_of_error hnone hreaction]
        exact h.refuse hs hreaction
      | ok result =>
        obtain ⟨renamed, m, d⟩ := result
        rw [settleWithin_of_ok hnone hreaction]
        exact ih _ (h.react hs hreaction)

lemma prepared (hs : I s.matcher s.document) (op : Operation) :
    I (s.prepared op).matcher (s.prepared op).document := by
  cases op
  case type typed => exact h.prepare hs typed
  all_goals exact hs

/-- What is kept holds after the edit, before it settles. -/
lemma edited {s edited : Session} (hop : allowed op.inserted)
    (hs : I s.matcher s.document) (hedited : s.edited? op = some edited) :
    I edited.matcher edited.document := by
  obtain ⟨edit, d, hedit, hd, rfl⟩ := exists_of_edited? hedited
  exact h.edit (h.prepared hs op) hedit hop hd

/-- What is kept holds after every operation. -/
lemma perform (hop : allowed op.inserted) (hs : I s.matcher s.document) :
    I (s.perform op).session.matcher (s.perform op).session.document := by
  show I (s.perform op).session.core.1 (s.perform op).session.core.2
  rcases s.core_perform op with hcore | hcore | ⟨edited, hedited, hcore⟩ <;> rw [hcore]
  · exact h.turn hs op
  · exact h.prepared hs op
  · exact h.settleWithin _ _ (h.edited hop hs hedited)

/-- Whatever is done in a session, the property is kept. -/
lemma run {ops : List Operation} (hops : ∀ op ∈ ops, allowed op.inserted)
    (hs : I s.matcher s.document) : I (s.run ops).matcher (s.run ops).document := by
  induction ops generalizing s with
  | nil => exact hs
  | cons op ops ih =>
    exact ih (fun op' hop' => hops op' (List.mem_cons_of_mem op hop'))
      (h.perform (hops op List.mem_cons_self) hs)

end Kept

end Session

end TemplateEditing
