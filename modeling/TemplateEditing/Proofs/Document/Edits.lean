import Mathlib.Logic.Relation
import TemplateEditing.Document
import TemplateEditing.Proofs.Change.Offsets
import TemplateEditing.Proofs.Buffer.Run

/-!
# Edits of a document

Every edit of a document is made of a few things: characters between two offsets are replaced, a
step is taken back or made again, selections are given up, and scopes are computed (`Alters`). What
each of these keeps is kept by typing, replacing, deleting, undoing and redoing alike.
-/

namespace TemplateEditing

namespace Document

/-- The document once the characters between two offsets are replaced, with the scopes it had. -/
def spliced (d : Document) (i j : Nat) (t : Text) (mode : UndoMode) : Document :=
  { d with
    buffer := d.buffer.edited i j t mode
    cursors := d.cursors.follow (.ofOffsets d.text i j t) }

lemma buffer_stepped (d : Document) (b : Buffer) : (d.stepped b).buffer = b := by
  unfold stepped
  dsimp only
  split <;> rfl

/-- What edits are made of. Texts that are brought in are `allowed`. -/
inductive Alters (allowed : Text → Prop) : Document → Document → Prop where
  | splice (d : Document) {i j : Nat} {t : Text} (hij : i ≤ j) (hj : j ≤ d.text.length)
      (ht : allowed t) (mode : UndoMode) : Alters allowed d (d.spliced i j t mode)
  | undo {d : Document} {b : Buffer} (h : d.buffer.undo = .ok b) : Alters allowed d (d.stepped b)
  | redo {d : Document} {b : Buffer} (h : d.buffer.redo = .ok b) : Alters allowed d (d.stepped b)
  | clearAll (d : Document) : Alters allowed d { d with cursors := d.cursors.map Cursor.clear }
  | clearPrimary (d : Document) :
      Alters allowed d { d with cursors := d.cursors.mapPrimary Cursor.clear }

/-- What an edit leads to: nothing is done, or scopes are computed after all that is. -/
inductive Edited (allowed : Text → Prop) (d : Document) : Document → Prop where
  | nothing : Edited allowed d d
  | rescope {d' : Document} (h : Relation.ReflTransGen (Alters allowed) d d') :
      Edited allowed d d'.rescope

/-- A splice edits between two offsets, unless they are turned around. -/
lemma splice?_eq (d : Document) (r : Range) (t : Text) (mode : UndoMode) :
    d.splice? r t mode =
      if d.text.offsetOf r.stop < d.text.offsetOf r.start then .error (.invalidRange r)
      else .ok (d.spliced (d.text.offsetOf r.start) (d.text.offsetOf r.stop) t mode) := by
  rw [splice?, edit, Buffer.replace_eq]
  show _ = if d.buffer.text.offsetOf r.stop < d.buffer.text.offsetOf r.start then _ else _
  split <;> rfl

/-- Replacing is a splice, after which the scopes are read anew. -/
lemma replace_eq (d : Document) (r : Range) (t : Text) (mode : UndoMode) :
    (·.2) <$> d.replace r t mode = (d.splice? r t mode).map rescope := by
  rw [replace, splice?]
  cases d.edit r t mode <;> rfl

/-- Typing is a splice at each target in turn. -/
lemma type_eq (d : Document) (t : Text) :
    d.type t =
      (d.typingTargets.foldlM (fun (d : Document) r => d.splice? r t .record) d).map fun d =>
        { d with cursors := d.cursors.map Cursor.clear }.rescope := by
  rw [type]
  cases List.foldlM (m := Except BufferError) _ d d.typingTargets <;> rfl

/-- Backspace is a splice of its target, if it has one. -/
lemma backspace_eq (d : Document) :
    d.backspace = (d.backspaceTarget?.map fun r => (d.splice? r [] .record).map fun d =>
      { d with cursors := d.cursors.mapPrimary Cursor.clear }.rescope).getD (.ok d) := by
  rw [backspace]
  cases d.backspaceTarget? with
  | none => rfl
  | some r =>
    dsimp only [Option.map_some, Option.getD_some]
    cases d.splice? r [] .record <;> rfl

lemma undo_eq (d : Document) : d.undo = d.buffer.undo.map fun b => (d.stepped b).rescope := by
  rw [undo]
  cases d.buffer.undo <;> rfl

lemma redo_eq (d : Document) : d.redo = d.buffer.redo.map fun b => (d.stepped b).rescope := by
  rw [redo]
  cases d.buffer.redo <;> rfl

/-! ## What an edit is made of -/

/-- What each part of an edit keeps is kept by the edit. -/
lemma Edited.keeps {allowed : Text → Prop} {I : Document → Prop} {d d' : Document}
    (h : Edited allowed d d') (halters : ∀ {d d'}, Alters allowed d d' → I d → I d')
    (hrescope : ∀ {d}, I d → I d.rescope) (hd : I d) : I d' := by
  cases h with
  | nothing => exact hd
  | rescope h =>
    apply hrescope
    induction h with
    | refl => exact hd
    | tail _ hlast ih => exact halters hlast ih

lemma exists_of_map_ok {α β : Type} {f : α → β} {x : Except BufferError α} {b : β}
    (h : x.map f = .ok b) : ∃ a, x = .ok a ∧ b = f a := by
  cases x with
  | error e => cases h
  | ok a =>
    cases h
    exact ⟨a, rfl, rfl⟩

section

variable {allowed : Text → Prop} {d d' : Document} {t : Text}

/-- A splice alters a document by one edit. -/
lemma alters_of_splice? {r : Range} {mode : UndoMode} (ht : allowed t)
    (h : d.splice? r t mode = .ok d') : Alters allowed d d' := by
  rw [splice?_eq] at h
  split at h
  · cases h
  · rename_i hrange
    cases h
    exact .splice d (Nat.le_of_not_lt hrange) (d.text.offsetOf_le_length r.stop) ht mode

lemma edited_replace {r : Range} {mode : UndoMode} (ht : allowed t)
    (h : (·.2) <$> d.replace r t mode = .ok d') : Edited allowed d d' := by
  rw [replace_eq] at h
  obtain ⟨between, hsplice, rfl⟩ := exists_of_map_ok h
  exact .rescope (.single (alters_of_splice? ht hsplice))

/-- Splices one after the other alter a document. -/
lemma alters_foldlM (ht : allowed t) {targets : List Range}
    (h : targets.foldlM (fun (d : Document) r => d.splice? r t .record) d = .ok d') :
    Relation.ReflTransGen (Alters allowed) d d' := by
  induction targets generalizing d with
  | nil =>
    cases h
    exact .refl
  | cons r targets ih =>
    rw [List.foldlM_cons] at h
    cases hsplice : d.splice? r t .record with
    | error e =>
      rw [hsplice] at h
      cases h
    | ok between =>
      rw [hsplice] at h
      exact .head (alters_of_splice? ht hsplice) (ih h)

lemma edited_type (ht : allowed t) (h : d.type t = .ok d') : Edited allowed d d' := by
  rw [type_eq] at h
  obtain ⟨between, hfold, rfl⟩ := exists_of_map_ok h
  exact .rescope ((alters_foldlM ht hfold).tail (.clearAll between))

lemma edited_backspace (hnil : allowed []) (h : d.backspace = .ok d') : Edited allowed d d' := by
  rw [backspace_eq] at h
  cases htarget : d.backspaceTarget? with
  | none =>
    rw [htarget] at h
    cases h
    exact .nothing
  | some r =>
    rw [htarget, Option.map_some, Option.getD_some] at h
    obtain ⟨between, hsplice, rfl⟩ := exists_of_map_ok h
    exact .rescope (.tail (.single (alters_of_splice? hnil hsplice)) (.clearPrimary between))

lemma edited_undo (h : d.undo = .ok d') : Edited allowed d d' := by
  rw [undo_eq] at h
  obtain ⟨b, hundo, rfl⟩ := exists_of_map_ok h
  exact .rescope (.single (.undo hundo))

lemma edited_redo (h : d.redo = .ok d') : Edited allowed d d' := by
  rw [redo_eq] at h
  obtain ⟨b, hredo, rfl⟩ := exists_of_map_ok h
  exact .rescope (.single (.redo hredo))

end

/-! ## Files -/

/-- The document with another name, file and mark of changes not saved. -/
def filed (d : Document) (name : String) (path : Option Path) (modified : Bool) : Document :=
  { d with name := name, buffer := { d.buffer with path := path, modified := modified } }

/-- Saving fails, or leaves a buffer that differs in its file only. -/
lemma saveAs_cases (b : Buffer) (p : Path) (tree : FileTree) :
    (∃ e, (b.saveAs p tree).2 = .error e) ∨
      (b.saveAs p tree).2 = .ok { b with path := some p, modified := false } := by
  unfold Buffer.saveAs
  dsimp only
  cases tree.write (p.withExtension "tmp") (String.ofList b.text) with
  | error e => exact .inl ⟨.file e, rfl⟩
  | ok tree =>
    dsimp only
    cases tree.rename (p.withExtension "tmp") p with
    | error e => exact .inl ⟨.file e, rfl⟩
    | ok tree => exact .inr rfl

lemma exists_saveAs_eq (d : Document) (p : Path) (tree : FileTree) :
    ∃ name path modified, (d.saveAs p tree).2.toOption.getD d = d.filed name path modified := by
  show ∃ name path modified, ((d.buffer.saveAs p tree).2.map _).toOption.getD d = _
  rcases saveAs_cases d.buffer p tree with ⟨e, h⟩ | h
  · exact ⟨d.name, d.buffer.path, d.buffer.modified, by rw [h]; rfl⟩
  · exact ⟨_, some p, false, by rw [h]; rfl⟩

lemma exists_save_eq (d : Document) (tree : FileTree) :
    ∃ name path modified, (d.save tree).2.toOption.getD d = d.filed name path modified := by
  show ∃ name path modified, ((d.buffer.save tree).2.map _).toOption.getD d = _
  unfold Buffer.save
  cases d.buffer.path with
  | none => exact ⟨d.name, d.buffer.path, d.buffer.modified, rfl⟩
  | some p =>
    rcases saveAs_cases d.buffer p tree with ⟨e, h⟩ | h
    · exact ⟨d.name, d.buffer.path, d.buffer.modified, by rw [h]; rfl⟩
    · exact ⟨d.name, some p, false, by rw [h]; rfl⟩

end Document

end TemplateEditing
