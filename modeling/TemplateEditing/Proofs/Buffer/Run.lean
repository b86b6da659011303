import Mathlib.Tactic.Lemma
import TemplateEditing.Buffer

/-!
# Runs of a buffer

What is done to a buffer, one operation after the other. An operation that is refused leaves the
buffer as it is. Time passes between operations as it likes, so that an edit may or may not come
shortly after the one before.

Every edit replaces the characters between two offsets that lie in the text in this order
(`Buffer.replace_eq`).
-/

namespace TemplateEditing

/-- What is done to a buffer. -/
inductive Operation where
  | replace (r : Range) (t : Text) (mode : UndoMode)
  | insert (p : Position) (t : Text)
  | delete (r : Range)
  | undo
  | redo
  | mark (r : Range)
  | unmark (id : MarkerId)
  | advance (milliseconds : Nat)
deriving DecidableEq, Repr

namespace Buffer

/-- Tries an operation. -/
def apply (b : Buffer) : Operation → Except BufferError Buffer
  | .replace r t mode => (b.replace r t mode).map Prod.snd
  | .insert p t => (b.insert p t).map Prod.snd
  | .delete r => (b.delete r).map Prod.snd
  | .undo => b.undo
  | .redo => b.redo
  | .mark r => .ok (b.mark r).2
  | .unmark id => .ok (b.unmark id)
  | .advance milliseconds => .ok (b.advance milliseconds)

/-- Performs an operation, unless it is refused. -/
def perform (b : Buffer) (op : Operation) : Buffer :=
  match b.apply op with
  | .ok b' => b'
  | .error _ => b

/-- Performs operations one after the other. -/
def run (b : Buffer) (ops : List Operation) : Buffer := ops.foldl perform b

end Buffer

/-! ## Offsets -/

namespace Text

lemma length_content_le (row : Text) : (content row).length ≤ row.length := by
  fun_induction content row with
  | case1 => exact Nat.le_refl _
  | case2 => exact Nat.zero_le _
  | case3 => exact Nat.zero_le _
  | case4 c rest _ _ ih => exact Nat.succ_le_succ ih

/-- A row ends before the next one starts. -/
lemma rowStart_add_lineLength_le_succ (t : Text) (row : Nat) :
    rowStart t row + lineLength t row ≤ rowStart t (row + 1) := by
  rw [rowStart, rowStart, List.take_add_one, List.flatten_append, List.length_append, lineLength,
    line, line?]
  cases (rows t)[row]? with
  | none => exact Nat.le_refl _
  | some columns => simpa using length_content_le columns

lemma rowStart_le_length (t : Text) (row : Nat) : rowStart t row ≤ t.length := by
  have hlength := congrArg List.length (flatten_rows t)
  rw [← List.take_append_drop row (rows t), List.flatten_append, List.length_append] at hlength
  rw [rowStart, ← hlength]
  exact Nat.le_add_right _ _

/-- Every position has an offset in the text. -/
lemma offsetOf_le_length (t : Text) (p : Position) : offsetOf t p ≤ t.length := by
  have hends (row : Nat) : rowStart t row + lineLength t row ≤ t.length :=
    Nat.le_trans (rowStart_add_lineLength_le_succ t row) (rowStart_le_length t (row + 1))
  rw [offsetOf, clip]
  split
  · have hrow := hends p.row
    show rowStart t p.row + min p.column (lineLength t p.row) ≤ t.length
    omega
  · exact hends (rowCount t - 1)

end Text

namespace Buffer

/-- The buffer once the characters between two offsets are replaced and that is recorded. -/
def edited (b : Buffer) (i j : Nat) (t : Text) (mode : UndoMode) : Buffer :=
  { (b.replaceOffsets i j t).2 with
    history :=
      if (b.text.slice i j).isEmpty && t.isEmpty then b.history
      else b.history.record ⟨i, b.text.slice i j, t⟩ mode b.clock }

/-- A replacement is refused, or it is made between the offsets of the range. -/
lemma replace_eq (b : Buffer) (r : Range) (t : Text) (mode : UndoMode) :
    b.replace r t mode =
      if b.text.offsetOf r.stop < b.text.offsetOf r.start then .error (.invalidRange r)
      else .ok ((b.replaceOffsets (b.text.offsetOf r.start) (b.text.offsetOf r.stop) t).1,
        b.edited (b.text.offsetOf r.start) (b.text.offsetOf r.stop) t mode) := by
  rw [replace]
  split
  · rfl
  · show (if (b.text.slice _ _).isEmpty && t.isEmpty then _ else _) = _
    split
    · rename_i hempty
      rw [edited, if_pos hempty]
      rfl
    · rename_i hempty
      rw [edited, if_neg hempty]
      rfl

lemma perform_replace (b : Buffer) (r : Range) (t : Text) (mode : UndoMode) :
    b.perform (.replace r t mode) =
      if b.text.offsetOf r.stop < b.text.offsetOf r.start then b
      else b.edited (b.text.offsetOf r.start) (b.text.offsetOf r.stop) t mode := by
  rw [perform, apply, replace_eq]
  by_cases h : b.text.offsetOf r.stop < b.text.offsetOf r.start
  · rw [if_pos h, if_pos h]
    rfl
  · rw [if_neg h, if_neg h]
    rfl

end Buffer

end TemplateEditing
