import TemplateEditing.Proofs.Buffer.Run
import TemplateEditing.Proofs.History.Chain

/-!
# Undoing and redoing

After every run the steps of the history are a chain through the text of the buffer (`Chained`).
Hence any number of steps that can be undone can be redone to the same text and the same steps, and
the history never keeps more steps than it may. As long as no step is lost to the capacity, the
chain starts at the first text, so that undoing everything comes back to it (`run_undo_redo`).
-/

namespace TemplateEditing

/-! ## Replaying -/

/-- Edits, the first one first, lead from one text to another. -/
inductive Replays : List Edit → Text → Text → Prop where
  | nil (t : Text) : Replays [] t t
  | cons {first : Edit} {later : List Edit} {t between t' : Text}
      (hfirst : first.Leads t between) (h : Replays later between t') :
      Replays (first :: later) t t'

/-- Each edit, the first one first, removes what lies inside the text it is made in. -/
def ReplaysInside : Text → List Edit → Prop
  | _, [] => True
  | t, e :: later =>
    e.removedEnd ≤ t.length ∧ ReplaysInside (t.splice e.offset e.removedEnd e.inserted) later

namespace Replays

/-- Edits that replay one after the other replay together. -/
lemma append {edits edits' : List Edit} {t between t' : Text} (h : Replays edits t between)
    (h' : Replays edits' between t') : Replays (edits ++ edits') t t' := by
  induction h with
  | nil => exact h'
  | cons hfirst _ ih => exact .cons hfirst (ih h')

/-- Each edit of a replay lies inside the text that it meets. -/
lemma inside {edits : List Edit} {t t' : Text} (h : Replays edits t t') :
    ReplaysInside t edits := by
  induction h with
  | nil => exact trivial
  | cons hfirst _ ih =>
    refine ⟨hfirst.removedEnd_le, ?_⟩
    rw [hfirst.splice_eq]
    exact ih

end Replays

namespace EditsLead

variable {edits : List Edit} {t t' : Text}

/-- Edits listed from the last one replay in reverse. -/
lemma replays (h : EditsLead edits t t') : Replays edits.reverse t t' := by
  induction h with
  | nil t => exact .nil t
  | @cons last earlier t between t' _ hlast ih =>
    rw [List.reverse_cons]
    exact ih.append (.cons hlast (.nil t'))

/-- Reversed, the edits of a step lead back. -/
lemma replays_reversed (h : EditsLead edits t t') : Replays (edits.map Edit.reversed) t' t := by
  induction h with
  | nil t => exact .nil t
  | cons _ hlast ih => exact .cons hlast.reversed ih

end EditsLead

namespace Buffer

/-- A replay leaves the history alone. -/
lemma history_foldl_replay (edits : List Edit) (b : Buffer) :
    (edits.foldl replay b).history = b.history := by
  induction edits generalizing b with
  | nil => rfl
  | cons e edits ih => exact ih (b.replay e)

/-- A replay leads to the text that it names. -/
lemma text_foldl_replay {edits : List Edit} {t t' : Text} (h : Replays edits t t') :
    ∀ b : Buffer, b.text = t → (edits.foldl replay b).text = t' := by
  induction h with
  | nil t => exact fun b hb => hb
  | cons hfirst _ ih =>
    intro b hb
    refine ih (b.replay _) ?_
    show b.text.splice _ _ _ = _
    rw [hb, hfirst.splice_eq]

/-! ## Single steps -/

/-- Whatever is undone next, its edits are taken back inside the text. -/
def UndoesInside (b : Buffer) : Prop :=
  ∀ edits history, b.history.undo? = some (edits, history) →
    ReplaysInside b.text (edits.reverse.map Edit.reversed)

/-- Whatever is redone next, its edits are made again inside the text. -/
def RedoesInside (b : Buffer) : Prop :=
  ∀ edits history, b.history.redo? = some (edits, history) → ReplaysInside b.text edits

section

variable {b : Buffer} {step : Step} {others : List Step}

lemma undo_of_nil (h : b.history.undoSteps = []) : b.undo = .error .nothingToUndo := by
  rw [undo, History.undo?, h]

lemma redo_of_nil (h : b.history.redoSteps = []) : b.redo = .error .nothingToRedo := by
  rw [redo, History.redo?, h]

lemma undo?_of_cons (h : b.history.undoSteps = step :: others) :
    b.history.undo? = some (step.edits.reverse, { b.history with
      undoSteps := others
      redoSteps := { step with touched := none } :: b.history.redoSteps }) := by
  rw [History.undo?, h]
  rfl

lemma redo?_of_cons (h : b.history.redoSteps = step :: others) :
    b.history.redo? = some (step.edits.reverse, { b.history with
      undoSteps := step :: b.history.undoSteps, redoSteps := others }) := by
  rw [History.redo?, h]
  rfl

/-- A step that leads to the present text can be undone, which leads back. -/
lemma exists_undo {t : Text} (hsteps : b.history.undoSteps = step :: others)
    (h : EditsLead step.edits t b.text) :
    ∃ b', b.undo = .ok b' ∧ b.UndoesInside ∧ b'.text = t ∧ b'.history = { b.history with
      undoSteps := others, redoSteps := { step with touched := none } :: b.history.redoSteps } := by
  have hnext := undo?_of_cons hsteps
  have hback := h.replays_reversed
  rw [← step.edits.reverse_reverse] at hback
  refine ⟨_, by rw [undo, hnext], ?_, ?_, ?_⟩
  · intro edits history hedits
    rw [hnext, Option.some.injEq, Prod.mk.injEq] at hedits
    rw [← hedits.1]
    exact hback.inside
  · exact text_foldl_replay hback _ rfl
  · rw [history_foldl_replay]

/-- A step that leads on from the present text can be redone, which leads on. -/
lemma exists_redo {t : Text} (hsteps : b.history.redoSteps = step :: others)
    (h : EditsLead step.edits b.text t) :
    ∃ b', b.redo = .ok b' ∧ b.RedoesInside ∧ b'.text = t ∧ b'.history = { b.history with
      undoSteps := step :: b.history.undoSteps, redoSteps := others } := by
  have hnext := redo?_of_cons hsteps
  refine ⟨_, by rw [redo, hnext], ?_, ?_, ?_⟩
  · intro edits history hedits
    rw [hnext, Option.some.injEq, Prod.mk.injEq] at hedits
    rw [← hedits.1]
    exact h.replays.inside
  · exact text_foldl_replay h.replays _ rfl
  · rw [history_foldl_replay]

end

/-! ## The chain through the text -/

/-- The steps of the history, of which `n` are kept at most, lead from `base` to the text and on
from there. -/
structure Chained (base : Text) (n : Nat) (b : Buffer) : Prop where
  leads : StepsLead b.history.undoSteps base b.text
  follows : StepsFollow b.history.redoSteps b.text
  capacity_eq : b.history.capacity = n
  length_le : b.history.undoSteps.length + b.history.redoSteps.length ≤ n

namespace Chained

variable {base : Text} {n : Nat} {b : Buffer}

/-- No more steps are kept than the limit says. -/
lemma undoSteps_le (h : b.Chained base n) : b.history.undoSteps.length ≤ b.history.capacity := by
  rw [h.capacity_eq]
  exact Nat.le_trans (Nat.le_add_right _ _) h.length_le

/-- Undo takes one step back along the chain. -/
lemma exists_undo (h : b.Chained base n) {last : Step} {earlier : List Step}
    (hsteps : b.history.undoSteps = last :: earlier) :
    ∃ b', b.undo = .ok b' ∧ b.UndoesInside ∧ b'.Chained base n ∧
      EditsLead last.edits b'.text b.text ∧ b'.history.undoSteps = earlier ∧
      b'.history.redoSteps = { last with touched := none } :: b.history.redoSteps := by
  obtain ⟨hleads, hfollows, hcapacity, hlength⟩ := h
  rw [hsteps] at hleads hlength
  cases hleads with
  | cons hearlier hlast =>
    obtain ⟨b', hundo, hinside, rfl, hhistory⟩ := Buffer.exists_undo hsteps hlast
    refine ⟨b', hundo, hinside, ⟨?_, ?_, ?_, ?_⟩, hlast, by rw [hhistory], by rw [hhistory]⟩
    · rw [hhistory]
      exact hearlier
    · rw [hhistory]
      exact .cons hlast hfollows
    · rw [hhistory]
      exact hcapacity
    · rw [hhistory]
      simp only [List.length_cons] at hlength ⊢
      omega

/-- Redo takes one step forward along the chain. -/
lemma exists_redo (h : b.Chained base n) {next : Step} {later : List Step}
    (hsteps : b.history.redoSteps = next :: later) :
    ∃ b', b.redo = .ok b' ∧ b.RedoesInside ∧ b'.Chained base n := by
  obtain ⟨hleads, hfollows, hcapacity, hlength⟩ := h
  rw [hsteps] at hfollows hlength
  cases hfollows with
  | cons hnext hlater =>
    obtain ⟨b', hredo, hinside, rfl, hhistory⟩ := Buffer.exists_redo hsteps hnext
    refine ⟨b', hredo, hinside, ⟨?_, ?_, ?_, ?_⟩⟩
    · rw [hhistory]
      exact .cons hleads hnext
    · rw [hhistory]
      exact hlater
    · rw [hhistory]
      exact hcapacity
    · rw [hhistory]
      simp only [List.length_cons] at hlength ⊢
      omega

end Chained

/-- The same buffer with room for one more step. -/
def roomy (b : Buffer) : Buffer := { b with history := b.history.roomy }

/-- The operation loses a step to the capacity: with more room there would be one more to undo. -/
def Drops (b : Buffer) (op : Operation) : Prop :=
  (b.perform op).history.undoSteps.length < (b.roomy.perform op).history.undoSteps.length

instance (b : Buffer) (op : Operation) : Decidable (b.Drops op) := Nat.decLt _ _

/-- No operation of a run loses a step. -/
def NeverDrops (b : Buffer) : List Operation → Prop
  | [] => True
  | op :: ops => ¬ b.Drops op ∧ (b.perform op).NeverDrops ops

instance decidableNeverDrops : ∀ (b : Buffer) (ops : List Operation), Decidable (b.NeverDrops ops)
  | _, [] => .isTrue trivial
  | b, op :: ops =>
    have := decidableNeverDrops (b.perform op) ops
    inferInstanceAs (Decidable (¬ b.Drops op ∧ (b.perform op).NeverDrops ops))

namespace Chained

variable {base : Text} {n : Nat} {b : Buffer}

lemma of_eq (h : b.Chained base n) {b' : Buffer} (htext : b'.text = b.text)
    (hhistory : b'.history = b.history) : b'.Chained base n := by
  obtain ⟨hleads, hfollows, hcapacity, hlength⟩ := h
  rw [← htext] at hleads hfollows
  rw [← hhistory] at hleads hfollows hcapacity hlength
  exact ⟨hleads, hfollows, hcapacity, hlength⟩

/-- A recorded edit whose steps lead to the text gives a chain. -/
lemma of_record {e : Edit} {mode : UndoMode} {now : Nat} {b' : Buffer}
    (hhistory : b'.history = b.history.record e mode now) (hcapacity : b.history.capacity = n)
    (hleads : StepsLead (b.history.record e mode now).undoSteps base b'.text)
    (hlength : (b.history.record e mode now).undoSteps.length ≤ n) : b'.Chained base n := by
  have hredo := b.history.redoSteps_record e mode now
  refine ⟨?_, ?_, ?_, ?_⟩
  · rw [hhistory]
    exact hleads
  · rw [hhistory, hredo]
    exact .nil _
  · rw [hhistory, History.capacity_record]
    exact hcapacity
  · rw [hhistory, hredo]
    exact hlength

/-- An edit makes the chain longer. Only a lost step makes it start elsewhere. -/
lemma edited (h : b.Chained base n) {i j : Nat} (hij : i ≤ j) (hj : j ≤ b.text.length) (t : Text)
    (mode : UndoMode) :
    ∃ base', (b.edited i j t mode).Chained base' n ∧
      (¬ (b.edited i j t mode).history.undoSteps.length <
        (b.roomy.edited i j t mode).history.undoSteps.length → base' = base) := by
  have hedit := Edit.Leads.of_splice hij hj t
  by_cases hempty : (b.text.slice i j).isEmpty && t.isEmpty
  · -- nothing is removed and nothing inserted: text and history are as before
    have htext : (b.edited i j t mode).text = b.text := by
      simp only [Bool.and_eq_true, List.isEmpty_iff] at hempty
      obtain ⟨front, back, -, hold, hnew⟩ := hedit
      show b.text.splice i j t = b.text
      rw [hnew, hold, hempty.1, hempty.2]
    exact ⟨base, h.of_eq htext (if_pos hempty), fun _ => rfl⟩
  · generalize he : (⟨i, b.text.slice i j, t⟩ : Edit) = e at hedit
    have hhistory : (b.edited i j t mode).history = b.history.record e mode b.clock := by
      rw [← he]
      exact if_neg hempty
    have hroomy : (b.roomy.edited i j t mode).history.undoSteps =
        b.history.recorded e mode b.clock := by
      rw [← he]
      exact congrArg History.undoSteps (if_neg hempty)
    have hcapacity := h.capacity_eq
    have hle := h.undoSteps_le
    have hsteps := History.undoSteps_record e mode b.clock hle
    have hlonger := h.leads.recorded hedit mode b.clock
    have hone := b.history.length_recorded_le e mode b.clock
    rw [hroomy, hhistory]
    split at hsteps
    · -- the oldest step is dropped and the chain starts one step later
      obtain ⟨base', hlater⟩ := hlonger.dropLast
      rw [← hsteps] at hlater
      have hshorter := congrArg List.length hsteps
      rw [List.length_dropLast] at hshorter
      refine ⟨base', of_record hhistory hcapacity hlater (by omega), ?_⟩
      intro hkept
      omega
    · rw [← hsteps] at hlonger
      exact ⟨base, of_record hhistory hcapacity hlonger (by rw [hsteps]; omega), fun _ => rfl⟩

/-- Replacing keeps the history a chain. -/
lemma perform_replace (h : b.Chained base n) (r : Range) (t : Text) (mode : UndoMode) :
    ∃ base', (b.perform (.replace r t mode)).Chained base' n ∧
      (¬ b.Drops (.replace r t mode) → base' = base) := by
  by_cases hrange : b.text.offsetOf r.stop < b.text.offsetOf r.start
  · rw [Buffer.perform_replace, if_pos hrange]
    exact ⟨base, h, fun _ => rfl⟩
  · have hstop := b.text.offsetOf_le_length r.stop
    rw [Drops, Buffer.perform_replace, Buffer.perform_replace, if_neg hrange]
    rw [if_neg (show ¬ b.roomy.text.offsetOf r.stop < b.roomy.text.offsetOf r.start from hrange)]
    exact h.edited (Nat.le_of_not_lt hrange) hstop t mode

/-- Undo keeps the history a chain. -/
lemma perform_undo (h : b.Chained base n) : (b.perform .undo).Chained base n := by
  cases hsteps : b.history.undoSteps with
  | nil =>
    rw [perform, apply, undo_of_nil hsteps]
    exact h
  | cons last earlier =>
    obtain ⟨b', hundo, -, hb', -⟩ := h.exists_undo hsteps
    rw [perform, apply, hundo]
    exact hb'

lemma perform_redo (h : b.Chained base n) : (b.perform .redo).Chained base n := by
  cases hsteps : b.history.redoSteps with
  | nil =>
    rw [perform, apply, redo_of_nil hsteps]
    exact h
  | cons next later =>
    obtain ⟨b', hredo, -, hb'⟩ := h.exists_redo hsteps
    rw [perform, apply, hredo]
    exact hb'

/-- Every operation keeps the chain, and its start unless a step is lost. -/
lemma perform (h : b.Chained base n) (op : Operation) :
    ∃ base', (b.perform op).Chained base' n ∧ (¬ b.Drops op → base' = base) := by
  cases op with
  | replace r t mode => exact h.perform_replace r t mode
  | insert p t => exact h.perform_replace (.point p) t .record
  | delete r => exact h.perform_replace r [] .record
  | undo => exact ⟨base, h.perform_undo, fun _ => rfl⟩
  | redo => exact ⟨base, h.perform_redo, fun _ => rfl⟩
  | mark r => exact ⟨base, h.of_eq rfl rfl, fun _ => rfl⟩
  | unmark id => exact ⟨base, h.of_eq rfl rfl, fun _ => rfl⟩
  | advance milliseconds => exact ⟨base, h.of_eq rfl rfl, fun _ => rfl⟩

/-- Every run of operations keeps the history a chain. -/
lemma run (h : b.Chained base n) (ops : List Operation) :
    ∃ base', (b.run ops).Chained base' n ∧ (b.NeverDrops ops → base' = base) := by
  induction ops generalizing b base with
  | nil => exact ⟨base, h, fun _ => rfl⟩
  | cons op ops ih =>
    obtain ⟨base', hstep, hkept⟩ := h.perform op
    obtain ⟨base'', hrun, hkept'⟩ := ih hstep
    refine ⟨base'', hrun, ?_⟩
    -- the first operation keeps the start of the chain, and so do the others
    intro hnever
    rw [hkept' hnever.2, hkept hnever.1]

end Chained

/-! ## Going back and forth -/

/-- So many steps are undone one after the other, all inside the text. -/
inductive Undone : Nat → Buffer → Buffer → Prop where
  | zero (b : Buffer) : Undone 0 b b
  | succ {k : Nat} {b b' b'' : Buffer} (hundo : b.undo = .ok b') (hinside : b.UndoesInside)
      (h : Undone k b' b'') : Undone (k + 1) b b''

/-- So many steps are redone one after the other, all inside the text. -/
inductive Redone : Nat → Buffer → Buffer → Prop where
  | zero (b : Buffer) : Redone 0 b b
  | succ {k : Nat} {b b' b'' : Buffer} (h : Redone k b b') (hredo : b'.redo = .ok b'')
      (hinside : b'.RedoesInside) : Redone (k + 1) b b''

/-- The same edits can be undone and redone, in the same steps. -/
def SameSteps (b b' : Buffer) : Prop :=
  b.history.undoSteps.map Step.edits = b'.history.undoSteps.map Step.edits ∧
    b.history.redoSteps.map Step.edits = b'.history.redoSteps.map Step.edits

/-- What was undone can be redone, up to the same text and steps. -/
lemma Chained.exists_undone {base : Text} {n k : Nat} :
    ∀ {b : Buffer}, b.Chained base n → k ≤ b.history.undoSteps.length →
    ∃ b', Undone k b b' ∧ b'.Chained base n ∧
      b'.history.undoSteps.length + k = b.history.undoSteps.length ∧
      ∃ b'', Redone k b' b'' ∧ b''.text = b.text ∧ b''.SameSteps b := by
  induction k with
  | zero => exact fun {b} h _ => ⟨b, .zero b, h, rfl, b, .zero b, rfl, rfl, rfl⟩
  | succ k ih =>
    intro b h hk
    obtain ⟨last, earlier, hsteps⟩ := List.exists_cons_of_length_pos (Nat.lt_of_lt_of_le
      (Nat.succ_pos k) hk)
    -- one step back, and then there and back again from where that leads
    obtain ⟨b₁, hundo, hinside, h₁, hlast, hundoSteps, hredoSteps⟩ := h.exists_undo hsteps
    rw [hsteps, List.length_cons] at hk
    obtain ⟨b', hback, h', hleft, b₂, hforth, htext, hsame⟩ := ih h₁ (by rw [hundoSteps]; omega)
    refine ⟨b', .succ hundo hinside hback, h', ?_, ?_⟩
    · rw [hsteps, List.length_cons, ← hundoSteps]
      omega
    · -- the step undone first is the one left to redo
      obtain ⟨hsameUndo, hsameRedo⟩ := hsame
      rw [hredoSteps, List.map_cons, List.map_eq_cons_iff] at hsameRedo
      obtain ⟨next, later, hnext, hedits, hlater⟩ := hsameRedo
      have hlead : EditsLead next.edits b₂.text b.text := by
        rw [hedits, htext]
        exact hlast
      obtain ⟨b'', hredo, hinside', htext', hhistory⟩ := Buffer.exists_redo hnext hlead
      refine ⟨b'', .succ hforth hredo hinside', htext', ?_, ?_⟩
      · rw [hhistory, hsteps, List.map_cons, List.map_cons, hsameUndo, hundoSteps, hedits]
      · rw [hhistory, hlater]

/-- A buffer with a text and no past that keeps so many steps. -/
def fresh (t : Text) (n : Nat) : Buffer := { text := t, history := { capacity := n } }

lemma chained_fresh (t : Text) (n : Nat) : (fresh t n).Chained t n :=
  ⟨.nil t, .nil t, rfl, Nat.zero_le n⟩

/-- After every run, undone steps can be redone to the same text and the same steps, all inside
the text; no more steps are kept than there is room for; and if none was lost, undoing all of them
comes back to the first text. -/
theorem run_undo_redo (t : Text) (n : Nat) (ops : List Operation) :
    let b := (fresh t n).run ops
    (∀ k ≤ b.history.undoSteps.length, ∃ b' b'',
      Undone k b b' ∧ Redone k b' b'' ∧ b''.text = b.text ∧ b''.SameSteps b) ∧
    b.history.undoSteps.length + b.history.redoSteps.length ≤ n ∧
    ((fresh t n).NeverDrops ops → ∃ b',
      Undone b.history.undoSteps.length b b' ∧ b'.undo = .error .nothingToUndo ∧ b'.text = t) := by
  intro b
  obtain ⟨base, hrun, hbase⟩ := (chained_fresh t n).run ops
  refine ⟨?_, hrun.length_le, ?_⟩
  · intro k hk
    obtain ⟨b', hback, -, -, b'', hforth, htext, hsame⟩ := hrun.exists_undone hk
    exact ⟨b', b'', hback, hforth, htext, hsame⟩
  · intro hnever
    obtain ⟨b', hback, hb', hleft, -⟩ := hrun.exists_undone (Nat.le_refl _)
    have hnil : b'.history.undoSteps = [] := List.eq_nil_of_length_eq_zero (by omega)
    -- a chain of no steps leads from its start to itself
    have hleads := hb'.leads
    rw [hnil, hbase hnever] at hleads
    cases hleads with
    | nil => exact ⟨b', hback, undo_of_nil hnil, rfl⟩

/-- Typing, a pause, a deletion with an edit merged into it, which are undone and redone. -/
def sampleRun : List Operation :=
  [.insert ⟨0, 2⟩ "c".toList, .insert ⟨0, 3⟩ "d".toList, .advance 500, .delete ⟨⟨0, 0⟩, ⟨0, 1⟩⟩,
    .replace ⟨⟨0, 1⟩, ⟨0, 2⟩⟩ "x\ny".toList .merge, .undo, .redo]

theorem run_undo_redo_sampleRun :
    let b := (fresh "ab".toList 2).run sampleRun
    b.history.undoSteps.length = 2 ∧ (fresh "ab".toList 2).NeverDrops sampleRun ∧
    (∃ b' b'', Undone 2 b b' ∧ Redone 2 b' b'' ∧ b''.text = "bx\nyd".toList ∧ b''.SameSteps b) ∧
    ∃ b', Undone 2 b b' ∧ b'.undo = .error .nothingToUndo ∧ b'.text = "ab".toList := by
  intro b
  have hlength : b.history.undoSteps.length = 2 := by decide
  have hnever : (fresh "ab".toList 2).NeverDrops sampleRun := by decide
  have htext : b.text = "bx\nyd".toList := by decide
  have h := run_undo_redo "ab".toList 2 sampleRun
  exact ⟨hlength, hnever, htext ▸ h.1 2 (Nat.le_of_eq hlength.symm), hlength ▸ h.2.2 hnever⟩

end Buffer

end TemplateEditing
