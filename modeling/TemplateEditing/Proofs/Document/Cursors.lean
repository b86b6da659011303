import TemplateEditing.Proofs.Document.Sound

/-!
# The cursors of a document

Where the line feed is the only row terminator, a caret goes to a place of the new text, and carets
keep their order (`Change.moveCaret_le_moveCaret`). So the cursors of a document are in reading
order and in the text, whatever is done to it (`Document.run_cursors`), and the search for the place
of a new one finds it (`CursorList.Ordered.add?`).
-/

namespace TemplateEditing

open List

variable {p q : Position}

namespace Position

lemma compare_eq_lt : p.compare q = .lt ↔ p < q := by
  unfold compare
  split
  · exact iff_of_true rfl ‹_›
  · split
    · exact iff_of_false (by decide) ‹_›
    · exact iff_of_false (by decide) ‹_›

lemma compare_eq_eq : p.compare q = .eq ↔ p = q := by
  unfold compare
  split
  · next hlt =>
    refine iff_of_false (by decide) ?_
    rintro rfl
    exact lt_irrefl p hlt
  · split
    · exact iff_of_true rfl ‹_›
    · exact iff_of_false (by decide) ‹_›

lemma compare_eq_gt : p.compare q = .gt ↔ q < p := by
  unfold compare
  split
  · next hlt => exact iff_of_false (by decide) fun hgt => not_le.2 hlt (le_of_lt hgt)
  · next hge =>
    split
    · next heq =>
      refine iff_of_false (by decide) ?_
      rw [heq]
      exact lt_irrefl q
    · next hne =>
      exact iff_of_true rfl (not_le.1 fun hle => hne (le_antisymm hle (not_lt.1 hge)))

end Position

/-- Carets keep their order. -/
lemma Change.moveCaret_le_moveCaret {t inserted : Text} (ht : t.OnlyLineFeeds)
    (hinserted : inserted.OnlyLineFeeds) {i j : Nat} (hij : i ≤ j) (hj : j ≤ t.length)
    (hp : t.HasPlace p) (hq : t.HasPlace q) (hpq : p ≤ q) :
    (ofOffsets t i j inserted).moveCaret p ≤ (ofOffsets t i j inserted).moveCaret q := by
  obtain ⟨a, ha, rfl⟩ := hp
  obtain ⟨b, hb, rfl⟩ := hq
  have hab := (Text.positionOf_le_iff ht ha hb).1 hpq
  have hlength : (t.splice i j inserted).length = _ := Text.length_splice hij hj
  rw [moveCaret_positionOf ht hinserted hij hj ha, moveCaret_positionOf ht hinserted hij hj hb]
  refine (Text.positionOf_le_iff (ht.splice hinserted i j) ?_ ?_).2
    (Offset.moveCaret_le_moveCaret hij hab _)
  · rw [hlength]
    exact Offset.moveCaret_le hij hj ha _
  · rw [hlength]
    exact Offset.moveCaret_le hij hj hb _

namespace CursorList

/-! ## Cursors in order -/

/-- The cursors are in reading order. -/
def Ordered (cs : CursorList) : Prop := cs.cursors.Pairwise fun a b => a.position ≤ b.position

lemma ordered_singleton (c : Cursor) (k : Nat) : Ordered ⟨[c], k⟩ := pairwise_singleton _ _

/-- Only where the carets are matters. -/
lemma ordered_iff {cs : CursorList} :
    cs.Ordered ↔ (cs.cursors.map Cursor.position).Pairwise (· ≤ ·) := pairwise_map.symm

namespace Ordered

variable {cs : CursorList} (h : cs.Ordered)

include h

lemma of_positions {cs' : CursorList}
    (hsame : cs'.cursors.map Cursor.position = cs.cursors.map Cursor.position) : cs'.Ordered := by
  rw [ordered_iff, hsame]
  exact ordered_iff.1 h

lemma map_clear : (cs.map Cursor.clear).Ordered := by
  refine h.of_positions ?_
  rw [map, map_map]
  rfl

lemma mapPrimary_clear : (cs.mapPrimary Cursor.clear).Ordered := by
  refine h.of_positions (ext_getElem? fun k => ?_)
  rw [mapPrimary, getElem?_map, getElem?_map, getElem?_modify]
  cases cs.cursors[k]? with
  | none => rfl
  | some c =>
    show some (if _ then c.clear else c).position = some c.position
    split <;> rfl

lemma follow {t inserted : Text} (ht : t.OnlyLineFeeds) (hinserted : inserted.OnlyLineFeeds)
    {i j : Nat} (hij : i ≤ j) (hj : j ≤ t.length) (hlies : cs.Lies t) :
    (cs.follow (.ofOffsets t i j inserted)).Ordered := by
  refine pairwise_map.2 (h.imp_of_mem fun {a b} ha hb hab => ?_)
  exact Change.moveCaret_le_moveCaret ht hinserted hij hj (hlies.cursors a ha).position
    (hlies.cursors b hb).position hab

/-! ## Cursors that are added -/

/-- Cursors in reading order are in order for a search. -/
lemma sortedFor (p : Position) : SortedFor (fun c => c.position.compare p) cs.cursors := by
  refine h.imp fun {a b} hab => ?_
  dsimp only
  rw [Position.compare_eq_lt, Position.compare_eq_lt, Position.compare_eq_gt,
    Position.compare_eq_gt]
  refine ⟨fun hlt => ?_, fun hlt => ?_⟩
  · exact Position.not_le.1 fun hle => Position.not_le.2 hlt (Position.le_trans hle hab)
  · exact Position.not_le.1 fun hle => Position.not_le.2 hlt (Position.le_trans hab hle)

/-- The search for a position finds it exactly if a caret is there. -/
lemma exists_found_iff (p : Position) :
    (∃ k, bisect (fun c => c.position.compare p) cs.cursors = .found k) ↔
      ∃ c ∈ cs.cursors, c.position = p := by
  rcases (h.sortedFor p).bisect_cases with ⟨k, c, hfound, hc, heq⟩ |
    ⟨front, back, hsplit, hgap, hfront, hback⟩
  · exact iff_of_true ⟨k, hfound⟩ ⟨c, mem_of_getElem? hc, Position.compare_eq_eq.1 heq⟩
  · refine iff_of_false ?_ ?_
    · rintro ⟨k, hfound⟩
      rw [hgap] at hfound
      cases hfound
    · rintro ⟨c, hc, rfl⟩
      have heq : c.position.compare c.position = .eq := Position.compare_eq_eq.2 rfl
      rw [hsplit] at hc
      rcases mem_append.1 hc with hc | hc
      · have hother := hfront c hc
        rw [heq] at hother
        cases hother
      · have hother := hback c hc
        rw [heq] at hother
        cases hother

lemma insertIdx {front back : List Cursor} {p : Position} (hsplit : cs.cursors = front ++ back)
    (hfront : ∀ c ∈ front, c.position ≤ p) (hback : ∀ c ∈ back, p ≤ c.position) (k : Nat) :
    Ordered ⟨cs.cursors.insertIdx front.length (.caret p), k⟩ := by
  have hinsert : ∀ front : List Cursor,
      (front ++ back).insertIdx front.length (.caret p) = front ++ .caret p :: back := by
    intro front
    induction front with
    | nil => rfl
    | cons c front ih => exact congrArg (List.cons c) ih
  have hordered := h
  rw [Ordered, hsplit, pairwise_append] at hordered
  obtain ⟨hordered, hordered', hcross⟩ := hordered
  rw [hsplit, hinsert]
  refine pairwise_append.2 ⟨hordered, pairwise_cons.2 ⟨hback, hordered'⟩, ?_⟩
  intro a ha b hb
  rcases mem_cons.1 hb with rfl | hb
  · exact hfront a ha
  · exact hcross a ha b hb

/-- A cursor that is added comes where it keeps the order. -/
lemma add? {p : Position} {cs' : CursorList} (hadd : cs.add? p = some cs') : cs'.Ordered := by
  unfold CursorList.add? at hadd
  rcases (h.sortedFor p).bisect_cases with ⟨k, c, hfound, hc, heq⟩ |
    ⟨front, back, hsplit, hgap, hfront, hback⟩
  · rw [hfound] at hadd
    -- it comes before the one that is there already
    obtain ⟨hk, rfl⟩ := List.getElem?_eq_some_iff.1 hc
    have hsplit : cs.cursors = cs.cursors.take k ++ cs.cursors[k] :: cs.cursors.drop (k + 1) := by
      rw [← drop_eq_getElem_cons hk, take_append_drop]
    have hlength : (cs.cursors.take k).length = k := by
      rw [length_take]
      omega
    have hposition := Position.compare_eq_eq.1 heq
    have hordered := h
    rw [Ordered, hsplit, pairwise_append] at hordered
    obtain ⟨-, hordered', hcross⟩ := hordered
    have hinsert := h.insertIdx hsplit
      (fun a ha => hposition ▸ hcross a ha _ mem_cons_self)
      (fun b hb => by
        rcases mem_cons.1 hb with rfl | hb
        · rw [hposition]
          exact Position.le_refl p
        · exact hposition ▸ (pairwise_cons.1 hordered').1 b hb) k
    rw [hlength] at hinsert
    dsimp only at hadd
    split at hadd
    · cases hadd
    · cases hadd
      exact hinsert
  · rw [hgap] at hadd
    cases hadd
    exact h.insertIdx hsplit
      (fun c hc => Position.le_of_lt (Position.compare_eq_lt.1 (hfront c hc)))
      (fun c hc => Position.le_of_lt (Position.compare_eq_gt.1 (hback c hc))) _

end Ordered

end CursorList

namespace Document

/-! ## What is done to a document -/

/-- What is done to a document. -/
inductive Operation where
  | setCursor (p : Position)
  | addCursor (p : Position)
  | select (r : Range)
  | type (typed : Text)
  | backspace
  | replace (r : Range) (inserted : Text) (mode : UndoMode)
  | undo
  | redo
  | setGrammar (g : Grammar)
  /-- Time passes. -/
  | wait (milliseconds : Nat)

/-- The text that an operation brings in. -/
def Operation.inserted : Operation → Text
  | .type typed => typed
  | .replace _ inserted _ => inserted
  | _ => []

/-- Tries an operation. -/
def apply (d : Document) : Operation → Except BufferError Document
  | .setCursor p => .ok (d.setCursor p)
  | .addCursor p => .ok ((d.addCursor? p).getD d)
  | .select r => .ok (d.select r)
  | .type typed => d.type typed
  | .backspace => d.backspace
  | .replace r inserted mode => (·.2) <$> d.replace r inserted mode
  | .undo => d.undo
  | .redo => d.redo
  | .setGrammar g => .ok (d.setGrammar g)
  | .wait milliseconds => .ok { d with buffer := d.buffer.advance milliseconds }

/-- Performs an operation. One that is refused changes nothing. -/
def perform (d : Document) (op : Operation) : Document := (d.apply op).toOption.getD d

/-- Performs operations one after the other. -/
def run (d : Document) (ops : List Operation) : Document := ops.foldl perform d

/-- How there comes to be a document. -/
inductive Opened : Document → Prop where
  | ofText (g : Grammar) (t : Text) : Opened (ofText g t)
  | load {tree : FileTree} {p : Path} {d : Document} (h : Document.load tree p = .ok d) : Opened d

/-! ## What stays -/

/-- A document that is sound and has its cursors in order. -/
structure Orderly (d : Document) : Prop extends d.Sound where
  ordered : d.cursors.Ordered

lemma ordered_setCursor (d : Document) (p : Position) : (d.setCursor p).cursors.Ordered :=
  CursorList.ordered_singleton _ _

lemma ordered_select (d : Document) (r : Range) : (d.select r).cursors.Ordered :=
  CursorList.ordered_singleton _ _

/-- A step back or forth leaves one cursor, or makes no change. -/
lemma ordered_stepped {d : Document} (h : d.cursors.Ordered) (b : Buffer) :
    (d.stepped b).cursors.Ordered := by
  unfold stepped
  dsimp only
  split
  · exact ordered_setCursor _ _
  · next hnone =>
    rw [getLast?_eq_none_iff.1 hnone]
    exact h

lemma Alters.ordered {d d' : Document} (h : Alters Text.OnlyLineFeeds d d') (hd : d.Placed)
    (hordered : d.cursors.Ordered) : d'.cursors.Ordered := by
  cases h with
  | splice hij hj ht mode => exact hordered.follow hd.onlyLineFeeds ht hij hj hd.cursors
  | undo hundo => exact ordered_stepped hordered _
  | redo hredo => exact ordered_stepped hordered _
  | clearAll => exact hordered.map_clear
  | clearPrimary => exact hordered.mapPrimary_clear

namespace Orderly

variable {d d' : Document} (h : d.Orderly)

include h

/-- Every edit keeps the cursors in order. -/
lemma edited (hedited : Edited Text.OnlyLineFeeds d d') : d'.Orderly := by
  refine ⟨(hedited.sound h.toSound).1, ?_⟩
  have hkept : d'.Placed ∧ d'.cursors.Ordered := by
    refine hedited.keeps (I := fun d => d.Placed ∧ d.cursors.Ordered) ?_ ?_
      ⟨h.toPlaced, h.ordered⟩
    · rintro d d' halters ⟨hplaced, hordered⟩
      exact ⟨(halters.placed hplaced).1, halters.ordered hplaced hordered⟩
    · rintro d ⟨hplaced, hordered⟩
      exact ⟨⟨hplaced.buffer, hplaced.cursors⟩, hordered⟩
  exact hkept.2

/-- What every operation that is not refused keeps. -/
lemma apply {op : Operation} (hop : op.inserted.OnlyLineFeeds) (hd' : d.apply op = .ok d') :
    d'.Orderly := by
  cases op with
  | setCursor p =>
    cases hd'
    exact ⟨h.toSound.setCursor p, d.ordered_setCursor p⟩
  | addCursor p =>
    cases hd'
    cases hadd : d.addCursor? p with
    | none => exact h
    | some d' =>
      refine ⟨h.toSound.addCursor? hadd, ?_⟩
      obtain ⟨cursors, hcursors, rfl⟩ := Option.map_eq_some_iff.1 hadd
      exact h.ordered.add? hcursors
  | select r =>
    cases hd'
    exact ⟨h.toSound.select r, d.ordered_select r⟩
  | type typed => exact h.edited (edited_type hop hd')
  | backspace => exact h.edited (edited_backspace Text.OnlyLineFeeds.nil hd')
  | replace r inserted mode => exact h.edited (edited_replace hop hd')
  | undo => exact h.edited (edited_undo hd')
  | redo => exact h.edited (edited_redo hd')
  | setGrammar g =>
    cases hd'
    exact ⟨h.toSound.setGrammar g, h.ordered⟩
  | wait milliseconds =>
    cases hd'
    exact ⟨h.toSound.advance milliseconds, h.ordered⟩

lemma perform {op : Operation} (hop : op.inserted.OnlyLineFeeds) : (d.perform op).Orderly := by
  unfold Document.perform
  cases hd' : d.apply op with
  | error e => exact h
  | ok d' => exact h.apply hop hd'

lemma run {ops : List Operation} (hops : ∀ op ∈ ops, op.inserted.OnlyLineFeeds) :
    (d.run ops).Orderly := by
  induction ops generalizing d with
  | nil => exact h
  | cons op ops ih =>
    exact ih (h.perform (hops op mem_cons_self)) fun op' hop' =>
      hops op' (mem_cons_of_mem op hop')

end Orderly

lemma Opened.orderly {d : Document} (h : d.Opened) (honly : d.text.OnlyLineFeeds) : d.Orderly := by
  cases h with
  | ofText g t => exact ⟨sound_ofText g honly, CursorList.ordered_singleton _ _⟩
  | load hload =>
    rename_i tree p
    unfold Document.load Buffer.load at hload
    cases hread : tree.read p with
    | error e =>
      rw [hread] at hload
      cases hload
    | ok content =>
      rw [hread] at hload
      cases hload
      exact ⟨(sound_ofText _ honly).filed _ _ _, CursorList.ordered_singleton _ _⟩

/-- Whatever is done to a document, it has cursors, one of them the primary one; they are in reading
order, so that a search finds a caret exactly where one is; and carets and anchors are positions of
the text. -/
theorem run_cursors (d : Document) (hopened : d.Opened) (honly : d.text.OnlyLineFeeds)
    (ops : List Operation) (hops : ∀ op ∈ ops, op.inserted.OnlyLineFeeds) :
    let d' := d.run ops
    d'.cursors.cursors ≠ [] ∧ d'.cursors.primaryIndex < d'.cursors.cursors.length ∧
      (d'.cursors.cursors.map Cursor.position).Pairwise (· ≤ ·) ∧
      (∀ p, (∃ k, bisect (fun c => c.position.compare p) d'.cursors.cursors = .found k) ↔
        ∃ c ∈ d'.cursors.cursors, c.position = p) ∧
      ∀ c ∈ d'.cursors.cursors, d'.text.clip c.position = c.position ∧
        ∀ a, c.anchor = some a → d'.text.clip a = a := by
  intro d'
  have h : d'.Orderly := (hopened.orderly honly).run hops
  have hprimary := h.cursors.primary_lt
  refine ⟨ne_nil_of_length_pos (by omega), hprimary, CursorList.ordered_iff.1 h.ordered,
    h.ordered.exists_found_iff, fun c hc => ?_⟩
  obtain ⟨hposition, hanchor⟩ := h.cursors.cursors c hc
  exact ⟨(Text.hasPlace_iff h.onlyLineFeeds).1 hposition, fun a ha =>
    (Text.hasPlace_iff h.onlyLineFeeds).1 (hanchor a ha)⟩

/-- A selection made backwards is replaced and comes back. Then there are three carets; two of them
come together when what lies between them goes. -/
def sampleCarets : List Operation :=
  [.select ⟨⟨1, 2⟩, ⟨0, 1⟩⟩, .type "x\ny".toList, .undo, .addCursor ⟨9, 9⟩, .addCursor ⟨0, 1⟩,
    .replace ⟨⟨0, 0⟩, ⟨0, 0⟩⟩ "x\ny".toList .merge, .replace ⟨⟨1, 2⟩, ⟨2, 2⟩⟩ [] .record,
    .backspace]

theorem run_cursors_sampleCarets :
    let d := ofText .plain "ab\ncd\nef".toList
    let d' := d.run sampleCarets
    d.text.OnlyLineFeeds ∧ (∀ op ∈ sampleCarets, op.inserted.OnlyLineFeeds) ∧
      d'.text = "x\ny\nef".toList ∧
      d'.cursors = ⟨[.caret ⟨1, 1⟩, .caret ⟨1, 1⟩, .caret ⟨2, 2⟩], 0⟩ ∧
      (d'.cursors.cursors.map Cursor.position).Pairwise (· ≤ ·) ∧
      (∀ p, (∃ k, bisect (fun c => c.position.compare p) d'.cursors.cursors = .found k) ↔
        ∃ c ∈ d'.cursors.cursors, c.position = p) ∧
      ∀ c ∈ d'.cursors.cursors, d'.text.clip c.position = c.position ∧
        ∀ a, c.anchor = some a → d'.text.clip a = a := by
  have honly : Text.OnlyLineFeeds "ab\ncd\nef".toList := by decide
  have hops : ∀ op ∈ sampleCarets, op.inserted.OnlyLineFeeds := by decide
  refine ⟨honly, hops, by decide +kernel, by decide +kernel, ?_⟩
  exact (run_cursors _ (.ofText .plain _) honly sampleCarets hops).2.2

end Document

end TemplateEditing
