import TemplateEditing.Proofs.Bisect
import TemplateEditing.Proofs.Buffer.Markers
import TemplateEditing.Proofs.Document.Edits

/-!
# Documents that stay sound

Where the line feed is the only row terminator, cursors and markers are always places of the text,
the history leads to the text, and the scopes are those of the text (`Document.Sound`). Every edit
keeps that, and moves all markers as plain arithmetic on offsets says (`Edited.sound`).
-/

namespace TemplateEditing

open List

variable {t : Text} {d : Document} {p : Position}

/-! ## Places -/

namespace Text

/-- A position is the place of an offset in the text. -/
def HasPlace (t : Text) (p : Position) : Prop := ∃ o ≤ t.length, p = t.positionOf o

lemma hasPlace_clip (ht : t.OnlyLineFeeds) (p : Position) : t.HasPlace (t.clip p) :=
  ⟨t.offsetOf p, t.offsetOf_le_length p, (positionOf_offsetOf ht p).symm⟩

/-- Only what is a place of the text is left as it is when it is brought into the text. -/
lemma hasPlace_iff (ht : t.OnlyLineFeeds) :
    t.HasPlace p ↔ t.clip p = p := by
  constructor
  · rintro ⟨o, ho, rfl⟩
    exact clip_positionOf ht ho
  · intro hclip
    rw [← hclip]
    exact hasPlace_clip ht p

lemma hasPlace_origin (ht : t.OnlyLineFeeds) : t.HasPlace .origin :=
  ⟨0, Nat.zero_le _, (positionOf_zero ht).symm⟩

end Text

lemma MarkedText.Tracks.hasPlace {p p' : MarkedText} {i j : Nat} {inserted : Text} {c : Change}
    (h : Tracks p i j inserted c p') {q : Position} (hq : p.text.HasPlace q) :
    p'.text.HasPlace (c.moveCaret q) := by
  obtain ⟨o, ho, rfl⟩ := hq
  have hle := Offset.moveCaret_le h.start_le_stop h.stop_le_length ho inserted.length
  rw [← Text.length_splice h.start_le_stop h.stop_le_length, ← h.text_eq] at hle
  exact ⟨_, hle, h.caret o ho⟩

/-! ## Cursors -/

namespace Cursor

/-- A selection goes forward. -/
lemma start_le_stop_of_selection? {c : Cursor} {r : Range} (h : c.selection? = some r) :
    r.start ≤ r.stop := by
  unfold selection? at h
  split at h
  · split at h
    · cases h
    · cases h
      exact Range.start_le_stop_ofEnds _ _
  · cases h

/-- An edit at a cursor has a range that goes forward. -/
lemma start_le_stop_editRange (c : Cursor) : c.editRange.start ≤ c.editRange.stop := by
  unfold editRange
  cases hselection : c.selection? with
  | none => exact Position.le_refl _
  | some r => exact start_le_stop_of_selection? hselection

/-- A cursor replaces what lies between caret and anchor. -/
lemma editRange_cases (c : Cursor) :
    c.editRange = .point c.position ∨
      ∃ a, c.anchor = some a ∧ (c.editRange = ⟨a, c.position⟩ ∨ c.editRange = ⟨c.position, a⟩) := by
  unfold editRange selection?
  cases c.anchor with
  | none => exact .inl rfl
  | some a =>
    dsimp only
    split
    · exact .inl rfl
    · refine .inr ⟨a, rfl, ?_⟩
      rw [Option.getD_some, Range.ofEnds]
      split
      · exact .inl rfl
      · exact .inr rfl

/-- Where both ends of what a cursor replaces are places of the text, the caret is at one of them. -/
lemma exists_offsets_editRange (ht : t.OnlyLineFeeds) {c : Cursor}
    (hstart : t.HasPlace c.editRange.start) (hstop : t.HasPlace c.editRange.stop) :
    ∃ i j o, i ≤ j ∧ j ≤ t.length ∧ c.editRange = t.rangeOf i j ∧ c.position = t.positionOf o ∧
      (o = i ∨ o = j) := by
  obtain ⟨i, hi, hstart⟩ := hstart
  obtain ⟨j, hj, hstop⟩ := hstop
  have hrange : c.editRange = t.rangeOf i j := by rw [Text.rangeOf, ← hstart, ← hstop]
  have hij : i ≤ j := by
    have hle := c.start_le_stop_editRange
    rw [hstart, hstop] at hle
    exact (Text.positionOf_le_iff ht hi hj).1 hle
  have hend : c.position = c.editRange.start ∨ c.position = c.editRange.stop := by
    rcases c.editRange_cases with hpoint | ⟨a, -, hforth | hback⟩
    · exact .inl (by rw [hpoint]; rfl)
    · exact .inr (by rw [hforth])
    · exact .inl (by rw [hback])
  rcases hend with hposition | hposition
  · exact ⟨i, j, i, hij, hj, hrange, hposition.trans hstart, .inl rfl⟩
  · exact ⟨i, j, j, hij, hj, hrange, hposition.trans hstop, .inr rfl⟩

end Cursor

/-- Caret and anchor are places of the text. -/
structure Cursor.Lies (t : Text) (c : Cursor) : Prop where
  position : t.HasPlace c.position
  anchor : ∀ a, c.anchor = some a → t.HasPlace a

/-- What a cursor replaces lies in the text, and the caret is at one end of it. -/
lemma Cursor.Lies.exists_editRange {c : Cursor} (h : c.Lies t) (ht : t.OnlyLineFeeds) :
    ∃ i j o, i ≤ j ∧ j ≤ t.length ∧ c.editRange = t.rangeOf i j ∧ c.position = t.positionOf o ∧
      (o = i ∨ o = j) := by
  have hends : t.HasPlace c.editRange.start ∧ t.HasPlace c.editRange.stop := by
    rcases c.editRange_cases with hpoint | ⟨a, ha, hforth | hback⟩
    · rw [hpoint]
      exact ⟨h.position, h.position⟩
    · rw [hforth]
      exact ⟨h.anchor a ha, h.position⟩
    · rw [hback]
      exact ⟨h.position, h.anchor a ha⟩
  exact exists_offsets_editRange ht hends.1 hends.2

namespace CursorList

/-- All cursors lie in the text, and one of them is the primary one. -/
structure Lies (t : Text) (cs : CursorList) : Prop where
  cursors : ∀ c ∈ cs.cursors, c.Lies t
  primary_lt : cs.primaryIndex < cs.cursors.length

lemma lies_caret (h : t.HasPlace p) : Lies t ⟨[.caret p], 0⟩ :=
  ⟨forall_mem_singleton.2 ⟨h, fun _ ha => by cases ha⟩, Nat.one_pos⟩

namespace Lies

variable {t t' : Text} {cs : CursorList} (h : cs.Lies t)

include h

lemma primary : cs.primary.Lies t := by
  rw [CursorList.primary, getElem?_eq_getElem h.primary_lt]
  exact h.cursors _ (getElem_mem h.primary_lt)

/-- Cursors that follow a change lie in the changed text. -/
lemma follow {c : Change} (hc : ∀ {p}, t.HasPlace p → t'.HasPlace (c.moveCaret p)) :
    (cs.follow c).Lies t' := by
  refine ⟨?_, ?_⟩
  · intro cursor hcursor
    obtain ⟨old, hold, rfl⟩ := mem_map.1 hcursor
    obtain ⟨hposition, hanchor⟩ := h.cursors old hold
    refine ⟨hc hposition, ?_⟩
    intro a ha
    obtain ⟨before, hbefore, rfl⟩ := Option.map_eq_some_iff.1 ha
    exact hc (hanchor before hbefore)
  · show cs.primaryIndex < (cs.cursors.map _).length
    rw [length_map]
    exact h.primary_lt

lemma map_clear : (cs.map Cursor.clear).Lies t := by
  refine ⟨?_, ?_⟩
  · intro cursor hcursor
    obtain ⟨old, hold, rfl⟩ := mem_map.1 hcursor
    exact ⟨(h.cursors old hold).position, fun _ ha => by cases ha⟩
  · show cs.primaryIndex < (cs.cursors.map _).length
    rw [length_map]
    exact h.primary_lt

lemma mapPrimary {f : Cursor → Cursor} (hf : ∀ c, c.Lies t → (f c).Lies t) :
    (cs.mapPrimary f).Lies t := by
  refine ⟨?_, ?_⟩
  · intro cursor hcursor
    obtain ⟨index, hindex⟩ := mem_iff_getElem?.1 hcursor
    rw [CursorList.mapPrimary, getElem?_modify] at hindex
    obtain ⟨old, hold, rfl⟩ := Option.map_eq_some_iff.1 hindex
    have hlies := h.cursors old (mem_of_getElem? hold)
    split
    · exact hf old hlies
    · exact hlies
  · show cs.primaryIndex < (cs.cursors.modify _ _).length
    rw [length_modify]
    exact h.primary_lt

/-- A cursor added at a place of the text lies in it. -/
lemma add? (hp : t.HasPlace p) {cs' : CursorList} (hadd : cs.add? p = some cs') :
    cs'.Lies t := by
  -- wherever the search ends, that is an index of the list or right behind it
  have hinsert : ∀ index ≤ cs.cursors.length,
      Lies t ⟨cs.cursors.insertIdx index (.caret p), index⟩ := by
    intro index hindex
    refine ⟨?_, ?_⟩
    · intro cursor hcursor
      rcases (mem_insertIdx hindex).1 hcursor with rfl | hold
      · exact ⟨hp, fun _ ha => by cases ha⟩
      · exact h.cursors cursor hold
    · show index < (cs.cursors.insertIdx index _).length
      rw [length_insertIdx_of_le_length hindex]
      omega
  unfold CursorList.add? at hadd
  cases hslot : bisect (fun c => c.position.compare p) cs.cursors with
  | gap index =>
    rw [hslot] at hadd
    cases hadd
    exact hinsert index (bisect_gap_le hslot)
  | found index =>
    rw [hslot] at hadd
    have hindex := Nat.le_of_lt (bisect_found_lt hslot)
    dsimp only at hadd
    split at hadd
    · cases hadd
    · cases hadd
      exact hinsert index hindex

end Lies

end CursorList

/-! ## Edits that can be followed -/

namespace MarkedText

lemma TracksAll.append {p p' p'' : MarkedText} {edits edits' : List Edit}
    {changes changes' : List Change} (h : TracksAll p edits changes p')
    (h' : TracksAll p' edits' changes' p'') :
    TracksAll p (edits ++ edits') (changes ++ changes') p'' := by
  induction h with
  | nil => exact h'
  | cons hfirst _ ih => exact .cons hfirst (ih h')

/-- Where no change is made known, nothing has changed. -/
lemma TracksAll.eq_of_nil {p p' : MarkedText} {edits : List Edit} (h : TracksAll p edits [] p') :
    p' = p := by
  cases h
  rfl

/-- Cursors that follow all changes lie in the last text. -/
lemma TracksAll.lies {p p' : MarkedText} {edits : List Edit} {changes : List Change}
    (h : TracksAll p edits changes p') {cs : CursorList} (hcs : cs.Lies p.text) :
    (changes.foldl CursorList.follow cs).Lies p'.text := by
  induction h generalizing cs with
  | nil => exact hcs
  | cons hfirst _ ih => exact ih (hcs.follow hfirst.hasPlace)

end MarkedText

namespace Buffer

/-- The buffer comes from another one by edits, all of which can be followed. -/
def Tracked (b b' : Buffer) : Prop :=
  ∃ edits changes, MarkedText.TracksAll b.marked edits changes b'.marked ∧
    (∀ e ∈ edits, e.inserted.OnlyLineFeeds) ∧ b'.pending = b.pending ++ changes

namespace Tracked

lemma refl (b : Buffer) : b.Tracked b :=
  ⟨[], [], .nil _, fun _ he => absurd he not_mem_nil, (append_nil _).symm⟩

lemma trans {b b' b'' : Buffer} (h : b.Tracked b') (h' : b'.Tracked b'') : b.Tracked b'' := by
  obtain ⟨edits, changes, htracks, honly, hpending⟩ := h
  obtain ⟨edits', changes', htracks', honly', hpending'⟩ := h'
  refine ⟨_, _, htracks.append htracks', ?_, ?_⟩
  · intro e he
    rcases mem_append.1 he with he | he
    · exact honly e he
    · exact honly' e he
  · rw [hpending', hpending, append_assoc]

end Tracked

namespace Tidy

variable {b : Buffer} (h : b.Tidy) {edits : List Edit} {history : History}

include h

/-- The edits that undo takes back break rows by line feeds only. -/
lemma onlyLineFeeds_undo? (hnext : b.history.undo? = some (edits, history)) :
    ∀ e ∈ edits, e.OnlyLineFeeds := by
  cases hsteps : b.history.undoSteps with
  | nil =>
    rw [History.undo?, hsteps] at hnext
    cases hnext
  | cons last earlier =>
    rw [History.undo?, hsteps] at hnext
    cases hnext
    intro e he
    refine h.undoSteps last ?_ e (mem_reverse.1 he)
    rw [hsteps]
    exact mem_cons_self

lemma onlyLineFeeds_redo? (hnext : b.history.redo? = some (edits, history)) :
    ∀ e ∈ edits, e.OnlyLineFeeds := by
  cases hsteps : b.history.redoSteps with
  | nil =>
    rw [History.redo?, hsteps] at hnext
    cases hnext
  | cons next later =>
    rw [History.redo?, hsteps] at hnext
    cases hnext
    intro e he
    refine h.redoSteps next ?_ e (mem_reverse.1 he)
    rw [hsteps]
    exact mem_cons_self

end Tidy

/-- The line feed is the only row terminator, markers are places of the text, and the history leads
to the text and may keep a step. -/
structure Sound (b : Buffer) : Prop where
  tidy : b.Tidy
  chained : ∃ base n, 0 < n ∧ b.Chained base n

namespace Sound

variable {b b' : Buffer} (h : b.Sound)

include h

/-- An edit keeps a buffer sound. -/
lemma edited {i j : Nat} (hij : i ≤ j) (hj : j ≤ b.text.length) (ht : t.OnlyLineFeeds)
    (mode : UndoMode) : (b.edited i j t mode).Sound := by
  obtain ⟨base, n, hn, hchain⟩ := h.chained
  obtain ⟨base', hchain', -⟩ := hchain.edited hij hj t mode
  exact ⟨h.tidy.edited hchain hij hj ht mode, base', n, hn, hchain'⟩

/-- Undo keeps a buffer sound and its changes tracked. -/
lemma undo (hundo : b.undo = .ok b') : b'.Sound ∧ b.Tracked b' := by
  obtain ⟨base, n, hn, hchain⟩ := h.chained
  cases hnext : b.history.undo? with
  | none =>
    rw [Buffer.undo, hnext] at hundo
    cases hundo
  | some next =>
    obtain ⟨b₁, changes, hb₁, htidy, htracks, hpending⟩ := h.tidy.exists_undo hchain hnext
    have hperform := hchain.perform_undo
    rw [Buffer.perform, Buffer.apply, hundo] at hperform
    rw [hundo] at hb₁
    cases hb₁
    refine ⟨⟨htidy, base, n, hn, hperform⟩, _, changes, htracks, ?_, hpending⟩
    intro e he
    obtain ⟨made, hmade, rfl⟩ := mem_map.1 he
    exact (h.tidy.onlyLineFeeds_undo? hnext made (mem_reverse.1 hmade)).1

/-- Redo keeps a buffer sound and its changes tracked. -/
lemma redo (hredo : b.redo = .ok b') : b'.Sound ∧ b.Tracked b' := by
  obtain ⟨base, n, hn, hchain⟩ := h.chained
  cases hnext : b.history.redo? with
  | none =>
    rw [Buffer.redo, hnext] at hredo
    cases hredo
  | some next =>
    obtain ⟨b₁, changes, hb₁, htidy, htracks, hpending⟩ := h.tidy.exists_redo hchain hnext
    have hperform := hchain.perform_redo
    rw [Buffer.perform, Buffer.apply, hredo] at hperform
    rw [hredo] at hb₁
    cases hb₁
    refine ⟨⟨htidy, base, n, hn, hperform⟩, _, changes, htracks, ?_, hpending⟩
    exact fun e he => (h.tidy.onlyLineFeeds_redo? hnext e he).2

lemma mark (r : Range) : (b.mark r).2.Sound := by
  obtain ⟨base, n, hn, hchain⟩ := h.chained
  exact ⟨h.tidy.mark r, base, n, hn, hchain.of_eq rfl rfl⟩

lemma unmark (id : MarkerId) : (b.unmark id).Sound := by
  obtain ⟨base, n, hn, hchain⟩ := h.chained
  exact ⟨h.tidy.unmark id, base, n, hn, hchain.of_eq rfl rfl⟩

/-- A style class moves nothing. -/
lemma decorate (id : MarkerId) (style : String) : (b.decorate id style).Sound := by
  obtain ⟨base, n, hn, hchain⟩ := h.chained
  obtain ⟨⟨honly, hrange⟩, hundo, hredo⟩ := h.tidy
  refine ⟨⟨⟨honly, ?_⟩, hundo, hredo⟩, base, n, hn, hchain.of_eq rfl rfl⟩
  intro entry hentry
  obtain ⟨old, hold, rfl⟩ := mem_map.1 hentry
  have hplace := hrange old hold
  split
  · exact hplace
  · exact hplace

/-- Neither the changes, the file nor the time matter. -/
lemma of_eq (htext : b'.text = b.text) (hhistory : b'.history = b.history)
    (hmarkers : b'.markers = b.markers) : b'.Sound := by
  obtain ⟨base, n, hn, hchain⟩ := h.chained
  obtain ⟨hmarked, hundo, hredo⟩ := h.tidy
  have hsame : b'.marked = b.marked := by rw [marked, marked, htext, hmarkers]
  rw [← hsame] at hmarked
  rw [← hhistory] at hundo hredo
  exact ⟨⟨hmarked, hundo, hredo⟩, base, n, hn, hchain.of_eq htext hhistory⟩

end Sound

end Buffer

namespace Document

/-- The buffer is sound and the cursors lie in its text. -/
structure Placed (d : Document) : Prop where
  buffer : d.buffer.Sound
  cursors : d.cursors.Lies d.text

/-- Moreover the scopes are those of the text. -/
structure Sound (d : Document) : Prop extends d.Placed where
  scopes_eq : d.scopes = d.grammar.tokenize d.text

lemma Placed.onlyLineFeeds (h : d.Placed) : d.text.OnlyLineFeeds :=
  h.buffer.tidy.marked.onlyLineFeeds

/-- A cursor that is set is clipped to a place. -/
lemma Placed.setCursor (h : d.Placed) (p : Position) : (d.setCursor p).Placed := by
  refine ⟨h.buffer, ?_⟩
  exact CursorList.lies_caret (Text.hasPlace_clip h.onlyLineFeeds p)

lemma isSingle_setCursor (d : Document) (p : Position) : (d.setCursor p).cursors.isSingle := rfl

/-- One cursor stays one cursor through a change. -/
lemma isSingle_follow {cs : CursorList} (h : cs.isSingle) (c : Change) :
    (cs.follow c).isSingle := by
  rw [CursorList.isSingle, beq_iff_eq] at h ⊢
  rw [← h]
  exact length_map _

lemma isSingle_foldl_follow {cs : CursorList} (h : cs.isSingle) (changes : List Change) :
    (changes.foldl CursorList.follow cs).isSingle := by
  induction changes generalizing cs with
  | nil => exact h
  | cons c changes ih => exact ih (isSingle_follow h c)

/-- One cursor stays one cursor through an edit. -/
lemma isSingle_stepped (h : d.cursors.isSingle) (b : Buffer) :
    (d.stepped b).cursors.isSingle := by
  unfold Document.stepped
  dsimp only
  split
  · exact isSingle_setCursor _ _
  · exact isSingle_foldl_follow h _

/-- No part of an edit adds a cursor. -/
lemma Alters.isSingle {allowed : Text → Prop} {d d' : Document} (h : Alters allowed d d')
    (hsingle : d.cursors.isSingle) : d'.cursors.isSingle := by
  cases h with
  | splice hij hj ht mode => exact isSingle_follow hsingle _
  | undo hundo => exact isSingle_stepped hsingle _
  | redo hredo => exact isSingle_stepped hsingle _
  | clearAll =>
    rw [CursorList.isSingle, CursorList.map, length_map]
    exact hsingle
  | clearPrimary =>
    rw [CursorList.isSingle, CursorList.mapPrimary, length_modify]
    exact hsingle

/-- A step back or forth carries the cursors along and leaves the primary one where it ends. -/
lemma Placed.stepped (h : d.Placed) {b : Buffer} (hb : b.Sound)
    (htracked : d.buffer.Tracked b) : (d.stepped b).Placed := by
  obtain ⟨edits, changes, htracks, -, hpending⟩ := htracked
  have hchanges : b.pending.drop d.buffer.pending.length = changes := by
    rw [hpending, drop_left]
  have hplaced : Placed { d with
      buffer := b, cursors := changes.foldl CursorList.follow d.cursors } :=
    ⟨hb, htracks.lies h.cursors⟩
  unfold Document.stepped
  rw [hchanges]
  dsimp only
  split
  · exact hplaced.setCursor _
  · exact hplaced

/-- Without a new change, the caret stays. -/
lemma caret_stepped {b : Buffer} (h : b.pending = d.buffer.pending) :
    (d.stepped b).caret = d.caret := by
  unfold Document.stepped
  rw [h, drop_length]
  rfl

lemma position_primary_map_clear (cs : CursorList) :
    (cs.map Cursor.clear).primary.position = cs.primary.position := by
  unfold CursorList.primary CursorList.map
  rw [getElem?_map]
  cases cs.cursors[cs.primaryIndex]? <;> rfl

lemma position_primary_mapPrimary_clear (cs : CursorList) :
    (cs.mapPrimary Cursor.clear).primary.position = cs.primary.position := by
  unfold CursorList.primary CursorList.mapPrimary
  rw [getElem?_modify]
  cases cs.cursors[cs.primaryIndex]? with
  | none => rfl
  | some cursor =>
    show (Option.getD (some (if cs.primaryIndex = cs.primaryIndex then cursor.clear else cursor))
      _).position = _
    rw [if_pos rfl]
    rfl

/-- What an edit does to a document that is in place: it stays so, markers move by offsets, no
cursor is added, and the caret stays unless there are changes. -/
structure Follows (d d' : Document) : Prop where
  tracked : d.buffer.Tracked d'.buffer
  isSingle : d.cursors.isSingle → d'.cursors.isSingle
  caret : d'.buffer.pending = d.buffer.pending → d'.caret = d.caret

namespace Follows

lemma refl (d : Document) : d.Follows d := ⟨.refl _, id, fun _ => rfl⟩

lemma trans {d d' d'' : Document} (h : d.Follows d') (h' : d'.Follows d'') : d.Follows d'' := by
  refine ⟨h.tracked.trans h'.tracked, fun hsingle => h'.isSingle (h.isSingle hsingle), ?_⟩
  intro hsame
  obtain ⟨-, changes, -, -, hpending⟩ := h.tracked
  obtain ⟨-, changes', -, -, hpending'⟩ := h'.tracked
  -- changes are only ever added
  have hnil : changes = [] ∧ changes' = [] := by
    rw [hpending', hpending, append_assoc, append_right_eq_self] at hsame
    exact append_eq_nil_iff.1 hsame
  rw [hnil.1, append_nil] at hpending
  rw [hnil.2, append_nil] at hpending'
  exact (h'.caret hpending').trans (h.caret hpending)

end Follows

section

variable {d d' : Document}

/-- An edit keeps the cursors at places, and the caret follows it. -/
lemma Alters.placed (h : Alters Text.OnlyLineFeeds d d') (hd : d.Placed) :
    d'.Placed ∧ d.Follows d' := by
  have hsingle := h.isSingle
  cases h with
  | splice hij hj ht mode =>
    rename_i i j t
    -- markers and cursors are moved along with the edit, which is the only change
    have hremovedEnd : i + (d.text.slice i j).length = j := by
      rw [Text.slice, length_drop, length_take]
      omega
    have htracks := hd.buffer.tidy.marked.tracks hij hj ht
    have hpending : (d.spliced i j t mode).buffer.pending =
        d.buffer.pending ++ [.ofOffsets d.text i j t] := rfl
    refine ⟨⟨hd.buffer.edited hij hj ht mode, hd.cursors.follow htracks.hasPlace⟩, ?_, hsingle,
      fun hsame => ?_⟩
    · refine ⟨[⟨i, d.text.slice i j, t⟩], [.ofOffsets d.text i j t], .cons ?_ (.nil _), ?_,
        hpending⟩
      · rw [Edit.removedEnd, hremovedEnd]
        exact htracks
      · exact forall_mem_singleton.2 ht
    · -- a splice always leaves a change behind
      rw [hpending, append_right_eq_self] at hsame
      cases hsame
  | undo hundo =>
    obtain ⟨hsound, htracked⟩ := hd.buffer.undo hundo
    refine ⟨hd.stepped hsound htracked, ?_, hsingle, ?_⟩
    · rw [buffer_stepped]
      exact htracked
    · rw [buffer_stepped]
      exact caret_stepped
  | redo hredo =>
    obtain ⟨hsound, htracked⟩ := hd.buffer.redo hredo
    refine ⟨hd.stepped hsound htracked, ?_, hsingle, ?_⟩
    · rw [buffer_stepped]
      exact htracked
    · rw [buffer_stepped]
      exact caret_stepped
  | clearAll =>
    exact ⟨⟨hd.buffer, hd.cursors.map_clear⟩, .refl _, hsingle,
      fun _ => position_primary_map_clear d.cursors⟩
  | clearPrimary =>
    refine ⟨⟨hd.buffer, hd.cursors.mapPrimary fun c hc => ?_⟩, .refl _, hsingle,
      fun _ => position_primary_mapPrimary_clear d.cursors⟩
    exact ⟨hc.position, fun _ ha => by cases ha⟩

/-- Every edit keeps a document sound. -/
lemma Edited.sound (h : Edited Text.OnlyLineFeeds d d') (hd : d.Sound) :
    d'.Sound ∧ d.Follows d' := by
  cases h with
  | nothing => exact ⟨hd, .refl _⟩
  | rescope h =>
    have hall : ∀ {d'}, Relation.ReflTransGen (Alters Text.OnlyLineFeeds) d d' →
        d'.Placed ∧ d.Follows d' := by
      intro d' h
      induction h with
      | refl => exact ⟨hd.toPlaced, .refl _⟩
      | tail _ hlast ih =>
        obtain ⟨hplaced, hfollows⟩ := ih
        obtain ⟨hplaced', hfollows'⟩ := hlast.placed hplaced
        exact ⟨hplaced', hfollows.trans hfollows'⟩
    obtain ⟨hplaced, htracked, hsingle, hcaret⟩ := hall h
    exact ⟨⟨⟨hplaced.buffer, hplaced.cursors⟩, rfl⟩, htracked, hsingle, hcaret⟩

end

/-! ## What else keeps a document sound -/

/-- A document just opened is sound. -/
lemma sound_ofText (g : Grammar) (ht : t.OnlyLineFeeds) : (ofText g t).Sound :=
  ⟨⟨⟨Buffer.tidy_fresh ht 1000, t, 1000, by decide, Buffer.chained_fresh t 1000⟩,
    CursorList.lies_caret (Text.hasPlace_origin ht)⟩, rfl⟩

namespace Sound

variable {d : Document} (h : d.Sound)

include h

/-- A sound buffer with the same text keeps a document sound. -/
lemma of_buffer {b : Buffer} (hb : b.Sound) (htext : b.text = d.text) :
    Sound { d with buffer := b } := by
  refine ⟨⟨hb, ?_⟩, ?_⟩
  · show d.cursors.Lies b.text
    rw [htext]
    exact h.cursors
  · show d.scopes = d.grammar.tokenize b.text
    rw [htext]
    exact h.scopes_eq

lemma mark (r : Range) : (d.mark r).2.Sound := h.of_buffer (h.buffer.mark r) rfl

lemma unmark (id : MarkerId) : (d.unmark id).Sound := h.of_buffer (h.buffer.unmark id) rfl

lemma decorate (id : MarkerId) (style : String) : (d.decorate id style).Sound :=
  h.of_buffer (h.buffer.decorate id style) rfl

lemma takeChanges : d.takeChanges.2.Sound := h.of_buffer (h.buffer.of_eq rfl rfl rfl) rfl

lemma advance (milliseconds : Nat) :
    Sound { d with buffer := d.buffer.advance milliseconds } :=
  h.of_buffer (h.buffer.of_eq rfl rfl rfl) rfl

lemma filed (name : String) (path : Option Path) (modified : Bool) :
    (d.filed name path modified).Sound := by
  obtain ⟨⟨hbuffer, hcursors⟩, hscopes⟩ := h
  exact ⟨⟨hbuffer.of_eq rfl rfl rfl, hcursors⟩, hscopes⟩

lemma setGrammar (g : Grammar) : (d.setGrammar g).Sound := ⟨⟨h.buffer, h.cursors⟩, rfl⟩

lemma setCursor (p : Position) : (d.setCursor p).Sound :=
  ⟨⟨h.buffer, (h.toPlaced.setCursor p).cursors⟩, h.scopes_eq⟩

lemma select (r : Range) : (d.select r).Sound := by
  have hcursors := (h.toPlaced.setCursor r.start).cursors
  refine ⟨⟨h.buffer, hcursors.mapPrimary fun c hc => ⟨?_, ?_⟩⟩, h.scopes_eq⟩
  · exact Text.hasPlace_clip h.onlyLineFeeds r.stop
  · intro a ha
    -- the other end of the selection is the anchor, or the caret where there is none
    cases hanchor : c.anchor with
    | none =>
      have hposition : c.position = a := by
        rw [Cursor.selectTo, hanchor] at ha
        exact Option.some.inj ha
      rw [← hposition]
      exact hc.position
    | some anchor =>
      have hsame : anchor = a := by
        rw [Cursor.selectTo, hanchor] at ha
        exact Option.some.inj ha
      rw [← hsame]
      exact hc.anchor anchor hanchor

lemma addCursor? {d' : Document} (hadd : d.addCursor? p = some d') : d'.Sound := by
  obtain ⟨cursors, hcursors, rfl⟩ := Option.map_eq_some_iff.1 hadd
  exact ⟨⟨h.buffer, h.cursors.add? (Text.hasPlace_clip h.onlyLineFeeds p) hcursors⟩, h.scopes_eq⟩

lemma caret : d.text.HasPlace d.caret := h.cursors.primary.position

end Sound

end Document

end TemplateEditing
