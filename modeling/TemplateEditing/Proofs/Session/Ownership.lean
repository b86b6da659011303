import TemplateEditing.Proofs.Document.Edits
import TemplateEditing.Proofs.Marker.Numbers
import TemplateEditing.Proofs.Session.Run
import TemplateEditing.Proofs.Tag.Drafts
import TemplateEditing.Proofs.Tag.Renaming

/-!
# Who owns the markers

A session marks the tags it shows, and gives the markers back when it shows them no longer. Whatever
is done, and whether or not it is refused, the markers of the document are those it had before the
session and, behind them, two for each tag shown (`run_owns`). Ending the session leaves the ones it
found.
-/

namespace TemplateEditing

open List

/-! ## Documents -/

namespace Buffer

/-- A replay makes and drops no marker. -/
lemma numbers_foldl_replay (edits : List Edit) (b : Buffer) :
    (edits.foldl replay b).markers.numbers = b.markers.numbers := by
  induction edits generalizing b with
  | nil => rfl
  | cons e edits ih =>
    rw [foldl_cons, ih]
    exact MarkerSet.numbers_follow _ _

lemma numbers_undo {b b' : Buffer} (h : b.undo = .ok b') :
    b'.markers.numbers = b.markers.numbers := by
  rw [undo] at h
  split at h
  · cases h
  · cases h
    exact numbers_foldl_replay _ _

lemma numbers_redo {b b' : Buffer} (h : b.redo = .ok b') :
    b'.markers.numbers = b.markers.numbers := by
  rw [redo] at h
  split at h
  · cases h
  · cases h
    exact numbers_foldl_replay _ _

end Buffer

namespace Document

/-- Edits neither mark nor unmark anything. -/
lemma Edited.numbers {allowed : Text → Prop} {d d' : Document} (h : Edited allowed d d') :
    d'.buffer.markers.numbers = d.buffer.markers.numbers := by
  refine h.keeps (I := fun d' => d'.buffer.markers.numbers = d.buffer.markers.numbers) ?_ ?_ rfl
  · intro d₁ d₂ halters hd₁
    rw [← hd₁]
    cases halters with
    | splice hij hj ht mode => exact MarkerSet.numbers_follow _ _
    | undo hundo => rw [buffer_stepped, Buffer.numbers_undo hundo]
    | redo hredo => rw [buffer_stepped, Buffer.numbers_redo hredo]
    | clearAll => rfl
    | clearPrimary => rfl
  · exact fun hd => hd

/-- The markers of a document are those of a list and, behind them, some others. -/
structure HasMarkers (d : Document) (base held : List MarkerId) : Prop where
  ids_eq : d.buffer.markers.ids = base ++ held
  numbered : d.buffer.markers.Numbered

namespace HasMarkers

variable {d : Document} {base held : List MarkerId}

lemma of_numbers (h : d.HasMarkers base held) {d' : Document}
    (hsame : d'.buffer.markers.numbers = d.buffer.markers.numbers) : d'.HasMarkers base held := by
  refine ⟨?_, h.numbered.of_numbers hsame⟩
  rw [← h.ids_eq]
  exact congrArg Prod.fst hsame

/-- Giving back what is held leaves the rest. -/
lemma foldl_unmark (h : d.HasMarkers base held) : (held.foldl unmark d).HasMarkers base [] := by
  induction held generalizing d with
  | nil => exact h
  | cons id held ih =>
    refine ih ⟨?_, h.numbered.erase id⟩
    have hnodup := h.numbered.nodup
    rw [h.ids_eq, nodup_append] at hnodup
    obtain ⟨-, hheld, hapart⟩ := hnodup
    show (d.buffer.markers.erase id).ids = base ++ held
    rw [MarkerSet.ids_erase, h.ids_eq, filter_append, filter_cons]
    have hbase : base.filter (· != id) = base := by
      refine filter_eq_self.2 fun other hother => ?_
      exact bne_iff_ne.2 (hapart other hother id mem_cons_self)
    have hrest : held.filter (· != id) = held := by
      refine filter_eq_self.2 fun other hother => ?_
      refine bne_iff_ne.2 fun hsame => (nodup_cons.1 hheld).1 ?_
      rwa [← hsame]
    rw [hbase, hrest, bne_self_eq_false, if_neg Bool.false_ne_true]

/-- A marker made is held behind the others. -/
lemma mark (h : d.HasMarkers base held) (r : Range) :
    (d.mark r).2.HasMarkers base (held ++ [(d.mark r).1]) := by
  refine ⟨?_, h.numbered.mark _⟩
  rw [← append_assoc, ← h.ids_eq]
  exact MarkerSet.ids_mark _ _

end HasMarkers

end Document

/-! ## Tags -/

namespace LiveTag

/-- A tag with a name takes two markers. -/
lemma holds_acquire {d : Document} {base held : List MarkerId} (h : d.HasMarkers base held)
    {s : TagSpan} (hs : s.nameRange ≠ none) :
    (acquire d s).2.HasMarkers base (held ++ (acquire d s).1.markers) ∧
      (acquire d s).1.nameMarker ≠ none := by
  obtain ⟨r, hr⟩ := Option.ne_none_iff_exists'.1 hs
  have hfirst := h.mark s.range
  have hsecond := hfirst.mark r
  rw [append_assoc] at hsecond
  unfold acquire
  rw [hr]
  exact ⟨hsecond, Option.some_ne_none _⟩

end LiveTag

lemma TagPair.numbers_highlight (pair : TagPair) (d : Document) (style : String) :
    (pair.highlight d style).buffer.markers.numbers = d.buffer.markers.numbers := by
  have hfold : ∀ (tags : List LiveTag) (d : Document),
      (tags.foldl (fun d t => t.highlight d style) d).buffer.markers.numbers =
        d.buffer.markers.numbers := by
    intro tags
    induction tags with
    | nil => exact fun _ => rfl
    | cons t tags ih =>
      intro d
      rw [foldl_cons, ih]
      exact MarkerSet.numbers_decorate _ _ _
  exact hfold pair.tags d

namespace Matcher

/-- The tags shown, the open one first. -/
def tags (m : Matcher) : List LiveTag := (m.pair.map TagPair.tags).getD []

/-- The markers of the tags shown. -/
def held (m : Matcher) : List MarkerId := m.tags.flatMap LiveTag.markers

/-- Besides those of a list, the markers of a document are those of the tags shown, which have
names. -/
structure Owns (base : List MarkerId) (m : Matcher) (d : Document) : Prop where
  holds : d.HasMarkers base m.held
  named : ∀ t ∈ m.tags, t.nameMarker ≠ none

/-- Releasing tags unmarks all their markers. -/
lemma foldl_release (tags : List LiveTag) (d : Document) :
    tags.foldl (fun d t => t.release d) d =
      (tags.flatMap LiveTag.markers).foldl Document.unmark d := by
  induction tags generalizing d with
  | nil => rfl
  | cons t tags ih =>
    rw [foldl_cons, ih, flatMap_cons, foldl_append]
    rfl

namespace Owns

variable {base : List MarkerId} {m : Matcher} {d : Document}

lemma of_numbers (h : Owns base m d) {d' : Document}
    (hsame : d'.buffer.markers.numbers = d.buffer.markers.numbers) : Owns base m d' :=
  ⟨h.holds.of_numbers hsame, h.named⟩

/-- Dropping the tags shown leaves what the document had before. -/
lemma hasMarkers_drop (h : Owns base m d) : (m.drop d).2.HasMarkers base [] := by
  have hback := h.holds.foldl_unmark
  rw [Matcher.drop]
  cases hshown : m.pair with
  | none =>
    rw [held, tags, hshown] at hback
    exact hback
  | some pair =>
    rw [held, tags, hshown, Option.map_some, Option.getD_some, ← foldl_release] at hback
    exact hback

/-- Dropping the pair leaves no marker of it. -/
lemma drop (h : Owns base m d) : Owns base (m.drop d).1 (m.drop d).2 := by
  have htags : (m.drop d).1.tags = [] := by rw [tags, m.pair_drop d]; rfl
  have hheld : (m.drop d).1.held = [] := by rw [held, htags]; rfl
  refine ⟨?_, ?_⟩
  · rw [hheld]
    exact h.hasMarkers_drop
  · rw [htags]
    exact fun t ht => absurd ht not_mem_nil

/-- Following tags with names from a state where none are shown. -/
lemma follow (h : Owns base m d) (hnone : m.pair = none) {opening : TagSpan}
    {closing : Option TagSpan} (hopening : opening.nameRange ≠ none)
    (hclosing : ∀ s, closing = some s → s.nameRange ≠ none) (active : Side) :
    Owns base (m.follow d opening closing active).1 (m.follow d opening closing active).2 := by
  have hheld : m.held = [] := by rw [held, tags, hnone]; rfl
  have hmarkers := h.holds
  rw [hheld] at hmarkers
  obtain ⟨hfirst, hfirstName⟩ := LiveTag.holds_acquire hmarkers hopening
  cases closing with
  | none =>
    refine ⟨?_, ?_⟩
    · refine Document.HasMarkers.of_numbers ?_ (TagPair.numbers_highlight _ _ _)
      show Document.HasMarkers _ base ((LiveTag.acquire d opening).1.markers ++ [])
      rw [append_nil]
      exact hfirst
    · exact forall_mem_singleton.2 hfirstName
  | some s =>
    obtain ⟨hsecond, hsecondName⟩ := LiveTag.holds_acquire hfirst (hclosing s rfl)
    refine ⟨?_, ?_⟩
    · refine Document.HasMarkers.of_numbers ?_ (TagPair.numbers_highlight _ _ _)
      show Document.HasMarkers _ base ((LiveTag.acquire d opening).1.markers ++
        ((LiveTag.acquire (LiveTag.acquire d opening).2 s).1.markers ++ []))
      rw [append_nil]
      exact hsecond
    · exact forall_mem_cons.2 ⟨hfirstName, forall_mem_singleton.2 hsecondName⟩

/-- A refresh leaves exactly the markers of its pair. -/
lemma refresh (h : Owns base m d) : Owns base (m.refresh d).1 (m.refresh d).2 := by
  rcases m.refresh_cases d with heq | ⟨opening, closing, active, -, -, hspans, heq⟩
  · rw [heq]
    exact h.drop
  · obtain ⟨hopening, hclosing⟩ := nameRange_spansAt? hspans
    rw [heq]
    exact h.drop.follow (m.pair_drop d) hopening hclosing active

/-- Preparing to type leaves exactly the markers of the pair. -/
lemma beforeTyping (h : Owns base m d) (typed : Text) :
    Owns base (m.beforeTyping d typed).1 (m.beforeTyping d typed).2 := by
  rcases m.beforeTyping_cases d typed with heq | heq
  · rw [heq]
    exact h
  · rw [heq]
    exact h.drop

/-- The tags of the pair are the same, whichever is the active one. -/
lemma withActive (h : Owns base m d) {pair : TagPair} (hpair : m.pair = some pair) (side : Side) :
    Owns base { m with pair := some { pair with active := side } } d := by
  have htags : Matcher.tags { m with pair := some { pair with active := side } } = m.tags := by
    rw [tags, tags, hpair]
    rfl
  refine ⟨?_, ?_⟩
  · rw [held, htags]
    exact h.holds
  · rw [htags]
    exact h.named

/-- A move leaves exactly the markers of the pair. -/
lemma afterMove (h : Owns base m d) : Owns base (m.afterMove d).1 (m.afterMove d).2 := by
  rcases m.afterMove_cases d with heq | heq | ⟨-, pair, side, hpair, -, heq⟩
  · rw [heq]
    exact h.drop
  · rw [heq]
    exact h.refresh
  · rw [heq]
    exact h.withActive hpair side

end Owns

end Matcher

namespace Session

lemma Operation.edited_of_edit? {allowed : Text → Prop} {op : Operation}
    {edit : Document → Except BufferError Document} {d d' : Document} (hedit : op.edit? = some edit)
    (hop : allowed op.inserted) (hd : edit d = .ok d') : Document.Edited allowed d d' := by
  cases op <;> cases hedit
  case type typed => exact Document.edited_type hop hd
  case replace r inserted => exact Document.edited_replace hop hd
  case backspace => exact Document.edited_backspace hop hd
  case undo => exact Document.edited_undo hd
  case redo => exact Document.edited_redo hd

/-- An operation that makes no edit moves cursors, changes the language, or does nothing to text,
markers and cursors. -/
lemma Operation.turn_cases (op : Operation) (m : Matcher) (d : Document) :
    (∃ d' : Document, d'.buffer = d.buffer ∧ op.turn m d = m.afterMove d') ∨
    (∃ d' : Document, d'.buffer = d.buffer ∧ op.turn m d = m.refresh d') ∨
    ∃ d' : Document, d'.text = d.text ∧ d'.buffer.markers = d.buffer.markers ∧
      d'.cursors = d.cursors ∧ op.turn m d = (m, d') := by
  cases op
  case moveCursor p => exact .inl ⟨d.setCursor p, rfl, rfl⟩
  case select r => exact .inl ⟨d.select r, rfl, rfl⟩
  case addCursor p =>
    have hturn : (addCursor p).turn m d = ((d.addCursor? p).map m.afterMove).getD (m, d) := rfl
    cases hadd : d.addCursor? p with
    | none =>
      rw [hadd] at hturn
      exact .inr (.inr ⟨d, rfl, rfl, rfl, hturn⟩)
    | some d' =>
      rw [hadd] at hturn
      obtain ⟨cursors, -, rfl⟩ := Option.map_eq_some_iff.1 hadd
      exact .inl ⟨{ d with cursors := cursors }, rfl, hturn⟩
  case setGrammar g => exact .inr (.inl ⟨d.setGrammar g, rfl, rfl⟩)
  case save tree =>
    obtain ⟨name, path, modified, hsaved⟩ := d.exists_save_eq tree
    exact .inr (.inr ⟨d.filed name path modified, rfl, rfl, rfl, congrArg (m, ·) hsaved⟩)
  case saveAs p tree =>
    obtain ⟨name, path, modified, hsaved⟩ := d.exists_saveAs_eq p tree
    exact .inr (.inr ⟨d.filed name path modified, rfl, rfl, rfl, congrArg (m, ·) hsaved⟩)
  case wait milliseconds =>
    exact .inr (.inr ⟨{ d with buffer := d.buffer.advance milliseconds }, rfl, rfl, rfl, rfl⟩)
  all_goals exact .inr (.inr ⟨d, rfl, rfl, rfl, rfl⟩)

/-- A reaction searches for the pair anew, keeps it as it is, or renames one of its tags. -/
lemma reaction_cases {m m' : Matcher} {d d' : Document} {renamed : Bool}
    (h : reaction m d = .ok (renamed, m', d')) :
    (renamed = false ∧ m' = (m.refresh d.takeChanges.2).1 ∧ d' = (m.refresh d.takeChanges.2).2) ∨
    ∃ pair, m.pair = some pair ∧ m' = m ∧
      ((renamed = false ∧ d' = d.takeChanges.2 ∧ Matcher.holds pair d' = true ∧
          (m.settings.renameTogether = true → pair.activeTag.nameTouches d' d'.caret = true →
            pair.renaming? d' = none)) ∨
        (∃ other name, pair.Renames d.takeChanges.2 other name) ∧
          Document.Edited (fun _ => True) d.takeChanges.2 d' ∧ d'.buffer.pending ≠ []) := by
  have h : m.afterChanges d.takeChanges.2 d.takeChanges.1 = .ok (renamed, m', d') := h
  rcases m.afterChanges_eq d.takeChanges.2 d.takeChanges.1 with
    hrefresh | ⟨pair, hpair, hholds, -, ⟨hsame, hnone⟩ | ⟨other, name, r, hrenames, -, hrename⟩⟩
  · obtain ⟨hrenamed, hfound⟩ := Prod.mk.inj (Except.ok.inj (h.symm.trans hrefresh))
    exact .inl ⟨hrenamed, congrArg Prod.fst hfound, congrArg Prod.snd hfound⟩
  · cases h.symm.trans hsame
    exact .inr ⟨pair, hpair, rfl, .inl ⟨rfl, rfl, hholds, hnone⟩⟩
  · obtain ⟨after, hreplace, hresult⟩ := Document.exists_of_map_ok (hrename.symm.trans h)
    cases hresult
    refine .inr ⟨pair, hpair, rfl, .inr ⟨⟨other, name, hrenames⟩, ?_, ?_⟩⟩
    · exact Document.edited_replace trivial hreplace
    · -- the new name is a change that is still to be looked at
      rw [Document.replace_eq, Document.splice?_eq] at hreplace
      split at hreplace
      · cases hreplace
      · cases hreplace
        exact append_ne_nil_of_right_ne_nil _ (cons_ne_nil _ _)

/-- No operation takes or gives back a marker but for the tags shown. -/
lemma kept_owns (base : List MarkerId) : Kept (fun _ => True) (Matcher.Owns base) where
  prepare h typed := h.beforeTyping typed
  edit := by
    intro m d d' op edit h hedit hop hd'
    have hedited : Document.Edited (fun _ => True) d d' := op.edited_of_edit? hedit hop hd'
    exact h.of_numbers hedited.numbers
  react := by
    intro m d renamed m' d' h hreaction
    have htaken : Matcher.Owns base m d.takeChanges.2 := h.of_numbers rfl
    rcases reaction_cases hreaction with
      ⟨-, rfl, rfl⟩ | ⟨pair, -, rfl, ⟨-, rfl, -, -⟩ | ⟨-, hedited, -⟩⟩
    · exact htaken.refresh
    · exact htaken
    · exact htaken.of_numbers hedited.numbers
  refuse h _ := h.of_numbers rfl
  turn := by
    intro m d h op
    rcases op.turn_cases m d with
      ⟨d', hbuffer, heq⟩ | ⟨d', hbuffer, heq⟩ | ⟨d', -, hmarkers, -, heq⟩
    · rw [heq]
      exact Matcher.Owns.afterMove (h.of_numbers (by rw [hbuffer]))
    · rw [heq]
      exact Matcher.Owns.refresh (h.of_numbers (by rw [hbuffer]))
    · rw [heq]
      exact h.of_numbers (by rw [hmarkers])

/-- Whatever is done in a session, and however many times the matcher reacts to an edit, the markers
of its document are those it had before, and two for each tag shown, all of them different. Once the
session has ended they are those it had before. -/
theorem run_owns (d : Document) (hd : d.buffer.markers.Numbered) (settings : Settings)
    (patience : Nat) (ops : List Operation) :
    let s := (Session.start d settings patience).run ops
    s.document.buffer.markers.ids = d.buffer.markers.ids ++ s.matcher.held ∧
      s.document.buffer.markers.ids.Nodup ∧
      (∀ t ∈ s.matcher.tags, ∃ name, t.markers = [t.marker, name]) ∧
      s.matcher.held.length = 2 * s.matcher.tags.length ∧
      s.finish.document.buffer.markers.ids = d.buffer.markers.ids := by
  intro s
  have hstart : Matcher.Owns d.buffer.markers.ids { settings := settings.tagMatching } d :=
    ⟨⟨(append_nil _).symm, hd⟩, fun _ ht => absurd ht not_mem_nil⟩
  have hs : Matcher.Owns d.buffer.markers.ids s.matcher s.document :=
    (kept_owns _).run (fun _ _ => trivial) hstart.refresh
  have htwo : ∀ t ∈ s.matcher.tags, ∃ name, t.markers = [t.marker, name] := by
    intro t ht
    obtain ⟨name, hname⟩ := Option.ne_none_iff_exists'.1 (hs.named t ht)
    exact ⟨name, by rw [LiveTag.markers, hname]; rfl⟩
  refine ⟨hs.holds.ids_eq, hs.holds.numbered.nodup, htwo, ?_, ?_⟩
  · have hlengths : s.matcher.tags.map (fun t => t.markers.length) =
        s.matcher.tags.map fun _ => 2 := by
      refine map_congr_left fun t ht => ?_
      obtain ⟨name, hname⟩ := htwo t ht
      rw [hname]
      rfl
    rw [Matcher.held, length_flatMap, hlengths, map_const', sum_replicate_nat,
      Nat.mul_comm]
  · have hfinish := hs.hasMarkers_drop.ids_eq
    rw [append_nil] at hfinish
    exact hfinish

/-- A document with a marker of its own. -/
def sampleMarked : Document :=
  ((Document.ofText .marko "<a></a>".toList).mark ⟨⟨0, 0⟩, ⟨0, 3⟩⟩).2

theorem run_owns_sampleMarked :
    let s := (Session.start sampleMarked {}).run [.moveCursor ⟨0, 1⟩, .type "b".toList]
    sampleMarked.buffer.markers.ids = [0] ∧ s.document.buffer.markers.ids = [0, 1, 2, 3, 4] ∧
      s.finish.document.buffer.markers.ids = [0] := by
  intro s
  have hheld : s.matcher.held = [1, 2, 3, 4] := by decide +kernel
  have hnumbered : sampleMarked.buffer.markers.Numbered := ⟨by decide, by decide⟩
  obtain ⟨hids, -, -, -, hfinish⟩ :=
    run_owns sampleMarked hnumbered {} 1000 [.moveCursor ⟨0, 1⟩, .type "b".toList]
  refine ⟨rfl, ?_, hfinish⟩
  rw [show s.document.buffer.markers.ids = _ from hids, show Matcher.held _ = _ from hheld]
  rfl

end Session

end TemplateEditing
