import TemplateEditing.Proofs.Document.Edits
import TemplateEditing.Tag.Matcher

/-!
# Renaming together

What making the names of a pair equal does to a document: nothing, or the range of one name is
replaced by the text of the other (`TagPair.synchronize_eq`). What the matcher does after changes
comes down to that, to a new search, or to leaving all as it is (`Matcher.afterChanges_eq`). After
a move it is a new search at most (`Matcher.afterMove_cases`).
-/

namespace TemplateEditing

variable {pair : TagPair}

namespace TagPair

/-- What it takes for a tag to be renamed. -/
structure Renames (pair : TagPair) (d : Document) (other : LiveTag) (name : Text) : Prop where
  closing_ne : pair.closing ≠ none
  isSingle : d.cursors.isSingle
  other_eq : pair.inactiveTag? = some other
  name_eq : pair.activeTag.name? d = some name
  otherName : ∃ otherName, other.name? d = some otherName ∧ name ≠ otherName
  isPlainName : isPlainName name
  activeTag_isValid : pair.activeTag.isValid d
  other_isValid : other.isValid d

lemma renaming?_eq (pair : TagPair) (d : Document) :
    pair.renaming? d =
      (if pair.closing.isSome && d.cursors.isSingle then pair.inactiveTag? else none).bind
        fun other => (pair.activeTag.name? d).bind fun name => (other.name? d).bind fun otherName =>
          if name ≠ otherName && isPlainName name && pair.activeTag.isValid d && other.isValid d then
            some (other, name)
          else none := by
  unfold renaming?
  dsimp only
  split <;> rfl

lemma renaming?_eq_some_iff {d : Document} {other : LiveTag} {name : Text} :
    pair.renaming? d = some (other, name) ↔ pair.Renames d other name := by
  rw [renaming?_eq]
  constructor
  · intro h
    obtain ⟨tag, htag, h⟩ := Option.bind_eq_some_iff.1 h
    obtain ⟨active, hactive, h⟩ := Option.bind_eq_some_iff.1 h
    obtain ⟨otherName, hother, h⟩ := Option.bind_eq_some_iff.1 h
    split at htag
    · rename_i hpair
      split at h
      · rename_i hnames
        cases h
        simp only [Bool.and_eq_true, decide_eq_true_eq] at hpair hnames
        exact ⟨Option.isSome_iff_ne_none.1 hpair.1, hpair.2, htag, hactive,
          ⟨otherName, hother, hnames.1.1.1⟩, hnames.1.1.2, hnames.1.2, hnames.2⟩
      · cases h
    · cases htag
  · intro h
    obtain ⟨otherName, hother, hne⟩ := h.otherName
    have hpair : (pair.closing.isSome && d.cursors.isSingle) = true := by
      rw [Option.isSome_iff_ne_none.2 h.closing_ne, h.isSingle]
      rfl
    have hnames : (name ≠ otherName && isPlainName name && pair.activeTag.isValid d &&
        other.isValid d) = true := by
      rw [h.isPlainName, h.activeTag_isValid, h.other_isValid]
      simpa using hne
    rw [if_pos hpair, h.other_eq, h.name_eq]
    show (other.name? d).bind _ = _
    rw [hother]
    exact if_pos hnames

/-- The other tag is given the name of the active one. -/
lemma synchronize_of_renames {d : Document} {other : LiveTag} {name : Text}
    {r : Range} (h : pair.Renames d other name) (hr : other.nameRange? d = some r) :
    pair.synchronize d = ((·.2) <$> d.replace r name .merge).map (true, ·) := by
  unfold synchronize
  rw [renaming?_eq_some_iff.2 h]
  dsimp only
  unfold LiveTag.rename
  rw [hr]
  dsimp only
  cases d.replace r name .merge <;> rfl

/-- The names stay as they are, or the other tag is given the name of the active one. -/
lemma synchronize_eq (pair : TagPair) (d : Document) :
    (pair.renaming? d = none ∧ pair.synchronize d = .ok (false, d)) ∨
    ∃ other name r, pair.Renames d other name ∧ other.nameRange? d = some r ∧
      pair.synchronize d = ((·.2) <$> d.replace r name .merge).map (true, ·) := by
  cases hrenaming : pair.renaming? d with
  | none =>
    left
    unfold synchronize
    rw [hrenaming]
    exact ⟨rfl, rfl⟩
  | some found =>
    obtain ⟨other, name⟩ := found
    have hrenames := renaming?_eq_some_iff.1 hrenaming
    obtain ⟨otherName, hother, -⟩ := hrenames.otherName
    obtain ⟨r, hr, -⟩ := Option.map_eq_some_iff.1 hother
    exact .inr ⟨other, name, r, hrenames, hr, synchronize_of_renames hrenames hr⟩

/-- The other tag becomes the active one, and nothing else changes. -/
lemma exists_swap_eq {other : LiveTag} (h : pair.inactiveTag? = some other) :
    ∃ side, pair.swap = { pair with active := side } ∧
      activeTag { pair with active := side } = other := by
  obtain ⟨opening, closing, active⟩ := pair
  cases active with
  | opening =>
    cases h
    exact ⟨.closing, rfl, rfl⟩
  | closing =>
    cases h
    cases closing with
    | none => exact ⟨.closing, rfl, rfl⟩
    | some close => exact ⟨.opening, rfl, rfl⟩

end TagPair

namespace Matcher

lemma drop_of_none {m : Matcher} (h : m.pair = none) (d : Document) : m.drop d = (m, d) := by
  rw [drop, h]

lemma pair_drop (m : Matcher) (d : Document) : (m.drop d).1.pair = none := by
  rw [drop]
  split
  · rename_i hnone
    exact hnone
  · rfl

/-- A search drops what is shown first, so that dropping it before that changes nothing. -/
lemma refresh_drop (m : Matcher) (d : Document) :
    (m.drop d).1.refresh (m.drop d).2 = m.refresh d := by
  unfold refresh
  rw [drop_of_none (m.pair_drop d)]

lemma settings_drop (m : Matcher) (d : Document) : (m.drop d).1.settings = m.settings := by
  unfold drop
  split <;> rfl

/-- A search comes to nothing, or to tags that are followed from then on. -/
lemma refresh_cases (m : Matcher) (d : Document) :
    m.refresh d = m.drop d ∨
    ∃ opening closing active, m.settings.enabled = true ∧ (m.drop d).2.cursors.isSingle = true ∧
      spansAt? (m.drop d).2 (m.drop d).2.caret = some (opening, closing, active) ∧
      m.refresh d = (m.drop d).1.follow (m.drop d).2 opening closing active := by
  rw [← m.settings_drop d]
  unfold refresh
  dsimp only
  split
  case isFalse => exact .inl rfl
  case isTrue henabled =>
  rw [Bool.and_eq_true] at henabled
  split
  · exact .inl rfl
  · next opening closing active hspans =>
    exact .inr ⟨opening, closing, active, henabled.1, henabled.2, hspans, rfl⟩

lemma settings_refresh (m : Matcher) (d : Document) : (m.refresh d).1.settings = m.settings := by
  rcases m.refresh_cases d with heq | ⟨opening, closing, active, -, -, -, heq⟩
  · rw [heq]
    exact m.settings_drop d
  · rw [heq]
    exact m.settings_drop d

/-- Before typing the pair is kept or dropped, and the text stays as it is. -/
lemma beforeTyping_cases (m : Matcher) (d : Document) (typed : Text) :
    m.beforeTyping d typed = (m, d) ∨ m.beforeTyping d typed = m.drop d := by
  unfold beforeTyping
  split
  · exact .inl rfl
  · split
    · exact .inl rfl
    · exact .inr rfl

/-- After a move the tags shown are dropped or searched for anew, or they are kept, and the one that
the caret is in is the active one. -/
lemma afterMove_cases (m : Matcher) (d : Document) :
    m.afterMove d = m.drop d ∨ m.afterMove d = m.refresh d ∨
    d.cursors.isSingle = true ∧ ∃ pair side, m.pair = some pair ∧
      (TagPair.activeTag { pair with active := side }).touches d d.caret = true ∧
      m.afterMove d = ({ m with pair := some { pair with active := side } }, d) := by
  unfold afterMove
  split
  case isTrue => exact .inl rfl
  case isFalse hsingle =>
  split
  case h_1 => exact .inr (.inl rfl)
  case h_2 pair hpair =>
  have hsingle : d.cursors.isSingle = true := by
    simpa using hsingle
  split
  case isTrue htouches =>
    refine .inr (.inr ⟨hsingle, pair, pair.active, hpair, htouches, ?_⟩)
    rw [← hpair]
  case isFalse =>
  split
  case isFalse => exact .inr (.inl rfl)
  case isTrue hother =>
  obtain ⟨other, hinactive, htouches⟩ := (Option.any_eq_true _ _).1 hother
  obtain ⟨side, hswap, hactive⟩ := pair.exists_swap_eq hinactive
  refine .inr (.inr ⟨hsingle, pair, side, hpair, ?_, by rw [hswap]⟩)
  rw [hactive]
  exact htouches

/-- A pair that still holds is kept, and its names are made equal if the caret is in one. -/
lemma afterChanges_of_holds {m : Matcher} (hpair : m.pair = some pair)
    {d : Document} {changes : List Change}
    (hplain : changes.any (m.settings.isStructural ·.newText) = false) (hholds : holds pair d = true)
    (hname : (m.settings.renameTogether && pair.activeTag.nameTouches d d.caret) = true) :
    m.afterChanges d changes = (pair.synchronize d).map fun result => (result.1, m, result.2) := by
  unfold afterChanges
  rw [hplain, if_neg Bool.false_ne_true]
  dsimp only
  rw [hpair]
  dsimp only
  rw [if_pos hholds, if_pos hname]
  cases pair.synchronize d <;> rfl

/-- After changes the pair is searched for anew, or it still holds. Then all stays as it is, or the
other tag is renamed. -/
lemma afterChanges_eq (m : Matcher) (d : Document) (changes : List Change) :
    m.afterChanges d changes = .ok (false, m.refresh d) ∨
    ∃ pair, m.pair = some pair ∧ holds pair d ∧
      changes.any (m.settings.isStructural ·.newText) = false ∧
      ((m.afterChanges d changes = .ok (false, m, d) ∧ (m.settings.renameTogether →
          pair.activeTag.nameTouches d d.caret → pair.renaming? d = none)) ∨
        ∃ other name r, pair.Renames d other name ∧ other.nameRange? d = some r ∧
          m.afterChanges d changes =
            ((·.2) <$> d.replace r name .merge).map fun d' => (true, m, d')) := by
  unfold afterChanges
  cases hstructural : changes.any (m.settings.isStructural ·.newText) with
  | true =>
    -- dropped before the search
    rw [if_pos rfl]
    dsimp only
    rw [m.pair_drop d]
    exact .inl (congrArg (fun found => Except.ok (false, found)) (m.refresh_drop d))
  | false =>
    rw [if_neg Bool.false_ne_true]
    dsimp only
    cases hpair : m.pair with
    | none => exact .inl rfl
    | some pair =>
      dsimp only
      split
      · rename_i hholds
        refine .inr ⟨pair, rfl, hholds, rfl, ?_⟩
        split
        · rcases pair.synchronize_eq d with ⟨hnone, hsync⟩ | ⟨other, name, r, hrenames, hr, hsync⟩
          · refine .inl ⟨?_, fun _ _ => hnone⟩
            rw [hsync]
            rfl
          · refine .inr ⟨other, name, r, hrenames, hr, ?_⟩
            rw [hsync]
            cases (·.2) <$> d.replace r name .merge <;> rfl
        · rename_i hname
          refine .inl ⟨rfl, fun htogether htouches => ?_⟩
          exact absurd (Bool.and_eq_true_iff.2 ⟨htogether, htouches⟩) hname
      · exact .inl rfl

end Matcher

end TemplateEditing
