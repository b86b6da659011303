import TemplateEditing.Proofs.Session.Settling
import TemplateEditing.Proofs.Tag.Framed

/-!
# Renaming together

Typing a plain text into the name of a tag gives its partner the same name. While the caret is in
the name of the active tag (`InName`) one reaction replaces the name of the other tag and the next
one finds nothing left to do (`settle_of_inName`). The new text is the old one with both names replaced,
and both edits are in one undo step, so that no undo or redo comes between them (`Joins`,
`run_renamesTogether`).
-/

namespace TemplateEditing

open List

variable {name : Text} {s : Session} {i j : Nat} {pair : TagPair} {close : LiveTag}
  {active : Range}

/-! ## Two ranges of a text -/

namespace Text

/-- The text with two of its ranges, one before the other, replaced by the same text. -/
def replaceBoth (t : Text) (first second : Range) (name : Text) : Text :=
  t.inRange ⟨.origin, first.start⟩ ++ name ++ t.inRange ⟨first.stop, second.start⟩ ++ name ++
    t.inRange ⟨second.stop, t.endPosition⟩

variable {t : Text} {a b c e : Nat}

/-- Replacing two ranges writes the name twice. -/
lemma replaceBoth_rangeOf (ht : t.OnlyLineFeeds) (hab : a ≤ b) (hbc : b ≤ c) (hce : c ≤ e)
    (he : e ≤ t.length) (name : Text) :
    t.replaceBoth (t.rangeOf a b) (t.rangeOf c e) name =
      t.take a ++ name ++ t.slice b c ++ name ++ t.drop e := by
  have hfront : t.inRange ⟨.origin, t.positionOf a⟩ = t.take a := by
    rw [← positionOf_zero ht, inRange_positionOf ht (Nat.zero_le _) (by omega)]
    rfl
  have hbetween : t.inRange ⟨t.positionOf b, t.positionOf c⟩ = t.slice b c :=
    inRange_positionOf ht (by omega) (by omega)
  have hback : t.inRange ⟨t.positionOf e, t.endPosition⟩ = t.drop e := by
    rw [endPosition_eq ht, inRange_positionOf ht he (Nat.le_refl _), slice, take_length]
  rw [replaceBoth, rangeOf, rangeOf, hfront, hbetween, hback]

/-- Replacing part of a stretch is replacing the stretch. -/
lemma splice_within (hai : a ≤ i) (hij : i ≤ j) (hjb : j ≤ b) (hb : b ≤ t.length)
    (word : Text) : t.splice i j word = t.splice a b (t.slice a i ++ word ++ t.slice j b) := by
  have hfront : t.take i = t.take a ++ t.slice a i := by
    have := t.slice_append_slice (Nat.zero_le a) hai (by omega)
    exact this.symm
  have hback : t.drop j = t.slice j b ++ t.drop b := by
    have hrest := t.slice_append_slice hjb hb hb
    rw [slice, slice, slice, take_length] at hrest
    exact hrest.symm
  rw [splice, splice, hfront, hback]
  simp only [append_assoc]

/-- The first stretch is replaced first. -/
lemma splice_splice_of_le (hab : a ≤ b) (hbc : b ≤ c) (hce : c ≤ e) (he : e ≤ t.length)
    (name : Text) :
    (t.splice a b name).splice (c + name.length - (b - a)) (e + name.length - (b - a)) name =
      t.take a ++ name ++ t.slice b c ++ name ++ t.drop e := by
  have hlength : (t.take a ++ name).length = a + name.length := by
    rw [length_append, length_take]
    omega
  have hfront : (t.splice a b name).take (c + name.length - (b - a)) =
      t.take a ++ name ++ t.slice b c := by
    rw [splice, take_append, take_of_length_le (by omega), hlength, slice_eq_take_drop]
    congr 2
    omega
  have hback : (t.splice a b name).drop (e + name.length - (b - a)) = t.drop e := by
    rw [splice, drop_append, drop_eq_nil_of_le (by omega), hlength, nil_append,
      drop_drop]
    congr 1
    omega
  rw [splice, hfront, hback]

/-- The second stretch is replaced first. -/
lemma splice_splice_of_ge (hab : a ≤ b) (hbc : b ≤ c) (hce : c ≤ e) (he : e ≤ t.length)
    (name : Text) :
    (t.splice c e name).splice a b name =
      t.take a ++ name ++ t.slice b c ++ name ++ t.drop e := by
  have hfront : (t.splice c e name).take a = t.take a := take_splice (by omega) (by omega)
  have hback : (t.splice c e name).drop b = t.slice b c ++ name ++ t.drop e := by
    have hlength : (t.take c).length = c := by
      rw [length_take]
      omega
    rw [splice, append_assoc, drop_append_of_le_length (by omega), slice,
      append_assoc]
  rw [splice, hfront, hback]
  simp only [append_assoc]

/-- Replacing a stretch by itself changes nothing. -/
lemma splice_slice (hab : a ≤ b) (hb : b ≤ t.length) : t.splice a b (t.slice a b) = t := by
  have h := t.slice_append_slice (Nat.zero_le a) hab (by omega)
  rw [slice, drop_zero] at h
  rw [splice, h]
  show t.take b ++ t.drop b = t
  exact take_append_drop b t

end Text

/-- The primary cursor moves with a change. -/
lemma CursorList.position_primary_follow {cs : CursorList} (h : cs.primaryIndex < cs.cursors.length)
    (c : Change) : (cs.follow c).primary.position = c.moveCaret cs.primary.position := by
  unfold primary follow map
  rw [getElem?_map, getElem?_eq_getElem h]
  rfl

/-! ## The sides of a pair -/

namespace Side

/-- What belongs to a side. -/
def pick {α : Type} (side : Side) (first second : α) : α :=
  match side with
  | .opening => first
  | .closing => second

/-- The side across. -/
def across : Side → Side
  | .opening => .closing
  | .closing => .opening

/-- Both spots move alike. -/
lemma pick_move (side : Side) (x y : Spot) (i j n : Nat) :
    side.pick (x.move i j n) (y.move i j n) = (side.pick x y).move i j n := by
  cases side <;> rfl

/-- What lies in the name of a side lies in one of the two names. -/
lemma within {side : Side} {x y : Spot} (hi : (side.pick x y).nameStart ≤ i)
    (hj : j ≤ (side.pick x y).nameStop) :
    x.nameStart ≤ i ∧ j ≤ x.nameStop ∨ y.nameStart ≤ i ∧ j ≤ y.nameStop := by
  cases side with
  | opening => exact .inl ⟨hi, hj⟩
  | closing => exact .inr ⟨hi, hj⟩

end Side

namespace TagPair

variable {pair : TagPair} {close : LiveTag}

lemma activeTag_eq (h : pair.closing = some close) :
    pair.activeTag = pair.active.pick pair.opening close := by
  unfold activeTag
  cases pair.active with
  | opening => rfl
  | closing =>
    rw [h]
    rfl

lemma inactiveTag?_eq (h : pair.closing = some close) :
    pair.inactiveTag? = some (pair.active.across.pick pair.opening close) := by
  unfold inactiveTag?
  cases pair.active with
  | opening => exact h
  | closing => rfl

/-! ## A caret in a name -/

/-- The tags of a pair are framed, and the only caret is in the name of the active one. -/
structure InName (pair : TagPair) (close : LiveTag) (d : Document) (x y : Spot) (o : Nat) : Prop where
  framed : pair.Framed close d.buffer.marked x y
  placed : d.Placed
  isSingle : d.cursors.isSingle = true
  caret_eq : d.caret = d.text.positionOf o
  le_caret : (pair.active.pick x y).nameStart ≤ o
  caret_le : o ≤ (pair.active.pick x y).nameStop

namespace InName

variable {d d' : Document} {x y : Spot} {o : Nat} (h : pair.InName close d x y o)

include h

lemma liesAt (side : Side) :
    (side.pick pair.opening close).LiesAt d.buffer.marked (side.pick x y) := by
  cases side with
  | opening => exact h.framed.opening.liesAt
  | closing => exact h.framed.closing.liesAt

lemma isValid (side : Side) : (side.pick pair.opening close).isValid d = true := by
  cases side with
  | opening => exact h.framed.opening.isValid h.placed.onlyLineFeeds
  | closing => exact h.framed.closing.isValid h.placed.onlyLineFeeds

lemma name?_eq (side : Side) :
    (side.pick pair.opening close).name? d =
      some (d.text.slice (side.pick x y).nameStart (side.pick x y).nameStop) :=
  (h.liesAt side).name?_eq h.placed.onlyLineFeeds

/-- The two tags lie as they did when they were found. -/
lemma pairLiesAt : pair.LiesAt close d.buffer.marked x y := by
  have hname := h.framed.opening.liesAt.fits.name_le
  have hlast : x.nameStop + 1 ≤ x.stop := h.framed.opening.last_le
  have hapart := h.framed.apart
  exact
    { opening := h.framed.opening.liesAt
      closing := h.framed.closing.liesAt
      opening_kind := h.framed.opening_kind
      opening_delimiters := h.framed.opening.delimiters_eq
      closing_kind := h.framed.closing_kind
      closing_delimiters := h.framed.closing.delimiters_eq
      closing_eq := h.framed.closing_eq
      le_start := by omega }

lemma holds : Matcher.holds pair d = true := by
  have honly := h.placed.onlyLineFeeds
  have hlies := h.liesAt pair.active
  have hstart := hlies.fits.start_le
  have hstop := hlies.fits.le_stop
  have hle := h.le_caret
  have hle' := h.caret_le
  rw [Matcher.holds, h.framed.isValid honly, activeTag_eq h.framed.closing_eq, h.caret_eq,
    LiveTag.touches_of_range? honly hlies.range?_eq (by omega) (by omega) hlies.fits.stop_le]
  rfl

/-- The caret touches the name of the active tag. -/
lemma nameTouches : pair.activeTag.nameTouches d d.caret = true := by
  have honly := h.placed.onlyLineFeeds
  have hlies := h.liesAt pair.active
  have hstop := hlies.fits.le_stop
  have hlength : (pair.active.pick x y).stop ≤ d.text.length := hlies.fits.stop_le
  have hle := h.le_caret
  have hle' := h.caret_le
  rw [activeTag_eq h.framed.closing_eq, LiveTag.nameTouches, hlies.nameRange?_eq, Option.any_some,
    h.caret_eq, Range.touches, Bool.and_eq_true, decide_eq_true_eq, decide_eq_true_eq]
  exact ⟨(Text.positionOf_le_iff honly (by omega) (by omega)).2 hle,
    (Text.positionOf_le_iff honly (by omega) (by omega)).2 hle'⟩

/-- Only text, markers and cursors matter. -/
lemma of_marked (hplaced : d'.Placed) (hmarked : d'.buffer.marked = d.buffer.marked)
    (hsingle : d'.cursors.isSingle = true) (hcaret : d'.caret = d.caret) :
    pair.InName close d' x y o := by
  have htext : d'.text = d.text := (MarkedText.mk.inj hmarked).1
  refine ⟨?_, hplaced, hsingle, ?_, h.le_caret, h.caret_le⟩
  · rw [hmarked]
    exact h.framed
  · rw [hcaret, h.caret_eq, htext]

lemma rescope : pair.InName close d.rescope x y o :=
  h.of_marked ⟨h.placed.buffer, h.placed.cursors⟩ rfl h.isSingle rfl

lemma takeChanges : pair.InName close d.takeChanges.2 x y o :=
  h.of_marked ⟨h.placed.buffer.of_eq rfl rfl rfl, h.placed.cursors⟩ rfl h.isSingle rfl

lemma clearAll : pair.InName close { d with cursors := d.cursors.map Cursor.clear } x y o := by
  have halters : Document.Alters Text.OnlyLineFeeds d _ := .clearAll d
  obtain ⟨hplaced, hfollows⟩ := halters.placed h.placed
  exact h.of_marked hplaced rfl (hfollows.isSingle h.isSingle) (hfollows.caret rfl)

/-- Part of one of the names is replaced by a word. -/
lemma spliced (hij : i ≤ j)
    (hname : x.nameStart ≤ i ∧ j ≤ x.nameStop ∨ y.nameStart ≤ i ∧ j ≤ y.nameStop) {word : Text}
    (honly : word.OnlyLineFeeds) (hne : word ≠ []) (hslash : '/' ∉ word) (mode : UndoMode) :
    pair.InName close (d.spliced i j word mode) (x.move i j word.length) (y.move i j word.length)
      (Offset.moveCaret i j word.length o) := by
  have hxstop := h.framed.opening.liesAt.fits.le_stop
  have hystop := h.framed.closing.liesAt.fits.le_stop
  have hxlength : x.stop ≤ d.text.length := h.framed.opening.liesAt.fits.stop_le
  have hylength : y.stop ≤ d.text.length := h.framed.closing.liesAt.fits.stop_le
  have hj : j ≤ d.text.length := by omega
  have hle := h.le_caret
  have hle' := h.caret_le
  have ho : o ≤ d.text.length := by
    have hstop := (h.liesAt pair.active).fits.le_stop
    have hlength : (pair.active.pick x y).stop ≤ d.text.length := (h.liesAt pair.active).fits.stop_le
    omega
  have halters : Document.Alters Text.OnlyLineFeeds d _ := .splice d hij hj honly mode
  obtain ⟨hplaced, hfollows⟩ := halters.placed h.placed
  -- the caret goes where the ends of the name go, so it stays between them
  refine ⟨h.framed.replace h.placed.buffer.tidy.marked hij hname honly hne hslash, hplaced,
    hfollows.isSingle h.isSingle, ?_, ?_, ?_⟩
  · have hcaret : (d.spliced i j word mode).caret =
        (Change.ofOffsets d.text i j word).moveCaret d.caret :=
      CursorList.position_primary_follow h.placed.cursors.primary_lt _
    rw [hcaret, h.caret_eq]
    exact Change.moveCaret_positionOf h.placed.onlyLineFeeds honly hij hj ho
  · rw [Side.pick_move]
    exact Offset.moveStart_le_moveCaret hij hle word.length
  · rw [Side.pick_move]
    exact Offset.moveCaret_le_moveCaret hij hle' word.length

/-- Where the names may be made equal, they are, or a tag can be renamed. -/
lemma agrees_or_renames
    (hplain : isPlainName (d.text.slice (pair.active.pick x y).nameStart
      (pair.active.pick x y).nameStop) = true) :
    pair.Agrees d ∨
      pair.Renames d (pair.active.across.pick pair.opening close)
        (d.text.slice (pair.active.pick x y).nameStart (pair.active.pick x y).nameStop) := by
  have hclosing := h.framed.closing_eq
  have hopening := h.name?_eq .opening
  have hclose := h.name?_eq .closing
  by_cases hsame : d.text.slice x.nameStart x.nameStop = d.text.slice y.nameStart y.nameStop
  · left
    refine ⟨close, _, hclosing, hopening, ?_⟩
    rw [show close.name? d = _ from hclose]
    exact congrArg some hsame.symm
  · right
    refine
      { closing_ne := by rw [hclosing]; exact Option.some_ne_none _
        isSingle := h.isSingle
        other_eq := inactiveTag?_eq hclosing
        name_eq := by rw [activeTag_eq hclosing, h.name?_eq]
        otherName := ⟨_, h.name?_eq _, ?_⟩
        isPlainName := hplain
        activeTag_isValid := by rw [activeTag_eq hclosing]; exact h.isValid _
        other_isValid := h.isValid _ }
    cases pair.active with
    | opening => exact hsame
    | closing => exact fun heq => hsame heq.symm

/-- Once a tag is renamed the names are equal. -/
lemma agrees_spliced (hrenames : pair.Renames d (pair.active.across.pick pair.opening close) name)
    (hvalid : close.isValid (d.spliced (pair.active.across.pick x y).nameStart
      (pair.active.across.pick x y).nameStop name .merge) = true) :
    pair.Agrees (d.spliced (pair.active.across.pick x y).nameStart
      (pair.active.across.pick x y).nameStop name .merge) := by
  have honly := h.placed.onlyLineFeeds
  have hlies := h.liesAt pair.active.across
  have hname := hlies.fits.name_le
  have hstop := hlies.fits.le_stop
  have hlength : (pair.active.across.pick x y).stop ≤ d.text.length := hlies.fits.stop_le
  obtain ⟨a, b, hab, hb, hrange, -, hnames⟩ := h.pairLiesAt.renamed h.placed hrenames
  -- the range of the name is that of the spot
  rw [hlies.nameRange?_eq] at hrange
  obtain ⟨hstart, hstop'⟩ := Range.mk.inj (Option.some.inj hrange)
  obtain rfl := Text.positionOf_inj honly (by omega) (by omega) hstart
  obtain rfl := Text.positionOf_inj honly (by omega) hb hstop'
  refine hnames.resolve_right fun hinvalid => ?_
  rw [hvalid] at hinvalid
  cases hinvalid.1

lemma slice_eq_of_agrees (hagrees : pair.Agrees d) (side side' : Side) :
    d.text.slice (side.pick x y).nameStart (side.pick x y).nameStop =
      d.text.slice (side'.pick x y).nameStart (side'.pick x y).nameStop := by
  obtain ⟨found, shared, hfound, hopening, hclose⟩ := hagrees
  obtain rfl := Option.some.inj (h.framed.closing_eq.symm.trans hfound)
  have hboth : ∀ side : Side,
      d.text.slice (side.pick x y).nameStart (side.pick x y).nameStop = shared := by
    intro side
    have hname := h.name?_eq side
    cases side with
    | opening => exact Option.some.inj (hname.symm.trans hopening)
    | closing => exact Option.some.inj (hname.symm.trans hclose)
  rw [hboth, hboth]

/-- The names and the brackets around them stand one behind the other. -/
lemma in_order : x.nameStart ≤ x.nameStop ∧ x.nameStop + 1 ≤ x.stop ∧ x.stop ≤ y.start ∧
    y.start + 2 ≤ y.nameStart ∧ y.nameStart ≤ y.nameStop ∧ y.nameStop ≤ y.stop ∧
    y.stop ≤ d.text.length := by
  have hx := h.framed.opening
  have hy := h.framed.closing
  exact ⟨hx.liesAt.fits.name_le, hx.last_le, h.framed.apart, hy.first_le, hy.liesAt.fits.name_le,
    hy.liesAt.fits.le_stop, hy.liesAt.fits.stop_le⟩

/-! ### What is typed into the name -/

section

variable {i j : Nat} (hij : i ≤ j) (hi : (pair.active.pick x y).nameStart ≤ i)
  (hj : j ≤ (pair.active.pick x y).nameStop) (t : Text)

include hij hi hj

/-- The active name is what was before, what is typed and what was behind. -/
lemma slice_active :
    (d.text.splice i j t).slice ((pair.active.pick x y).move i j t.length).nameStart
        ((pair.active.pick x y).move i j t.length).nameStop =
      d.text.slice (pair.active.pick x y).nameStart i ++ t ++
        d.text.slice j (pair.active.pick x y).nameStop := by
  have hlies := h.liesAt pair.active
  have hstop := hlies.fits.le_stop
  have hlength : (pair.active.pick x y).stop ≤ d.text.length := hlies.fits.stop_le
  rw [Spot.move_of_name hlies.fits hij _ hi hj]
  exact Text.slice_splice_of_le_of_ge hij (by omega) hi hj

/-- The other name stays as it is. -/
lemma slice_inactive :
    (d.text.splice i j t).slice ((pair.active.across.pick x y).move i j t.length).nameStart
        ((pair.active.across.pick x y).move i j t.length).nameStop =
      d.text.slice (pair.active.across.pick x y).nameStart
        (pair.active.across.pick x y).nameStop := by
  obtain ⟨hxname, hxlast, hapart, hyfirst, hyname, hystop, hylength⟩ := h.in_order
  cases hactive : pair.active with
  | opening =>
    rw [hactive] at hi hj
    have hi : x.nameStart ≤ i := hi
    have hj : j ≤ x.nameStop := hj
    show (d.text.splice i j t).slice (y.move i j t.length).nameStart
      (y.move i j t.length).nameStop = d.text.slice y.nameStart y.nameStop
    rw [Spot.move_of_before h.framed.closing.liesAt.fits hij _ (by omega)]
    exact Text.slice_splice_of_ge hij (by omega) (by omega) hyname
  | closing =>
    rw [hactive] at hi hj
    have hi : y.nameStart ≤ i := hi
    have hj : j ≤ y.nameStop := hj
    show (d.text.splice i j t).slice (x.move i j t.length).nameStart
      (x.move i j t.length).nameStop = d.text.slice x.nameStart x.nameStop
    rw [Spot.move_of_behind h.framed.opening.liesAt.fits _ (by omega)]
    exact Text.slice_splice_of_le (by omega) (by omega)

/-- Giving the other tag the new name replaces both names and nothing else. -/
lemma splice_splice_eq (hname : d.text.slice (pair.active.pick x y).nameStart i ++ t ++
      d.text.slice j (pair.active.pick x y).nameStop = name) :
    (d.text.splice i j t).splice ((pair.active.across.pick x y).move i j t.length).nameStart
        ((pair.active.across.pick x y).move i j t.length).nameStop name =
      d.text.replaceBoth (d.text.rangeOf x.nameStart x.nameStop)
        (d.text.rangeOf y.nameStart y.nameStop) name := by
  obtain ⟨hxname, hxlast, hapart, hyfirst, hyname, hystop, hylength⟩ := h.in_order
  -- the open tag stands first, and only replacing its name moves the other one
  rw [Text.replaceBoth_rangeOf h.placed.onlyLineFeeds hxname (by omega) hyname (by omega)]
  cases hactive : pair.active with
  | opening =>
    rw [hactive] at hi hj hname
    have hi : x.nameStart ≤ i := hi
    have hj : j ≤ x.nameStop := hj
    have hlength : name.length + (j - i) = t.length + (x.nameStop - x.nameStart) := by
      rw [← hname]
      simp only [Side.pick, length_append, Text.slice, length_drop, length_take]
      omega
    have hname : d.text.slice x.nameStart i ++ t ++ d.text.slice j x.nameStop = name := hname
    rw [Text.splice_within hi hij hj (by omega), hname]
    show (d.text.splice x.nameStart x.nameStop name).splice (y.move i j t.length).nameStart
      (y.move i j t.length).nameStop name = _
    rw [Spot.move_of_before h.framed.closing.liesAt.fits hij _ (by omega),
      ← Text.splice_splice_of_le hxname (by omega) hyname (by omega)]
    congr 1 <;> dsimp only <;> omega
  | closing =>
    rw [hactive] at hi hj hname
    have hi : y.nameStart ≤ i := hi
    have hj : j ≤ y.nameStop := hj
    have hname : d.text.slice y.nameStart i ++ t ++ d.text.slice j y.nameStop = name := hname
    rw [Text.splice_within hi hij hj (by omega), hname]
    show (d.text.splice y.nameStart y.nameStop name).splice (x.move i j t.length).nameStart
      (x.move i j t.length).nameStop name = _
    rw [Spot.move_of_behind h.framed.opening.liesAt.fits _ (by omega)]
    exact Text.splice_splice_of_ge hxname (by omega) hyname (by omega) name

end

end InName

end TagPair

/-! ## Reactions -/

/-- A plain name is not structural by default. -/
lemma TagPair.isStructural_of_isPlainName (h : isPlainName name = true) :
    ({} : TagMatchingSettings).isStructural name = false := by
  have hnone : ∀ c ∈ "<>.#".toList, (c.isAlphanum || c == '@' || c == '_' || c == ':' || c == '-') =
      false := by decide
  rw [TagMatchingSettings.isStructural, any_eq_false]
  intro c hc hmem
  have hchar := all_eq_true.1 h c hc
  rw [hnone c (contains_iff_mem.1 hmem)] at hchar
  cases hchar

lemma TagPair.onlyLineFeeds_of_isPlainName (h : isPlainName name = true) :
    name.OnlyLineFeeds := by
  have hnone : ∀ c ∈ ['\n', '\r', '\x0b', '\x0c', '\u0085', '\u2028', '\u2029'],
      (c.isAlphanum || c == '@' || c == '_' || c == ':' || c == '-') = false := by decide
  intro c hc hbreak
  have hmem : c ∈ ['\n', '\r', '\x0b', '\x0c', '\u0085', '\u2028', '\u2029'] := by
    simpa [Text.isRowBreak, or_assoc] using hbreak
  have hchar := all_eq_true.1 h c hc
  rw [hnone c hmem] at hchar
  cases hchar

/-- A plain name with a plain text typed into it is plain. -/
lemma TagPair.isPlainName_typed {u t : Text} {a b i j : Nat} (hi : i ≤ b) (hj : a ≤ j)
    (hold : isPlainName (u.slice a b) = true) (ht : isPlainName t = true) :
    isPlainName (u.slice a i ++ t ++ u.slice j b) = true := by
  rw [isPlainName, all_eq_true] at hold ht ⊢
  intro c hc
  rw [mem_append, mem_append, Text.mem_slice, Text.mem_slice] at hc
  rcases hc with (⟨k, hk, hk', hchar⟩ | hc) | ⟨k, hk, hk', hchar⟩
  · exact hold c (Text.mem_slice.2 ⟨k, hk, by omega, hchar⟩)
  · exact ht c hc
  · exact hold c (Text.mem_slice.2 ⟨k, by omega, hk', hchar⟩)

lemma TagPair.slash_not_mem_of_isPlainName (h : isPlainName name = true) :
    '/' ∉ name := by
  intro hmem
  exact absurd (all_eq_true.1 h '/' hmem) (by decide)

/-- What is put in is recorded. -/
lemma Document.history_spliced (d : Document) (i j : Nat) {t : Text} (hne : t ≠ [])
    (mode : UndoMode) :
    (d.spliced i j t mode).buffer.history =
      d.buffer.history.record ⟨i, d.text.slice i j, t⟩ mode d.buffer.clock := by
  refine if_neg fun hempty => hne ?_
  rw [Bool.and_eq_true] at hempty
  exact List.isEmpty_iff.1 hempty.2

namespace Session

variable {pair : TagPair} {close : LiveTag} {x y : Spot} {o : Nat}

section

variable {m : Matcher} {d : Document} (hpair : m.pair = some pair) (hsettings : m.settings = {})
  (hplain : d.buffer.pending.any (m.settings.isStructural ·.newText) = false)
  (h : pair.InName close d x y o)

include hpair hsettings hplain h

/-- The reaction to typing in a name is to synchronize. -/
lemma reaction_eq_synchronize :
    reaction m d = (pair.synchronize d.takeChanges.2).map fun result => (result.1, m, result.2) := by
  refine Matcher.afterChanges_of_holds hpair hplain h.takeChanges.holds ?_
  rw [hsettings, h.takeChanges.nameTouches]
  rfl

/-- Names that agree are left alone. -/
lemma reaction_of_agrees (hagrees : pair.Agrees d) :
    reaction m d = .ok (false, m, d.takeChanges.2) := by
  have hagrees : pair.Agrees d.takeChanges.2 := hagrees
  rw [reaction_eq_synchronize hpair hsettings hplain h, TagPair.synchronize_of_agrees hagrees]
  rfl

/-- The other name is replaced by the one typed. -/
lemma reaction_of_renames
    (hrenames : pair.Renames d (pair.active.across.pick pair.opening close) name) :
    reaction m d = .ok (true, m, (d.takeChanges.2.spliced (pair.active.across.pick x y).nameStart
      (pair.active.across.pick x y).nameStop name .merge).rescope) := by
  have hlies := h.takeChanges.liesAt pair.active.across
  have hstop := hlies.fits.le_stop
  have hlength : (pair.active.across.pick x y).stop ≤ d.text.length := hlies.fits.stop_le
  have hrenames : pair.Renames d.takeChanges.2 (pair.active.across.pick pair.opening close) name :=
    { hrenames with }
  rw [reaction_eq_synchronize hpair hsettings hplain h,
    TagPair.synchronize_of_renames hrenames hlies.nameRange?_eq,
    Document.replace_rangeOf h.takeChanges.placed.onlyLineFeeds hlies.fits.name_le
      (show _ ≤ d.text.length by omega)]
  rfl

end

/-- Where the names are equal, the changes are seen and that is all. -/
lemma settleWithin_of_agrees (hpair : s.matcher.pair = some pair)
    (hsettings : s.matcher.settings = {}) (hpending : s.document.buffer.pending ≠ [])
    (hplain : s.document.buffer.pending.any (s.matcher.settings.isStructural ·.newText) = false)
    (h : pair.InName close s.document x y o) (hagrees : pair.Agrees s.document) (rounds : Nat) :
    s.settleWithin (rounds + 1) =
      { session := s.reacted false s.matcher s.document.takeChanges.2 } := by
  rw [settleWithin_of_ok hpending (reaction_of_agrees hpair hsettings hplain h hagrees)]
  exact settleWithin_of_nil rfl _

/-- After an edit in the name of the active tag, the other one has the same name, and both edits
are in one step. -/
lemma settle_of_inName (hpatience : 2 ≤ s.patience) (hpair : s.matcher.pair = some pair)
    (hsettings : s.matcher.settings = {}) (hpending : s.document.buffer.pending ≠ [])
    (hplain : s.document.buffer.pending.any (s.matcher.settings.isStructural ·.newText) = false)
    (h : pair.InName close s.document x y o) {name otherName : Text}
    (hname : s.document.text.slice (pair.active.pick x y).nameStart
      (pair.active.pick x y).nameStop = name)
    (hother : s.document.text.slice (pair.active.across.pick x y).nameStart
      (pair.active.across.pick x y).nameStop = otherName)
    (hne : name ≠ []) (hisPlain : TagPair.isPlainName name = true) :
    ∃ last, s.settle = { session := last } ∧ last.matcher = s.matcher ∧
      last.document.text = s.document.text.splice (pair.active.across.pick x y).nameStart
        (pair.active.across.pick x y).nameStop name ∧
      (otherName ≠ name → last.document.buffer.history = s.document.buffer.history.record
        ⟨(pair.active.across.pick x y).nameStart, otherName, name⟩ .merge
        s.document.buffer.clock) := by
  have hlies := h.liesAt pair.active.across
  have hstop := hlies.fits.le_stop
  have hlength : (pair.active.across.pick x y).stop ≤ s.document.text.length := hlies.fits.stop_le
  have honly : name.OnlyLineFeeds := by
    rw [← hname]
    exact h.placed.onlyLineFeeds.slice _ _
  have hslash := TagPair.slash_not_mem_of_isPlainName hisPlain
  obtain ⟨rounds, hrounds⟩ := Nat.exists_eq_add_of_le' hpatience
  rw [settle, hrounds]
  rcases h.agrees_or_renames (by rw [hname]; exact hisPlain) with hagrees | hrenames
  · -- the names are equal already
    have hsame : otherName = name := by
      rw [← hother, ← hname]
      exact h.slice_eq_of_agrees hagrees _ _
    refine ⟨_, settleWithin_of_agrees hpair hsettings hpending hplain h hagrees _, rfl, ?_, ?_⟩
    · show s.document.text = _
      rw [← hsame, ← hother, Text.splice_slice hlies.fits.name_le (by omega)]
    · exact fun hdiffer => absurd hsame hdiffer
  · rw [hname] at hrenames
    have hwithin := Side.within (Nat.le_refl (pair.active.across.pick x y).nameStart)
      (Nat.le_refl (pair.active.across.pick x y).nameStop)
    have hspliced := h.takeChanges.spliced hlies.fits.name_le hwithin honly hne hslash .merge
    have hagrees := h.takeChanges.agrees_spliced { hrenames with } (hspliced.isValid .closing)
    have hreaction := reaction_of_renames hpair hsettings hplain h hrenames
    generalize hrenamed : (s.document.takeChanges.2.spliced _ _ name .merge).rescope = renamed
      at hreaction
    -- all that is left to look at is the new name
    have hpending' : renamed.buffer.pending = [.ofOffsets s.document.text
        (pair.active.across.pick x y).nameStart (pair.active.across.pick x y).nameStop name] := by
      rw [← hrenamed]
      rfl
    have hplain' :
        renamed.buffer.pending.any (s.matcher.settings.isStructural ·.newText) = false := by
      rw [hpending', hsettings]
      show (({} : TagMatchingSettings).isStructural name || false) = false
      rw [TagPair.isStructural_of_isPlainName hisPlain]
      rfl
    have hsome : renamed.buffer.pending ≠ [] := by
      rw [hpending']
      exact cons_ne_nil _ _
    have hlast := settleWithin_of_agrees (s := s.reacted true s.matcher renamed) hpair hsettings
      hsome hplain' (by rw [← hrenamed]; exact hspliced.rescope)
      (by rw [← hrenamed]; exact hagrees) rounds
    rw [settleWithin_of_ok hpending hreaction]
    refine ⟨_, hlast, rfl, ?_, ?_⟩
    · show renamed.text = _
      rw [← hrenamed]
      rfl
    · intro _
      show renamed.buffer.history = _
      rw [← hrenamed, ← hother]
      exact s.document.takeChanges.2.history_spliced _ _ hne .merge

end Session

/-! ## Typing in a name -/

/-- The document once a text is typed in the stead of some characters. -/
def Document.typed (d : Document) (i j : Nat) (t : Text) : Document :=
  { d.spliced i j t .record with
    cursors := (d.spliced i j t .record).cursors.map Cursor.clear }.rescope

/-- Typing with a single cursor makes one edit. -/
lemma Document.type_of_isSingle {d : Document} (h : d.Placed) (hsingle : d.cursors.isSingle = true)
    (hij : i ≤ j) (hj : j ≤ d.text.length)
    (hedit : d.cursors.primary.editRange = d.text.rangeOf i j) (t : Text) :
    d.type t = .ok (d.typed i j t) := by
  have honly := h.onlyLineFeeds
  have hprimary := h.cursors.primary_lt
  rw [CursorList.isSingle, beq_iff_eq] at hsingle
  obtain ⟨c, hc⟩ := length_eq_one_iff.1 hsingle
  have htargets : d.typingTargets = [d.text.rangeOf i j] := by
    have hzero : d.cursors.primaryIndex = 0 := by omega
    rw [CursorList.primary, hzero, hc] at hedit
    rw [typingTargets, hc, ← hedit]
    exact mergeSort_singleton _
  have hi : d.text.offsetOf (d.text.positionOf i) = i := Text.offsetOf_positionOf honly (by omega)
  have hj' : d.text.offsetOf (d.text.positionOf j) = j := Text.offsetOf_positionOf honly hj
  rw [type_eq, htargets, foldlM_cons, splice?_eq, Text.rangeOf, hi, hj', if_neg (by omega)]
  rfl

/-! ## One step -/

lemma EditsLead.eq {edits : List Edit} {t u u' : Text} (h : EditsLead edits t u)
    (h' : EditsLead edits t u') : u = u' := by
  induction h generalizing u' with
  | nil => cases h'; rfl
  | cons _ hlast ih =>
    cases h' with
    | cons hrest' hlast' =>
      obtain rfl := ih hrest'
      rw [← hlast.splice_eq, hlast'.splice_eq]

lemma StepsLead.eq {steps steps' : List Step} {t u u' : Text} (h : StepsLead steps t u)
    (h' : StepsLead steps' t u') (hsame : steps.map Step.edits = steps'.map Step.edits) : u = u' := by
  induction h generalizing steps' u' with
  | nil =>
    obtain rfl := map_eq_nil_iff.1 hsame.symm
    cases h'
    rfl
  | cons _ hlast ih =>
    cases h' with
    | nil => cases hsame
    | cons hrest' hlast' =>
      obtain ⟨hedits, hrest⟩ := List.cons.inj hsame
      obtain rfl := ih hrest' hrest
      rw [hedits] at hlast
      exact hlast.eq hlast'

namespace History

/-- The edits of all steps, those to redo first. -/
def track (h : History) : List (List Edit) :=
  (h.redoSteps.map Step.edits).reverse ++ h.undoSteps.map Step.edits

lemma undoSteps_record_merge {h : History} {last : Step} {older : List Step}
    (hsteps : h.undoSteps = last :: older) (e : Edit) (now : Nat) :
    (h.record e .merge now).undoSteps = ⟨e :: last.edits, some now⟩ :: older := by
  unfold record
  dsimp only
  rw [hsteps]

/-- An edit that is recorded is the last of the last step, or absorbed by it. -/
lemma exists_last_of_record {h : History} (hcapacity : 0 < h.capacity) (e : Edit) (mode : UndoMode)
    (now : Nat) :
    ∃ last older latest earlier, (h.record e mode now).undoSteps = last :: older ∧
      last.edits = latest :: earlier ∧
      (latest = e ∨ ∃ previous : Edit, previous.absorb? e = some latest) := by
  rcases h.record_cases e mode now with hpush | ⟨last, older, step, -, henter, hedits⟩
  · rw [show h.record e mode now = _ from hpush h.capacity]
    show ∃ last older latest earlier, (if h.capacity < (_ :: h.undoSteps).length then
      List.dropLast _ else _) = last :: older ∧ _
    split
    · cases hundo : h.undoSteps with
      | nil =>
        rename_i hfull
        rw [hundo, length_singleton] at hfull
        omega
      | cons step steps =>
        rw [dropLast_cons_cons]
        exact ⟨_, _, e, [], rfl, rfl, .inl rfl⟩
    · exact ⟨_, _, e, [], rfl, rfl, .inl rfl⟩
  · rw [show h.record e mode now = _ from henter h.capacity]
    rcases hedits with hedits | ⟨previous, rest, both, -, habsorb, hedits⟩
    · exact ⟨step, older, e, last.edits, rfl, hedits, .inl rfl⟩
    · exact ⟨step, older, both, rest, rfl, hedits, .inr ⟨previous, habsorb⟩⟩

end History

namespace Buffer

variable {b : Buffer}

/-- Undo and redo move along one track of steps. -/
lemma track_perform {op : Operation} (hop : op = .undo ∨ op = .redo) :
    (b.perform op).history.track = b.history.track := by
  rcases hop with rfl | rfl
  · cases hsteps : b.history.undoSteps with
    | nil => rw [perform, apply, undo_of_nil hsteps]
    | cons last earlier =>
      rw [perform, apply, undo, undo?_of_cons hsteps]
      show (List.foldl replay _ _).history.track = _
      rw [history_foldl_replay, History.track, History.track, hsteps, map_cons, map_cons,
        reverse_cons, append_assoc]
      rfl
  · cases hsteps : b.history.redoSteps with
    | nil => rw [perform, apply, redo_of_nil hsteps]
    | cons next later =>
      rw [perform, apply, redo, redo?_of_cons hsteps]
      show (List.foldl replay _ _).history.track = _
      rw [history_foldl_replay, History.track, History.track, hsteps, map_cons, map_cons,
        reverse_cons, append_assoc]
      rfl

/-- Steps are undone and redone as they are. -/
lemma run_moves {base : Text} {n : Nat} (h : b.Chained base n) {moves : List Operation}
    (hmoves : ∀ move ∈ moves, move = .undo ∨ move = .redo) :
    (b.run moves).Chained base n ∧ (b.run moves).history.track = b.history.track := by
  induction moves generalizing b with
  | nil => exact ⟨h, rfl⟩
  | cons move moves ih =>
    have hmove := hmoves move mem_cons_self
    have hchained : (b.perform move).Chained base n := by
      rcases hmove with rfl | rfl
      · exact h.perform_undo
      · exact h.perform_redo
    obtain ⟨hrun, htrack⟩ := ih hchained fun other hother => hmoves other (mem_cons_of_mem _ hother)
    exact ⟨hrun, htrack.trans (track_perform hmove)⟩

/-- Two edits are in the last step, the one as it was made or absorbed by what was typed before it.
Undoing and redoing makes both of them or takes both of them back. -/
def Joins (b : Buffer) (typed partner : Edit) : Prop :=
  ∃ base step older latest earlier, b.history.undoSteps = step :: older ∧
    b.history.redoSteps = [] ∧ step.edits = partner :: latest :: earlier ∧
    (latest = typed ∨ ∃ previous : Edit, previous.absorb? typed = some latest) ∧
    ∀ moves : List Operation, (∀ move ∈ moves, move = .undo ∨ move = .redo) →
      StepsLead (b.run moves).history.undoSteps base (b.run moves).text ∧
      ((b.run moves).history.undoSteps.map Step.edits = step.edits :: older.map Step.edits ∧
          (b.run moves).text = b.text ∨
        (b.run moves).history.undoSteps.map Step.edits <:+ older.map Step.edits)

lemma joins_of_record {base : Text} {n : Nat} (h : b.Chained base n) {history : History}
    (hcapacity : 0 < history.capacity) {typed partner : Edit} {now now' : Nat}
    (hhistory : b.history = (history.record typed .record now).record partner .merge now') :
    b.Joins typed partner := by
  obtain ⟨last, older, latest, earlier, hlast, hedits, htyped⟩ :=
    History.exists_last_of_record hcapacity typed .record now
  have hundo : b.history.undoSteps = ⟨partner :: last.edits, some now'⟩ :: older := by
    rw [hhistory]
    exact History.undoSteps_record_merge hlast partner now'
  have hredo : b.history.redoSteps = [] := by
    rw [hhistory]
    exact History.redoSteps_record _ _ _ _
  refine ⟨base, _, older, latest, earlier, hundo, hredo, congrArg (partner :: ·) hedits, htyped, ?_⟩
  intro moves hmoves
  obtain ⟨hrun, htrack⟩ := run_moves h hmoves
  refine ⟨hrun.leads, ?_⟩
  unfold History.track at htrack
  rw [hundo, hredo, map_nil, reverse_nil, nil_append, map_cons] at htrack
  -- the step is the last of those left to undo, or the first one that was undone
  cases hundone : ((b.run moves).history.redoSteps.map Step.edits).reverse with
  | nil =>
    rw [hundone, nil_append] at htrack
    refine .inl ⟨htrack, hrun.leads.eq h.leads ?_⟩
    rw [htrack, hundo, map_cons]
  | cons first undone =>
    rw [hundone, cons_append] at htrack
    exact .inr ⟨undone, (List.cons.inj htrack).2⟩

end Buffer

/-! ## Renaming together -/

/-- The name of the tag stands between its brackets. -/
def LiveTag.framesName (tag : LiveTag) (d : Document) : Bool :=
  (tag.range? d).any fun r => (tag.nameRange? d).any fun name => tag.delimiters.any fun brackets =>
    decide (d.text.offsetOf r.start + brackets.1.length ≤ d.text.offsetOf name.start) &&
      decide (d.text.offsetOf name.stop + brackets.2.length ≤ d.text.offsetOf r.stop)

lemma LiveTag.LiesAt.framed {tag : LiveTag} {d : Document} {x : Spot} {first last : Text}
    (h : tag.LiesAt d.buffer.marked x) (honly : d.text.OnlyLineFeeds)
    (hdelimiters : tag.delimiters = some (first, last)) (hvalid : tag.isValid d = true)
    (hframes : tag.framesName d = true) : tag.Framed first last d.buffer.marked x := by
  obtain ⟨hstart, hname, hstop, hlength⟩ := h.fits
  have hlength : x.stop ≤ d.text.length := hlength
  obtain ⟨hunbroken, hhas⟩ := (h.isValid_iff honly).1 hvalid
  rw [framesName, h.range?_eq, h.nameRange?_eq, hdelimiters, Option.any_some, Option.any_some,
    Option.any_some, Bool.and_eq_true, decide_eq_true_eq, decide_eq_true_eq, Text.rangeOf,
    Text.rangeOf, Text.offsetOf_positionOf honly (by omega), Text.offsetOf_positionOf honly (by omega),
    Text.offsetOf_positionOf honly (by omega), Text.offsetOf_positionOf honly hlength] at hframes
  exact ⟨h, hdelimiters, hunbroken, hhas, hframes.1, hframes.2⟩

namespace Session

/-- What is typed next goes into the name of the active tag: a valid pair is shown, its names stand
between their brackets, the active one is plain, and what the cursor replaces lies in it. Of the
changes that nobody has looked at yet none is structural. -/
structure EditsName (s : Session) (pair : TagPair) (close : LiveTag) (active : Range) : Prop where
  pair_eq : s.matcher.pair = some pair
  closing_eq : pair.closing = some close
  isValid : pair.isValid s.document = true
  opening_frames : pair.opening.framesName s.document = true
  closing_frames : close.framesName s.document = true
  read : s.document.buffer.pending.any (s.matcher.settings.isStructural ·.newText) = false
  active_eq : pair.activeTag.nameRange? s.document = some active
  isPlainName : TagPair.isPlainName (s.document.text.inRange active) = true
  covers : active.covers s.document.cursors.primary.editRange = true

instance (s : Session) (pair : TagPair) (close : LiveTag) (active : Range) :
    Decidable (s.EditsName pair close active) :=
  decidable_of_iff
    (s.matcher.pair = some pair ∧ pair.closing = some close ∧ pair.isValid s.document = true ∧
      pair.opening.framesName s.document = true ∧ close.framesName s.document = true ∧
      s.document.buffer.pending.any (s.matcher.settings.isStructural ·.newText) = false ∧
      pair.activeTag.nameRange? s.document = some active ∧
      TagPair.isPlainName (s.document.text.inRange active) = true ∧
      active.covers s.document.cursors.primary.editRange = true)
    ⟨fun ⟨hpair, hclosing, hvalid, hopening, hclose, hread, hactive, hplain, hcovers⟩ =>
        ⟨hpair, hclosing, hvalid, hopening, hclose, hread, hactive, hplain, hcovers⟩,
      fun h => ⟨h.pair_eq, h.closing_eq, h.isValid, h.opening_frames, h.closing_frames, h.read,
        h.active_eq, h.isPlainName, h.covers⟩⟩

/-- Then the tags are framed, one before the other, and offsets tell what the cursor replaces. -/
lemma EditsName.exists_inName (h : s.EditsName pair close active) {base : List MarkerId}
    (hshows : Matcher.Shows base {} s.matcher s.document) :
    ∃ x y i j o, pair.InName close s.document x y o ∧ i ≤ j ∧ (o = i ∨ o = j) ∧
      s.document.cursors.primary.editRange = s.document.text.rangeOf i j ∧
      (pair.active.pick x y).nameStart ≤ i ∧ j ≤ (pair.active.pick x y).nameStop := by
  have hsound := hshows.sound
  have honly := hsound.onlyLineFeeds
  obtain ⟨x, y, hlies, hclean⟩ := hshows.layout pair close h.pair_eq h.closing_eq
  have hclean : Clean s.document.text x y := by
    refine (hclean (by decide)).resolve_right fun hstructural => ?_
    have hread := h.read
    rw [hshows.settings_eq, hstructural] at hread
    cases hread
  have hvalid : ∀ tag ∈ pair.tags, tag.isValid s.document = true := all_eq_true.1 h.isValid
  have hopeningValid : pair.opening.isValid s.document = true := hvalid _ mem_cons_self
  have hclosingValid : close.isValid s.document = true := by
    refine hvalid close ?_
    rw [TagPair.tags, h.closing_eq]
    exact mem_cons_of_mem _ mem_cons_self
  have hopening := hlies.opening.framed honly hlies.opening_delimiters hopeningValid h.opening_frames
  have hclosing := hlies.closing.framed honly hlies.closing_delimiters hclosingValid h.closing_frames
  -- the last bracket of the open tag is not in the close tag
  have hapart : x.stop ≤ y.start := by
    obtain ⟨-, hlast, hlong⟩ := hlies.opening.brackets honly hopeningValid hlies.opening_delimiters
    by_contra hoverlap
    exact hclean.overlap (Text.mem_slice.2 ⟨x.stop - 1, by omega, by omega, hlast⟩)
  have hframed : pair.Framed close s.document.buffer.marked x y :=
    ⟨hopening, hclosing, hlies.opening_kind, hlies.closing_kind, hlies.closing_eq, hapart⟩
  obtain ⟨i, j, o, hij, hj, hedit, hcaret, ho⟩ :=
    hsound.cursors.primary.exists_editRange honly
  have hactive : (pair.active.pick pair.opening close).LiesAt s.document.buffer.marked
      (pair.active.pick x y) := by
    cases pair.active with
    | opening => exact hlies.opening
    | closing => exact hlies.closing
  have hlength : (pair.active.pick x y).stop ≤ s.document.text.length := hactive.fits.stop_le
  have hname := hactive.fits.name_le
  have hstop := hactive.fits.le_stop
  have hrange := h.active_eq
  rw [TagPair.activeTag_eq h.closing_eq, hactive.nameRange?_eq] at hrange
  have hcovers := h.covers
  rw [← Option.some.inj hrange, hedit, Range.covers, Bool.and_eq_true, decide_eq_true_eq,
    decide_eq_true_eq] at hcovers
  have hle := (Text.positionOf_le_iff honly (by omega) (by omega)).1 hcovers.1
  have hle' := (Text.positionOf_le_iff honly (by omega) (by omega)).1 hcovers.2
  refine ⟨x, y, i, j, o, ⟨hframed, hsound.toPlaced, ?_, hcaret, by omega, by omega⟩, hij, ho, hedit,
    hle, hle'⟩
  exact (hshows.shown pair h.pair_eq).isSingle

/-- The range of the active name is that of its spot. -/
lemma EditsName.active_eq_rangeOf (h : s.EditsName pair close active) {x y : Spot} {o : Nat}
    (hin : pair.InName close s.document x y o) :
    active = s.document.text.rangeOf (pair.active.pick x y).nameStart
      (pair.active.pick x y).nameStop := by
  have hrange := h.active_eq
  rw [TagPair.activeTag_eq h.closing_eq, (hin.liesAt pair.active).nameRange?_eq] at hrange
  exact (Option.some.inj hrange).symm

/-- Typing starts from the pair as it is shown, since that holds. -/
lemma EditsName.edited?_eq (h : s.EditsName pair close active) (hsettings : s.matcher.settings = {})
    (hholds : Matcher.holds pair s.document = true) {t : Text} (ht : TagPair.isPlainName t = true)
    {d : Document} (hd : s.document.type t = .ok d) :
    s.edited? (.type t) = some { s with document := d } := by
  have hprepare : s.matcher.beforeTyping s.document t = (s.matcher, s.document) := by
    unfold Matcher.beforeTyping
    rw [h.pair_eq]
    dsimp only
    rw [hsettings, TagPair.isStructural_of_isPlainName ht, hholds]
    rfl
  have hprepared : s.prepared (.type t) = s := by
    show { s with
      matcher := (s.matcher.beforeTyping s.document t).1
      document := (s.matcher.beforeTyping s.document t).2 } = s
    rw [hprepare]
  show ((s.prepared (.type t)).document.type t).toOption.map
    (fun d => { s.prepared (.type t) with document := d }) = _
  rw [hprepared, hd]
  rfl

/-- After typing in a name the two names are replaced, and what was typed is recorded before the
other name. -/
lemma EditsName.exists_settled (h : s.EditsName pair close active) (hpatience : 2 ≤ s.patience)
    {base : List MarkerId}
    (hshows : Matcher.Shows base {} s.matcher s.document) {t : Text} (hne : t ≠ [])
    (ht : TagPair.isPlainName t = true) {x y : Spot} {i j o : Nat}
    (hin : pair.InName close s.document x y o) (hij : i ≤ j)
    (hedit : s.document.cursors.primary.editRange = s.document.text.rangeOf i j)
    (hi : (pair.active.pick x y).nameStart ≤ i) (hj : j ≤ (pair.active.pick x y).nameStop)
    {name otherName : Text}
    (hname : s.document.text.slice (pair.active.pick x y).nameStart i ++ t ++
      s.document.text.slice j (pair.active.pick x y).nameStop = name)
    (hother : s.document.text.slice (pair.active.across.pick x y).nameStart
      (pair.active.across.pick x y).nameStop = otherName) :
    ∃ edited last offset, s.edited? (.type t) = some edited ∧ edited.settle = { session := last } ∧
      last.matcher = s.matcher ∧
      last.document.text = s.document.text.replaceBoth
        (s.document.text.rangeOf x.nameStart x.nameStop)
        (s.document.text.rangeOf y.nameStart y.nameStop) name ∧
      (otherName ≠ name → last.document.buffer.history =
        (s.document.buffer.history.record ⟨i, s.document.text.slice i j, t⟩ .record
          s.document.buffer.clock).record ⟨offset, otherName, name⟩ .merge
          s.document.buffer.clock) := by
  have honly := hin.placed.onlyLineFeeds
  have hlies := hin.liesAt pair.active
  have hstop := hlies.fits.le_stop
  have hlength : (pair.active.pick x y).stop ≤ s.document.text.length := hlies.fits.stop_le
  have hplain : TagPair.isPlainName name = true := by
    have hold := h.isPlainName
    rw [h.active_eq_rangeOf hin, Text.rangeOf,
      Text.inRange_positionOf honly (by omega) (by omega)] at hold
    rw [← hname]
    exact TagPair.isPlainName_typed (by omega) (by omega) hold ht
  have hnameNe : name ≠ [] := by
    rw [← hname]
    intro hnil
    exact hne (append_eq_nil_iff.1 (append_eq_nil_iff.1 hnil).1).2
  -- the document with the text typed, before the matcher has seen it
  have htype := Document.type_of_isSingle hin.placed hin.isSingle hij (by omega) hedit t
  have htyped : pair.InName close (s.document.typed i j t) _ _ _ :=
    (hin.spliced hij (Side.within hi hj) (TagPair.onlyLineFeeds_of_isPlainName ht) hne
      (TagPair.slash_not_mem_of_isPlainName ht) .record).clearAll.rescope
  have hnewName : (s.document.typed i j t).text.slice
      (pair.active.pick (x.move i j t.length) (y.move i j t.length)).nameStart
      (pair.active.pick (x.move i j t.length) (y.move i j t.length)).nameStop = name := by
    rw [Side.pick_move, ← hname]
    exact hin.slice_active hij hi hj t
  have hnewOther : (s.document.typed i j t).text.slice
      (pair.active.across.pick (x.move i j t.length) (y.move i j t.length)).nameStart
      (pair.active.across.pick (x.move i j t.length) (y.move i j t.length)).nameStop = otherName := by
    rw [Side.pick_move, ← hother]
    exact hin.slice_inactive hij hi hj t
  -- the change is plain, so that the pair is kept and the names are made equal
  have hpending : (s.document.typed i j t).buffer.pending =
      s.document.buffer.pending ++ [.ofOffsets s.document.text i j t] := rfl
  obtain ⟨last, hsettle, hmatcher, htext, hhistory⟩ := settle_of_inName
    (s := { s with document := s.document.typed i j t }) hpatience h.pair_eq hshows.settings_eq
    (by dsimp only; rw [hpending]; exact append_ne_nil_of_right_ne_nil _ (cons_ne_nil _ _))
    (by
      dsimp only
      rw [hpending, any_append, h.read, hshows.settings_eq]
      show (false || (({} : TagMatchingSettings).isStructural t || false)) = false
      rw [TagPair.isStructural_of_isPlainName ht]
      rfl)
    htyped hnewName hnewOther hnameNe hplain
  refine ⟨_, last, (pair.active.across.pick (x.move i j t.length) (y.move i j t.length)).nameStart,
    h.edited?_eq hshows.settings_eq hin.holds ht htype, hsettle, hmatcher, ?_, fun hdiffer => ?_⟩
  · rw [htext, Side.pick_move]
    exact hin.splice_splice_eq hij hi hj t hname
  · have hrecord : (s.document.typed i j t).buffer.history =
        s.document.buffer.history.record ⟨i, s.document.text.slice i j, t⟩ .record
          s.document.buffer.clock := s.document.history_spliced i j hne .record
    rw [hhistory hdiffer]
    dsimp only
    rw [hrecord]
    rfl

/-- What is typed into the name of a tag goes into the name of its partner as well, and nothing else
is changed. The pair stays shown, and both edits are undone and redone together. -/
theorem run_renamesTogether (d : Document) (hd : d.Sound) (hnumbered : d.buffer.markers.Numbered)
    (settings : Settings) (hdefault : settings.tagMatching = {}) (ops : List Operation)
    (hops : ∀ op ∈ ops, op.inserted.OnlyLineFeeds) (pair : TagPair) (close : LiveTag) (active : Range)
    (hedits : ((Session.start d settings).run ops).EditsName pair close active) (t : Text)
    (hne : t ≠ []) (ht : TagPair.isPlainName t = true) :
    let s := (Session.start d settings).run ops
    let edit := s.document.cursors.primary.editRange
    let name := s.document.text.inRange ⟨active.start, edit.start⟩ ++ t ++
      s.document.text.inRange ⟨edit.stop, active.stop⟩
    let after := s.perform (.type t)
    ∃ first second, pair.opening.nameRange? s.document = some first ∧
      close.nameRange? s.document = some second ∧ after.error = none ∧ after.unsettled = false ∧
      after.session.document.text = s.document.text.replaceBoth first second name ∧
      after.session.matcher.pair = some pair ∧
      ∀ other otherName, pair.inactiveTag? = some other → other.name? s.document = some otherName →
        otherName ≠ name → ∃ offset, after.session.document.buffer.Joins
          ⟨s.document.text.offsetOf edit.start, s.document.text.inRange edit, t⟩
          ⟨offset, otherName, name⟩ := by
  intro s edit name after
  have hshows : Matcher.Shows d.buffer.markers.ids {} s.matcher s.document := by
    rw [← hdefault]
    exact run_shows hd hnumbered settings 1000 (by decide) hops
  have hpatience : 2 ≤ s.patience := by
    rw [show s.patience = 1000 from patience_run _ ops]
    decide
  have hafter : Matcher.Shows _ _ after.session.matcher after.session.document :=
    shows_perform hpatience hshows (TagPair.onlyLineFeeds_of_isPlainName ht)
  have hedits : s.EditsName pair close active := hedits
  obtain ⟨x, y, i, j, o, hin, hij, -, hedit, hi, hj⟩ := hedits.exists_inName hshows
  have honly := hin.placed.onlyLineFeeds
  have hstop := (hin.liesAt pair.active).fits.le_stop
  have hlength : (pair.active.pick x y).stop ≤ s.document.text.length :=
    (hin.liesAt pair.active).fits.stop_le
  have hedit : edit = s.document.text.rangeOf i j := hedit
  -- what is said in ranges, in offsets
  have hname : s.document.text.slice (pair.active.pick x y).nameStart i ++ t ++
      s.document.text.slice j (pair.active.pick x y).nameStop = name := by
    show _ = s.document.text.inRange ⟨active.start, edit.start⟩ ++ t ++
      s.document.text.inRange ⟨edit.stop, active.stop⟩
    rw [hedits.active_eq_rangeOf hin, hedit, Text.rangeOf, Text.rangeOf,
      Text.inRange_positionOf honly (by omega) (by omega),
      Text.inRange_positionOf honly (by omega) (by omega)]
  have hremoved : s.document.text.inRange edit = s.document.text.slice i j := by
    rw [hedit, Text.rangeOf, Text.inRange_positionOf honly (by omega) (by omega)]
  have hoffset : s.document.text.offsetOf edit.start = i := by
    rw [hedit, Text.rangeOf, Text.offsetOf_positionOf honly (by omega)]
  obtain ⟨edited, last, offset, hedited, hsettle, hmatcher, htext, hhistory⟩ :=
    hedits.exists_settled hpatience hshows hne ht hin hij hedit hi hj hname rfl
  have hperform : after = s.transaction fun _ => { session := last } := by
    rw [← hsettle]
    exact perform_of_edited? hedited
  have hcore : after.session.core = last.core := by
    rw [hperform, core_transaction]
  obtain ⟨hmatcher', hdocument⟩ := Prod.mk.inj hcore
  refine ⟨_, _, hin.framed.opening.liesAt.nameRange?_eq, hin.framed.closing.liesAt.nameRange?_eq,
    ?_, ?_, ?_, ?_, ?_⟩
  · rw [hperform]
    rfl
  · rw [hperform]
    rfl
  · rw [hdocument]
    exact htext
  · rw [hmatcher', hmatcher]
    exact hedits.pair_eq
  · intro other otherName hother hotherName hdiffer
    obtain ⟨base, n, -, hchained⟩ := hafter.sound.buffer.chained
    obtain ⟨_, m, hm, hbefore⟩ := hshows.sound.buffer.chained
    obtain rfl := Option.some.inj ((TagPair.inactiveTag?_eq hin.framed.closing_eq).symm.trans hother)
    obtain rfl := Option.some.inj ((hin.name?_eq _).symm.trans hotherName)
    have hcapacity : 0 < s.document.buffer.history.capacity := by
      rw [hbefore.capacity_eq]
      exact hm
    have hlast := hhistory hdiffer
    rw [← show after.session.document = last.document from hdocument] at hlast
    rw [hoffset, hremoved]
    exact ⟨offset, Buffer.joins_of_record hchained hcapacity hlast⟩

/-- A `b` typed behind the name of the open tag is typed behind that of the close tag as well. -/
theorem run_renamesTogether_sampleElement :
    let s := (Session.start sampleElement {}).run [.moveCursor ⟨0, 2⟩]
    let after := s.perform (.type "b".toList)
    s.matcher.pair ≠ none ∧ after.session.matcher.pair = s.matcher.pair ∧
      after.session.document.text = "<ab></ab>".toList ∧
      ∃ typed partner, typed.inserted = ['b'] ∧ partner.removed = ['a'] ∧
        after.session.document.buffer.Joins typed partner := by
  intro s after
  -- one evaluation of the session before and behind the typing
  obtain ⟨hedits, hother, htext⟩ : s.EditsName ⟨⟨.opening, some (['<'], ['>']), 0, some 1⟩,
      some ⟨.closing, some (['<', '/'], ['>']), 2, some 3⟩, .opening⟩
      ⟨.closing, some (['<', '/'], ['>']), 2, some 3⟩ ⟨⟨0, 1⟩, ⟨0, 2⟩⟩ ∧
      LiveTag.name? ⟨.closing, some (['<', '/'], ['>']), 2, some 3⟩ s.document = some ['a'] ∧
      after.session.document.text = "<ab></ab>".toList := by decide +kernel
  obtain ⟨first, second, -, -, -, -, -, hshown, hjoins⟩ := run_renamesTogether sampleElement
    sound_sampleElement numbered_sampleElement {} rfl [.moveCursor ⟨0, 2⟩] (by decide) _ _ _ hedits
    "b".toList (by decide) (by decide)
  obtain ⟨offset, hjoins⟩ := hjoins _ _ rfl hother (by decide +kernel)
  refine ⟨?_, hshown.trans hedits.pair_eq.symm, htext, _, _, rfl, rfl, hjoins⟩
  rw [hedits.pair_eq]
  exact Option.some_ne_none _

/-- What is taken for the close tag of `<b>` is not valid, so that typing in its name drops the pair,
and the name of the open tag stays as it is. -/
theorem type_sampleWordless :
    let s := (Session.start ((Document.ofText .marko "<b><_></b>".toList).setCursor ⟨0, 4⟩) {}).run
      [.moveCursor ⟨0, 8⟩]
    let after := s.perform (.type "t".toList)
    (∃ pair active, s.matcher.pair = some pair ∧ pair.closing ≠ none ∧
      pair.activeTag.nameRange? s.document = some active ∧
      TagPair.isPlainName (s.document.text.inRange active) = true ∧
      active.covers s.document.cursors.primary.editRange = true) ∧
    after.session.document.text = "<b><_></tb>".toList ∧ after.session.matcher.pair = none := by
  intro s after
  refine And.imp_left (fun h => ⟨⟨⟨.opening, some (['<'], ['>']), 0, some 1⟩,
    some ⟨.closing, some (['<', '/'], ['>']), 2, some 3⟩, .closing⟩, ⟨⟨0, 8⟩, ⟨0, 9⟩⟩, h⟩) ?_
  decide +kernel

end Session

end TemplateEditing
