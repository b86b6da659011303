import TemplateEditing.Change
import TemplateEditing.Proofs.Text.Place

/-!
# Changes by offsets

Positions move with a change by rows and columns. For texts whose only row terminator is the line
feed that comes to plain arithmetic on offsets: what lies behind the replaced characters moves by
the difference of the lengths, what lies before stays (`Change.moveCaret_positionOf`,
`Change.moveStart_positionOf`, `Change.moveRange_rangeOf`).
-/

namespace TemplateEditing

open List

variable {o x y : Nat}

/-! ## Spliced texts -/

namespace Text

/-- The range from one offset up to another. -/
def rangeOf (t : Text) (a b : Nat) : Range := ⟨t.positionOf a, t.positionOf b⟩

variable {t inserted : Text} {i j : Nat}

lemma OnlyLineFeeds.slice (h : OnlyLineFeeds t) (i j : Nat) : OnlyLineFeeds (t.slice i j) :=
  (h.take j).drop i

lemma OnlyLineFeeds.splice (h : OnlyLineFeeds t) (hinserted : OnlyLineFeeds inserted)
    (i j : Nat) : OnlyLineFeeds (t.splice i j inserted) :=
  ((h.take i).append hinserted).append (h.drop j)

lemma length_splice (hij : i ≤ j) (hj : j ≤ t.length) :
    (t.splice i j inserted).length = t.length + inserted.length - (j - i) := by
  rw [Text.splice, length_append, length_append, length_take, length_drop]
  omega

lemma take_splice (hi : i ≤ t.length) (ho : o ≤ i) :
    (t.splice i j inserted).take o = t.take o := by
  have hlength : (t.take i).length = i := by
    rw [length_take]
    omega
  rw [Text.splice, append_assoc, take_append_of_le_length (by omega), take_take,
    Nat.min_eq_left ho]

lemma drop_splice (hi : i ≤ t.length) :
    (t.splice i j inserted).drop (i + inserted.length) = t.drop j := by
  apply drop_left'
  rw [length_append, length_take]
  omega

lemma slice_splice (hi : i ≤ t.length) :
    (t.splice i j inserted).slice i (i + inserted.length) = inserted := by
  have hlength : (t.take i).length = i := by
    rw [length_take]
    omega
  have hfront : (t.take i ++ inserted).length = i + inserted.length := by
    rw [length_append, hlength]
  rw [Text.slice, Text.splice, take_left' hfront, drop_left' hlength]

lemma getElem?_slice (t : Text) (x y k : Nat) :
    (t.slice x y)[k]? = if x + k < y then t[x + k]? else none := by
  rw [slice, getElem?_drop, getElem?_take]

lemma mem_slice {c : Char} :
    c ∈ t.slice x y ↔ ∃ k, x ≤ k ∧ k < y ∧ t[k]? = some c := by
  rw [mem_iff_getElem?]
  constructor
  · rintro ⟨k, hk⟩
    rw [getElem?_slice] at hk
    split at hk
    · exact ⟨x + k, Nat.le_add_right x k, ‹_›, hk⟩
    · cases hk
  · rintro ⟨k, hx, hy, hk⟩
    refine ⟨k - x, ?_⟩
    rw [getElem?_slice, Nat.add_sub_cancel' hx, if_pos hy, hk]

/-- The characters of a text once some of them are replaced. -/
lemma getElem?_splice (hij : i ≤ j) (hj : j ≤ t.length) (k : Nat) :
    (t.splice i j inserted)[k]? =
      if k < i then t[k]? else if k < i + inserted.length then inserted[k - i]?
      else t[k + (j - i) - inserted.length]? := by
  have hlength : (t.take i).length = i := by
    rw [length_take]
    omega
  rw [splice, append_assoc]
  split
  · rw [getElem?_append_left (by omega), getElem?_take_of_lt (by omega)]
  · rw [getElem?_append_right (by omega), hlength]
    split
    · rw [getElem?_append_left (by omega)]
    · rw [getElem?_append_right (by omega), getElem?_drop]
      congr 1
      omega

/-- What stands before the replaced characters stays. -/
lemma slice_splice_of_le (hi : i ≤ t.length) (hy : y ≤ i) :
    (t.splice i j inserted).slice x y = t.slice x y := by
  rw [slice, slice, take_splice hi hy]

lemma slice_eq_take_drop (t : Text) (x y : Nat) : t.slice x y = (t.drop x).take (y - x) := by
  rw [slice, drop_take]

/-- What stands behind the replaced characters moves along. -/
lemma slice_splice_of_ge (hij : i ≤ j) (hj : j ≤ t.length) (hx : j ≤ x) (hxy : x ≤ y) :
    (t.splice i j inserted).slice (x + inserted.length - (j - i)) (y + inserted.length - (j - i)) =
      t.slice x y := by
  have hi : i ≤ t.length := by omega
  rw [slice_eq_take_drop, slice_eq_take_drop,
    show x + inserted.length - (j - i) = i + inserted.length + (x - j) by omega, ← drop_drop,
    drop_splice hi, drop_drop, show j + (x - j) = x by omega]
  congr 1
  omega

/-- A text between two offsets is cut anywhere between them. -/
lemma slice_append_slice (t : Text) {x y z : Nat} (hxy : x ≤ y) (hyz : y ≤ z) (hy : y ≤ t.length) :
    t.slice x y ++ t.slice y z = t.slice x z := by
  have hlength : x ≤ (t.take y).length := by
    rw [length_take]
    omega
  have hsplit := (take_append_drop y (t.take z)).symm
  rw [take_take, Nat.min_eq_left hyz] at hsplit
  rw [slice, slice, slice, hsplit, drop_append_of_le_length hlength, ← hsplit]

/-- What stands around the replaced characters has them replaced. -/
lemma slice_splice_of_le_of_ge (hij : i ≤ j) (hj : j ≤ t.length) (hx : x ≤ i) (hy : j ≤ y) :
    (t.splice i j inserted).slice x (y + inserted.length - (j - i)) =
      t.slice x i ++ inserted ++ t.slice j y := by
  have hi : i ≤ t.length := by omega
  have hlength : (t.splice i j inserted).length = t.length + inserted.length - (j - i) :=
    length_splice hij hj
  rw [← slice_append_slice _ (show x ≤ i + inserted.length by omega)
      (show i + inserted.length ≤ y + inserted.length - (j - i) by omega) (by omega),
    ← slice_append_slice _ hx (Nat.le_add_right i _) (by omega), slice_splice_of_le hi (Nat.le_refl i),
    slice_splice hi]
  have hbehind : (t.splice i j inserted).slice (j + inserted.length - (j - i))
      (y + inserted.length - (j - i)) = t.slice j y :=
    slice_splice_of_ge hij hj (Nat.le_refl j) hy
  rw [show j + inserted.length - (j - i) = i + inserted.length by omega] at hbehind
  rw [hbehind]

/-- Before the replaced characters every offset keeps its position. -/
lemma positionOf_splice (h : OnlyLineFeeds t) (hinserted : OnlyLineFeeds inserted)
    (hi : i ≤ t.length) (ho : o ≤ i) :
    (t.splice i j inserted).positionOf o = t.positionOf o := by
  rw [positionOf_eq_place (h.splice hinserted i j), positionOf_eq_place h, take_splice hi ho]

/-- The position of an offset is that of an earlier one and the place of the text between. -/
lemma positionOf_add_place (h : OnlyLineFeeds t) (i n : Nat) :
    t.positionOf (i + n) = t.positionOf i + place ((t.drop i).take n) := by
  rw [positionOf_eq_place h, positionOf_eq_place h, take_add, place_append]

end Text

/-! ## Where offsets go -/

namespace Offset

/-- Where a caret or the end of a marked range goes when the characters from `i` up to `j` give
way to `n` others. -/
def moveCaret (i j n o : Nat) : Nat := if o < i then o else if j ≤ o then o + n - (j - i) else i + n

/-- Where the start of a marked range goes. -/
def moveStart (i j n o : Nat) : Nat := if o ≤ i then o else if j ≤ o then o + n - (j - i) else i

lemma moveCaret_cases (i j n o : Nat) :
    (o < i ∧ moveCaret i j n o = o) ∨ (i ≤ o ∧ j ≤ o ∧ moveCaret i j n o = o + n - (j - i)) ∨
      (i ≤ o ∧ o < j ∧ moveCaret i j n o = i + n) := by
  unfold moveCaret
  split
  · omega
  · split <;> omega

lemma moveStart_cases (i j n o : Nat) :
    (o ≤ i ∧ moveStart i j n o = o) ∨ (i < o ∧ j ≤ o ∧ moveStart i j n o = o + n - (j - i)) ∨
      (i < o ∧ o < j ∧ moveStart i j n o = i) := by
  unfold moveStart
  split
  · omega
  · split <;> omega

lemma moveStart_le_moveCaret {i j a b : Nat} (hij : i ≤ j) (hab : a ≤ b) (n : Nat) :
    moveStart i j n a ≤ moveCaret i j n b := by
  unfold moveStart moveCaret
  -- one case for each pair of places the two can have to the replaced characters
  repeat' split
  all_goals omega

/-- Where a caret goes keeps the order. -/
lemma moveCaret_le_moveCaret {i j a b : Nat} (hij : i ≤ j) (hab : a ≤ b) (n : Nat) :
    moveCaret i j n a ≤ moveCaret i j n b := by
  unfold moveCaret
  repeat' split
  all_goals omega

lemma moveCaret_le {i j length b : Nat} (hij : i ≤ j) (hj : j ≤ length) (hb : b ≤ length)
    (n : Nat) : moveCaret i j n b ≤ length + n - (j - i) := by
  unfold moveCaret
  repeat' split
  all_goals omega

end Offset

/-- Between where the start and the end of a marker go, all is new or was there before. -/
lemma Text.mem_slice_splice {t inserted : Text} {i j : Nat} (hij : i ≤ j) (hj : j ≤ t.length)
    {x y lo : Nat} {c : Char}
    (hlo : lo = Offset.moveStart i j inserted.length x ∨ lo = Offset.moveCaret i j inserted.length x)
    (h : c ∈ (t.splice i j inserted).slice lo (Offset.moveCaret i j inserted.length y)) :
    c ∈ t.slice x y ∨ c ∈ inserted := by
  obtain ⟨k, hx, hy, hk⟩ := mem_slice.1 h
  rw [getElem?_splice hij hj] at hk
  have hstart := Offset.moveStart_cases i j inserted.length x
  have hcaret := Offset.moveCaret_cases i j inserted.length x
  have hstop := Offset.moveCaret_cases i j inserted.length y
  split at hk
  · exact .inl (mem_slice.2 ⟨k, by omega, by omega, hk⟩)
  · split at hk
    · exact .inr (mem_of_getElem? hk)
    · exact .inl (mem_slice.2 ⟨_, by omega, by omega, hk⟩)

namespace Change

/-- What replacing the characters from `i` up to `j` changes. -/
def ofOffsets (t : Text) (i j : Nat) (inserted : Text) : Change :=
  { old := t.rangeOf i j
    new := ⟨t.positionOf i, (t.splice i j inserted).positionOf (i + inserted.length)⟩
    oldText := t.slice i j
    newText := inserted }

/-- What lies behind the replaced text keeps its distance from the end of it. -/
lemma shift_add (c : Change) (q : Position) : c.shift (c.old.stop + q) = c.new.stop + q := by
  rw [Position.add_def, Position.add_def, shift]
  by_cases hq : q.row = 0
  · -- on the row of the end the column moves
    rw [if_pos hq, if_pos hq, if_pos rfl, Nat.add_sub_cancel_left]
  · -- further down only the row does
    rw [if_neg hq, if_neg hq, if_neg]
    · rw [Nat.add_sub_cancel_left, Nat.add_comm]
    · show ¬ c.old.stop.row + q.row = c.old.stop.row
      omega

section

variable {t inserted : Text} {i j : Nat} (ht : t.OnlyLineFeeds)
  (hinserted : inserted.OnlyLineFeeds) (hij : i ≤ j) (hj : j ≤ t.length)

include ht hinserted hij hj

lemma shift_positionOf (ho : j ≤ o) :
    (ofOffsets t i j inserted).shift (t.positionOf o) =
      (t.splice i j inserted).positionOf (o + inserted.length - (j - i)) := by
  -- the same text lies between the end of the replaced text and `o`, before and after
  have hold : t.positionOf o = t.positionOf j + Text.place ((t.drop j).take (o - j)) := by
    rw [← Text.positionOf_add_place ht, Nat.add_sub_cancel' ho]
  have hoffset : o + inserted.length - (j - i) = i + inserted.length + (o - j) := by omega
  have hi : i ≤ t.length := by omega
  rw [hold, hoffset, Text.positionOf_add_place (ht.splice hinserted i j), Text.drop_splice hi]
  exact shift_add (ofOffsets t i j inserted) _

lemma moveCaret_positionOf (ho : o ≤ t.length) :
    (ofOffsets t i j inserted).moveCaret (t.positionOf o) =
      (t.splice i j inserted).positionOf (Offset.moveCaret i j inserted.length o) := by
  have hi : i ≤ t.length := by omega
  have hbefore : t.positionOf o < (ofOffsets t i j inserted).old.start ↔ o < i :=
    Text.positionOf_lt_iff ht ho hi
  have hbehind : (ofOffsets t i j inserted).old.stop ≤ t.positionOf o ↔ j ≤ o :=
    Text.positionOf_le_iff ht hj ho
  rw [moveCaret, Offset.moveCaret]
  by_cases hoi : o < i
  · rw [if_pos (hbefore.2 hoi), if_pos hoi, Text.positionOf_splice ht hinserted hi (by omega)]
  · rw [if_neg (mt hbefore.1 hoi), if_neg hoi]
    by_cases hjo : j ≤ o
    · rw [if_pos (hbehind.2 hjo), if_pos hjo, shift_positionOf ht hinserted hij hj hjo]
    · rw [if_neg (mt hbehind.1 hjo), if_neg hjo]
      rfl

lemma moveStart_positionOf (ho : o ≤ t.length) :
    (ofOffsets t i j inserted).moveStart (t.positionOf o) =
      (t.splice i j inserted).positionOf (Offset.moveStart i j inserted.length o) := by
  have hi : i ≤ t.length := by omega
  have hbefore : t.positionOf o ≤ (ofOffsets t i j inserted).old.start ↔ o ≤ i :=
    Text.positionOf_le_iff ht ho hi
  have hbehind : (ofOffsets t i j inserted).old.stop ≤ t.positionOf o ↔ j ≤ o :=
    Text.positionOf_le_iff ht hj ho
  rw [moveStart, Offset.moveStart]
  by_cases hoi : o ≤ i
  · rw [if_pos (hbefore.2 hoi), if_pos hoi, Text.positionOf_splice ht hinserted hi hoi]
  · rw [if_neg (mt hbefore.1 hoi), if_neg hoi]
    by_cases hjo : j ≤ o
    · rw [if_pos (hbehind.2 hjo), if_pos hjo, shift_positionOf ht hinserted hij hj hjo]
    · rw [if_neg (mt hbehind.1 hjo), if_neg hjo,
        Text.positionOf_splice ht hinserted hi (Nat.le_refl i)]
      rfl

/-- The ends of a marked range stay in order by themselves. -/
lemma moveRange_rangeOf {a b : Nat} (hab : a ≤ b) (hb : b ≤ t.length) :
    (ofOffsets t i j inserted).moveRange (t.rangeOf a b) =
      (t.splice i j inserted).rangeOf (Offset.moveStart i j inserted.length a)
        (Offset.moveCaret i j inserted.length b) := by
  have hstart := moveStart_positionOf ht hinserted hij hj (Nat.le_trans hab hb)
  have hstop : (ofOffsets t i j inserted).moveStop (t.positionOf b) = _ :=
    moveCaret_positionOf ht hinserted hij hj hb
  have horder := Offset.moveStart_le_moveCaret hij hab inserted.length
  have hlength := Offset.moveCaret_le hij hj hb inserted.length
  rw [← Text.length_splice hij hj] at hlength
  have hle := (Text.positionOf_le_iff (ht.splice hinserted i j) (Nat.le_trans horder hlength)
    hlength).2 horder
  -- so the later of the two is the end, and taking the later one changes nothing
  show (⟨moveStart _ _, (moveStop _ _).later (moveStart _ _)⟩ : Range) = ⟨_, _⟩
  rw [Text.rangeOf, hstart, hstop, Position.later]
  split
  · rename_i hge
    rw [Position.le_antisymm hle hge]
  · rfl

end

end Change

end TemplateEditing
