import Mathlib.Data.List.Nodup
import TemplateEditing.Proofs.Document.Sound

/-!
# Typing at several cursors

Typing replaces what each cursor selects, one range after the other, the last one first, and moves
all cursors along each time. Where every range ends before the next one starts, this comes to a
single replacement of all of them (`Text.replaceAll`), and every caret ends up behind its own copy
of what is typed (`Document.type_replaceAll`).
-/

namespace TemplateEditing

open List

namespace Text

/-! ## Spans of a text -/

/-- The pieces of a text around spans of it, from an offset on: before the first span, between two
of them, and behind the last. -/
def piecesAround (t : Text) (start : Nat) : List (Nat × Nat) → List Text
  | [] => [t.drop start]
  | (i, j) :: spans => t.slice start i :: t.piecesAround j spans

/-- The text with all spans of it replaced at the same time. -/
def replaceAll (t : Text) (spans : List (Nat × Nat)) (inserted : Text) : Text :=
  List.intercalate inserted (t.piecesAround 0 spans)

/-- Spans lie in a text, and each ends before the next one starts. -/
structure Spaced (t : Text) (spans : List (Nat × Nat)) : Prop where
  within : ∀ s ∈ spans, s.1 ≤ s.2 ∧ s.2 ≤ t.length
  apart : spans.Pairwise fun a b => a.2 < b.1

namespace Spaced

variable {t : Text} {i j : Nat} {spans front back : List (Nat × Nat)}

lemma tail (h : t.Spaced ((i, j) :: spans)) : t.Spaced spans :=
  ⟨fun s hs => h.within s (mem_cons_of_mem _ hs), (pairwise_cons.1 h.apart).2⟩

lemma head (h : t.Spaced ((i, j) :: spans)) : i ≤ j ∧ j ≤ t.length ∧ ∀ s ∈ spans, j < s.1 :=
  have hwithin := h.within (i, j) mem_cons_self
  ⟨hwithin.1, hwithin.2, (pairwise_cons.1 h.apart).1⟩

/-- The spans before one of them are spans of the text before it. -/
lemma take (h : t.Spaced (front ++ (i, j) :: back)) : Spaced (t.take i) front := by
  obtain ⟨hfront, hback, hcross⟩ := pairwise_append.1 h.apart
  have hown := h.within (i, j) (mem_append_right _ mem_cons_self)
  dsimp only at hown
  refine ⟨fun s hs => ?_, hfront⟩
  have hs' := h.within s (mem_append_left _ hs)
  have hlt := hcross s hs (i, j) mem_cons_self
  dsimp only at hlt
  rw [length_take]
  omega

end Spaced

variable {t inserted : Text} {i j : Nat} {spans front back : List (Nat × Nat)}

lemma piecesAround_ne_nil (t : Text) (start : Nat) (spans : List (Nat × Nat)) :
    t.piecesAround start spans ≠ [] := by
  cases spans with
  | nil => exact cons_ne_nil _ _
  | cons s spans => exact cons_ne_nil _ _

/-- The pieces around spans are those around the spans before one of them and those behind it. -/
lemma piecesAround_append (hfront : ∀ s ∈ front, s.1 ≤ i) (start : Nat) :
    t.piecesAround start (front ++ (i, j) :: back) =
      piecesAround (t.take i) start front ++ t.piecesAround j back := by
  induction front generalizing start with
  | nil => rfl
  | cons s front ih =>
    obtain ⟨hs, hfront⟩ := forall_mem_cons.1 hfront
    have hslice : slice (t.take i) start s.1 = t.slice start s.1 := by
      rw [slice, slice, take_take, Nat.min_eq_left hs]
    show t.slice start s.1 :: t.piecesAround s.2 (front ++ _) =
      slice (t.take i) start s.1 :: _ ++ _
    rw [hslice, ih hfront]
    rfl

lemma intercalate_append {front back : List Text} (hfront : front ≠ []) (hback : back ≠ []) :
    List.intercalate inserted (front ++ back) =
      List.intercalate inserted front ++ inserted ++ List.intercalate inserted back := by
  induction front with
  | nil => exact absurd rfl hfront
  | cons piece front ih =>
    cases front with
    | nil =>
      rw [intercalate_singleton]
      exact intercalate_cons_of_ne_nil hback
    | cons next front =>
      have hnext : next :: front ≠ [] := cons_ne_nil _ _
      have hmore : next :: front ++ back ≠ [] := append_ne_nil_of_left_ne_nil hnext _
      rw [cons_append, intercalate_cons_of_ne_nil hmore, ih hnext,
        intercalate_cons_of_ne_nil hnext]
      simp only [append_assoc]

/-- What comes before a span, is put in its place and comes behind it. -/
lemma replaceAll_append (h : t.Spaced (front ++ (i, j) :: back)) :
    t.replaceAll (front ++ (i, j) :: back) inserted =
      replaceAll (t.take i) front inserted ++ inserted ++
        List.intercalate inserted (t.piecesAround j back) := by
  have hfront : ∀ s ∈ front, s.1 ≤ i := by
    intro s hs
    have hwithin := h.take.within s hs
    rw [length_take] at hwithin
    omega
  rw [replaceAll, piecesAround_append hfront, intercalate_append (piecesAround_ne_nil _ _ _)
    (piecesAround_ne_nil _ _ _)]
  rfl

/-- What comes before all spans stays. -/
lemma replaceAll_eq_take_append {o : Nat} (ho : o ≤ t.length) (hspans : ∀ s ∈ spans, o ≤ s.1) :
    t.replaceAll spans inserted =
      t.take o ++ List.intercalate inserted (t.piecesAround o spans) := by
  cases spans with
  | nil =>
    show List.intercalate inserted [t.drop 0] = _ ++ List.intercalate inserted [t.drop o]
    rw [intercalate_singleton, intercalate_singleton, take_append_drop,
      drop_zero]
  | cons s spans =>
    have hslice := t.slice_append_slice (Nat.zero_le o) (hspans s mem_cons_self) ho
    show List.intercalate inserted (t.slice 0 s.1 :: t.piecesAround s.2 spans) =
      t.slice 0 o ++ List.intercalate inserted (t.slice o s.1 :: t.piecesAround s.2 spans)
    rw [intercalate_cons_of_ne_nil (piecesAround_ne_nil _ _ _),
      intercalate_cons_of_ne_nil (piecesAround_ne_nil _ _ _), ← hslice]
    simp only [append_assoc]

section

variable {o : Nat} (ho : o ≤ t.length) (hspans : ∀ s ∈ spans, o ≤ s.1)

include ho hspans

lemma take_replaceAll : (t.replaceAll spans inserted).take o = t.take o := by
  rw [replaceAll_eq_take_append ho hspans]
  exact take_left' (length_take_of_le ho)

lemma le_length_replaceAll : o ≤ (t.replaceAll spans inserted).length := by
  rw [replaceAll_eq_take_append ho hspans, length_append, length_take_of_le ho]
  exact Nat.le_add_right _ _

end

/-- Spans are replaced one by one, the first one last. -/
lemma replaceAll_cons (h : t.Spaced ((i, j) :: spans)) :
    t.replaceAll ((i, j) :: spans) inserted =
      (t.replaceAll spans inserted).splice i j inserted := by
  obtain ⟨hij, hj, hspans⟩ := h.head
  have hbehind : (t.replaceAll spans inserted).drop j =
      List.intercalate inserted (t.piecesAround j spans) := by
    rw [replaceAll_eq_take_append hj fun s hs => Nat.le_of_lt (hspans s hs)]
    exact drop_left' (length_take_of_le hj)
  rw [splice, hbehind, take_replaceAll (Nat.le_trans hij hj) fun s hs =>
    Nat.le_trans hij (Nat.le_of_lt (hspans s hs))]
  exact intercalate_cons_of_ne_nil (piecesAround_ne_nil _ _ _)

lemma replaceAll_nil (t inserted : Text) : t.replaceAll [] inserted = t :=
  intercalate_singleton

lemma OnlyLineFeeds.replaceAll (ht : t.OnlyLineFeeds) (hinserted : inserted.OnlyLineFeeds)
    (h : t.Spaced spans) : (t.replaceAll spans inserted).OnlyLineFeeds := by
  induction spans with
  | nil =>
    rw [replaceAll_nil]
    exact ht
  | cons s spans ih =>
    rw [replaceAll_cons h]
    exact (ih h.tail).splice hinserted _ _

end Text

/-! ## Where carets go -/

namespace Offset

/-- Where a caret goes when spans give way to `n` characters each, the last one first. -/
def moveCaretAll (n : Nat) (spans : List (Nat × Nat)) (o : Nat) : Nat :=
  spans.foldr (fun s o => moveCaret s.1 s.2 n o) o

/-- A caret at an end of a span goes behind what replaces it. -/
lemma moveCaret_of_end {i j o : Nat} (hij : i ≤ j) (ho : o = i ∨ o = j) (n : Nat) :
    moveCaret i j n o = i + n := by
  rcases moveCaret_cases i j n o with h | h | h <;> omega

/-- A caret before all spans stays. -/
lemma moveCaretAll_of_lt {spans : List (Nat × Nat)} {o : Nat} (h : ∀ s ∈ spans, o < s.1) (n : Nat) :
    moveCaretAll n spans o = o := by
  induction spans with
  | nil => rfl
  | cons s spans ih =>
    obtain ⟨hs, hspans⟩ := forall_mem_cons.1 h
    show moveCaret s.1 s.2 n (moveCaretAll n spans o) = o
    rw [ih hspans]
    exact if_pos hs

variable {t inserted : Text} {spans front back : List (Nat × Nat)}

/-- A caret behind all spans stays as far behind them. -/
lemma moveCaretAll_length_add (h : t.Spaced spans) (k : Nat) :
    moveCaretAll inserted.length spans (t.length + k) =
      (t.replaceAll spans inserted).length + k := by
  induction spans with
  | nil =>
    rw [Text.replaceAll_nil]
    rfl
  | cons s spans ih =>
    obtain ⟨hij, hj, hspans⟩ := h.head
    have hlength : s.2 ≤ (t.replaceAll spans inserted).length :=
      Text.le_length_replaceAll hj fun s hs => Nat.le_of_lt (hspans s hs)
    show moveCaret s.1 s.2 inserted.length (moveCaretAll inserted.length spans _) = _
    rw [ih h.tail, Text.replaceAll_cons h, Text.length_splice hij hlength]
    rcases moveCaret_cases s.1 s.2 inserted.length ((t.replaceAll spans inserted).length + k) with
      h | h | h <;> omega

/-- A caret at an end of a span goes behind the copy that replaces the span. -/
lemma moveCaretAll_of_end {i j o : Nat} (h : t.Spaced (front ++ (i, j) :: back))
    (ho : o = i ∨ o = j) :
    moveCaretAll inserted.length (front ++ (i, j) :: back) o =
      (Text.replaceAll (t.take i) front inserted ++ inserted).length := by
  obtain ⟨hij, hj⟩ := h.within (i, j) (mem_append_right _ mem_cons_self)
  have hback : ∀ s ∈ back, o < s.1 := by
    intro s hs
    have hlt := (pairwise_cons.1 (pairwise_append.1 h.apart).2.1).1 s hs
    dsimp only at hlt hij
    omega
  have hlength : (t.take i).length = i := length_take_of_le (Nat.le_trans hij hj)
  have hfront : moveCaretAll inserted.length front ((t.take i).length + inserted.length) = _ :=
    moveCaretAll_length_add h.take _
  rw [hlength] at hfront
  rw [moveCaretAll, foldr_append, foldr_cons, length_append]
  show moveCaretAll _ front (moveCaret i j _ (moveCaretAll _ back o)) = _
  rw [moveCaretAll_of_lt hback, moveCaret_of_end hij ho, hfront]

end Offset

namespace Document

variable {d : Document} {t : Text} {spans : List (Nat × Nat)}

/-! ## Spans that are replaced one by one -/

/-- The document once spans are replaced one by one, the last one first. -/
def splicedAll (d : Document) (t : Text) (spans : List (Nat × Nat)) : Document :=
  spans.foldr (fun s d => d.spliced s.1 s.2 t .record) d

lemma text_splicedAll (h : d.text.Spaced spans) :
    (d.splicedAll t spans).text = d.text.replaceAll spans t := by
  induction spans with
  | nil => exact (Text.replaceAll_nil _ _).symm
  | cons s spans ih =>
    show (d.splicedAll t spans).text.splice s.1 s.2 t = _
    rw [ih h.tail, Text.replaceAll_cons h]

/-- Ranges given in the old text are still in place when their turn comes. -/
lemma foldlM_splice? (honly : d.text.OnlyLineFeeds) (ht : t.OnlyLineFeeds)
    (h : d.text.Spaced spans) :
    (spans.map fun s => d.text.rangeOf s.1 s.2).reverse.foldlM
      (fun (d : Document) r => d.splice? r t .record) d = .ok (d.splicedAll t spans) := by
  induction spans with
  | nil => rfl
  | cons s spans ih =>
    obtain ⟨hij, hj, hspans⟩ := h.head
    have hplace : ∀ o ≤ s.2, (d.splicedAll t spans).text.offsetOf (d.text.positionOf o) = o := by
      intro o ho
      have hbefore : ∀ s ∈ spans, o ≤ s.1 := fun s' hs' => by
        have hlt := hspans s' hs'
        omega
      have hkept := honly.replaceAll ht h.tail
      rw [text_splicedAll h.tail, Text.positionOf_eq_place honly,
        ← Text.take_replaceAll (Nat.le_trans ho hj) hbefore, ← Text.positionOf_eq_place hkept]
      exact Text.offsetOf_positionOf hkept (Text.le_length_replaceAll (Nat.le_trans ho hj) hbefore)
    rw [map_cons, reverse_cons, foldlM_append, ih h.tail]
    show ((d.splicedAll t spans).splice? (d.text.rangeOf s.1 s.2) t .record >>= fun d => .ok d) = _
    rw [splice?_eq, Text.rangeOf, hplace s.1 hij, hplace s.2 (Nat.le_refl _),
      if_neg (Nat.not_lt.2 hij)]
    rfl

/-- Every caret goes where arithmetic says. -/
lemma exists_getElem?_splicedAll (honly : d.text.OnlyLineFeeds) (ht : t.OnlyLineFeeds)
    (h : d.text.Spaced spans) {k o : Nat} {c : Cursor} (hc : d.cursors.cursors[k]? = some c)
    (ho : o ≤ d.text.length) (hposition : c.position = d.text.positionOf o) :
    let o' := Offset.moveCaretAll t.length spans o
    ∃ c', (d.splicedAll t spans).cursors.cursors[k]? = some c' ∧
      o' ≤ (d.text.replaceAll spans t).length ∧
      c'.position = (d.text.replaceAll spans t).positionOf o' := by
  induction spans with
  | nil =>
    rw [Text.replaceAll_nil]
    exact ⟨c, hc, ho, hposition⟩
  | cons s spans ih =>
    obtain ⟨c', hc', ho', hposition'⟩ := ih h.tail
    obtain ⟨hij, hj, hspans⟩ := h.head
    have hkept := honly.replaceAll ht h.tail
    have hlength : s.2 ≤ (d.text.replaceAll spans t).length :=
      Text.le_length_replaceAll hj fun s hs => Nat.le_of_lt (hspans s hs)
    -- the spans are replaced from the last one on, so that this one is where it was
    have hchange : (d.splicedAll t (s :: spans)).cursors = (d.splicedAll t spans).cursors.follow
        (.ofOffsets (d.text.replaceAll spans t) s.1 s.2 t) := by
      rw [← text_splicedAll h.tail]
      rfl
    refine ⟨c'.follow (.ofOffsets (d.text.replaceAll spans t) s.1 s.2 t), ?_, ?_, ?_⟩
    · rw [hchange, CursorList.follow, CursorList.map, getElem?_map, hc']
      rfl
    · rw [Text.replaceAll_cons h, Text.length_splice hij hlength]
      exact Offset.moveCaret_le hij hlength ho' _
    · rw [Text.replaceAll_cons h]
      show Change.moveCaret _ c'.position = _
      rw [hposition', Change.moveCaret_positionOf hkept ht hij hlength ho']
      rfl

/-- A cursor with its caret at an end of a span is left behind the copy that replaces the span. -/
lemma exists_getElem?_splicedAll_of_end (honly : d.text.OnlyLineFeeds) (ht : t.OnlyLineFeeds)
    {front back : List (Nat × Nat)} {s : Nat × Nat} (h : d.text.Spaced (front ++ s :: back))
    {k o : Nat} {c : Cursor} (hc : d.cursors.cursors[k]? = some c)
    (hposition : c.position = d.text.positionOf o) (ho : o = s.1 ∨ o = s.2) :
    let d' := d.splicedAll t (front ++ s :: back)
    let copied := Text.replaceAll (d.text.take s.1) front t ++ t
    copied <+: d'.text ∧
      ∃ c', d'.cursors.cursors[k]? = some c' ∧ c'.position = d'.text.positionOf copied.length := by
  obtain ⟨i, j⟩ := s
  intro d' copied
  obtain ⟨hij, hj⟩ := h.within (i, j) (mem_append_right _ mem_cons_self)
  have hlength : o ≤ d.text.length := by
    dsimp only at hij hj ho
    omega
  obtain ⟨c', hc', -, hposition'⟩ := exists_getElem?_splicedAll honly ht h hc hlength hposition
  have htext : d'.text = d.text.replaceAll (front ++ (i, j) :: back) t := text_splicedAll h
  rw [Offset.moveCaretAll_of_end h ho, ← htext] at hposition'
  refine ⟨?_, c', hc', hposition'⟩
  rw [htext, Text.replaceAll_append h]
  exact prefix_append _ _

/-! ## Typing -/

/-- Where every range ends before the next one starts, the ranges are replaced from the last one to
the first. -/
lemma typingTargets_of_apart
    (h : d.cursors.cursors.Pairwise fun a b => a.editRange.stop < b.editRange.start) :
    d.typingTargets = (d.cursors.cursors.map Cursor.editRange).reverse := by
  have hstarts : (d.cursors.cursors.map Cursor.editRange).Pairwise
      fun a b => a.start < b.start := by
    refine pairwise_map.2 (h.imp fun {a b} hab => Position.not_le.1 fun hle => ?_)
    exact Position.not_le.2 hab (Position.le_trans hle a.start_le_stop_editRange)
  have hnodup : ((d.cursors.cursors.map Cursor.editRange).map Range.start).Nodup := by
    refine pairwise_map.2 (hstarts.imp fun {a b} hlt heq => ?_)
    rw [heq] at hlt
    exact Position.lt_irrefl _ hlt
  have hsorted : d.typingTargets.Pairwise fun a b => b.start ≤ a.start := by
    refine (pairwise_mergeSort (fun a b c hab hbc => ?_) (fun a b => ?_) _).imp
      fun {a b} hab => of_decide_eq_true hab
    · exact decide_eq_true (Position.le_trans (of_decide_eq_true hbc) (of_decide_eq_true hab))
    · rw [Bool.or_eq_true, decide_eq_true_iff, decide_eq_true_iff]
      exact Position.le_total _ _
  have hreversed : (d.cursors.cursors.map Cursor.editRange).reverse.Pairwise
      fun a b => b.start ≤ a.start :=
    pairwise_reverse.2 (hstarts.imp fun {a b} hlt => Position.le_of_lt hlt)
  -- no two ranges start at the same position, so that only one list of them is sorted
  refine List.Perm.eq_of_pairwise (fun a b ha hb hba hab => ?_) hsorted hreversed
    ((mergeSort_perm _ _).trans (reverse_perm _).symm)
  exact inj_on_of_nodup_map hnodup (mem_mergeSort.1 ha) (mem_reverse.1 hb)
    (Position.le_antisymm hab hba)

lemma length_splicedAll (d : Document) (t : Text) (spans : List (Nat × Nat)) :
    (d.splicedAll t spans).cursors.cursors.length = d.cursors.cursors.length := by
  induction spans with
  | nil => rfl
  | cons s spans ih =>
    show ((d.splicedAll t spans).cursors.cursors.map _).length = _
    rw [length_map, ih]

lemma primaryIndex_splicedAll (d : Document) (t : Text) (spans : List (Nat × Nat)) :
    (d.splicedAll t spans).cursors.primaryIndex = d.cursors.primaryIndex := by
  induction spans with
  | nil => rfl
  | cons s spans ih => exact ih

end Document

namespace Cursor

/-- The offsets between which a cursor replaces the text. -/
def span (t : Text) (c : Cursor) : Nat × Nat :=
  (t.offsetOf c.editRange.start, t.offsetOf c.editRange.stop)

/-- Both ends of what a cursor replaces are positions of the text. -/
def EditsWithin (t : Text) (c : Cursor) : Prop :=
  t.clip c.editRange.start = c.editRange.start ∧ t.clip c.editRange.stop = c.editRange.stop

instance (t : Text) (c : Cursor) : Decidable (c.EditsWithin t) :=
  inferInstanceAs (Decidable (_ ∧ _))

variable {t : Text} {c : Cursor}

lemma EditsWithin.rangeOf_span (h : c.EditsWithin t) (ht : t.OnlyLineFeeds) :
    t.rangeOf (c.span t).1 (c.span t).2 = c.editRange := by
  unfold Text.rangeOf span
  rw [Text.positionOf_offsetOf ht, Text.positionOf_offsetOf ht, h.1, h.2]

/-- The caret is at one end of what a cursor replaces. -/
lemma EditsWithin.exists_span (h : c.EditsWithin t) (ht : t.OnlyLineFeeds) :
    (c.span t).1 ≤ (c.span t).2 ∧ (c.span t).2 ≤ t.length ∧
      ∃ o, c.position = t.positionOf o ∧ (o = (c.span t).1 ∨ o = (c.span t).2) := by
  obtain ⟨i, j, o, hij, hj, hrange, hposition, ho⟩ := exists_offsets_editRange ht
    ((Text.hasPlace_iff ht).2 h.1) ((Text.hasPlace_iff ht).2 h.2)
  have hspan : c.span t = (i, j) := by
    rw [span, hrange]
    show (t.offsetOf (t.positionOf i), t.offsetOf (t.positionOf j)) = _
    rw [Text.offsetOf_positionOf ht (Nat.le_trans hij hj), Text.offsetOf_positionOf ht hj]
  rw [hspan]
  exact ⟨hij, hj, o, hposition, ho⟩

end Cursor

/-- Cursors whose ranges are apart replace spans that are apart. -/
lemma Text.spaced_map_span {t : Text} (ht : t.OnlyLineFeeds) {cursors : List Cursor}
    (hwithin : ∀ c ∈ cursors, c.EditsWithin t)
    (hapart : cursors.Pairwise fun a b => a.editRange.stop < b.editRange.start) :
    t.Spaced (cursors.map (·.span t)) := by
  refine ⟨?_, pairwise_map.2 (hapart.imp_of_mem fun {a b} ha hb hab => ?_)⟩
  · intro s hs
    obtain ⟨c, hc, rfl⟩ := mem_map.1 hs
    obtain ⟨hle, hlength, -⟩ := (hwithin c hc).exists_span ht
    exact ⟨hle, hlength⟩
  · obtain ⟨-, hstop, -⟩ := (hwithin a ha).exists_span ht
    obtain ⟨hstart, hlength, -⟩ := (hwithin b hb).exists_span ht
    rw [← (hwithin a ha).rangeOf_span ht, ← (hwithin b hb).rangeOf_span ht] at hab
    exact (positionOf_lt_iff ht hstop (Nat.le_trans hstart hlength)).1 hab

namespace Document

/-- Typing at cursors whose ranges are apart replaces all of them at the same time. No cursor
selects anything then, and each is behind its own copy of what is typed. -/
theorem type_replaceAll (d : Document) (t : Text) (honly : d.text.OnlyLineFeeds)
    (ht : t.OnlyLineFeeds) (hwithin : ∀ c ∈ d.cursors.cursors, c.EditsWithin d.text)
    (hapart : d.cursors.cursors.Pairwise fun a b => a.editRange.stop < b.editRange.start) :
    ∃ d', d.type t = .ok d' ∧
      d'.text = d.text.replaceAll (d.cursors.cursors.map (·.span d.text)) t ∧
      d'.cursors.cursors.length = d.cursors.cursors.length ∧
      d'.cursors.primaryIndex = d.cursors.primaryIndex ∧
      ∀ front c back, d.cursors.cursors = front ++ c :: back →
        let copied := Text.replaceAll (d.text.take (c.span d.text).1)
          (front.map (·.span d.text)) t ++ t
        copied <+: d'.text ∧
          d'.cursors.cursors[front.length]? = some (.caret (d'.text.positionOf copied.length)) := by
  have hspaced := Text.spaced_map_span honly hwithin hapart
  set spans := d.cursors.cursors.map (·.span d.text) with hspans
  have htargets : d.typingTargets = (spans.map fun s => d.text.rangeOf s.1 s.2).reverse := by
    rw [typingTargets_of_apart hapart, hspans, map_map]
    exact congrArg List.reverse (map_congr_left fun c hc =>
      ((hwithin c hc).rangeOf_span honly).symm)
  have htype : d.type t = .ok { d.splicedAll t spans with
      cursors := (d.splicedAll t spans).cursors.map Cursor.clear }.rescope := by
    rw [type_eq, htargets, foldlM_splice? honly ht hspaced]
    rfl
  refine ⟨_, htype, text_splicedAll hspaced, ?_, primaryIndex_splicedAll d t spans, ?_⟩
  · show ((d.splicedAll t spans).cursors.cursors.map _).length = _
    rw [length_map, length_splicedAll]
  · intro front c back hcursors copied
    have hc : d.cursors.cursors[front.length]? = some c := by
      rw [hcursors, getElem?_append_right (Nat.le_refl _), Nat.sub_self]
      rfl
    have hsplit : spans =
        front.map (·.span d.text) ++ c.span d.text :: back.map (·.span d.text) := by
      rw [hspans, hcursors, map_append, map_cons]
    obtain ⟨-, -, o, hposition, ho⟩ := (hwithin c (mem_of_getElem? hc)).exists_span honly
    rw [hsplit] at hspaced ⊢
    obtain ⟨hcopied, c', hc', hposition'⟩ :=
      exists_getElem?_splicedAll_of_end honly ht hspaced hc hposition ho
    refine ⟨hcopied, ?_⟩
    show ((d.splicedAll t _).cursors.cursors.map Cursor.clear)[front.length]? = _
    rw [getElem?_map, hc', Option.map_some, Cursor.clear, hposition']
    rfl

/-- A caret, a selection across two rows, and a selection made backwards. -/
def sampleSelections : Document :=
  { ofText .plain "ab\ncd\nef gh".toList with
    cursors := ⟨[.caret ⟨0, 1⟩, ⟨⟨1, 1⟩, some ⟨0, 2⟩⟩, ⟨⟨2, 3⟩, some ⟨2, 5⟩⟩], 1⟩ }

theorem type_replaceAll_sampleSelections :
    (∀ c ∈ sampleSelections.cursors.cursors, c.EditsWithin sampleSelections.text) ∧
      (sampleSelections.cursors.cursors.Pairwise
        fun a b => a.editRange.stop < b.editRange.start) ∧
      ∃ d', sampleSelections.type "x\ny".toList = .ok d' ∧
        d'.text = "ax\nybx\nyd\nef x\ny".toList ∧
        d'.cursors.cursors.length = 3 ∧ d'.cursors.primaryIndex = 1 ∧
        d'.cursors.cursors[0]? = some (.caret ⟨1, 1⟩) ∧
        d'.cursors.cursors[1]? = some (.caret ⟨2, 1⟩) ∧
        d'.cursors.cursors[2]? = some (.caret ⟨4, 1⟩) := by
  have hwithin : ∀ c ∈ sampleSelections.cursors.cursors, c.EditsWithin sampleSelections.text := by
    decide +kernel
  have hapart : sampleSelections.cursors.cursors.Pairwise
      fun a b => a.editRange.stop < b.editRange.start := by decide +kernel
  obtain ⟨d', htype, htext, hlength, hprimary, hcarets⟩ := type_replaceAll sampleSelections
    "x\ny".toList (by decide) (by decide) hwithin hapart
  have hsample : d'.text = "ax\nybx\nyd\nef x\ny".toList := htext.trans (by decide +kernel)
  rw [hsample] at hcarets
  refine ⟨hwithin, hapart, d', htype, hsample, hlength, hprimary, ?_, ?_, ?_⟩
  · exact (hcarets [] _ _ rfl).2.trans (by decide +kernel)
  · exact (hcarets [_] _ _ rfl).2.trans (by decide +kernel)
  · exact (hcarets [_, _] _ _ rfl).2.trans (by decide +kernel)

end Document

end TemplateEditing
