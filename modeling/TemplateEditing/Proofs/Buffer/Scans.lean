import TemplateEditing.Proofs.Change.Offsets
import TemplateEditing.Proofs.Tag.Tokens
import TemplateEditing.Proofs.Text.Breaks

/-!
# Scans report true positions

A scan counts rows and columns for itself while it walks through a part of a text, and passes over
carriage returns. Where rows end at line feeds only, with or without a carriage return in front,
this comes to the position of every offset that does not split a break (`Text.positionOf_eq_walk`).
A piece without row breaks neither starts nor ends at such an offset.

What a pattern takes is given by offsets, as pieces of the text one behind the other
(`Pattern.Finds`); any such pieces are what some pattern takes (`Pattern.exists_finds`). The scan
reports just these, wherever in a row its text begins (`Buffer.scan_reports_pieces`), and a visitor
is shown the first of them, up to the one with which it has seen enough (`Hit.visit_recorder`).
-/

namespace TemplateEditing

open List

variable {t : Text} {i j : Nat}

namespace Text

/-! ## Walking through a text -/

/-- A row in which nothing has been left out leads as many columns to the right as it is long. -/
lemma place_unbroken {x : Text} (hx : Unbroken x) : place x = ⟨0, x.length⟩ := by
  induction x with
  | nil => rfl
  | cons c x ih =>
    have hn := hx.ne mem_cons_self (show isRowBreak '\n' = true from rfl)
    have hr := hx.ne mem_cons_self (show isRowBreak '\r' = true from rfl)
    rw [place_cons_of_ne hn hr, ih (forall_mem_cons.1 hx).2, Position.add_def, if_pos rfl,
      Nat.add_comm]
    rfl

/-- A line feed leads to the start of the next row, also behind a carriage return. -/
lemma place_endsAt {b rest : Text} (hb : EndsAt b rest) (hfeed : b.getLast? = some '\n') :
    place b = ⟨1, 0⟩ := by
  rcases hb with rfl | ⟨c, rfl, -, -⟩
  · rfl
  · obtain rfl : c = '\n' := by simpa using hfeed
    rfl

lemma place_row_append {x b rest : Text} (hx : Unbroken x) (hb : EndsAt b rest)
    (hfeed : b.getLast? = some '\n') (t : Text) : place (x ++ b ++ t) = (place t).down 1 := by
  rw [place_append, place_append, place_unbroken hx, place_endsAt hb hfeed]
  show (⟨1, 0⟩ : Position) + place t = ⟨(place t).row + 1, (place t).column⟩
  rw [Position.add_def, Nat.add_comm (place t).row 1]
  split
  · next hrow => rw [hrow, Nat.zero_add]
  · rfl

/-- The walk through the characters before an offset leads to its position, unless the offset splits
a break. -/
lemma positionOf_eq_walk (h : strayBreaks t = 0) {i : Nat} (hi : i ≤ t.length)
    (hwhole : ¬ SplitsBreak t i) : positionOf t i = place (t.take i) := by
  induction t using rowInduction generalizing i with
  | last x hx =>
    have htake : Unbroken (x.take i) := fun c hc => hx c (mem_of_mem_take hc)
    rw [positionOf_unbroken hx hi, place_unbroken htake, length_take, Nat.min_eq_left hi]
  | row x b rest hx hb ih =>
    have hrows := rows_append hx hb
    rw [append_assoc, strayBreaks_append hx, strayBreaks_endsAt hb] at h
    have hfeed : b.getLast? = some '\n' := by
      split at h
      · assumption
      · omega
    rcases Nat.lt_or_ge i (x ++ b).length with hlt | hge
    · -- the offset does not split the break, so it is in front of it
      have hcontent : content b = [] :=
        ((content_endsAt hb).resolve_right fun hkept => hkept.1 hfeed).2
      have hcolumn : i ≤ x.length := by
        have hmin := (min_content_eq_iff hx hb hlt).2 hwhole
        rw [content_append hx, hcontent, append_nil] at hmin
        omega
      have htake : Unbroken (x.take i) := fun c hc => hx c (mem_of_mem_take hc)
      rw [positionOf_of_lt hrows hlt, append_assoc, take_append_of_le_length hcolumn,
        place_unbroken htake, length_take, Nat.min_eq_left hcolumn]
    · obtain ⟨j, rfl⟩ := Nat.exists_eq_add_of_le hge
      rw [(x ++ b).length_append, Nat.add_le_add_iff_left] at hi
      rw [splitsBreak_length_add hb] at hwhole
      rw [positionOf_length_add hrows, take_length_add_append, place_row_append hx hb hfeed,
        ih (by omega) hi hwhole]

/-- Positions are in the order of their offsets, if these do not split breaks. -/
lemma positionOf_lt_positionOf (t : Text) (hij : i < j) (hj : j ≤ t.length)
    (hi' : ¬ SplitsBreak t i) (hj' : ¬ SplitsBreak t j) : positionOf t i < positionOf t j := by
  apply lt_of_offsetOf_lt
  rw [(offsetOf_positionOf_iff t (by omega)).2 hi', (offsetOf_positionOf_iff t hj).2 hj']
  exact hij

lemma positionOf_le_positionOf (t : Text) (hij : i ≤ j) (hj : j ≤ t.length)
    (hi' : ¬ SplitsBreak t i) (hj' : ¬ SplitsBreak t j) : positionOf t i ≤ positionOf t j := by
  rcases Nat.lt_or_eq_of_le hij with hlt | rfl
  · exact Position.le_of_lt (positionOf_lt_positionOf t hlt hj hi' hj')
  · exact Position.le_refl _

end Text

/-! ## Pieces of a text -/

/-- Pieces of a text, given by their offsets: none is empty, and each lies behind the others before
it. -/
structure Text.Separate (t : Text) (pieces : List (Nat × Nat)) : Prop where
  inside : ∀ m ∈ pieces, m.1 < m.2 ∧ m.2 ≤ t.length
  ordered : pieces.Pairwise fun m n => m.2 ≤ n.1

/-- A pattern takes these pieces of a text: each of them as a whole where it starts, and nothing
anywhere between them. -/
structure Pattern.Finds (pattern : Pattern) (t : Text) (pieces : List (Nat × Nat)) : Prop where
  separate : t.Separate pieces
  takes : ∀ m ∈ pieces, (t.drop m.1).take (pattern (t.drop m.1)) = t.slice m.1 m.2
  skips : ∀ i < t.length, (∀ m ∈ pieces, i < m.1 ∨ m.2 ≤ i) → pattern (t.drop i) = 0

namespace Pattern

/-- Any pieces of a text are those that some pattern takes. -/
lemma exists_finds {pieces : List (Nat × Nat)} (h : t.Separate pieces) :
    ∃ pattern : Pattern, pattern.Finds t pieces := by
  -- how much of the text is left tells where a piece starts
  let stop (i : Nat) : Nat := (pieces.lookup i).getD i
  refine ⟨fun u => stop (t.length - u.length) - (t.length - u.length), h, ?_, ?_⟩
  · intro m hm
    obtain ⟨front, back, rfl⟩ := append_of_mem hm
    have hlookup : (front ++ m :: back).lookup m.1 = some m.2 := by
      refine lookup_eq_some_iff.2 ⟨front, back, rfl, fun n hn => ?_⟩
      have hbefore := (pairwise_append.1 h.ordered).2.2 n hn m mem_cons_self
      have hinside := (h.inside n (mem_append_left _ hn)).1
      simp only [bne_iff_ne]
      omega
    have hinside := h.inside m hm
    have hstart : t.length - (t.drop m.1).length = m.1 := by
      rw [length_drop]
      omega
    show (t.drop m.1).take (stop (t.length - (t.drop m.1).length) - _) = _
    rw [hstart, show stop m.1 = m.2 by simp only [stop, hlookup, Option.getD_some], Text.slice,
      drop_take]
  · intro i hi hbetween
    have hstart : t.length - (t.drop i).length = i := by
      rw [length_drop]
      omega
    have hlookup : pieces.lookup i = none := by
      rw [lookup_eq_none_iff]
      intro m hm
      have hinside := (h.inside m hm).1
      have hm := hbetween m hm
      simp only [bne_iff_ne]
      omega
    show stop (t.length - (t.drop i).length) - _ = 0
    rw [hstart, show stop i = i by simp only [stop, hlookup, Option.getD_none], Nat.sub_self]

/-- What is taken at the front of a text is reported, and the scan goes on behind it. -/
lemma scan_of_take {pattern : Pattern} {u taken : Text} (htaken : u.take (pattern u) = taken)
    (hne : taken ≠ []) (p : Position) :
    pattern.scan p u =
      ⟨⟨p, p.pastText taken⟩, taken⟩ :: pattern.scan (p.pastText taken) (u.drop taken.length) := by
  cases u with
  | nil => exact absurd (htaken.symm.trans take_nil) hne
  | cons c rest =>
    have hpos := length_pos_iff.2 hne
    have hdrop : (c :: rest).drop taken.length = rest.drop (taken.length - 1) := by
      obtain ⟨n, hn⟩ : ∃ n, taken.length = n + 1 := ⟨taken.length - 1, by omega⟩
      rw [hn, drop_succ_cons, Nat.add_sub_cancel]
    rw [scan, htaken, hdrop]
    exact if_neg (by simpa using hne)

/-- What a scan reports from a place outside of all pieces on: the pieces that are left, with the
positions that a walk through the text comes to. -/
lemma Finds.scan_drop {pattern : Pattern} {front back : List (Nat × Nat)}
    (h : pattern.Finds t (front ++ back)) (p : Position) {i : Nat} (hi : i ≤ t.length)
    (hfront : ∀ m ∈ front, m.2 ≤ i) (hback : ∀ m ∈ back, i ≤ m.1) :
    pattern.scan (p.pastText (t.take i)) (t.drop i) = back.map fun m =>
      ⟨⟨p.pastText (t.take m.1), p.pastText (t.take m.2)⟩, t.slice m.1 m.2⟩ := by
  -- the walk goes on from where it has come to
  have hpast : ∀ {i j : Nat}, i ≤ j →
      (p.pastText (t.take i)).pastText (t.slice i j) = p.pastText (t.take j) := by
    intro i j hij
    have hsplit := take_append_drop i (t.take j)
    rw [take_take, Nat.min_eq_left hij] at hsplit
    rw [← hsplit]
    exact foldl_append.symm
  induction hleft : t.length - i using Nat.strongRecOn generalizing i front back with
  | ind left ih =>
    by_cases hstart : ∃ m rest, back = m :: rest ∧ m.1 = i
    · -- a piece starts here: it is taken, and the scan goes on behind it
      obtain ⟨m, rest, rfl, rfl⟩ := hstart
      have hmem : m ∈ front ++ m :: rest := mem_append_right _ mem_cons_self
      have hinside := h.separate.inside m hmem
      have hlength : (t.slice m.1 m.2).length = m.2 - m.1 := by
        rw [Text.slice, length_drop, length_take]
        omega
      have hne : t.slice m.1 m.2 ≠ [] := by
        rw [← length_pos_iff, hlength]
        omega
      have hrest : pattern.scan (p.pastText (t.take m.2)) (t.drop m.2) = rest.map fun m =>
          ⟨⟨p.pastText (t.take m.1), p.pastText (t.take m.2)⟩, t.slice m.1 m.2⟩ := by
        have hordered := (pairwise_append.1 h.separate.ordered).2.1
        have hfinds : pattern.Finds t (front ++ [m] ++ rest) := by
          rwa [append_assoc, singleton_append]
        refine ih _ (by omega) hfinds hinside.2 (fun n hn => ?_)
          (pairwise_cons.1 hordered).1 rfl
        rcases mem_append.1 hn with hn | hn
        · exact Nat.le_trans (hfront n hn) (Nat.le_of_lt hinside.1)
        · rw [mem_singleton.1 hn]
      rw [scan_of_take (h.takes m hmem) hne, hpast (by omega), hlength, drop_drop,
        Nat.add_sub_cancel' (by omega), hrest]
      rfl
    · have hlater : ∀ m ∈ back, i < m.1 := by
        intro m hm
        refine Nat.lt_of_le_of_ne (hback m hm) fun heq => hstart ?_
        cases back with
        | nil => exact absurd hm not_mem_nil
        | cons n back =>
          -- no other piece than the first one that is left can start here
          rcases mem_cons.1 hm with rfl | hm
          · exact ⟨m, back, rfl, heq.symm⟩
          · have hordered := (pairwise_append.1 h.separate.ordered).2.1
            have hbefore := (pairwise_cons.1 hordered).1 m hm
            have hn := hback n mem_cons_self
            have hinside :=
              h.separate.inside n (mem_append_right _ mem_cons_self)
            omega
      rcases Nat.lt_or_eq_of_le hi with hlt | rfl
      · -- between pieces nothing is taken
        have hskip : pattern (t.drop i) = 0 := by
          refine h.skips i hlt fun m hm => ?_
          rcases mem_append.1 hm with hm | hm
          · exact .inr (hfront m hm)
          · exact .inl (hlater m hm)
        have hnext := ih _ (by omega) h hlt (fun m hm => Nat.le_succ_of_le (hfront m hm)) hlater rfl
        rw [take_succ_eq_append_getElem hlt] at hnext
        rw [drop_eq_getElem_cons hlt] at hskip ⊢
        rw [scan_cons_of_eq_zero hskip, ← hnext, Position.pastText, Position.pastText,
          foldl_append]
        rfl
      · -- at the end no piece is left
        have hnone : back = [] := by
          apply eq_nil_iff_forall_not_mem.2
          intro m hm
          have hinside := h.separate.inside m (mem_append_right _ hm)
          have hbehind := hlater m hm
          omega
        rw [hnone, drop_length, scan]
        rfl

end Pattern

/-! ## Visitors -/

/-- A visitor that keeps what it is shown, and has seen enough once it says so of that. -/
def Hit.recorder (enough : List Hit → Bool) (seen : List Hit) (hit : Hit) : List Hit × Bool :=
  (seen ++ [hit], enough (seen ++ [hit]))

/-- The visitor has seen enough with the `k`-th piece, unless there are no more than that, and not
before. -/
structure Hit.EnoughAt (enough : List Hit → Bool) (hits : List Hit) (k : Nat) : Prop where
  pos : 0 < k
  before : ∀ j < k, 0 < j → enough (hits.take j) = false
  at_last : k < hits.length → enough (hits.take k) = true

/-- What a visitor is shown of the pieces that are left, when it has been shown some before. -/
lemma Hit.visit_recorder {enough : List Hit → Bool} {hits : List Hit} {k : Nat} (seen : List Hit)
    (h : Hit.EnoughAt (fun shown => enough (seen ++ shown)) hits k) :
    Hit.visit (Hit.recorder enough) seen hits = seen ++ hits.take k := by
  induction hits generalizing seen k with
  | nil =>
    rw [take_nil, append_nil]
    rfl
  | cons hit hits ih =>
    obtain ⟨k, rfl⟩ : ∃ n, k = n + 1 := ⟨k - 1, by have := h.pos; omega⟩
    have htake : ∀ j, seen ++ (hit :: hits).take (j + 1) = seen ++ [hit] ++ hits.take j := by
      intro j
      rw [take_succ_cons, append_assoc, singleton_append]
    show (if enough (seen ++ [hit]) then seen ++ [hit] else _) = _
    rw [htake]
    cases k with
    | zero =>
      split
      · exact (append_nil _).symm
      · -- it is shown all there is
        next hmore =>
        cases hits with
        | nil => exact (append_nil _).symm
        | cons next hits => exact absurd (h.at_last (by simp)) hmore
    | succ k =>
      have hfirst : enough (seen ++ [hit]) = false := h.before 1 (by omega) Nat.one_pos
      rw [if_neg (by simp [hfirst])]
      refine ih (seen ++ [hit]) ⟨Nat.succ_pos k, fun j hjk hj => ?_, fun hlt => ?_⟩
      · rw [← htake]
        exact h.before (j + 1) (by omega) (Nat.succ_pos j)
      · rw [← htake]
        exact h.at_last (by simpa using hlt)

/-! ## Scans of a buffer -/

namespace Text

/-- Characters without a row break neither start nor end between the two characters of a break. -/
lemma not_splitsBreak_of_slice (hij : i < j)
    (h : ∀ c ∈ t.slice i j, c ≠ '\n' ∧ c ≠ '\r') : ¬ SplitsBreak t i ∧ ¬ SplitsBreak t j :=
  ⟨fun hsplit => (h _ (mem_slice.2 ⟨i, Nat.le_refl i, hij, hsplit.2.2⟩)).1 rfl,
    fun hsplit => (h _ (mem_slice.2 ⟨j - 1, by omega, by omega, hsplit.2.1⟩)).2 rfl⟩

/-- The characters between two offsets of a text, where they stand. -/
def hitBetween (t : Text) (i j : Nat) : Hit := ⟨⟨t.positionOf i, t.positionOf j⟩, t.slice i j⟩

lemma inRange_hitBetween (hij : i ≤ j) (hj : j ≤ t.length)
    (hi' : ¬ SplitsBreak t i) (hj' : ¬ SplitsBreak t j) :
    t.inRange (t.hitBetween i j).range = (t.hitBetween i j).text := by
  show t.slice (t.offsetOf (t.positionOf i)) (t.offsetOf (t.positionOf j)) = t.slice i j
  rw [(offsetOf_positionOf_iff t (by omega)).2 hi', (offsetOf_positionOf_iff t hj).2 hj']

section
variable {t : Text} {r : Range}

/-- Offsets in the text of a range, counted from the start of the text as a whole. -/
lemma slice_inRange (hj : t.offsetOf r.start + j ≤ t.offsetOf r.stop) :
    (t.inRange r).slice i j = t.slice (t.offsetOf r.start + i) (t.offsetOf r.start + j) := by
  unfold inRange slice
  rw [take_drop, drop_drop, take_take, Nat.min_eq_left hj]

lemma take_offsetOf_append {i : Nat} (hi : t.offsetOf r.start + i ≤ t.offsetOf r.stop) :
    t.take (t.offsetOf r.start) ++ (t.inRange r).take i = t.take (t.offsetOf r.start + i) := by
  unfold inRange slice
  rw [take_drop, take_take, Nat.min_eq_left hi]
  have hsplit := take_append_drop (t.offsetOf r.start) (t.take (t.offsetOf r.start + i))
  rwa [take_take, Nat.min_eq_left (Nat.le_add_right _ _)] at hsplit

/-- The walk through the text of a range comes to the positions of the text as a whole. -/
lemma pastText_take_inRange (h : strayBreaks t = 0) {i : Nat}
    (hi : t.offsetOf r.start + i ≤ t.offsetOf r.stop)
    (hwhole : ¬ SplitsBreak t (t.offsetOf r.start + i)) :
    (t.clip r.start).pastText ((t.inRange r).take i) = t.positionOf (t.offsetOf r.start + i) := by
  have hstop := t.offsetOf_le_length r.stop
  have hstart : t.clip r.start = place (t.take (t.offsetOf r.start)) := by
    rw [← (positionOf_offsetOf_iff t).2 h, positionOf_eq_walk h (t.offsetOf_le_length _)
      (not_splitsBreak_offsetOf h _)]
  rw [hstart, pastText_eq_add, ← place_append, take_offsetOf_append hi,
    positionOf_eq_walk h (by omega) hwhole]

end

/-- Pieces of the text in a range, none with a row break in it. -/
structure Scanned (t : Text) (r : Range) (pieces : List (Nat × Nat)) : Prop where
  separate : (t.inRange r).Separate pieces
  unbroken : ∀ m ∈ pieces, ∀ c ∈ (t.inRange r).slice m.1 m.2, c ≠ '\n' ∧ c ≠ '\r'

namespace Scanned

variable {t : Text} {r : Range} {pieces : List (Nat × Nat)} {m : Nat × Nat}

lemma add_le_offsetOf (h : t.Scanned r pieces) (hm : m ∈ pieces) :
    t.offsetOf r.start + m.2 ≤ t.offsetOf r.stop := by
  have hinside := h.separate.inside m hm
  rw [inRange, slice, length_drop, length_take] at hinside
  omega

lemma not_splitsBreak (h : t.Scanned r pieces) (hm : m ∈ pieces) :
    ¬ SplitsBreak t (t.offsetOf r.start + m.1) ∧ ¬ SplitsBreak t (t.offsetOf r.start + m.2) := by
  apply not_splitsBreak_of_slice (Nat.add_lt_add_left (h.separate.inside m hm).1 _)
  rw [← slice_inRange (h.add_le_offsetOf hm)]
  exact h.unbroken m hm

/-- The piece of the text in the range, as a piece of the text. -/
lemma hit_eq (h : t.Scanned r pieces) (hstray : strayBreaks t = 0) (hm : m ∈ pieces) :
    (⟨⟨(t.clip r.start).pastText ((t.inRange r).take m.1),
      (t.clip r.start).pastText ((t.inRange r).take m.2)⟩, (t.inRange r).slice m.1 m.2⟩ : Hit) =
      t.hitBetween (t.offsetOf r.start + m.1) (t.offsetOf r.start + m.2) := by
  have hinside := (h.separate.inside m hm).1
  have hstop := h.add_le_offsetOf hm
  obtain ⟨hfirst, hlast⟩ := h.not_splitsBreak hm
  rw [pastText_take_inRange hstray (by omega) hfirst, pastText_take_inRange hstray hstop hlast,
    slice_inRange hstop]
  rfl

/-- A piece lies in the clipped range, and its characters are those at its own range. -/
lemma hit_within (h : t.Scanned r pieces) (hstray : strayBreaks t = 0) (hm : m ∈ pieces) :
    let hit := t.hitBetween (t.offsetOf r.start + m.1) (t.offsetOf r.start + m.2)
    t.clip r.start ≤ hit.range.start ∧ hit.range.start < hit.range.stop ∧
      hit.range.stop ≤ t.clip r.stop ∧ t.inRange hit.range = hit.text := by
  have hinside := (h.separate.inside m hm).1
  have hstop := h.add_le_offsetOf hm
  have hend := t.offsetOf_le_length r.stop
  obtain ⟨hfirst, hlast⟩ := h.not_splitsBreak hm
  rw [← (positionOf_offsetOf_iff t).2 hstray r.start, ← (positionOf_offsetOf_iff t).2 hstray r.stop]
  have hranges := not_splitsBreak_offsetOf hstray
  exact ⟨positionOf_le_positionOf t (by omega) (by omega) (hranges _) hfirst,
    positionOf_lt_positionOf t (by omega) (by omega) hfirst hlast,
    positionOf_le_positionOf t hstop hend hlast (hranges _),
    inRange_hitBetween (by omega) (by omega) hfirst hlast⟩

/-- The pieces of a text are in the order of their ranges. -/
lemma pairwise_hit (h : t.Scanned r pieces) :
    (pieces.map fun m =>
      t.hitBetween (t.offsetOf r.start + m.1) (t.offsetOf r.start + m.2)).Pairwise
        fun x y => x.range.stop ≤ y.range.start := by
  rw [pairwise_map]
  refine h.separate.ordered.imp_of_mem fun {m n} hm hn hmn => ?_
  have hinside := (h.separate.inside n hn).1
  have hstop := h.add_le_offsetOf hn
  have hend := t.offsetOf_le_length r.stop
  exact positionOf_le_positionOf t (by omega) (by omega) (h.not_splitsBreak hm).2
    (h.not_splitsBreak hn).1

end Scanned

end Text

namespace Buffer

lemma scan_eq_map {b : Buffer} {r : Range} {pieces : List (Nat × Nat)}
    (h : b.text.Scanned r pieces) (hstray : b.text.strayBreaks = 0) {pattern : Pattern}
    (hfinds : pattern.Finds (b.text.inRange r) pieces) :
    b.scan pattern r = pieces.map fun m =>
      b.text.hitBetween (b.text.offsetOf r.start + m.1) (b.text.offsetOf r.start + m.2) := by
  have hall : pattern.Finds (b.text.inRange r) ([] ++ pieces) := hfinds
  have hscan := hall.scan_drop (b.text.clip r.start) (Nat.zero_le _)
    (fun _ hm => absurd hm not_mem_nil) (fun _ _ => Nat.zero_le _)
  exact hscan.trans (map_congr_left fun m hm => h.hit_eq hstray hm)

/-- **Scans.** In a text whose rows end at line feeds only, with or without a carriage return in
front, any pieces without row breaks of the text in a range are what some pattern takes there, and
a scan for such a pattern reports just these: each at the position it has in the whole text, inside
the clipped range, with the characters that stand at the reported range; one behind the other, or,
back to front, in the opposite order. A visitor is shown the first of them, up to the one with which
it has seen enough. -/
theorem scan_reports_pieces (b : Buffer) (r : Range) (pieces : List (Nat × Nat))
    (hstray : b.text.strayBreaks = 0) (h : b.text.Scanned r pieces) :
    (∃ pattern : Pattern, pattern.Finds (b.text.inRange r) pieces) ∧
      ∀ pattern : Pattern, pattern.Finds (b.text.inRange r) pieces →
        (b.scan pattern r = pieces.map fun m =>
          b.text.hitBetween (b.text.offsetOf r.start + m.1) (b.text.offsetOf r.start + m.2)) ∧
        ((b.scan pattern r).map Hit.text = pieces.map fun m => (b.text.inRange r).slice m.1 m.2) ∧
        (∀ hit ∈ b.scan pattern r, b.text.clip r.start ≤ hit.range.start ∧
          hit.range.start < hit.range.stop ∧ hit.range.stop ≤ b.text.clip r.stop ∧
          b.text.inRange hit.range = hit.text) ∧
        ((b.scan pattern r).Pairwise fun x y => x.range.stop ≤ y.range.start) ∧
        (b.scanBack pattern r = pieces.reverse.map fun m =>
          b.text.hitBetween (b.text.offsetOf r.start + m.1) (b.text.offsetOf r.start + m.2)) ∧
        ∀ (enough : List Hit → Bool) (k : Nat),
          (Hit.EnoughAt enough (b.scan pattern r) k →
            b.scanWith pattern r (Hit.recorder enough) [] = (b.scan pattern r).take k) ∧
          (Hit.EnoughAt enough (b.scanBack pattern r) k →
            b.scanBackWith pattern r (Hit.recorder enough) [] = (b.scanBack pattern r).take k) := by
  refine ⟨Pattern.exists_finds h.separate, fun pattern hfinds => ?_⟩
  have hscan := scan_eq_map h hstray hfinds
  refine ⟨hscan, ?_, ?_, ?_, ?_, fun enough k =>
    ⟨fun henough => Hit.visit_recorder [] henough, fun henough => Hit.visit_recorder [] henough⟩⟩
  · rw [hscan, map_map]
    exact map_congr_left fun m hm => (Text.slice_inRange (h.add_le_offsetOf hm)).symm
  · intro hit hmem
    rw [hscan] at hmem
    obtain ⟨m, hm, rfl⟩ := mem_map.1 hmem
    exact h.hit_within hstray hm
  · rw [hscan]
    exact h.pairwise_hit
  · rw [scanBack, hscan, map_reverse]

/-- Takes what is neither a row break nor an `a`. -/
def sampleLetters : Pattern := .run fun c => c != '\n' && c != '\r' && c != 'a'

/-- From the middle of a row of `Text.sampleLines` to below its last one. -/
def sampleRange : Range := ⟨⟨0, 1⟩, ⟨9, 4⟩⟩

theorem scan_reports_pieces_sampleLines :
    Text.sampleLines.strayBreaks = 0 ∧
      Text.sampleLines.Scanned sampleRange [(0, 1), (3, 4), (5, 6)] ∧
      (ofText Text.sampleLines).scan sampleLetters sampleRange =
        [⟨⟨⟨0, 1⟩, ⟨0, 2⟩⟩, ['b']⟩, ⟨⟨⟨1, 0⟩, ⟨1, 1⟩⟩, ['c']⟩, ⟨⟨⟨2, 0⟩, ⟨2, 1⟩⟩, ['d']⟩] ∧
      (ofText Text.sampleLines).scanBackWith sampleLetters sampleRange
          (Hit.recorder fun hits => 2 ≤ hits.length) [] =
        [⟨⟨⟨2, 0⟩, ⟨2, 1⟩⟩, ['d']⟩, ⟨⟨⟨1, 0⟩, ⟨1, 1⟩⟩, ['c']⟩] := by
  have hstray : Text.sampleLines.strayBreaks = 0 := by decide
  have hscanned : Text.sampleLines.Scanned sampleRange [(0, 1), (3, 4), (5, 6)] :=
    ⟨⟨by decide, by decide⟩, by decide⟩
  have hfinds : sampleLetters.Finds (Text.sampleLines.inRange sampleRange)
      [(0, 1), (3, 4), (5, 6)] := ⟨hscanned.separate, by decide, by decide⟩
  obtain ⟨-, hreports⟩ := scan_reports_pieces (ofText Text.sampleLines) sampleRange
    [(0, 1), (3, 4), (5, 6)] hstray hscanned
  obtain ⟨hscan, -, -, -, hback, hvisit⟩ := hreports sampleLetters hfinds
  refine ⟨hstray, hscanned, hscan.trans (by decide), ?_⟩
  rw [(hvisit (fun hits => 2 ≤ hits.length) 2).2, hback]
  · decide
  · rw [hback]
    exact ⟨by decide, by decide, by decide⟩

end Buffer

end TemplateEditing
