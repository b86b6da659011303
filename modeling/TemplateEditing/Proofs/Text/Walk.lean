import Mathlib.Logic.Function.Iterate
import TemplateEditing.Proofs.Text.Clip
import TemplateEditing.Proofs.Text.Place
import TemplateEditing.Text.Walk

/-!
# Looking back over a text

A walk back over a text whose rows end at line feeds comes by all its characters. It passes over a
line feed, unless the row before it is empty; then it stops there, at column 0 of that row
(`walkBack_positionOf`, `mem_walkBack_iff`). Every step of it leads to an earlier position
(`pairwise_walkBack`), so it is no longer than the text and its start allow (`length_walkBack_le`).
The row up to an offset is what stands behind the last line feed before it
(`rowBefore_positionOf`), and a class of characters cuts the end off a row at one place only
(`takeEndWhile_eq_iff`).
-/

namespace TemplateEditing.Text

open List

variable {t : Text} {i : Nat}

lemma walkBack_of_none {p : Position} (h : before? t p = none) : walkBack t p = [] := by
  rw [walkBack]
  split
  · rfl
  · next h' => rw [h] at h'; cases h'

lemma walkBack_of_some {p q : Position} (h : before? t p = some q) :
    walkBack t p = q :: walkBack t q := by
  rw [walkBack]
  split
  · next h' => rw [h] at h'; cases h'
  · next h' =>
    obtain rfl := Option.some.inj (h.symm.trans h')
    rfl

/-! ## One step -/

/-- A line feed stands at the end of its row. -/
lemma lineLength_of_lineFeed (h : OnlyLineFeeds t) (hc : t[i]? = some '\n') :
    lineLength t (positionOf t i).row = (positionOf t i).column := by
  have hi : i < t.length := (List.getElem?_eq_some_iff.1 hc).1
  apply Nat.le_antisymm
  · -- otherwise another character would stand there
    apply Nat.not_lt.1
    intro hlt
    obtain ⟨d, hd, hne⟩ := exists_char_of_column_lt h (Nat.le_of_lt hi) hlt
    exact hne (Option.some.inj (hd.symm.trans hc))
  · obtain ⟨⟨piece, hpiece, hle⟩, -⟩ := holds_place h (Nat.le_of_lt hi)
    rw [← positionOf_eq_place h] at hpiece hle
    rw [lineLength, line, line?_eq h, hpiece]
    exact hle

/-- Behind a line feed the next row starts. -/
lemma positionOf_succ_lineFeed (h : OnlyLineFeeds t) (hc : t[i]? = some '\n') :
    positionOf t (i + 1) = ⟨(positionOf t i).row + 1, 0⟩ := by
  rw [positionOf_eq_place h, positionOf_eq_place h, take_add_one, hc, place_append]
  rfl

lemma walkBack_zero (h : OnlyLineFeeds t) : walkBack t (positionOf t 0) = [] := by
  rw [positionOf_zero h]
  exact walkBack_of_none rfl

/-- The walk stops at every character but line feeds. -/
lemma walkBack_succ (h : OnlyLineFeeds t) {c : Char} (hc : t[i]? = some c) (hn : c ≠ '\n') :
    walkBack t (positionOf t (i + 1)) = positionOf t i :: walkBack t (positionOf t i) := by
  rw [positionOf_succ h hc hn]
  exact walkBack_of_some (before?_right t _)

/-- The walk stops at the line feed of an empty row, and passes over that of another row. -/
lemma walkBack_succ_lineFeed (h : OnlyLineFeeds t) (hc : t[i]? = some '\n') :
    walkBack t (positionOf t (i + 1)) =
      if (positionOf t i).column = 0 then positionOf t i :: walkBack t (positionOf t i)
      else walkBack t (positionOf t i) := by
  have hbefore : before? t (positionOf t (i + 1)) =
      some ⟨(positionOf t i).row, (positionOf t i).column - 1⟩ := by
    rw [positionOf_succ_lineFeed h hc, before?, if_neg (Nat.lt_irrefl 0),
      if_neg (Nat.succ_ne_zero _), Nat.add_sub_cancel, lineLength_of_lineFeed h hc]
  rw [walkBack_of_some hbefore]
  split
  · next hcolumn =>
    have heq : (⟨(positionOf t i).row, (positionOf t i).column - 1⟩ : Position) =
        positionOf t i := by
      rw [hcolumn, Nat.zero_sub, ← hcolumn]
    rw [heq]
  · next hcolumn =>
    -- from the line feed a step leads to the same place
    rw [walkBack_of_some (p := positionOf t i)]
    rw [before?, if_pos (Nat.pos_of_ne_zero hcolumn)]

/-! ## The whole walk -/

/-- The walk back stops at an offset: there is a character, or the end of an empty row. -/
def isStop (t : Text) (i : Nat) : Bool := t[i]? != some '\n' || (positionOf t i).column == 0

/-- **The walk back stops at every character, and in every empty row, once.** -/
theorem walkBack_positionOf (h : OnlyLineFeeds t) (hi : i ≤ t.length) :
    walkBack t (positionOf t i) =
      ((List.range i).reverse.filter (isStop t)).map (positionOf t) := by
  induction i with
  | zero => exact walkBack_zero h
  | succ i ih =>
    have hi' : i < t.length := hi
    have ih := ih (Nat.le_of_lt hi')
    have hc : t[i]? = some t[i] := getElem?_eq_getElem hi'
    rw [range_succ, reverse_append, reverse_singleton, singleton_append,
      filter_cons]
    by_cases hn : t[i] = '\n'
    · rw [hn] at hc
      have hstop : isStop t i = ((positionOf t i).column == 0) := by simp [isStop, hc]
      rw [walkBack_succ_lineFeed h hc, ih, hstop]
      simp only [beq_iff_eq]
      split <;> rfl
    · have hstop : isStop t i = true := by simp [isStop, hc, hn]
      rw [walkBack_succ h hc hn, ih, if_pos hstop]
      rfl

/-- The walk back is what step after step back leads to, until there is none. -/
lemma iterate_before? (t : Text) (p : Position) (k : Nat) :
    (Option.bind · t.before?)^[k] (some p) = (p :: walkBack t p)[k]? := by
  induction k generalizing p with
  | zero => rfl
  | succ k ih =>
    rw [Function.iterate_succ_apply, Option.bind_some, getElem?_cons_succ]
    cases hbefore : before? t p with
    | none =>
      rw [walkBack_of_none hbefore]
      exact Function.iterate_fixed rfl k
    | some q => rw [walkBack_of_some hbefore, ih q]

/-- Every position of the walk back is before those that it has come by. -/
lemma pairwise_walkBack (t : Text) (p : Position) : (p :: walkBack t p).Pairwise (· > ·) := by
  fun_induction walkBack t p with
  | case1 p h => exact pairwise_singleton _ _
  | case2 p q h _ ih =>
    have hq : q < p := before?_lt h
    refine pairwise_cons.2 ⟨fun r hr => ?_, ih⟩
    rcases mem_cons.1 hr with rfl | hr
    · exact hq
    · have hr : r < q := rel_of_pairwise_cons ih hr
      rw [gt_iff_lt]
      rw [Position.lt_def] at hq hr ⊢
      omega

/-- The walk back comes to a position before its start exactly if a character other than a line
feed stands there, or the row is empty. -/
theorem mem_walkBack_iff (h : OnlyLineFeeds t) {p : Position} (hp : clip t p = p) (q : Position) :
    q ∈ walkBack t p ↔ q < p ∧
      ((∃ i c, t[i]? = some c ∧ c ≠ '\n' ∧ positionOf t i = q) ∨
        q.row < rowCount t ∧ line t q.row = [] ∧ q.column = 0) := by
  have hrow := row_clip_lt t p
  rw [hp] at hrow
  obtain ⟨i, hi, rfl⟩ : ∃ i ≤ t.length, positionOf t i = p :=
    ⟨offsetOf t p, offsetOf_le_length t p, (positionOf_offsetOf h p).trans hp⟩
  rw [walkBack_positionOf h hi]
  simp only [mem_map, mem_filter, mem_reverse, mem_range]
  constructor
  · rintro ⟨j, ⟨hji, hstop⟩, rfl⟩
    have hj : j < t.length := Nat.lt_of_lt_of_le hji hi
    have hc : t[j]? = some t[j] := getElem?_eq_getElem hj
    have hlt := (positionOf_lt_iff h (Nat.le_of_lt hj) hi).2 hji
    refine ⟨hlt, ?_⟩
    by_cases hn : t[j] = '\n'
    · -- the walk stops at a line feed only in column 0, so nothing else stands in its row
      rw [hn] at hc
      have hcolumn : (positionOf t j).column = 0 := by simpa [isStop, hc] using hstop
      have hlength := lineLength_of_lineFeed h hc
      rw [hcolumn] at hlength
      rw [Position.lt_def] at hlt
      exact .inr ⟨by omega, length_eq_zero_iff.1 hlength, hcolumn⟩
    · exact .inl ⟨j, t[j], hc, hn, rfl⟩
  · rintro ⟨hlt, ⟨j, c, hc, hn, rfl⟩ | ⟨hrow, -, hcolumn⟩⟩
    · have hj : j < t.length := (List.getElem?_eq_some_iff.1 hc).1
      have hji := (positionOf_lt_iff h (Nat.le_of_lt hj) hi).1 hlt
      exact ⟨j, ⟨hji, by simp [isStop, hc, hn]⟩, rfl⟩
    · have hq : positionOf t (offsetOf t q) = q := by
        rw [positionOf_offsetOf h, clip_of_lt hrow, hcolumn, Nat.zero_min, ← hcolumn]
      rw [← hq] at hlt
      have hji := (positionOf_lt_iff h (offsetOf_le_length t q) hi).1 hlt
      exact ⟨offsetOf t q, ⟨hji, by simp [isStop, hq, hcolumn]⟩, hq⟩

/-- No walk back is longer than the text and its start allow, whatever ends the rows. -/
lemma length_walkBack_le (t : Text) (p : Position) :
    (walkBack t p).length ≤ p.row + p.column + t.length := by
  -- what is counted are rows, and the columns of the rows above
  refine Nat.le_trans ?_ (Nat.add_le_add_left (rowStart_le_length t p.row) _)
  fun_induction walkBack t p with
  | case1 p h => exact Nat.zero_le _
  | case2 p q h _ ih =>
    rw [length_cons]
    unfold before? at h
    split at h
    · cases h
      dsimp only at ih
      omega
    · split at h
      · cases h
      · cases h
        have hup := rowStart_add_lineLength_le_succ t (p.row - 1)
        rw [Nat.sub_add_cancel (by omega)] at hup
        dsimp only at ih
        omega

/-! ## Ends of texts -/

section
variable {p q : Char → Bool} {a b : Text} {c : Char}

lemma dropEndWhile_append_takeEndWhile (p : Char → Bool) (t : Text) :
    dropEndWhile p t ++ takeEndWhile p t = t := by
  rw [dropEndWhile, takeEndWhile, ← reverse_append, takeWhile_append_dropWhile,
    reverse_reverse]

lemma of_mem_takeEndWhile (h : c ∈ takeEndWhile p t) : p c = true :=
  all_eq_true.1 all_takeWhile c (mem_reverse.1 h)

lemma getLast?_dropEndWhile (p : Char → Bool) (t : Text) :
    ∀ c ∈ (dropEndWhile p t).getLast?, p c = false := by
  intro c hc
  rw [dropEndWhile, getLast?_reverse] at hc
  have h := head?_dropWhile_not p t.reverse
  rw [hc] at h
  simpa using h

lemma takeEndWhile_append_of_pos (h : ∀ c ∈ b, p c = true) :
    takeEndWhile p (a ++ b) = takeEndWhile p a ++ b := by
  rw [takeEndWhile, reverse_append,
    takeWhile_append_of_pos (fun c hc => h c (mem_reverse.1 hc)), reverse_append,
    reverse_reverse, ← takeEndWhile]

lemma takeEndWhile_of_getLast? (h : ∀ c ∈ a.getLast?, p c = false) : takeEndWhile p a = [] := by
  rw [getLast?_eq_head?_reverse] at h
  rw [takeEndWhile, reverse_eq_nil_iff]
  cases hreverse : a.reverse with
  | nil => rfl
  | cons c rest => simp [h c (by rw [hreverse]; rfl)]

/-- A class of characters cuts the end off a text where its characters begin. -/
lemma takeEndWhile_eq_iff : takeEndWhile p (a ++ b) = b ↔
    (∀ c ∈ b, p c = true) ∧ ∀ c ∈ a.getLast?, p c = false := by
  constructor
  · intro h
    have hcut := dropEndWhile_append_takeEndWhile p (a ++ b)
    rw [h, append_left_inj] at hcut
    refine ⟨fun c hc => of_mem_takeEndWhile (t := a ++ b) (by rwa [h]), ?_⟩
    rw [← hcut]
    exact getLast?_dropEndWhile p (a ++ b)
  · rintro ⟨hb, ha⟩
    rw [takeEndWhile_append_of_pos hb, takeEndWhile_of_getLast? ha, nil_append]

/-- What a smaller class cuts off is the end of what a larger one cuts off. -/
lemma takeEndWhile_takeEndWhile (h : ∀ c, p c = true → q c = true) (t : Text) :
    takeEndWhile p (takeEndWhile q t) = takeEndWhile p t := by
  rw [takeEndWhile, takeEndWhile, reverse_reverse, takeEndWhile]
  congr 1
  induction t.reverse with
  | nil => rfl
  | cons c rest ih =>
    by_cases hp : p c = true
    · simp [hp, h c hp, ih]
    · cases hq : q c <;> simp [hp, hq]

end

/-! ## Rows -/

/-- The row up to an offset is what stands behind the last line feed before it. -/
theorem rowBefore_positionOf (h : OnlyLineFeeds t) (hi : i ≤ t.length) :
    rowBefore t (positionOf t i) = takeEndWhile (· != '\n') (t.take i) := by
  induction i with
  | zero =>
    rw [positionOf_zero h]
    rfl
  | succ i ih =>
    have hi' : i < t.length := hi
    have ih := ih (Nat.le_of_lt hi')
    have hc : t[i]? = some t[i] := getElem?_eq_getElem hi'
    rw [take_add_one, hc]
    by_cases hn : t[i] = '\n'
    · rw [hn] at hc
      rw [positionOf_succ_lineFeed h hc, hn, takeEndWhile_of_getLast? (by simp)]
      rfl
    · rw [positionOf_succ h hc hn, takeEndWhile_append_of_pos (by simpa using hn), ← ih]
      have hchar : (line t (positionOf t i).row)[(positionOf t i).column]? = some t[i] :=
        charAt?_positionOf h hc hn
      show (line t (positionOf t i).row).take ((positionOf t i).column + 1) = _
      rw [take_add_one, hchar]
      rfl

/-- The row up to a position in the text ends where the position is, and there is no row
elsewhere. -/
lemma rowBefore_cases (h : OnlyLineFeeds t) (p : Position) :
    rowBefore t p = [] ∨ rowBefore t p = takeEndWhile (· != '\n') (t.take (offsetOf t p)) := by
  have hclip := positionOf_offsetOf h p
  have hrow := rowBefore_positionOf h (offsetOf_le_length t p)
  rw [hclip, clip] at hrow
  split at hrow
  · right
    rw [← hrow, rowBefore, rowBefore]
    show _ = (line t p.row).take (min p.column (line t p.row).length)
    rw [← take_take, take_length]
  · next hlt =>
    left
    have hnone : (rows t)[p.row]? = none := getElem?_eq_none (Nat.le_of_not_lt hlt)
    rw [rowBefore, line, line?, hnone]
    exact take_nil

/-- The run of a class through a character, if there are no line feeds in the class. -/
lemma runThrough_positionOf (h : OnlyLineFeeds t) {c : Char} (hc : t[i]? = some c) (hn : c ≠ '\n')
    {p : Char → Bool} (hp : p '\n' = false) :
    runThrough p t (positionOf t i) = takeEndWhile p (t.take (i + 1)) := by
  have hi : i < t.length := (List.getElem?_eq_some_iff.1 hc).1
  rw [runThrough, ← positionOf_succ h hc hn, rowBefore_positionOf h hi]
  apply takeEndWhile_takeEndWhile
  intro c hc
  rw [bne_iff_ne]
  rintro rfl
  rw [hp] at hc
  cases hc

end TemplateEditing.Text
