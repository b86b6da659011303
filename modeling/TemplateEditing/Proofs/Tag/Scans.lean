import TemplateEditing.Proofs.Tag.Found

/-!
# Scans in both directions

A scan can be cut at any token: before it the tokens are those of the text up to it, behind it those
of the text from there on (`tokensBetween_split`). So it can be cut at any tag that it finds. The
tags behind that tag are those that a scan from there finds, and the tags before it those that a scan
backwards finds (`Document.Inked.tagsFrom_split`), though the two put spans together in different
ways (`spansBackOf_reverse`).
-/

namespace TemplateEditing

open List

variable {tokens : List TokenHit} {before behind : List TagSpan} {s : TagSpan}

/-! ## Cutting a scan at a token -/

/-- What is taken at a character and ends before a cut is taken there without what is cut off. -/
lemma taken_take {c : Char} {rest : List InkedChar} {k : Nat}
    (hk : Pattern.tagToken (c :: textOf rest) ≤ k + 1) (hlength : k ≤ rest.length) :
    Pattern.tagToken (c :: textOf (rest.take k)) = Pattern.tagToken (c :: textOf rest) := by
  have hsplit : c :: textOf rest = c :: (textOf (rest.take k) ++ textOf (rest.drop k)) := by
    rw [← textOf_append, take_append_drop]
  rw [hsplit] at hk ⊢
  refine (Pattern.tagToken_append_of_le ?_).symm
  rw [length_textOf, length_take, Nat.min_eq_left hlength]
  exact hk

section
variable {offset : Nat} {c : Char} {part : Option Token} {rest : List InkedChar} {k : Nat}

lemma tokensIn_of_ne_zero {taken : Nat} (h : Pattern.tagToken (c :: textOf rest) = taken)
    (hne : taken ≠ 0) :
    tokensIn offset ((c, part) :: rest) = (part.map (⟨offset, offset + taken, ·⟩)).toList ++
      tokensIn (offset + taken) (rest.drop (taken - 1)) := by
  subst h
  rw [tokensIn, if_neg hne]

/-- A scan up to some place behind a character that no token starts with. -/
lemma tokensIn_take_of_eq_zero (h : Pattern.tagToken (c :: textOf rest) = 0)
    (hk : k ≤ rest.length) :
    tokensIn offset (((c, part) :: rest).take (k + 1)) = tokensIn (offset + 1) (rest.take k) := by
  rw [take_succ_cons, tokensIn, if_pos ((taken_take (by omega) hk).trans h)]

/-- A scan up to some place behind the first token. -/
lemma tokensIn_take_of_ne_zero {taken : Nat} (h : Pattern.tagToken (c :: textOf rest) = taken)
    (hne : taken ≠ 0) (hk : taken + k ≤ rest.length + 1) :
    tokensIn offset (((c, part) :: rest).take (taken + k)) =
      (part.map (⟨offset, offset + taken, ·⟩)).toList ++
        tokensIn (offset + taken) ((rest.drop (taken - 1)).take k) := by
  obtain ⟨n, rfl⟩ : ∃ n, taken = n + 1 := ⟨taken - 1, by omega⟩
  have htaken : Pattern.tagToken (c :: textOf (rest.take (n + k))) = n + 1 :=
    (taken_take (by omega) (by omega)).trans h
  rw [show n + 1 + k = n + k + 1 by omega, take_succ_cons, tokensIn_of_ne_zero htaken hne,
    Nat.add_sub_cancel, drop_take, Nat.add_sub_cancel_left]

end

/-- A scan up to a token is one of the text up to it, and from there on one of what follows. -/
lemma tokensIn_split {offset : Nat} {ink : List InkedChar} {t : OffsetToken}
    {back : List OffsetToken} : ∀ front, tokensIn offset ink = front ++ t :: back →
      tokensIn offset (ink.take (t.start - offset)) = front ∧
        tokensIn t.start (ink.drop (t.start - offset)) = t :: back := by
  -- where the rest of the text is cut
  have hcut : ∀ {offset : Nat} {ink : List InkedChar} {front : List OffsetToken},
      tokensIn offset ink = front ++ t :: back →
        ∃ k, t.start = offset + k ∧ k < ink.length := by
    intro offset ink front h
    have hmem : t ∈ tokensIn offset ink := by
      rw [h]
      exact mem_append_right _ mem_cons_self
    have hbounds := start_lt_stop_of_mem hmem
    exact ⟨t.start - offset, by omega, by omega⟩
  fun_induction tokensIn offset ink with
  | case1 offset =>
    intro front h
    cases front <;> cases h
  | case2 offset c part rest taken htaken ih =>
    intro front h
    obtain ⟨k, hstart, hk⟩ := hcut h
    obtain ⟨hfront, hback⟩ := ih front h
    rw [hstart, Nat.add_sub_cancel_left] at hfront hback
    rw [hstart, show offset + 1 + k - offset = k + 1 by omega, drop_succ_cons,
      tokensIn_take_of_eq_zero htaken (by omega)]
    exact ⟨hfront, hback⟩
  | case3 offset c part rest taken htaken ih =>
    intro front h
    -- the first token is kept, and the cut is made in what follows
    have hlater : ∀ front', tokensIn (offset + taken) (rest.drop (taken - 1)) = front' ++ t :: back →
        tokensIn offset (((c, part) :: rest).take (t.start - offset)) =
            (part.map (⟨offset, offset + taken, ·⟩)).toList ++ front' ∧
          tokensIn t.start (((c, part) :: rest).drop (t.start - offset)) = t :: back := by
      intro front' h'
      obtain ⟨k, hstart, hk⟩ := hcut h'
      obtain ⟨hfront, hback⟩ := ih front' h'
      rw [length_drop] at hk
      rw [hstart, Nat.add_sub_cancel_left] at hfront hback
      rw [hstart, show offset + taken + k - offset = taken + k by omega,
        tokensIn_take_of_ne_zero rfl htaken (by omega), hfront]
      refine ⟨rfl, ?_⟩
      rw [← hback, drop_drop, show taken + k = taken - 1 + k + 1 by omega, drop_succ_cons]
    cases part with
    | none => exact hlater front h
    | some token =>
      cases front with
      | nil =>
        obtain ⟨rfl, rfl⟩ := List.cons.inj h
        show tokensIn offset (List.take (offset - offset) _) = [] ∧
          tokensIn offset (List.drop (offset - offset) _) = _
        rw [Nat.sub_self, take_zero, tokensIn_nil, drop_zero, tokensIn, if_neg htaken]
        exact ⟨rfl, rfl⟩
      | cons first front =>
        obtain ⟨rfl, hrest⟩ := List.cons.inj h
        exact hlater front hrest

/-- Behind the first token the scan goes on with what follows. -/
lemma tokensIn_of_cons {ink : List InkedChar} {t : OffsetToken} {back : List OffsetToken}
    (h : tokensIn t.start ink = t :: back) : tokensIn t.stop (ink.drop (t.stop - t.start)) = back := by
  -- the scan does not find the token further on
  have hnot : ∀ {offset : Nat} {ink' : List InkedChar}, t.start < offset →
      tokensIn offset ink' ≠ t :: back := by
    intro offset ink' hlt heq
    have hmem : t ∈ tokensIn offset ink' := by
      rw [heq]
      exact mem_cons_self
    have := start_lt_stop_of_mem hmem
    omega
  cases ink with
  | nil =>
    rw [tokensIn_nil] at h
    cases h
  | cons x ink =>
    obtain ⟨c, part⟩ := x
    rw [tokensIn] at h
    split at h
    · exact absurd h (hnot (Nat.lt_succ_self _))
    · next htaken =>
      cases part with
      | none => exact absurd h (hnot (by omega))
      | some token =>
        obtain ⟨hfirst, hback⟩ := List.cons.inj h
        have hstop : t.stop = t.start + Pattern.tagToken (c :: textOf ink) := by rw [← hfirst]
        obtain ⟨n, hn⟩ := Nat.exists_eq_succ_of_ne_zero htaken
        rw [hstop, Nat.add_sub_cancel_left, ← hback, hn, drop_succ_cons]
        rfl

section
variable {ink : List InkedChar} {i j : Nat} {front back : List OffsetToken} {t : OffsetToken}

/-- The scan between two offsets can be cut at each token. -/
lemma tokensBetween_split (h : tokensBetween ink i j = front ++ t :: back) :
    tokensBetween ink i t.start = front ∧ tokensBetween ink t.start j = t :: back ∧
      tokensBetween ink t.stop j = back := by
  have hmem : t ∈ tokensBetween ink i j := by
    rw [h]
    exact mem_append_right _ mem_cons_self
  have hbounds := bounds_of_mem_tokensBetween hmem
  obtain ⟨hfront, hback⟩ := tokensIn_split front h
  have hbehind := tokensIn_of_cons hback
  rw [take_drop, take_take, Nat.min_eq_left (by omega),
    show i + (t.start - i) = t.start by omega] at hfront
  rw [drop_drop, show i + (t.start - i) = t.start by omega] at hback
  rw [drop_drop, drop_drop, show i + (t.start - i + (t.stop - t.start)) = t.stop by omega]
    at hbehind
  exact ⟨hfront, hback, hbehind⟩

lemma filter_front_of_split (h : tokensBetween ink i j = front ++ t :: back) {m : Nat}
    (hm : t.start ≤ m) : front.filter (fun t' => t'.stop ≤ m) = front :=
  filter_eq_self.2 fun t' ht' =>
    decide_eq_true (Nat.le_trans ((stop_le_of_split h).1 t' ht') hm)

lemma filter_back_of_split (h : tokensBetween ink i j = front ++ t :: back) {m : Nat}
    (hm : m < t.stop) : (t :: back).filter (fun t' => t'.stop ≤ m) = [] := by
  rw [filter_eq_nil_iff]
  intro t' ht'
  rw [decide_eq_true_eq, Nat.not_le]
  rcases mem_cons.1 ht' with rfl | ht'
  · exact hm
  · have hmem : t' ∈ tokensBetween ink i j := by
      rw [h]
      exact mem_append_right _ (mem_cons_of_mem _ ht')
    have := (stop_le_of_split h).2 t' ht'
    have := bounds_of_mem_tokensBetween hmem
    omega

end

/-! ## Cutting a scan anywhere -/

namespace Pattern

/-- Of what would be taken, all is taken that stands before a cut, or nothing. -/
lemma tagToken_take {c : Char} {rest : Text} {k : Nat} (h : k + 1 < tagToken (c :: rest)) :
    tagToken (c :: rest.take k) = k + 1 ∨ k = 0 ∧ tagToken (c :: rest.take k) = 0 := by
  rw [tagToken_cons] at h
  rw [tagToken_cons]
  by_cases hslash : c = '/'
  · rw [if_pos hslash] at h
    obtain rfl : k = 0 := by split at h <;> omega
    exact .inr ⟨rfl, by simp [hslash]⟩
  · rw [if_neg hslash] at h ⊢
    by_cases hgt : c = '>'
    · rw [if_pos hgt] at h
      omega
    · rw [if_neg hgt] at h ⊢
      by_cases hlt : c = '<'
      · rw [if_pos hlt] at h
        obtain rfl : k = 0 := by split at h <;> omega
        exact .inl (by simp [hlt])
      · -- a word is cut
        rw [if_neg hlt] at h ⊢
        left
        have hfront : (c :: rest).take (k + 1) <+: (c :: rest).takeWhile isWordChar :=
          prefix_of_prefix_length_le (List.take_prefix _ _) (List.takeWhile_prefix _)
            (by rw [length_take]; omega)
        have hword : ∀ d ∈ (c :: rest).take (k + 1), isWordChar d = true := fun d hd =>
          mem_takeWhile_imp (hfront.subset hd)
        have hlength := (List.takeWhile_prefix (l := c :: rest) isWordChar).length_le
        rw [← take_succ_cons, takeWhile_eq_self_iff.2 hword, length_take]
        omega

end Pattern

/-- A scan that stops at an offset, against one that goes on: it finds the tokens that end before it,
and perhaps the front of the one that goes across. -/
def IsCutAt (m : Nat) (whole front : List OffsetToken) : Prop :=
  ∃ cut : List OffsetToken, front = whole.filter (fun t => t.stop ≤ m) ++ cut ∧
    ∀ t' ∈ cut, ∃ t ∈ whole, t'.start = t.start ∧ t'.token = t.token ∧ t.start < m ∧ m < t.stop

namespace IsCutAt

variable {m : Nat} {whole front kept : List OffsetToken}

lemma append_left (h : IsCutAt m whole front) (hkept : ∀ t ∈ kept, t.stop ≤ m) :
    IsCutAt m (kept ++ whole) (kept ++ front) := by
  obtain ⟨cut, rfl, hcut⟩ := h
  refine ⟨cut, ?_, fun t' ht' => ?_⟩
  · rw [filter_append, filter_eq_self.2 fun t ht => decide_eq_true (hkept t ht),
      append_assoc]
  · obtain ⟨t, ht, hcut⟩ := hcut t' ht'
    exact ⟨t, mem_append_right _ ht, hcut⟩

/-- No token ends before the cut, and what is found is the front of one. -/
lemma of_forall_lt (hwhole : ∀ t ∈ whole, m < t.stop)
    (hfront : ∀ t' ∈ front, ∃ t ∈ whole, t'.start = t.start ∧ t'.token = t.token ∧ t.start < m) :
    IsCutAt m whole front := by
  refine ⟨front, ?_, fun t' ht' => ?_⟩
  · rw [filter_eq_nil_iff.2 fun t ht => ?_, nil_append]
    rw [decide_eq_true_eq, Nat.not_le]
    exact hwhole t ht
  · obtain ⟨t, ht, hstart, htoken, hlt⟩ := hfront t' ht'
    exact ⟨t, ht, hstart, htoken, hlt, hwhole t ht⟩

end IsCutAt

/-- A cut through the first token. -/
lemma isCutAt_of_lt_tagToken {offset k : Nat} {c : Char} {part : Option Token}
    {rest : List InkedChar} (hk : k + 1 < Pattern.tagToken (c :: textOf rest)) :
    IsCutAt (offset + (k + 1)) (tokensIn offset ((c, part) :: rest))
      (tokensIn offset (((c, part) :: rest).take (k + 1))) := by
  have htake : textOf (rest.take k) = (textOf rest).take k := map_take
  rw [tokensIn_of_ne_zero rfl (by omega)]
  apply IsCutAt.of_forall_lt
  · intro t ht
    rcases mem_append.1 ht with ht | ht
    · rw [Option.mem_toList, Option.map_eq_some_iff] at ht
      obtain ⟨token, -, rfl⟩ := ht
      show _ < offset + Pattern.tagToken (c :: textOf rest)
      omega
    · have := start_lt_stop_of_mem ht
      omega
  · rw [take_succ_cons, tokensIn, htake]
    -- the front of a word is one, that of a bracket may be none
    rcases Pattern.tagToken_take hk with hk' | ⟨rfl, hzero⟩
    · rw [hk', if_neg (by omega), Nat.add_sub_cancel, drop_take, Nat.sub_self, take_zero,
        tokensIn_nil, append_nil]
      intro t' ht'
      rw [Option.mem_toList, Option.map_eq_some_iff] at ht'
      obtain ⟨token, rfl, rfl⟩ := ht'
      exact ⟨_, mem_append_left _ (mem_singleton.2 rfl), rfl, rfl, by simp⟩
    · rw [hzero, if_pos rfl, take_zero, tokensIn_nil]
      simp

lemma isCutAt_tokensIn_take {offset : Nat} {ink : List InkedChar} : ∀ k ≤ ink.length,
    IsCutAt (offset + k) (tokensIn offset ink) (tokensIn offset (ink.take k)) := by
  -- nothing is found before the text starts
  have hzero : ∀ offset ink, IsCutAt (offset + 0) (tokensIn offset ink)
      (tokensIn offset (ink.take 0)) := by
    intro offset ink
    refine .of_forall_lt (fun t ht => ?_) (by simp [tokensIn_nil])
    have := start_lt_stop_of_mem ht
    omega
  induction offset, ink using tokensIn.induct with
  | case1 offset =>
    intro k hk
    obtain rfl : k = 0 := Nat.le_zero.1 hk
    exact hzero offset []
  | case2 offset c part rest taken htaken ih =>
    intro k hk
    cases k with
    | zero => exact hzero offset _
    | succ k =>
      rw [length_cons] at hk
      rw [tokensIn_take_of_eq_zero htaken (by omega), tokensIn, if_pos htaken,
        show offset + (k + 1) = offset + 1 + k by omega]
      exact ih k (by omega)
  | case3 offset c part rest taken htaken ih =>
    intro k hk
    cases k with
    | zero => exact hzero offset _
    | succ k =>
      rw [length_cons] at hk
      by_cases hle : taken ≤ k + 1
      · -- the first token is kept, and the cut is made in what follows
        obtain ⟨j, hj⟩ := Nat.exists_eq_add_of_le hle
        rw [hj, tokensIn_take_of_ne_zero rfl htaken (by omega), tokensIn_of_ne_zero rfl htaken,
          ← Nat.add_assoc]
        refine (ih j (by rw [length_drop]; omega)).append_left fun t ht => ?_
        rw [Option.mem_toList, Option.map_eq_some_iff] at ht
        obtain ⟨token, -, rfl⟩ := ht
        exact Nat.le_add_right _ _
      · exact isCutAt_of_lt_tagToken (Nat.lt_of_not_le hle)

/-- The same, up to any place in the text. -/
lemma exists_tokensBetween_cut {ink : List InkedChar} {i : Nat} (hi : i ≤ ink.length) :
    ∃ cut : List OffsetToken,
      tokensBetween ink 0 i =
        (tokensBetween ink 0 ink.length).filter (fun t => t.stop ≤ i) ++ cut ∧
      ∀ t' ∈ cut, ∃ t ∈ tokensBetween ink 0 ink.length, t'.start = t.start ∧ t'.token = t.token ∧
        t.start < i ∧ i < t.stop := by
  obtain ⟨cut, hcut, hfrom⟩ := @isCutAt_tokensIn_take 0 ink i hi
  rw [Nat.zero_add] at hcut hfrom
  refine ⟨cut, ?_, ?_⟩
  · rw [tokensBetween, tokensBetween, take_length, drop_zero, drop_zero, hcut]
  · rw [tokensBetween, take_length, drop_zero]
    exact hfrom

/-! ## Spans -/

/-- Tokens none of which is a bracket. -/
def NoBracket (tokens : List TokenHit) : Prop :=
  ∀ t ∈ tokens, t.kind.isStart = false ∧ t.kind.isEnd = false

/-- The span from a bracket in front of a tag to one behind it, with what stands between them. -/
def spanBetween (first : TokenHit) (passed : List TokenHit) (last : TokenHit) : TagSpan :=
  { kind := last.kind.spanKind
      (first.kind == .openTagStart || passed.any (·.kind == .openTagName))
    range := .ofEnds first.range.start last.range.stop
    nameRange := (passed.find? (·.kind.isName)).map (·.range) }

namespace TagParts

/-- The parts of a tag once tokens are read that are no brackets. -/
def after (parts : TagParts) (passed : List TokenHit) : TagParts :=
  { parts with
    name := parts.name <|> (passed.find? (·.kind.isName)).map (·.range)
    opening := parts.opening || passed.any (·.kind == .openTagName) }

lemma after_nil (parts : TagParts) : parts.after [] = parts := by
  simp [after]

lemma after_append (parts : TagParts) (a b : List TokenHit) :
    (parts.after a).after b = parts.after (a ++ b) := by
  simp only [after, find?_append, any_append, Bool.or_assoc]
  cases parts.name <;> cases a.find? (·.kind.isName) <;> rfl

lemma finish?_after {start : Position} {opening : Bool} (passed : List TokenHit)
    (stop : Position) (kind : TokenKind) :
    (after { start := some start, opening := opening } passed).finish? stop kind =
      some { kind := kind.spanKind (opening || passed.any (·.kind == .openTagName))
             range := .ofEnds start stop
             nameRange := (passed.find? (·.kind.isName)).map (·.range) } := by
  cases kind <;> simp [finish?, after, TokenKind.spanKind]

end TagParts

lemma NoBracket.cons {t : TokenHit} (h : NoBracket tokens)
    (hstart : t.kind.isStart = false) (hend : t.kind.isEnd = false) : NoBracket (t :: tokens) := by
  intro t' ht'
  rcases mem_cons.1 ht' with rfl | ht'
  · exact ⟨hstart, hend⟩
  · exact h t' ht'

lemma NoBracket.reverse (h : NoBracket tokens) : NoBracket tokens.reverse :=
  fun t ht => h t (mem_reverse.1 ht)

/-- Tokens that are no brackets only add to the parts of a tag. -/
lemma spansOf_noBracket {passed : List TokenHit} (h : NoBracket passed) (parts : TagParts)
    (rest : List TokenHit) : spansOf parts (passed ++ rest) = spansOf (parts.after passed) rest := by
  induction passed generalizing parts with
  | nil => rw [parts.after_nil, nil_append]
  | cons t passed ih =>
    obtain ⟨hstart, hend⟩ := h t mem_cons_self
    have hrest := ih fun t' ht' => h t' (mem_cons_of_mem t ht')
    rw [cons_append, spansOf, if_neg (by simp [hstart])]
    by_cases hname : t.kind.isName = true
    · rw [if_pos hname, hrest]
      congr 1
      simp only [TagParts.after, find?_cons, hname, any_cons, Bool.or_assoc]
      cases parts.name <;> rfl
    · have hkind : (t.kind == .openTagName) = false := by
        rw [beq_eq_false_iff_ne]
        intro hkind
        rw [hkind] at hname
        exact hname rfl
      rw [if_neg hname, if_neg (by simp [hend]), hrest]
      congr 1
      simp only [TagParts.after, find?_cons, Bool.eq_false_iff.2 hname, any_cons, hkind,
        Bool.false_or]

/-- A bracket in front of a tag gives up what was read before. -/
lemma spansOf_start {first : TokenHit} (h : first.kind.isStart = true) (parts : TagParts)
    (rest : List TokenHit) :
    spansOf parts (first :: rest) =
      spansOf { start := some first.range.start, opening := first.kind == .openTagStart } rest := by
  rw [spansOf, if_pos h]

/-- A scan that reaches a bracket in front of a tag goes on as if it started there. -/
lemma spansOf_append_start {first : TokenHit} (h : first.kind.isStart = true)
    (front rest : List TokenHit) (parts : TagParts) :
    spansOf parts (front ++ first :: rest) = spansOf parts front ++ spansOf {} (first :: rest) := by
  induction front generalizing parts with
  | nil => rw [nil_append, spansOf_start h, spansOf_start h, spansOf, nil_append]
  | cons t front ih =>
    rw [cons_append, spansOf, spansOf]
    split
    · exact ih _
    split
    · exact ih _
    split
    · rw [ih, append_assoc]
    · exact ih _

/-- A bracket behind a tag completes it, and what follows is read on its own. -/
lemma spansOf_end {last : TokenHit} (h : last.kind.isEnd = true) (parts : TagParts)
    (rest : List TokenHit) :
    spansOf parts (last :: rest) =
      (parts.finish? last.range.stop last.kind).toList ++ spansOf {} rest := by
  have hothers : last.kind.isStart = false ∧ last.kind.isName = false := by
    revert h
    cases last.kind <;> decide
  rw [spansOf, hothers.1, hothers.2, h]
  rfl

/-- A scan that has passed a bracket behind a tag goes on as if it started there. -/
lemma spansOf_append_end {last : TokenHit} (h : last.kind.isEnd = true)
    (front rest : List TokenHit) (parts : TagParts) :
    spansOf parts (front ++ last :: rest) = spansOf parts (front ++ [last]) ++ spansOf {} rest := by
  induction front generalizing parts with
  | nil =>
    rw [nil_append, nil_append, spansOf_end h, spansOf_end h, spansOf, append_nil]
  | cons t front ih =>
    rw [cons_append, cons_append, spansOf, spansOf]
    split
    · exact ih _
    split
    · exact ih _
    split
    · rw [ih, append_assoc]
    · exact ih _

/-- Two brackets with none between them make up a span. -/
lemma spansOf_tag {first last : TokenHit} {passed : List TokenHit}
    (hfirst : first.kind.isStart = true) (hpassed : NoBracket passed)
    (hlast : last.kind.isEnd = true) (parts : TagParts) (rest : List TokenHit) :
    spansOf parts (first :: (passed ++ last :: rest)) =
      spanBetween first passed last :: spansOf {} rest := by
  rw [spansOf_start hfirst, spansOf_noBracket hpassed, spansOf_end hlast, TagParts.finish?_after]
  rfl

/-- Where the tokens of a scan are cut at a tag: the tag is one of its spans, those before it are found
in front, and those behind it in what follows. -/
inductive CutAt (parts : TagParts) (before : List TagSpan) (s : TagSpan) (behind : List TagSpan) :
    List TokenHit → Prop where
  /-- The tag begins with what was read before. -/
  | begun {passed back : List TokenHit} {last : TokenHit} (hpassed : NoBracket passed)
      (hlast : last.kind.isEnd = true) (hbefore : before = []) (hbehind : spansOf {} back = behind)
      (hs : (parts.after passed).finish? last.range.stop last.kind = some s) :
      CutAt parts before s behind (passed ++ last :: back)
  | whole (front : List TokenHit) {passed back : List TokenHit} {first last : TokenHit}
      (hfirst : first.kind.isStart = true) (hpassed : NoBracket passed)
      (hlast : last.kind.isEnd = true) (hs : s = spanBetween first passed last)
      (hbefore : spansOf parts front = before) (hbehind : spansOf {} back = behind) :
      CutAt parts before s behind (front ++ first :: (passed ++ last :: back))

/-- A scan can be cut at each tag that it finds. -/
lemma cutAt_of_spansOf_eq {parts : TagParts} (h : spansOf parts tokens = before ++ s :: behind) :
    CutAt parts before s behind tokens := by
  induction tokens generalizing parts before with
  | nil =>
    rw [spansOf] at h
    cases before <;> cases h
  | cons t tokens ih =>
    by_cases hstart : t.kind.isStart = true
    · rw [spansOf_start hstart] at h
      cases ih h with
      | begun hpassed hlast hbefore hbehind hs =>
        rw [TagParts.finish?_after] at hs
        refine .whole [] hstart hpassed hlast (Option.some.inj hs).symm ?_ hbehind
        rw [hbefore, spansOf]
      | whole front hfirst hpassed hlast hs hbefore hbehind =>
        rw [← spansOf_start hstart parts] at hbefore
        exact .whole (t :: front) hfirst hpassed hlast hs hbefore hbehind
    by_cases hend : t.kind.isEnd = true
    · -- the tag found is completed here, or it lies behind this bracket
      rw [spansOf_end hend] at h
      have hbehind : ∀ {before'}, spansOf {} tokens = before' ++ s :: behind →
          before = (parts.finish? t.range.stop t.kind).toList ++ before' →
          CutAt parts before s behind (t :: tokens) := by
        rintro before' h' rfl
        cases ih h' with
        | begun _ _ _ _ hs => cases hs
        | whole front hfirst hpassed hlast hs hbefore hbehind =>
          refine .whole (t :: front) hfirst hpassed hlast hs ?_ hbehind
          rw [spansOf_end hend, hbefore]
      cases hfinish : parts.finish? t.range.stop t.kind with
      | none =>
        rw [hfinish] at h hbehind
        exact hbehind h rfl
      | some found =>
        rw [hfinish] at h hbehind
        cases before with
        | nil =>
          obtain ⟨rfl, hrest⟩ := List.cons.inj h
          rw [← parts.after_nil] at hfinish
          exact .begun (by simp [NoBracket]) hend rfl hrest hfinish
        | cons first before =>
          obtain ⟨rfl, hrest⟩ := List.cons.inj h
          exact hbehind hrest rfl
    · rw [Bool.not_eq_true] at hstart hend
      have hsingle : NoBracket [t] := NoBracket.cons (by simp [NoBracket]) hstart hend
      have hspans : ∀ rest, spansOf parts (t :: rest) = spansOf (parts.after [t]) rest :=
        spansOf_noBracket hsingle parts
      rw [hspans] at h
      cases ih h with
      | begun hpassed hlast hbefore hbehind hs =>
        rw [TagParts.after_append] at hs
        exact .begun (hpassed.cons hstart hend) hlast hbefore hbehind hs
      | whole front hfirst hpassed hlast hs hbefore hbehind =>
        rw [← hspans] at hbefore
        exact .whole (t :: front) hfirst hpassed hlast hs hbefore hbehind

lemma exists_of_spansOf_eq (h : spansOf {} tokens = before ++ s :: behind) :
    ∃ front first passed last back, tokens = front ++ first :: (passed ++ last :: back) ∧
      first.kind.isStart = true ∧ NoBracket passed ∧ last.kind.isEnd = true ∧
      s = spanBetween first passed last ∧ spansOf {} front = before ∧
      spansOf {} back = behind := by
  cases cutAt_of_spansOf_eq h with
  | begun _ _ _ _ hs => cases hs
  | whole front hfirst hpassed hlast hs hbefore hbehind =>
    exact ⟨front, _, _, _, _, rfl, hfirst, hpassed, hlast, hs, hbefore, hbehind⟩

/-! ## Backwards -/

namespace TagParts

/-- What is known of a tag from its front and, read before that, from its back. -/
def join (front back : TagParts) : TagParts :=
  { start := front.start
    name := front.name <|> back.name
    opening := front.opening || back.opening }

lemma join_nil (front : TagParts) : front.join {} = front := by
  simp [join]

/-- Without its front a tag is not completed. -/
lemma bind_finish?_nil_join (back : TagParts) (last : Option (Position × TokenKind)) :
    (last.bind fun l => (join {} back).finish? l.1 l.2) = none := by
  cases last <;> rfl

end TagParts

lemma reverse_toList {α : Type} (o : Option α) : o.toList.reverse = o.toList := by
  cases o <;> rfl

/-- After some tokens a scan backwards has found spans and knows the last parts of another tag. A
scan forwards of these tokens completes that tag, if it is given the first parts, and finds the same
spans. -/
lemma exists_spansBackOf (tokens : List TokenHit) :
    ∃ (found : List TagSpan) (parts : TagParts) (last : Option (Position × TokenKind)),
      (∀ rest, spansBackOf {} none (tokens.reverse ++ rest) = found ++ spansBackOf parts last rest) ∧
      ∀ front : TagParts, spansOf front tokens =
        (last.bind fun l => (front.join parts).finish? l.1 l.2).toList ++ found.reverse := by
  induction tokens with
  | nil =>
    refine ⟨[], {}, none, fun rest => rfl, fun front => ?_⟩
    rw [spansOf]
    rfl
  | cons t tokens ih =>
    obtain ⟨found, parts, last, hback, hfront⟩ := ih
    have hnext : ∀ rest, spansBackOf {} none ((t :: tokens).reverse ++ rest) =
        found ++ spansBackOf parts last (t :: rest) := by
      intro rest
      rw [reverse_cons, append_assoc, hback]
      rfl
    by_cases hend : t.kind.isEnd = true
    · -- another tag ends, and the one begun behind it is lost
      refine ⟨found, {}, some (t.range.stop, t.kind), fun rest => ?_, fun front => ?_⟩
      · rw [hnext, spansBackOf, if_pos hend]
      · rw [spansOf_end hend, hfront, TagParts.bind_finish?_nil_join, Option.bind_some,
          front.join_nil]
        rfl
    by_cases hname : t.kind.isName = true
    · have hstart : t.kind.isStart = false := by
        revert hname
        cases t.kind <;> decide
      refine ⟨found, { parts with
          name := some t.range
          opening := parts.opening || t.kind == .openTagName }, last, fun rest => ?_, fun front => ?_⟩
      · rw [hnext, spansBackOf, if_neg hend, if_pos hname]
      · rw [spansOf, if_neg (by simp [hstart]), if_pos hname, hfront]
        have hjoin : (TagParts.join
            { front with
              name := front.name <|> some t.range
              opening := front.opening || t.kind == .openTagName } parts) =
            front.join { parts with
              name := some t.range
              opening := parts.opening || t.kind == .openTagName } := by
          simp only [TagParts.join, Bool.or_assoc, Bool.or_comm parts.opening]
          cases front.name <;> rfl
        rw [hjoin]
    by_cases hstart : t.kind.isStart = true
    · refine ⟨found ++ (last.bind fun l => TagParts.finish? { parts with
          start := some t.range.start
          opening := parts.opening || t.kind == .openTagStart } l.1 l.2).toList, {}, none,
        fun rest => ?_, fun front => ?_⟩
      · rw [hnext, spansBackOf, if_neg hend, if_neg hname, if_pos hstart, append_assoc]
      · have hjoin : (TagParts.join
            { start := some t.range.start, opening := t.kind == .openTagStart } parts) =
            { parts with
              start := some t.range.start
              opening := parts.opening || t.kind == .openTagStart } := by
          simp only [TagParts.join, Bool.or_comm parts.opening]
          rfl
        rw [spansOf_start hstart, hfront, hjoin, reverse_append, reverse_toList]
        rfl
    · refine ⟨found, parts, last, fun rest => ?_, fun front => ?_⟩
      · rw [hnext, spansBackOf, if_neg hend, if_neg hname, if_neg hstart]
      · rw [spansOf, if_neg hstart, if_neg hname, if_neg hend, hfront]

/-- A scan backwards finds the spans that a scan forwards finds, the last one first. -/
lemma spansBackOf_reverse (tokens : List TokenHit) :
    spansBackOf {} none tokens.reverse = (spansOf {} tokens).reverse := by
  obtain ⟨found, parts, last, hback, hfront⟩ := exists_spansBackOf tokens
  have hnil := hback []
  rw [append_nil, spansBackOf, append_nil] at hnil
  rw [hnil, hfront, TagParts.bind_finish?_nil_join]
  exact (reverse_reverse found).symm

/-! ## Documents -/

/-- The span from a bracket in front of a tag to one behind it, by offsets. -/
def tagBetween (t : Text) (first : OffsetToken) (passed : List OffsetToken) (last : OffsetToken) :
    TagSpan :=
  spanBetween (first.hit t) (passed.map (OffsetToken.hit t)) (last.hit t)

namespace Document.Inked

variable {d : Document} {ink : List InkedChar} (h : d.Inked ink)

include h

/-- The scan from a place can be cut at each tag that it finds, and the tags behind it are found by a
scan from there on. -/
lemma exists_tokens_of_tagsFrom {i : Nat} (hi : i ≤ ink.length)
    (hs : d.tagsFrom (d.text.positionOf i) = before ++ s :: behind) :
    ∃ front first passed last back,
      tokensBetween ink i ink.length = front ++ first :: (passed ++ last :: back) ∧
      first.token.kind.isStart = true ∧ NoBracket (passed.map (OffsetToken.hit d.text)) ∧
      last.token.kind.isEnd = true ∧
      s = tagBetween d.text first passed last ∧ s.range = d.text.rangeOf first.start last.stop ∧
      spansOf {} (front.map (OffsetToken.hit d.text)) = before ∧
      d.tagsFrom s.range.stop = behind := by
  rw [tagsFrom, h.tokensFrom_positionOf hi] at hs
  obtain ⟨front, first, passed, last, back, htokens, hfirst, hpassed, hlast, rfl, hbefore, rfl⟩ :=
    exists_of_spansOf_eq hs
  obtain ⟨front, first, tokens, hsplit, rfl, rfl, hrest⟩ := exists_of_map_eq_append htokens
  obtain ⟨passed, last, back, rfl, rfl, rfl, rfl⟩ := exists_of_map_eq_append hrest
  -- the bracket behind the tag cuts the scan as well
  have hsplit' : tokensBetween ink i ink.length = (front ++ first :: passed) ++ last :: back := by
    rw [hsplit, append_assoc]
    rfl
  have hmem : last ∈ tokensBetween ink i ink.length := by
    rw [hsplit']
    exact mem_append_right _ mem_cons_self
  have hmem' : first ∈ tokensBetween ink i ink.length := by
    rw [hsplit]
    exact mem_append_right _ mem_cons_self
  have hstop := bounds_of_mem_tokensBetween hmem
  have hstart := bounds_of_mem_tokensBetween hmem'
  have horder : first.stop ≤ last.start :=
    (stop_le_of_split hsplit').1 first (mem_append_right _ mem_cons_self)
  have hlength := h.length_eq
  have hrange : (tagBetween d.text first passed last).range =
      d.text.rangeOf first.start last.stop :=
    Text.ofEnds_positionOf h.onlyLineFeeds (by omega) (by omega)
  refine ⟨front, first, passed, last, back, hsplit, hfirst, hpassed, hlast, rfl, hrange, hbefore, ?_⟩
  show d.tagsFrom (tagBetween d.text first passed last).range.stop = _
  rw [hrange, tagsFrom]
  show spansOf {} (d.tokensFrom (d.text.positionOf last.stop)) = _
  rw [h.tokensFrom_positionOf (by omega), (tokensBetween_split hsplit').2.2]

/-- The scan of a text can be cut at each tag that it finds. The tags behind it are found by a scan
from there on, and the tags before it by a scan backwards. -/
lemma tagsFrom_split (hs : d.tagsFrom .origin = before ++ s :: behind) :
    d.tagsFrom s.range.stop = behind ∧ d.tagsBefore s.range.start = before.reverse := by
  rw [← Text.positionOf_zero h.onlyLineFeeds] at hs
  obtain ⟨front, first, passed, last, back, hsplit, -, -, -, -, hrange, hbefore, hbehind⟩ :=
    h.exists_tokens_of_tagsFrom (Nat.zero_le _) hs
  have hmem : first ∈ tokensBetween ink 0 ink.length := by
    rw [hsplit]
    exact mem_append_right _ mem_cons_self
  have hstart := bounds_of_mem_tokensBetween hmem
  refine ⟨hbehind, ?_⟩
  rw [hrange, tagsBefore]
  show spansBackOf {} none (d.tokensBefore (d.text.positionOf first.start)) = _
  rw [h.tokensBefore_positionOf (by omega), (tokensBetween_split hsplit).1, spansBackOf_reverse,
    hbefore]

/-- Tags are found in the order of the text, and do not overlap. -/
lemma stop_le_start {before between behind : List TagSpan} {s s' : TagSpan}
    (hs : d.tagsFrom .origin = before ++ s :: (between ++ s' :: behind)) :
    s.range.stop ≤ s'.range.start := by
  rw [← Text.positionOf_zero h.onlyLineFeeds] at hs
  obtain ⟨_, first, passed, last, _, hsplit, -, -, -, -, hrange, -, hbehind⟩ :=
    h.exists_tokens_of_tagsFrom (Nat.zero_le _) hs
  have hlast : last ∈ tokensBetween ink 0 ink.length := by
    rw [hsplit]
    exact mem_append_right _ (mem_cons_of_mem _ (mem_append_right _ mem_cons_self))
  have hbounds := bounds_of_mem_tokensBetween hlast
  have hstop : s.range.stop = d.text.positionOf last.stop := by rw [hrange]; rfl
  rw [hstop] at hbehind ⊢
  obtain ⟨_, first', _, _, _, hsplit', -, -, -, -, hrange', -, -⟩ :=
    h.exists_tokens_of_tagsFrom hbounds.2.2.2 hbehind
  have hfirst : first' ∈ tokensBetween ink last.stop ink.length := by
    rw [hsplit']
    exact mem_append_right _ mem_cons_self
  have hbounds' := bounds_of_mem_tokensBetween hfirst
  have hlength := h.length_eq
  rw [hrange']
  exact (Text.positionOf_le_iff h.onlyLineFeeds (by omega) (by omega)).2 hbounds'.1

end Document.Inked

end TemplateEditing
