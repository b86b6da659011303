import TemplateEditing.Link.Click
import TemplateEditing.Proofs.Grammar.Strings

/-!
# Clicks on strings

The words of a row are found from left to right, and the quotes that go together are found without
regard to scopes or backslashes: each quote goes with the next one of its kind
(`Text.quotePairs`). The words in quotes are the texts between such quotes
(`Click.Scan.mem_quotePairsFrom_iff`). A click anywhere on a string of a tag gives all of it exactly
if the quotes at its ends go together (`Document.click?_string_iff`).
-/

namespace TemplateEditing

open List

variable {c : Char} {t w : Text} {d : Document}

/-! ## Quotes that go together -/

namespace Text

/-- The columns of the quotes that go together in a row that continues at a column: each goes with
the next one of its kind, and what is between them is passed over. A quote with none of its kind
behind it goes with none. -/
def quotePairsFrom (column : Nat) (t : Text) : List (Nat × Nat) :=
  match t with
  | [] => []
  | c :: rest =>
    if Lexer.isQuote c ∧ c ∈ rest then
      let inside := rest.takeWhile (· != c)
      (column, column + inside.length + 1) ::
        quotePairsFrom (column + inside.length + 2) (rest.drop (inside.length + 1))
    else quotePairsFrom (column + 1) rest
termination_by t.length

/-- The columns of the quotes that go together in a row. -/
def quotePairs (t : Text) : List (Nat × Nat) := quotePairsFrom 0 t

lemma takeWhile_of_notMem {inside : Text} (h : c ∉ inside) (behind : Text) :
    (inside ++ c :: behind).takeWhile (· != c) = inside := by
  have hall : ∀ d ∈ inside, (d != c) = true := by
    rintro d hd
    rw [bne_iff_ne]
    rintro rfl
    exact h hd
  rw [takeWhile_append_of_pos hall, takeWhile_cons_of_neg (by simp), append_nil]

/-- A quote is paired with the next one of its kind. -/
lemma quotePairsFrom_quote (column : Nat) (hc : Lexer.isQuote c = true) {inside : Text}
    (h : c ∉ inside) (behind : Text) :
    quotePairsFrom column (c :: (inside ++ [c]) ++ behind) =
      (column, column + (inside.length + 1)) ::
        quotePairsFrom (column + (c :: (inside ++ [c])).length) behind := by
  rw [cons_append, append_assoc, singleton_append, quotePairsFrom,
    if_pos ⟨hc, by simp⟩]
  simp only [takeWhile_of_notMem h]
  rw [← drop_drop, drop_left, length_cons, length_append]
  rfl

/-- A quote with no partner is passed over. -/
lemma quotePairsFrom_skip (column : Nat) {rest : Text} (h : Lexer.isQuote c = true → c ∉ rest) :
    quotePairsFrom column (c :: rest) = quotePairsFrom (column + 1) rest := by
  rw [quotePairsFrom, if_neg]
  rintro ⟨hc, hmem⟩
  exact h hc hmem

/-- Characters that are no quotes go with nothing. -/
lemma quotePairsFrom_append (column : Nat) {a : Text} (h : ∀ c ∈ a, Lexer.isQuote c = false)
    (behind : Text) :
    quotePairsFrom column (a ++ behind) = quotePairsFrom (column + a.length) behind := by
  induction a generalizing column with
  | nil => rfl
  | cons c a ih =>
    obtain ⟨hc, ha⟩ := forall_mem_cons.1 h
    rw [cons_append, quotePairsFrom_skip column (by simp [hc]), ih _ ha, length_cons,
      Nat.add_assoc, Nat.add_comm 1]

/-- Induction along the quotes of a row that go together. -/
@[elab_as_elim]
theorem quoteInduction {motive : Text → Prop} (nil : motive [])
    (pair : ∀ c inside behind, Lexer.isQuote c = true → c ∉ inside → motive behind →
      motive (c :: (inside ++ [c]) ++ behind))
    (skip : ∀ c rest, (Lexer.isQuote c = true → c ∉ rest) → motive rest → motive (c :: rest))
    (t : Text) : motive t := by
  match t with
  | [] => exact nil
  | c :: rest =>
    by_cases h : Lexer.isQuote c = true ∧ c ∈ rest
    · obtain ⟨inside, behind, hrest, hinside⟩ := eq_append_cons_of_mem h.2
      have : behind.length < rest.length := by
        rw [hrest, length_append, length_cons]
        omega
      have hcut : c :: rest = c :: (inside ++ [c]) ++ behind := by simp [hrest]
      rw [hcut]
      exact pair c inside behind h.1 hinside (quoteInduction nil pair skip behind)
    · exact skip c rest (fun hc hmem => h ⟨hc, hmem⟩) (quoteInduction nil pair skip rest)
termination_by t.length
decreasing_by all_goals simp only [length_cons]; omega

lemma le_of_mem_quotePairsFrom {column : Nat} :
    ∀ pair ∈ t.quotePairsFrom column, column ≤ pair.1 := by
  induction t using quoteInduction generalizing column with
  | nil => simp [quotePairsFrom]
  | pair c inside behind hc hinside ih =>
    rw [quotePairsFrom_quote column hc hinside]
    refine forall_mem_cons.2 ⟨le_rfl, fun pair hpair => ?_⟩
    exact le_trans (Nat.le_add_right _ _) (ih pair hpair)
  | skip c rest h ih =>
    rw [quotePairsFrom_skip column h]
    exact fun pair hpair => le_trans (Nat.le_succ _) (ih pair hpair)

/-- A character does not stand between two columns. -/
def NoneBetween (t : Text) (c : Char) (i j : Nat) : Prop :=
  ∀ k, i < k → k < j → t[k]? ≠ some c

lemma getElem?_append_add (a behind : Text) (i : Nat) :
    (a ++ behind)[a.length + i]? = behind[i]? := by
  rw [getElem?_append_right (Nat.le_add_right _ _), Nat.add_sub_cancel_left]

lemma noneBetween_append (a behind : Text) (c : Char) (i j : Nat) :
    (a ++ behind).NoneBetween c (a.length + i) (a.length + j) ↔ behind.NoneBetween c i j := by
  constructor
  · intro h k hik hkj
    rw [← getElem?_append_add a]
    exact h _ (Nat.add_lt_add_left hik _) (Nat.add_lt_add_left hkj _)
  · intro h k hik hkj
    obtain ⟨m, rfl⟩ : ∃ m, k = a.length + m := Nat.exists_eq_add_of_le (by omega)
    rw [getElem?_append_add]
    exact h m (by omega) (by omega)

lemma noneBetween_zero_iff {inside behind : Text} (h : c ∉ inside) {j : Nat}
    (hj : (c :: (inside ++ [c]) ++ behind)[j]? = some c) (hpos : 0 < j) :
    Text.NoneBetween (c :: (inside ++ [c]) ++ behind) c 0 j ↔ j = inside.length + 1 := by
  have hinside : ∀ k < inside.length, (c :: (inside ++ [c]) ++ behind)[k + 1]? ≠ some c := by
    intro k hk heq
    rw [cons_append, append_assoc, getElem?_cons_succ,
      getElem?_append_left hk] at heq
    exact h (mem_of_getElem? heq)
  have hnext : (c :: (inside ++ [c]) ++ behind)[inside.length + 1]? = some c := by simp
  constructor
  · intro hnone
    rcases Nat.lt_trichotomy j (inside.length + 1) with hlt | heq | hgt
    · obtain ⟨k, rfl⟩ := Nat.exists_eq_add_one.2 hpos
      exact absurd hj (hinside k (by omega))
    · exact heq
    · exact absurd hnext (hnone _ (Nat.succ_pos _) hgt)
  · rintro rfl k hk hlt
    obtain ⟨m, rfl⟩ := Nat.exists_eq_add_one.2 hk
    exact hinside m (by omega)

/-- Two columns of a character go together exactly if it does not stand between them, and no quotes
that go together are in front of the first and at it or behind. -/
def PairsNext (column : Nat) (t : Text) (c : Char) (i j : Nat) : Prop :=
  (column + i, column + j) ∈ t.quotePairsFrom column ↔
    t.NoneBetween c i j ∧ ∀ a b, (a, b) ∈ t.quotePairsFrom column → a < column + i → b < column + i

/-- What stands in front does not matter if its quotes go together among themselves. -/
lemma PairsNext.append {column : Nat} {a behind : Text} {i j : Nat} (first : List (Nat × Nat))
    (hpairs : quotePairsFrom column (a ++ behind) =
      first ++ quotePairsFrom (column + a.length) behind)
    (hfirst : ∀ pair ∈ first, pair.1 < column + a.length ∧ pair.2 < column + a.length)
    (h : PairsNext (column + a.length) behind c i j) :
    PairsNext column (a ++ behind) c (a.length + i) (a.length + j) := by
  rw [PairsNext, ← Nat.add_assoc, ← Nat.add_assoc, noneBetween_append, hpairs]
  constructor
  · intro hmem
    rcases mem_append.1 hmem with hmem | hmem
    · have := (hfirst _ hmem).1
      omega
    · obtain ⟨hnone, hbefore⟩ := h.1 hmem
      refine ⟨hnone, fun x y hxy hx => ?_⟩
      rcases mem_append.1 hxy with hxy | hxy
      · have := (hfirst _ hxy).2
        omega
      · exact hbefore x y hxy hx
  · rintro ⟨hnone, hbefore⟩
    refine mem_append_right _ (h.2 ⟨hnone, fun x y hxy => ?_⟩)
    exact hbefore x y (mem_append_right _ hxy)

/-- Equal quotes go together if there is no such quote between them, and the first one is not passed
over. -/
lemma pairsNext_of_isQuote (column : Nat) {i j : Nat}
    (hquote : Lexer.isQuote c = true) (hij : i < j) (hi : t[i]? = some c) (hj : t[j]? = some c) :
    PairsNext column t c i j := by
  induction t using quoteInduction generalizing column i j with
  | nil => cases hi
  | pair d inside behind hd hinside ih =>
    have hpairs := quotePairsFrom_quote column hd hinside behind
    have hlength : (d :: (inside ++ [d])).length = inside.length + 2 := by simp
    have hlater : ∀ x y, (x, y) ∈ quotePairsFrom (column + (inside.length + 2)) behind →
        column + (inside.length + 2) ≤ x := fun x y h => le_of_mem_quotePairsFrom (x, y) h
    rcases Nat.eq_zero_or_pos i with rfl | hpos
    · -- the first of the quotes that go together
      obtain rfl := Option.some.inj hi
      rw [PairsNext, noneBetween_zero_iff hinside hj hij, hpairs, hlength]
      constructor
      · intro hmem
        rcases mem_cons.1 hmem with hsame | hmem
        · refine ⟨Nat.add_left_cancel (Prod.mk.inj hsame).2, fun x y hxy hx => ?_⟩
          rcases mem_cons.1 hxy with hsame | hxy
          · have := (Prod.mk.inj hsame).1
            omega
          · have := hlater x y hxy
            omega
        · have := hlater _ _ hmem
          omega
      · rintro ⟨rfl, -⟩
        exact mem_cons_self
    by_cases hpassed : i < inside.length + 2
    · -- one that is passed over, or the second of the two
      rw [PairsNext, hpairs, hlength]
      refine iff_of_false ?_ ?_
      · intro hmem
        rcases mem_cons.1 hmem with hsame | hmem
        · have := (Prod.mk.inj hsame).1
          omega
        · have := hlater _ _ hmem
          omega
      · rintro ⟨-, hbefore⟩
        have := hbefore column _ mem_cons_self (by omega)
        omega
    · -- one behind them
      obtain ⟨i, rfl⟩ := Nat.exists_eq_add_of_le (Nat.le_of_not_lt hpassed)
      obtain ⟨j, rfl⟩ : ∃ j', j = inside.length + 2 + j' := Nat.exists_eq_add_of_le (by omega)
      rw [← hlength, getElem?_append_add] at hi hj
      rw [← hlength]
      refine PairsNext.append [_] hpairs ?_ (ih _ (by omega) hi hj)
      rw [forall_mem_singleton, hlength]
      constructor <;> dsimp only <;> omega
  | skip d rest hd ih =>
    cases i with
    | zero =>
      -- a quote with none of its kind behind it
      obtain rfl := Option.some.inj hi
      obtain ⟨k, rfl⟩ := Nat.exists_eq_add_one.2 hij
      exact absurd (mem_of_getElem? (l := rest) hj) (hd hquote)
    | succ i =>
      obtain ⟨j, rfl⟩ := Nat.exists_eq_add_one.2 (Nat.zero_lt_of_lt hij)
      rw [Nat.add_comm i, Nat.add_comm j]
      exact PairsNext.append (a := [d]) [] (quotePairsFrom_skip column hd) (forall_mem_nil _)
        (ih (column + 1) (Nat.lt_of_succ_lt_succ hij) hi hj)

end Text

namespace Click

/-! ## Words -/

/-- A text in quotes of one kind, which do not stand inside of it. -/
def IsQuoted (w : Text) : Prop :=
  ∃ quote inside, Lexer.isQuote quote = true ∧ quote ∉ inside ∧ w = quote :: (inside ++ [quote])

/-- A name, or one with blanks and a parenthesis behind it. -/
def IsCalled (w : Text) : Prop :=
  ∃ name, name ≠ [] ∧ (∀ c ∈ name, isNameChar c = true) ∧
    (w = name ∨ ∃ blanks, (∀ c ∈ blanks, Text.isBlank c = true) ∧ w = name ++ blanks ++ ['('])

/-- What is found in a row that continues at a column, from left to right. -/
inductive Scan : Nat → Text → List (Nat × Text) → Prop
  | nil (column : Nat) : Scan column [] []
  | quoted {column : Nat} {w behind : Text} {words : List (Nat × Text)} :
      IsQuoted w → Scan (column + w.length) behind words →
      Scan column (w ++ behind) ((column, w) :: words)
  | called {column : Nat} {w behind : Text} {words : List (Nat × Text)} :
      IsCalled w → Scan (column + w.length) behind words →
      Scan column (w ++ behind) ((column, w) :: words)
  | skip {column : Nat} {c : Char} {rest : Text} {words : List (Nat × Text)} :
      (Lexer.isQuote c = true → c ∉ rest) → Scan (column + 1) rest words →
      Scan column (c :: rest) words

/-- What matches as quoted stands between two quotes. -/
lemma isQuoted_take (h : quoted t ≠ 0) : IsQuoted (t.take (quoted t)) := by
  cases t with
  | nil => exact absurd rfl h
  | cons q rest =>
    unfold quoted at h ⊢
    dsimp only at h ⊢
    split at h
    · next hq =>
      rw [Bool.and_eq_true, contains_iff_mem] at hq
      obtain ⟨inside, behind, rfl, hinside⟩ := eq_append_cons_of_mem hq.2
      rw [if_pos (by simpa using hq), Text.takeWhile_of_notMem hinside]
      refine ⟨q, inside, ?_, hinside, ?_⟩
      · rw [Lexer.isQuote, Bool.or_comm]
        exact hq.1
      · rw [take_succ_cons, take_length_add_append]
        rfl
    · exact absurd rfl h

lemma notMem_of_quoted_eq_zero {rest : Text} (h : quoted (c :: rest) = 0)
    (hc : Lexer.isQuote c = true) : c ∉ rest := by
  intro hmem
  rw [Lexer.isQuote, Bool.or_comm] at hc
  rw [quoted, if_pos (by rw [hc, contains_iff_mem.2 hmem]; rfl)] at h
  exact absurd h (Nat.succ_ne_zero _)

/-- What matches as called is a name, or one that opens a bracket. -/
lemma isCalled_take (h : called t ≠ 0) : IsCalled (t.take (called t)) := by
  let name := t.takeWhile isNameChar
  let rest : Text := t.dropWhile isNameChar
  have ht : t = name ++ rest := takeWhile_append_dropWhile.symm
  have hname : ∀ c ∈ name, isNameChar c = true := fun c hc => mem_takeWhile_imp hc
  have hne : name ≠ [] := by
    intro hnil
    exact h (if_pos (List.isEmpty_iff.2 hnil))
  refine ⟨name, hne, hname, ?_⟩
  -- what is called goes up to its parenthesis if only blanks stand before it
  have hcalled : called t = if rest.trimStart.head? == some '(' then
      name.length + (rest.takeWhile Text.isBlank).length + 1 else name.length :=
    if_neg fun hnil => hne (List.isEmpty_iff.1 hnil)
  rw [hcalled]
  split
  · next hparen =>
    right
    obtain ⟨more, hmore⟩ := head?_eq_some_iff.1 (beq_iff_eq.1 hparen)
    have hrest : rest = rest.takeWhile Text.isBlank ++ '(' :: more := by
      rw [← hmore]
      exact takeWhile_append_dropWhile.symm
    refine ⟨rest.takeWhile Text.isBlank, fun c hc => mem_takeWhile_imp hc, ?_⟩
    rw [Nat.add_assoc, append_assoc]
    conv => lhs; rw [ht, take_length_add_append]
    conv => lhs; arg 2; arg 2; rw [hrest]
    rw [take_length_add_append]
    rfl
  · left
    conv => lhs; rw [ht]
    rw [take_left]

lemma word_eq (t : Text) : word t = if quoted t = 0 then called t else quoted t := rfl

/-- The words of a row are what is found in it from left to right. -/
theorem scan_wordsFrom (column : Nat) (t : Text) : Scan column t (wordsFrom column t) := by
  fun_induction wordsFrom column t with
  | case1 column => exact .nil column
  | case2 column c rest taken htaken ih =>
    refine .skip (notMem_of_quoted_eq_zero ?_) ih
    have hzero : word (c :: rest) = 0 := by simpa [taken] using htaken
    by_contra hquoted
    rw [word_eq, if_neg hquoted] at hzero
    exact hquoted hzero
  | case3 column c rest taken htaken ih =>
    -- what is taken is a front of the text, a word in quotes before one that is called
    have hsplit : c :: rest = taken ++ rest.drop (taken.length - 1) := by
      obtain ⟨m, hm⟩ := Nat.exists_eq_add_one.2 (length_pos_iff.2 (by simpa using htaken))
      have hdrop := prefix_iff_eq_append.1 (List.take_prefix (word (c :: rest)) (c :: rest))
      rw [hm, Nat.add_sub_cancel, ← drop_succ_cons (a := c), ← hm]
      exact hdrop.symm
    have hne : word (c :: rest) ≠ 0 := by
      intro hzero
      exact htaken (by simp [taken, hzero])
    rw [hsplit]
    by_cases hquoted : quoted (c :: rest) = 0
    · refine .called ?_ ih
      have hword : word (c :: rest) = called (c :: rest) := by rw [word_eq, if_pos hquoted]
      rw [hword] at hne
      show IsCalled ((c :: rest).take (word (c :: rest)))
      rw [hword]
      exact isCalled_take hne
    · refine .quoted ?_ ih
      show IsQuoted ((c :: rest).take (word (c :: rest)))
      rw [word_eq, if_neg hquoted]
      exact isQuoted_take hquoted

lemma isQuote_of_isNameChar (h : isNameChar c = true) : Lexer.isQuote c = false := by
  rw [Lexer.isQuote, Bool.or_eq_false_iff, beq_eq_false_iff_ne, beq_eq_false_iff_ne]
  constructor <;> rintro rfl <;> exact absurd h (by decide)

lemma isQuote_of_isBlank (h : Text.isBlank c = true) : Lexer.isQuote c = false := by
  rw [Lexer.isQuote, Bool.or_eq_false_iff, beq_eq_false_iff_ne, beq_eq_false_iff_ne]
  constructor <;> rintro rfl <;> exact absurd h (by decide)

lemma isBlank_of_isNameChar (h : isNameChar c = true) : Text.isBlank c = false := by
  refine Lexer.isBlank_eq_false ?_
  simp only [isNameChar, Bool.or_eq_true] at h
  simp only [Lexer.isAttributeChar, Bool.or_eq_true]
  tauto

/-- There are no quotes in a name. -/
lemma IsCalled.isQuote_eq_false (h : IsCalled w) :
    ∀ c ∈ w, Lexer.isQuote c = false := by
  obtain ⟨name, -, hname, rfl | ⟨blanks, hblanks, rfl⟩⟩ := h
  · exact fun c hc => isQuote_of_isNameChar (hname c hc)
  · refine forall_mem_append.2 ⟨forall_mem_append.2 ⟨?_, ?_⟩, ?_⟩
    · exact fun c hc => isQuote_of_isNameChar (hname c hc)
    · exact fun c hc => isQuote_of_isBlank (hblanks c hc)
    · exact forall_mem_singleton.2 (by decide)

/-- No word is both called and quoted. -/
lemma IsCalled.not_isQuoted (h : IsCalled w) : ¬ IsQuoted w := by
  rintro ⟨quote, inside, hquote, -, rfl⟩
  exact absurd (h.isQuote_eq_false quote mem_cons_self) (by simp [hquote])

namespace Scan

variable {column : Nat} {t : Text} {words : List (Nat × Text)}

/-- The words in quotes are those between quotes that go together. -/
theorem mem_quotePairsFrom_iff (h : Scan column t words) (i j : Nat) :
    (i, j) ∈ t.quotePairsFrom column ↔
      ∃ w, (i, w) ∈ words ∧ IsQuoted w ∧ i + w.length = j + 1 := by
  induction h with
  | nil column => simp [Text.quotePairsFrom]
  | @quoted column w behind words hw _ ih =>
    -- the word and its two quotes go together, and the rest is searched behind them
    obtain ⟨quote, inside, hquote, hinside, rfl⟩ := id hw
    have hlength : (quote :: (inside ++ [quote])).length = inside.length + 2 := by simp
    rw [Text.quotePairsFrom_quote column hquote hinside, mem_cons, ih]
    constructor
    · rintro (hpair | ⟨w, hmem, hrest⟩)
      · obtain ⟨rfl, rfl⟩ := Prod.mk.inj hpair
        exact ⟨_, mem_cons_self, hw, by rw [hlength]; rfl⟩
      · exact ⟨w, mem_cons_of_mem _ hmem, hrest⟩
    · rintro ⟨w, hmem, hrest⟩
      rcases mem_cons.1 hmem with hfirst | hmem
      · obtain ⟨rfl, rfl⟩ := Prod.mk.inj hfirst
        rw [hlength] at hrest
        exact .inl (congrArg _ (Nat.succ.inj hrest.2).symm)
      · exact .inr ⟨w, hmem, hrest⟩
  | @called column w behind words hw _ ih =>
    -- a word that is called has no quotes, neither for a pair nor as a word
    rw [Text.quotePairsFrom_append column hw.isQuote_eq_false, ih]
    constructor
    · rintro ⟨w', hmem, hrest⟩
      exact ⟨w', mem_cons_of_mem _ hmem, hrest⟩
    · rintro ⟨w', hmem, hrest⟩
      rcases mem_cons.1 hmem with hfirst | hmem
      · obtain ⟨-, rfl⟩ := Prod.mk.inj hfirst
        exact absurd hrest.1 hw.not_isQuoted
      · exact ⟨w', hmem, hrest⟩
  | @skip column c rest words hc _ ih => rw [Text.quotePairsFrom_skip column hc, ih]

lemma isQuoted_or_isCalled (h : Scan column t words) :
    ∀ found ∈ words, IsQuoted found.2 ∨ IsCalled found.2 := by
  induction h with
  | nil column => exact forall_mem_nil _
  | quoted hw _ ih => exact forall_mem_cons.2 ⟨.inl hw, ih⟩
  | called hw _ ih => exact forall_mem_cons.2 ⟨.inr hw, ih⟩
  | skip _ _ ih => exact ih

lemma le (h : Scan column t words) : ∀ found ∈ words, column ≤ found.1 := by
  induction h with
  | nil column => exact forall_mem_nil _
  | quoted _ _ ih | called _ _ ih =>
    refine forall_mem_cons.2 ⟨le_rfl, fun found hfound => ?_⟩
    exact le_trans (Nat.le_add_right _ _) (ih found hfound)
  | skip _ _ ih => exact fun found hfound => le_trans (Nat.le_succ _) (ih found hfound)

/-- Each word ends before the next one starts. -/
lemma pairwise (h : Scan column t words) :
    words.Pairwise fun found next => found.1 + found.2.length ≤ next.1 := by
  induction h with
  | nil column => exact .nil
  | quoted _ hbehind ih | called _ hbehind ih => exact .cons hbehind.le ih
  | skip _ _ ih => exact ih

/-- A word stands in the row at the column where it was found. -/
lemma isPrefix {line : Text} (h : Scan column t words) (hline : line.drop column = t) :
    ∀ found ∈ words, found.2 <+: line.drop found.1 := by
  induction h with
  | nil column => exact forall_mem_nil _
  | @quoted column w behind words _ _ ih | @called column w behind words _ _ ih =>
    refine forall_mem_cons.2 ⟨⟨behind, hline.symm⟩, ih ?_⟩
    rw [← drop_drop, hline, drop_left]
  | skip _ _ ih =>
    refine ih ?_
    rw [← drop_drop, hline]
    rfl

end Scan

/-! ## Values -/

/-- Unquoting drops the two quotes. -/
lemma IsQuoted.unquote_eq (h : IsQuoted w) :
    unquote (cutArgument w).1 = w.tail.dropLast := by
  obtain ⟨quote, inside, hquote, -, rfl⟩ := h
  have hlast : (quote :: (inside ++ [quote])).getLast? = some quote := by
    rw [← cons_append, getLast?_concat]
  have hparen : ¬ (some quote == some '(') = true := by
    rw [beq_iff_eq]
    rintro ⟨⟩
    exact absurd hquote (by decide)
  rw [cutArgument, hlast, if_neg hparen]
  obtain ⟨c, rest, hrest⟩ := exists_cons_of_ne_nil (concat_ne_nil quote inside)
  have hend : (c :: rest).getLast? = some quote := by rw [← hrest, getLast?_concat]
  rw [hrest, unquote, ← Lexer.isQuote, if_pos hquote, hend, if_pos (beq_self_eq_true _)]
  rfl

lemma unquote_of_isQuote_eq_false (h : ∀ c ∈ t, Lexer.isQuote c = false) :
    unquote t = t := by
  unfold unquote
  split
  · next q _ _ =>
    have hq : (q == '"' || q == '\'') = false := h q mem_cons_self
    rw [hq]
    rfl
  · rfl

lemma dropEndWhile_isBlank {name blanks : Text} (hname : ∀ c ∈ name, isNameChar c = true)
    (hblanks : ∀ c ∈ blanks, Text.isBlank c = true) :
    Text.dropEndWhile Text.isBlank (name ++ blanks) = name := by
  have hfirst : name.reverse.dropWhile Text.isBlank = name.reverse := by
    rw [dropWhile_eq_self_iff]
    intro hpos
    rw [isBlank_of_isNameChar (hname _ (mem_reverse.1 (getElem_mem _)))]
    exact Bool.false_ne_true
  rw [Text.dropEndWhile, reverse_append, dropWhile_append_of_pos, hfirst,
    reverse_reverse]
  exact fun c hc => hblanks c (mem_reverse.1 hc)

/-- Of a name there is never just the inside left. -/
lemma IsCalled.unquote_ne (h : IsCalled w) :
    unquote (cutArgument w).1 ≠ w.tail.dropLast := by
  obtain ⟨name, hne, hname, hw⟩ := h
  have hpos := length_pos_iff.2 hne
  have hunquote : unquote name = name :=
    unquote_of_isQuote_eq_false fun c hc => isQuote_of_isNameChar (hname c hc)
  rcases hw with rfl | ⟨blanks, hblanks, rfl⟩
  · have hlast : ¬ (w.getLast? == some '(') = true := by
      rw [beq_iff_eq]
      intro hlast
      exact absurd (hname _ (mem_of_getLast? hlast)) (by decide)
    rw [cutArgument, if_neg hlast, hunquote]
    intro heq
    have hlength := congrArg List.length heq
    rw [length_dropLast, length_tail] at hlength
    omega
  · rw [cutArgument, getLast?_concat, if_pos (beq_self_eq_true _), dropLast_concat,
      dropEndWhile_isBlank hname hblanks, hunquote]
    obtain ⟨first, name, rfl⟩ := exists_cons_of_ne_nil hne
    rw [cons_append, cons_append, tail_cons, dropLast_concat]
    -- a blank would be one of the name
    intro heq
    cases blanks with
    | nil =>
      have hlength := congrArg List.length heq
      rw [append_nil, length_cons] at hlength
      omega
    | cons blank blanks =>
      have hmem : blank ∈ first :: name := by
        rw [heq]
        simp
      have hblank := hblanks blank mem_cons_self
      rw [isBlank_of_isNameChar (hname blank hmem)] at hblank
      cases hblank

end Click

namespace Document

/-! ## Clicks -/

/-- The word at a position is the one found around it. -/
lemma wordAt?_eq_some_iff {p : Position} {r : Range} :
    d.wordAt? p = some (w, r) ↔
      ∃ start, (start, w) ∈ Click.wordsFrom 0 (d.text.line p.row) ∧ start ≤ p.column ∧
        p.column < start + w.length ∧ r = ⟨⟨p.row, start⟩, ⟨p.row, start + w.length⟩⟩ := by
  have hpairwise := (Click.scan_wordsFrom 0 (d.text.line p.row)).pairwise
  unfold wordAt?
  generalize Click.wordsFrom 0 (d.text.line p.row) = words at hpairwise
  induction words with
  | nil => simp
  | cons found words ih =>
    obtain ⟨start, w'⟩ := found
    obtain ⟨hfirst, hpairwise⟩ := pairwise_cons.1 hpairwise
    rw [findSome?_cons]
    by_cases hcovers : start ≤ p.column ∧ p.column < start + w'.length
    · -- the words behind start too far to the right
      simp only [if_pos hcovers, Option.some.injEq, Prod.mk.injEq]
      constructor
      · rintro ⟨rfl, rfl⟩
        exact ⟨start, mem_cons_self, hcovers.1, hcovers.2, rfl⟩
      · rintro ⟨start', hmem, hle, hlt, rfl⟩
        rcases mem_cons.1 hmem with hsame | hmem
        · obtain ⟨rfl, rfl⟩ := Prod.mk.inj hsame
          exact ⟨rfl, rfl⟩
        · have := hfirst _ hmem
          dsimp only at this
          omega
    · simp only [if_neg hcovers]
      refine (ih hpairwise).trans ?_
      constructor
      · rintro ⟨start', hmem, hrest⟩
        exact ⟨start', mem_cons_of_mem _ hmem, hrest⟩
      · rintro ⟨start', hmem, hle, hlt, hr⟩
        rcases mem_cons.1 hmem with hsame | hmem
        · obtain ⟨rfl, rfl⟩ := Prod.mk.inj hsame
          exact absurd ⟨hle, hlt⟩ hcovers
        · exact ⟨start', hmem, hle, hlt, hr⟩

/-- The opening quote belongs to the string. -/
lemma clickRegion?_of_stringBegin {p : Position}
    (h : (d.scopesAt p).head? = some Scope.stringBegin) : d.clickRegion? p = some .string := by
  obtain ⟨outer, houter⟩ := head?_eq_some_iff.1 h
  have hregion : Scope.region? Scope.stringBegin = some .string := by decide
  have hroot : ((Scope.stringBegin :: outer : ScopeChain) == [Scope.marko]) = false := by
    rw [cons_beq_cons, show (Scope.stringBegin == Scope.marko) = false by decide]
    rfl
  rw [clickRegion?, houter, ScopeChain.clickRegion?, hroot]
  simp [hregion]

lemma clickOn?_of_string (w : Text) {r : Range} (h : d.clickRegion? r.start = some .string) :
    d.clickOn? w r = some ⟨r, .literal (Click.unquote (Click.cutArgument w).1)
      (d.attributeOn? (r.start :: d.text.walkBack r.start))⟩ := by
  rw [clickOn?]
  simp only [h]
  rfl

/-- A click has the range of a word. -/
lemma click?_eq_some_iff {p : Position} {click : Click} :
    d.click? p = some click ↔
      ∃ w, d.wordAt? p = some (w, click.range) ∧ d.clickOn? w click.range = some click := by
  constructor
  · intro h
    obtain ⟨⟨w, r⟩, hword, hon⟩ := Option.bind_eq_some_iff.1 h
    obtain ⟨target, -, rfl⟩ := Option.map_eq_some_iff.1 hon
    exact ⟨w, hword, hon⟩
  · rintro ⟨w, hword, hon⟩
    exact Option.bind_eq_some_iff.2 ⟨(w, click.range), hword, hon⟩

lemma slice_of_isPrefix {line w : Text} {i j : Nat} (h : w <+: line.drop i)
    (hlength : i + w.length = j + 1) : line.slice (i + 1) j = w.tail.dropLast := by
  obtain ⟨more, hmore⟩ := h
  rw [Text.slice, drop_take, ← drop_drop, ← hmore]
  cases w with
  | nil =>
    rw [length_nil] at hlength
    rw [show j - (i + 1) = 0 by omega]
    rfl
  | cons c w =>
    rw [length_cons] at hlength
    rw [cons_append, drop_one, tail_cons, tail_cons, dropLast_eq_take,
      take_append_of_le_length (by omega)]
    congr 1
    omega

/-- A click anywhere on a string of a tag gives what is between its quotes, over all of its range,
exactly if those quotes go together in the row. They hold the same quote; they go together unless
this quote also stands in between, behind a backslash, or a quote in front of the string goes with
one behind its begin. -/
theorem click?_string_iff {d : Document} {row i j : Nat}
    (hscopes : d.scopes = Grammar.marko.tokenize d.text) (h : d.StringOn row i j) :
    ((∀ k, i ≤ k → k ≤ j → ∃ owner, d.click? ⟨row, k⟩ =
        some ⟨⟨⟨row, i⟩, ⟨row, j + 1⟩⟩, .literal ((d.text.line row).slice (i + 1) j) owner⟩) ↔
      (i, j) ∈ (d.text.line row).quotePairs) ∧
    (d.text.strayBreaks = 0 → ∃ quote, (d.text.line row).Quotes quote i j ∧
      ((i, j) ∈ (d.text.line row).quotePairs ↔
        (d.text.line row).NoneBetween quote i j ∧
          ∀ a b, (a, b) ∈ (d.text.line row).quotePairs → a < i → b < i)) := by
  have hscan := Click.scan_wordsFrom 0 (d.text.line row)
  have hinside : ∀ w, (i, w) ∈ Click.wordsFrom 0 (d.text.line row) → i + w.length = j + 1 →
      (d.text.line row).slice (i + 1) j = w.tail.dropLast := fun w hmem =>
    slice_of_isPrefix (hscan.isPrefix drop_zero (i, w) hmem)
  have hregion := clickRegion?_of_stringBegin h.begins
  refine ⟨⟨?_, ?_⟩, ?_⟩
  · intro hclicks
    obtain ⟨owner, hclick⟩ := hclicks i le_rfl h.lt.le
    obtain ⟨w, hword, hon⟩ := click?_eq_some_iff.1 hclick
    obtain ⟨start, hmem, -, -, hrange⟩ := wordAt?_eq_some_iff.1 hword
    obtain ⟨rfl, hlength⟩ : i = start ∧ j + 1 = start + w.length := by simpa using hrange
    rw [clickOn?_of_string w hregion, Option.some.injEq, Click.mk.injEq,
      ClickTarget.literal.injEq, hinside w hmem hlength.symm] at hon
    rcases hscan.isQuoted_or_isCalled _ hmem with hquoted | hcalled
    · exact (hscan.mem_quotePairsFrom_iff i j).2 ⟨w, hmem, hquoted, hlength.symm⟩
    · exact absurd hon.2.1 hcalled.unquote_ne
  · intro hpair k hik hkj
    obtain ⟨w, hmem, hquoted, hlength⟩ := (hscan.mem_quotePairsFrom_iff i j).1 hpair
    have hword : d.wordAt? ⟨row, k⟩ = some (w, ⟨⟨row, i⟩, ⟨row, j + 1⟩⟩) :=
      wordAt?_eq_some_iff.2 ⟨i, hmem, hik, by dsimp only; omega, by rw [hlength]⟩
    refine ⟨d.attributeOn? (⟨row, i⟩ :: d.text.walkBack ⟨row, i⟩), ?_⟩
    rw [hinside w hmem hlength, ← hquoted.unquote_eq]
    exact click?_eq_some_iff.2 ⟨w, hword, clickOn?_of_string w hregion⟩
  · intro hnone
    obtain ⟨quote, hquotes⟩ := h.quotes hscopes hnone
    refine ⟨quote, hquotes, ?_⟩
    have hpairs := Text.pairsNext_of_isQuote 0 hquotes.isQuote h.lt hquotes.begins hquotes.ends
    simp only [Text.PairsNext, Nat.zero_add] at hpairs
    exact hpairs

/-- The other quote inside of a string does no harm. -/
def sampleApostrophe : Document := .ofText .marko "<a b=\"it's\" c='d'>".toList

lemma stringOn_sampleApostrophe : sampleApostrophe.StringOn 0 5 10 := by
  have hgoes : ∀ k < 10, 5 < k →
      (sampleApostrophe.scopesAt ⟨0, k⟩).head? ≠ some Scope.stringEnd := by decide +kernel
  exact ⟨by decide, by decide +kernel, by decide +kernel, fun k hk hlt => hgoes k hlt hk⟩

theorem click?_string_iff_sampleApostrophe :
    sampleApostrophe.scopes = Grammar.marko.tokenize sampleApostrophe.text ∧
      sampleApostrophe.StringOn 0 5 10 ∧
      ∀ k, 5 ≤ k → k ≤ 10 → ∃ owner, sampleApostrophe.click? ⟨0, k⟩ =
        some ⟨⟨⟨0, 5⟩, ⟨0, 11⟩⟩, .literal "it's".toList owner⟩ := by
  have hpair : (5, 10) ∈ (sampleApostrophe.text.line 0).quotePairs := by decide +kernel
  have hslice : (sampleApostrophe.text.line 0).slice 6 10 = "it's".toList := by decide +kernel
  have hclicks := (click?_string_iff rfl stringOn_sampleApostrophe).1.2 hpair
  rw [hslice] at hclicks
  exact ⟨rfl, stringOn_sampleApostrophe, hclicks⟩

/-- A quote behind a backslash. -/
def sampleEscape : Document := .ofText .marko "<a b=\"x\\\"y\">".toList

/-- A string behind an apostrophe. -/
def sampleShift : Document := .ofText .marko "<p>it's</p><a b='x'>".toList

/-- The click ends with a quote that a backslash guards, and an apostrophe in the text of the
template hides a string behind it. -/
theorem click?_sampleEscape_sampleShift :
    sampleEscape.StringOn 0 5 10 ∧
      (sampleEscape.click? ⟨0, 5⟩).map Click.range = some ⟨⟨0, 5⟩, ⟨0, 9⟩⟩ ∧
      sampleShift.StringOn 0 16 18 ∧ sampleShift.click? ⟨0, 16⟩ = none := by
  have hescape : ∀ k < 10, 5 < k →
      (sampleEscape.scopesAt ⟨0, k⟩).head? ≠ some Scope.stringEnd := by decide +kernel
  have hshift : ∀ k < 18, 16 < k →
      (sampleShift.scopesAt ⟨0, k⟩).head? ≠ some Scope.stringEnd := by decide +kernel
  refine ⟨⟨by decide, by decide +kernel, by decide +kernel, fun k hk hlt => hescape k hlt hk⟩,
    by decide +kernel, ⟨by decide, by decide +kernel, by decide +kernel,
      fun k hk hlt => hshift k hlt hk⟩, by decide +kernel⟩

end Document

end TemplateEditing
