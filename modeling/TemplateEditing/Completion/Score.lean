import TemplateEditing.Text.Lowercase

/-!
# Scores

How well a candidate fits what was typed. Upper and lower case count as the same. A candidate fits
if the characters typed stand in it in this order. The better of two that fit is the one that is
more similar by the measure of Jaro and Winkler, and one that begins with what was typed is better
than any that does not.

Scores are computed in any kind of number with the four operations: in floating point numbers when
suggestions are made, or exactly in rational numbers.
-/

namespace TemplateEditing

/-- Numbers in which scores are computed. -/
class ScoreNumber (R : Type) extends Add R, Sub R, Mul R, Div R where
  ofNat : Nat → R
  atMost : R → R → Bool

instance : ScoreNumber Float where
  ofNat := Float.ofNat
  atMost a b := decide (a ≤ b)

instance : ScoreNumber Rat where
  ofNat n := n
  atMost a b := decide (a ≤ b)

/-- The first number is smaller. What is no number is not, and nothing is smaller than it. -/
def ScoreNumber.less {R : Type} [ScoreNumber R] (a b : R) : Bool := atMost a b && !atMost b a

namespace Similarity

/-- How far apart, plus one, the places of two characters may be that count as matching. -/
def window (m n : Nat) : Nat := max (max m n / 2) 1

/-- Marks the first character that is equal to `c`, not marked yet, and not before `low` nor at or
behind `high`; the list starts at place `i`. -/
def mark? (c : Char) (low high : Nat) (i : Nat) : List (Char × Bool) → Option (List (Char × Bool))
  | [] => none
  | (d, marked) :: rest =>
    if low ≤ i ∧ i < high ∧ d = c ∧ marked = false then some ((d, true) :: rest)
    else (mark? c low high (i + 1) rest).map ((d, marked) :: ·)

/-- Looks for a partner for each character of a text, which starts at place `i`, and gives the
characters that have one and the marks. -/
def pairUp (reach : Nat) (i : Nat) (marks : List (Char × Bool)) : Text → Text × List (Char × Bool)
  | [] => ([], marks)
  | c :: rest =>
    match mark? c (i - (reach - 1)) (i + reach) 0 marks with
    | some marks =>
      let (matched, marks) := pairUp reach (i + 1) marks rest
      (c :: matched, marks)
    | none => pairUp reach (i + 1) marks rest

/-- The characters of two texts that match, each in the order of its text. -/
def matching (a b : Text) : Text × Text :=
  let (matched, marks) := pairUp (window a.length b.length) 0 (b.map (·, false)) a
  (matched, (marks.filter (·.2)).map (·.1))

/-- How many pairs of matching characters stand in another order. -/
def transpositions (a b : Text) : Nat := ((a.zip b).filter fun (x, y) => x != y).length / 2

/-- The number of characters, at most four, that two texts have in common at their front. -/
def commonFront (a b : Text) : Nat := (((a.zip b).take 4).takeWhile fun (x, y) => x == y).length

variable {R : Type} [ScoreNumber R]

open ScoreNumber (ofNat less)

/-- The similarity of two texts by Jaro: the mean of the matching parts of each and of the part of
the matches that is in order. -/
def jaro (R : Type) [ScoreNumber R] (a b : Text) : R :=
  if a.isEmpty && b.isEmpty then ofNat 1
  else if a.isEmpty || b.isEmpty then ofNat 0
  else
    let (x, y) := matching a b
    let m := x.length
    if m = 0 then ofNat 0
    else
      let matched : R := ofNat m
      (matched / ofNat a.length + matched / ofNat b.length +
        ofNat (m - transpositions x y) / matched) / ofNat 3

/-- The similarity of two texts by Jaro and Winkler: similar texts gain by a common front. -/
def jaroWinkler (R : Type) [ScoreNumber R] (a b : Text) : R :=
  let s := jaro R a b
  if less (ofNat 7 / ofNat 10) s then
    s + ofNat 1 / ofNat 10 * ofNat (commonFront a b) * (ofNat 1 - s)
  else s

end Similarity

/-- Rates a candidate against what was typed. A candidate with no positive score does not fit. -/
abbrev Scorer (R : Type) := Text → Text → R

namespace Scorer

/-- The usual scorer. -/
def similarity (R : Type) [ScoreNumber R] : Scorer R := fun candidate query =>
  let candidate := candidate.lowercase
  let query := query.lowercase
  if query.isSublist candidate then
    let s := Similarity.jaroWinkler R candidate query
    if query.isPrefixOf candidate then s + ScoreNumber.ofNat 1 else s
  else ScoreNumber.ofNat 0

/-- A scorer for which nothing fits. -/
def rejecting (R : Type) [ScoreNumber R] : Scorer R := fun _ _ => ScoreNumber.ofNat 0

end Scorer

end TemplateEditing
