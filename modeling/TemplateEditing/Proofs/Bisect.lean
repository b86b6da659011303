import Mathlib.Tactic.Lemma
import TemplateEditing.Bisect

/-!
# Binary search finds what it looks for

A list is in order for a search if, up to some index, no element is above the one wanted, and all
elements behind that index are. The window then closes at that index (`narrow_eq`), so the search
ends at the element there, and says whether it is the one wanted.
-/

namespace TemplateEditing

open List

variable {k : Nat}

variable {α : Type} {order : α → Ordering} {xs : List α}

/-- The last element that is not above the one wanted is the one at index `k`. -/
structure LastNotAbove (order : α → Ordering) (xs : List α) (k : Nat) : Prop where
  lt_length : k < xs.length
  not_above : ∀ (j : Nat) (x : α), xs[j]? = some x → j ≤ k → order x ≠ .gt
  above : ∀ (j : Nat) (x : α), xs[j]? = some x → k < j → order x = .gt

/-- A window around the last element that is not above closes at it. -/
lemma narrow_eq (h : LastNotAbove order xs k) {base size : Nat} (hbase : base ≤ k)
    (hsize : k < base + size) : narrow order xs base size = k := by
  fun_induction narrow order xs base size with
  | case1 base size hle => omega
  | case2 base size hle half above ih =>
    have hhalf : half = size / 2 := rfl
    -- the middle of the window is above exactly if `k` is left of it
    have habove : above = true ↔ k < base + half := by
      cases hx : xs[base + half]? with
      | none =>
        have := h.lt_length
        have := List.getElem?_eq_none_iff.1 hx
        simp only [above, hx, true_iff]
        omega
      | some x =>
        simp only [above, hx, beq_iff_eq]
        constructor
        · intro hgt
          exact Nat.lt_of_not_le fun hle => h.not_above _ x hx hle hgt
        · exact h.above _ x hx
    apply ih
    · split
      · exact hbase
      · next hnot => exact Nat.le_of_not_lt fun hlt => hnot (habove.2 hlt)
    · split
      · next hyes =>
        have := habove.1 hyes
        omega
      · omega

/-- The search ends at the last element that is not above. -/
lemma bisect_eq (h : LastNotAbove order xs k) {x : α} (hx : xs[k]? = some x) :
    bisect order xs = if order x = .eq then .found k else .gap (k + 1) := by
  have hk := h.lt_length
  have hnarrow : narrow order xs 0 xs.length = k := narrow_eq h (Nat.zero_le k) (by omega)
  have hne := h.not_above k x hx (Nat.le_refl k)
  unfold bisect
  simp only [hnarrow, hx]
  cases hord : order x with
  | lt => rfl
  | eq => rfl
  | gt => exact absurd hord hne

/-- Where no element is the one wanted, the search ends in a gap. -/
lemma bisect_of_forall_ne (h : ∀ x ∈ xs, order x ≠ .eq) : ∃ k, bisect order xs = .gap k := by
  unfold bisect
  generalize narrow order xs 0 xs.length = base
  simp only
  split
  · exact ⟨0, rfl⟩
  · next x hx =>
    have hne := h x (mem_of_getElem? hx)
    split
    · next hord => exact absurd hord hne
    · exact ⟨base + 1, rfl⟩
    · exact ⟨base, rfl⟩

/-- A gap is at an index of the list or right behind it. -/
lemma bisect_gap_le (h : bisect order xs = .gap k) : k ≤ xs.length := by
  unfold bisect at h
  dsimp only at h
  split at h
  · cases h
    exact Nat.zero_le _
  · next x hx =>
    have hlt := (List.getElem?_eq_some_iff.1 hx).1
    split at h
    · cases h
    · cases h
      exact hlt
    · cases h
      exact Nat.le_of_lt hlt

lemma bisect_found_lt (h : bisect order xs = .found k) : k < xs.length := by
  unfold bisect at h
  dsimp only at h
  split at h
  · cases h
  · next x hx =>
    split at h
    · cases h
      exact (List.getElem?_eq_some_iff.1 hx).1
    · cases h
    · cases h

/-! ## Lists in order -/

/-- Where all elements are above the one wanted, the search ends at the front. -/
lemma bisect_of_above (h : ∀ x ∈ xs, order x = .gt) : bisect order xs = .gap 0 := by
  have hnarrow : ∀ base size, narrow order xs base size = base := by
    intro base size
    fun_induction narrow order xs base size with
    | case1 base size hle => rfl
    | case2 base size hle half above ih =>
      have habove : above = true := by
        cases hx : xs[base + half]? with
        | none => simp only [above, hx]
        | some x => simp only [above, hx, h x (mem_of_getElem? hx), beq_self_eq_true]
      simp only [habove, dite_true, if_true] at ih ⊢
      exact ih
  unfold bisect
  simp only [hnarrow]
  split
  · rfl
  · next x hx => rw [h x (mem_of_getElem? hx)]

/-- The elements are in order for a search: those below the one wanted come first, and those above it
last. -/
def SortedFor (order : α → Ordering) (xs : List α) : Prop :=
  xs.Pairwise fun x y => (order y = .lt → order x = .lt) ∧ (order x = .gt → order y = .gt)

namespace SortedFor

variable (h : SortedFor order xs)

include h

lemma exists_split : ∃ front back, xs = front ++ back ∧ (∀ x ∈ front, order x ≠ .gt) ∧
    ∀ x ∈ back, order x = .gt := by
  induction xs with
  | nil => exact ⟨[], [], rfl, by simp, by simp⟩
  | cons x xs ih =>
    obtain ⟨hx, hxs⟩ := pairwise_cons.1 h
    by_cases habove : order x = .gt
    · refine ⟨[], x :: xs, rfl, by simp, ?_⟩
      intro y hy
      rcases mem_cons.1 hy with rfl | hy
      · exact habove
      · exact (hx y hy).2 habove
    · obtain ⟨front, back, rfl, hfront, hback⟩ := ih hxs
      refine ⟨x :: front, back, rfl, ?_, hback⟩
      intro y hy
      rcases mem_cons.1 hy with rfl | hy
      · exact habove
      · exact hfront y hy

/-- In a list in order the search ends at an element wanted, or, if there is none, between those below
and those above it. -/
lemma bisect_cases :
    (∃ k x, bisect order xs = .found k ∧ xs[k]? = some x ∧ order x = .eq) ∨
      ∃ front back, xs = front ++ back ∧ bisect order xs = .gap front.length ∧
        (∀ x ∈ front, order x = .lt) ∧ ∀ x ∈ back, order x = .gt := by
  obtain ⟨front, back, rfl, hfront, hback⟩ := h.exists_split
  rcases eq_nil_or_concat front with rfl | ⟨front, x, rfl⟩
  · exact .inr ⟨[], back, rfl, bisect_of_above hback, by simp, hback⟩
  rw [concat_eq_append] at *
  have hget : (front ++ [x] ++ back)[front.length]? = some x := by
    rw [append_assoc, getElem?_append_right (Nat.le_refl _), Nat.sub_self]
    rfl
  have hlast : LastNotAbove order (front ++ [x] ++ back) front.length := by
    refine ⟨by simp, fun j y hy hj => ?_, fun j y hy hj => ?_⟩
    · rw [getElem?_append_left (by simp; omega)] at hy
      exact hfront y (mem_of_getElem? hy)
    · rw [getElem?_append_right (by simp; omega)] at hy
      exact hback y (mem_of_getElem? hy)
  by_cases heq : order x = .eq
  · exact .inl ⟨front.length, x, by rw [bisect_eq hlast hget, if_pos heq], hget, heq⟩
  · refine .inr ⟨front ++ [x], back, rfl, ?_, ?_, hback⟩
    · rw [bisect_eq hlast hget, if_neg heq, length_append]
      rfl
    · -- the last of them is below, and so are those before it
      have hbelow : order x = .lt := by
        have hne := hfront x (by simp)
        cases hx : order x with
        | lt => rfl
        | eq => exact absurd hx heq
        | gt => exact absurd hx hne
      intro y hy
      rcases mem_append.1 hy with hy | hy
      · have hpair := (pairwise_append.1 (pairwise_append.1 h).1).2.2 y hy x (by simp)
        exact hpair.1 hbelow
      · rw [mem_singleton.1 hy]
        exact hbelow

end SortedFor

end TemplateEditing
