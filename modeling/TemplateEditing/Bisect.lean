/-!
# Binary search

`bisect` looks for an element of a list that is in increasing order. How an element lies to the one
wanted is given by a function into `Ordering`. The search narrows a window around the last element
that is not above the one wanted and compares once more at its end; on a list that is not in order
it still ends, with the element at which the window closed.
-/

namespace TemplateEditing

/-- Where a search ended. -/
inductive Slot where
  /-- The element at this index is one looked for. -/
  | found (index : Nat)
  /-- There is none; this is the index at which one would keep the order. -/
  | gap (index : Nat)
deriving DecidableEq, Repr

variable {α : Type}

/-- The window of `size` elements from `base` on, halved until one element is left. -/
def narrow (order : α → Ordering) (xs : List α) (base size : Nat) : Nat :=
  if size ≤ 1 then base
  else
    let half := size / 2
    let above : Bool := match xs[base + half]? with
      | some x => order x == .gt
      | none => true
    narrow order xs (if above then base else base + half) (size - half)
termination_by size

/-- Search a list in increasing order. -/
def bisect (order : α → Ordering) (xs : List α) : Slot :=
  let base := narrow order xs 0 xs.length
  match xs[base]? with
  | none => .gap 0
  | some x =>
    match order x with
    | .eq => .found base
    | .lt => .gap (base + 1)
    | .gt => .gap base

end TemplateEditing
