/-!
# Shortest decimals

The decimal with the fewest digits that is rounded to a given double. The reals that are rounded to
a double form an interval around it, so it is enough to look, on coarser and then finer decimal
grids, whether a neighbour of the double lies in that interval. All of this is done in whole
numbers.
-/

namespace TemplateEditing

/-- The number `digits * 10 ^ exponent`. -/
structure Decimal where
  digits : Nat
  exponent : Int
deriving DecidableEq, Repr, Inhabited

/-- The positive number `mantissa * 2 ^ exponent`. -/
structure Binary where
  mantissa : Nat
  exponent : Int
  /-- The number below lies only half as far away as the number above. -/
  nearBelow : Bool := false
deriving DecidableEq, Repr, Inhabited

namespace Binary

/-- The absolute value of a finite double, given by its bits. -/
def ofBits (bits : Nat) : Binary :=
  let fraction : Nat := bits % Nat.pow 2 52
  let power : Nat := bits / Nat.pow 2 52 % Nat.pow 2 11
  if power = 0 then ⟨fraction, -1074, false⟩
  else ⟨Nat.pow 2 52 + fraction, power - 1075, fraction = 0 && power != 1⟩

/-- The quotient of two powers of ten and two that is the unit of the grid of `10 ^ place`, as seen
from a quarter of the number's own unit. -/
def gridUnits (b : Binary) (place : Int) : Nat × Nat :=
  let two := b.exponent - 2
  (Nat.pow 2 two.toNat * Nat.pow 10 (-place).toNat,
    Nat.pow 2 (-two).toNat * Nat.pow 10 place.toNat)

/-- The nearest multiple of `10 ^ place` that is rounded to the number, if there is one. Of two that
are equally near it is the even one. -/
def onGrid? (b : Binary) (place : Int) : Option Nat :=
  let (up, down) := b.gridUnits place
  let value := 4 * b.mantissa * up
  let low := (4 * b.mantissa - (if b.nearBelow then 1 else 2)) * up
  let high := (4 * b.mantissa + 2) * up
  let inside (n : Nat) : Bool :=
    if b.mantissa % 2 = 0 then low ≤ n * down && n * down ≤ high
    else low < n * down && n * down < high
  let below := value / down
  let above := below + 1
  let toBelow := value - below * down
  let toAbove := above * down - value
  if inside below &&
      (!inside above || toBelow < toAbove || (toBelow = toAbove && below % 2 = 0)) then
    some below
  else if inside above then some above
  else none

/-- The decimal with the fewest digits that is rounded to the number, which is not zero. -/
def shortest (b : Binary) : Decimal :=
  let whole := b.mantissa * Nat.pow 2 b.exponent.toNat / Nat.pow 2 (-b.exponent).toNat
  let places := (Nat.toDigits 10 whole).length
  let grids := (List.range (places + 400)).map fun (i : Nat) => (places : Int) - i
  (grids.findSome? fun place => (b.onGrid? place).map (⟨·, place⟩)).getD ⟨0, 0⟩

end Binary

end TemplateEditing
