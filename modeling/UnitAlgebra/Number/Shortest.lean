/-
The shortest decimal of a double: of all decimals that read back to
it, one with the fewest digits, and of those the nearest. A decimal
reads back when it is closer to the double than to either of its
neighbours; halfway counts when the significand is even, which is the
way a reader breaks its ties.

The search walks the decimal grids from coarse to fine. On each grid
only the two points around the magnitude can be the answer, since any
farther point of the same grid is farther from it.
-/
import UnitAlgebra.Number.Binary

namespace UnitAlgebra.Number

/-- The decimal `digits * 10 ^ power`. -/
structure Decimal where
  digits : Nat
  power : Int
deriving DecidableEq

/-- Whether an error of `error / whole` stays inside half a gap of
`gap / whole`, the end included for an even significand. -/
def withinHalf (even : Bool) (error gap : Nat) : Bool :=
  if even then 2 * error ≤ gap else 2 * error < gap

/-- The point of the grid `10 ^ power` that reads back to a magnitude,
if one does: of two, the nearer; of two equally near, the upper. -/
def Magnitude.onGrid? (x : Magnitude) (power : Int) : Option Decimal :=
  let d := x.divide power
  let even := x.significand % 2 = 0
  let lower :=
    if x.lowerGapHalved then withinHalf even (2 * d.rest) d.gap
    else withinHalf even d.rest d.gap
  let upper := withinHalf even (d.whole - d.rest) d.gap
  if lower ∧ ¬ (upper ∧ d.whole ≤ 2 * d.rest) then
    some ⟨d.floor, power⟩
  else if upper then
    some ⟨d.floor + 1, power⟩
  else
    none

/-- Seventeen digits tell any two doubles apart. -/
def maxDigits : Nat := 17

/-- The shortest decimal that reads back to a magnitude. -/
def Magnitude.shortest (x : Magnitude) : Decimal :=
  let top := x.leadingPower
  let grids := (List.range maxDigits).map fun i : Nat => top - (i : Int)
  (grids.findSome? x.onGrid?).getD
    ⟨(x.divide (top - maxDigits)).floor, top - maxDigits⟩

end UnitAlgebra.Number
