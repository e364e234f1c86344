/-
JSON as it is written. The tree keeps what its readers decide about: a
number keeps its digits, since an integer is told from a double by the
way it is written, and an object keeps every entry, so that a key that
stands twice can be refused. A string whose escapes name half of a
surrogate pair is well-formed but stands for no text.
-/
import UnitAlgebra.Number.Literal

namespace UnitAlgebra

/-- A number as it is written: `-12.50e+3`. -/
structure Numeral where
  negative : Bool
  whole : List Char
  /-- The digits after the point; none without a point. -/
  fraction : List Char
  /-- The power of ten, if one is written. -/
  power : Option Int
deriving DecidableEq

/-- A JSON value as it is written. -/
inductive Json where
  | null
  | boolean (value : Bool)
  | number (numeral : Numeral)
  | string (text : Option String)
  | array (items : List Json)
  | object (entries : List (Option String × Json))

namespace Numeral

/-- The integer that is written as one: without a point and without a
power of ten. A negative zero is a double and no integer. -/
def integer? (n : Numeral) : Option Int :=
  let magnitude : Int := Number.ofDigits n.whole
  if n.fraction ≠ [] ∨ n.power.isSome then none
  else if n.negative then if magnitude = 0 then none else some (-magnitude)
  else some magnitude

/-- The double nearest to a number, unless the number is beyond every
double. -/
def toFloat? (n : Numeral) : Option Float :=
  let magnitude := Number.nearest
    (Number.ofDigits (n.whole ++ n.fraction))
    (n.power.getD 0 - n.fraction.length)
  if magnitude.isFinite then
    some (if n.negative then -magnitude else magnitude)
  else
    none

end Numeral

end UnitAlgebra
