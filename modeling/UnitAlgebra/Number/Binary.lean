/-
Binary floating point seen as exact numbers. A finite double of
nonzero magnitude is `significand * 2 ^ scale`; the doubles next to it
lie one unit `2 ^ scale` away, except that below a power of two the
gap is half as wide. Every text of a number is chosen by integer
arithmetic on this view, so no rounding happens on the way.

The second half of the file divides a magnitude by a power of ten,
with an exact remainder. The shortest text and the text with a fixed
number of places are both read off that division.
-/
namespace UnitAlgebra.Number

/-- The magnitude of a finite double: `significand * 2 ^ scale`. -/
structure Magnitude where
  significand : Nat
  scale : Int
  /-- The double just below is nearer than the one just above. -/
  lowerGapHalved : Bool
deriving DecidableEq

/-- The sign bit, set for negative zero too. -/
def isNegative (x : Float) : Bool := Nat.pow 2 63 ≤ x.toBits.toNat

/-- The magnitude of a double. An infinity and a NaN have none; what is
computed for them is never used. -/
def Magnitude.ofFloat (x : Float) : Magnitude :=
  let bits := x.toBits.toNat
  let fraction : Nat := bits % Nat.pow 2 52
  let biased : Nat := bits / Nat.pow 2 52 % Nat.pow 2 11
  if biased = 0 then ⟨fraction, -1074, false⟩
  else ⟨Nat.pow 2 52 + fraction, (biased : Int) - 1075, fraction = 0 ∧ 1 < biased⟩

-- ======================================= division by a power of ten

/-- A magnitude divided by `10 ^ power`: it lies `rest / whole` above
`floor`, and the gap between doubles there is `gap / whole`. -/
structure Division where
  floor : Nat
  rest : Nat
  whole : Nat
  gap : Nat
deriving DecidableEq

/-- The exact division of a magnitude by `10 ^ power`. -/
def Magnitude.divide (x : Magnitude) (power : Int) : Division :=
  let gap := Nat.pow 2 x.scale.toNat * Nat.pow 10 (-power).toNat
  let whole := Nat.pow 2 (-x.scale).toNat * Nat.pow 10 power.toNat
  let total := x.significand * gap
  ⟨total / whole, total % whole, whole, gap⟩

/-- The power of ten of the leading decimal digit. A magnitude below
one is turned over first: its leading power is read off the number of
digits of its reciprocal. -/
def Magnitude.leadingPower (x : Magnitude) : Int :=
  let units := x.divide 0
  if units.floor = 0 then
    let reciprocal := units.whole / (x.significand * units.gap)
    let count := (Nat.toDigits 10 reciprocal).length
    if Nat.pow 10 (count - 1) * (x.significand * units.gap) = units.whole then
      -((count : Int) - 1)
    else
      -(count : Int)
  else
    (Nat.toDigits 10 units.floor).length - 1

end UnitAlgebra.Number
