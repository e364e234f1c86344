/-
Numbers in scientific notation: a double times a power of ten. Every
factor of a unit is one. Chains of conversions multiply factors that
lie dozens of powers of ten apart; with the power of ten kept outside,
the double stays in `[1, 10)` and loses nothing to overflow or
underflow.

Two rules shape every result. A number built from parts is brought
into `[1, 10)` again, and a mantissa within a few rounding errors of
one or of ten becomes exactly one, so that powers of ten stay exact
through long products. And a factor of exactly one is passed over
without any arithmetic, so it cannot disturb the other operand.
-/
import UnitAlgebra.Exponent
import UnitAlgebra.Fault
import UnitAlgebra.Number.Text

namespace UnitAlgebra

/-- The number `mantissa * 10 ^ exponent`. -/
structure Scientific where
  mantissa : Float
  exponent : Exponent

namespace Scientific

/-- Equal mantissas, as doubles compare, and equal exponents. A number
with a NaN mantissa equals nothing. -/
instance : BEq Scientific :=
  ⟨fun a b => a.mantissa == b.mantissa && a.exponent == b.exponent⟩

def zero : Scientific := ⟨0.0, 0⟩

def one : Scientific := ⟨1.0, 0⟩

instance : Inhabited Scientific := ⟨zero⟩

def isZero (x : Scientific) : Bool := x.mantissa == 0.0

/-- The exact value one. -/
def isOne (x : Scientific) : Bool := x.mantissa == 1.0 && x.exponent = 0

/-- `-1`, `0` or `1`; a NaN has no sign and gives `0`. -/
def sign (x : Scientific) : Int :=
  if 0.0 < x.mantissa then 1 else if x.mantissa < 0.0 then -1 else 0

-- ============================================= powers of ten as doubles

/-- `10 ^ n` as a double, by repeated squaring from the low bit of `n`
upwards. -/
def powerOfTen (n : Nat) : Float :=
  ((List.range (n.log2 + 1)).foldl
    (fun (product, square) i =>
      (if n.testBit i then product * square else product,
        square * square))
    (1.0, 10.0)).1

/-- Powers of ten are applied to a double in steps no longer than this,
so that each step is itself a finite double. -/
def longestStep : Int := 300

/-- The double `m * 10 ^ power`. It stops early at zero and at an
infinity, which no further step can change. -/
def scaleBy (m : Float) (power : Int) : Float :=
  if power = 0 ∨ m == 0.0 ∨ ¬ m.isFinite then m
  else if 0 < power then
    let step := min power longestStep
    scaleBy (m * powerOfTen step.toNat) (power - step)
  else
    let step := min (-power) longestStep
    scaleBy (m / powerOfTen step.toNat) (power + step)
termination_by power.natAbs
decreasing_by
  all_goals
    simp only [longestStep]
    omega

/-- The number as a double. It may overflow to an infinity or underflow
to zero. -/
def toFloat (x : Scientific) : Float := scaleBy x.mantissa x.exponent.val

-- ======================================================== normal form

/-- The distance below which a mantissa counts as one: four times the
gap between one and the next double. -/
def snapWidth : Float := 1.0 / 1125899906842624.0

/-- How far the point has to move for the mantissa to come to `[1, 10)`.
The logarithm is a double itself and may miss by one next to a power
of ten, never by more; `settle` makes up for it. -/
def pointShift (m : Float) : Int :=
  if 1.0 ≤ m.abs ∧ m.abs < 10.0 then 0
  else
    let place := (Number.Magnitude.ofFloat m).leadingPower
    let logarithm := m.abs.log10.floor.toInt64.toInt
    max (place - 1) (min (place + 1) logarithm)

/-- One with the sign of a nonzero double. -/
def unitLike (m : Float) : Float := if m < 0.0 then -1.0 else 1.0

/-- Puts a mantissa that is almost ten or almost one onto one. -/
def snap (x : Scientific) : Scientific :=
  let size := x.mantissa.abs
  if (size - 10.0).abs < 10.0 * snapWidth then
    ⟨unitLike x.mantissa, x.exponent.addClamped 1⟩
  else if (size - 1.0).abs < snapWidth then
    ⟨unitLike x.mantissa, x.exponent⟩
  else
    x

/-- Divides by ten while the mantissa is ten or more. -/
def lower : Nat → Scientific → Scientific
  | 0, x => x
  | steps + 1, x =>
    if 10.0 ≤ x.mantissa.abs then
      lower steps ⟨x.mantissa / 10.0, x.exponent.addClamped 1⟩
    else
      x

/-- Multiplies by ten while the mantissa is less than one. -/
def raise : Nat → Scientific → Scientific
  | 0, x => x
  | steps + 1, x =>
    if x.mantissa.abs < 1.0 then
      raise steps ⟨x.mantissa * 10.0, x.exponent.subClamped 1⟩
    else
      x

/-- Brings a mantissa into `[1, 10)`. No finite double is 400 powers of
ten away, so the steps never run out. -/
def settle (x : Scientific) : Scientific := raise 400 (lower 400 x)

/-- The number `mantissa * 10 ^ exponent` in normal form. Zero loses
its sign and its power of ten; what is not finite loses its power of
ten only. -/
def ofParts (mantissa : Float) (exponent : Exponent) : Scientific :=
  if mantissa == 0.0 then zero
  else if ¬ mantissa.isFinite then ⟨mantissa, 0⟩
  else
    let shift := pointShift mantissa
    settle (snap ⟨scaleBy mantissa (-shift),
      exponent.addClamped (Exponent.clamp shift)⟩)

def ofFloat (x : Float) : Scientific := ofParts x 0

def ofExponent (n : Exponent) : Scientific := ofFloat (Float.ofInt n.val)

-- ========================================================== arithmetic

/-- The product. -/
def mul (x y : Scientific) : Scientific :=
  if x.isOne then y
  else if y.isOne then x
  else ofParts (x.mantissa * y.mantissa) (x.exponent.addClamped y.exponent)

/-- The quotient. -/
def div (x y : Scientific) : Except Fault Scientific :=
  if y.isZero then .error .divisionByZero
  else if y.isOne then .ok x
  else
    .ok (ofParts (x.mantissa / y.mantissa)
      (x.exponent.subClamped y.exponent))

/-- The reciprocal. -/
def inverse (x : Scientific) : Except Fault Scientific :=
  if x.isZero then .error .divisionByZero
  else if x.isOne then .ok x
  else .ok (ofParts (1.0 / x.mantissa) x.exponent.negClamped)

/-- `acc` times the `n`th power of `base`, one bit of `n` at a time. -/
def mulPower (base acc : Scientific) (n : Nat) : Scientific :=
  if n = 0 then acc
  else
    let acc := if n % 2 = 1 then acc.mul base else acc
    if n / 2 = 0 then acc else mulPower (base.mul base) acc (n / 2)
termination_by n

/-- The power. Every number to the zeroth is one, zero included, and
zero has no negative power. -/
def pow (x : Scientific) (n : Exponent) : Except Fault Scientific :=
  if n = 0 then .ok one
  else if n = 1 ∨ x.isOne then .ok x
  else if x.isZero then
    if n.val < 0 then .error .divisionByZero else .ok zero
  else if n.val < 0 then (mulPower x one n.val.natAbs).inverse
  else .ok (mulPower x one n.val.natAbs)

-- ========================================================== comparison

/-- The power of ten on which two numbers are lined up: the greater of
theirs, where zero, which has none, leaves the choice to the other. -/
def commonPower (x y : Scientific) : Exponent :=
  if x.isZero then y.exponent
  else if y.isZero then x.exponent
  else x.exponent.max y.exponent

/-- The order of two numbers, where lined-up mantissas that differ by
less than `tolerance` count as equal. -/
def compareWithin (tolerance : Float) (x y : Scientific) : Ordering :=
  if x.isZero ∧ y.isZero then .eq
  else
    let power := commonPower x y
    let aligned (z : Scientific) : Float :=
      scaleBy z.mantissa (z.exponent.subClamped power).val
    let difference := aligned x - aligned y
    if difference.abs < tolerance then .eq
    else if 0.0 < difference then .gt
    else .lt

/-- Equality up to a tolerance on the lined-up mantissas. -/
def equalWithin (tolerance : Float) (x y : Scientific) : Bool :=
  compareWithin tolerance x y == .eq

/-- The tolerance of comparisons that name none. -/
def defaultTolerance : Float := 1e-12

-- ============================================================= writing

/-- The value as a plain number. -/
def valueText (x : Scientific) : List Char := Number.plain x.toFloat

/-- Mantissa and exponent in brackets. -/
def text (x : Scientific) : String :=
  String.ofList
    ('[' :: Number.plain x.mantissa ++ ", ".toList ++ x.exponent.digits
      ++ [']'])

end Scientific

end UnitAlgebra
