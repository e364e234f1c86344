/-
Quantities: a number with a measure. Sums and comparisons convert the
other operand into the measure of the first; products and quotients
leave the numbers as they are and combine the measures.

An operand that is the first one itself is told from an equal one
(`Peer`), since a measure converts into itself without being looked at,
and so a sum of a quantity with itself needs no base form.

Division by zero is found out on the numbers before the measures are
touched. Everything else that can go wrong is a fault of the measures.
-/
import UnitAlgebra.Measure

namespace UnitAlgebra

/-- A number of units. -/
structure Quantity where
  value : Float
  measure : Measure

namespace Quantity

/-- The value of a peer, counted in the measure of `q`. -/
def countIn (q : Quantity) (peer : Peer Quantity) :
    Except Fault Float := do
  let other := peer.value q
  -- Seen from the peer, `q` is itself exactly when the peer is `q`.
  let receiver : Peer Measure := peer.map fun _ => q.measure
  return (← other.measure.convertTo receiver).apply other.value

/-- The sum, in the measure of the first operand. -/
def add (q : Quantity) (peer : Peer Quantity) :
    Except Fault Quantity := do
  return ⟨q.value + (← q.countIn peer), q.measure⟩

/-- The difference, in the measure of the first operand. -/
def sub (q : Quantity) (peer : Peer Quantity) :
    Except Fault Quantity := do
  return ⟨q.value - (← q.countIn peer), q.measure⟩

/-- The product of the values in the product of the measures. -/
def mul (q r : Quantity) : Except Fault Quantity := do
  return ⟨q.value * r.value, ← q.measure.mul r.measure⟩

/-- The quotient of the values in the quotient of the measures. -/
def div (q r : Quantity) : Except Fault Quantity :=
  if r.value == 0.0 then .error .divisionByZero
  else do return ⟨q.value / r.value, ← q.measure.div r.measure⟩

/-- The reciprocal of the value in the reciprocal of the measure. -/
def inverse (q : Quantity) : Except Fault Quantity :=
  if q.value == 0.0 then .error .divisionByZero
  else do return ⟨1.0 / q.value, ← q.measure.inverse⟩

/-- The same quantity, counted in another measure; `itself` is the
measure that the quantity already has. -/
def convertTo (q : Quantity) (target : Peer Measure) :
    Except Fault Quantity := do
  let conversion ← q.measure.convertTo target
  return ⟨conversion.apply q.value, target.value q.measure⟩

/-- Whether two quantities, counted in the measure of the first, differ
by less than a tolerance. -/
def equalWithin (tolerance : Float) (q : Quantity)
    (peer : Peer Quantity) : Except Fault Bool := do
  return (q.value - (← q.countIn peer)).abs < tolerance

/-- The tolerance of comparisons that name none. -/
def defaultTolerance : Float := 1e-9

/-- The quantity with its value put through a function. -/
def mapValue (f : Float → Float) (q : Quantity) : Quantity :=
  { q with value := f q.value }

/-- The value and, in brackets, the measure. -/
def text (q : Quantity) : String :=
  String.ofList (Number.plain q.value) ++ " [" ++ q.measure.text ++ "]"

end Quantity

end UnitAlgebra
