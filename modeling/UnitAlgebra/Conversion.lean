/-
Conversions: how a value in one unit becomes a value in another. A
direct conversion multiplies; an inverted one, between reciprocal
dimensions such as frequency and period, multiplies and takes the
reciprocal.

Two values are spared. A factor of one is not multiplied by, so that a
conversion between units of the same size changes no bit; and an
inverted conversion leaves zero alone, where the reciprocal would be an
infinity.
-/
import UnitAlgebra.Scientific

namespace UnitAlgebra

/-- A conversion factor, direct or inverted. -/
structure Conversion where
  factor : Scientific
  inverted : Bool

namespace Conversion

/-- The conversion of a unit into itself. -/
def identity : Conversion := ⟨.one, false⟩

/-- The conversion by a factor, which must not be zero. -/
def ofFactor (factor : Scientific) (inverted : Bool) :
    Except Fault Conversion :=
  if factor.isZero then .error (.breach .zeroConversion)
  else .ok ⟨factor, inverted⟩

/-- The converted value. A factor of one is not multiplied by, so the
value keeps its last bit. -/
def apply (c : Conversion) (value : Float) : Float :=
  if c.inverted ∧ value == 0.0 then value
  else
    let scaled :=
      if c.factor.isOne then value
      else (c.factor.mul (.ofFloat value)).toFloat
    if c.inverted then 1.0 / scaled else scaled

/-- The factor, and whether it is inverted. -/
def text (c : Conversion) : String :=
  String.ofList c.factor.valueText
    ++ (if c.inverted then " invert" else " no-invert")

end Conversion

end UnitAlgebra
