/-
Scalars: the numbers that factors are made of. Reducing, multiplying
and inverting units asks little of a factor, so the rules for units
are written once over any numbers that give this little. The library
computes with numbers in scientific notation; the same rules over
exact numbers say what it computes up to rounding.
-/
import UnitAlgebra.Scientific

namespace UnitAlgebra

/-- What the rules for units ask of a factor. Only a division by zero
can make the arithmetic fail. -/
class Scalar (α : Type) extends BEq α, One α, Mul α where
  isZero : α → Bool
  isOne : α → Bool
  inverse : α → Except Fault α
  pow : α → Exponent → Except Fault α
  /-- The power of ten that a prefix stands for. -/
  tenTo : Exponent → α
  /-- The number as it stands in front of a unit. -/
  text : α → List Char
  fault_inverse {x : α} {fault : Fault} :
    inverse x = .error fault → fault = .divisionByZero
  fault_pow {x : α} {n : Exponent} {fault : Fault} :
    pow x n = .error fault → fault = .divisionByZero

namespace Scientific

/-- Only zero has no reciprocal. -/
theorem fault_inverse {x : Scientific} {fault : Fault}
    (h : x.inverse = .error fault) : fault = .divisionByZero := by
  unfold inverse at h
  split at h
  · cases h
    rfl
  · split at h <;> cases h

/-- A power fails where the reciprocal in it does. -/
theorem fault_pow {x : Scientific} {n : Exponent} {fault : Fault}
    (h : x.pow n = .error fault) : fault = .divisionByZero := by
  unfold pow at h
  split at h
  · cases h
  · split at h
    · cases h
    · split at h
      · split at h
        · cases h
          rfl
        · cases h
      · split at h
        · exact fault_inverse h
        · cases h

instance : Scalar Scientific where
  one := one
  mul := mul
  isZero := isZero
  isOne := isOne
  inverse := inverse
  pow := pow
  tenTo := ofParts 1.0
  text := valueText
  fault_inverse := fault_inverse
  fault_pow := fault_pow

/-- The first power is the number itself, mantissa and exponent
unchanged. -/
theorem pow_one (x : Scientific) : Scalar.pow x 1 = .ok x := by
  show x.pow 1 = .ok x
  unfold pow
  rw [if_neg (by decide), if_pos (.inl rfl)]

end Scientific

end UnitAlgebra
