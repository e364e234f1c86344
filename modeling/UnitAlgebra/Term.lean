/-
Terms: one factor of a written unit, such as `10 km2`. A coefficient
stands in front, a prefix on the symbol and an exponent behind it. The
exponent belongs to prefix and symbol; the coefficient takes only its
sign, so `10 km2` is ten square kilometres and `10 km-2` a tenth of
one per square kilometre.
-/
import UnitAlgebra.SIPrefix

namespace UnitAlgebra

/-- One factor of a written unit. -/
structure Term (α : Type := Scientific) where
  coefficient : α
  scale : SIPrefix
  symbol : String
  exponent : Exponent
deriving BEq

namespace Term

variable {α : Type} [Scalar α]

/-- A bare symbol with an exponent. -/
def simple (symbol : String) (exponent : Exponent) : Term α :=
  ⟨1, .plain, symbol, exponent⟩

/-- The term with the opposite exponent, if there is one. -/
def inverse? (t : Term α) : Option (Term α) :=
  t.exponent.neg?.map fun e => { t with exponent := e }

/-- A term can be turned over unless it has the least exponent. -/
theorem exists_inverse?_iff {α : Type} {t : Term α} :
    (∃ u, t.inverse? = some u) ↔ t.exponent ≠ .least := by
  rw [← Option.isSome_iff_exists, ne_eq, ← Exponent.neg?_eq_none_iff]
  unfold inverse?
  rw [Option.isSome_map]
  exact Option.isSome_iff_ne_none

/-- Terms that may be merged: all but the exponent agrees. -/
def sameBase (t u : Term α) : Bool :=
  t.symbol = u.symbol && t.scale = u.scale
    && t.coefficient == u.coefficient

/-- A coefficient other than one and the blank after it. -/
def coefficientText (x : α) : List Char :=
  if Scalar.isOne x then [] else Scalar.text x ++ [' ']

/-- An exponent other than one. -/
def exponentText (e : Exponent) : List Char :=
  if e = 1 then [] else e.digits

/-- The term as it is written in the dotted grammar. -/
def text (t : Term α) : List Char :=
  coefficientText t.coefficient ++ t.scale.symbol.toList
    ++ t.symbol.toList ++ exponentText t.exponent

end Term

end UnitAlgebra
