/-
Definitions: what the user of a table says about a derived unit. One
unit is a ratio times a product of targets, each a prefixed symbol to
a power. A target may be a base unit or another derived unit.
-/
import UnitAlgebra.SIPrefix

namespace UnitAlgebra

/-- One factor of a definition. -/
structure Target where
  name : String
  exponent : Exponent
  scale : SIPrefix
deriving DecidableEq

namespace Target

/-- The unit itself, to the first power. -/
def unit (name : String) : Target := ⟨name, 1, .plain⟩

/-- A power of a unit. -/
def power (name : String) (exponent : Exponent) : Target :=
  ⟨name, exponent, .plain⟩

/-- A prefixed unit, to the first power. -/
def scaled (scale : SIPrefix) (name : String) : Target :=
  ⟨name, 1, scale⟩

/-- The target as it would be written in a unit expression. -/
def text (t : Target) : String :=
  t.scale.symbol ++ t.name
    ++ (if t.exponent = 1 then "" else String.ofList t.exponent.digits)

end Target

/-- One unit is `ratio` times the product of `targets`. -/
structure Definition (α : Type := Scientific) where
  ratio : α
  targets : List Target

namespace Definition

/-- A product of targets, without a ratio. -/
def product (targets : List Target) : Definition := ⟨.one, targets⟩

/-- A number of targets. -/
def times (ratio : Float) (targets : List Target) : Definition :=
  ⟨.ofFloat ratio, targets⟩

end Definition

/-- Derived units by name, in the order in which they were given. -/
abbrev Definitions (α : Type := Scientific) :=
  List (String × Definition α)

end UnitAlgebra
