/-
Dimensions: what is left of a unit when its size is set aside, as
exponents of base units. A dimension is kept as a list of base powers;
in canonical form the list ascends by name, so no base stands twice,
and holds no exponent zero. Canonical lists are equal exactly when
they give every base the same exponent, which is why units may be
compared list against list.

Sums are formed one base power at a time and keep the canonical form
at every step. Each running sum is checked, so whether a sum exists
may depend on the order in which it is formed; its value never does.
-/
import UnitAlgebra.Scientific

namespace UnitAlgebra

/-- A base unit to a power. -/
structure BasePower where
  base : String
  exponent : Exponent
deriving DecidableEq

/-- The exponents of base units, as a list. -/
abbrev Dimension := List BasePower

namespace Dimension

-- ====================================================== canonical form

/-- Ascending by name, without exponent zero. -/
def Canonical (d : Dimension) : Prop :=
  d.Pairwise (fun p q => p.base < q.base) ∧ ∀ p ∈ d, p.exponent ≠ 0

/-- The exponent of a base unit; zero when it is not listed. -/
def exponentOf (base : String) : Dimension → Int
  | [] => 0
  | p :: d => if p.base = base then p.exponent.val else exponentOf base d

-- ================================================================= sums

/-- Puts a base power in front, unless its exponent is zero. -/
def consNonzero (p : BasePower) (d : Dimension) : Dimension :=
  if p.exponent = 0 then d else p :: d

/-- The dimension with `exponent` added to that of `base`, unless the
sum leaves the range. -/
def add? (base : String) (exponent : Exponent) :
    Dimension → Option Dimension
  | [] => some (consNonzero ⟨base, exponent⟩ [])
  | p :: d =>
    if base < p.base then some (consNonzero ⟨base, exponent⟩ (p :: d))
    else if base = p.base then
      (p.exponent.add? exponent).map fun sum => consNonzero ⟨base, sum⟩ d
    else
      (add? base exponent d).map (p :: ·)

/-- The dimension with a multiple of another added to it, base by base
in the order of the other, unless a product or a sum leaves the
range. -/
def addScaled? (d : Dimension) (weight : Exponent) (other : Dimension) :
    Option Dimension :=
  other.foldlM (fun d p => do
    let exponent ← p.exponent.mul? weight
    d.add? p.base exponent) d

/-- Every exponent negated, unless one has no negation. -/
def neg? : Dimension → Option Dimension
  | [] => some []
  | p :: d => do
    let exponent ← p.exponent.neg?
    return ⟨p.base, exponent⟩ :: (← neg? d)

-- ============================================================ likeness

/-- How the dimensions of two units that convert into each other stand:
they are the same, or one is the negation of the other. -/
inductive Likeness where
  | same
  | opposite
deriving DecidableEq

/-- The likeness of two dimensions, walked side by side. `same` and
`opposite` say which of the two the base units so far leave possible;
the walk ends as soon as neither is. -/
def likeness? (same opposite : Bool) :
    Dimension → Dimension → Option Likeness
  | [], [] => some (if same then .same else .opposite)
  | p :: d, q :: e =>
    if p.base ≠ q.base then none
    else
      let same := same && p.exponent = q.exponent
      let opposite := opposite && p.exponent.neg? = some q.exponent
      if same || opposite then likeness? same opposite d e else none
  | _, _ => none

-- ============================================================ arranging

/-- Whether one name does not come after another. -/
def inOrder (p q : BasePower) : Bool := p.base ≤ q.base

/-- The canonical form of a list in which no base stands twice. -/
def arrange (d : Dimension) : Dimension :=
  (d.filter (·.exponent ≠ 0)).mergeSort inOrder

/-- The first base that stands a second time. -/
def firstRepeated? : Dimension → Option String
  | d => go [] d
where
  go (seen : List String) : Dimension → Option String
    | [] => none
    | p :: d =>
      if p.base ∈ seen then some p.base else go (p.base :: seen) d

end Dimension

/-- A unit reduced to base units: a size and a dimension. -/
structure BaseForm (α : Type := Scientific) where
  factor : α
  dimension : Dimension
deriving BEq

end UnitAlgebra
