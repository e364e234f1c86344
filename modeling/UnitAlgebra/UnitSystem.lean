/-
Unit systems: a reader for unit expressions and a catalog that reduces
what was read. Two texts need no grammar: the empty one, which is the
number one, and a plain number, which is a pure number. A number too
large for a double is no plain number and goes to the grammar like any
other text.

What was read has both forms, since reading ends with reducing. A
measure that was only written down is completed on request, and one that
has a base form already is left as it is, even if the catalog would
reduce its terms to another one.
-/
import UnitAlgebra.Catalog
import UnitAlgebra.Grammar.Reader
import UnitAlgebra.Measure

namespace UnitAlgebra

-- =============================================== measures of a catalog

namespace Catalog

variable {α : Type} [Scalar α]

/-- The measure that is written as a row of terms. -/
def measure (c : Catalog α) (terms : List (Term α)) :
    Except Fault (Measure α) := do
  let form ← c.reduce terms
  Measure.ofForms 1 terms form

/-- A measure with its base form added, if it has none yet. -/
def complete (c : Catalog α) (m : Measure α) :
    Except Fault (Measure α) :=
  if m.baseForm.isSome then .ok m
  else do
    let form ← c.reduce m.terms
    Measure.ofForms m.factor m.terms
      { form with factor := form.factor * m.factor }

end Catalog

-- ======================================================== unit systems

/-- A reader and the catalog for the symbols it knows. -/
structure UnitSystem where
  reader : Reader
  catalog : Catalog

namespace UnitSystem

/-- The finite number that a text is, if it is one. -/
def plainNumber? (text : String) : Option Float :=
  (Number.read? text).filter Float.isFinite

/-- The measure that a text stands for. -/
def read (system : UnitSystem) (text : String) : Except Fault Measure :=
  if text = "" then .ok .dimensionless
  else
    match plainNumber? text with
    | some number => .ok (.scalar (.ofFloat number))
    | none => do
      let terms ← system.reader.read text
      system.catalog.measure terms

/-- A measure with its base form added, if it has none yet. -/
def reduce (system : UnitSystem) (m : Measure) : Except Fault Measure :=
  system.catalog.complete m

end UnitSystem

end UnitAlgebra
