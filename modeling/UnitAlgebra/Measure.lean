/-
Measures: units of measurement. A measure is kept as it was written, a
factor and a row of terms, and as it reduces to base units, a factor
and a dimension. The written form is what is shown; every comparison
and conversion looks at the base form. A measure may lack its base
form, and can then only be shown or inverted.

# Products

The product of two measures works on the two forms separately. Base
forms are multiplied: factors times factors, dimensions added. Written
forms are joined, and terms that differ in their exponent alone become
one term, which is dropped when its exponent comes to zero.

Exponents are added one at a time and each sum has to be in range, on
the way as well as in the end. So a product fails as soon as one of the
two forms cannot be had, though the other one could.

# Conversions

Only base forms are compared. Equal dimensions convert by the quotient
of the factors and opposite ones by their product. A conversion into the
measure itself is settled before anything is compared.
-/
import UnitAlgebra.Conversion
import UnitAlgebra.Dimension
import UnitAlgebra.Peer
import UnitAlgebra.Term

namespace UnitAlgebra

/-- A unit of measurement, as written and in base units. -/
structure Measure (α : Type := Scientific) where
  factor : α
  terms : List (Term α)
  baseForm : Option (BaseForm α)
deriving BEq

namespace Measure

variable {α : Type} [Scalar α]

-- ============================================================== building

/-- A measure with both forms. The dimension is put into canonical
form; no base may stand in it twice. -/
def ofForms (factor : α) (terms : List (Term α)) (form : BaseForm α) :
    Except Fault (Measure α) :=
  match Dimension.firstRepeated? form.dimension with
  | some base => .error (.construction (.repeatedBase base))
  | none =>
    .ok ⟨factor, terms,
      some ⟨form.factor, Dimension.arrange form.dimension⟩⟩

/-- A measure that is only written down. -/
def written (factor : α) (terms : List (Term α)) : Measure α :=
  ⟨factor, terms, none⟩

/-- A pure number. -/
def scalar (factor : α) : Measure α :=
  ⟨factor, [], some ⟨factor, []⟩⟩

/-- The number one: no unit at all. -/
def dimensionless : Measure α := scalar 1

/-- The exponents of base units, if the base form is there. -/
def dimension? (m : Measure α) : Option Dimension :=
  m.baseForm.map (·.dimension)

-- =============================================================== showing

/-- Terms one after the other, a dot in front of each but the first. -/
def rowText : List (Term α) → List Char
  | [] => []
  | t :: terms => t.text ++ terms.flatMap fun u => '.' :: u.text

/-- A dot stands between each two terms and nowhere else. -/
theorem rowText_eq_intercalate (terms : List (Term α)) :
    rowText terms = ['.'].intercalate (terms.map Term.text) := by
  cases terms with
  | nil => rfl
  | cons t terms =>
    induction terms generalizing t with
    | nil => simp [rowText, List.intercalate]
    | cons u terms ih =>
      have hrest := ih u
      rw [rowText, List.map_cons] at hrest
      rw [List.map_cons, List.map_cons, List.intercalate_cons_cons,
        ← hrest, rowText, List.flatMap_cons]
      simp

/-- The written form, in the dotted grammar. -/
def text (m : Measure α) : String :=
  let row := rowText m.terms
  String.ofList
    (if Scalar.isOne m.factor then row
      else if m.terms.isEmpty then Scalar.text m.factor
      else Scalar.text m.factor ++ ' ' :: row)

-- =============================================================== algebra

/-- The base form, which the operation at hand cannot do without. -/
def requireBase (m : Measure α) : Except Fault (BaseForm α) :=
  match m.baseForm with
  | some form => .ok form
  | none => .error (.breach (.unreduced m.text))

/-- A row of terms with one more term merged into it: into the first
term that differs in its exponent alone, or else at the end. -/
def mergeTerm? (t : Term α) : List (Term α) → Option (List (Term α))
  | [] => some [t]
  | u :: terms =>
    if u.sameBase t then
      (u.exponent.add? t.exponent).map fun e =>
        { u with exponent := e } :: terms
    else
      (mergeTerm? t terms).map (u :: ·)

/-- A row of terms merged from left to right, without the terms whose
exponent has come to zero. -/
def mergeTerms? (terms : List (Term α)) : Option (List (Term α)) := do
  let merged ← terms.foldlM (fun merged t => mergeTerm? t merged) []
  return merged.filter (·.exponent ≠ 0)

/-- The sum of two dimensions, the left one counted first. -/
def sumDimensions? (d e : Dimension) : Option Dimension := do
  let sum ← Dimension.addScaled? [] 1 d
  Dimension.addScaled? sum 1 e

/-- The product of two measures. -/
def mul (m n : Measure α) : Except Fault (Measure α) := do
  let left ← m.requireBase
  let right ← n.requireBase
  match sumDimensions? left.dimension right.dimension,
      mergeTerms? (m.terms ++ n.terms) with
  | some dimension, some terms =>
    return ⟨m.factor * n.factor, terms,
      some ⟨left.factor * right.factor, dimension⟩⟩
  | _, _ => throw (.breach (.productOverflow m.text n.text))

/-- The base form turned over; `unit` is what to call it in a fault. -/
def invertForm (unit : String) (form : BaseForm α) :
    Except Fault (BaseForm α) := do
  let factor ← Scalar.inverse form.factor
  match form.dimension.neg? with
  | some dimension => return ⟨factor, dimension⟩
  | none => throw (.breach (.inverseOverflow unit))

/-- The reciprocal: both factors inverted, every exponent negated. -/
def inverse (m : Measure α) : Except Fault (Measure α) := do
  let form ← m.baseForm.mapM (invertForm m.text)
  let factor ← Scalar.inverse m.factor
  match m.terms.mapM Term.inverse? with
  | some terms => return ⟨factor, terms, form⟩
  | none => throw (.breach (.inverseOverflow m.text))

/-- The quotient: the product with the reciprocal. -/
def div (m n : Measure α) : Except Fault (Measure α) := do
  m.mul (← n.inverse)

-- ============================================== conversion and comparison

/-- The conversion from one measure into another. Equal dimensions
convert directly; dimensions that are each other's negation convert
inverted; no others convert. -/
def convertInto (m n : Measure) : Except Fault Conversion := do
  let source ← m.requireBase
  let target ← n.requireBase
  match source.dimension.likeness? true true target.dimension with
  | some .same =>
    Conversion.ofFactor (← source.factor.div target.factor) false
  | some .opposite =>
    Conversion.ofFactor (source.factor.mul target.factor) true
  | none => throw (.incompatible m.text n.text)

/-- The conversion into a peer. Into itself a measure converts without
being looked at. -/
def convertTo (m : Measure) : Peer Measure → Except Fault Conversion
  | .itself => .ok .identity
  | .another n => m.convertInto n

/-- Whether two measures have the same dimension, and factors that
agree within a tolerance. -/
def equalWithin (tolerance : Float) (m n : Measure) :
    Except Fault Bool := do
  let left ← m.requireBase
  let right ← n.requireBase
  return left.dimension = right.dimension
    && left.factor.equalWithin tolerance right.factor

end Measure

end UnitAlgebra
