/-
Measures seen through their exponents. A measure spans `x` when it has
a base form whose dimension is canonical and gives every base unit the
exponent that `x` gives it.

# Why functions and not lists

The numbers in `x` are integers without a range: products add them
(`Measure.Spans.mul`), reciprocals negate them (`Measure.Spans.inverse`)
and quotients subtract them, exactly, whenever the operation succeeds.
So what a measure spans can be computed apart from the lists that the
operations build, and the laws of addition hold of it as they stand.

Nothing is lost on the way back. A canonical list is decided by its
exponents (`Dimension.Spells.unique`), so measures that span the same
exponents have the same list (`Measure.Spans.dimension_eq`).

Whether an operation succeeds is another question, which depends on the
lists and on the terms; here it is a hypothesis throughout.
-/
import Mathlib.Algebra.Group.Pi.Basic
import Mathlib.Algebra.Ring.Int.Defs
import UnitAlgebra.Dimension.Canonical
import UnitAlgebra.Proofs.Algebra

namespace UnitAlgebra

-- ========================================================== dimensions

/-- A canonical dimension with the exponents `x`. -/
structure Dimension.Spells (d : Dimension) (x : String → Int) : Prop where
  canonical : d.Canonical
  exponentOf : ∀ base, d.exponentOf base = x base

namespace Dimension

variable {d e result : Dimension} {x y : String → Int}

/-- A canonical dimension spells its own exponents. -/
theorem Canonical.spells (h : d.Canonical) :
    d.Spells fun base => d.exponentOf base := ⟨h, fun _ => rfl⟩

/-- No powers at all spell zeros. -/
theorem spells_nil : Spells [] 0 := ⟨canonical_nil, fun _ => rfl⟩

/-- Exponents are spelled in one way only. -/
theorem Spells.unique (hd : d.Spells x) (he : e.Spells x) : d = e :=
  hd.canonical.eq_of_exponentOf he.canonical fun base => by
    rw [hd.exponentOf, he.exponentOf]

/-- Exponents that are spelled are in range. -/
theorem Spells.inRange (hd : d.Spells x) (base : String) :
    Exponent.InRange (x base) :=
  hd.exponentOf base ▸ inRange_exponentOf base d

/-- Two dimensions are put together by adding both to the empty one, so
the sum is that of two additions. -/
theorem Spells.sum (hd : d.Spells x) (he : e.Spells y)
    (h : Measure.sumDimensions? d e = some result) :
    result.Spells (x + y) := by
  obtain ⟨copy, hcopy, h⟩ := Option.bind_eq_some_iff.1 h
  have hcanonical := canonical_addScaled? canonical_nil hcopy
  refine ⟨canonical_addScaled? hcanonical h, fun base => ?_⟩
  rw [exponentOf_addScaled? hcanonical he.canonical h,
    exponentOf_addScaled? canonical_nil hd.canonical hcopy,
    spells_nil.exponentOf, hd.exponentOf, he.exponentOf,
    Exponent.val_one, Int.mul_one, Int.mul_one]
  show 0 + x base + y base = x base + y base
  rw [Int.zero_add]

/-- Negating every power negates every exponent, and keeps the order. -/
theorem Spells.neg (hd : d.Spells x) (h : d.neg? = some result) :
    result.Spells (-x) := by
  refine ⟨canonical_neg? hd.canonical h, fun base => ?_⟩
  rw [exponentOf_neg? h, hd.exponentOf]
  rfl

end Dimension

-- ============================================================ measures

namespace Measure

variable {α : Type} {x y : String → Int}

/-- The base form is there, with the exponents `x`. -/
def Spans (m : Measure α) (x : String → Int) : Prop :=
  ∃ form, m.baseForm = some form ∧ form.dimension.Spells x

/-- There is one base form, so whatever it is known by. -/
theorem Spans.spells {m : Measure α} {form : BaseForm α}
    (h : m.Spans x) (hform : m.baseForm = some form) :
    form.dimension.Spells x := by
  obtain ⟨other, hother, hspells⟩ := h
  rw [hform] at hother
  cases hother
  exact hspells

/-- What a measure spans can be stored. -/
theorem Spans.inRange {m : Measure α} (h : m.Spans x) (base : String) :
    Exponent.InRange (x base) := by
  obtain ⟨form, -, hspells⟩ := h
  exact hspells.inRange base

/-- Measures that span the same exponents have one dimension. -/
theorem Spans.dimension_eq {β : Type} {m : Measure α} {n : Measure β}
    (hm : m.Spans x) (hn : n.Spans x) :
    ∃ d, m.dimension? = some d ∧ n.dimension? = some d := by
  obtain ⟨form, hform, hx⟩ := hm
  obtain ⟨form', hform', hx'⟩ := hn
  unfold dimension?
  rw [hform, hform']
  exact ⟨_, rfl, congrArg some (hx'.unique hx)⟩

/-- A number has no dimension. -/
theorem spans_scalar (factor : α) : (scalar factor).Spans 0 :=
  ⟨_, rfl, Dimension.spells_nil⟩

/-- Putting a list that is canonical already into canonical form
changes nothing. -/
theorem spans_ofForms {factor : α} {terms : List (Term α)}
    {form : BaseForm α} (hform : form.dimension.Spells x)
    {result : Measure α} (h : ofForms factor terms form = .ok result) :
    result.Spans x := by
  obtain ⟨-, rfl⟩ := ofForms_eq_ok_iff.1 h
  refine ⟨_, rfl, ?_⟩
  show (Dimension.arrange form.dimension).Spells x
  rw [Dimension.arrange_eq_self hform.canonical]
  exact hform

variable [Scalar α] {m n result : Measure α}

/-- A product adds exponents. -/
theorem Spans.mul (hm : m.Spans x) (hn : n.Spans y)
    (h : m.mul n = .ok result) : result.Spans (x + y) := by
  obtain ⟨left, hleft, h⟩ := bind_eq_ok_iff.1 h
  obtain ⟨right, hright, h⟩ := bind_eq_ok_iff.1 h
  split at h
  · next dimension terms hsum _ =>
    cases h
    exact ⟨_, rfl, (hm.spells (requireBase_eq_ok_iff.1 hleft)).sum
      (hn.spells (requireBase_eq_ok_iff.1 hright)) hsum⟩
  · cases h

/-- A reciprocal negates exponents. -/
theorem Spans.inverse (hm : m.Spans x) (h : m.inverse = .ok result) :
    result.Spans (-x) := by
  obtain ⟨form, hform, hspells⟩ := hm
  obtain ⟨turned, hturned, h⟩ := bind_eq_ok_iff.1 h
  rw [hform, Option.mapM_some] at hturned
  obtain ⟨inverted, hinverted, hsome⟩ := bind_eq_ok_iff.1 hturned
  obtain ⟨factor, -, hinverted⟩ := bind_eq_ok_iff.1 hinverted
  obtain ⟨factor', -, h⟩ := bind_eq_ok_iff.1 h
  cases hsome
  split at hinverted
  · next dimension hneg =>
    split at h
    · cases h
      cases hinverted
      exact ⟨_, rfl, hspells.neg hneg⟩
    · cases h
  · cases hinverted

/-- A quotient subtracts exponents. -/
theorem Spans.div (hm : m.Spans x) (hn : n.Spans y)
    (h : m.div n = .ok result) : result.Spans (x - y) := by
  obtain ⟨turned, hturned, h⟩ := div_eq_ok h
  rw [sub_eq_add_neg]
  exact hm.mul (hn.inverse hturned) h

end Measure

end UnitAlgebra
