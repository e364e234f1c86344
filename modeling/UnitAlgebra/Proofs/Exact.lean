/-
Exact numbers, and what reducing comes to over them.

Over the rational numbers the rules for units lose nothing to rounding,
so a factor can be taken apart again. They are the same rules, written
once over any numbers that give what a factor is asked for (`Scalar`),
and here they are read over a field.

The factor of a row of terms is the product of two things
(`factor_of_reduce`):

- the product of its coefficients, each to the sign of its exponent
  (`coefficients`);
- the product of its units, each to the exponent (`units`).

These behave differently when terms are merged. Units are powers, and
the exponents add up; coefficients take only a sign. To keep the two
apart is what the comparison of written and reduced forms rests on.

No unit of a catalog is worth nothing (`Worthy`): ratios are not zero,
and neither is a product of powers of numbers other than zero. That goes
along the list of settled entries, from the bases upwards
(`Settled.factor_ne_zero`), one target at a time (`Times.factor_eq`).
-/
import Mathlib.Algebra.BigOperators.Ring.List
import Mathlib.Algebra.Field.Rat
import Mathlib.Algebra.GroupWithZero.Units.Lemmas
import Mathlib.Tactic.Ring
import UnitAlgebra.Proofs.Reduction

namespace UnitAlgebra

-- ======================================================= exact numbers

namespace Exact

/-- The exact power. Zero has no negative power. -/
def pow (x : ℚ) (n : Exponent) : Except Fault ℚ :=
  if x = 0 ∧ n.val < 0 then .error .divisionByZero else .ok (x ^ n.val)

/-- The exact reciprocal. -/
def inverse (x : ℚ) : Except Fault ℚ :=
  if x = 0 then .error .divisionByZero else .ok x⁻¹

theorem fault_pow {x : ℚ} {n : Exponent} {fault : Fault}
    (h : pow x n = .error fault) : fault = .divisionByZero := by
  unfold pow at h
  split at h
  · cases h
    rfl
  · cases h

theorem fault_inverse {x : ℚ} {fault : Fault}
    (h : inverse x = .error fault) : fault = .divisionByZero := by
  unfold inverse at h
  split at h
  · cases h
    rfl
  · cases h

end Exact

instance : Scalar ℚ where
  isZero x := x == 0
  isOne x := x == 1
  inverse := Exact.inverse
  pow := Exact.pow
  tenTo n := 10 ^ n.val
  text x := (toString x).toList
  fault_inverse := Exact.fault_inverse
  fault_pow := Exact.fault_pow

namespace Exact

/-- A power that is there is the power of the field. -/
theorem eq_of_pow {x y : ℚ} {n : Exponent} (h : Scalar.pow x n = .ok y) :
    y = x ^ n.val := by
  change pow x n = .ok y at h
  unfold pow at h
  split at h
  · cases h
  · exact (Except.ok.inj h).symm

/-- A reciprocal that is there is the reciprocal of the field. -/
theorem eq_of_inverse {x y : ℚ} (h : Scalar.inverse x = .ok y) :
    y = x⁻¹ := by
  change inverse x = .ok y at h
  unfold inverse at h
  split at h
  · cases h
  · exact (Except.ok.inj h).symm

/-- A prefix is worth something. -/
theorem factor_ne_zero (p : SIPrefix) : (p.factor : ℚ) ≠ 0 :=
  zpow_ne_zero _ (by decide)

end Exact

-- ============================================================ one step

/-- What one of a unit is worth: nothing but itself for a base unit,
the factor of its entry for a derived unit. -/
def Catalog.Entries.worth (known : Catalog.Entries ℚ)
    (base : List String) (name : String) : ℚ :=
  if name ∈ base then 1 else (known.valuation base).factor name

namespace Catalog.Entries

variable {known : Catalog.Entries ℚ} {base : List String}

/-- What a name is worth is not zero: a base unit is worth one, an entry
what its factor says. -/
theorem worth_ne_zero
    (h : ∀ name form, known.lookup name = some form → form.factor ≠ 0)
    (name : String) : known.worth base name ≠ 0 := by
  unfold worth
  split
  · exact one_ne_zero
  · show ((known.lookup name).map (·.factor)).getD 1 ≠ 0
    cases hform : known.lookup name with
    | none => exact one_ne_zero
    | some form => exact h name form hform

end Catalog.Entries

/-- A target multiplies the factor by what it is worth. -/
theorem Times.factor_eq {base : List String}
    {known : Catalog.Entries ℚ} {form product : BaseForm ℚ} {t : Target}
    (h : Times base known form t product) :
    product.factor = form.factor
      * (t.scale.factor * known.worth base t.name) ^ t.exponent.val := by
  cases h with
  | base hbase hpower _ =>
    rw [Exact.eq_of_pow hpower, Catalog.Entries.worth, if_pos hbase,
      mul_one]
  | derived hbase hinner hpower hinnerPower _ =>
    rw [Exact.eq_of_pow hpower, Exact.eq_of_pow hinnerPower,
      Catalog.Entries.worth, if_neg hbase,
      (known.matches_valuation base).factor _ _ hinner, mul_zpow]
    ring

-- ============================================================= entries

/-- A product is not zero when nothing in it is. -/
theorem Gathers.factor_ne_zero {base : List String}
    {known : Catalog.Entries ℚ} {ratio : ℚ} {targets : List Target}
    {form : BaseForm ℚ} (h : Gathers base known ratio targets form)
    (hratio : ratio ≠ 0)
    (hknown : ∀ name inner, known.lookup name = some inner →
      inner.factor ≠ 0) : form.factor ≠ 0 := by
  induction h with
  | start => exact hratio
  | @step _ _ _ t _ ht ih =>
    rw [ht.factor_eq]
    exact mul_ne_zero ih (zpow_ne_zero _ (mul_ne_zero
      (Exact.factor_ne_zero t.scale)
      (Catalog.Entries.worth_ne_zero hknown t.name)))

/-- No entry has the factor zero where no ratio is zero. -/
theorem Settled.factor_ne_zero {definitions : Definitions ℚ}
    {base : List String} {known : Catalog.Entries ℚ}
    (h : Settled definitions base known)
    (hratio : ∀ d ∈ definitions, d.2.ratio ≠ 0) :
    ∀ name form, known.lookup name = some form → form.factor ≠ 0 := by
  induction h with
  | nil => exact fun name form h => nomatch h
  | cons _ _ hdefinition hform ih =>
    intro other inner hother
    rcases Catalog.Entries.eq_or_lookup_of_lookup_cons hother with
      ⟨-, rfl⟩ | hother
    · exact hform.factor_ne_zero (hratio _ hdefinition) ih
    · exact ih other inner hother

-- ======================================================= rows of terms

/-- The product of the coefficients of a row of terms, each to the sign
of its exponent. -/
def coefficients (terms : List (Term ℚ)) : ℚ :=
  (terms.map fun t => t.coefficient ^ t.exponent.val.sign).prod

/-- Ones multiply to one. -/
theorem coefficients_eq_one {terms : List (Term ℚ)}
    (h : ∀ t ∈ terms, t.coefficient = 1) : coefficients terms = 1 := by
  refine List.prod_eq_one fun x hx => ?_
  obtain ⟨t, ht, rfl⟩ := List.mem_map.1 hx
  rw [h t ht, one_zpow]

namespace Catalog

/-- What one of a unit of the catalog is worth. -/
def worth (c : Catalog ℚ) (symbol : String) : ℚ :=
  c.entries.worth c.base symbol

/-- What a prefixed unit to a power is worth. -/
def unit (c : Catalog ℚ) (t : Term ℚ) : ℚ :=
  (t.scale.factor * c.worth t.symbol) ^ t.exponent.val

/-- The product of the units of a row of terms. -/
def units (c : Catalog ℚ) (terms : List (Term ℚ)) : ℚ :=
  (terms.map c.unit).prod

/-- Every unit is worth something. -/
structure Worthy (c : Catalog ℚ) : Prop where
  worth_ne_zero : ∀ symbol, c.worth symbol ≠ 0

/-- A catalog that can be built is worthy, since building refuses a
ratio of zero. -/
theorem Worthy.of_build {definitions : Definitions ℚ}
    {base : List String} {c : Catalog ℚ}
    (h : Catalog.build definitions base = .ok c) : c.Worthy := by
  have hbuilt := Built.of_build h
  refine ⟨Entries.worth_ne_zero (hbuilt.settled.factor_ne_zero ?_)⟩
  intro d hd hzero
  have hratio := hbuilt.checked.ratio d hd
  change (d.2.ratio == 0) = false at hratio
  rw [hzero] at hratio
  cases hratio

theorem Worthy.base_ne_zero {c : Catalog ℚ} (h : c.Worthy)
    (t : Term ℚ) : (t.scale.factor * c.worth t.symbol : ℚ) ≠ 0 :=
  mul_ne_zero (Exact.factor_ne_zero t.scale) (h.worth_ne_zero t.symbol)

/-- No row of units is worth nothing, so it can be cancelled on both
sides of an equation. -/
theorem Worthy.units_ne_zero {c : Catalog ℚ} (h : c.Worthy)
    (terms : List (Term ℚ)) : c.units terms ≠ 0 := by
  refine List.prod_ne_zero fun hzero => ?_
  obtain ⟨t, -, ht⟩ := List.mem_map.1 hzero
  exact zpow_ne_zero _ (h.base_ne_zero t) ht

/-- Rows one behind the other multiply their units. -/
theorem units_append (c : Catalog ℚ) (terms terms' : List (Term ℚ)) :
    c.units (terms ++ terms') = c.units terms * c.units terms' := by
  unfold units
  rw [List.map_append, List.prod_append]

/-- The factor of a row of terms is that of its coefficients times that
of its units. -/
theorem factor_of_reduce {c : Catalog ℚ} {terms : List (Term ℚ)}
    {form : BaseForm ℚ} (h : c.reduce terms = .ok form) :
    form.factor = coefficients terms * c.units terms := by
  have hends : Ends
      (fun form : BaseForm ℚ =>
        form.factor = coefficients terms * c.units terms)
      (fun _ => True) (c.reduce terms) := by
    unfold reduce
    refine Ends.foldlM
      (fun done (form : BaseForm ℚ) =>
        form.factor = coefficients done * c.units done)
      (one_mul (1 : ℚ)).symm ?_
    intro done t form _ hform
    have hends := (c.reduceTerm_ends form t).mono_bad fun _ _ => trivial
    refine hends.mono ?_
    intro product hproduct
    obtain ⟨-, coefficient, hcoefficient, htimes⟩ := hproduct
    have hunit : c.units (done ++ [t]) = c.units done * c.unit t := by
      rw [units_append]
      simp [units]
    have hcoefficients : coefficients (done ++ [t])
        = coefficients done * t.coefficient ^ t.exponent.val.sign := by
      simp [coefficients]
    rw [htimes.factor_eq, Exact.eq_of_pow hcoefficient,
      Exponent.val_signum, hunit, hcoefficients]
    show form.factor * _ * c.unit t = _
    rw [hform]
    ring
  exact hends.of_ok h

end Catalog

end UnitAlgebra
