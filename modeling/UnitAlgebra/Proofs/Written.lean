/-
The two forms of a measure, over exact numbers: when the written form,
reduced once more, comes to the base form that the measure has.

# The invariant

A measure that was put together from rows of terms has a base form that
is worth its factor, times the coefficients that were read, times the
units of the terms as they now stand (`Measure.Carries`). Multiplying,
dividing and inverting keep it so, because merging terms adds exponents
and units are powers (`Catalog.Worthy.powers`). By induction on the
recipe it holds of whatever is made (`Recipe.carries`).

# Agreement

Coefficients are no powers: they take only the sign of the exponent, so
merging may lose or gain one. Reducing the written form meets the
coefficients of the merged terms, and nothing but these can make the two
forms differ. Hence the exact condition for agreement: the coefficients
that are met have the product of those that were read, or the measure is
nothing at all (`written_agrees_iff`). Two metres times two metres do
not meet it.

# Where agreement is certain

The condition speaks of the merged terms, which are only known once
everything is computed. A condition on what is read is coarser and can
be seen beforehand: where no symbol has a number in front of it, the two
forms agree (`written_agrees_of_reads_one`), since the merged terms have
no other coefficients than those that were read.
-/
import UnitAlgebra.Proofs.Exact
import UnitAlgebra.Proofs.Merging

namespace UnitAlgebra

-- ============================================================== units

namespace Catalog

variable {c : Catalog ℚ}

/-- Units are powers: merging adds their exponents. -/
theorem Worthy.powers (h : c.Worthy) : Term.Powers c.unit where
  merge := by
    intro t u e hsame he
    simp only [Term.sameBase, Bool.and_eq_true, decide_eq_true_iff] at hsame
    obtain ⟨⟨hsymbol, hscale⟩, -⟩ := hsame
    unfold unit
    rw [← hsymbol, ← hscale, Exponent.add?_eq_some_iff.1 he,
      zpow_add₀ (h.base_ne_zero u)]
  zero := by
    intro t hzero
    unfold unit
    rw [hzero, Exponent.val_zero, zpow_zero]
  neg := by
    intro t e he
    unfold unit
    rw [Exponent.neg?_eq_some_iff.1 he, zpow_neg]

end Catalog

-- ======================================================= the invariant

namespace Measure

/-- The base form is worth the factor, times the coefficients `x`,
times the units of the terms. -/
def Carries (c : Catalog ℚ) (x : ℚ) (m : Measure ℚ) : Prop :=
  ∃ form, m.baseForm = some form
    ∧ form.factor = m.factor * x * c.units m.terms

variable {c : Catalog ℚ} {x y : ℚ} {m n result : Measure ℚ}

/-- A number has no terms, and its base form is the number. -/
theorem carries_scalar (c : Catalog ℚ) (factor : ℚ) :
    (scalar factor).Carries c 1 := by
  refine ⟨_, rfl, ?_⟩
  show factor = factor * 1 * c.units []
  rw [mul_one]
  exact (mul_one factor).symm

/-- A row of terms carries its own coefficients, each to the power that
reducing takes. -/
theorem carries_measure {terms : List (Term ℚ)}
    (h : c.measure terms = .ok result) :
    result.Carries c (coefficients terms) := by
  obtain ⟨form, hform, h⟩ := bind_eq_ok_iff.1 h
  obtain ⟨-, rfl⟩ := ofForms_eq_ok_iff.1 h
  refine ⟨_, rfl, ?_⟩
  show form.factor = 1 * coefficients terms * c.units terms
  rw [Catalog.factor_of_reduce hform, one_mul]

/-- A product carries the coefficients of both measures. -/
theorem Carries.mul (hc : c.Worthy) (hm : m.Carries c x)
    (hn : n.Carries c y) (h : m.mul n = .ok result) :
    result.Carries c (x * y) := by
  obtain ⟨left, right, dimension, hleft, hright, hfactor, hterms,
    hresult⟩ := mul_eq_ok h
  obtain ⟨form, hform, hm⟩ := hm
  obtain ⟨form', hform', hn⟩ := hn
  rw [hleft] at hform
  rw [hright] at hform'
  cases hform
  cases hform'
  refine ⟨_, hresult, ?_⟩
  have hunits : c.units result.terms
      = c.units m.terms * c.units n.terms := by
    rw [← Catalog.units_append]
    exact hc.powers.prod_mergeTerms? hterms
  show left.factor * right.factor = _
  rw [hm, hn, hfactor, hunits]
  ring

/-- A reciprocal carries the reciprocal of the coefficients. -/
theorem Carries.inverse (hc : c.Worthy) (hm : m.Carries c x)
    (h : m.inverse = .ok result) : result.Carries c x⁻¹ := by
  obtain ⟨form, hform, hm⟩ := hm
  obtain ⟨hfactor, hterms, hbase⟩ := inverse_eq_ok h
  obtain ⟨inverted, hinverted, heq⟩ := hbase form hform
  refine ⟨inverted, hinverted, ?_⟩
  have hunits : c.units result.terms = (c.units m.terms)⁻¹ :=
    hc.powers.prod_mapM_inverse? hterms
  rw [Exact.eq_of_inverse heq, Exact.eq_of_inverse hfactor, hunits, hm,
    mul_inv, mul_inv]

/-- A quotient carries the quotient of the coefficients. -/
theorem Carries.div (hc : c.Worthy) (hm : m.Carries c x)
    (hn : n.Carries c y) (h : m.div n = .ok result) :
    result.Carries c (x * y⁻¹) := by
  obtain ⟨turned, hturned, h⟩ := div_eq_ok h
  exact hm.mul hc (hn.inverse hc hturned) h

end Measure

namespace Recipe

/-- The product of the coefficients that a recipe reads. -/
def coefficients : Recipe ℚ → ℚ
  | number _ => 1
  | row terms => UnitAlgebra.coefficients terms
  | mul r s => r.coefficients * s.coefficients
  | div r s => r.coefficients * s.coefficients⁻¹
  | inverse r => r.coefficients⁻¹

/-- Whatever is made carries the coefficients that were read. -/
theorem carries {c : Catalog ℚ} (hc : c.Worthy) {r : Recipe ℚ}
    {m : Measure ℚ} (h : r.make c = .ok m) :
    m.Carries c r.coefficients := by
  refine make_induction (P := fun r m => m.Carries c r.coefficients)
    ?_ ?_ ?_ ?_ ?_ h
  · exact fun x => Measure.carries_scalar c x
  · exact fun h => Measure.carries_measure h
  · exact fun hm hn h => hm.mul hc hn h
  · exact fun hm hn h => hm.div hc hn h
  · exact fun hm h => hm.inverse hc h

/-- Ones multiply to one. -/
theorem coefficients_eq_one {r : Recipe ℚ} (hr : r.Reads (· = 1)) :
    r.coefficients = 1 := by
  induction r with
  | number x => rfl
  | row terms => exact UnitAlgebra.coefficients_eq_one hr
  | mul r s ihr ihs => rw [coefficients, ihr hr.1, ihs hr.2, one_mul]
  | div r s ihr ihs =>
    rw [coefficients, ihr hr.1, ihs hr.2, inv_one, one_mul]
  | inverse r ih => rw [coefficients, ih hr, inv_one]

end Recipe

-- =========================================================== agreement

/-- The factors that a measure and its written form come to. -/
theorem factors_of_written {c : Catalog ℚ} (hc : c.Worthy)
    {r : Recipe ℚ} {m reduced : Measure ℚ} (hm : r.make c = .ok m)
    (hreduced : c.complete (.written m.factor m.terms) = .ok reduced) :
    ∃ form again, m.baseForm = some form
      ∧ reduced.baseForm = some again
      ∧ form.factor = m.factor * r.coefficients * c.units m.terms
      ∧ again.factor
          = m.factor * coefficients m.terms * c.units m.terms := by
  obtain ⟨form, hform, hfactor⟩ := r.carries hc hm
  unfold Catalog.complete at hreduced
  rw [if_neg (by simp [Measure.written])] at hreduced
  obtain ⟨raw, hraw, hreduced⟩ := bind_eq_ok_iff.1 hreduced
  obtain ⟨-, rfl⟩ := Measure.ofForms_eq_ok_iff.1 hreduced
  refine ⟨form, _, hform, rfl, hfactor, ?_⟩
  show raw.factor * m.factor = _
  rw [Catalog.factor_of_reduce hraw]
  show coefficients m.terms * c.units m.terms * m.factor = _
  ring

/-- A measure has a base form, the written form reduces to one, and the
two have the same factor exactly when the measure's own factor is zero
or merging has kept the product of the coefficients. -/
theorem written_agrees_iff {definitions : Definitions ℚ}
    {base : List String} {c : Catalog ℚ}
    (hc : Catalog.build definitions base = .ok c) {r : Recipe ℚ}
    {m reduced : Measure ℚ} (hm : r.make c = .ok m)
    (hreduced : c.complete (.written m.factor m.terms) = .ok reduced) :
    ∃ form again, m.baseForm = some form
      ∧ reduced.baseForm = some again
      ∧ (again.factor = form.factor ↔
          m.factor = 0 ∨ coefficients m.terms = r.coefficients) := by
  have hworthy := Catalog.Worthy.of_build hc
  obtain ⟨form, again, hform, hagain, hfactor, hfactor'⟩ :=
    factors_of_written hworthy hm hreduced
  refine ⟨form, again, hform, hagain, ?_⟩
  rw [hfactor, hfactor']
  constructor
  · intro heq
    have hkept := mul_right_cancel₀ (hworthy.units_ne_zero m.terms) heq
    by_cases hzero : m.factor = 0
    · exact .inl hzero
    · exact .inr (mul_left_cancel₀ hzero hkept)
  · intro hcases
    rcases hcases with hzero | hkept
    · rw [hzero]
      simp only [zero_mul]
    · rw [hkept]

/-- Where no symbol has a number in front of it, the two forms agree,
however the measure was put together. This is the case that users of a
catalog may rely on: to write a measure down and to read it again keeps
what it is worth. -/
theorem written_agrees_of_reads_one {definitions : Definitions ℚ}
    {base : List String} {c : Catalog ℚ}
    (hc : Catalog.build definitions base = .ok c) {r : Recipe ℚ}
    (hr : r.Reads (· = 1)) {m reduced : Measure ℚ}
    (hm : r.make c = .ok m)
    (hreduced : c.complete (.written m.factor m.terms) = .ok reduced) :
    ∃ form again, m.baseForm = some form
      ∧ reduced.baseForm = some again ∧ again.factor = form.factor := by
  obtain ⟨form, again, hform, hagain, hfactor, hfactor'⟩ :=
    factors_of_written (.of_build hc) hm hreduced
  refine ⟨form, again, hform, hagain, ?_⟩
  rw [hfactor, hfactor', Recipe.coefficients_eq_one hr,
    coefficients_eq_one (Recipe.coefficient_of_make hm hr)]

/-- Two metres times two metres are worth four and written as `2 m2`,
which is worth two: merging has lost a coefficient. -/
theorem written_agrees_iff_two_metres :
    ∃ (c : Catalog ℚ) (m reduced : Measure ℚ),
      Catalog.build [] ["m"] = .ok c
        ∧ Recipe.make c (.mul (.row [⟨2, .plain, "m", 1⟩])
            (.row [⟨2, .plain, "m", 1⟩])) = .ok m
        ∧ c.complete (.written m.factor m.terms) = .ok reduced
        ∧ m.factor ≠ 0 ∧ coefficients m.terms ≠ 2 * 2 := by
  have hrun : (do
      let c ← Catalog.build ([] : Definitions ℚ) ["m"]
      let m ← Recipe.make c (.mul (.row [⟨2, .plain, "m", 1⟩])
        (.row [⟨2, .plain, "m", 1⟩]))
      let reduced ← c.complete (.written m.factor m.terms)
      return m.baseForm.map (·.factor) = some 4
        && reduced.baseForm.map (·.factor) = some 2
      : Except Fault Bool).toOption = some true := by
    decide +kernel
  obtain ⟨c, hc, hrun⟩ := bind_eq_ok_iff.1 (eq_ok_of_toOption hrun)
  obtain ⟨m, hm, hrun⟩ := bind_eq_ok_iff.1 hrun
  obtain ⟨reduced, hreduced, hrun⟩ := bind_eq_ok_iff.1 hrun
  obtain ⟨form, again, hform, hagain, hiff⟩ :=
    written_agrees_iff hc hm hreduced
  have hvalues := Except.ok.inj hrun
  rw [hform, hagain] at hvalues
  simp only [Option.map_some, Option.some.injEq, Bool.and_eq_true,
    decide_eq_true_iff] at hvalues
  obtain ⟨hfour, htwo⟩ := hvalues
  have hread : Recipe.coefficients (.mul (.row [⟨2, .plain, "m", 1⟩])
      (.row [⟨2, .plain, "m", 1⟩])) = 2 * 2 := by
    simp [Recipe.coefficients, coefficients]
  rw [hfour, htwo, hread] at hiff
  have hdiffer : ¬ ((2 : ℚ) = 4) := by decide
  obtain ⟨hfactor, hlost⟩ := not_or.1 (mt hiff.2 hdiffer)
  exact ⟨c, m, reduced, hc, hm, hreduced, hfactor, hlost⟩

/-- Read from a text, in the arithmetic that runs: two metres times two
metres are worth four, and the written form reduces to two. -/
theorem two_metres_squared_differ :
    ∃ reader catalog m product reduced,
      Reader.ofDotted ["m"] [] = .ok reader
        ∧ Catalog.build [] ["m"] = .ok catalog
        ∧ UnitSystem.read ⟨reader, catalog⟩ "2 m" = .ok m
        ∧ m.mul m = .ok product
        ∧ UnitSystem.reduce ⟨reader, catalog⟩
            (.written product.factor product.terms) = .ok reduced
        ∧ (product.baseForm.map (·.factor) == some (.ofFloat 4.0)) = true
        ∧ (reduced.baseForm.map (·.factor) == some (.ofFloat 2.0))
            = true := by
  have hrun : (do
      let reader ← Reader.ofDotted ["m"] []
      let catalog ← Catalog.build [] ["m"]
      let m ← UnitSystem.read ⟨reader, catalog⟩ "2 m"
      let product ← m.mul m
      let reduced ← UnitSystem.reduce ⟨reader, catalog⟩
        (.written product.factor product.terms)
      return (product.baseForm.map (·.factor) == some (.ofFloat 4.0))
        && (reduced.baseForm.map (·.factor) == some (.ofFloat 2.0))
      : Except Fault Bool).toOption = some true := by
    decide +kernel
  obtain ⟨reader, hreader, hrun⟩ :=
    bind_eq_ok_iff.1 (eq_ok_of_toOption hrun)
  obtain ⟨catalog, hcatalog, hrun⟩ := bind_eq_ok_iff.1 hrun
  obtain ⟨m, hm, hrun⟩ := bind_eq_ok_iff.1 hrun
  obtain ⟨product, hproduct, hrun⟩ := bind_eq_ok_iff.1 hrun
  obtain ⟨reduced, hreduced, hrun⟩ := bind_eq_ok_iff.1 hrun
  obtain ⟨hfour, htwo⟩ := Bool.and_eq_true_iff.1 (Except.ok.inj hrun)
  exact ⟨reader, catalog, m, product, reduced, hreader, hcatalog, hm,
    hproduct, hreduced, hfour, htwo⟩

end UnitAlgebra
