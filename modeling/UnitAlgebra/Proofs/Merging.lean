/-
What merging a row of terms keeps. A value of terms behaves like a
power (`Term.Powers`) when

- terms that may be merged multiply their values as their exponents are
  added,
- a term with exponent zero is worth one, so that it may be dropped, and
- the opposite exponent turns the value over.

The product of such values over a row is the same before and after
merging (`prod_mergeTerms?`), and negating every exponent turns it over
(`prod_mapM_inverse?`). The induction over a row of terms is made here
and nowhere else.

Where the values live is left open. The numbers that units are worth
multiply, and the exponents of base units and the tallies of written
ones add; for these, sums are products of another kind
(`sum_mergeTerms?`).
-/
import Mathlib.Algebra.BigOperators.Group.Finset.Defs
import UnitAlgebra.Proofs.Algebra

namespace UnitAlgebra

variable {α M : Type} [Scalar α] [DivisionCommMonoid M]

/-- A value of terms that behaves like a power. -/
structure Term.Powers (value : Term α → M) : Prop where
  merge : ∀ {t u : Term α} {e : Exponent}, u.sameBase t = true →
    u.exponent.add? t.exponent = some e →
      value { u with exponent := e } = value u * value t
  zero : ∀ {t : Term α}, t.exponent = 0 → value t = 1
  neg : ∀ {t : Term α} {e : Exponent}, t.exponent.neg? = some e →
    value { t with exponent := e } = (value t)⁻¹

namespace Term.Powers

variable {value : Term α → M} {terms merged inverted : List (Term α)}

/-- One more term multiplies the product by its value: it is merged into
a term like it, where powers multiply, or put at the end. -/
theorem prod_mergeTerm? (h : Term.Powers value) {t : Term α}
    (hmerged : Measure.mergeTerm? t terms = some merged) :
    (merged.map value).prod = (terms.map value).prod * value t := by
  induction terms generalizing merged with
  | nil =>
    cases hmerged
    rw [List.map_singleton, List.prod_singleton, List.map_nil,
      List.prod_nil, one_mul]
  | cons u terms ih =>
    rw [Measure.mergeTerm?] at hmerged
    split at hmerged
    · next hsame =>
      obtain ⟨e, he, rfl⟩ := Option.map_eq_some_iff.1 hmerged
      rw [List.map_cons, List.map_cons, List.prod_cons, List.prod_cons,
        h.merge hsame he, mul_right_comm]
    · obtain ⟨rest, hrest, rfl⟩ := Option.map_eq_some_iff.1 hmerged
      rw [List.map_cons, List.map_cons, List.prod_cons, List.prod_cons,
        ih hrest, mul_assoc]

/-- Dropping terms whose exponent is zero drops ones. -/
theorem prod_filter (h : Term.Powers value) (terms : List (Term α)) :
    ((terms.filter (·.exponent ≠ 0)).map value).prod
      = (terms.map value).prod := by
  induction terms with
  | nil => rfl
  | cons t terms ih =>
    by_cases hzero : t.exponent = 0
    · rw [List.filter_cons_of_neg (by simp [hzero]), List.map_cons,
        List.prod_cons, ih, h.zero hzero, one_mul]
    · rw [List.filter_cons_of_pos (by simp [hzero]), List.map_cons,
        List.map_cons, List.prod_cons, List.prod_cons, ih]

/-- Merging changes how a row is written, and not what it is worth. -/
theorem prod_mergeTerms? (h : Term.Powers value)
    (hmerged : Measure.mergeTerms? terms = some merged) :
    (merged.map value).prod = (terms.map value).prod := by
  have hsnoc : ∀ done t row next,
      (row.map value).prod = (done.map value).prod →
      Measure.mergeTerm? t row = some next →
        (next.map value).prod = ((done ++ [t]).map value).prod := by
    intro done t row next hrow hnext
    rw [h.prod_mergeTerm? hnext, hrow, List.map_append, List.prod_append,
      List.map_singleton, List.prod_singleton]
  obtain ⟨row, hrow, rfl⟩ := Measure.exists_of_mergeTerms?
    (fun done row => (row.map value).prod = (done.map value).prod)
    hmerged rfl hsnoc
  rw [h.prod_filter, hrow]

/-- Negated exponents turn the product over. -/
theorem prod_mapM_inverse? (h : Term.Powers value)
    (hinverted : terms.mapM Term.inverse? = some inverted) :
    (inverted.map value).prod = ((terms.map value).prod)⁻¹ := by
  induction terms generalizing inverted with
  | nil =>
    cases hinverted
    exact inv_one.symm
  | cons t terms ih =>
    rw [List.mapM_cons] at hinverted
    obtain ⟨u, hu, hinverted⟩ := Option.bind_eq_some_iff.1 hinverted
    obtain ⟨rest, hrest, hcons⟩ := Option.bind_eq_some_iff.1 hinverted
    cases hcons
    obtain ⟨e, he, rfl⟩ := Option.map_eq_some_iff.1 hu
    rw [List.map_cons, List.map_cons, List.prod_cons, List.prod_cons,
      ih hrest, h.neg he, mul_inv]

-- ============================================================== sums

section

variable {A : Type} [SubtractionCommMonoid A] {value : Term α → A}

/-- Sums are products of another kind. All that holds of products is
handed on to sums through this. -/
theorem ofAdd_sum_map {β : Type} (value : β → A) (l : List β) :
    Multiplicative.ofAdd (l.map value).sum
      = (l.map fun b => Multiplicative.ofAdd (value b)).prod := by
  rw [ofAdd_list_prod, List.map_map]
  rfl

theorem sum_mergeTerm?
    (h : Term.Powers fun t => Multiplicative.ofAdd (value t)) {t : Term α}
    (hmerged : Measure.mergeTerm? t terms = some merged) :
    (merged.map value).sum = (terms.map value).sum + value t := by
  refine Multiplicative.ofAdd.injective ?_
  rw [ofAdd_add, ofAdd_sum_map, ofAdd_sum_map, h.prod_mergeTerm? hmerged]

/-- Merging keeps sums. Exponents of base units are summed up like this.
-/
theorem sum_mergeTerms?
    (h : Term.Powers fun t => Multiplicative.ofAdd (value t))
    (hmerged : Measure.mergeTerms? terms = some merged) :
    (merged.map value).sum = (terms.map value).sum := by
  refine Multiplicative.ofAdd.injective ?_
  rw [ofAdd_sum_map, ofAdd_sum_map, h.prod_mergeTerms? hmerged]

theorem sum_mapM_inverse?
    (h : Term.Powers fun t => Multiplicative.ofAdd (value t))
    (hinverted : terms.mapM Term.inverse? = some inverted) :
    (inverted.map value).sum = -(terms.map value).sum := by
  refine Multiplicative.ofAdd.injective ?_
  rw [ofAdd_neg, ofAdd_sum_map, ofAdd_sum_map,
    h.prod_mapM_inverse? hinverted]

end

end Term.Powers

end UnitAlgebra
