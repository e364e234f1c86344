/-
The two forms of a measure, as far as dimensions go. A row of terms has
a total: every term adds its exponent times the exponents of its unit,
on integers without a range (`Catalog.total`).

# The invariant

A measure spans the total of its own terms (`Measure.Balanced`). Reading
a row of terms establishes it, since reducing adds up the same numbers;
products keep it because merging keeps totals
(`Catalog.total_mergeTerms?`), reciprocals because negating every term
negates the total.

Merging drops terms whose exponents cancel and adds up exponents of
others, so the row after it is another one. What it keeps is the total
and nothing more, which is why the invariant speaks of totals.

# Reducing once more

Reducing the written form counts the same total again, so it finds the
dimension that the measure has, however often terms were merged, negated
or dropped on the way. Factors are another matter, and are left to
`UnitAlgebra.Proofs.Written`.
-/
import Mathlib.Algebra.BigOperators.Group.Finset.Defs
import UnitAlgebra.Proofs.Exponents
import UnitAlgebra.Proofs.Merging
import UnitAlgebra.Proofs.Reduction

namespace UnitAlgebra

variable {α : Type} [Scalar α]

-- ============================================================== totals

namespace Catalog

variable {c : Catalog α} {terms merged inverted : List (Term α)}

/-- The exponents of base units in a term. -/
def exponents (c : Catalog α) (t : Term α) : String → Int :=
  fun base => t.exponent.val * c.valuation.exponent t.symbol base

/-- The exponents of base units in a row of terms. -/
def total (c : Catalog α) (terms : List (Term α)) : String → Int :=
  (terms.map c.exponents).sum

/-- The total by the first term. -/
theorem total_cons (c : Catalog α) (t : Term α) (terms : List (Term α)) :
    c.total (t :: terms) = c.exponents t + c.total terms := by
  unfold total
  rw [List.map_cons, List.sum_cons]

/-- Totals of rows put together add up. With this a product has the
total of its two rows before they are merged. -/
theorem total_append (c : Catalog α) (terms terms' : List (Term α)) :
    c.total (terms ++ terms') = c.total terms + c.total terms' := by
  unfold total
  rw [List.map_append, List.sum_append]

/-- Exponents add where powers multiply. -/
theorem powers_exponents (c : Catalog α) :
    Term.Powers fun t => Multiplicative.ofAdd (c.exponents t) where
  merge := by
    intro t u e hsame he
    simp only [Term.sameBase, Bool.and_eq_true, decide_eq_true_iff]
      at hsame
    rw [← ofAdd_add]
    refine congrArg _ (funext fun base => ?_)
    show e.val * _ = u.exponent.val * _ + t.exponent.val * _
    rw [Exponent.add?_eq_some_iff.1 he, hsame.1.1, Int.add_mul]
  zero := by
    intro t hzero
    refine congrArg _ (funext fun base => ?_)
    show t.exponent.val * _ = 0
    rw [hzero, Exponent.val_zero, Int.zero_mul]
  neg := by
    intro t e he
    rw [← ofAdd_neg]
    refine congrArg _ (funext fun base => ?_)
    show e.val * _ = -(t.exponent.val * _)
    rw [Exponent.neg?_eq_some_iff.1 he, Int.neg_mul]

/-- Merging keeps totals. -/
theorem total_mergeTerms? (h : Measure.mergeTerms? terms = some merged) :
    c.total merged = c.total terms :=
  c.powers_exponents.sum_mergeTerms? h

/-- Negated exponents have the negated total. -/
theorem total_mapM_inverse? (h : terms.mapM Term.inverse? = some inverted) :
    c.total inverted = -c.total terms :=
  c.powers_exponents.sum_mapM_inverse? h

/-- The total of a row of terms is that of the row of targets that they
are reduced as. -/
theorem valuation_total (c : Catalog α) (terms : List (Term α))
    (base : String) :
    c.valuation.total (terms.map Term.target) base
      = c.total terms base := by
  induction terms with
  | nil => rfl
  | cons t terms ih =>
    rw [total_cons]
    exact congrArg (c.exponents t base + ·) ih

/-- What is no base unit of the catalog stands in no total. -/
theorem total_eq_zero (hentries : c.entries.WellFormed c.base)
    {base : String} (hbase : base ∉ c.base) (terms : List (Term α)) :
    c.total terms base = 0 := by
  induction terms with
  | nil => rfl
  | cons t terms ih =>
    have hunit : c.valuation.exponent t.symbol base = 0 :=
      (hentries.canonicalOver t.symbol).exponentOf_eq_zero hbase
    rw [total_cons]
    show t.exponent.val * c.valuation.exponent t.symbol base
      + c.total terms base = 0
    rw [hunit, ih, Int.mul_zero, Int.zero_add]

/-- Reducing a row of terms spells its total. -/
theorem spells_reduce (hentries : c.entries.WellFormed c.base)
    {form : BaseForm α} (h : c.reduce terms = .ok form) :
    form.dimension.Spells (c.total terms) := by
  have hreduced := (reduce_ends hentries terms).of_ok h
  refine ⟨hreduced.canonicalOver.1, fun base => ?_⟩
  by_cases hbase : base ∈ c.base
  · rw [hreduced.exponentOf base hbase, valuation_total]
  · rw [hreduced.canonicalOver.exponentOf_eq_zero hbase,
      total_eq_zero hentries hbase]

end Catalog

-- ======================================================= the invariant

namespace Measure

/-- The measure spans the total of its own terms. -/
def Balanced (c : Catalog α) (m : Measure α) : Prop :=
  m.Spans (c.total m.terms)

variable {c : Catalog α} {m n result : Measure α}

/-- Reading establishes the invariant: reducing counts the totals of the
terms. -/
theorem balanced_measure (hentries : c.entries.WellFormed c.base)
    {terms : List (Term α)} (h : c.measure terms = .ok result) :
    result.Balanced c := by
  obtain ⟨form, hform, h⟩ := bind_eq_ok_iff.1 h
  have hspans := spans_ofForms (Catalog.spells_reduce hentries hform) h
  obtain ⟨-, rfl⟩ := ofForms_eq_ok_iff.1 h
  exact hspans

/-- A product spans the sum, and its merged terms have that total. -/
theorem Balanced.mul (hm : m.Balanced c) (hn : n.Balanced c)
    (h : m.mul n = .ok result) : result.Balanced c := by
  obtain ⟨_, _, _, -, -, -, hterms, -⟩ := mul_eq_ok h
  unfold Balanced
  rw [Catalog.total_mergeTerms? hterms, Catalog.total_append]
  exact Spans.mul hm hn h

/-- A reciprocal spans the opposite, and so do its terms. -/
theorem Balanced.inverse (hm : m.Balanced c)
    (h : m.inverse = .ok result) : result.Balanced c := by
  unfold Balanced
  rw [Catalog.total_mapM_inverse? (inverse_eq_ok h).2.1]
  exact Spans.inverse hm h

/-- A quotient is a product with a reciprocal. -/
theorem Balanced.div (hm : m.Balanced c) (hn : n.Balanced c)
    (h : m.div n = .ok result) : result.Balanced c := by
  obtain ⟨turned, hturned, h⟩ := div_eq_ok h
  exact hm.mul (hn.inverse hturned) h

end Measure

/-- Whatever is made spans the total of its terms. -/
theorem Recipe.balanced {c : Catalog α}
    (hentries : c.entries.WellFormed c.base) {r : Recipe α}
    {m : Measure α} (h : r.make c = .ok m) : m.Balanced c := by
  refine make_induction (P := fun _ m => m.Balanced c) ?_ ?_ ?_ ?_ ?_ h
  · exact fun x => Measure.spans_scalar x
  · exact fun h => Measure.balanced_measure hentries h
  · exact fun hm hn h => hm.mul hn h
  · exact fun hm hn h => hm.div hn h
  · exact fun hm h => hm.inverse h

-- ========================================================= composition

/-- What comes of reading texts, and of multiplying, dividing and
inverting what came of it. -/
inductive Catalog.Composes (c : Catalog)
    (reader : String → Except Fault (List Term)) : Measure → Prop where
  | read {text : String} {m : Measure}
      (h : c.readWith reader text = .ok m) : Composes c reader m
  | mul {m n product : Measure} (hm : Composes c reader m)
      (hn : Composes c reader n) (h : m.mul n = .ok product) :
      Composes c reader product
  | div {m n quotient : Measure} (hm : Composes c reader m)
      (hn : Composes c reader n) (h : m.div n = .ok quotient) :
      Composes c reader quotient
  | inverse {m turned : Measure} (hm : Composes c reader m)
      (h : m.inverse = .ok turned) : Composes c reader turned

/-- A measure that is composed from texts and operations has a recipe,
so what is proved of recipes holds of it. -/
theorem Catalog.Composes.exists_recipe {c : Catalog}
    {reader : String → Except Fault (List Term)} {m : Measure}
    (h : c.Composes reader m) :
    ∃ r : Recipe Scientific, r.make c = .ok m := by
  induction h with
  | read h => exact Recipe.exists_of_readWith h
  | mul _ _ h ihm ihn =>
    obtain ⟨r, hr⟩ := ihm
    obtain ⟨s, hs⟩ := ihn
    exact ⟨.mul r s, bind_eq_ok_iff.2 ⟨_, hr, bind_eq_ok_iff.2 ⟨_, hs, h⟩⟩⟩
  | div _ _ h ihm ihn =>
    obtain ⟨r, hr⟩ := ihm
    obtain ⟨s, hs⟩ := ihn
    exact ⟨.div r s, bind_eq_ok_iff.2 ⟨_, hr, bind_eq_ok_iff.2 ⟨_, hs, h⟩⟩⟩
  | inverse _ h ihm =>
    obtain ⟨r, hr⟩ := ihm
    exact ⟨.inverse r, bind_eq_ok_iff.2 ⟨_, hr, h⟩⟩

/-- Whatever was read and composed, the terms that are written reduce to
the dimension that the measure has, if they reduce at all. -/
theorem dimension_eq_of_reduce_terms {definitions : Definitions}
    {base : List String} {c : Catalog}
    (hc : Catalog.build definitions base = .ok c)
    {reader : String → Except Fault (List Term)} {m : Measure}
    (hm : c.Composes reader m) {form : BaseForm}
    (hform : c.reduce m.terms = .ok form) :
    m.dimension? = some form.dimension := by
  have hentries := (Built.of_build hc).wellFormed
  obtain ⟨r, hr⟩ := hm.exists_recipe
  obtain ⟨own, hown, hspells⟩ := r.balanced hentries hr
  have hagain := Catalog.spells_reduce hentries hform
  unfold Measure.dimension?
  rw [hown]
  exact congrArg some (hspells.unique hagain)

/-- Square metres cancel out again: their term is dropped, and the one
that is left reduces to the dimension that is left. -/
theorem dimension_eq_of_reduce_terms_square_metres :
    ∃ reader c m form,
      Reader.ofDotted ["m"] [] = .ok reader
        ∧ Catalog.build [] ["m"] = .ok c
        ∧ c.Composes reader.read m
        ∧ m.terms.length = 1
        ∧ c.reduce m.terms = .ok form
        ∧ form.dimension = [⟨"m", 1⟩]
        ∧ m.dimension? = some form.dimension := by
  have hrun : (do
      let reader ← Reader.ofDotted ["m"] []
      let c ← Catalog.build [] ["m"]
      let length ← c.readWith reader.read "2 m"
      let area ← c.readWith reader.read "m2"
      let volume ← length.mul area
      let m ← volume.div area
      let form ← c.reduce m.terms
      return m.terms.length = 1 && form.dimension = [⟨"m", 1⟩]
      : Except Fault Bool).toOption = some true := by
    decide +kernel
  obtain ⟨reader, hreader, hrun⟩ :=
    bind_eq_ok_iff.1 (eq_ok_of_toOption hrun)
  obtain ⟨c, hc, hrun⟩ := bind_eq_ok_iff.1 hrun
  obtain ⟨length, hlength, hrun⟩ := bind_eq_ok_iff.1 hrun
  obtain ⟨area, harea, hrun⟩ := bind_eq_ok_iff.1 hrun
  obtain ⟨volume, hvolume, hrun⟩ := bind_eq_ok_iff.1 hrun
  obtain ⟨m, hm, hrun⟩ := bind_eq_ok_iff.1 hrun
  obtain ⟨form, hform, hrun⟩ := bind_eq_ok_iff.1 hrun
  have hvalues := Except.ok.inj hrun
  simp only [Bool.and_eq_true, decide_eq_true_iff] at hvalues
  have hcomposes : c.Composes reader.read m :=
    .div (.mul (.read hlength) (.read harea) hvolume) (.read harea) hm
  exact ⟨reader, c, m, form, hreader, hc, hcomposes, hvalues.1, hform,
    hvalues.2, dimension_eq_of_reduce_terms hc hcomposes hform⟩

end UnitAlgebra
