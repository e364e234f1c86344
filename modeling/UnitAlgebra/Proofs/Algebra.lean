/-
Measures under multiplication, division and inversion: what each
operation gives when it succeeds, on the written form and on the base
form, and what merging a row of terms keeps.

# One lemma for each operation

`Measure.mul_eq_ok`, `Measure.inverse_eq_ok` and `Measure.div_eq_ok` say
all that later proofs need of an operation that succeeded, so these do
not open the operations again. Whether an operation succeeds is asked
elsewhere (`UnitAlgebra.Proofs.Products`).

Merging has a rule in place of an equation
(`Measure.exists_of_mergeTerms?`): what holds of a row while its terms
come in one by one holds of the row that comes out, up to terms with the
exponent zero. Totals and powers of units are carried by it.

# Recipes

A `Recipe` says how a measure was put together. Whatever a text stands
for is made by one (`Recipe.exists_of_readWith`), so what holds of every
recipe holds of every measure that was read or computed, and
`Recipe.make_induction` has one case for each step.

# Coefficients

Merging keeps or drops terms and changes exponents, and it makes up
nothing else: the coefficients of a measure are among those that were
read (`Recipe.coefficient_of_make`). So whoever reads no number sees
none, whatever is computed; what that is good for is told in
`UnitAlgebra.Proofs.Written`.
-/
import Mathlib.Data.List.Induction
import UnitAlgebra.Dimension.Canonical
import UnitAlgebra.Proofs.Outcome
import UnitAlgebra.UnitSystem

namespace UnitAlgebra

variable {α : Type} [Scalar α]

-- ====================================================== the operations

namespace Measure

variable {m n result : Measure α}

/-- Two forms make a measure unless a base unit stands twice in the
base form, and then the base form is arranged. -/
theorem ofForms_eq_ok_iff {α : Type} {factor : α} {terms : List (Term α)}
    {form : BaseForm α} {result : Measure α} :
    ofForms factor terms form = .ok result ↔
      (form.dimension.map BasePower.base).Nodup
        ∧ result = ⟨factor, terms,
            some ⟨form.factor, Dimension.arrange form.dimension⟩⟩ := by
  rw [← Dimension.firstRepeated?_eq_none_iff]
  unfold ofForms
  cases Dimension.firstRepeated? form.dimension with
  | none => simp [eq_comm]
  | some base => simp

/-- An operation that asks for a base form gets the one that is there.
-/
theorem requireBase_eq_ok_iff {form : BaseForm α} :
    m.requireBase = .ok form ↔ m.baseForm = some form := by
  unfold requireBase
  cases m.baseForm with
  | none => simp
  | some _ => simp

/-- A product multiplies the factors of both forms and merges the
terms. -/
theorem mul_eq_ok (h : m.mul n = .ok result) :
    ∃ left right dimension, m.baseForm = some left
      ∧ n.baseForm = some right
      ∧ result.factor = m.factor * n.factor
      ∧ mergeTerms? (m.terms ++ n.terms) = some result.terms
      ∧ result.baseForm
          = some ⟨left.factor * right.factor, dimension⟩ := by
  obtain ⟨left, hleft, h⟩ := bind_eq_ok_iff.1 h
  obtain ⟨right, hright, h⟩ := bind_eq_ok_iff.1 h
  split at h
  · next dimension terms _ hterms =>
    cases h
    exact ⟨left, right, dimension, requireBase_eq_ok_iff.1 hleft,
      requireBase_eq_ok_iff.1 hright, rfl, hterms, rfl⟩
  · cases h

/-- The factor of a reciprocal; what becomes of the dimension is told
apart from it. -/
theorem invertForm_eq_ok {unit : String} {form inverted : BaseForm α}
    (h : invertForm unit form = .ok inverted) :
    Scalar.inverse form.factor = .ok inverted.factor := by
  obtain ⟨factor, hfactor, h⟩ := bind_eq_ok_iff.1 h
  split at h
  · cases h
    exact hfactor
  · cases h

/-- A reciprocal inverts the factors of both forms and negates the
exponents of the terms. -/
theorem inverse_eq_ok (h : m.inverse = .ok result) :
    Scalar.inverse m.factor = .ok result.factor
      ∧ m.terms.mapM Term.inverse? = some result.terms
      ∧ ∀ form, m.baseForm = some form →
          ∃ inverted, result.baseForm = some inverted
            ∧ Scalar.inverse form.factor = .ok inverted.factor := by
  obtain ⟨turned, hturned, h⟩ := bind_eq_ok_iff.1 h
  obtain ⟨factor, hfactor, h⟩ := bind_eq_ok_iff.1 h
  split at h
  · next terms hterms =>
    cases h
    refine ⟨hfactor, hterms, fun form hform => ?_⟩
    rw [hform, Option.mapM_some] at hturned
    obtain ⟨inverted, hinverted, hsome⟩ := bind_eq_ok_iff.1 hturned
    cases hsome
    exact ⟨inverted, rfl, invertForm_eq_ok hinverted⟩
  · cases h

/-- Dividing is multiplying by the reciprocal. -/
theorem div_eq_ok (h : m.div n = .ok result) :
    ∃ turned, n.inverse = .ok turned ∧ m.mul turned = .ok result :=
  bind_eq_ok_iff.1 h

-- ============================================================= merging

/-- What holds along the merging of a row, term by term, holds of the
row before the terms with exponent zero are dropped. -/
theorem exists_of_mergeTerms? (inv : List (Term α) → List (Term α) → Prop)
    {terms merged : List (Term α)}
    (h : mergeTerms? terms = some merged) (hnil : inv [] [])
    (hsnoc : ∀ done t row next, inv done row →
      mergeTerm? t row = some next → inv (done ++ [t]) next) :
    ∃ row, inv terms row ∧ merged = row.filter (·.exponent ≠ 0) := by
  unfold mergeTerms? at h
  obtain ⟨row, hrow, hdrop⟩ := Option.bind_eq_some_iff.1 h
  clear h
  cases hdrop
  refine ⟨row, ?_, rfl⟩
  induction terms using List.reverseRecOn generalizing row with
  | nil =>
    cases hrow
    exact hnil
  | append_singleton done t ih =>
    rw [List.foldlM_append] at hrow
    obtain ⟨before, hbefore, hlast⟩ := Option.bind_eq_some_iff.1 hrow
    rw [List.foldlM_cons] at hlast
    obtain ⟨next, hnext, hsame⟩ := Option.bind_eq_some_iff.1 hlast
    cases hsame
    exact hsnoc done t before row (ih before hbefore) hnext

/-- What does not depend on exponents and holds of every term holds of
every merged term. -/
theorem forall_mem_of_mergeTerm? {P : Term α → Prop}
    (hP : ∀ u e, P u → P { u with exponent := e }) {t : Term α}
    {terms merged : List (Term α)}
    (h : mergeTerm? t terms = some merged) (ht : P t)
    (hterms : ∀ u ∈ terms, P u) : ∀ u ∈ merged, P u := by
  induction terms generalizing merged with
  | nil =>
    cases h
    exact fun u hu => List.mem_singleton.1 hu ▸ ht
  | cons u terms ih =>
    obtain ⟨hu, hrest⟩ := List.forall_mem_cons.1 hterms
    rw [mergeTerm?] at h
    split at h
    · obtain ⟨e, -, rfl⟩ := Option.map_eq_some_iff.1 h
      exact List.forall_mem_cons.2 ⟨hP u e hu, hrest⟩
    · obtain ⟨rest, hmerged, rfl⟩ := Option.map_eq_some_iff.1 h
      exact List.forall_mem_cons.2 ⟨hu, ih hmerged hrest⟩

-- ======================================================== coefficients

section

variable {P : α → Prop}

/-- Merging makes up no coefficients. -/
theorem coefficient_of_mergeTerm? {t : Term α}
    {terms merged : List (Term α)}
    (h : mergeTerm? t terms = some merged) (ht : P t.coefficient)
    (hterms : ∀ u ∈ terms, P u.coefficient) :
    ∀ u ∈ merged, P u.coefficient :=
  forall_mem_of_mergeTerm? (P := fun u => P u.coefficient)
    (fun _ _ hu => hu) h ht hterms

/-- Nor does merging a whole row. -/
theorem coefficient_of_mergeTerms? {terms merged : List (Term α)}
    (h : mergeTerms? terms = some merged)
    (hterms : ∀ t ∈ terms, P t.coefficient) :
    ∀ t ∈ merged, P t.coefficient := by
  have hsnoc : ∀ done t row next,
      ((∀ u ∈ done, P u.coefficient) → ∀ u ∈ row, P u.coefficient) →
      mergeTerm? t row = some next →
        (∀ u ∈ done ++ [t], P u.coefficient) →
          ∀ u ∈ next, P u.coefficient := by
    intro done t row next hrow hnext hall
    obtain ⟨hdone, ht⟩ := List.forall_mem_append.1 hall
    exact coefficient_of_mergeTerm? hnext (ht t List.mem_cons_self)
      (hrow hdone)
  obtain ⟨row, hrow, rfl⟩ := exists_of_mergeTerms?
    (fun done row => (∀ u ∈ done, P u.coefficient) →
      ∀ u ∈ row, P u.coefficient) h (fun h => h) hsnoc
  exact fun t ht => hrow hterms t (List.mem_of_mem_filter ht)

/-- Negating exponents leaves the coefficients alone. -/
theorem coefficient_of_mapM_inverse? {α : Type} {P : α → Prop}
    {terms inverted : List (Term α)}
    (h : terms.mapM Term.inverse? = some inverted)
    (hterms : ∀ t ∈ terms, P t.coefficient) :
    ∀ t ∈ inverted, P t.coefficient := by
  induction terms generalizing inverted with
  | nil =>
    cases h
    exact fun t ht => nomatch ht
  | cons t terms ih =>
    obtain ⟨ht, hrest⟩ := List.forall_mem_cons.1 hterms
    rw [List.mapM_cons] at h
    obtain ⟨u, hu, h⟩ := Option.bind_eq_some_iff.1 h
    obtain ⟨rest, hmapped, h⟩ := Option.bind_eq_some_iff.1 h
    cases h
    obtain ⟨e, -, rfl⟩ := Option.map_eq_some_iff.1 hu
    exact List.forall_mem_cons.2 ⟨ht, ih hmapped hrest⟩

/-- A product has its coefficients from both measures. -/
theorem coefficient_of_mul (h : m.mul n = .ok result)
    (hm : ∀ t ∈ m.terms, P t.coefficient)
    (hn : ∀ t ∈ n.terms, P t.coefficient) :
    ∀ t ∈ result.terms, P t.coefficient := by
  obtain ⟨_, _, _, -, -, -, hterms, -⟩ := mul_eq_ok h
  exact coefficient_of_mergeTerms? hterms
    (List.forall_mem_append.2 ⟨hm, hn⟩)

/-- A reciprocal has the coefficients of the measure. -/
theorem coefficient_of_inverse (h : m.inverse = .ok result)
    (hm : ∀ t ∈ m.terms, P t.coefficient) :
    ∀ t ∈ result.terms, P t.coefficient :=
  coefficient_of_mapM_inverse? (inverse_eq_ok h).2.1 hm

end

end Measure

-- ============================================================= reading

/-- The measure that a text stands for, whatever it is that reads the
terms. -/
def Catalog.readWith (c : Catalog)
    (reader : String → Except Fault (List Term)) (text : String) :
    Except Fault Measure :=
  if text = "" then .ok .dimensionless
  else
    match UnitSystem.plainNumber? text with
    | some number => .ok (.scalar (.ofFloat number))
    | none => do
      let terms ← reader text
      c.measure terms

/-- A unit system reads with its own reader. -/
theorem UnitSystem.read_eq_readWith (system : UnitSystem)
    (text : String) :
    system.read text = system.catalog.readWith system.reader.read text :=
  rfl

-- ============================================================= recipes

/-- How a measure is put together: from numbers and rows of terms, by
multiplying, dividing and inverting. -/
inductive Recipe (α : Type) where
  | number (x : α)
  | row (terms : List (Term α))
  | mul (r s : Recipe α)
  | div (r s : Recipe α)
  | inverse (r : Recipe α)

namespace Recipe

/-- The measure that comes of a recipe. -/
def make (c : Catalog α) : Recipe α → Except Fault (Measure α)
  | number x => .ok (.scalar x)
  | row terms => c.measure terms
  | mul r s => do
    let m ← r.make c
    let n ← s.make c
    m.mul n
  | div r s => do
    let m ← r.make c
    let n ← s.make c
    m.div n
  | inverse r => do
    let m ← r.make c
    m.inverse

/-- What holds of numbers and of rows, and is kept by every operation,
holds of whatever is made. -/
theorem make_induction {c : Catalog α}
    {P : Recipe α → Measure α → Prop}
    (number : ∀ x, P (.number x) (.scalar x))
    (row : ∀ {terms m}, c.measure terms = .ok m → P (.row terms) m)
    (mul : ∀ {r s m n product}, P r m → P s n →
      m.mul n = .ok product → P (.mul r s) product)
    (div : ∀ {r s m n quotient}, P r m → P s n →
      m.div n = .ok quotient → P (.div r s) quotient)
    (inverse : ∀ {r m turned}, P r m →
      m.inverse = .ok turned → P (.inverse r) turned)
    {r : Recipe α} {m : Measure α} (h : r.make c = .ok m) : P r m := by
  induction r generalizing m with
  | number x =>
    cases h
    exact number x
  | row terms => exact row h
  | mul r s ihr ihs =>
    obtain ⟨left, hleft, h⟩ := bind_eq_ok_iff.1 h
    obtain ⟨right, hright, h⟩ := bind_eq_ok_iff.1 h
    exact mul (ihr hleft) (ihs hright) h
  | div r s ihr ihs =>
    obtain ⟨left, hleft, h⟩ := bind_eq_ok_iff.1 h
    obtain ⟨right, hright, h⟩ := bind_eq_ok_iff.1 h
    exact div (ihr hleft) (ihs hright) h
  | inverse r ih =>
    obtain ⟨inner, hinner, h⟩ := bind_eq_ok_iff.1 h
    exact inverse (ih hinner) h

/-- Whatever a text stands for is a number or a row of terms. -/
theorem exists_of_readWith {c : Catalog}
    {reader : String → Except Fault (List Term)} {text : String}
    {m : Measure} (h : c.readWith reader text = .ok m) :
    ∃ r : Recipe Scientific, r.make c = .ok m := by
  unfold Catalog.readWith at h
  split at h
  · exact ⟨.number 1, h⟩
  · split at h
    · next number _ => exact ⟨.number (.ofFloat number), h⟩
    · obtain ⟨terms, -, h⟩ := bind_eq_ok_iff.1 h
      exact ⟨.row terms, h⟩

/-- Every coefficient that a recipe reads has a property. -/
def Reads (P : α → Prop) : Recipe α → Prop
  | number _ => True
  | row terms => ∀ t ∈ terms, P t.coefficient
  | mul r s => r.Reads P ∧ s.Reads P
  | div r s => r.Reads P ∧ s.Reads P
  | inverse r => r.Reads P

/-- Whatever is made has no coefficients but those that were read. -/
theorem coefficient_of_make {c : Catalog α} {P : α → Prop}
    {r : Recipe α} {m : Measure α} (h : r.make c = .ok m)
    (hr : r.Reads P) : ∀ t ∈ m.terms, P t.coefficient := by
  revert hr
  refine make_induction (P := fun r m => r.Reads P →
    ∀ t ∈ m.terms, P t.coefficient) ?_ ?_ ?_ ?_ ?_ h
  · exact fun _ _ t ht => absurd ht List.not_mem_nil
  · intro terms m h hr
    obtain ⟨form, -, h⟩ := bind_eq_ok_iff.1 h
    obtain ⟨-, rfl⟩ := Measure.ofForms_eq_ok_iff.1 h
    exact hr
  · intro r s m n product hm hn h hr
    exact Measure.coefficient_of_mul h (hm hr.1) (hn hr.2)
  · intro r s m n quotient hm hn h hr
    obtain ⟨turned, hturned, h⟩ := Measure.div_eq_ok h
    exact Measure.coefficient_of_mul h (hm hr.1)
      (Measure.coefficient_of_inverse hturned (hn hr.2))
  · intro r m turned hm h hr
    exact Measure.coefficient_of_inverse h (hm hr)

end Recipe

end UnitAlgebra
