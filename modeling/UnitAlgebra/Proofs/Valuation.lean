/-
What a table of definitions means, apart from how it is expanded. A
valuation gives every unit a factor, and for every base unit an
exponent. It obeys a table when a base unit counts once for itself and
a derived unit is worth its ratio times the product of its targets:
the equations of unfolding every definition afresh wherever it is
referred to, on integers that have no range (`Valuation.Obeys`).

# Gathering targets

A definition is expanded by multiplying its targets into a form, one
after the other, with the entries of derived units at hand. `Times` is
one such step and `Gathers` the row of steps. Both are relations, so
that a step is described once and neither a proof that goes forward nor
one that goes back opens the code again.

Read through a valuation that matches the entries
(`Valuation.Matches`), a step multiplies the factor and adds to the
exponents (`Times.multiply`, `Times.exponentOf`), and it exists exactly
when the exponents fit (`exists_addScaled?_iff_fits`). So a row of
steps gives the fold of the factors and the totals of the exponents
(`Gathers.factor`, `Gathers.exponentOf`).

The two halves differ in one respect. Factors are multiplied in the
order of the row, since nothing is assumed of how numbers multiply;
exponents are integers, and only their totals count. But totals on the
way count too: each has to fit before the next target is added
(`Valuation.Fits`).
-/
import Mathlib.Data.List.Nodup
import Mathlib.Logic.Relation
import UnitAlgebra.Catalog
import UnitAlgebra.Dimension.Canonical
import UnitAlgebra.Proofs.Outcome

namespace UnitAlgebra

variable {α : Type} [Scalar α]

-- ========================================================== references

namespace Definitions

/-- The derived units of a table. -/
def names {α : Type} (definitions : Definitions α) : List String :=
  definitions.map Prod.fst

/-- The definition of one derived unit refers to another derived unit.
A target to the power zero is a reference like any other. -/
def RefersTo {α : Type} (definitions : Definitions α) (a b : String) :
    Prop :=
  ∃ definition, (a, definition) ∈ definitions ∧ b ∈ definitions.names
    ∧ ∃ t ∈ definition.targets, t.name = b

/-- No derived unit leads back to itself. -/
def Acyclic {α : Type} (definitions : Definitions α) : Prop :=
  ∀ name, ¬ Relation.TransGen definitions.RefersTo name name

theorem mem_names {α : Type} {definitions : Definitions α} {name : String}
    {definition : Definition α} (h : (name, definition) ∈ definitions) :
    name ∈ definitions.names :=
  List.mem_map_of_mem h

/-- A derived unit has one definition when no name stands twice. -/
theorem definition_unique {α : Type} {definitions : Definitions α}
    (hnodup : definitions.names.Nodup) {name : String}
    {d e : Definition α} (hd : (name, d) ∈ definitions)
    (he : (name, e) ∈ definitions) : d = e :=
  congrArg Prod.snd (List.inj_on_of_nodup_map hnodup hd he rfl)

/-- What is looked up is one of the definitions, and the first of its
name. -/
theorem mem_of_lookup {α : Type} {definitions : Definitions α}
    {name : String} {definition : Definition α}
    (h : definitions.lookup name = some definition) :
    (name, definition) ∈ definitions := by
  obtain ⟨before, after, rfl, -⟩ := List.lookup_eq_some_iff.1 h
  simp

/-- What is not found is not defined. -/
theorem not_mem_names_of_lookup {α : Type} {definitions : Definitions α}
    {name : String} (h : definitions.lookup name = none) :
    name ∉ definitions.names := by
  intro hname
  obtain ⟨d, hd, rfl⟩ := List.mem_map.1 hname
  have hne := List.lookup_eq_none_iff.1 h d hd
  simp at hne

end Definitions

-- ========================================================== valuations

/-- A factor for every unit, and an exponent of every base unit in
it. -/
structure Valuation (α : Type) where
  factor : String → α
  exponent : String → String → Int

namespace Valuation

/-- The exponent of a base unit in a product of targets. -/
def total {α : Type} (v : Valuation α) : List Target → String → Int
  | [], _ => 0
  | t :: targets, b =>
    t.exponent.val * v.exponent t.name b + total v targets b

/-- A factor times one more target: times the power of its prefix, and
for a derived unit times the power of that unit's factor. -/
def multiply (v : Valuation α) (base : List String) (factor : α)
    (t : Target) : Except Fault α := do
  let factor := factor * (← Scalar.pow t.scale.factor t.exponent)
  if t.name ∈ base then .ok factor
  else return factor * (← Scalar.pow (v.factor t.name) t.exponent)

/-- The factor of a definition: its ratio times its targets, from left
to right. -/
def factorOf (v : Valuation α) (base : List String)
    (definition : Definition α) : Except Fault α :=
  definition.targets.foldlM (v.multiply base) definition.ratio

/-- After the targets `done` comes `next`, and neither its own exponents
nor the totals that it leads to leave the range. -/
def Fits {α : Type} (v : Valuation α) (base : List String)
    (done : List Target) (next : Target) : Prop :=
  ∀ b ∈ base,
    Exponent.InRange (next.exponent.val * v.exponent next.name b)
      ∧ Exponent.InRange (v.total (done ++ [next]) b)

/-- The equations of unfolding: a base unit counts once for itself, and
a derived unit is worth what its definition says. -/
structure Obeys (v : Valuation α) (definitions : Definitions α)
    (base : List String) : Prop where
  base_unit : ∀ a ∈ base, ∀ b ∈ base,
    v.exponent a b = if a = b then 1 else 0
  exponent : ∀ d ∈ definitions, ∀ b ∈ base,
    v.exponent d.1 b = v.total d.2.targets b
  factor : ∀ d ∈ definitions, v.factorOf base d.2 = .ok (v.factor d.1)

/-- Totals add up over rows, as the walk gathers them. -/
theorem total_append {α : Type} (v : Valuation α)
    (done next : List Target) (b : String) :
    v.total (done ++ next) b = v.total done b + v.total next b := by
  induction done with
  | nil => exact (Int.zero_add _).symm
  | cons t done ih =>
    show _ + v.total (done ++ next) b = _ + v.total done b + _
    rw [ih, Int.add_assoc]

/-- The total after one more target, which is how a step of the row
changes it. -/
theorem total_snoc {α : Type} (v : Valuation α) (done : List Target)
    (next : Target) (b : String) :
    v.total (done ++ [next]) b
      = v.total done b + next.exponent.val * v.exponent next.name b := by
  rw [total_append]
  exact congrArg (_ + ·) (Int.add_zero _)

/-- The order of the targets makes no difference to a total. -/
theorem total_perm {α : Type} (v : Valuation α)
    {targets order : List Target} (h : order.Perm targets) (b : String) :
    v.total order b = v.total targets b := by
  induction h with
  | nil => rfl
  | cons t _ ih => exact congrArg (_ + ·) ih
  | swap t u targets => exact Int.add_left_comm _ _ _
  | trans _ _ ih ih' => exact ih.trans ih'

/-- A total depends on the exponents in the targets alone. -/
theorem total_congr {α : Type} {v w : Valuation α}
    {targets : List Target} {b : String}
    (h : ∀ t ∈ targets, v.exponent t.name b = w.exponent t.name b) :
    v.total targets b = w.total targets b := by
  induction targets with
  | nil => rfl
  | cons t targets ih =>
    obtain ⟨ht, htargets⟩ := List.forall_mem_cons.1 h
    show _ + v.total targets b = _ + w.total targets b
    rw [ht, ih htargets]

end Valuation

-- ===================================================== entries at hand

/-- Canonical, and without any base unit but the given ones. -/
def Dimension.CanonicalOver (base : List String) (d : Dimension) : Prop :=
  d.Canonical ∧ ∀ p ∈ d, p.base ∈ base

/-- What is none of the base units is not listed. -/
theorem Dimension.CanonicalOver.exponentOf_eq_zero {base : List String}
    {d : Dimension} (hd : d.CanonicalOver base) {b : String}
    (hb : b ∉ base) : d.exponentOf b = 0 :=
  Dimension.exponentOf_eq_zero fun p hp hpb => hb (hpb ▸ hd.2 p hp)

/-- Dimensions over the same base units are told apart by the exponents
of these. -/
theorem Dimension.CanonicalOver.eq_of_exponentOf {base : List String}
    {d e : Dimension} (hd : d.CanonicalOver base)
    (he : e.CanonicalOver base)
    (h : ∀ b ∈ base, d.exponentOf b = e.exponentOf b) : d = e := by
  refine hd.1.eq_of_exponentOf he.1 fun b => ?_
  by_cases hb : b ∈ base
  · exact h b hb
  · rw [hd.exponentOf_eq_zero hb, he.exponentOf_eq_zero hb]

/-- A multiple can be added exactly when no product and no sum of
exponents leaves the range. -/
theorem Dimension.exists_addScaled?_iff {base : List String}
    {d other : Dimension} {weight : Exponent} (hd : d.Canonical)
    (hother : other.CanonicalOver base) :
    (∃ sum, d.addScaled? weight other = some sum) ↔
      ∀ b ∈ base,
        Exponent.InRange (weight.val * other.exponentOf b)
          ∧ Exponent.InRange
              (d.exponentOf b + weight.val * other.exponentOf b) := by
  constructor
  · intro hexists b _
    obtain ⟨sum, hsum⟩ := hexists
    by_contra hout
    have hne : other.exponentOf b ≠ 0 := by
      intro hzero
      rw [hzero, Int.mul_zero, Int.add_zero] at hout
      exact hout ⟨by decide, inRange_exponentOf b d⟩
    obtain ⟨p, hp, rfl⟩ := exists_mem_of_exponentOf_ne_zero hne
    rw [exponentOf_of_mem hother.1.nodup hp, Int.mul_comm, not_and_or] at hout
    rw [(addScaled?_eq_none_iff hd hother.1).2 ⟨p, hp, hout⟩] at hsum
    cases hsum
  · intro hfits
    cases hsum : d.addScaled? weight other with
    | some sum => exact ⟨sum, rfl⟩
    | none =>
      obtain ⟨p, hp, hout⟩ := (addScaled?_eq_none_iff hd hother.1).1 hsum
      have hin := hfits p.base (hother.2 p hp)
      rw [exponentOf_of_mem hother.1.nodup hp, Int.mul_comm] at hin
      rcases hout with hout | hout
      · exact absurd hin.1 hout
      · exact absurd hin.2 hout

namespace Catalog.Entries

/-- Base units and units with an entry. -/
def Has {α : Type} (known : Catalog.Entries α) (base : List String)
    (name : String) : Prop :=
  name ∈ base ∨ ∃ form, known.lookup name = some form

/-- The dimension of a unit: a base unit's own, or that of the entry of
a derived unit. -/
def dimension {α : Type} (known : Catalog.Entries α) (base : List String)
    (name : String) : Dimension :=
  if name ∈ base then [⟨name, 1⟩]
  else ((known.lookup name).map (·.dimension)).getD []

/-- The factors and exponents that entries hold. -/
def valuation (known : Catalog.Entries α) (base : List String) :
    Valuation α where
  factor name := ((known.lookup name).map (·.factor)).getD 1
  exponent name b := (known.dimension base name).exponentOf b

/-- Every entry has a canonical dimension over the base units. -/
def WellFormed {α : Type} (known : Catalog.Entries α)
    (base : List String) : Prop :=
  ∀ name form, known.lookup name = some form →
    form.dimension.CanonicalOver base

/-- A base unit is its own dimension. -/
theorem dimension_of_base {α : Type} {known : Catalog.Entries α}
    {base : List String} {name : String} (h : name ∈ base) :
    known.dimension base name = [⟨name, 1⟩] := if_pos h

/-- A derived unit has the dimension of its entry. -/
theorem dimension_of_entry {α : Type} {known : Catalog.Entries α}
    {base : List String} {name : String} {form : BaseForm α}
    (hbase : name ∉ base) (h : known.lookup name = some form) :
    known.dimension base name = form.dimension := by
  unfold dimension
  rw [if_neg hbase, h]
  rfl

/-- Whatever unit is multiplied in, its dimension is canonical, so
exponents alone describe a step. -/
theorem WellFormed.canonicalOver {α : Type}
    {known : Catalog.Entries α} {base : List String}
    (h : known.WellFormed base) (name : String) :
    (known.dimension base name).CanonicalOver base := by
  by_cases hbase : name ∈ base
  · rw [dimension_of_base hbase]
    refine ⟨Dimension.canonical_singleton name, fun p hp => ?_⟩
    rw [List.mem_singleton.1 hp]
    exact hbase
  · cases hform : known.lookup name with
    | some form =>
      rw [dimension_of_entry hbase hform]
      exact h name form hform
    | none =>
      unfold dimension
      rw [if_neg hbase, hform]
      exact ⟨Dimension.canonical_nil, fun p hp => nomatch hp⟩

end Catalog.Entries

/-- A valuation that gives base units and units with an entry what they
are worth. -/
structure Valuation.Matches (v : Valuation α) (base : List String)
    (known : Catalog.Entries α) : Prop where
  factor : ∀ name form, known.lookup name = some form →
    v.factor name = form.factor
  exponent : ∀ name, known.Has base name → ∀ b ∈ base,
    v.exponent name b = (known.dimension base name).exponentOf b

/-- Base units and entries are all that there is to match. -/
theorem Valuation.matches_of_entries {α : Type} {v : Valuation α}
    {base : List String} {known : Catalog.Entries α}
    (hbase : ∀ a ∈ base, ∀ b ∈ base,
      v.exponent a b = if a = b then 1 else 0)
    (hentry : ∀ name form, known.lookup name = some form →
      v.factor name = form.factor
        ∧ ∀ b ∈ base, v.exponent name b = form.dimension.exponentOf b) :
    v.Matches base known where
  factor name form h := (hentry name form h).1
  exponent name hname b hb := by
    by_cases hmem : name ∈ base
    · rw [Catalog.Entries.dimension_of_base hmem, hbase name hmem b hb]
      rfl
    · obtain ⟨form, hform⟩ := hname.resolve_left hmem
      rw [Catalog.Entries.dimension_of_entry hmem hform]
      exact (hentry name form hform).2 b hb

/-- What entries hold matches them. -/
theorem Catalog.Entries.matches_valuation (known : Catalog.Entries α)
    (base : List String) : (known.valuation base).Matches base known where
  factor name form h := by
    show ((known.lookup name).map (·.factor)).getD 1 = form.factor
    rw [h]
    rfl
  exponent _ _ _ _ := rfl

/-- Whether exponents fit is the same for every valuation that
matches. -/
theorem Valuation.Matches.fits_iff {α : Type} {v w : Valuation α}
    {base : List String} {known : Catalog.Entries α}
    (hv : v.Matches base known) (hw : w.Matches base known)
    {done : List Target} {next : Target}
    (hdone : ∀ t ∈ done, known.Has base t.name)
    (hnext : known.Has base next.name) :
    v.Fits base done next ↔ w.Fits base done next := by
  refine forall₂_congr fun b hb => ?_
  have hsame : ∀ name, known.Has base name →
      v.exponent name b = w.exponent name b := fun name hname => by
    rw [hv.exponent name hname b hb, hw.exponent name hname b hb]
  have htotal : v.total done b = w.total done b :=
    total_congr fun t ht => hsame t.name (hdone t ht)
  rw [total_snoc, total_snoc, htotal, hsame next.name hnext]

-- ========================================================== one target

/-- A form times one target, with the entries of derived units at
hand. -/
inductive Times (base : List String) (known : Catalog.Entries α)
    (form : BaseForm α) (t : Target) : BaseForm α → Prop where
  | base {power : α} {dimension : Dimension} (hbase : t.name ∈ base)
      (hpower : Scalar.pow t.scale.factor t.exponent = .ok power)
      (hsum : form.dimension.add? t.name t.exponent = some dimension) :
      Times base known form t ⟨form.factor * power, dimension⟩
  | derived {inner : BaseForm α} {power innerPower : α}
      {dimension : Dimension} (hbase : t.name ∉ base)
      (hinner : known.lookup t.name = some inner)
      (hpower : Scalar.pow t.scale.factor t.exponent = .ok power)
      (hinnerPower : Scalar.pow inner.factor t.exponent = .ok innerPower)
      (hsum : form.dimension.addScaled? t.exponent inner.dimension
        = some dimension) :
      Times base known form t
        ⟨form.factor * power * innerPower, dimension⟩

section

variable {base : List String} {known : Catalog.Entries α}
  {form product : BaseForm α} {t : Target} {v : Valuation α}

/-- A step asks for an entry of its target. -/
theorem Times.has (h : Times base known form t product) :
    known.Has base t.name := by
  cases h with
  | base hbase => exact .inl hbase
  | derived _ hinner => exact .inr ⟨_, hinner⟩

/-- A target is added as a multiple of the dimension of its unit,
whether that is a base unit or not. -/
theorem Times.addScaled? (h : Times base known form t product) :
    form.dimension.addScaled? t.exponent (known.dimension base t.name)
      = some product.dimension := by
  cases h with
  | base hbase _ hsum =>
    rw [known.dimension_of_base hbase, Dimension.addScaled?_singleton]
    exact hsum
  | derived hbase hinner _ _ hsum =>
    rw [known.dimension_of_entry hbase hinner]
    exact hsum

/-- A step multiplies the factor by what the target is worth in the
valuation, in the very order of operations. -/
theorem Times.multiply (h : Times base known form t product)
    (hv : v.Matches base known) :
    v.multiply base form.factor t = .ok product.factor := by
  cases h with
  | base hbase hpower _ =>
    unfold Valuation.multiply
    rw [hpower]
    exact if_pos hbase
  | derived hbase hinner hpower hinnerPower _ =>
    unfold Valuation.multiply
    rw [hpower, hv.factor _ _ hinner, hinnerPower]
    exact if_neg hbase

/-- A step keeps the dimension canonical and over the base units. -/
theorem Times.canonicalOver (h : Times base known form t product)
    (hknown : known.WellFormed base)
    (hform : form.dimension.CanonicalOver base) :
    product.dimension.CanonicalOver base := by
  refine ⟨Dimension.canonical_addScaled? hform.1 h.addScaled?, ?_⟩
  intro q hq
  obtain ⟨p, hp | hp, hpq⟩ := Dimension.mem_addScaled? h.addScaled? hq
  · exact hpq ▸ hform.2 p hp
  · exact hpq ▸ (hknown.canonicalOver t.name).2 p hp

/-- A step adds the exponent of the target times those of its unit. The
right side is exact; that it is in range is part of there being a step.
-/
theorem Times.exponentOf (h : Times base known form t product)
    (hv : v.Matches base known) (hknown : known.WellFormed base)
    (hform : form.dimension.Canonical) {b : String} (hb : b ∈ base) :
    product.dimension.exponentOf b
      = form.dimension.exponentOf b
        + t.exponent.val * v.exponent t.name b := by
  have ht := (hknown.canonicalOver t.name).1
  rw [Dimension.exponentOf_addScaled? hform ht h.addScaled?,
    hv.exponent _ h.has _ hb, Int.mul_comm]

/-- The exponents fit exactly when the next target can be added. -/
theorem exists_addScaled?_iff_fits {α : Type} {v : Valuation α}
    {base : List String} {known : Catalog.Entries α} {d : Dimension}
    {done : List Target} {t : Target} (hv : v.Matches base known)
    (hknown : known.WellFormed base) (hd : d.Canonical)
    (hdone : ∀ b ∈ base, d.exponentOf b = v.total done b)
    (ht : known.Has base t.name) :
    (∃ sum, d.addScaled? t.exponent (known.dimension base t.name)
        = some sum) ↔ v.Fits base done t := by
  rw [Dimension.exists_addScaled?_iff hd (hknown.canonicalOver t.name)]
  refine forall₂_congr fun b hb => ?_
  rw [Valuation.total_snoc, hdone b hb, hv.exponent _ ht _ hb]

end

-- ======================================================== many targets

/-- A ratio times a row of targets, from left to right, with the
entries of derived units at hand. -/
inductive Gathers (base : List String) (known : Catalog.Entries α)
    (ratio : α) : List Target → BaseForm α → Prop where
  | start : Gathers base known ratio [] ⟨ratio, []⟩
  | step {done : List Target} {form product : BaseForm α} {t : Target}
      (hdone : Gathers base known ratio done form)
      (ht : Times base known form t product) :
      Gathers base known ratio (done ++ [t]) product

namespace Gathers

variable {base : List String} {known known' : Catalog.Entries α}
  {ratio : α} {targets : List Target} {form : BaseForm α}
  {v : Valuation α}

/-- Entries that are added take nothing away. -/
theorem mono (h : Gathers base known ratio targets form)
    (hknown : ∀ name form, known.lookup name = some form →
      known'.lookup name = some form) :
    Gathers base known' ratio targets form := by
  induction h with
  | start => exact .start
  | step _ ht ih =>
    refine .step ih ?_
    cases ht with
    | base hbase hpower hsum => exact .base hbase hpower hsum
    | derived hbase hinner hpower hinnerPower hsum =>
      exact .derived hbase (hknown _ _ hinner) hpower hinnerPower hsum

/-- A row that is gathered has entries for all its targets. -/
theorem has (h : Gathers base known ratio targets form) :
    ∀ t ∈ targets, known.Has base t.name := by
  induction h with
  | start => exact fun t ht => nomatch ht
  | step _ ht ih =>
    intro s hs
    rcases List.mem_append.1 hs with hs | hs
    · exact ih s hs
    · rw [List.mem_singleton.1 hs]
      exact ht.has

/-- Gathering starts from no powers at all, so what it gives is
canonical. -/
theorem canonicalOver (h : Gathers base known ratio targets form)
    (hknown : known.WellFormed base) :
    form.dimension.CanonicalOver base := by
  induction h with
  | start => exact ⟨Dimension.canonical_nil, fun p hp => nomatch hp⟩
  | step _ ht ih => exact ht.canonicalOver hknown ih

/-- The factor is the fold of the targets' factors. -/
theorem factor (h : Gathers base known ratio targets form)
    (hv : v.Matches base known) :
    targets.foldlM (v.multiply base) ratio = .ok form.factor := by
  induction h with
  | start => rfl
  | step _ ht ih =>
    rw [List.foldlM_append, ih]
    refine bind_eq_ok_iff.2 ⟨_, rfl, ?_⟩
    rw [List.foldlM_cons, ht.multiply hv]
    rfl

/-- The exponents are the totals over the targets. -/
theorem exponentOf (h : Gathers base known ratio targets form)
    (hv : v.Matches base known) (hknown : known.WellFormed base)
    {b : String} (hb : b ∈ base) :
    form.dimension.exponentOf b = v.total targets b := by
  induction h with
  | start => rfl
  | step hdone ht ih =>
    rw [ht.exponentOf hv hknown (hdone.canonicalOver hknown).1 hb,
      Valuation.total_snoc, ih]

/-- No exponent has left the range on the way. -/
theorem fits (h : Gathers base known ratio targets form)
    (hv : v.Matches base known) (hknown : known.WellFormed base)
    {done : List Target} {next : Target}
    (hnext : done ++ [next] <+: targets) : v.Fits base done next := by
  induction h with
  | start => simp at hnext
  | step hdone ht ih =>
    rcases List.prefix_concat_iff.1 hnext with heq | hnext
    · obtain ⟨rfl, hsame⟩ := List.append_inj' heq rfl
      cases hsame
      exact (exists_addScaled?_iff_fits hv hknown
        (hdone.canonicalOver hknown).1
        (fun b hb => hdone.exponentOf hv hknown hb) ht.has).1
          ⟨_, ht.addScaled?⟩
    · exact ih hnext

end Gathers

end UnitAlgebra
