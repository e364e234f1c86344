/-
Building a catalog: when it succeeds, and what the catalog then says.

# How it ends

Building ends with a catalog or with a fault, and `build_ends` says at
once what holds of either. A catalog has settled entries for every
derived unit (`Built`), a fault explains what is wrong with the table
(`Explains`). A table that has nothing wrong with it (`Buildable`) is
explained by no fault (`Buildable.not_explains`), so it is built; a
catalog is built from nothing else (`Built.buildable`). Hence
`exists_build_iff_buildable`, without following the walk a second time.

Definitions are checked one by one before the walk begins
(`check_ends`). After that the walk can rely on them, so the faults that
remain are references that lead nowhere or around, powers that fail and
exponents that do not fit.

# What it says

What an entry is worth does not depend on the walk that found it. Every
valuation that obeys the definitions agrees with it, and there is such
a valuation, namely that of the entries themselves (`Built.obeys`). So a
walk in any other order finds the same entries (`build_unfolds`).

For factors this is more than it seems. They are rounded at each
multiplication, so another order of multiplications could give another
number; but the order is that of the targets within a definition, and no
walk changes it (`Settled.form_eq`).
-/
import UnitAlgebra.Proofs.Expansion

namespace UnitAlgebra

variable {α : Type} [Scalar α] {definitions : Definitions α}
  {base : List String}

-- ============================================== definitions one by one

/-- Definitions with nothing wrong about any of them alone: no name
stands twice or is a base unit, and no ratio is zero. -/
structure Checked (definitions : Definitions α) (base : List String) :
    Prop where
  nodup : definitions.names.Nodup
  derived : ∀ d ∈ definitions, d.1 ∉ base
  ratio : ∀ d ∈ definitions, Scalar.isZero d.2.ratio = false

/-- The names of a table with one more definition. -/
theorem Definitions.names_snoc {α : Type} (before : Definitions α)
    (d : String × Definition α) :
    Definitions.names (before ++ [d]) = before.names ++ [d.1] := by
  unfold names
  rw [List.map_append, List.map_singleton]

theorem Checked.nil : Checked ([] : Definitions α) base where
  nodup := List.nodup_nil
  derived _ hd := nomatch hd
  ratio _ hd := nomatch hd

/-- Checking adds one definition after the other, each against those
before it. -/
theorem Checked.snoc {before : Definitions α} {d : String × Definition α}
    (h : Checked before base) (hnew : d.1 ∉ before.names)
    (hbase : d.1 ∉ base) (hzero : Scalar.isZero d.2.ratio = false) :
    Checked (before ++ [d]) base := by
  refine ⟨?_, fun e he => ?_, fun e he => ?_⟩
  · rw [Definitions.names_snoc]
    exact List.nodup_append.2 ⟨h.nodup, List.nodup_singleton _,
      fun a ha b hb hab => hnew (List.mem_singleton.1 hb ▸ hab ▸ ha)⟩
  · rcases List.mem_append.1 he with he | he
    · exact h.derived e he
    · exact List.mem_singleton.1 he ▸ hbase
  · rcases List.mem_append.1 he with he | he
    · exact h.ratio e he
    · exact List.mem_singleton.1 he ▸ hzero

/-- How checking the rest ends, once the definitions `before` are
checked. -/
theorem check_ends {before rest : Definitions α} {seen : List String}
    (hsplit : definitions = before ++ rest)
    (hbefore : Checked before base)
    (hseen : ∀ name, name ∈ seen ↔ name ∈ before.names) :
    Ends (fun _ => Checked definitions base) (Explains definitions base)
      (Catalog.check base seen rest) := by
  induction rest generalizing before seen with
  | nil =>
    rw [hsplit, List.append_nil]
    exact hbefore
  | cons d rest ih =>
    have hmem : d ∈ definitions := by
      rw [hsplit]
      simp
    rw [Catalog.check]
    split
    · next hbase => exact ⟨hbase, Definitions.mem_names hmem⟩
    · next hbase =>
      split
      · next hzero => exact ⟨d.2, hmem, hzero⟩
      · next hzero =>
        split
        · next hin =>
          have hcount := List.count_pos_iff.2 ((hseen d.1).1 hin)
          show 2 ≤ definitions.names.count d.1
          rw [hsplit, Definitions.names, List.map_append,
            List.count_append, List.map_cons, List.count_cons_self]
          unfold Definitions.names at hcount
          omega
        · next hout =>
          have hnew : d.1 ∉ before.names := mt (hseen d.1).2 hout
          have hsplit' : definitions = (before ++ [d]) ++ rest := by
            rw [hsplit, List.append_assoc]
            rfl
          refine ih hsplit' (hbefore.snoc hnew hbase
            (Bool.eq_false_iff.2 hzero)) fun name => ?_
          rw [Definitions.names_snoc, List.mem_cons, List.mem_append,
            List.mem_singleton, hseen name, or_comm]

-- ========================================================= the catalog

/-- What a catalog built from a table is. -/
structure Built (definitions : Definitions α) (base : List String)
    (c : Catalog α) : Prop where
  base_ne_nil : base ≠ []
  checked : Checked definitions base
  mem_base : ∀ b, b ∈ c.base ↔ b ∈ base
  settled : Settled definitions base c.entries
  covers : c.entries.Covers definitions

/-- Building a catalog ends with one, or with a fault of the table. -/
theorem build_ends (definitions : Definitions α) (base : List String) :
    Ends (Built definitions base) (Explains definitions base)
      (Catalog.build definitions base) := by
  unfold Catalog.build
  split
  · next hbase => exact List.isEmpty_iff.1 hbase
  · next hbase =>
    refine (check_ends rfl .nil fun name => Iff.rfl).bind ?_
    intro _ _ hchecked
    have hperm := List.mergeSort_perm definitions Catalog.namesInOrder
    refine (entries_ends ⟨base, _⟩ hperm).bind ?_
    intro entries _ hentries
    refine ⟨mt List.isEmpty_iff.2 hbase, hchecked, fun b => ?_,
      hentries.1, hentries.2⟩
    rw [List.mem_mergeSort, List.mem_eraseDups]

/-- The factors and exponents that a catalog holds. -/
def Catalog.valuation (c : Catalog α) : Valuation α :=
  c.entries.valuation c.base

namespace Built

variable {c : Catalog α}

/-- A catalog that is built is one. -/
theorem of_build (h : Catalog.build definitions base = .ok c) :
    Built definitions base c := (build_ends definitions base).of_ok h

/-- The order of base units, and how often each is named, makes no
difference. -/
theorem valuation_eq (h : Built definitions base c) :
    c.valuation = c.entries.valuation base := by
  unfold Catalog.valuation Catalog.Entries.valuation
  unfold Catalog.Entries.dimension
  simp only [h.mem_base]

/-- The entries are a solution of the equations of unfolding. -/
theorem obeys (h : Built definitions base c) :
    c.valuation.Obeys definitions base := by
  rw [h.valuation_eq]
  exact h.settled.obeys h.checked.nodup h.checked.derived h.covers

/-- All entries are canonical and speak of base units only. -/
theorem wellFormed (h : Built definitions base c) :
    c.entries.WellFormed c.base := by
  intro name form hform
  obtain ⟨hcanonical, hbase⟩ := h.settled.wellFormed name form hform
  exact ⟨hcanonical, fun p hp => (h.mem_base _).2 (hbase p hp)⟩

/-- The derived units are those that are defined. -/
theorem exists_lookup_iff (h : Built definitions base c) (name : String) :
    (∃ form, c.entries.lookup name = some form) ↔
      name ∈ definitions.names := by
  constructor
  · intro hexists
    obtain ⟨form, hform⟩ := hexists
    obtain ⟨definition, hmem, -⟩ := h.settled.gathers hform
    exact Definitions.mem_names hmem
  · intro hname
    obtain ⟨d, hd, rfl⟩ := List.mem_map.1 hname
    exact h.covers d hd

/-- The entry of a derived unit is the product of its targets. -/
theorem gathers (h : Built definitions base c)
    {d : String × Definition α} (hd : d ∈ definitions) :
    ∃ form, c.entries.lookup d.1 = some form
      ∧ Gathers base c.entries d.2.ratio d.2.targets form :=
  h.settled.gathers_of_mem h.checked.nodup h.covers hd

end Built

-- ====================================================== when it exists

/-- What a table is like that has a catalog. That a valuation obeys the
table says that every power on the way to a factor can be taken. -/
structure Buildable (definitions : Definitions α) (base : List String) :
    Prop where
  base_ne_nil : base ≠ []
  checked : Checked definitions base
  closed : ∀ d ∈ definitions, ∀ t ∈ d.2.targets,
    t.name ∈ base ∨ t.name ∈ definitions.names
  acyclic : definitions.Acyclic
  fits : ∃ v : Valuation α, v.Obeys definitions base
    ∧ ∀ d ∈ definitions, ∀ done next, done ++ [next] <+: d.2.targets →
      v.Fits base done next

/-- What is built had nothing wrong with it. Only the entries say this:
each has a gathered row behind it, and none leads back to itself. -/
theorem Built.buildable {c : Catalog α} (h : Built definitions base c) :
    Buildable definitions base where
  base_ne_nil := h.base_ne_nil
  checked := h.checked
  closed d hd t ht := by
    obtain ⟨form, -, hgathers⟩ := h.gathers hd
    exact (hgathers.has t ht).imp_right (h.exists_lookup_iff t.name).1
  acyclic name hcycle := by
    obtain ⟨next, hfirst, -⟩ := Relation.TransGen.head'_iff.1 hcycle
    obtain ⟨definition, hmem, -⟩ := hfirst
    exact h.settled.acyclic h.checked.nodup h.checked.derived
      (h.covers _ hmem) hcycle
  fits := by
    refine ⟨c.valuation, h.obeys, fun d hd done next hnext => ?_⟩
    obtain ⟨form, -, hgathers⟩ := h.gathers hd
    rw [h.valuation_eq]
    exact hgathers.fits (c.entries.matches_valuation base)
      h.settled.wellFormed hnext

/-- Where a valuation obeys a table, no power fails on the way. -/
theorem Valuation.Obeys.not_powerFails {v : Valuation α}
    (hv : v.Obeys definitions base) {name : String} {done : List Target}
    {next : Target} {known : Catalog.Entries α}
    (hstage : Stage definitions base name done next known) :
    ¬ PowerFails known base next := by
  obtain ⟨definition, hmem, hnext⟩ := hstage.within
  obtain ⟨before, after, -, hstep⟩ :=
    exists_of_foldlM_eq_ok (hv.factor _ hmem) hnext
  unfold Valuation.multiply at hstep
  obtain ⟨power, hpower, hstep⟩ := bind_eq_ok_iff.1 hstep
  intro hfails
  rcases hfails with hfail | ⟨hbase, inner, hinner, hfail⟩
  · exact not_exists_pow hfail ⟨power, hpower⟩
  · rw [if_neg hbase] at hstep
    obtain ⟨innerPower, hinnerPower, -⟩ := bind_eq_ok_iff.1 hstep
    rw [(hstage.settled.eq_of_obeys hv _ _ hinner).1] at hinnerPower
    exact not_exists_pow hfail ⟨innerPower, hinnerPower⟩

/-- No fault has anything to say about a buildable table. -/
theorem Buildable.not_explains (h : Buildable definitions base)
    (fault : Fault) : ¬ Explains definitions base fault := by
  obtain ⟨v, hv, hfits⟩ := h.fits
  intro hfault
  match fault with
  | .divisionByZero =>
    obtain ⟨name, done, next, known, hstage, hfail⟩ := hfault
    exact hv.not_powerFails hstage hfail
  | .construction .noBase => exact h.base_ne_nil hfault
  | .construction (.baseAndDerived name) =>
    obtain ⟨hbase, hname⟩ := hfault
    obtain ⟨d, hd, rfl⟩ := List.mem_map.1 hname
    exact h.checked.derived d hd hbase
  | .construction (.zeroRatio name) =>
    obtain ⟨definition, hmem, hzero⟩ := hfault
    rw [h.checked.ratio _ hmem] at hzero
    cases hzero
  | .construction (.definedTwice name) =>
    have hone := List.nodup_iff_count_le_one.1 h.checked.nodup name
    have htwo : 2 ≤ definitions.names.count name := hfault
    omega
  | .construction (.unknownTarget name target) =>
    obtain ⟨definition, hmem, ⟨t, ht, rfl⟩, hbase, hname⟩ := hfault
    rcases h.closed _ hmem t ht with hin | hin
    · exact hbase hin
    · exact hname hin
  | .construction (.cycle name) => exact h.acyclic name hfault
  | .construction (.overflow name) =>
    obtain ⟨done, next, known, hstage, hnext, hout⟩ := hfault
    obtain ⟨definition, hmem, hwithin⟩ := hstage.within
    refine hout (((hstage.settled.matches_of_obeys hv).fits_iff
      (known.matches_valuation base) hstage.has hnext).1 ?_)
    exact hfits _ hmem done next hwithin

/-- Building is total: a table that is buildable has a catalog, and any
other gets a fault that says what is wrong with it. The fault is one of
construction or a division by zero, and never that the walk has lost a
definition or an entry. -/
theorem exists_build_iff_buildable (definitions : Definitions α)
    (base : List String) :
    ((∃ c, Catalog.build definitions base = .ok c) ↔
        Buildable definitions base)
      ∧ ∀ fault, Catalog.build definitions base = .error fault →
        Explains definitions base fault
          ∧ (fault = .divisionByZero
            ∨ ∃ cause, fault = .construction cause
                ∧ ∀ name, cause ≠ .noDefinition name
                  ∧ cause ≠ .noEntry name) := by
  have hends := build_ends definitions base
  refine ⟨⟨?_, fun h => ?_⟩, fun fault hfault => ?_⟩
  · intro hexists
    obtain ⟨c, hc⟩ := hexists
    exact (hends.of_ok hc).buildable
  · cases hbuild : Catalog.build definitions base with
    | ok c => exact ⟨c, rfl⟩
    | error fault =>
      exact absurd (hends.of_error hbuild) (h.not_explains fault)
  · have hexplains := hends.of_error hfault
    refine ⟨hexplains, ?_⟩
    match fault with
    | .divisionByZero => exact .inl rfl
    | .construction cause =>
      refine .inr ⟨cause, rfl, fun name => ⟨?_, ?_⟩⟩
      · intro hcause
        subst hcause
        exact hexplains
      · intro hcause
        subst hcause
        exact hexplains

-- ======================================================== what it says

/-- Where one valuation obeys two tables, a name with an entry in both
has the same one. -/
theorem Settled.form_eq {definitions' : Definitions α}
    {known known' : Catalog.Entries α}
    (h : Settled definitions base known)
    (h' : Settled definitions' base known') {v : Valuation α}
    (hv : v.Obeys definitions base) (hv' : v.Obeys definitions' base)
    {name : String} {form form' : BaseForm α}
    (hform : known.lookup name = some form)
    (hform' : known'.lookup name = some form') : form' = form := by
  obtain ⟨hfactor, hexponent⟩ := h.eq_of_obeys hv _ _ hform
  obtain ⟨hfactor', hexponent'⟩ := h'.eq_of_obeys hv' _ _ hform'
  have hdimension : form'.dimension = form.dimension :=
    (h'.wellFormed _ _ hform').eq_of_exponentOf
      (h.wellFormed _ _ hform) fun b hb => by
        rw [← hexponent' b hb, hexponent b hb]
  obtain ⟨factor, dimension⟩ := form
  obtain ⟨factor', dimension'⟩ := form'
  cases hdimension
  cases hfactor.symm.trans hfactor'
  rfl

/-- Two walks through one table find the same entries. -/
theorem Settled.lookup_eq {known known' : Catalog.Entries α}
    (h : Settled definitions base known)
    (h' : Settled definitions base known')
    (hcovers : known.Covers definitions)
    (hcovers' : known'.Covers definitions) {v : Valuation α}
    (hv : v.Obeys definitions base) (name : String) :
    known'.lookup name = known.lookup name := by
  cases hform : known.lookup name with
  | none =>
    cases hform' : known'.lookup name with
    | none => rfl
    | some form =>
      obtain ⟨definition, hmem, -⟩ := h'.gathers hform'
      obtain ⟨inner, hinner⟩ := hcovers _ hmem
      rw [hform] at hinner
      cases hinner
  | some form =>
    obtain ⟨definition, hmem, -⟩ := h.gathers hform
    obtain ⟨form', hform'⟩ := hcovers' _ hmem
    rw [hform', h.form_eq h' hv hv hform hform']

/-- A catalog is the meaning of its definitions. It has an entry for
each of them, canonical and over base units alone. The entries obey the
definitions, and whatever else obeys them agrees with the entries. A
walk through the definitions in any order finds the same entries. -/
theorem build_unfolds {c : Catalog α}
    (h : Catalog.build definitions base = .ok c) :
    (∀ name, (∃ form, c.entries.lookup name = some form) ↔
        name ∈ definitions.names)
      ∧ (∀ name form, c.entries.lookup name = some form →
          form.dimension.CanonicalOver base)
      ∧ c.valuation.Obeys definitions base
      ∧ (∀ v : Valuation α, v.Obeys definitions base →
          ∀ name form, c.entries.lookup name = some form →
            form.factor = v.factor name
              ∧ ∀ b ∈ base,
                  form.dimension.exponentOf b = v.exponent name b)
      ∧ ∀ order : Definitions α, order.Perm definitions →
          ∃ known, Expansion.entries ⟨base, order⟩ = .ok known
            ∧ ∀ name, known.lookup name = c.entries.lookup name := by
  have hbuilt := Built.of_build h
  refine ⟨hbuilt.exists_lookup_iff, hbuilt.settled.wellFormed,
    hbuilt.obeys, fun v hv name form hform => ?_, fun order horder => ?_⟩
  · obtain ⟨hfactor, hexponent⟩ :=
      hbuilt.settled.eq_of_obeys hv name form hform
    exact ⟨hfactor.symm, fun b hb => (hexponent b hb).symm⟩
  · have hends := entries_ends ⟨base, order⟩ horder
    cases hentries : Expansion.entries ⟨base, order⟩ with
    | error fault =>
      exact absurd (hends.of_error hentries)
        (hbuilt.buildable.not_explains fault)
    | ok known =>
      obtain ⟨hknown, hcovers⟩ := hends.of_ok hentries
      exact ⟨known, rfl, hbuilt.settled.lookup_eq hknown hbuilt.covers
        hcovers hbuilt.obeys⟩

/-- A box is a face times an edge and a face is an edge times an edge,
so that three ways lead to the edge. -/
def boxTable : Definitions :=
  [("box", .product [.unit "face", .unit "edge"]),
   ("edge", .product [.scaled .kilo "m"]),
   ("face", .product [.unit "edge", .unit "edge"])]

/-- Boxes, faces and edges have no fault. -/
theorem exists_build_boxTable :
    ∃ c, Catalog.build boxTable ["m"] = .ok c := by
  have hsort : boxTable.mergeSort Catalog.namesInOrder = boxTable :=
    List.mergeSort_of_pairwise (by decide)
  have htwo : Exponent.add? 1 1 = some 2 := by decide
  have hthree : Exponent.add? 2 1 = some 3 := by decide
  simp only [Catalog.build, hsort, Expansion.entries]
  simp +decide [boxTable, Definition.product, Target.unit, Target.scaled,
    Catalog.check, Expansion.entry, Expansion.expand, Scientific.pow_one,
    Exponent.mul?_one, htwo, hthree, List.lookup_cons, Dimension.add?,
    Dimension.addScaled?, Dimension.consNonzero, bind, Except.bind, pure,
    Except.pure]

/-- The box comes to the third power of its base unit. -/
theorem Valuation.Obeys.exponent_box {v : Valuation Scientific}
    (hv : v.Obeys boxTable ["m"]) : v.exponent "box" "m" = 3 := by
  have hbase := hv.base_unit "m" (by simp) "m" (by simp)
  have hexponent := fun d hd => hv.exponent d hd "m" (by simp)
  simp only [boxTable, Definition.product, Target.unit, Target.scaled,
    Valuation.total, List.forall_mem_cons, Exponent.val_one, if_true]
    at hexponent hbase
  omega

/-- A box is a face times an edge, so three edges. -/
theorem build_unfolds_boxTable :
    ∃ c, Catalog.build boxTable ["m"] = .ok c
      ∧ c.valuation.exponent "box" "m" = 3 := by
  obtain ⟨c, hc⟩ := exists_build_boxTable
  obtain ⟨-, -, hobeys, -, -⟩ := build_unfolds hc
  exact ⟨c, hc, hobeys.exponent_box⟩

end UnitAlgebra
