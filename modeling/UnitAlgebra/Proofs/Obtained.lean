/-
Every measure there is to be had. A measure comes from its two forms,
from its written form alone or from a number, from a text or a written
form that a catalog reduces, or from an operation on measures had
before (`Obtained`). Each of these builds its dimension in a way of its
own.

# The invariant

A measure which has a base form has it in canonical form
(`Measure.Arranged`); a base form that is missing stays missing until a
catalog supplies it. Operations keep this because they work on exponents
(`UnitAlgebra.Proofs.Exponents`), and what is built from forms has it
because forms are put in order first. `Obtained.arranged` goes through
all ways by induction.

# What follows

Canonical lists are equal when their exponents are, so measures may be
compared list against list (`obtained_canonical`).

Forms with a base unit that stands twice are refused, and this is the
one fault of that kind: nothing that a unit system does ever puts such
forms together. What reducing gives can always be made a measure
(`Catalog.exists_ofForms_reduce`), so reading and completing fail only
where the reader or the reduction does (`Catalog.fault_of_readWith`,
`Catalog.fault_of_complete`).

The order of a canonical list is that of the bytes of its names, which
is the order of the names themselves (`Text.bytes_lt_iff`).
-/
import UnitAlgebra.Proofs.ByteOrder
import UnitAlgebra.Proofs.Totals

namespace UnitAlgebra

namespace Measure

-- ======================================================= both forms given

section

variable {α : Type} {factor : α} {terms : List (Term α)}
  {form : BaseForm α} {m : Measure α}

/-- If there is a base form, it is in canonical form. -/
def Arranged (m : Measure α) : Prop :=
  ∀ form, m.baseForm = some form → form.dimension.Canonical

/-- Two forms: the powers are sorted and zeros are left out. -/
theorem arranged_ofForms (h : ofForms factor terms form = .ok m) :
    m.Arranged := by
  obtain ⟨hnodup, rfl⟩ := ofForms_eq_ok_iff.1 h
  intro arranged harranged
  cases harranged
  exact Dimension.canonical_arrange hnodup

/-- A measure has the exponents that it was given, in whatever order
they were listed. -/
theorem exponentOf_of_ofForms (h : ofForms factor terms form = .ok m) :
    ∃ arranged, m.baseForm = some arranged
      ∧ ∀ base, arranged.dimension.exponentOf base
          = form.dimension.exponentOf base := by
  obtain ⟨hnodup, rfl⟩ := ofForms_eq_ok_iff.1 h
  exact ⟨_, rfl, Dimension.exponentOf_arrange hnodup⟩

/-- Two forms make a measure unless a base unit stands twice. -/
theorem exists_ofForms_iff :
    (∃ m, ofForms factor terms form = .ok m) ↔
      (form.dimension.map BasePower.base).Nodup := by
  constructor
  · rintro ⟨m, hm⟩
    exact (ofForms_eq_ok_iff.1 hm).1
  · intro hnodup
    exact ⟨_, ofForms_eq_ok_iff.2 ⟨hnodup, rfl⟩⟩

/-- A repeated base unit is the only fault of two forms. -/
theorem exists_fault_ofForms_iff :
    (∃ fault, ofForms factor terms form = .error fault) ↔
      ¬ (form.dimension.map BasePower.base).Nodup :=
  exists_error_iff.trans (not_congr exists_ofForms_iff)

end

-- ========================================================= operations

variable {α : Type} [Scalar α] {m n result : Measure α}

/-- A product asks both measures for base forms, and adds one into the
other. -/
theorem Arranged.mul (hm : m.Arranged) (hn : n.Arranged)
    (h : m.mul n = .ok result) : result.Arranged := by
  obtain ⟨left, right, _, hleft, hright, -⟩ := mul_eq_ok h
  have hspans := Spans.mul ⟨left, hleft, (hm left hleft).spells⟩
    ⟨right, hright, (hn right hright).spells⟩ h
  exact fun form hform => (hspans.spells hform).canonical

/-- A reciprocal has a base form only if the measure has one. -/
theorem baseForm_of_inverse (h : m.inverse = .ok result)
    (hm : m.baseForm = none) : result.baseForm = none := by
  obtain ⟨turned, hturned, h⟩ := bind_eq_ok_iff.1 h
  obtain ⟨factor, -, h⟩ := bind_eq_ok_iff.1 h
  rw [hm] at hturned
  cases hturned
  split at h
  · cases h
    rfl
  · cases h

/-- A reciprocal works on the base form if there is one. -/
theorem Arranged.inverse (hm : m.Arranged) (h : m.inverse = .ok result) :
    result.Arranged := by
  intro form hform
  cases hown : m.baseForm with
  | none =>
    rw [baseForm_of_inverse h hown] at hform
    cases hform
  | some own =>
    have hspans := Spans.inverse ⟨own, hown, (hm own hown).spells⟩ h
    exact (hspans.spells hform).canonical

/-- A quotient is a product with a reciprocal. -/
theorem Arranged.div (hm : m.Arranged) (hn : n.Arranged)
    (h : m.div n = .ok result) : result.Arranged := by
  obtain ⟨turned, hturned, h⟩ := div_eq_ok h
  exact hm.mul (hn.inverse hturned) h

end Measure

-- ============================================================ catalogs

namespace Catalog

variable {definitions : Definitions} {base : List String} {c : Catalog}

/-- A reduced form can always be given to a measure. -/
theorem exists_ofForms_reduce
    (hc : Catalog.build definitions base = .ok c) {terms : List Term}
    {form : BaseForm} (h : c.reduce terms = .ok form)
    (factor x : Scientific) (written : List Term) :
    ∃ m, Measure.ofForms factor written { form with factor := x }
      = .ok m :=
  Measure.exists_ofForms_iff.2
    (spells_reduce (Built.of_build hc).wellFormed h).canonical.nodup

/-- Reading fails only in the reader or in reducing. -/
theorem fault_of_readWith (hc : Catalog.build definitions base = .ok c)
    {reader : String → Except Fault (List Term)} {text : String}
    {fault : Fault} (h : c.readWith reader text = .error fault) :
    reader text = .error fault
      ∨ ∃ terms, reader text = .ok terms
          ∧ c.reduce terms = .error fault := by
  unfold readWith at h
  split at h
  · cases h
  · split at h
    · cases h
    · obtain hreader | ⟨terms, hterms, h⟩ := bind_eq_error_iff.1 h
      · exact .inl hreader
      · obtain hreduce | ⟨form, hform, h⟩ := bind_eq_error_iff.1 h
        · exact .inr ⟨terms, hterms, hreduce⟩
        · obtain ⟨m, hm⟩ :=
            exists_ofForms_reduce hc hform 1 form.factor terms
          cases hm.symm.trans h

/-- Supplying a base form fails only in reducing. -/
theorem fault_of_complete (hc : Catalog.build definitions base = .ok c)
    {m : Measure} {fault : Fault} (h : c.complete m = .error fault) :
    c.reduce m.terms = .error fault := by
  unfold complete at h
  split at h
  · cases h
  · obtain hreduce | ⟨form, hform, h⟩ := bind_eq_error_iff.1 h
    · exact hreduce
    · obtain ⟨result, hresult⟩ := exists_ofForms_reduce hc hform
        m.factor (form.factor * m.factor) m.terms
      cases hresult.symm.trans h

/-- A text is one of three things: empty, a number, or a row of terms
that is reduced. -/
theorem arranged_readWith {reader : String → Except Fault (List Term)}
    {text : String} {m : Measure} (h : c.readWith reader text = .ok m) :
    m.Arranged := by
  have hscalar : ∀ x : Scientific, (Measure.scalar x).Arranged := by
    intro x form hform
    cases hform
    exact Dimension.canonical_nil
  unfold readWith at h
  split at h
  · cases h
    exact hscalar 1
  · split at h
    · cases h
      exact hscalar _
    · obtain ⟨terms, -, h⟩ := bind_eq_ok_iff.1 h
      obtain ⟨form, -, h⟩ := bind_eq_ok_iff.1 h
      exact Measure.arranged_ofForms h

/-- A base form that is there already is kept, and one that is supplied
comes from reducing. -/
theorem arranged_complete {m result : Measure} (hm : m.Arranged)
    (h : c.complete m = .ok result) : result.Arranged := by
  unfold complete at h
  split at h
  · cases h
    exact hm
  · obtain ⟨form, -, h⟩ := bind_eq_ok_iff.1 h
    exact Measure.arranged_ofForms h

end Catalog

-- ======================================================= every measure

/-- The measures that can be had, through any catalogs and readers. -/
inductive Obtained : Measure → Prop where
  | ofForms {factor : Scientific} {terms : List Term} {form : BaseForm}
      {m : Measure} (h : Measure.ofForms factor terms form = .ok m) :
      Obtained m
  | written (factor : Scientific) (terms : List Term) :
      Obtained (.written factor terms)
  | scalar (factor : Scientific) : Obtained (.scalar factor)
  | dimensionless : Obtained .dimensionless
  | mul {m n product : Measure} (hm : Obtained m) (hn : Obtained n)
      (h : m.mul n = .ok product) : Obtained product
  | div {m n quotient : Measure} (hm : Obtained m) (hn : Obtained n)
      (h : m.div n = .ok quotient) : Obtained quotient
  | inverse {m turned : Measure} (hm : Obtained m)
      (h : m.inverse = .ok turned) : Obtained turned
  | read {definitions : Definitions} {base : List String} {c : Catalog}
      {reader : String → Except Fault (List Term)} {text : String}
      {m : Measure} (hc : Catalog.build definitions base = .ok c)
      (h : c.readWith reader text = .ok m) : Obtained m
  | complete {definitions : Definitions} {base : List String}
      {c : Catalog} {m result : Measure}
      (hc : Catalog.build definitions base = .ok c) (hm : Obtained m)
      (h : c.complete m = .ok result) : Obtained result

/-- The invariant over everything that can be done, one case for each
way to come by a measure. -/
theorem Obtained.arranged {m : Measure} (h : Obtained m) :
    m.Arranged := by
  induction h with
  | ofForms h => exact Measure.arranged_ofForms h
  | written factor terms => exact fun form hform => nomatch hform
  | scalar factor =>
    intro form hform
    cases hform
    exact Dimension.canonical_nil
  | dimensionless =>
    intro form hform
    cases hform
    exact Dimension.canonical_nil
  | mul _ _ h ihm ihn => exact ihm.mul ihn h
  | div _ _ h ihm ihn => exact ihm.div ihn h
  | inverse _ h ihm => exact ihm.inverse h
  | read _ h => exact Catalog.arranged_readWith h
  | complete _ _ h ihm => exact Catalog.arranged_complete ihm h

/-- Whatever measure is had, its dimension ascends by the bytes of the
names and holds no exponent zero, if it is there at all. Two forms fail
to make a measure exactly when a base unit stands twice, and no reading
and no reducing fails for that reason. So dimensions are the same list
exactly when they give every base unit the same exponent. -/
theorem obtained_canonical :
    (∀ m, Obtained m → ∀ form, m.baseForm = some form →
        form.dimension.Pairwise
            (fun p q => Text.bytes p.base < Text.bytes q.base)
          ∧ ∀ p ∈ form.dimension, p.exponent ≠ 0)
      ∧ (∀ (factor : Scientific) (terms : List Term) (form : BaseForm),
          (∃ fault, Measure.ofForms factor terms form = .error fault) ↔
            ¬ (form.dimension.map BasePower.base).Nodup)
      ∧ (∀ (definitions : Definitions) (base : List String)
          (c : Catalog), Catalog.build definitions base = .ok c →
            (∀ reader text fault,
                c.readWith reader text = .error fault →
                  reader text = .error fault
                    ∨ ∃ terms, reader text = .ok terms
                        ∧ c.reduce terms = .error fault)
              ∧ ∀ m fault, c.complete m = .error fault →
                  c.reduce m.terms = .error fault)
      ∧ ∀ m n, Obtained m → Obtained n → ∀ form form',
          m.baseForm = some form → n.baseForm = some form' →
            (form.dimension = form'.dimension ↔
              ∀ base, form.dimension.exponentOf base
                = form'.dimension.exponentOf base) := by
  refine ⟨fun m hm form hform => ?_, fun factor terms form => ?_,
    fun definitions base c hc => ⟨?_, ?_⟩,
    fun m n hm hn form form' hform hform' => ?_⟩
  · obtain ⟨hascending, hnonzero⟩ := hm.arranged form hform
    refine ⟨hascending.imp ?_, hnonzero⟩
    exact fun hlt => (Text.bytes_lt_iff _ _).2 hlt
  · exact Measure.exists_fault_ofForms_iff
  · exact fun reader text fault => Catalog.fault_of_readWith hc
  · exact fun m fault => Catalog.fault_of_complete hc
  · refine ⟨fun heq base => by rw [heq], fun hsame => ?_⟩
    exact (hm.arranged form hform).eq_of_exponentOf
      (hn.arranged form' hform') hsame

/-- Metres per second, given in two ways; a metre that is listed twice;
and a catalog of the metre, which reads nothing that its reader cannot
read and completes nothing that is measured in seconds. -/
theorem obtained_canonical_speed :
    ∃ (speed again : Measure) (form form' : BaseForm) (c : Catalog),
      Measure.ofForms 1 []
          ⟨1, [⟨"s", -1⟩, ⟨"g", 0⟩, ⟨"m", 1⟩]⟩ = .ok speed
        ∧ Measure.ofForms 1 [] ⟨1, [⟨"m", 1⟩, ⟨"s", -1⟩]⟩ = .ok again
        ∧ speed.baseForm = some form ∧ again.baseForm = some form'
        ∧ Catalog.build [] ["m"] = .ok c
        ∧ (form.dimension.Pairwise
              (fun p q => Text.bytes p.base < Text.bytes q.base)
            ∧ ∀ p ∈ form.dimension, p.exponent ≠ 0)
        ∧ (∃ fault, Measure.ofForms (1 : Scientific) []
            ⟨1, [⟨"m", 1⟩, ⟨"m", 2⟩]⟩ = .error fault)
        ∧ (∃ fault, c.readWith (fun text => .error (.unreadable text)) "s"
              = .error fault ∧ fault = .unreadable "s")
        ∧ (∃ fault, c.complete (.written 1 [.simple "s" 1]) = .error fault
            ∧ c.reduce [.simple "s" 1] = .error fault)
        ∧ form.dimension = form'.dimension := by
  obtain ⟨hcanonical, hrepeated, hcatalog, hequal⟩ := obtained_canonical
  have hspeed : ∃ m, Measure.ofForms (1 : Scientific) []
      ⟨1, [⟨"s", -1⟩, ⟨"g", 0⟩, ⟨"m", 1⟩]⟩ = .ok m :=
    Measure.exists_ofForms_iff.2 (by decide)
  have hagain : ∃ m, Measure.ofForms (1 : Scientific) []
      ⟨1, [⟨"m", 1⟩, ⟨"s", -1⟩]⟩ = .ok m :=
    Measure.exists_ofForms_iff.2 (by decide)
  obtain ⟨speed, hspeed⟩ := hspeed
  obtain ⟨again, hagain⟩ := hagain
  obtain ⟨form, hform, hexponents⟩ :=
    Measure.exponentOf_of_ofForms hspeed
  obtain ⟨form', hform', hexponents'⟩ :=
    Measure.exponentOf_of_ofForms hagain
  have hsame : ∀ base, form.dimension.exponentOf base
      = form'.dimension.exponentOf base := by
    intro base
    rw [hexponents, hexponents']
    by_cases hsecond : "s" = base
    · subst hsecond
      decide
    · by_cases hmetre : "m" = base
      · subst hmetre
        decide
      · simp [Dimension.exponentOf, hsecond, hmetre]
  have hrun : (do
      let c ← Catalog.build [] ["m"]
      return (c.readWith (fun text => .error (.unreadable text))
          "s").toOption.isNone
        && (c.complete (.written 1 [.simple "s" 1])).toOption.isNone
      : Except Fault Bool).toOption = some true := by
    decide +kernel
  obtain ⟨c, hc, hrun⟩ := bind_eq_ok_iff.1 (eq_ok_of_toOption hrun)
  obtain ⟨hnone, hnone'⟩ := Bool.and_eq_true_iff.1 (Except.ok.inj hrun)
  obtain ⟨hread, hcomplete⟩ := hcatalog [] ["m"] c hc
  have hfails : (∃ fault, c.readWith
        (fun text => .error (.unreadable text)) "s" = .error fault)
      ∧ ∃ fault, c.complete (.written 1 [.simple "s" 1])
          = .error fault := by
    rw [exists_error_iff, exists_error_iff]
    constructor
    · rintro ⟨m, hm⟩
      rw [hm] at hnone
      cases hnone
    · rintro ⟨m, hm⟩
      rw [hm] at hnone'
      cases hnone'
  obtain ⟨⟨fault, hunread⟩, ⟨fault', hincomplete⟩⟩ := hfails
  refine ⟨speed, again, form, form', c, hspeed, hagain, hform, hform', hc,
    hcanonical speed (.ofForms hspeed) form hform,
    (hrepeated _ _ _).2 (by decide), ⟨fault, hunread, ?_⟩,
    ⟨fault', hincomplete, hcomplete _ fault' hincomplete⟩,
    (hequal speed again (.ofForms hspeed) (.ofForms hagain) form form'
      hform hform').2 hsame⟩
  rcases hread _ "s" fault hunread with hreader | ⟨terms, hreader, -⟩
  · cases hreader
    rfl
  · cases hreader

end UnitAlgebra
