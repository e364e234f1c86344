/-
Which texts are read with finite factors. The grammar takes digits
without end, and the number in front of a symbol becomes a double
whether there is room for it or not; only a plain number is refused when
it overflows. So a measure that is read has nothing infinite in it
exactly when every number in front of a symbol is below the edge of the
doubles (`read_isFinite_iff`).

# Where infinities come from

They come from numbers in front of symbols. Those from the edge on
(`Text.Numeral.TooGreat`) are infinite as soon as they are read, and
stay so as the coefficients of their terms.

# Where they do not come from

Nothing else leads out of what is finite. Definitions, prefixes, powers
and the terms themselves are put together by products and reciprocals of
numbers in normal form. These have moderate mantissas
(`Scientific.Moderate`), which multiply without overflow and are brought
back to normal form after each step, whatever happens to their
exponents. That carries over from targets to rows of them
(`Gathers.moderate`), from rows to the entries of a catalog
(`Settled.moderate`) and from entries to the terms that are reduced
(`Catalog.moderate_of_reduce`).
-/
import UnitAlgebra.Proofs.Coefficients
import UnitAlgebra.Proofs.Memory
import UnitAlgebra.Proofs.Overflow
import UnitAlgebra.Proofs.Reduction

namespace UnitAlgebra

namespace Scientific

/-- A finite number as it is made from its parts. All finite numbers of a
unit system are. -/
def Normal (x : Scientific) : Prop :=
  ∃ mantissa exponent, mantissa.isFinite = true
    ∧ ofParts mantissa exponent = x

/-- The mantissa of a number in normal form is between one and ten, or
it is zero. -/
theorem Normal.moderate {x : Scientific} (h : x.Normal) : x.Moderate := by
  obtain ⟨mantissa, exponent, hfinite, rfl⟩ := h
  exact moderate_ofParts hfinite exponent

/-- Every finite double is brought into normal form. -/
theorem normal_ofFloat {x : Float} (h : x.isFinite = true) :
    (ofFloat x).Normal :=
  ⟨x, 0, h, rfl⟩

/-- A prefix has the mantissa one. -/
theorem moderate_factor (p : SIPrefix) :
    Moderate (p.factor : Scientific) :=
  moderate_ofParts (by decide) p.power

/-- A double is finite when its normal form is. -/
theorem isFinite_ofFloat_iff {x : Float} :
    (ofFloat x).mantissa.isFinite = true ↔ x.isFinite = true := by
  refine ⟨fun h => ?_, fun h => (moderate_ofParts h 0).isFinite⟩
  by_contra hinfinite
  have hzero : ¬ (x == 0.0) = true := fun hzero =>
    hinfinite (Double.isFinite_of_beq hzero (by decide))
  unfold ofFloat ofParts at h
  rw [if_neg hzero, if_pos hinfinite] at h
  exact hinfinite h

end Scientific

-- ============================================================= catalogs

/-- Every entry has a moderate factor. -/
def Catalog.Entries.Moderate (known : Catalog.Entries) : Prop :=
  ∀ name form, known.lookup name = some form → form.factor.Moderate

section

variable {base : List String} {known : Catalog.Entries}

/-- A moderate factor times a target is moderate. -/
theorem Times.moderate {form product : BaseForm Scientific} {t : Target}
    (h : Times base known form t product) (hknown : known.Moderate)
    (hform : form.factor.Moderate) : product.factor.Moderate := by
  have hscale := Scientific.moderate_factor t.scale
  cases h with
  | base _ hpower _ => exact hform.mul (hscale.pow hpower)
  | derived _ hinner hpower hinnerPower _ =>
    exact (hform.mul (hscale.pow hpower)).mul
      ((hknown _ _ hinner).pow hinnerPower)

/-- A row of targets multiplies moderate numbers, powers of them
included. -/
theorem Gathers.moderate {ratio : Scientific} {targets : List Target}
    {form : BaseForm Scientific}
    (h : Gathers base known ratio targets form)
    (hknown : known.Moderate) (hratio : ratio.Moderate) :
    form.factor.Moderate := by
  induction h with
  | start => exact hratio
  | step _ ht ih => exact ht.moderate hknown ih

/-- From moderate ratios come moderate entries. -/
theorem Settled.moderate {definitions : Definitions}
    (h : Settled definitions base known)
    (hratios : ∀ d ∈ definitions, d.2.ratio.Moderate) :
    known.Moderate := by
  induction h with
  | nil => exact fun name form h => nomatch h
  | cons _ _ hdefinition hform ih =>
    intro other inner hother
    rcases Catalog.Entries.eq_or_lookup_of_lookup_cons hother with
      ⟨-, rfl⟩ | hother
    · have hratio := hratios _ hdefinition
      exact Gathers.moderate hform ih hratio
    · exact ih other inner hother

end

/-- From moderate coefficients comes a moderate factor. -/
theorem Catalog.moderate_of_reduce {c : Catalog} {terms : List Term}
    {form : BaseForm Scientific} (hentries : c.entries.Moderate)
    (hterms : ∀ t ∈ terms, t.coefficient.Moderate)
    (h : c.reduce terms = .ok form) : form.factor.Moderate := by
  have hends : Ends (fun form : BaseForm Scientific =>
      form.factor.Moderate) (fun _ => True) (c.reduce terms) := by
    refine Ends.foldlM (fun _ (form : BaseForm Scientific) =>
      form.factor.Moderate) Scientific.moderate_one ?_
    intro done t form hprefix hform
    refine ((c.reduceTerm_ends form t).mono_bad
      fun _ _ => trivial).mono ?_
    rintro product ⟨-, coefficient, hcoefficient, htimes⟩
    have ht : t ∈ terms := hprefix.subset (by simp)
    exact htimes.moderate hentries
      (hform.mul ((hterms t ht).pow hcoefficient))
  exact hends.of_ok h

-- ============================================================= measures

/-- No factor of a measure is infinite, or no number: not the one in
front, not those of its terms and not the one of its base form. -/
structure Measure.Finite (m : Measure) : Prop where
  factor : m.factor.mantissa.isFinite = true
  terms : ∀ t ∈ m.terms, t.coefficient.mantissa.isFinite = true
  baseForm : ∃ form, m.baseForm = some form
    ∧ form.factor.mantissa.isFinite = true

/-- A number without terms has just the one factor. -/
theorem Measure.finite_scalar {x : Scientific}
    (h : x.mantissa.isFinite = true) : (Measure.scalar x).Finite :=
  ⟨h, fun _ ht => absurd ht List.not_mem_nil, _, rfl, h⟩

/-- A number that is beyond every double. -/
def Text.Numeral.TooGreat (n : Text.Numeral) : Prop :=
  Double.overflow * 10 ^ n.fractionChars.length
    ≤ Number.ofDigits (n.whole.chars ++ n.fractionChars)

/-- A numeral is rounded to an infinity exactly from the edge on,
however long it is. -/
theorem Text.Numeral.isFinite_value_iff (n : Text.Numeral) :
    n.value.mantissa.isFinite = true ↔ ¬ n.TooGreat := by
  unfold Text.Numeral.value Text.Numeral.TooGreat
  rw [Scientific.isFinite_ofFloat_iff, Number.isFinite_nearest_iff,
    Nat.not_le]

/-- A finite coefficient is in normal form. -/
theorem Text.Numeral.moderate_value {n : Text.Numeral}
    (h : ¬ n.TooGreat) : n.value.Moderate :=
  Scientific.moderate_ofParts
    (Scientific.isFinite_ofFloat_iff.1 (n.isFinite_value_iff.2 h)) 0

/-- Alone, a number is a scalar unless it is too great. -/
theorem UnitSystem.plainNumber?_text_eq_none_iff (n : Text.Numeral) :
    plainNumber? (String.ofList n.text) = none ↔ n.TooGreat := by
  rw [plainNumber?_text, Option.filter_eq_none_iff]
  simp only [Option.some.injEq, forall_eq']
  rw [Number.isFinite_nearest_iff, Nat.not_lt]
  rfl

/-- The measure of a row of terms is finite when its numbers are. -/
theorem Catalog.finite_measure_iff {c : Catalog} {terms : List Term}
    {m : Measure} {numbers : Text.Numeral → Prop}
    (hentries : c.entries.Moderate) (hcarries : Carries numbers terms)
    (h : c.measure terms = .ok m) :
    m.Finite ↔ ∀ n, numbers n → ¬ n.TooGreat := by
  obtain ⟨form, hform, h⟩ := bind_eq_ok_iff.1 h
  unfold Measure.ofForms at h
  split at h
  · cases h
  · cases h
    constructor
    · intro hfinite n hn
      obtain ⟨t, ht, hvalue⟩ := hcarries.exists_mem n hn
      have hcoefficient := hfinite.terms t ht
      rw [hvalue] at hcoefficient
      exact n.isFinite_value_iff.1 hcoefficient
    · intro hnumbers
      have hterms : ∀ t ∈ terms, t.coefficient.Moderate := by
        intro t ht
        rcases hcarries.eq_value t ht with hone | ⟨n, hn, hvalue⟩
        · rw [hone]
          exact Scientific.moderate_one
        · rw [hvalue]
          exact Text.Numeral.moderate_value (hnumbers n hn)
      exact ⟨Scientific.moderate_one.isFinite,
        fun t ht => (hterms t ht).isFinite, _, rfl,
        (moderate_of_reduce hentries hterms hform).isFinite⟩

-- ============================================================== reading

/-- Over ratios that are finite, what a text is read as is finite exactly
when each number in front of a symbol is below the edge of the doubles,
however many digits it has. To remember texts makes no difference. The
numbers beyond the edge are those that are refused when they stand
alone. -/
theorem read_isFinite_iff {system : UnitSystem}
    {definitions : Definitions} {base : List String}
    (hcatalog : Catalog.build definitions base = .ok system.catalog)
    (hratios : ∀ d ∈ definitions, d.2.ratio.Normal) {text : String}
    {m : Measure} (hread : system.read text = .ok m) :
    (m.Finite ↔ ∀ n, system.reader.Numbers text.toList n → ¬ n.TooGreat)
      ∧ (∀ memory, system.Remembers memory →
          ((system.readRemembering text).run.run memory).1 = .ok m)
      ∧ ∀ n : Text.Numeral,
          UnitSystem.plainNumber? (String.ofList n.text) = none
            ↔ n.TooGreat := by
  have hentries := (Built.of_build hcatalog).settled.moderate
    fun d hd => (hratios d hd).moderate
  refine ⟨?_, fun memory hmemory =>
    (hmemory.faithful.read_eq text).trans hread,
    UnitSystem.plainNumber?_text_eq_none_iff⟩
  unfold UnitSystem.read at hread
  split at hread
  · next hempty =>
    cases hread
    exact iff_of_true
      (Measure.finite_scalar Scientific.moderate_one.isFinite)
      fun n hn => absurd hempty hn.plainNumber?_eq_none.1
  · split at hread
    · next number hplain =>
      cases hread
      obtain ⟨-, hfinite⟩ := Option.filter_eq_some_iff.1 hplain
      refine iff_of_true (Measure.finite_scalar
        (Scientific.isFinite_ofFloat_iff.2 hfinite)) fun n hn => ?_
      have hnone := hn.plainNumber?_eq_none.2
      rw [hplain] at hnone
      cases hnone
    · obtain ⟨terms, hterms, hmeasure⟩ := bind_eq_ok_iff.1 hread
      exact Catalog.finite_measure_iff hentries
        (Reader.carries (Reader.read_eq_ok_iff.1 hterms)) hmeasure

/-- A table of one derived unit, with the ratio left open. -/
theorem build_mile {ratio : Scientific}
    (h : Scalar.isZero ratio = false) :
    Catalog.build [("mile", ⟨ratio, [.scaled .kilo "m"]⟩)] ["m"]
      = .ok ⟨["m"], [("mile", ⟨ratio * SIPrefix.factor .kilo,
          [⟨"m", 1⟩]⟩)]⟩ := by
  have hbase : (["m"].eraseDups.mergeSort : List String) = ["m"] := by
    decide +kernel
  simp only [Catalog.build, List.mergeSort_singleton, Expansion.entries]
  simp +decide [hbase, h, Target.scaled, Catalog.check, Expansion.entry,
    Expansion.expand, Scientific.pow_one, Dimension.add?,
    Dimension.consNonzero, List.lookup_cons, bind, Except.bind, pure,
    Except.pure]

/-- Two and a half is not too great, and so two and a half miles are
finite. -/
theorem read_isFinite_iff_miles :
    ∃ (system : UnitSystem) (m : Measure),
      Catalog.build [("mile", ⟨.ofFloat 1.609344, [.scaled .kilo "m"]⟩)] ["m"]
          = .ok system.catalog
        ∧ system.read "2.5 mile" = .ok m
        ∧ (∀ n, system.reader.Numbers "2.5 mile".toList n → ¬ n.TooGreat)
        ∧ m.Finite := by
  have hnonzero : Scalar.isZero (Scientific.ofFloat 1.609344) = false := by
    decide +kernel
  have hcatalog := build_mile hnonzero
  have hratios : ∀ d ∈ ([("mile", ⟨.ofFloat 1.609344, [.scaled .kilo "m"]⟩)]
      : Definitions), d.2.ratio.Normal := by
    intro d hd
    rw [List.mem_singleton.1 hd]
    dsimp only
    exact Scientific.normal_ofFloat (by decide +kernel)
  have hrun : (UnitSystem.read ⟨.dotted ⟨["mile"], []⟩, ⟨["m"],
      [("mile", ⟨.ofFloat 1.609344 * SIPrefix.factor .kilo,
        [⟨"m", 1⟩]⟩)]⟩⟩ "2.5 mile").toOption.isSome = true := by
    decide +kernel
  obtain ⟨m, hm⟩ := Option.isSome_iff_exists.1 hrun
  have hread := eq_ok_of_toOption hm
  -- the text is one piece, which starts with the number
  let number : Text.Numeral :=
    ⟨⟨['2'], by decide, by simp [Char.isDigit]⟩,
      some ⟨['5'], by decide, by simp [Char.isDigit]⟩⟩
  have hsmall : ¬ number.TooGreat := by
    unfold Text.Numeral.TooGreat
    decide +kernel
  have hnumbers : ∀ n, (Reader.dotted ⟨["mile"], []⟩).Numbers
      "2.5 mile".toList n → ¬ n.TooGreat := by
    rintro n ⟨hn⟩
    have hpieces : Dotted.pieces [] "2.5 mile".toList
        = [Dotted.written ⟨some number, "mile".toList⟩] := by
      decide +kernel
    rw [hpieces] at hn
    have hsame := Dotted.number_eq_of_written (by decide)
      (List.mem_singleton.1 hn).symm
    rw [← Option.some.inj hsame]
    exact hsmall
  exact ⟨_, m, hcatalog, hread, hnumbers,
    (read_isFinite_iff hcatalog hratios hread).1.2 hnumbers⟩

/-- The number `10 ^ 309`. -/
def pastDoubles : Text.Numeral where
  whole :=
    { chars := '1' :: List.replicate 309 '0'
      ne_nil := nofun
      isDigit := List.forall_mem_cons.2 ⟨rfl, fun c hc => by
        rw [List.eq_of_mem_replicate hc]
        rfl⟩ }
  fraction := none

/-- A one with 309 zeros is no plain number. But in front of a metre it
is read, with an infinite coefficient and an infinite factor. -/
theorem metres_past_doubles :
    ∃ reader catalog m,
      Reader.ofDotted ["m"] [] = .ok reader
        ∧ Catalog.build [] ["m"] = .ok catalog
        ∧ UnitSystem.plainNumber? (String.ofList pastDoubles.text) = none
        ∧ UnitSystem.read ⟨reader, catalog⟩
            (String.ofList (pastDoubles.text ++ [' ', 'm'])) = .ok m
        ∧ m.terms.map (·.coefficient.mantissa.isFinite) = [false]
        ∧ m.baseForm.map (·.factor.mantissa.isFinite) = some false := by
  have hgreat : pastDoubles.TooGreat := by
    unfold Text.Numeral.TooGreat
    decide +kernel
  have hplain : UnitSystem.plainNumber?
      (String.ofList (pastDoubles.text ++ [' ', 'm'])) = none := by
    refine UnitSystem.plainNumber?_of_mem (c := ' ') ?_ ?_
    · rw [String.toList_ofList]
      exact List.mem_append_right _ List.mem_cons_self
    · unfold Number.IsMark
      decide
  -- run on characters: a long text takes the kernel long to decode
  have hrun : (do
      let reader ← (Reader.ofDotted ["m"] []).toOption
      let catalog ← (Catalog.build [] ["m"]).toOption
      let terms ← reader.terms? (pastDoubles.text ++ [' ', 'm'])
      let m ← (catalog.measure terms).toOption
      return m.terms.map (·.coefficient.mantissa.isFinite) = [false]
        ∧ m.baseForm.map (·.factor.mantissa.isFinite) = some false
      : Option Bool) = some true := by
    decide +kernel
  obtain ⟨reader, hreader, hrun⟩ := Option.bind_eq_some_iff.1 hrun
  obtain ⟨catalog, hcatalog, hrun⟩ := Option.bind_eq_some_iff.1 hrun
  obtain ⟨terms, hread, hrun⟩ := Option.bind_eq_some_iff.1 hrun
  obtain ⟨m, hm, hrun⟩ := Option.bind_eq_some_iff.1 hrun
  obtain ⟨hterms, hbase⟩ := of_decide_eq_true (Option.some.inj hrun)
  refine ⟨reader, catalog, m, eq_ok_of_toOption hreader,
    eq_ok_of_toOption hcatalog,
    (UnitSystem.plainNumber?_text_eq_none_iff _).2 hgreat, ?_, hterms,
    hbase⟩
  unfold UnitSystem.read
  rw [if_neg (by simp [String.ext_iff]), hplain]
  refine bind_eq_ok_iff.2 ⟨terms, Reader.read_eq_ok_iff.2 ?_,
    eq_ok_of_toOption hm⟩
  rw [String.toList_ofList]
  exact hread

end UnitAlgebra
