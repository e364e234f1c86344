/-
Reducing a row of terms to base units: when it succeeds, what it gives
and which term is to blame when it fails (`reduce_totals`).

# One term

A term is reduced like a target of a definition, after the power of its
coefficient (`Catalog.reduceTerm_ends`). So the same steps say what it
does: exponents add up as integers, and the step exists exactly when the
catalog accepts the term behind the terms before it
(`Catalog.Accepts`). A term is accepted when its unit is known, the
powers in it exist and the totals stay in range; it is for the last of
these that the terms before it matter.

# A row

The invariant along the row is that the terms so far are accepted and
that the dimension holds their totals (`Catalog.Reduced`). One more term
keeps it or is to blame (`Catalog.Reduced.step`), and
`Catalog.reduce_ends` carries it to the end of the row or to the first
term that is not accepted. The fault says why: a power of zero, or a
unit that cannot be reduced, by name (`Catalog.Blames`).

A row in another order has the same totals at its end, but other totals
on the way, so it may fail where this one succeeds.
-/
import UnitAlgebra.Proofs.Building

namespace UnitAlgebra

variable {α : Type} [Scalar α]

-- =========================================================== accepting

/-- What a term contributes apart from its coefficient. -/
def Term.target {α : Type} (t : Term α) : Target :=
  ⟨t.symbol, t.exponent, t.scale⟩

namespace Catalog

/-- Every power that reducing a term takes: that of its coefficient, of
its prefix and, for a derived unit, of the unit's factor. -/
structure PowersExist (c : Catalog α) (t : Term α) : Prop where
  coefficient : ∃ power,
    Scalar.pow t.coefficient t.exponent.signum = .ok power
  scale : ∃ power, Scalar.pow (t.scale.factor : α) t.exponent = .ok power
  entry : t.symbol ∉ c.base → ∀ inner,
    c.entries.lookup t.symbol = some inner →
      ∃ power, Scalar.pow inner.factor t.exponent = .ok power

/-- Behind the terms `before`, a term can be reduced. -/
structure Accepts (c : Catalog α) (before : List (Term α)) (t : Term α) :
    Prop where
  known : c.knows t.symbol = true
  powers : c.PowersExist t
  fits : c.valuation.Fits c.base (before.map Term.target) t.target

/-- The fault of a term that cannot be reduced. -/
def Blames (c : Catalog α) (t : Term α) (fault : Fault) : Prop :=
  (¬ c.PowersExist t ∧ fault = .divisionByZero)
    ∨ (c.PowersExist t ∧ fault = .irreducible t.symbol)

/-- A unit is known when it is a base unit or has an entry. -/
theorem knows_iff {α : Type} {c : Catalog α} {symbol : String} :
    c.knows symbol = true ↔ c.entries.Has c.base symbol := by
  unfold knows Entries.Has
  rw [Bool.or_eq_true, decide_eq_true_iff, Option.isSome_iff_exists]

-- ============================================================ one term

/-- A term is reduced like a target, after the power of its
coefficient; if it is not, then a power is missing or else the unit is
unknown or the sum does not exist. -/
theorem reduceTerm_ends (c : Catalog α) (form : BaseForm α)
    (t : Term α) :
    Ends
      (fun product => c.PowersExist t ∧ ∃ coefficient,
        Scalar.pow t.coefficient t.exponent.signum = .ok coefficient
          ∧ Times c.base c.entries
              ⟨form.factor * coefficient, form.dimension⟩ t.target
              product)
      (fun fault => c.Blames t fault ∧ (c.PowersExist t →
        c.entries.Has c.base t.symbol →
          form.dimension.addScaled? t.exponent
            (c.entries.dimension c.base t.symbol) = none))
      (c.reduceTerm form t) := by
  -- a power that is missing is the fault, whatever else is wrong
  have hmissing : ¬ c.PowersExist t →
      c.Blames t .divisionByZero ∧ (c.PowersExist t →
        c.entries.Has c.base t.symbol →
          form.dimension.addScaled? t.exponent
            (c.entries.dimension c.base t.symbol) = none) :=
    fun h => ⟨.inl ⟨h, rfl⟩, fun hpowers => absurd hpowers h⟩
  unfold reduceTerm
  refine (pow_ends fun hfail => hmissing fun hpowers =>
    not_exists_pow hfail hpowers.coefficient).bind
      fun coefficient hcoefficient _ => ?_
  refine (pow_ends fun hfail => hmissing fun hpowers =>
    not_exists_pow hfail hpowers.scale).bind fun power hpower _ => ?_
  split
  · next hbase =>
    have hpowers : c.PowersExist t :=
      ⟨⟨_, hcoefficient⟩, ⟨_, hpower⟩, fun hout => absurd hbase hout⟩
    split
    · next hsum =>
      refine ⟨.inr ⟨hpowers, rfl⟩, fun _ _ => ?_⟩
      rw [Entries.dimension_of_base hbase, Dimension.addScaled?_singleton]
      exact hsum
    · next dimension hsum =>
      exact ⟨hpowers, coefficient, hcoefficient,
        .base hbase hpower hsum⟩
  · next hbase =>
    split
    · next hlookup =>
      have hpowers : c.PowersExist t :=
        ⟨⟨_, hcoefficient⟩, ⟨_, hpower⟩, fun _ inner hinner => by
          rw [hlookup] at hinner
          cases hinner⟩
      -- neither a base unit nor an entry: it is not known at all
      refine ⟨.inr ⟨hpowers, rfl⟩, fun _ hknown => ?_⟩
      obtain ⟨inner, hinner⟩ := hknown.resolve_left hbase
      rw [hlookup] at hinner
      cases hinner
    · next inner hinner =>
      refine (pow_ends fun hfail => hmissing fun hpowers =>
        not_exists_pow hfail (hpowers.entry hbase inner hinner)).bind
          fun innerPower hinnerPower _ => ?_
      have hpowers : c.PowersExist t :=
        ⟨⟨_, hcoefficient⟩, ⟨_, hpower⟩, fun _ inner' hinner' => by
          rw [hinner] at hinner'
          cases hinner'
          exact ⟨_, hinnerPower⟩⟩
      split
      · next hsum =>
        refine ⟨.inr ⟨hpowers, rfl⟩, fun _ _ => ?_⟩
        rw [Entries.dimension_of_entry hbase hinner]
        exact hsum
      · next dimension hsum =>
        exact ⟨hpowers, coefficient, hcoefficient,
          .derived hbase hinner hpower hinnerPower hsum⟩

-- ====================================================== a row of terms

/-- The terms so far are accepted, and the dimension holds their
totals. -/
structure Reduced (c : Catalog α) (done : List (Term α))
    (form : BaseForm α) : Prop where
  accepted : ∀ before t, before ++ [t] <+: done → c.Accepts before t
  canonicalOver : form.dimension.CanonicalOver c.base
  exponentOf : ∀ b ∈ c.base,
    form.dimension.exponentOf b
      = c.valuation.total (done.map Term.target) b

/-- One more term, accepted or to blame. -/
theorem Reduced.step {c : Catalog α} {done : List (Term α)}
    {form : BaseForm α} (h : c.Reduced done form)
    (hentries : c.entries.WellFormed c.base) (t : Term α) :
    Ends (c.Reduced (done ++ [t]))
      (fun fault => ¬ c.Accepts done t ∧ c.Blames t fault)
      (c.reduceTerm form t) := by
  have hmatches := c.entries.matches_valuation c.base
  have hends := c.reduceTerm_ends form t
  cases hstep : c.reduceTerm form t with
  | error fault =>
    obtain ⟨hblames, hsum⟩ := hends.of_error hstep
    refine ⟨fun haccepts => ?_, hblames⟩
    have hknown := knows_iff.1 haccepts.known
    obtain ⟨sum, hsome⟩ := (exists_addScaled?_iff_fits hmatches hentries
      h.canonicalOver.1 h.exponentOf hknown).2 haccepts.fits
    cases (hsum haccepts.powers hknown).symm.trans hsome
  | ok product =>
    obtain ⟨hpowers, coefficient, -, htimes⟩ := hends.of_ok hstep
    refine ⟨fun before u hu => ?_, htimes.canonicalOver hentries
      h.canonicalOver, fun b hb => ?_⟩
    · rcases List.prefix_concat_iff.1 hu with heq | hu
      · obtain ⟨rfl, hsame⟩ := List.append_inj' heq rfl
        cases hsame
        exact ⟨knows_iff.2 htimes.has, hpowers,
          (exists_addScaled?_iff_fits hmatches hentries h.canonicalOver.1
            h.exponentOf htimes.has).1 ⟨_, htimes.addScaled?⟩⟩
      · exact h.accepted before u hu
    · rw [htimes.exponentOf hmatches hentries h.canonicalOver.1 hb,
        List.map_append, List.map_singleton, Valuation.total_snoc,
        ← h.exponentOf b hb]
      rfl

/-- A row of terms is reduced to its end, or up to the first term that
is not accepted. -/
theorem reduce_ends {c : Catalog α}
    (hentries : c.entries.WellFormed c.base) (terms : List (Term α)) :
    Ends (c.Reduced terms)
      (fun fault => ∃ before t, before ++ [t] <+: terms
        ∧ (∀ done next, done ++ [next] <+: before → c.Accepts done next)
        ∧ ¬ c.Accepts before t ∧ c.Blames t fault)
      (c.reduce terms) := by
  unfold reduce
  refine Ends.foldlM c.Reduced ⟨fun before t h => ?_, ?_, ?_⟩ ?_
  · simp at h
  · exact ⟨Dimension.canonical_nil, fun p hp => nomatch hp⟩
  · exact fun b _ => rfl
  · intro done t form hprefix hform
    refine (hform.step hentries t).mono_bad ?_
    intro fault hfault
    obtain ⟨hrejected, hblames⟩ := hfault
    exact ⟨done, t, hprefix, hform.accepted, hrejected, hblames⟩

/-- Reducing succeeds exactly when every term is accepted behind those
before it. It then gives the exact total of every base unit, whatever
the order of the terms; and otherwise the first term that is not
accepted is to blame. -/
theorem reduce_totals {definitions : Definitions α} {base : List String}
    {c : Catalog α} (h : Catalog.build definitions base = .ok c)
    (terms : List (Term α)) :
    ((∃ form, c.reduce terms = .ok form) ↔
        ∀ before t, before ++ [t] <+: terms → c.Accepts before t)
      ∧ (∀ form, c.reduce terms = .ok form →
          form.dimension.CanonicalOver base
            ∧ ∀ b ∈ base, form.dimension.exponentOf b
                = c.valuation.total (terms.map Term.target) b)
      ∧ (∀ order form form', order.Perm terms →
          c.reduce terms = .ok form → c.reduce order = .ok form' →
            form'.dimension = form.dimension)
      ∧ ∀ fault, c.reduce terms = .error fault →
          ∃ before t, before ++ [t] <+: terms
            ∧ (∀ done next, done ++ [next] <+: before →
                c.Accepts done next)
            ∧ ¬ c.Accepts before t ∧ c.Blames t fault := by
  have hbuilt := Built.of_build h
  have hentries := hbuilt.wellFormed
  have hends := reduce_ends hentries terms
  refine ⟨⟨?_, fun haccepted => ?_⟩, fun form hform => ?_, ?_, ?_⟩
  · intro hexists
    obtain ⟨form, hform⟩ := hexists
    exact (hends.of_ok hform).accepted
  · cases hreduce : c.reduce terms with
    | ok form => exact ⟨form, rfl⟩
    | error fault =>
      obtain ⟨before, t, hprefix, -, hrejected, -⟩ :=
        hends.of_error hreduce
      exact absurd (haccepted before t hprefix) hrejected
  · have hreduced := hends.of_ok hform
    obtain ⟨hcanonical, hbase⟩ := hreduced.canonicalOver
    exact ⟨⟨hcanonical, fun p hp => (hbuilt.mem_base _).1 (hbase p hp)⟩,
      fun b hb => hreduced.exponentOf b ((hbuilt.mem_base b).2 hb)⟩
  · -- both orders have the same totals at their ends
    intro order form form' horder hform hform'
    have hreduced := hends.of_ok hform
    have hreduced' := (reduce_ends hentries order).of_ok hform'
    refine hreduced'.canonicalOver.eq_of_exponentOf
      hreduced.canonicalOver fun b hb => ?_
    rw [hreduced.exponentOf b hb, hreduced'.exponentOf b hb]
    exact Valuation.total_perm _ (horder.map Term.target) b
  · exact fun fault hfault => hends.of_error hfault

/-- Three times the greatest exponent is out of range. -/
theorem reduce_totals_boxTable :
    ∃ c, Catalog.build boxTable ["m"] = .ok c
      ∧ ¬ ∃ form, c.reduce [Term.simple "box" .greatest] = .ok form := by
  obtain ⟨c, hc⟩ := exists_build_boxTable
  have hbuilt := Built.of_build hc
  refine ⟨c, hc, fun hform => ?_⟩
  have haccepts :=
    (reduce_totals hc _).1.1 hform [] _ (List.prefix_refl _)
  have hfits := (haccepts.fits "m" ((hbuilt.mem_base "m").2 (by simp))).1
  rw [Term.target, Term.simple, hbuilt.obeys.exponent_box] at hfits
  exact absurd hfits (by decide)

end Catalog

end UnitAlgebra
