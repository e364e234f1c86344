/-
Reducing and unfolding. A term of a derived unit may give way to the
targets of the unit's definition, each to its own exponent times that of
the term (`Definitions.Unfolds`). Nothing is expanded twice over: the
catalog has expanded every definition beforehand, and here one step of
one definition is taken, at any place of the row.

# Unfolding

Such a step keeps the total of every base unit, because the totals of a
catalog obey its definitions (`Definitions.Unfolds.total_eq`), and so
does any row of steps (`total_eq_of_unfolds`). Totals are integers
without a range, so rows on the way need not be reducible. Wherever two
rows on a way are, they have the same dimension
(`Catalog.dimension_eq_of_total_eq`).

Factors are left aside here: unfolding forgets the ratio of the
definition, which is no part of a row of terms.

# Reducing twice

What a row reduces to is itself a row of base units, and it is reduced
to itself: no sum in it adds up anything, and no factor in it is other
than one (`Catalog.reduce_terms`). The base units stand in order there,
so each one is added at the end (`Dimension.add?_concat`), and the
induction goes over the row from that end.
-/
import UnitAlgebra.Proofs.PrefixPowers
import UnitAlgebra.Proofs.Reduction
import UnitAlgebra.Proofs.Words

namespace UnitAlgebra

open Relation

variable {α : Type} [Scalar α]

-- ============================================================ unfolding

/-- What a term of a derived unit to a power is unfolded to: the targets
of the definition, each to its own exponent times the power. -/
def Definition.terms? {α : Type} [Scalar α] (definition : Definition α)
    (power : Exponent) : Option (List (Term α)) :=
  definition.targets.mapM fun t =>
    (t.exponent.mul? power).map fun exponent =>
      ⟨1, t.scale, t.name, exponent⟩

/-- One term of a derived unit, wherever it stands, gives way to what
its definition says. -/
inductive Definitions.Unfolds (definitions : Definitions α) :
    List (Term α) → List (Term α) → Prop where
  | step {before after inner : List (Term α)} {t : Term α}
      {definition : Definition α}
      (hdefinition : (t.symbol, definition) ∈ definitions)
      (hinner : definition.terms? t.exponent = some inner) :
      Unfolds definitions (before ++ t :: after)
        (before ++ (inner ++ after))

/-- The total of what a term is unfolded to is that of the targets, as
often as the power says. -/
theorem Definition.total_terms? {definition : Definition α}
    {power : Exponent} {terms : List (Term α)}
    (h : definition.terms? power = some terms) (v : Valuation α)
    (b : String) :
    v.total (terms.map Term.target) b
      = power.val * v.total definition.targets b := by
  have hterms := mapM_eq_some_iff.1 h
  clear h
  generalize definition.targets = targets at hterms ⊢
  induction hterms with
  | nil => exact (Int.mul_zero _).symm
  | @cons t _ targets terms hterm _ ih =>
    obtain ⟨exponent, hexponent, rfl⟩ := Option.map_eq_some_iff.1 hterm
    have hval := Exponent.mul?_eq_some_iff.1 hexponent
    show exponent.val * v.exponent t.name b
        + v.total (terms.map Term.target) b
      = power.val * (t.exponent.val * v.exponent t.name b
        + v.total targets b)
    rw [ih, hval, Int.mul_add, Int.mul_comm t.exponent.val, Int.mul_assoc]

/-- Unfolding a term keeps every total. -/
theorem Definitions.Unfolds.total_eq {definitions : Definitions α}
    {base : List String} {v : Valuation α} (hv : v.Obeys definitions base)
    {terms unfolded : List (Term α)}
    (h : definitions.Unfolds terms unfolded) {b : String} (hb : b ∈ base) :
    v.total (unfolded.map Term.target) b
      = v.total (terms.map Term.target) b := by
  cases h with
  | @step before after inner t definition hdefinition hinner =>
    have hunit := hv.exponent _ hdefinition b hb
    have hterm : v.total ((t :: after).map Term.target) b
        = v.total (inner.map Term.target) b
          + v.total (after.map Term.target) b := by
      rw [definition.total_terms? hinner, ← hunit]
      rfl
    rw [List.map_append, List.map_append, List.map_append,
      Valuation.total_append, Valuation.total_append,
      Valuation.total_append, hterm]

/-- Unfolding term after term, in any order, keeps every total. -/
theorem total_eq_of_unfolds {definitions : Definitions α}
    {base : List String} {v : Valuation α} (hv : v.Obeys definitions base)
    {terms unfolded : List (Term α)}
    (h : ReflTransGen definitions.Unfolds terms unfolded) {b : String}
    (hb : b ∈ base) :
    v.total (unfolded.map Term.target) b
      = v.total (terms.map Term.target) b := by
  induction h with
  | refl => rfl
  | tail _ hstep ih => rw [hstep.total_eq hv hb, ih]

-- ====================================================== what is reduced

namespace Dimension

/-- A dimension as a row of terms, each of them a bare base unit. -/
def terms {α : Type} [Scalar α] (d : Dimension) : List (Term α) :=
  d.map fun p => Term.simple p.base p.exponent

/-- The last of the base units, added to those before it. -/
theorem add?_concat {d : Dimension} {p : BasePower}
    (h : Canonical (d ++ [p])) :
    d.add? p.base p.exponent = some (d ++ [p]) := by
  induction d with
  | nil =>
    have hp : p.exponent ≠ 0 := (canonical_cons.1 h).2.1
    exact congrArg some (if_neg hp)
  | cons q d ih =>
    obtain ⟨hlt, -, htail⟩ := canonical_cons.1 h
    have hqp : q.base < p.base := hlt p (by simp)
    have hne : p.base ≠ q.base := fun heq =>
      String.lt_irrefl _ (heq ▸ hqp)
    rw [add?, if_neg (String.lt_asymm hqp), if_neg hne, ih htail]
    rfl

end Dimension

namespace Scientific

/-- Powers of one take no rounding, whatever the exponent. -/
theorem one_pow (n : Exponent) : one.pow n = .ok one := by
  have hone : one.isOne = true := by decide +kernel
  unfold pow
  by_cases hn : n = 0
  · rw [if_pos hn]
  · rw [if_neg hn, if_pos (.inr hone)]

/-- A factor of one leaves a number as it is, to mantissa and exponent.
-/
theorem one_mul (x : Scientific) : one.mul x = x := by
  have hone : one.isOne = true := by decide +kernel
  unfold mul
  rw [if_pos hone]

end Scientific

namespace Catalog

/-- A bare base unit leaves the factor as it is, when that is one. -/
theorem reduceTerm_simple {c : Catalog} {b : String} (hb : b ∈ c.base)
    {exponent : Exponent} {d sum : Dimension}
    (hsum : d.add? b exponent = some sum) :
    c.reduceTerm ⟨.one, d⟩ (.simple b exponent) = .ok ⟨.one, sum⟩ := by
  have hpower (n : Exponent) :
      Scalar.pow (1 : Scientific) n = .ok Scientific.one :=
    Scientific.one_pow n
  have hscale : Scalar.pow (SIPrefix.plain.factor : Scientific) exponent
      = .ok Scientific.one := by
    rw [SIPrefix.factor_eq]
    exact Scientific.one_pow exponent
  have hfactor : Scientific.one * Scientific.one = Scientific.one :=
    Scientific.one_mul _
  unfold reduceTerm Term.simple
  rw [hpower, hscale]
  simp only [if_pos hb, hsum, hfactor, bind, Except.bind]

/-- What a row reduces to is reduced to itself, with the factor one. -/
theorem reduce_terms {c : Catalog} {d : Dimension}
    (h : d.CanonicalOver c.base) :
    c.reduce d.terms = .ok ⟨.one, d⟩ := by
  -- from the right, as the row is reduced: each base unit comes after all
  -- that are there
  induction d using List.reverseRecOn with
  | nil => rfl
  | append_singleton d p ih =>
    obtain ⟨hcanonical, hbase⟩ := h
    have hdone : Dimension.CanonicalOver c.base d :=
      ⟨⟨(List.pairwise_append.1 hcanonical.1).1,
        fun q hq => hcanonical.2 q (List.mem_append_left _ hq)⟩,
        fun q hq => hbase q (List.mem_append_left _ hq)⟩
    have hrow : (Dimension.terms (d ++ [p]) : List Term)
        = Dimension.terms d ++ [.simple p.base p.exponent] := by
      unfold Dimension.terms
      rw [List.map_append, List.map_singleton]
    unfold reduce at ih ⊢
    rw [hrow, List.foldlM_append, ih hdone]
    refine bind_eq_ok_iff.2 ⟨_, rfl, ?_⟩
    rw [List.foldlM_cons, reduceTerm_simple (hbase p (by simp))
      (Dimension.add?_concat hcanonical)]
    rfl

/-- Rows with the same totals reduce to the same dimension. -/
theorem dimension_eq_of_total_eq {c : Catalog α}
    (hentries : c.entries.WellFormed c.base)
    {terms terms' : List (Term α)} {form form' : BaseForm α}
    (h : c.reduce terms = .ok form) (h' : c.reduce terms' = .ok form')
    (htotal : ∀ b ∈ c.base, c.valuation.total (terms'.map Term.target) b
      = c.valuation.total (terms.map Term.target) b) :
    form'.dimension = form.dimension := by
  have hreduced := (reduce_ends hentries terms).of_ok h
  have hreduced' := (reduce_ends hentries terms').of_ok h'
  refine hreduced'.canonicalOver.eq_of_exponentOf
    hreduced.canonicalOver fun b hb => ?_
  rw [hreduced.exponentOf b hb, hreduced'.exponentOf b hb, htotal b hb]

-- ============================================================ invariance

/-- Reducing is idempotent, and it does not see whether definitions are
unfolded. What a row of terms is reduced to is, read as a row of bare
base units, reduced to itself, and its factor is one. And when terms of
derived units give way to the targets of their definitions, one after
the other and in any order, every row on the way that can be reduced has
the dimension of the first. -/
theorem reduce_of_unfolds {definitions : Definitions}
    {base : List String} {c : Catalog}
    (hbuild : Catalog.build definitions base = .ok c)
    {terms : List Term} {form : BaseForm}
    (h : c.reduce terms = .ok form) :
    c.reduce form.dimension.terms = .ok ⟨.one, form.dimension⟩
      ∧ ∀ unfolded form',
          ReflTransGen definitions.Unfolds terms unfolded →
            c.reduce unfolded = .ok form' →
              form'.dimension = form.dimension := by
  have hbuilt := Built.of_build hbuild
  have hentries := hbuilt.wellFormed
  constructor
  · exact reduce_terms ((reduce_ends hentries terms).of_ok h).canonicalOver
  · intro unfolded form' hunfolds h'
    refine dimension_eq_of_total_eq hentries h h' fun b hb => ?_
    exact total_eq_of_unfolds hbuilt.obeys hunfolds
      ((hbuilt.mem_base b).1 hb)

/-- One unit as often as is said: its exponents count that often. -/
theorem total_replicate (v : Valuation α) (name b : String)
    (count : Nat) :
    v.total ((List.replicate count (Term.simple name 1 : Term α)).map
        Term.target) b = count * v.exponent name b := by
  induction count with
  | zero => exact (Int.zero_mul _).symm
  | succ count ih =>
    rw [List.replicate_succ, List.map_cons]
    show (1 : Exponent).val * v.exponent name b + _ = _
    rw [ih, Exponent.val_one]
    push_cast
    ring

/-- One unit over and over is reduced while its exponents fit. -/
theorem exists_reduce_replicate {c : Catalog}
    (hentries : c.entries.WellFormed c.base) {name : String}
    (hknown : c.knows name = true) {count : Nat} (hone : 1 ≤ count)
    (hfits : ∀ b ∈ c.base, ∀ n ≤ count,
      Exponent.InRange (n * c.valuation.exponent name b)) :
    ∃ form, c.reduce (List.replicate count (.simple name 1))
      = .ok form := by
  cases hreduce : c.reduce (List.replicate count (.simple name 1)) with
  | ok form => exact ⟨form, rfl⟩
  | error fault =>
    obtain ⟨before, t, hbegins, -, hrejected, -⟩ :=
      (reduce_ends hentries _).of_error hreduce
    obtain ⟨hlength, hrow⟩ := List.prefix_replicate_iff.1 hbegins
    have ht : t = .simple name 1 :=
      List.eq_of_mem_replicate (hbegins.subset (by simp))
    refine absurd ⟨?_, ⟨?_, ?_, ?_⟩, fun b hb => ⟨?_, ?_⟩⟩ hrejected
    · rw [ht]
      exact hknown
    · rw [ht]
      exact ⟨_, Scientific.pow_one _⟩
    · rw [ht]
      exact ⟨_, Scientific.pow_one _⟩
    · rw [ht]
      exact fun _ inner _ => ⟨_, Scientific.pow_one _⟩
    · have hfirst := hfits b hb 1 hone
      rw [Nat.cast_one] at hfirst
      rw [ht]
      exact hfirst
    · have hlast := hfits b hb _ hlength
      rw [← total_replicate, ← hrow, List.map_append] at hlast
      exact hlast

/-- A box is unfolded to a face and an edge, and then the face to two
edges. -/
theorem reduce_of_unfolds_boxTable :
    ∃ c form form', Catalog.build boxTable ["m"] = .ok c
      ∧ c.reduce [.simple "box" 1] = .ok form
      ∧ ReflTransGen boxTable.Unfolds [.simple "box" 1]
          [.simple "edge" 1, .simple "edge" 1, .simple "edge" 1]
      ∧ c.reduce [.simple "edge" 1, .simple "edge" 1, .simple "edge" 1]
          = .ok form'
      ∧ form'.dimension = form.dimension
      ∧ c.reduce form.dimension.terms = .ok ⟨.one, form.dimension⟩ := by
  obtain ⟨c, hc⟩ := exists_build_boxTable
  have hbuilt := Built.of_build hc
  have hbase : ∀ b ∈ c.base, b = "m" := fun b hb =>
    List.mem_singleton.1 ((hbuilt.mem_base b).1 hb)
  have hexponents : c.valuation.exponent "box" "m" = 3
      ∧ c.valuation.exponent "edge" "m" = 1 := by
    have hunit := hbuilt.obeys.base_unit "m" (by simp) "m" (by simp)
    have hderived := fun d hd =>
      hbuilt.obeys.exponent d hd "m" (by simp)
    simp only [boxTable, Definition.product, Target.unit, Target.scaled,
      Valuation.total, List.forall_mem_cons, Exponent.val_one, if_true]
      at hderived hunit
    omega
  obtain ⟨hbox, hedge⟩ := hexponents
  have hknown (name : String) (hname : name ∈ boxTable.names) :
      c.knows name = true :=
    knows_iff.2 (.inr ((hbuilt.exists_lookup_iff name).2 hname))
  obtain ⟨form, hform⟩ : ∃ form, c.reduce
      (List.replicate 1 (.simple "box" 1)) = .ok form := by
    refine exists_reduce_replicate hbuilt.wellFormed
      (hknown "box" (by decide)) (by decide) fun b hb n hn => ?_
    rw [hbase b hb, hbox]
    unfold Exponent.InRange
    omega
  obtain ⟨form', hform'⟩ : ∃ form, c.reduce
      (List.replicate 3 (.simple "edge" 1)) = .ok form := by
    refine exists_reduce_replicate hbuilt.wellFormed
      (hknown "edge" (by decide)) (by decide) fun b hb n hn => ?_
    rw [hbase b hb, hedge]
    unfold Exponent.InRange
    omega
  have hfirst : boxTable.Unfolds [.simple "box" 1]
      [.simple "face" 1, .simple "edge" 1] :=
    @Definitions.Unfolds.step _ _ boxTable [] []
      [.simple "face" 1, .simple "edge" 1] (.simple "box" 1)
      (.product [.unit "face", .unit "edge"]) List.mem_cons_self rfl
  have hsecond : boxTable.Unfolds [.simple "face" 1, .simple "edge" 1]
      [.simple "edge" 1, .simple "edge" 1, .simple "edge" 1] :=
    @Definitions.Unfolds.step _ _ boxTable [] [.simple "edge" 1]
      [.simple "edge" 1, .simple "edge" 1] (.simple "face" 1)
      (.product [.unit "edge", .unit "edge"])
      (List.mem_cons_of_mem _ (List.mem_cons_of_mem _ List.mem_cons_self))
      rfl
  have hunfolds : ReflTransGen boxTable.Unfolds [.simple "box" 1]
      [.simple "edge" 1, .simple "edge" 1, .simple "edge" 1] :=
    .tail (.single hfirst) hsecond
  obtain ⟨hidempotent, hinvariant⟩ := reduce_of_unfolds hc hform
  exact ⟨c, form, form', hc, hform, hunfolds, hform',
    hinvariant _ _ hunfolds hform', hidempotent⟩

end Catalog

end UnitAlgebra
