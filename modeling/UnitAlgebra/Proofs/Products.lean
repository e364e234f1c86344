/-
When two measures have a product, and what is left of them in it.

# When there is a product

The base forms are the simple half: in canonical form a base unit stands
once in either, so there is one sum for each base unit, and these sums
are all that counts (`Dimension.exists_sumDimensions?`). The terms are
merged one by one, and there every sum on the way counts
(`Measure.Mergeable`). `Measure.Multiplies` puts both halves together,
and products exist exactly then (`Measure.exists_mul_iff`).

# The order of the two

A product in one order need not exist in the other: the terms of the
first measure come first, and with them the sums on the way. It does
exist when neither of the two repeats a key
(`Measure.Multiplies.comm`), because then there is at most one sum to
each key. `product_one_way` shows that this is needed.

What a product says does not depend on the order. Both products have the
same dimension, and the same tally of each key (`Measure.tally_mul`);
only the order of the terms tells them apart (`product_either_way`).

# Undoing

A product can be undone: dividing by the second measure leaves the
dimension and the tallies of the first (`mul_div_restores`). The terms
themselves need not come back, as merging has put them in order.
-/
import UnitAlgebra.Proofs.Tallies

namespace UnitAlgebra

-- =================================================== sums of dimensions

namespace Dimension

variable {d e : Dimension}

/-- A canonical list can be added if every base unit has a sum. -/
theorem exists_addScaled?_one (hd : d.Canonical) (he : e.Canonical)
    (h : ∀ base,
      Exponent.InRange (d.exponentOf base + e.exponentOf base)) :
    ∃ sum, d.addScaled? 1 e = some sum := by
  have hover : e.CanonicalOver (e.map BasePower.base) :=
    ⟨he, fun p hp => List.mem_map_of_mem hp⟩
  rw [exists_addScaled?_iff hd hover]
  intro base _
  rw [Exponent.val_one, Int.one_mul]
  exact ⟨inRange_exponentOf base e, h base⟩

/-- A canonical list that is counted from nothing is there again. -/
theorem addScaled?_nil_one (hd : d.Canonical) :
    addScaled? [] 1 d = some d := by
  have hzero : ∀ base, exponentOf base [] + d.exponentOf base
      = d.exponentOf base := by
    intro base
    rw [spells_nil.exponentOf]
    exact Int.zero_add _
  obtain ⟨copy, hcopy⟩ := exists_addScaled?_one canonical_nil hd
    fun base => (hzero base).symm ▸ inRange_exponentOf base d
  have hcanonical := canonical_addScaled? canonical_nil hcopy
  have hsame : ∀ base, copy.exponentOf base = d.exponentOf base := by
    intro base
    rw [exponentOf_addScaled? canonical_nil hd hcopy, Exponent.val_one,
      Int.mul_one, hzero]
  rw [hcopy, hcanonical.eq_of_exponentOf hd hsame]

/-- A sum exists if every base unit has one. -/
theorem exists_sumDimensions? (hd : d.Canonical) (he : e.Canonical)
    (h : ∀ base,
      Exponent.InRange (d.exponentOf base + e.exponentOf base)) :
    ∃ sum, Measure.sumDimensions? d e = some sum := by
  have hcopied : Measure.sumDimensions? d e = d.addScaled? 1 e := by
    unfold Measure.sumDimensions?
    rw [addScaled?_nil_one hd]
    rfl
  rw [hcopied]
  exact exists_addScaled?_one hd he h

end Dimension

-- ============================================================= products

namespace Measure

open Term

variable {α : Type} [Scalar α] {m n product result : Measure α}

/-- What it takes to multiply two measures in this order. -/
structure Multiplies (m n : Measure α) : Prop where
  forms : ∃ left right, m.baseForm = some left ∧ n.baseForm = some right
    ∧ ∀ base, Exponent.InRange
        (left.dimension.exponentOf base + right.dimension.exponentOf base)
  terms : Mergeable (m.terms ++ n.terms)

/-- The product, once both sums are there. -/
theorem mul_eq_of_sum {left right : BaseForm α} {dimension : Dimension}
    {terms : List (Term α)} (hleft : m.baseForm = some left)
    (hright : n.baseForm = some right)
    (hsum : sumDimensions? left.dimension right.dimension
      = some dimension)
    (hterms : mergeTerms? (m.terms ++ n.terms) = some terms) :
    m.mul n = .ok ⟨m.factor * n.factor, terms,
      some ⟨left.factor * right.factor, dimension⟩⟩ := by
  unfold mul
  refine bind_eq_ok_iff.2 ⟨left, requireBase_eq_ok_iff.2 hleft,
    bind_eq_ok_iff.2 ⟨right, requireBase_eq_ok_iff.2 hright, ?_⟩⟩
  rw [hsum, hterms]
  rfl

/-- A product has no key twice and no exponent zero, whatever its
factors had. -/
theorem tidy_mul (h : m.mul n = .ok product) : Tidy product.terms := by
  obtain ⟨_, _, _, -, -, -, hterms, -⟩ := mul_eq_ok h
  exact tidy_mergeTerms? hterms

/-- Nor has a quotient, which is a product. -/
theorem tidy_div (h : m.div n = .ok result) : Tidy result.terms := by
  obtain ⟨turned, -, h⟩ := div_eq_ok h
  exact tidy_mul h

variable [PartialEquivBEq α]

/-- A product adds tallies. -/
theorem tally_mul (h : m.mul n = .ok product) (key : Term α) :
    key.tally product.terms = key.tally m.terms + key.tally n.terms := by
  obtain ⟨_, _, _, -, -, -, hterms, -⟩ := mul_eq_ok h
  rw [tally_mergeTerms? hterms, tally_append]

/-- A quotient subtracts tallies. -/
theorem tally_div (h : m.div n = .ok result) (key : Term α) :
    key.tally result.terms = key.tally m.terms - key.tally n.terms := by
  obtain ⟨turned, hturned, h⟩ := div_eq_ok h
  rw [tally_mul h, tally_mapM_inverse? (inverse_eq_ok hturned).2.1,
    Int.sub_eq_add_neg]

/-- The condition for a product, and it has the two halves apart: base
forms on the one side, terms on the other. -/
theorem exists_mul_iff (hm : m.Arranged) (hn : n.Arranged) :
    (∃ product, m.mul n = .ok product) ↔ m.Multiplies n := by
  constructor
  · intro hproduct
    obtain ⟨product, hproduct⟩ := hproduct
    obtain ⟨left, right, _, hleft, hright, -, hterms, -⟩ :=
      mul_eq_ok hproduct
    have hspans := Spans.mul ⟨left, hleft, (hm left hleft).spells⟩
      ⟨right, hright, (hn right hright).spells⟩ hproduct
    exact ⟨⟨left, right, hleft, hright, hspans.inRange⟩,
      exists_mergeTerms?_iff.1 ⟨_, hterms⟩⟩
  · intro h
    obtain ⟨left, right, hleft, hright, hforms⟩ := h.forms
    obtain ⟨dimension, hsum⟩ := Dimension.exists_sumDimensions?
      (hm left hleft) (hn right hright) hforms
    obtain ⟨terms, hterms⟩ := exists_mergeTerms?_iff.2 h.terms
    exact ⟨_, mul_eq_of_sum hleft hright hsum hterms⟩

/-- Without repeated keys the order of the two does not matter. -/
theorem Multiplies.comm (h : m.Multiplies n) (hm : Distinct m.terms)
    (hn : Distinct n.terms) : n.Multiplies m := by
  obtain ⟨left, right, hleft, hright, hforms⟩ := h.forms
  have hterms := (mergeable_append_iff hm hn).1 h.terms
  refine ⟨⟨right, left, hright, hleft, fun base => ?_⟩,
    (mergeable_append_iff hn hm).2 fun key => ?_⟩
  · rw [Int.add_comm]
    exact hforms base
  · rw [Int.add_comm]
    exact hterms key

end Measure

-- ================================================== order and undoing

open UnitAlgebra.Measure

/-- Two measures that were read are multiplied in both orders. Either
order needs its own sums on the way to be in range, which is the same
for both when neither measure repeats a key. Where both products exist
they say the same. -/
theorem product_either_way {c : Catalog}
    {reader : String → Except Fault (List Term)} {text text' : String}
    {m n : Measure} (hm : c.readWith reader text = .ok m)
    (hn : c.readWith reader text' = .ok n) :
    ((∃ product, m.mul n = .ok product) ↔ m.Multiplies n)
      ∧ ((∃ product, n.mul m = .ok product) ↔ n.Multiplies m)
      ∧ (Term.Distinct m.terms → Term.Distinct n.terms →
          ((∃ product, m.mul n = .ok product) ↔
            ∃ product, n.mul m = .ok product))
      ∧ ∀ product product', m.mul n = .ok product →
          n.mul m = .ok product' →
            (∃ d, product.dimension? = some d
                ∧ product'.dimension? = some d)
              ∧ ∀ key : Term,
                  key.tally product.terms = key.tally product'.terms := by
  have hm := Catalog.arranged_readWith hm
  have hn := Catalog.arranged_readWith hn
  have hmn := exists_mul_iff hm hn
  have hnm := exists_mul_iff hn hm
  refine ⟨hmn, hnm, fun hdistinct hdistinct' => ?_,
    fun product product' h h' => ⟨?_, fun key => ?_⟩⟩
  · rw [hmn, hnm]
    constructor
    · exact fun h => h.comm hdistinct hdistinct'
    · exact fun h => h.comm hdistinct' hdistinct
  · obtain ⟨left, right, _, hleft, hright, -⟩ := mul_eq_ok h
    have hspans : m.Spans _ := ⟨left, hleft, (hm left hleft).spells⟩
    have hspans' : n.Spans _ := ⟨right, hright, (hn right hright).spells⟩
    have hturned := hspans'.mul hspans h'
    rw [add_comm] at hturned
    exact (hspans.mul hspans' h).dimension_eq hturned
  · rw [tally_mul h, tally_mul h', Int.add_comm]

/-- Either measure has the metre twice, under two keys. -/
theorem product_either_way_metres :
    ∃ reader c m n product product',
      Reader.ofDotted ["m"] [] = .ok reader
        ∧ Catalog.build [] ["m"] = .ok c
        ∧ c.readWith reader.read "2 m.m" = .ok m
        ∧ c.readWith reader.read "3 m.m-1" = .ok n
        ∧ Term.Distinct m.terms ∧ Term.Distinct n.terms
        ∧ m.Multiplies n ∧ n.Multiplies m
        ∧ m.mul n = .ok product ∧ n.mul m = .ok product'
        ∧ product.dimension? = product'.dimension?
        ∧ ∀ key : Term,
            key.tally product.terms = key.tally product'.terms := by
  have hrun : (do
      let reader ← Reader.ofDotted ["m"] []
      let c ← Catalog.build [] ["m"]
      let m ← c.readWith reader.read "2 m.m"
      let n ← c.readWith reader.read "3 m.m-1"
      let _ ← m.mul n
      return decide (Term.Distinct m.terms)
        && decide (Term.Distinct n.terms)
      : Except Fault Bool).toOption = some true := by
    decide +kernel
  obtain ⟨reader, hreader, hrun⟩ :=
    bind_eq_ok_iff.1 (eq_ok_of_toOption hrun)
  obtain ⟨c, hc, hrun⟩ := bind_eq_ok_iff.1 hrun
  obtain ⟨m, hm, hrun⟩ := bind_eq_ok_iff.1 hrun
  obtain ⟨n, hn, hrun⟩ := bind_eq_ok_iff.1 hrun
  obtain ⟨product, hproduct, hrun⟩ := bind_eq_ok_iff.1 hrun
  have hkeys := Except.ok.inj hrun
  simp only [Bool.and_eq_true, decide_eq_true_iff] at hkeys
  obtain ⟨hmn, hnm, hboth, hsame⟩ := product_either_way hm hn
  obtain ⟨product', hproduct'⟩ := (hboth hkeys.1 hkeys.2).1 ⟨_, hproduct⟩
  obtain ⟨⟨d, hd, hd'⟩, htally⟩ := hsame product product' hproduct hproduct'
  exact ⟨reader, c, m, n, product, product', hreader, hc, hm, hn, hkeys.1,
    hkeys.2, hmn.1 ⟨_, hproduct⟩, hnm.1 ⟨_, hproduct'⟩, hproduct, hproduct',
    hd.trans hd'.symm, htally⟩

/-- The greatest power of a metre takes no metre more, even if two are
taken away right after. In the other order they are taken away first. -/
theorem product_one_way :
    ∃ reader c m n, Reader.ofDotted ["m"] [] = .ok reader
      ∧ Catalog.build [] ["m"] = .ok c
      ∧ c.readWith reader.read "m2147483647" = .ok m
      ∧ c.readWith reader.read "m.m-2" = .ok n
      ∧ (∃ fault, m.mul n = .error fault)
      ∧ ∃ product, n.mul m = .ok product := by
  have hrun : (do
      let reader ← Reader.ofDotted ["m"] []
      let c ← Catalog.build [] ["m"]
      let m ← c.readWith reader.read "m2147483647"
      let n ← c.readWith reader.read "m.m-2"
      let _ ← n.mul m
      return (m.mul n).toOption.isNone
      : Except Fault Bool).toOption = some true := by
    decide +kernel
  obtain ⟨reader, hreader, hrun⟩ :=
    bind_eq_ok_iff.1 (eq_ok_of_toOption hrun)
  obtain ⟨c, hc, hrun⟩ := bind_eq_ok_iff.1 hrun
  obtain ⟨m, hm, hrun⟩ := bind_eq_ok_iff.1 hrun
  obtain ⟨n, hn, hrun⟩ := bind_eq_ok_iff.1 hrun
  obtain ⟨product, hproduct, hrun⟩ := bind_eq_ok_iff.1 hrun
  have hnone := Except.ok.inj hrun
  refine ⟨reader, c, m, n, hreader, hc, hm, hn, ?_, product, hproduct⟩
  rw [exists_error_iff]
  rintro ⟨result, hresult⟩
  rw [hresult] at hnone
  cases hnone

/-- Multiplying and dividing again restores a measure: its dimension,
and every tally of its terms. Repeated keys and terms with exponent
zero are not restored, no product and no quotient has any. -/
theorem mul_div_restores :
    (∀ (m n product result : Measure) (form form' : BaseForm),
        m.baseForm = some form → n.baseForm = some form' →
          form.dimension.Canonical → form'.dimension.Canonical →
          m.mul n = .ok product → product.div n = .ok result →
            result.dimension? = m.dimension?
              ∧ ∀ key : Term,
                  key.tally result.terms = key.tally m.terms)
      ∧ ∀ m n result : Measure,
          m.mul n = .ok result ∨ m.div n = .ok result →
            Term.Tidy result.terms := by
  constructor
  · intro m n product result form form' hform hform' hcanonical
      hcanonical' hproduct hresult
    have hm : m.Spans _ := ⟨form, hform, hcanonical.spells⟩
    have hn : n.Spans _ := ⟨form', hform', hcanonical'.spells⟩
    have hback := (hm.mul hn hproduct).div hn hresult
    rw [add_sub_cancel_right] at hback
    obtain ⟨d, hd, hd'⟩ := hback.dimension_eq hm
    refine ⟨hd.trans hd'.symm, fun key => ?_⟩
    rw [tally_div hresult, tally_mul hproduct, Int.add_sub_cancel]
  · intro m n result h
    rcases h with h | h
    · exact tidy_mul h
    · exact tidy_div h

/-- A metre, written as a square metre per metre. -/
def Measure.longMetre : Measure :=
  ⟨1, [.simple "m" 2, .simple "m" (-1), .simple "s" 0],
    some ⟨1, [⟨"m", 1⟩]⟩⟩

/-- Metres per second. -/
def Measure.speed : Measure :=
  ⟨1, [.simple "s" (-1), .simple "m" 1],
    some ⟨1, [⟨"m", 1⟩, ⟨"s", -1⟩]⟩⟩

/-- The metre that is written in three terms comes back with one. -/
theorem mul_div_restores_longMetre :
    ∃ product result form form', longMetre.baseForm = some form
      ∧ speed.baseForm = some form'
      ∧ form.dimension.Canonical ∧ form'.dimension.Canonical
      ∧ longMetre.mul speed = .ok product ∧ product.div speed = .ok result
      ∧ result.dimension? = some [⟨"m", 1⟩]
      ∧ (∀ key : Term,
          key.tally result.terms = key.tally longMetre.terms)
      ∧ Term.Tidy product.terms ∧ Term.Tidy result.terms
      ∧ longMetre.terms.length = 3 ∧ result.terms.length = 1 := by
  have hspeed : Dimension.Canonical [⟨"m", 1⟩, ⟨"s", -1⟩] := by
    refine Dimension.canonical_cons.2 ⟨?_, by decide, ?_⟩
    · intro q hq
      rw [List.mem_singleton.1 hq]
      decide
    · exact Dimension.canonical_cons.2
        ⟨fun q hq => absurd hq List.not_mem_nil, by decide,
          Dimension.canonical_nil⟩
  have hrun : (do
      let product ← longMetre.mul speed
      let result ← product.div speed
      return result.terms.length = 1
      : Except Fault Bool).toOption = some true := by
    decide +kernel
  obtain ⟨product, hproduct, hrun⟩ :=
    bind_eq_ok_iff.1 (eq_ok_of_toOption hrun)
  obtain ⟨result, hresult, hrun⟩ := bind_eq_ok_iff.1 hrun
  have hlength := of_decide_eq_true (Except.ok.inj hrun)
  obtain ⟨hrestores, htidy⟩ := mul_div_restores
  obtain ⟨hdimension, htally⟩ := hrestores longMetre speed product result
    _ _ rfl rfl (Dimension.canonical_singleton "m") hspeed hproduct hresult
  exact ⟨product, result, _, _, rfl, rfl,
    Dimension.canonical_singleton "m", hspeed, hproduct, hresult,
    hdimension, htally, htidy _ _ _ (.inl hproduct),
    htidy _ _ _ (.inr hresult), rfl, hlength⟩

end UnitAlgebra
