/-
Written exponents, key by key. The key of a term is all of it but its
exponent: coefficient, prefix and symbol. A row of terms has a tally for
every key, the sum of the exponents that it writes for that key, on
integers without a range.

# One step, one run

Merging works on a row of distinct keys, where a tally is a single
exponent and so is in range (`Term.inRange_tally`). One more term adds
its exponent to the tally of its key and to no other, and can be merged
exactly when that tally stays in range
(`Measure.exists_mergeTerm?_iff`). So a row can be merged exactly when
no prefix of it has a tally out of range
(`Measure.exists_mergeTerms?_iff`): what counts is every sum on the way,
and not the sum at the end. The order of the terms matters to that, and
to nothing else that is written.

Coefficients need not equal themselves, NaN does not. A term with such a
coefficient belongs to no key and is never merged.
-/
import UnitAlgebra.Proofs.Doubles
import UnitAlgebra.Proofs.Obtained

namespace UnitAlgebra

variable {α : Type} [Scalar α]

-- ============================================================== tallies

namespace Term

/-- What a term adds to the tally of `key`. The exponent of the key
itself does not count. -/
def share (key t : Term α) : Int :=
  if key.sameBase t then t.exponent.val else 0

/-- The sum of the exponents that a row of terms writes for `key`. -/
def tally (key : Term α) (terms : List (Term α)) : Int :=
  (terms.map key.share).sum

/-- No two terms have one key. -/
def Distinct (terms : List (Term α)) : Prop :=
  terms.Pairwise fun t u => t.sameBase u = false

instance (terms : List (Term α)) : Decidable (Distinct terms) :=
  inferInstanceAs (Decidable (List.Pairwise _ _))

/-- A row as merging leaves it: nothing left to merge or to drop. -/
structure Tidy (terms : List (Term α)) : Prop where
  exponent : ∀ t ∈ terms, t.exponent ≠ 0
  distinct : Distinct terms

variable {key t u : Term α} {terms row : List (Term α)}

theorem tally_nil (key : Term α) : key.tally [] = 0 := rfl

theorem tally_cons (key t : Term α) (terms : List (Term α)) :
    key.tally (t :: terms) = key.share t + key.tally terms := by
  unfold tally
  rw [List.map_cons, List.sum_cons]

theorem tally_append (key : Term α) (terms terms' : List (Term α)) :
    key.tally (terms ++ terms') = key.tally terms + key.tally terms' := by
  unfold tally
  rw [List.map_append, List.sum_append]

/-- One more term at the end adds its share. -/
theorem tally_snoc (key t : Term α) (terms : List (Term α)) :
    key.tally (terms ++ [t]) = key.tally terms + key.share t := by
  rw [tally_append, tally_cons, tally_nil, Int.add_zero]

/-- A key that is not in a row has no tally there. -/
theorem tally_eq_zero (h : ∀ t ∈ terms, key.sameBase t = false) :
    key.tally terms = 0 := by
  induction terms with
  | nil => rfl
  | cons t terms ih =>
    obtain ⟨ht, hrest⟩ := List.forall_mem_cons.1 h
    rw [tally_cons, ih hrest, share, ht]
    rfl

theorem tally_cons_of_not_sameBase (row : List (Term α))
    (h : key.sameBase u = false) :
    key.tally (u :: row) = key.tally row := by
  rw [tally_cons, share, h, if_neg Bool.false_ne_true, Int.zero_add]

/-- A share is an exponent or nothing. -/
theorem inRange_share (key t : Term α) :
    Exponent.InRange (key.share t) := by
  unfold share
  split
  · exact t.exponent.inRange_val
  · exact Exponent.inRange_val 0

section

variable [PartialEquivBEq α]

/-- To be of one key is symmetric and transitive, because equality of
coefficients is. It need not be reflexive. -/
theorem sameBase_comm (t u : Term α) : t.sameBase u = u.sameBase t := by
  unfold sameBase
  rw [BEq.comm (a := t.coefficient)]
  simp only [eq_comm]

theorem sameBase_trans {v : Term α} (h : t.sameBase u = true)
    (h' : u.sameBase v = true) : t.sameBase v = true := by
  simp only [sameBase, Bool.and_eq_true, decide_eq_true_iff] at h h' ⊢
  obtain ⟨⟨hsymbol, hscale⟩, hcoefficient⟩ := h
  obtain ⟨⟨hsymbol', hscale'⟩, hcoefficient'⟩ := h'
  exact ⟨⟨hsymbol.trans hsymbol', hscale.trans hscale'⟩,
    BEq.trans hcoefficient hcoefficient'⟩

/-- Terms of one key belong to it together. -/
theorem sameBase_congr (h : t.sameBase u = true) (key : Term α) :
    key.sameBase t = key.sameBase u := by
  rw [Bool.eq_iff_iff]
  constructor
  · intro hkey
    exact sameBase_trans hkey h
  · intro hkey
    exact sameBase_trans hkey (sameBase_comm t u ▸ h)

/-- Shares add where powers multiply. -/
theorem powers_share (key : Term α) :
    Powers fun t => Multiplicative.ofAdd (key.share t) where
  merge := by
    intro t u e hsame he
    rw [← ofAdd_add]
    refine congrArg _ ?_
    show (if key.sameBase u then e.val else 0) = key.share u + key.share t
    unfold share
    rw [sameBase_congr hsame key]
    split
    · exact Exponent.add?_eq_some_iff.1 he
    · rfl
  zero := by
    intro t hzero
    refine congrArg _ ?_
    unfold share
    rw [hzero]
    split
    · rfl
    · rfl
  neg := by
    intro t e he
    rw [← ofAdd_neg]
    refine congrArg _ ?_
    show (if key.sameBase t then e.val else 0) = -key.share t
    unfold share
    split
    · exact Exponent.neg?_eq_some_iff.1 he
    · rfl

/-- In a row of distinct keys the tally of the first key is the first
exponent: no other term adds to it. -/
theorem tally_cons_of_sameBase (hrow : Distinct (u :: row))
    (h : key.sameBase u = true) :
    key.tally (u :: row) = u.exponent.val := by
  obtain ⟨hhead, -⟩ := List.pairwise_cons.1 hrow
  have hothers : ∀ v ∈ row, key.sameBase v = false := by
    intro v hv
    rw [sameBase_comm, ← hhead v hv, sameBase_comm u v]
    exact sameBase_congr h v
  rw [tally_cons, tally_eq_zero hothers, share, if_pos h, Int.add_zero]

/-- In a row of distinct keys every tally is a single exponent. -/
theorem inRange_tally (hrow : Distinct row) (key : Term α) :
    Exponent.InRange (key.tally row) := by
  induction row with
  | nil => exact Exponent.inRange_val 0
  | cons u row ih =>
    cases h : key.sameBase u with
    | true =>
      rw [tally_cons_of_sameBase hrow h]
      exact u.exponent.inRange_val
    | false =>
      rw [tally_cons_of_not_sameBase row h]
      exact ih (List.Pairwise.of_cons hrow)

/-- In a row of distinct keys a tally comes all at once. -/
theorem tally_of_prefix (hrow : Distinct row) (hdone : terms <+: row)
    (key : Term α) :
    key.tally terms = 0 ∨ key.tally terms = key.tally row := by
  induction row generalizing terms with
  | nil =>
    rw [List.prefix_nil.1 hdone]
    exact .inl rfl
  | cons u row ih =>
    cases terms with
    | nil => exact .inl rfl
    | cons t terms =>
      obtain ⟨rfl, hrest⟩ := List.cons_prefix_cons.1 hdone
      cases h : key.sameBase t with
      | true =>
        right
        have hterms : Distinct (t :: terms) :=
          List.Pairwise.sublist hdone.sublist hrow
        rw [tally_cons_of_sameBase hterms h, tally_cons_of_sameBase hrow h]
      | false =>
        rw [tally_cons_of_not_sameBase terms h,
          tally_cons_of_not_sameBase row h]
        exact ih (List.Pairwise.of_cons hrow) hrest

end

end Term

-- ============================================================== merging

namespace Measure

open Term

variable {t : Term α} {row next terms merged : List (Term α)}

/-- Merging one more term keeps the keys distinct, as it is put at the
end only if no term has its key. -/
theorem distinct_mergeTerm? (h : mergeTerm? t row = some next)
    (hrow : Distinct row) : Distinct next := by
  induction row generalizing next with
  | nil =>
    cases h
    exact List.pairwise_singleton _ _
  | cons u row ih =>
    obtain ⟨hhead, htail⟩ := List.pairwise_cons.1 hrow
    rw [mergeTerm?] at h
    split at h
    · obtain ⟨e, -, rfl⟩ := Option.map_eq_some_iff.1 h
      exact List.pairwise_cons.2 ⟨hhead, htail⟩
    · next hother =>
      obtain ⟨rest, hrest, rfl⟩ := Option.map_eq_some_iff.1 h
      refine List.pairwise_cons.2 ⟨?_, ih hrest htail⟩
      exact forall_mem_of_mergeTerm? (P := fun v => u.sameBase v = false)
        (fun v e hv => hv) hrest (Bool.eq_false_iff.2 hother) hhead

/-- Whatever is merged is tidy. -/
theorem tidy_mergeTerms? (h : mergeTerms? terms = some merged) :
    Tidy merged := by
  obtain ⟨row, hrow, rfl⟩ := exists_of_mergeTerms?
    (fun _ row => Distinct row) h List.Pairwise.nil
    (fun _ _ _ _ hrow hnext => distinct_mergeTerm? hnext hrow)
  refine ⟨fun t ht => ?_, List.Pairwise.filter _ hrow⟩
  exact of_decide_eq_true (List.mem_filter.1 ht).2

/-- No prefix of the row has a tally out of range. -/
def Mergeable (terms : List (Term α)) : Prop :=
  ∀ (key : Term α) (done : List (Term α)), done <+: terms →
    Exponent.InRange (key.tally done)

/-- The invariant of merging: `row` is what has come of `done`. -/
structure MergedInto (done row : List (Term α)) : Prop where
  distinct : Distinct row
  tally : ∀ key : Term α, key.tally row = key.tally done
  mergeable : Mergeable done

theorem MergedInto.nil : MergedInto ([] : List (Term α)) [] where
  distinct := List.Pairwise.nil
  tally _ := rfl
  mergeable key done hdone := by
    rw [List.prefix_nil.1 hdone]
    exact Exponent.inRange_val 0

variable [PartialEquivBEq α]

/-- Merging one term adds its share to every tally. -/
theorem tally_mergeTerm? (h : mergeTerm? t row = some next)
    (key : Term α) : key.tally next = key.tally row + key.share t :=
  (powers_share key).sum_mergeTerm? h

/-- Merging keeps every tally. -/
theorem tally_mergeTerms? (h : mergeTerms? terms = some merged)
    (key : Term α) : key.tally merged = key.tally terms :=
  (powers_share key).sum_mergeTerms? h

/-- Turning a row over negates its tallies. -/
theorem tally_mapM_inverse? {inverted : List (Term α)}
    (h : terms.mapM Term.inverse? = some inverted) (key : Term α) :
    key.tally inverted = -key.tally terms :=
  (powers_share key).sum_mapM_inverse? h

/-- One more term can be merged exactly when the tally of its key stays
in range. -/
theorem exists_mergeTerm?_iff (hrow : Distinct row) :
    (∃ next, mergeTerm? t row = some next) ↔
      Exponent.InRange (t.tally row + t.share t) := by
  induction row with
  | nil =>
    refine iff_of_true ⟨[t], rfl⟩ ?_
    rw [tally_nil, Int.zero_add]
    exact inRange_share t t
  | cons u row ih =>
    rw [mergeTerm?]
    by_cases hsame : u.sameBase t = true
    · -- the key is here, and nowhere else in the row
      have hkey : t.sameBase u = true := sameBase_comm u t ▸ hsame
      rw [if_pos hsame, tally_cons_of_sameBase hrow hkey, share,
        if_pos (sameBase_trans hkey hsame)]
      constructor
      · intro hnext
        obtain ⟨next, hnext⟩ := hnext
        obtain ⟨e, he, -⟩ := Option.map_eq_some_iff.1 hnext
        rw [← Exponent.add?_eq_some_iff.1 he]
        exact e.inRange_val
      · intro hrange
        have hsum : u.exponent.add? t.exponent
            = some ⟨_, hrange.1, hrange.2⟩ :=
          Exponent.add?_eq_some_iff.2 rfl
        exact ⟨_, Option.map_eq_some_iff.2 ⟨_, hsum, rfl⟩⟩
    · -- the key is further down, if it is there at all
      have hkey : t.sameBase u = false := by
        rw [sameBase_comm, Bool.eq_false_iff]
        exact hsame
      rw [if_neg hsame, tally_cons_of_not_sameBase row hkey,
        ← ih (List.Pairwise.of_cons hrow)]
      constructor
      · intro hnext
        obtain ⟨next, hnext⟩ := hnext
        obtain ⟨rest, hrest, -⟩ := Option.map_eq_some_iff.1 hnext
        exact ⟨rest, hrest⟩
      · intro hnext
        obtain ⟨rest, hrest⟩ := hnext
        exact ⟨_, Option.map_eq_some_iff.2 ⟨rest, hrest, rfl⟩⟩

/-- The invariant of a run of merging, kept by one more term. -/
theorem MergedInto.snoc {done : List (Term α)} (h : MergedInto done row)
    (hnext : mergeTerm? t row = some next) :
    MergedInto (done ++ [t]) next := by
  have hdistinct := distinct_mergeTerm? hnext h.distinct
  have htally : ∀ key : Term α, key.tally next = key.tally (done ++ [t]) := by
    intro key
    rw [tally_mergeTerm? hnext, h.tally, tally_snoc]
  refine ⟨hdistinct, htally, fun key before hbefore => ?_⟩
  rcases List.prefix_concat_iff.1 hbefore with rfl | hbefore
  · rw [← htally]
    exact inRange_tally hdistinct key
  · exact h.mergeable key before hbefore

/-- As long as the tallies on the way are in range, the next term can be
merged. -/
theorem exists_mergedInto (h : Mergeable terms) :
    ∃ row, terms.foldlM (fun merged t => mergeTerm? t merged) [] = some row
      ∧ MergedInto terms row := by
  induction terms using List.reverseRecOn with
  | nil => exact ⟨[], rfl, .nil⟩
  | append_singleton done t ih =>
    obtain ⟨row, hfold, hrow⟩ := ih fun key before hbefore =>
      h key before (hbefore.trans (List.prefix_append _ _))
    have hrange := h t (done ++ [t]) (List.prefix_refl _)
    rw [tally_snoc, ← hrow.tally t] at hrange
    obtain ⟨next, hnext⟩ := (exists_mergeTerm?_iff hrow.distinct).2 hrange
    refine ⟨next, ?_, hrow.snoc hnext⟩
    rw [List.foldlM_append, hfold]
    show (mergeTerm? t row).bind some = some next
    rw [hnext]
    rfl

/-- A row is merged exactly when every tally on the way is in range. -/
theorem exists_mergeTerms?_iff :
    (∃ merged, mergeTerms? terms = some merged) ↔ Mergeable terms := by
  constructor
  · intro hmerged
    obtain ⟨merged, hmerged⟩ := hmerged
    obtain ⟨row, hrow, -⟩ := exists_of_mergeTerms? MergedInto hmerged
      .nil fun _ _ _ _ hrow hnext => hrow.snoc hnext
    exact hrow.mergeable
  · intro h
    obtain ⟨row, hfold, -⟩ := exists_mergedInto h
    refine ⟨row.filter (·.exponent ≠ 0), ?_⟩
    unfold mergeTerms?
    rw [hfold]
    rfl

/-- Where neither row repeats a key, the sums at the end are enough. -/
theorem mergeable_append_iff {terms' : List (Term α)}
    (hterms : Distinct terms) (hterms' : Distinct terms') :
    Mergeable (terms ++ terms') ↔
      ∀ key : Term α,
        Exponent.InRange (key.tally terms + key.tally terms') := by
  constructor
  · intro h key
    rw [← tally_append]
    exact h key _ (List.prefix_refl _)
  · intro h key done hdone
    rcases List.prefix_or_prefix_of_prefix hdone
      (List.prefix_append terms terms') with hinside | ⟨rest, rfl⟩
    · have hdistinct : Distinct done :=
        List.Pairwise.sublist hinside.sublist hterms
      exact inRange_tally hdistinct key
    · have hrest := (List.prefix_append_right_inj terms).1 hdone
      rw [tally_append]
      rcases tally_of_prefix hterms' hrest key with hzero | hall
      · rw [hzero, Int.add_zero]
        exact inRange_tally hterms key
      · rw [hall]
        exact h key

end Measure

end UnitAlgebra
