/-
The canonical form of a dimension and what the operations do to it.

# Lists and exponents

A dimension is a list, and it is seen through `exponentOf`, which gives
every base unit its exponent. Canonical lists ascend by name and hold no
exponent zero, so the exponents decide the list
(`Canonical.eq_of_exponentOf`). Whatever is claimed of canonical lists
can therefore be claimed base by base, and no later proof looks at the
order of a list again.

# The operations

A sum adds exponents base by base and negation negates them
(`exponentOf_addScaled?`, `exponentOf_neg?`). Every operation gives a
canonical dimension when it is given canonical ones
(`canonical_addScaled?`, `canonical_neg?`). A sum fails to exist only
when a running exponent leaves the range (`addScaled?_eq_none_iff`), and
a negation only when an exponent has none (`exists_neg?_iff`).

The walk along two dimensions finds out whether they are equal or each
other's negation (`likeness?_eq`). Its two flags say which answers are
still possible, so the statement is about a walk under way.

# Lists from outside

A list that is given from outside is put in order (`canonical_arrange`),
provided that no base stands in it twice, and keeps its exponents
(`exponentOf_arrange`). A list that was canonical stays as it is
(`arrange_eq_self`).
-/
import UnitAlgebra.Dimension

namespace UnitAlgebra.Dimension

-- ====================================================== canonical lists

theorem canonical_nil : Canonical [] := by
  simp [Canonical]

theorem canonical_cons {p : BasePower} {d : Dimension} :
    Canonical (p :: d) ↔
      (∀ q ∈ d, p.base < q.base) ∧ p.exponent ≠ 0 ∧ Canonical d := by
  simp only [Canonical, List.pairwise_cons, List.forall_mem_cons]
  exact ⟨fun ⟨⟨h₁, h₂⟩, h₃, h₄⟩ => ⟨h₁, h₃, h₂, h₄⟩,
    fun ⟨h₁, h₃, h₂, h₄⟩ => ⟨⟨h₁, h₂⟩, h₃, h₄⟩⟩

/-- A base unit that is not listed has exponent zero. -/
theorem exponentOf_eq_zero {base : String} {d : Dimension}
    (h : ∀ q ∈ d, q.base ≠ base) : exponentOf base d = 0 := by
  induction d with
  | nil => rfl
  | cons p d ih =>
    rw [List.forall_mem_cons] at h
    rw [exponentOf, if_neg h.1, ih h.2]

/-- Below the first base unit of a canonical list nothing is listed. -/
theorem exponentOf_eq_zero_of_lt {base : String} {p : BasePower}
    {d : Dimension} (hd : Canonical (p :: d)) (h : base < p.base) :
    exponentOf base (p :: d) = 0 := by
  refine exponentOf_eq_zero fun q hq heq => ?_
  subst heq
  rcases List.mem_cons.1 hq with rfl | hq
  · exact String.lt_irrefl _ h
  · exact String.lt_asymm h ((canonical_cons.1 hd).1 q hq)

/-- The head of a canonical list does not stand in its tail. -/
theorem exponentOf_head {p : BasePower} {d : Dimension}
    (hd : Canonical (p :: d)) : exponentOf p.base d = 0 := by
  refine exponentOf_eq_zero fun q hq heq => ?_
  have hlt := (canonical_cons.1 hd).1 q hq
  rw [heq] at hlt
  exact String.lt_irrefl _ hlt

/-- One base unit to the first power. -/
theorem canonical_singleton (base : String) : Canonical [⟨base, 1⟩] :=
  canonical_cons.2 ⟨fun _ hq => absurd hq List.not_mem_nil,
    fun h => Int.one_ne_zero (congrArg Exponent.val h), canonical_nil⟩

/-- Every exponent read off a dimension is in range. -/
theorem inRange_exponentOf (base : String) (d : Dimension) :
    Exponent.InRange (exponentOf base d) := by
  induction d with
  | nil => exact Exponent.inRange_val 0
  | cons p d ih =>
    rw [exponentOf]
    split
    · exact p.exponent.inRange_val
    · exact ih

/-- Canonical lists name every base once. -/
theorem Canonical.nodup {d : Dimension} (hd : Canonical d) :
    (d.map BasePower.base).Nodup := by
  rw [List.Nodup, List.pairwise_map]
  refine hd.1.imp ?_
  intro p q hlt heq
  rw [heq] at hlt
  exact String.lt_irrefl _ hlt

/-- A base unit that is listed once has the exponent that it is listed
with. -/
theorem exponentOf_of_mem {p : BasePower} {d : Dimension}
    (hd : (d.map BasePower.base).Nodup) (hp : p ∈ d) :
    exponentOf p.base d = p.exponent.val := by
  induction d with
  | nil => cases hp
  | cons q d ih =>
    rw [List.map_cons, List.nodup_cons] at hd
    rw [exponentOf]
    rcases List.mem_cons.1 hp with rfl | hp
    · rw [if_pos rfl]
    · have hne : q.base ≠ p.base := by
        intro heq
        exact hd.1 (heq ▸ List.mem_map_of_mem hp)
      rw [if_neg hne, ih hd.2 hp]

/-- A base unit with an exponent other than zero is listed. -/
theorem exists_mem_of_exponentOf_ne_zero {base : String} {d : Dimension}
    (h : exponentOf base d ≠ 0) : ∃ p ∈ d, p.base = base := by
  refine Classical.byContradiction fun hnone => h ?_
  exact exponentOf_eq_zero fun p hp hpb => hnone ⟨p, hp, hpb⟩

/-- Canonical lists that give every base unit the same exponent are
equal. -/
theorem Canonical.eq_of_exponentOf {d e : Dimension} (hd : Canonical d)
    (he : Canonical e) (h : ∀ base, exponentOf base d = exponentOf base e) :
    d = e := by
  induction d generalizing e with
  | nil =>
    cases e with
    | nil => rfl
    | cons q e =>
      have hq := h q.base
      rw [exponentOf, exponentOf, if_pos rfl] at hq
      exact absurd (Exponent.ext hq.symm) (canonical_cons.1 he).2.1
  | cons p d ih =>
    have hp : exponentOf p.base (p :: d) ≠ 0 := by
      rw [exponentOf, if_pos rfl]
      exact fun h0 => (canonical_cons.1 hd).2.1 (Exponent.ext h0)
    cases e with
    | nil => exact absurd (h p.base) hp
    | cons q e =>
      have hq : exponentOf q.base (q :: e) ≠ 0 := by
        rw [exponentOf, if_pos rfl]
        exact fun h0 => (canonical_cons.1 he).2.1 (Exponent.ext h0)
      -- the lesser of two heads would have no exponent in the other
      -- list
      have hbase : p.base = q.base := by
        refine String.le_antisymm (String.not_lt.1 fun hlt => ?_)
          (String.not_lt.1 fun hlt => ?_)
        · rw [← h, exponentOf_eq_zero_of_lt hd hlt] at hq
          exact hq rfl
        · rw [h, exponentOf_eq_zero_of_lt he hlt] at hp
          exact hp rfl
      have hexp : p.exponent = q.exponent := by
        have hb := h p.base
        rw [exponentOf, exponentOf, if_pos rfl, if_pos hbase.symm] at hb
        exact Exponent.ext hb
      have hpq : p = q := by
        cases p
        cases q
        cases hbase
        cases hexp
        rfl
      subst hpq
      have htail : d = e := by
        refine ih (canonical_cons.1 hd).2.2 (canonical_cons.1 he).2.2 ?_
        intro base
        by_cases hb : p.base = base
        · subst hb
          rw [exponentOf_head hd, exponentOf_head he]
        · have hx := h base
          rwa [exponentOf, exponentOf, if_neg hb, if_neg hb] at hx
      rw [htail]

-- ================================================================= sums

theorem mem_consNonzero {p q : BasePower} {d : Dimension}
    (h : q ∈ consNonzero p d) : q = p ∨ q ∈ d := by
  unfold consNonzero at h
  split at h
  · exact .inr h
  · exact List.mem_cons.1 h

theorem canonical_consNonzero {p : BasePower} {d : Dimension}
    (hd : Canonical d) (h : ∀ q ∈ d, p.base < q.base) :
    Canonical (consNonzero p d) := by
  unfold consNonzero
  split
  · exact hd
  · next hp => exact canonical_cons.2 ⟨h, hp, hd⟩

theorem exponentOf_consNonzero {p : BasePower} {d : Dimension}
    (h : exponentOf p.base d = 0) (base : String) :
    exponentOf base (consNonzero p d) =
      if p.base = base then p.exponent.val else exponentOf base d := by
  unfold consNonzero
  split
  · next hp =>
    split
    · next hb => rw [← hb, h, hp, Exponent.val_zero]
    · rfl
  · rfl

/-- A sum lists no base unit but those of the summands. -/
theorem mem_add? {base : String} {exponent : Exponent} {d sum : Dimension}
    (h : add? base exponent d = some sum) {q : BasePower} (hq : q ∈ sum) :
    q.base = base ∨ ∃ p ∈ d, p.base = q.base := by
  induction d generalizing sum with
  | nil =>
    cases h
    rcases mem_consNonzero hq with rfl | hq
    · exact .inl rfl
    · cases hq
  | cons p d ih =>
    unfold add? at h
    split at h
    · cases h
      rcases mem_consNonzero hq with rfl | hq
      · exact .inl rfl
      · exact .inr ⟨q, hq, rfl⟩
    · split at h
      · obtain ⟨e, -, rfl⟩ := Option.map_eq_some_iff.1 h
        rcases mem_consNonzero hq with rfl | hq
        · exact .inl rfl
        · exact .inr ⟨q, List.mem_cons_of_mem _ hq, rfl⟩
      · obtain ⟨rest, hrest, rfl⟩ := Option.map_eq_some_iff.1 h
        rcases List.mem_cons.1 hq with rfl | hq
        · exact .inr ⟨q, List.mem_cons_self, rfl⟩
        · rcases ih hrest hq with hb | ⟨r, hr, hrq⟩
          · exact .inl hb
          · exact .inr ⟨r, List.mem_cons_of_mem _ hr, hrq⟩

/-- Adding keeps the canonical form. -/
theorem canonical_add? {base : String} {exponent : Exponent}
    {d sum : Dimension} (hd : Canonical d)
    (h : add? base exponent d = some sum) : Canonical sum := by
  induction d generalizing sum with
  | nil =>
    cases h
    exact canonical_consNonzero canonical_nil
      fun q hq => absurd hq List.not_mem_nil
  | cons p d ih =>
    obtain ⟨hlt, hp, htail⟩ := canonical_cons.1 hd
    unfold add? at h
    split at h
    · next hb =>
      cases h
      refine canonical_consNonzero hd fun q hq => ?_
      rcases List.mem_cons.1 hq with rfl | hq
      · exact hb
      · exact String.lt_trans hb (hlt q hq)
    · next hb =>
      split at h
      · next heq =>
        obtain ⟨e, -, rfl⟩ := Option.map_eq_some_iff.1 h
        exact canonical_consNonzero htail fun q hq => heq ▸ hlt q hq
      · next hne =>
        obtain ⟨rest, hrest, rfl⟩ := Option.map_eq_some_iff.1 h
        refine canonical_cons.2 ⟨fun q hq => ?_, hp, ih htail hrest⟩
        rcases mem_add? hrest hq with hqb | ⟨r, hr, hrq⟩
        · rw [hqb]
          refine String.not_le.1 fun hle => hne ?_
          exact String.le_antisymm hle (String.not_lt.1 hb)
        · exact hrq ▸ hlt r hr

/-- Adding changes one exponent, by the number added. -/
theorem exponentOf_add? {base : String} {exponent : Exponent}
    {d sum : Dimension} (hd : Canonical d)
    (h : add? base exponent d = some sum) (other : String) :
    exponentOf other sum =
      exponentOf other d + if base = other then exponent.val else 0 := by
  induction d generalizing sum with
  | nil =>
    cases h
    rw [exponentOf_consNonzero rfl]
    simp only [exponentOf, Int.zero_add]
  | cons p d ih =>
    unfold add? at h
    split at h
    · next hb =>
      cases h
      have hzero := exponentOf_eq_zero_of_lt hd hb
      rw [exponentOf_consNonzero hzero]
      split
      · next ho => rw [← ho, hzero, Int.zero_add]
      · rw [Int.add_zero]
    · split at h
      · next heq =>
        subst heq
        obtain ⟨e, he, rfl⟩ := Option.map_eq_some_iff.1 h
        have hzero := exponentOf_head hd
        have hcons := exponentOf_consNonzero (p := ⟨p.base, e⟩) hzero other
        rw [hcons, exponentOf]
        split
        · exact Exponent.add?_eq_some_iff.1 he
        · rw [Int.add_zero]
      · next hne =>
        obtain ⟨rest, hrest, rfl⟩ := Option.map_eq_some_iff.1 h
        rw [exponentOf, exponentOf, ih (canonical_cons.1 hd).2.2 hrest]
        split
        · next ho => rw [if_neg (fun hb => hne (hb.trans ho.symm)), Int.add_zero]
        · rfl

/-- A sum fails to exist only because an exponent leaves the range. -/
theorem add?_eq_none_iff {base : String} {exponent : Exponent}
    {d : Dimension} (hd : Canonical d) :
    add? base exponent d = none ↔
      ¬ Exponent.InRange (exponentOf base d + exponent.val) := by
  induction d with
  | nil =>
    simp only [add?, exponentOf, Int.zero_add, reduceCtorEq, false_iff,
      Decidable.not_not]
    exact exponent.inRange_val
  | cons p d ih =>
    unfold add?
    split
    · next hb =>
      rw [exponentOf_eq_zero_of_lt hd hb, Int.zero_add]
      simp only [reduceCtorEq, false_iff, Decidable.not_not]
      exact exponent.inRange_val
    · split
      · next heq =>
        rw [Option.map_eq_none_iff, exponentOf, if_pos heq.symm]
        exact Exponent.ofInt?_eq_none_iff
      · next hne =>
        rw [Option.map_eq_none_iff, exponentOf, if_neg (Ne.symm hne)]
        exact ih (canonical_cons.1 hd).2.2

theorem addScaled?_cons {d : Dimension} {weight : Exponent}
    {p : BasePower} {other : Dimension} :
    addScaled? d weight (p :: other) =
      ((p.exponent.mul? weight).bind (d.add? p.base)).bind
        (addScaled? · weight other) := by
  rw [addScaled?, List.foldlM_cons]
  cases p.exponent.mul? weight with
  | none => rfl
  | some e => rfl

/-- Adding a multiple keeps the canonical form. -/
theorem canonical_addScaled? {d sum : Dimension} {weight : Exponent}
    {other : Dimension} (hd : Canonical d)
    (h : addScaled? d weight other = some sum) : Canonical sum := by
  induction other generalizing d with
  | nil =>
    cases h
    exact hd
  | cons p other ih =>
    rw [addScaled?_cons] at h
    obtain ⟨next, hnext, hrest⟩ := Option.bind_eq_some_iff.1 h
    obtain ⟨e, -, hadd⟩ := Option.bind_eq_some_iff.1 hnext
    exact ih (canonical_add? hd hadd) hrest

/-- Adding a multiple adds the multiple of every exponent. -/
theorem exponentOf_addScaled? {d sum : Dimension} {weight : Exponent}
    {other : Dimension} (hd : Canonical d) (hother : Canonical other)
    (h : addScaled? d weight other = some sum) (base : String) :
    exponentOf base sum =
      exponentOf base d + exponentOf base other * weight.val := by
  induction other generalizing d with
  | nil =>
    cases h
    rw [exponentOf, Int.zero_mul, Int.add_zero]
  | cons p other ih =>
    rw [addScaled?_cons] at h
    obtain ⟨next, hnext, hrest⟩ := Option.bind_eq_some_iff.1 h
    obtain ⟨e, he, hadd⟩ := Option.bind_eq_some_iff.1 hnext
    have hval := Exponent.mul?_eq_some_iff.1 he
    rw [ih (canonical_add? hd hadd) (canonical_cons.1 hother).2.2 hrest,
      exponentOf_add? hd hadd, exponentOf]
    split
    · next hb =>
      subst hb
      rw [exponentOf_head hother, hval, Int.zero_mul, Int.add_zero]
    · rw [Int.add_zero]

/-- A sum with a multiple lists no base unit but those of the two. -/
theorem mem_addScaled? {d sum : Dimension} {weight : Exponent}
    {other : Dimension} (h : addScaled? d weight other = some sum)
    {q : BasePower} (hq : q ∈ sum) :
    ∃ p, (p ∈ d ∨ p ∈ other) ∧ p.base = q.base := by
  induction other generalizing d with
  | nil =>
    cases h
    exact ⟨q, .inl hq, rfl⟩
  | cons r other ih =>
    rw [addScaled?_cons] at h
    obtain ⟨next, hnext, hrest⟩ := Option.bind_eq_some_iff.1 h
    obtain ⟨e, -, hadd⟩ := Option.bind_eq_some_iff.1 hnext
    obtain ⟨p, hp | hp, hpq⟩ := ih hrest
    · rcases mem_add? hadd hp with hb | ⟨p', hp', hpp⟩
      · exact ⟨r, .inr List.mem_cons_self, hb.symm.trans hpq⟩
      · exact ⟨p', .inl hp', hpp.trans hpq⟩
    · exact ⟨p, .inr (List.mem_cons_of_mem _ hp), hpq⟩

/-- Adding a multiple fails to give a sum only because a product or a
sum of two exponents leaves the range. -/
theorem addScaled?_eq_none_iff {d : Dimension} {weight : Exponent}
    {other : Dimension} (hd : Canonical d) (hother : Canonical other) :
    addScaled? d weight other = none ↔
      ∃ p ∈ other, ¬ Exponent.InRange (p.exponent.val * weight.val)
        ∨ ¬ Exponent.InRange
            (exponentOf p.base d + p.exponent.val * weight.val) := by
  induction other generalizing d with
  | nil => simp [addScaled?]
  | cons q other ih =>
    obtain ⟨hlt, -, htail⟩ := canonical_cons.1 hother
    rw [addScaled?_cons]
    simp only [List.mem_cons, exists_eq_or_imp]
    cases he : q.exponent.mul? weight with
    | none =>
      have hq := Exponent.ofInt?_eq_none_iff.1 he
      simp [hq]
    | some e =>
      have hval := Exponent.mul?_eq_some_iff.1 he
      have hin : Exponent.InRange (q.exponent.val * weight.val) :=
        hval ▸ e.inRange_val
      rw [← hval]
      rw [← hval] at hin
      cases hadd : d.add? q.base e with
      | none =>
        have hq := (add?_eq_none_iff hd).1 hadd
        simp [hadd, hq]
      | some next =>
        have hq : Exponent.InRange (exponentOf q.base d + e.val) := by
          refine Classical.byContradiction fun hout => ?_
          rw [(add?_eq_none_iff hd).2 hout] at hadd
          cases hadd
        -- names do not repeat, so one sum leaves the next ones as they
        -- were
        have hsame : ∀ p ∈ other,
            exponentOf p.base next = exponentOf p.base d := by
          intro p hp
          have hne : q.base ≠ p.base := fun heq =>
            String.lt_irrefl _ (heq ▸ hlt p hp)
          rw [exponentOf_add? hd hadd, if_neg hne, Int.add_zero]
        rw [Option.bind_some, hadd, Option.bind_some,
          ih (canonical_add? hd hadd) htail]
        constructor
        · rintro ⟨p, hp, h⟩
          rw [hsame p hp] at h
          exact .inr ⟨p, hp, h⟩
        · rintro (h | ⟨p, hp, h⟩)
          · exact absurd h (by simp [hin, hq])
          · rw [← hsame p hp] at h
            exact ⟨p, hp, h⟩

/-- Adding a power of one base unit is adding a multiple of it. -/
theorem addScaled?_singleton (d : Dimension) (weight : Exponent)
    (base : String) :
    addScaled? d weight [⟨base, 1⟩] = d.add? base weight := by
  have hone : (1 : Exponent).mul? weight = some weight :=
    Exponent.mul?_eq_some_iff.2 (by rw [Exponent.val_one, Int.one_mul])
  rw [addScaled?_cons, hone, Option.bind_some]
  cases d.add? base weight with
  | none => rfl
  | some sum => rfl

-- ============================================================= negation

theorem neg?_cons_eq_some_iff {p : BasePower} {d negated : Dimension} :
    neg? (p :: d) = some negated ↔
      ∃ e rest, p.exponent.neg? = some e ∧ neg? d = some rest
        ∧ negated = ⟨p.base, e⟩ :: rest := by
  cases he : p.exponent.neg? with
  | none => simp [neg?, he]
  | some e =>
    cases hd : neg? d with
    | none => simp [neg?, he, hd]
    | some rest => simp [neg?, he, hd, eq_comm]

/-- Negation lists the same base units in the same order. -/
theorem map_base_neg? {d negated : Dimension}
    (h : neg? d = some negated) :
    negated.map BasePower.base = d.map BasePower.base := by
  induction d generalizing negated with
  | nil =>
    cases h
    rfl
  | cons p d ih =>
    obtain ⟨e, rest, -, hrest, rfl⟩ := neg?_cons_eq_some_iff.1 h
    rw [List.map_cons, List.map_cons, ih hrest]

/-- Negation negates every exponent. -/
theorem exponentOf_neg? {d negated : Dimension}
    (h : neg? d = some negated) (base : String) :
    exponentOf base negated = -exponentOf base d := by
  induction d generalizing negated with
  | nil =>
    cases h
    rfl
  | cons p d ih =>
    obtain ⟨e, rest, he, hrest, rfl⟩ := neg?_cons_eq_some_iff.1 h
    rw [exponentOf, exponentOf, ih hrest]
    split
    · exact Exponent.neg?_eq_some_iff.1 he
    · rfl

/-- Negation keeps the canonical form. -/
theorem canonical_neg? {d negated : Dimension} (hd : Canonical d)
    (h : neg? d = some negated) : Canonical negated := by
  induction d generalizing negated with
  | nil =>
    cases h
    exact canonical_nil
  | cons p d ih =>
    obtain ⟨e, rest, he, hrest, rfl⟩ := neg?_cons_eq_some_iff.1 h
    obtain ⟨hlt, hp, htail⟩ := canonical_cons.1 hd
    refine canonical_cons.2 ⟨fun q hq => ?_, fun h0 => hp ?_, ih htail hrest⟩
    · have hmem : q.base ∈ d.map BasePower.base := by
        rw [← map_base_neg? hrest]
        exact List.mem_map_of_mem hq
      obtain ⟨r, hr, hrq⟩ := List.mem_map.1 hmem
      exact hrq ▸ hlt r hr
    · have hval := Exponent.neg?_eq_some_iff.1 he
      rw [show e = 0 from h0, Exponent.val_zero] at hval
      refine Exponent.ext ?_
      rw [Exponent.val_zero]
      omega

theorem neg?_cons_eq_some_cons_iff {p q : BasePower} {d e : Dimension} :
    neg? (p :: d) = some (q :: e) ↔
      p.base = q.base ∧ p.exponent.neg? = some q.exponent
        ∧ neg? d = some e := by
  rw [neg?_cons_eq_some_iff]
  constructor
  · rintro ⟨exponent, rest, hexponent, hrest, heq⟩
    cases heq
    exact ⟨rfl, hexponent, hrest⟩
  · rintro ⟨hbase, hexponent, hrest⟩
    exact ⟨q.exponent, e, hexponent, hrest, by rw [hbase]⟩

/-- Negation fails only because some exponent has no negation. -/
theorem exists_neg?_iff {d : Dimension} :
    (∃ negated, neg? d = some negated) ↔
      ∀ p ∈ d, Exponent.InRange (-p.exponent.val) := by
  induction d with
  | nil => simp [neg?]
  | cons p d ih =>
    rw [List.forall_mem_cons, ← ih]
    constructor
    · rintro ⟨negated, h⟩
      obtain ⟨e, rest, he, hrest, -⟩ := neg?_cons_eq_some_iff.1 h
      exact ⟨Exponent.neg?_eq_some_iff.1 he ▸ e.inRange_val, rest, hrest⟩
    · rintro ⟨hp, rest, hrest⟩
      exact ⟨⟨p.base, ⟨-p.exponent.val, hp.1, hp.2⟩⟩ :: rest,
        neg?_cons_eq_some_cons_iff.2
          ⟨rfl, Exponent.neg?_eq_some_iff.2 rfl, hrest⟩⟩

/-- One canonical list is the negation of another exactly when it gives
every base unit the opposite exponent. -/
theorem neg?_eq_some_iff {d e : Dimension} (hd : Canonical d)
    (he : Canonical e) :
    neg? d = some e ↔
      ∀ base, exponentOf base e = -exponentOf base d := by
  refine ⟨fun h base => exponentOf_neg? h base, fun h => ?_⟩
  have hrange : ∀ p ∈ d, Exponent.InRange (-p.exponent.val) := by
    intro p hp
    rw [← exponentOf_of_mem hd.nodup hp, ← h]
    exact inRange_exponentOf p.base e
  obtain ⟨negated, hnegated⟩ := exists_neg?_iff.2 hrange
  rw [hnegated]
  congr 1
  refine (canonical_neg? hd hnegated).eq_of_exponentOf he fun base => ?_
  rw [exponentOf_neg? hnegated, h]

-- ============================================================ likeness

/-- What the walk finds: the lists are the same, or else each other's
negation, as far as that was possible when it began. -/
theorem likeness?_eq {same opposite : Bool} (d e : Dimension)
    (h : same = true ∨ opposite = true) :
    likeness? same opposite d e =
      if same = true ∧ d = e then some .same
      else if opposite = true ∧ neg? d = some e then some .opposite
      else none := by
  induction d generalizing same opposite e with
  | nil =>
    cases e with
    | nil => cases same <;> simp_all [likeness?, neg?]
    | cons q e => simp [likeness?, neg?]
  | cons p d ih =>
    cases e with
    | nil =>
      have hneg : ¬ neg? (p :: d) = some [] := by
        rw [neg?_cons_eq_some_iff]
        simp
      simp [likeness?, hneg]
    | cons q e =>
      by_cases hbase : p.base = q.base
      · have hsame : p :: d = q :: e ↔ p.exponent = q.exponent ∧ d = e := by
          rw [List.cons.injEq]
          cases p
          cases q
          simp_all
        rw [likeness?, if_neg (not_not_intro hbase)]
        simp only [hsame, neg?_cons_eq_some_cons_iff, hbase, true_and,
          ← and_assoc]
        split
        · next hgo =>
          rw [ih e (by simpa using hgo)]
          simp only [Bool.and_eq_true, decide_eq_true_iff]
        · next hstop =>
          simp only [Bool.or_eq_true, not_or, Bool.and_eq_true,
            decide_eq_true_iff] at hstop
          rw [if_neg (fun hall => hstop.1 hall.1),
            if_neg (fun hall => hstop.2 hall.1)]
      · have hsame : p :: d ≠ q :: e := fun heq =>
          hbase (congrArg BasePower.base (List.cons.inj heq).1)
        have hneg : neg? (p :: d) ≠ some (q :: e) := fun heq =>
          hbase (neg?_cons_eq_some_cons_iff.1 heq).1
        rw [likeness?, if_pos hbase, if_neg (fun hall => hsame hall.2),
          if_neg (fun hall => hneg hall.2)]

-- ============================================================ arranging

/-- The walk finds no repetition exactly when no base stands twice and
none has been seen before. -/
theorem firstRepeated?_go_eq_none_iff {seen : List String} {d : Dimension} :
    firstRepeated?.go seen d = none ↔
      (d.map BasePower.base).Nodup ∧ ∀ p ∈ d, p.base ∉ seen := by
  induction d generalizing seen with
  | nil => simp [firstRepeated?.go]
  | cons p d ih =>
    rw [firstRepeated?.go]
    split
    · next hp => simp [hp]
    · next hp =>
      rw [ih, List.map_cons, List.nodup_cons, List.forall_mem_cons]
      simp only [List.mem_cons, not_or, List.mem_map, not_exists, not_and]
      constructor
      · rintro ⟨hd, hseen⟩
        exact ⟨⟨fun q hq => (hseen q hq).1, hd⟩, hp, fun q hq => (hseen q hq).2⟩
      · rintro ⟨⟨hne, hd⟩, -, hseen⟩
        exact ⟨hd, fun q hq => ⟨hne q hq, hseen q hq⟩⟩

theorem firstRepeated?_eq_none_iff {d : Dimension} :
    firstRepeated? d = none ↔ (d.map BasePower.base).Nodup := by
  rw [firstRepeated?, firstRepeated?_go_eq_none_iff]
  simp

/-- Arranging gives a canonical list when no base stands twice. -/
theorem canonical_arrange {d : Dimension}
    (h : (d.map BasePower.base).Nodup) : Canonical (arrange d) := by
  have hperm := List.mergeSort_perm (d.filter (·.exponent ≠ 0)) inOrder
  have hsorted := @List.pairwise_mergeSort _ inOrder
    (fun p q r hpq hqr => decide_eq_true
      (String.le_trans (of_decide_eq_true hpq) (of_decide_eq_true hqr)))
    (fun p q => by simp [inOrder, String.le_total])
    (d.filter (·.exponent ≠ 0))
  have hdistinct : (arrange d).Pairwise fun p q => p.base ≠ q.base := by
    refine (List.Perm.pairwise_iff (fun hpq => Ne.symm hpq) hperm).2 ?_
    exact (List.pairwise_map.1 h).sublist List.filter_sublist
  constructor
  · refine (hsorted.and hdistinct).imp ?_
    rintro p q ⟨hle, hne⟩
    exact String.not_le.1 fun hge =>
      hne (String.le_antisymm (of_decide_eq_true hle) hge)
  · intro p hp
    have hmem := (List.mem_filter.1 (hperm.mem_iff.1 hp)).2
    exact of_decide_eq_true hmem

/-- Arranging leaves the exponent of every base unit as it is. -/
theorem exponentOf_arrange {d : Dimension}
    (h : (d.map BasePower.base).Nodup) (base : String) :
    exponentOf base (arrange d) = exponentOf base d := by
  have hmem : ∀ p, p ∈ arrange d ↔ p ∈ d ∧ p.exponent ≠ 0 := by
    intro p
    simp [arrange]
  by_cases hzero : exponentOf base d = 0
  · rw [hzero]
    refine exponentOf_eq_zero ?_
    rintro p hp rfl
    obtain ⟨hlisted, hne⟩ := (hmem p).1 hp
    rw [exponentOf_of_mem h hlisted] at hzero
    exact hne (Exponent.ext hzero)
  · obtain ⟨p, hp, rfl⟩ := exists_mem_of_exponentOf_ne_zero hzero
    rw [exponentOf_of_mem h hp] at hzero ⊢
    have hne : p.exponent ≠ 0 := fun heq => hzero (congrArg _ heq)
    exact exponentOf_of_mem (canonical_arrange h).nodup
      ((hmem p).2 ⟨hp, hne⟩)

/-- A canonical list is arranged already. -/
theorem arrange_eq_self {d : Dimension} (hd : Canonical d) :
    arrange d = d := by
  have hfilter : d.filter (·.exponent ≠ 0) = d :=
    List.filter_eq_self.2 fun p hp => decide_eq_true (hd.2 p hp)
  rw [arrange, hfilter]
  refine List.mergeSort_of_pairwise (hd.1.imp fun hlt => ?_)
  exact decide_eq_true (String.not_lt.1 (String.lt_asymm hlt))

end UnitAlgebra.Dimension
