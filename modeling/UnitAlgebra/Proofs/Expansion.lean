/-
The depth-first expansion of a table, and what its entries are worth.

# The invariant

Entries are `Settled` when they stand in an order in which each is the
product of its definition's targets over the entries further down. The
walk keeps its entries settled, which says at once that

- every entry obeys its own definition (`Settled.obeys`),
- no definition among the entries leads back to itself
  (`Settled.acyclic`),
- every valuation that obeys the table agrees with the entries
  (`Settled.matches_of_obeys`): the definitions have one meaning, and
  the entries are it.

# The walk

`expand_ends` and `entry_ends` say how the walk ends, whichever way
that is. Each name on the path leads to the name at hand, so a
reference back to one of them is a cycle of the table, and not only of
this walk. An entry that is there already is no such reference, whoever
asked for it first. When the walk ends with a fault, `Explains` holds
of it: the fault names something that is wrong with the table. The
induction is on the number of names ahead for the way down and on the
targets for the way along.
-/
import UnitAlgebra.Proofs.Valuation

namespace UnitAlgebra

variable {α : Type} [Scalar α]

-- ===================================================== settled entries

/-- Entries in an order in which each refers only to entries further
down. -/
inductive Settled (definitions : Definitions α) (base : List String) :
    Catalog.Entries α → Prop where
  | nil : Settled definitions base []
  | cons {name : String} {definition : Definition α} {form : BaseForm α}
      {known : Catalog.Entries α} (hknown : Settled definitions base known)
      (hname : known.lookup name = none)
      (hdefinition : (name, definition) ∈ definitions)
      (hform : Gathers base known definition.ratio definition.targets
        form) :
      Settled definitions base ((name, form) :: known)

namespace Catalog.Entries

/-- Every definition has an entry. -/
def Covers {α : Type} (known : Catalog.Entries α)
    (definitions : Definitions α) : Prop :=
  ∀ d ∈ definitions, ∃ form, known.lookup d.1 = some form

theorem lookup_self {α : Type} (name : String) (form : BaseForm α)
    (known : Catalog.Entries α) :
    ((name, form) :: known).lookup name = some form :=
  List.lookup_cons_self

theorem lookup_of_ne {α : Type} {name other : String} (form : BaseForm α)
    (known : Catalog.Entries α) (h : other ≠ name) :
    ((name, form) :: known).lookup other = known.lookup other := by
  rw [List.lookup_cons, beq_false_of_ne h]

/-- An entry for a new name hides nothing. -/
theorem lookup_cons_of_lookup {α : Type} {name other : String}
    {form inner : BaseForm α} {known : Catalog.Entries α}
    (hname : known.lookup name = none)
    (h : known.lookup other = some inner) :
    ((name, form) :: known).lookup other = some inner := by
  rw [lookup_of_ne form known, h]
  intro hsame
  rw [hsame, hname] at h
  cases h

/-- What the first entry holds, or else a later one. -/
theorem eq_or_lookup_of_lookup_cons {α : Type} {name other : String}
    {form inner : BaseForm α} {known : Catalog.Entries α}
    (h : ((name, form) :: known).lookup other = some inner) :
    (other = name ∧ inner = form) ∨ known.lookup other = some inner := by
  by_cases hother : other = name
  · subst hother
    rw [lookup_self] at h
    exact .inl ⟨rfl, (Option.some.inj h).symm⟩
  · rw [lookup_of_ne form known hother] at h
    exact .inr h

end Catalog.Entries

/-- Gathering the targets of a definition took the entries of the units
that it refers to. -/
theorem Gathers.exists_of_refersTo {definitions : Definitions α}
    {base : List String} {known : Catalog.Entries α} {name b : String}
    {definition : Definition α} {form : BaseForm α}
    (h : Gathers base known definition.ratio definition.targets form)
    (hnodup : definitions.names.Nodup)
    (hbase : ∀ d ∈ definitions, d.1 ∉ base)
    (hdefinition : (name, definition) ∈ definitions)
    (hb : definitions.RefersTo name b) :
    ∃ inner, known.lookup b = some inner := by
  obtain ⟨definition', hdefinition', hderived, t, ht, rfl⟩ := hb
  rw [Definitions.definition_unique hnodup hdefinition' hdefinition] at ht
  obtain ⟨d, hd, hdt⟩ := List.mem_map.1 hderived
  exact (h.has t ht).resolve_left (hdt ▸ hbase d hd)

namespace Settled

open Catalog.Entries

variable {definitions : Definitions α} {base : List String}
  {known : Catalog.Entries α}

theorem wellFormed (h : Settled definitions base known) :
    known.WellFormed base := by
  induction h with
  | nil => exact fun name form h => nomatch h
  | cons _ _ _ hform ih =>
    intro other inner hother
    rcases eq_or_lookup_of_lookup_cons hother with ⟨-, rfl⟩ | hother
    · exact hform.canonicalOver ih
    · exact ih other inner hother

/-- Every entry is the product of the targets of its definition. -/
theorem gathers (h : Settled definitions base known) {name : String}
    {form : BaseForm α} (hname : known.lookup name = some form) :
    ∃ definition, (name, definition) ∈ definitions
      ∧ Gathers base known definition.ratio definition.targets form := by
  induction h with
  | nil => cases hname
  | @cons head _ form' known _ hnew hdefinition hform ih =>
    have hkeeps : ∀ other inner, known.lookup other = some inner →
        ((head, form') :: known).lookup other = some inner :=
      fun other inner => lookup_cons_of_lookup hnew
    rcases eq_or_lookup_of_lookup_cons hname with ⟨rfl, rfl⟩ | hname
    · exact ⟨_, hdefinition, hform.mono hkeeps⟩
    · obtain ⟨definition, hmem, hgathers⟩ := ih hname
      exact ⟨definition, hmem, hgathers.mono hkeeps⟩

/-- A valuation that obeys the table gives every entry what it is
worth. -/
theorem eq_of_obeys (h : Settled definitions base known)
    {v : Valuation α} (hv : v.Obeys definitions base) :
    ∀ name form, known.lookup name = some form →
      v.factor name = form.factor
        ∧ ∀ b ∈ base, v.exponent name b = form.dimension.exponentOf b := by
  induction h with
  | nil => exact fun name form h => nomatch h
  | cons hknown _ hdefinition hform ih =>
    intro other inner hother
    rcases eq_or_lookup_of_lookup_cons hother with ⟨rfl, rfl⟩ | hother
    · have hmatches := Valuation.matches_of_entries hv.base_unit ih
      constructor
      · have hfactor := hv.factor _ hdefinition
        rw [Valuation.factorOf, hform.factor hmatches] at hfactor
        exact (Except.ok.inj hfactor).symm
      · intro b hb
        rw [hv.exponent _ hdefinition b hb,
          hform.exponentOf hmatches hknown.wellFormed hb]
    · exact ih other inner hother

/-- The definitions of a table have one meaning. -/
theorem matches_of_obeys (h : Settled definitions base known)
    {v : Valuation α} (hv : v.Obeys definitions base) :
    v.Matches base known :=
  Valuation.matches_of_entries hv.base_unit (h.eq_of_obeys hv)

/-- Where every definition has an entry, the entry is the product of
the targets of that very definition. -/
theorem gathers_of_mem (h : Settled definitions base known)
    (hnodup : definitions.names.Nodup) (hall : known.Covers definitions)
    {d : String × Definition α} (hd : d ∈ definitions) :
    ∃ form, known.lookup d.1 = some form
      ∧ Gathers base known d.2.ratio d.2.targets form := by
  obtain ⟨form, hform⟩ := hall d hd
  obtain ⟨definition, hmem, hgathers⟩ := h.gathers hform
  rw [Definitions.definition_unique hnodup hmem hd] at hgathers
  exact ⟨form, hform, hgathers⟩

/-- Settled entries of a whole table obey it. -/
theorem obeys (h : Settled definitions base known)
    (hnodup : definitions.names.Nodup)
    (hbase : ∀ d ∈ definitions, d.1 ∉ base)
    (hall : known.Covers definitions) :
    (known.valuation base).Obeys definitions base := by
  have hmatches := known.matches_valuation base
  constructor
  · intro a ha b hb
    rw [hmatches.exponent a (.inl ha) b hb, dimension_of_base ha]
    rfl
  · intro d hd b hb
    obtain ⟨form, hform, hgathers⟩ := h.gathers_of_mem hnodup hall hd
    rw [hmatches.exponent _ (.inr ⟨form, hform⟩) b hb,
      dimension_of_entry (hbase d hd) hform,
      hgathers.exponentOf hmatches h.wellFormed hb]
  · intro d hd
    obtain ⟨form, hform, hgathers⟩ := h.gathers_of_mem hnodup hall hd
    rw [hmatches.factor _ _ hform]
    exact hgathers.factor hmatches

/-- The units that an entry's definition refers to have entries. -/
theorem exists_of_refersTo (h : Settled definitions base known)
    (hnodup : definitions.names.Nodup)
    (hbase : ∀ d ∈ definitions, d.1 ∉ base) {a b : String}
    (hab : definitions.RefersTo a b)
    (ha : ∃ form, known.lookup a = some form) :
    ∃ form, known.lookup b = some form := by
  obtain ⟨form, hform⟩ := ha
  obtain ⟨definition, hdefinition, hgathers⟩ := h.gathers hform
  exact hgathers.exists_of_refersTo hnodup hbase hdefinition hab

/-- No entry's definition leads back to itself. -/
theorem acyclic (h : Settled definitions base known)
    (hnodup : definitions.names.Nodup)
    (hbase : ∀ d ∈ definitions, d.1 ∉ base) {name : String}
    (hname : ∃ form, known.lookup name = some form) :
    ¬ Relation.TransGen definitions.RefersTo name name := by
  induction h with
  | nil => exact fun _ => nomatch hname
  | @cons head definition form known hknown hnew hdefinition hform ih =>
    intro hcycle
    -- whatever an older entry leads to is an older entry
    have hclosed : ∀ {a b},
        Relation.ReflTransGen definitions.RefersTo a b →
          (∃ form, known.lookup a = some form) →
            ∃ form, known.lookup b = some form := by
      intro a b hab ha
      induction hab with
      | refl => exact ha
      | tail _ hstep ih' =>
        exact hknown.exists_of_refersTo hnodup hbase hstep ih'
    -- the first step off the name leads to an older entry
    obtain ⟨next, hfirst, hrest⟩ := Relation.TransGen.head'_iff.1 hcycle
    have hnext : ∃ form, known.lookup next = some form := by
      by_cases hhead : name = head
      · subst hhead
        exact hform.exists_of_refersTo hnodup hbase hdefinition hfirst
      · rw [lookup_of_ne form known hhead] at hname
        exact hknown.exists_of_refersTo hnodup hbase hfirst hname
    exact ih (hclosed hrest hnext) hcycle

end Settled

-- =================================================== what a fault says

/-- How far the definition of `name` is gathered: the targets `done` are,
`next` comes now, and every derived unit among `done` has a settled
entry. -/
structure Stage (definitions : Definitions α) (base : List String)
    (name : String) (done : List Target) (next : Target)
    (known : Catalog.Entries α) : Prop where
  settled : Settled definitions base known
  within : ∃ definition, (name, definition) ∈ definitions
    ∧ done ++ [next] <+: definition.targets
  has : ∀ t ∈ done, known.Has base t.name

/-- A power that multiplying by a target takes is a division by zero. -/
def PowerFails (known : Catalog.Entries α) (base : List String)
    (t : Target) : Prop :=
  Scalar.pow (t.scale.factor : α) t.exponent = .error .divisionByZero
    ∨ t.name ∉ base ∧ ∃ inner, known.lookup t.name = some inner
      ∧ Scalar.pow inner.factor t.exponent = .error .divisionByZero

/-- What a fault says about the table that it comes from. Faults of any
other kind do not come from a table. -/
def Explains (definitions : Definitions α) (base : List String) :
    Fault → Prop
  | .construction .noBase => base = []
  | .construction (.baseAndDerived name) =>
    name ∈ base ∧ name ∈ definitions.names
  | .construction (.zeroRatio name) =>
    ∃ definition, (name, definition) ∈ definitions
      ∧ Scalar.isZero definition.ratio = true
  | .construction (.definedTwice name) =>
    2 ≤ definitions.names.count name
  | .construction (.unknownTarget name target) =>
    ∃ definition, (name, definition) ∈ definitions
      ∧ (∃ t ∈ definition.targets, t.name = target)
      ∧ target ∉ base ∧ target ∉ definitions.names
  | .construction (.cycle name) =>
    Relation.TransGen definitions.RefersTo name name
  | .construction (.overflow name) =>
    ∃ done next known, Stage definitions base name done next known
      ∧ known.Has base next.name
      ∧ ¬ (known.valuation base).Fits base done next
  | .divisionByZero =>
    ∃ name done next known, Stage definitions base name done next known
      ∧ PowerFails known base next
  | _ => False

-- ============================================================ the walk

/-- Entries that keep what was known and add nothing that is on the
path. -/
structure Grows {α : Type} (path : List String)
    (known known' : Catalog.Entries α) : Prop where
  keeps : ∀ name form, known.lookup name = some form →
    known'.lookup name = some form
  fresh : ∀ name, name ∈ path → known.lookup name = none →
    known'.lookup name = none

namespace Grows

variable {α : Type} {path : List String}
  {known known' known'' : Catalog.Entries α}

theorem refl (path : List String) (known : Catalog.Entries α) :
    Grows path known known := ⟨fun _ _ h => h, fun _ _ h => h⟩

theorem trans (h : Grows path known known')
    (h' : Grows path known' known'') : Grows path known known'' where
  keeps _ _ hname := h'.keeps _ _ (h.keeps _ _ hname)
  fresh _ hpath hname := h'.fresh _ hpath (h.fresh _ hpath hname)

/-- The entry of a new name, on top of what was found with that name on
the path. -/
theorem cons {name : String} {form : BaseForm α}
    (h : Grows (name :: path) known known') (hpath : name ∉ path)
    (hname : known.lookup name = none) :
    Grows path known ((name, form) :: known') := by
  have hnew := h.fresh name List.mem_cons_self hname
  refine ⟨fun other inner hother => ?_, fun other hother hnone => ?_⟩
  · exact Catalog.Entries.lookup_cons_of_lookup hnew
      (h.keeps _ _ hother)
  · have hne : other ≠ name := by
      intro hsame
      exact hpath (hsame ▸ hother)
    rw [Catalog.Entries.lookup_of_ne form known' hne]
    exact h.fresh other (List.mem_cons_of_mem _ hother) hnone

end Grows

section

open Expansion Relation

variable {table : Table α} {definitions : Definitions α}

/-- How the walk to a name is to end: with settled entries, one of them
for that name, or with a fault of the table. -/
def EntryEnds (table : Table α) (definitions : Definitions α)
    (path : List String) : Prop :=
  ∀ known name, Settled definitions table.base known →
    name ∈ definitions.names →
    (∀ a ∈ path, TransGen definitions.RefersTo a name) →
    Ends
      (fun known' => Settled definitions table.base known'
        ∧ Grows path known known'
        ∧ ∃ form, known'.lookup name = some form)
      (Explains definitions table.base) (entry table path known name)

theorem pow_ends {x : α} {n : Exponent} {bad : Fault → Prop}
    (hbad : Scalar.pow x n = .error .divisionByZero →
      bad .divisionByZero) :
    Ends (fun _ => True) bad (Scalar.pow x n) := by
  cases hpow : Scalar.pow x n with
  | ok power => trivial
  | error fault =>
    obtain rfl := Scalar.fault_pow hpow
    exact hbad hpow

/-- A power that fails has no value. -/
theorem not_exists_pow {x : α} {n : Exponent} {fault : Fault}
    (h : Scalar.pow x n = .error fault) :
    ¬ ∃ power, Scalar.pow x n = .ok power := by
  intro hexists
  obtain ⟨power, hpower⟩ := hexists
  rw [h] at hpower
  cases hpower

/-- A sum that is not there does not fit. -/
theorem Stage.overflow {base : List String} {name : String}
    {done : List Target} {t : Target} {known : Catalog.Entries α}
    {ratio : α} {form : BaseForm α}
    (hstage : Stage definitions base name done t known)
    (hform : Gathers base known ratio done form)
    (ht : known.Has base t.name)
    (hsum : form.dimension.addScaled? t.exponent
      (known.dimension base t.name) = none) :
    Explains definitions base (.construction (.overflow name)) := by
  have hmatches := known.matches_valuation base
  have hknown := hstage.settled.wellFormed
  refine ⟨done, t, known, hstage, ht, fun hfits => ?_⟩
  obtain ⟨sum, hsome⟩ := (exists_addScaled?_iff_fits hmatches hknown
    (hform.canonicalOver hknown).1
    (fun b hb => hform.exponentOf hmatches hknown hb) ht).2 hfits
  rw [hsum] at hsome
  cases hsome

/-- Gathering the targets of a definition, given that the walk to each
of them ends as it should. -/
theorem expand_ends {path : List String}
    (htable : ∀ d, d ∈ table.definitions ↔ d ∈ definitions)
    (hentry : EntryEnds table definitions path) {name : String}
    {definition : Definition α}
    (hdefinition : (name, definition) ∈ definitions)
    (hpath : ∀ a ∈ path, ReflTransGen definitions.RefersTo a name)
    {targets done : List Target} {known : Catalog.Entries α}
    {form : BaseForm α} (htargets : definition.targets = done ++ targets)
    (hknown : Settled definitions table.base known)
    (hform : Gathers table.base known definition.ratio done form) :
    Ends
      (fun found => Settled definitions table.base found.1
        ∧ Grows path known found.1
        ∧ Gathers table.base found.1 definition.ratio definition.targets
            found.2)
      (Explains definitions table.base)
      (expand table path known name form targets) := by
  induction targets generalizing done known form with
  | nil =>
    rw [expand]
    rw [List.append_nil] at htargets
    exact ⟨hknown, .refl path known, htargets ▸ hform⟩
  | cons t targets ih =>
    have hwithin : done ++ [t] <+: definition.targets :=
      ⟨targets, by rw [htargets, List.append_assoc]; rfl⟩
    have hsplit : definition.targets = (done ++ [t]) ++ targets := by
      rw [htargets, List.append_assoc]
      rfl
    have hstage : Stage definitions table.base name done t known :=
      ⟨hknown, ⟨definition, hdefinition, hwithin⟩, hform.has⟩
    rw [expand]
    refine (pow_ends fun hfail =>
      ⟨name, done, t, known, hstage, .inl hfail⟩).bind
        fun power hpower _ => ?_
    split
    · next hbase =>
      split
      · next hsum =>
        refine hstage.overflow hform (.inl hbase) ?_
        rw [Catalog.Entries.dimension_of_base hbase,
          Dimension.addScaled?_singleton]
        exact hsum
      · next dimension hsum =>
        exact ih hsplit hknown (hform.step (.base hbase hpower hsum))
    · next hbase =>
      have ht : t ∈ definition.targets := by
        rw [htargets]
        simp
      split
      · next hlookup =>
        -- the fault names a target that nobody defines
        refine ⟨definition, hdefinition, ⟨t, ht, rfl⟩, hbase, ?_⟩
        intro hname
        obtain ⟨d, hd, hdt⟩ := List.mem_map.1 hname
        refine Definitions.not_mem_names_of_lookup
          (Option.isNone_iff_eq_none.1 hlookup) ?_
        exact hdt ▸ Definitions.mem_names ((htable d).2 hd)
      · next hlookup =>
        rw [Option.isNone_iff_eq_none] at hlookup
        obtain ⟨definition', hlookup⟩ :=
          Option.ne_none_iff_exists'.1 hlookup
        have hname : t.name ∈ definitions.names :=
          Definitions.mem_names
            ((htable _).1 (Definitions.mem_of_lookup hlookup))
        have hrefers : definitions.RefersTo name t.name :=
          ⟨definition, hdefinition, hname, t, ht, rfl⟩
        -- the walk to the target comes back with more entries, and what
        -- was gathered so far still holds over these
        refine (hentry known t.name hknown hname
          fun a ha => .tail' (hpath a ha) hrefers).bind ?_
        intro known' _ hfound
        obtain ⟨hknown', hgrows, inner, hinner⟩ := hfound
        have hform' := hform.mono hgrows.keeps
        have hstage' : Stage definitions table.base name done t known' :=
          ⟨hknown', hstage.within, hform'.has⟩
        rw [hinner]
        refine (pow_ends fun hfail => ⟨name, done, t, known', hstage',
          .inr ⟨hbase, inner, hinner, hfail⟩⟩).bind
            fun innerPower hinnerPower _ => ?_
        split
        · next hsum =>
          refine hstage'.overflow hform' (.inr ⟨inner, hinner⟩) ?_
          rw [Catalog.Entries.dimension_of_entry hbase hinner]
          exact hsum
        · next dimension hsum =>
          refine (ih hsplit hknown' (hform'.step
            (.derived hbase hinner hpower hinnerPower hsum))).mono ?_
          intro found hends
          obtain ⟨hfound, hgrows', hresult⟩ := hends
          exact ⟨hfound, hgrows.trans hgrows', hresult⟩

/-- The walk to a name ends as it should, whatever path it came. -/
theorem entry_ends (htable : ∀ d, d ∈ table.definitions ↔ d ∈ definitions)
    (path : List String) : EntryEnds table definitions path := by
  induction hlen : (table.ahead path).length using Nat.strong_induction_on
    generalizing path with
  | _ n ih =>
    intro known name hknown hname hpath
    rw [entry]
    split
    · next form hform => exact ⟨hknown, .refl path known, form, hform⟩
    · next hnew =>
      split
      · -- the name is on the way down to itself
        next hin => exact hpath name hin
      · next hout =>
        split
        · next hlookup =>
          obtain ⟨d, hd, rfl⟩ := List.mem_map.1 hname
          exact absurd (Definitions.mem_names ((htable d).2 hd))
            (Definitions.not_mem_names_of_lookup hlookup)
        · next definition hlookup =>
          have hless := Table.length_ahead_cons hout hlookup
          have hdefinition : (name, definition) ∈ definitions :=
            (htable _).1 (Definitions.mem_of_lookup hlookup)
          -- below this point the name itself is on the path
          have hpath' : ∀ a ∈ name :: path,
              ReflTransGen definitions.RefersTo a name := by
            intro a ha
            rcases List.mem_cons.1 ha with rfl | ha
            · exact .refl
            · exact (hpath a ha).to_reflTransGen
          refine (expand_ends htable (ih _ (hlen ▸ hless) _ rfl)
            hdefinition hpath' rfl hknown .start).bind ?_
          intro found _ hfound
          obtain ⟨known', form⟩ := found
          obtain ⟨hknown', hgrows, hform⟩ := hfound
          have hnone := hgrows.fresh name List.mem_cons_self hnew
          exact ⟨.cons hknown' hnone hdefinition hform,
            hgrows.cons hout hnew, form,
            Catalog.Entries.lookup_self name form known'⟩

/-- Expanding a whole table ends with settled entries for every derived
unit, or with a fault of the table. -/
theorem entries_ends (table : Table α)
    (htable : table.definitions.Perm definitions) :
    Ends
      (fun known => Settled definitions table.base known
        ∧ known.Covers definitions)
      (Explains definitions table.base) (entries table) := by
  have hentry := entry_ends (fun d => htable.mem_iff) []
  have hfold : Ends
      (fun known => Settled definitions table.base known
        ∧ known.Covers table.definitions)
      (Explains definitions table.base) (entries table) := by
    unfold entries
    refine Ends.foldlM
      (fun (done : Definitions α) known =>
        Settled definitions table.base known ∧ known.Covers done)
      ⟨.nil, fun d hd => nomatch hd⟩ ?_
    intro done next known hnext hinv
    obtain ⟨hknown, hdone⟩ := hinv
    have hmem : next ∈ table.definitions := hnext.subset (by simp)
    have hname := Definitions.mem_names (htable.mem_iff.1 hmem)
    have hends := hentry known next.1 hknown hname fun a ha => nomatch ha
    refine hends.mono ?_
    intro known' hfound
    obtain ⟨hknown', hgrows, form, hform⟩ := hfound
    refine ⟨hknown', fun d hd => ?_⟩
    rcases List.mem_append.1 hd with hd | hd
    · obtain ⟨inner, hinner⟩ := hdone d hd
      exact ⟨inner, hgrows.keeps _ _ hinner⟩
    · rw [List.mem_singleton.1 hd]
      exact ⟨form, hform⟩
  refine hfold.mono ?_
  intro known hfound
  obtain ⟨hknown, hall⟩ := hfound
  exact ⟨hknown, fun d hd => hall d (htable.mem_iff.2 hd)⟩

end

end UnitAlgebra
