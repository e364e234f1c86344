/-
Registered units. A registry builds two tables from its three lists:
the symbols that its readers know, and the catalog of what they are
worth.

# Two tables that agree

Whatever symbol a reader finds is registered
(`Registry.symbol_mem_of_terms?`), and whatever is registered the
catalog knows (`Registry.knows_of_mem`). So a text that was read is
refused only for its exponents or for a power of zero
(`Registry.fault_of_read`): no unit is ever unknown.

# A registered name by itself

The other way round, a registered name of letters is read as itself
(`Registry.terms?_eq_of_isWord`): it is no number, no dot cuts it, and a
symbol by itself comes before every prefixed one. It is worth what the
catalog says of it, which is what its definition says
(`Built.gives`, `UnitSystem.read_unit`). This holds also of a name that
could be taken for a prefix and another name.

# Memory

A system may have read other texts before. What it remembers of them is
what it would read (`UnitAlgebra.Proofs.Memory`), so `registered_read`
speaks of a system with whatever memory it may have come to.
-/
import UnitAlgebra.Proofs.DottedRows
import UnitAlgebra.Proofs.FractionRows
import UnitAlgebra.Proofs.Memory
import UnitAlgebra.Proofs.Obtained
import UnitAlgebra.Proofs.PlainNumbers
import UnitAlgebra.Registry

namespace UnitAlgebra

-- ============================================================== tables

/-- Whatever lists a table is made of, it holds them longest first. -/
theorem Symbols.eq_of_ofLists {prefixable standalone : List String}
    {table : Symbols}
    (h : ofLists prefixable standalone = .ok table) :
    table = ⟨Text.longestFirst prefixable,
      Text.longestFirst standalone⟩ := by
  unfold ofLists at h
  simp only at h
  split at h
  · cases h
  · exact (Except.ok.inj h).symm

-- ========================================================== registries

namespace Registry

variable {r : Registry} {system : UnitSystem}

/-- Every registered unit. -/
def symbols (r : Registry) : List String :=
  r.prefixable ++ r.standalone.map Prod.fst

/-- The symbol table of a registry. -/
def table (r : Registry) : Symbols :=
  ⟨Text.longestFirst r.prefixable,
    Text.longestFirst (r.standalone.map Prod.fst)⟩

/-- Every registered name but the empty one is a symbol. -/
theorem mem_names_table {symbol : String} :
    symbol ∈ r.table.names ↔ symbol ∈ r.symbols ∧ symbol ≠ "" := by
  unfold Symbols.names table symbols
  rw [Text.mem_longestFirst_append, List.mem_append, List.mem_append,
    or_comm]

/-- The readers of a registry share its table, and the dotted one comes
first. -/
theorem eq_of_reader {reader : Reader} (h : r.reader = .ok reader) :
    reader = .dotted r.table
      ∨ reader = .choice [.dotted r.table, .fraction r.table] := by
  unfold Registry.reader at h
  obtain ⟨dotted, hdotted, h⟩ := bind_eq_ok_iff.1 h
  unfold Reader.ofDotted at hdotted
  split at hdotted
  · cases hdotted
  · obtain ⟨found, hfound, hdotted⟩ := bind_eq_ok_iff.1 hdotted
    cases hdotted
    rw [Symbols.eq_of_ofLists hfound] at h
    split at h
    · obtain ⟨fraction, hfraction, h⟩ := bind_eq_ok_iff.1 h
      unfold Reader.ofFraction at hfraction
      rw [hfound, Symbols.eq_of_ofLists hfound] at hfraction
      cases hfraction
      cases h
      exact .inr rfl
    · cases h
      exact .inl rfl

/-- Whatever is read is registered. -/
theorem symbol_mem_of_terms? {reader : Reader}
    (hreader : r.reader = .ok reader) {text : List Char}
    {terms : List Term} (h : reader.terms? text = some terms) :
    ∀ t ∈ terms, t.symbol ∈ r.symbols := by
  have hnames : ∀ t ∈ terms, t.symbol ∈ r.table.names := by
    rcases eq_of_reader hreader with rfl | rfl
    · exact Dotted.symbol_mem_names h
    · rw [Reader.terms?, Reader.firstTerms?, Reader.terms?] at h
      split at h
      · next hdotted =>
        cases h
        exact Dotted.symbol_mem_names hdotted
      · rw [Reader.firstTerms?, Reader.terms?] at h
        split at h
        · next hfraction =>
          cases h
          exact Fraction.symbol_mem_names hfraction
        · cases h
  exact fun t ht => (mem_names_table.1 (hnames t ht)).1

/-- A registered name of letters is read as itself. -/
theorem terms?_eq_of_isWord {reader : Reader}
    (hreader : r.reader = .ok reader) {name : String}
    (hname : name ∈ r.symbols) (hword : Text.IsWord name.toList) :
    reader.terms? name.toList = some [⟨.one, .plain, name, 1⟩] := by
  have hne : name ≠ "" := by
    rintro rfl
    exact hword.1 rfl
  have hdotted : Dotted.terms? r.table name.toList = some _ :=
    Dotted.terms?_eq_of_isWord (mem_names_table.2 ⟨hname, hne⟩) hword
  rcases eq_of_reader hreader with rfl | rfl
  · exact hdotted
  · rw [Reader.terms?, Reader.firstTerms?, Reader.terms?, hdotted]

/-- Building a system builds its two tables, from the same three lists.
-/
theorem eq_of_build (h : r.build = .ok system) :
    Catalog.build (r.derived ++ r.standalone) r.base
        = .ok system.catalog
      ∧ r.reader = .ok system.reader := by
  obtain ⟨catalog, hcatalog, h⟩ := bind_eq_ok_iff.1 h
  obtain ⟨reader, hreader, h⟩ := bind_eq_ok_iff.1 h
  cases h
  exact ⟨hcatalog, hreader⟩

/-- The registered units are the base units and the defined ones. -/
theorem mem_symbols {symbol : String} :
    symbol ∈ r.symbols ↔
      symbol ∈ r.base
        ∨ symbol ∈ Definitions.names (r.derived ++ r.standalone) := by
  unfold symbols prefixable Definitions.names
  rw [List.map_append, List.mem_append, List.mem_append, List.mem_append,
    or_assoc]

/-- Whatever is registered is known. -/
theorem knows_of_mem (h : r.build = .ok system) {symbol : String}
    (hsymbol : symbol ∈ r.symbols) :
    system.catalog.knows symbol = true := by
  have hbuilt := Built.of_build (eq_of_build h).1
  refine Catalog.knows_iff.2 ((mem_symbols.1 hsymbol).imp ?_ ?_)
  · exact (hbuilt.mem_base symbol).2
  · exact (hbuilt.exists_lookup_iff symbol).2

end Registry

-- ==================================================== a unit by itself

namespace Catalog

variable {c : Catalog} {name : String}

/-- The total of a unit by itself. -/
theorem total_unit (c : Catalog) (name b : String) :
    c.valuation.total [Term.target ⟨(.one : Scientific), .plain, name, 1⟩]
        b
      = (c.entries.dimension c.base name).exponentOf b := by
  show (1 : Exponent).val * c.valuation.exponent name b + 0 = _
  rw [Exponent.val_one, Int.one_mul, Int.add_zero]
  rfl

/-- First powers can be taken, and the exponents of a unit are in
range. -/
theorem accepts_unit (hknown : c.knows name = true) :
    c.Accepts [] ⟨.one, .plain, name, 1⟩ where
  known := hknown
  powers := by
    refine ⟨⟨_, Scientific.pow_one _⟩, ⟨_, Scientific.pow_one _⟩, ?_⟩
    exact fun _ inner _ => ⟨_, Scientific.pow_one _⟩
  fits b _ := by
    have hrange := Dimension.inRange_exponentOf b
      (c.entries.dimension c.base name)
    constructor
    · show Exponent.InRange
        ((1 : Exponent).val * c.valuation.exponent name b)
      rw [Exponent.val_one, Int.one_mul]
      exact hrange
    · exact (c.total_unit name b).symm ▸ hrange

/-- A known unit by itself is reduced to its own dimension. -/
theorem exists_reduce_unit (hentries : c.entries.WellFormed c.base)
    (hknown : c.knows name = true) :
    ∃ form, c.reduce [⟨.one, .plain, name, 1⟩] = .ok form
      ∧ form.dimension = c.entries.dimension c.base name := by
  have hends := reduce_ends hentries [⟨.one, .plain, name, 1⟩]
  cases hreduce : c.reduce [⟨.one, .plain, name, 1⟩] with
  | error fault =>
    obtain ⟨before, t, hprefix, -, hrejected, -⟩ := hends.of_error hreduce
    obtain ⟨rfl, hsame⟩ : before = [] ∧ t = ⟨.one, .plain, name, 1⟩ := by
      have hprefix : before ++ [t] <+: [] ++ [⟨.one, .plain, name, 1⟩] :=
        hprefix
      rcases List.prefix_concat_iff.1 hprefix with heq | hnil
      · obtain ⟨hbefore, hlast⟩ := List.append_inj' heq rfl
        exact ⟨hbefore, List.singleton_inj.1 hlast⟩
      · simp at hnil
    exact absurd (hsame ▸ accepts_unit hknown) hrejected
  | ok form =>
    have hreduced := hends.of_ok hreduce
    refine ⟨form, rfl, hreduced.canonicalOver.eq_of_exponentOf
      (hentries.canonicalOver name) fun b hb => ?_⟩
    rw [hreduced.exponentOf b hb]
    exact c.total_unit name b

end Catalog

/-- The dimension that definitions give to a unit: a base unit's own,
and otherwise the total over the targets of the unit's definition, by
whatever obeys the definitions. -/
structure Definitions.Gives (definitions : Definitions)
    (base : List String) (name : String) (d : Dimension) : Prop where
  canonicalOver : d.CanonicalOver base
  base_unit : name ∈ base → d = [⟨name, 1⟩]
  derived : ∀ definition, (name, definition) ∈ definitions →
    ∀ v : Valuation Scientific, v.Obeys definitions base →
      ∀ b ∈ base, d.exponentOf b = v.total definition.targets b

/-- The dimensions of a catalog are those of its definitions. -/
theorem Built.gives {definitions : Definitions} {base : List String}
    {c : Catalog} (h : Built definitions base c) (name : String) :
    definitions.Gives base name (c.entries.dimension c.base name) where
  canonicalOver := by
    obtain ⟨hcanonical, hbase⟩ := h.wellFormed.canonicalOver name
    exact ⟨hcanonical, fun p hp => (h.mem_base _).1 (hbase p hp)⟩
  base_unit hname :=
    Catalog.Entries.dimension_of_base ((h.mem_base name).2 hname)
  derived definition hmem v hv b hb := by
    obtain ⟨form, hform⟩ := h.covers _ hmem
    have hname : name ∉ c.base := fun hin =>
      h.checked.derived _ hmem ((h.mem_base name).1 hin)
    rw [Catalog.Entries.dimension_of_entry hname hform,
      ← (h.settled.eq_of_obeys hv name form hform).2 b hb]
    exact hv.exponent _ hmem b hb

/-- A unit by itself, read as a term, is a measure with the dimension
of the unit. -/
theorem UnitSystem.read_unit {system : UnitSystem}
    (hentries : system.catalog.entries.WellFormed system.catalog.base)
    {name : String} (hknown : system.catalog.knows name = true)
    (hword : Text.IsWord name.toList)
    (hterms : system.reader.terms? name.toList
      = some [⟨.one, .plain, name, 1⟩]) :
    ∃ m, system.read name = .ok m ∧ m.factor = 1
      ∧ m.terms = [⟨.one, .plain, name, 1⟩]
      ∧ m.dimension? = some
          (system.catalog.entries.dimension system.catalog.base name) := by
  obtain ⟨hne, hletters⟩ := hword
  obtain ⟨c, rest, hcons⟩ := List.exists_cons_of_ne_nil hne
  have hnumber : plainNumber? name = none :=
    plainNumber?_of_letter hcons
      (hletters c (hcons ▸ List.mem_cons_self))
  have hempty : name ≠ "" := by
    rintro rfl
    exact hne rfl
  obtain ⟨form, hform, hdimension⟩ :=
    Catalog.exists_reduce_unit hentries hknown
  have hcanonical : form.dimension.Canonical :=
    hdimension ▸ (hentries.canonicalOver name).1
  refine ⟨⟨1, [⟨.one, .plain, name, 1⟩],
    some ⟨form.factor, Dimension.arrange form.dimension⟩⟩, ?_, rfl, rfl,
    ?_⟩
  · unfold UnitSystem.read
    rw [if_neg hempty, hnumber]
    refine bind_eq_ok_iff.2 ⟨_, Reader.read_eq_ok_iff.2 hterms, ?_⟩
    refine bind_eq_ok_iff.2 ⟨form, hform, ?_⟩
    exact Measure.ofForms_eq_ok_iff.2 ⟨hcanonical.nodup, rfl⟩
  · show some (Dimension.arrange form.dimension) = _
    rw [Dimension.arrange_eq_self hcanonical, hdimension]

-- ============================================================= reading

/-- Reading ends at a registered unit that was found behind the terms
`before`: a power of zero has to be taken there, or an exponent leaves
the range, and then the fault names the unit. -/
def Registry.Refuses (r : Registry) (c : Catalog) (terms : List Term)
    (fault : Fault) : Prop :=
  ∃ before t, before ++ [t] <+: terms ∧ t.symbol ∈ r.symbols
    ∧ ((fault = .divisionByZero ∧ ¬ c.PowersExist t)
      ∨ (fault = .irreducible t.symbol
          ∧ ¬ c.valuation.Fits r.base (before.map Term.target) t.target))

/-- A text that is not read is outside the grammar, or it is refused at
a registered unit; no unit is unknown. -/
theorem Registry.fault_of_read {r : Registry} {system : UnitSystem}
    (h : r.build = .ok system) {text : String} {fault : Fault}
    (hfault : system.read text = .error fault) :
    fault = .unreadable text
      ∨ ∃ terms, system.reader.read text = .ok terms
          ∧ r.Refuses system.catalog terms fault := by
  obtain ⟨hcatalog, hreader⟩ := eq_of_build h
  have hbuilt := Built.of_build hcatalog
  rw [UnitSystem.read_eq_readWith] at hfault
  rcases Catalog.fault_of_readWith hcatalog hfault with
    hfault | ⟨terms, hterms, hfault⟩
  · exact .inl (Reader.read_eq_error_iff.1 hfault).1
  · obtain ⟨before, t, hprefix, -, hrejected, hblames⟩ :=
      (Catalog.reduce_ends hbuilt.wellFormed terms).of_error hfault
    have hmem : t ∈ terms :=
      hprefix.subset (List.mem_append_right _ List.mem_cons_self)
    have hsymbol : t.symbol ∈ r.symbols :=
      symbol_mem_of_terms? hreader (Reader.read_eq_ok_iff.1 hterms) t hmem
    refine .inr ⟨terms, hterms, before, t, hprefix, hsymbol, ?_⟩
    rcases hblames with ⟨hpowers, rfl⟩ | ⟨hpowers, rfl⟩
    · exact .inl ⟨rfl, hpowers⟩
    · refine .inr ⟨rfl, fun hfits => hrejected ?_⟩
      exact ⟨knows_of_mem h hsymbol, hpowers,
        fun b hb => hfits b ((hbuilt.mem_base b).1 hb)⟩

/-- Two tables that agree. A text that is read holds registered units
only, so nothing but a power of zero and an exponent out of range stands
between a text in the grammar and its measure. The other way round, a
registered name of letters is read as itself and has the dimension that
the definitions give it, whatever else is registered. What was read
before makes no difference to either. -/
theorem registered_read {r : Registry} {system : UnitSystem}
    (h : r.build = .ok system) {memory : Memory}
    (hmemory : system.Remembers memory) :
    (∀ text fault,
        ((system.readRemembering text).run.run memory).1
            = .error fault →
          fault = .unreadable text
            ∨ ∃ terms, system.reader.read text = .ok terms
                ∧ r.Refuses system.catalog terms fault)
      ∧ system.catalog.valuation.Obeys (r.derived ++ r.standalone)
          r.base
      ∧ ∀ name ∈ r.symbols, Text.IsWord name.toList →
          ∃ m d, ((system.readRemembering name).run.run memory).1
                = .ok m
            ∧ m.factor = 1 ∧ m.terms = [⟨.one, .plain, name, 1⟩]
            ∧ m.dimension? = some d
            ∧ (r.derived ++ r.standalone).Gives r.base name d := by
  obtain ⟨hcatalog, hreader⟩ := Registry.eq_of_build h
  have hbuilt := Built.of_build hcatalog
  have hread := hmemory.faithful.read_eq
  refine ⟨fun text fault hfault => ?_, hbuilt.obeys,
    fun name hname hword => ?_⟩
  · rw [hread] at hfault
    exact Registry.fault_of_read h hfault
  · rw [hread]
    obtain ⟨m, hm, hfactor, hterms, hdimension⟩ := UnitSystem.read_unit
      hbuilt.wellFormed (Registry.knows_of_mem h hname) hword
        (Registry.terms?_eq_of_isWord hreader hname hword)
    exact ⟨m, _, hm, hfactor, hterms, hdimension, hbuilt.gives name⟩

/-- Metres, and a unit without prefixes that is called as a kilometre
is written but is worth a square metre. -/
def Registry.shadowing : Registry where
  base := ["m"]
  standalone := [("km", .product [.power "m" 2])]
  permissive := true

/-- A registered unit that is spelled like a prefix and another unit has
no fault. -/
theorem Registry.exists_build_shadowing :
    ∃ system, shadowing.build = .ok system := by
  have hpower : (Scalar.pow (SIPrefix.factor .plain : Scientific)
      2).toOption.isSome = true := by
    decide +kernel
  obtain ⟨power, hpower⟩ := Option.isSome_iff_exists.1 hpower
  have hpower := eq_ok_of_toOption hpower
  have hcatalog : ∃ c, Catalog.build
      (shadowing.derived ++ shadowing.standalone) shadowing.base
        = .ok c := by
    simp only [Catalog.build, shadowing, List.nil_append,
      List.mergeSort_singleton, Expansion.entries]
    simp +decide [Definition.product, Target.power, Catalog.check,
      Expansion.entry, Expansion.expand, Dimension.add?,
      Dimension.consNonzero, hpower, List.lookup_cons, bind, Except.bind,
      pure, Except.pure]
  have hreader : shadowing.reader.toOption.isSome = true := by
    decide +kernel
  obtain ⟨c, hc⟩ := hcatalog
  obtain ⟨reader, hreader⟩ := Option.isSome_iff_exists.1 hreader
  exact ⟨⟨reader, c⟩, bind_eq_ok_iff.2 ⟨c, hc, bind_eq_ok_iff.2
    ⟨reader, eq_ok_of_toOption hreader, rfl⟩⟩⟩

/-- The registered unit is read, and no kilometre; and a text that is
read before makes no difference. -/
theorem registered_read_shadowing :
    ∃ system m d, Registry.shadowing.build = .ok system
      ∧ system.Remembers
          ((system.readRemembering "m").run.run .empty).2
      ∧ "km" ∈ Registry.shadowing.symbols
      ∧ Text.IsWord "km".toList
      ∧ ((system.readRemembering "km").run.run
          ((system.readRemembering "m").run.run .empty).2).1 = .ok m
      ∧ m.terms = [⟨.one, .plain, "km", 1⟩]
      ∧ m.dimension? = some d ∧ d.exponentOf "m" = 2 := by
  obtain ⟨system, h⟩ := Registry.exists_build_shadowing
  have hmemory : system.Remembers
      ((system.readRemembering "m").run.run .empty).2 := .read .empty "m"
  have hmem : "km" ∈ Registry.shadowing.symbols := by decide
  have hword : Text.IsWord "km".toList := by decide
  obtain ⟨-, hobeys, hread⟩ := registered_read h hmemory
  obtain ⟨m, d, hm, -, hterms, hdimension, hgives⟩ :=
    hread "km" hmem hword
  refine ⟨system, m, d, h, hmemory, hmem, hword, hm, hterms, hdimension,
    ?_⟩
  rw [hgives.derived (.product [.power "m" 2]) List.mem_cons_self
    _ hobeys "m" List.mem_cons_self]
  show 2 * system.catalog.valuation.exponent "m" "m" + 0 = 2
  rw [hobeys.base_unit "m" List.mem_cons_self "m" List.mem_cons_self]
  rfl

end UnitAlgebra
