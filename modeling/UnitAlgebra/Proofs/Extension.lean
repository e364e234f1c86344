/-
One more standalone unit. Registering it is conservative: whatever was
read before is read as the same measure, if the new name was no token
before (`extension_conservative`). Three things could have changed, and
none does.

- A token keeps its reading (`Symbols.preserves_of_new`). The new name
  comes before all prefixed spellings, but a token that was recognised
  has other letters than the new name.
- A text stays with its grammar, or at least with its terms: what the
  fraction grammar alone used to read may now be in the dotted one, but
  the two never disagree (`Registry.terms?_grammars`).
- An old unit keeps its entry. The entries of the larger table obey the
  smaller one, and that has one meaning only (`Built.lookup_eq`).

The three are put together from the inside: terms are the same, then
what they reduce to (`Catalog.reduce_congr`), then the measure
(`UnitSystem.read_eq_ok_of_terms`). The second is the one that is not
expected. A larger table may take a text away from the grammar that used
to read it, so that not even the reader is the same, and it takes the
agreement of the grammars to see that the answer is.

Nothing is said of texts that were not read before. They may be read
now, and they need not hold the new name as a word of their own.
-/
import UnitAlgebra.Proofs.Grammars

namespace UnitAlgebra

-- ================================================================ symbols

namespace Symbols

variable {table table' : Symbols}

/-- Whatever the first table recognises, the second one recognises as
the same. -/
def Preserves (table table' : Symbols) : Prop :=
  ∀ coefficient token t, table.term? coefficient token = some t →
    table'.term? coefficient token = some t

/-- One more name that takes no prefix changes no other reading, unless
it could be read before. -/
theorem preserves_of_new
    (hwords : ∀ symbol ∈ table.names, Text.IsWord symbol.toList)
    (hwords' : ∀ symbol ∈ table'.names, Text.IsWord symbol.toList)
    (hprefixable : table'.prefixable = table.prefixable) {name : String}
    (hnames : ∀ symbol, symbol ≠ name →
      (symbol ∈ table'.names ↔ symbol ∈ table.names))
    (hnew : table.term? .one name.toList = none) :
    table.Preserves table' := by
  intro coefficient token t h
  obtain ⟨letters, tail, rfl, hletters, htail⟩ :=
    exists_letters_of_term? hwords h
  rw [term?_append hwords coefficient hletters htail] at h
  obtain ⟨spelling, hspelling, -⟩ := Option.bind_eq_some_iff.1 h
  have hother : String.ofList letters ≠ name := by
    intro hsame
    rw [← hsame, String.toList_ofList, ← List.append_nil letters,
      term?_append hwords .one hletters rfl, hspelling] at hnew
    cases hnew
  have hspelled : table'.spelled? letters = table.spelled? letters := by
    rw [spelled?_eq, spelled?_eq, prefixed, prefixed, hprefixable]
    simp only [hnames _ hother]
  rw [term?_append hwords' coefficient hletters htail, hspelled]
  exact h

variable (h : table.Preserves table')

include h

/-- A row of words is cut in the same way with both tables, so its terms
stay word by word. -/
theorem Preserves.dotted {text : List Char} {terms : List Term}
    (hterms : Dotted.terms? table text = some terms) :
    Dotted.terms? table' text = some terms := by
  unfold Dotted.terms? at hterms ⊢
  rw [mapM_eq_some_iff] at hterms ⊢
  refine hterms.imp fun piece t ht => ?_
  unfold Dotted.term? at ht ⊢
  cases hdrop : piece.dropWhile (· ≠ ' ') with
  | nil =>
    rw [hdrop] at ht
    exact h _ _ _ ht
  | cons c token =>
    rw [hdrop] at ht
    dsimp only at ht ⊢
    split at ht
    · cases ht
    · next hspace =>
      obtain ⟨coefficient, hcoefficient, ht⟩ :=
        Option.bind_eq_some_iff.1 ht
      rw [if_neg hspace, hcoefficient]
      exact h _ _ _ ht

/-- A row of tokens stays a row, and every word of it keeps its term
below a slash as above. -/
theorem Preserves.fraction {text : List Char} {terms : List Term}
    (hterms : Fraction.terms? table text = some terms) :
    Fraction.terms? table' text = some terms := by
  obtain ⟨tokens, items, hlexes, hspells⟩ :=
    Fraction.terms?_eq_some_iff.1 hterms
  refine Fraction.terms?_eq_some_iff.2
    ⟨tokens, items, hlexes, hspells.tokens, hspells.terms.imp ?_⟩
  intro place t hplace
  obtain ⟨read, hread, hdenotes⟩ := hplace
  exact ⟨read, h _ _ _ hread, hdenotes⟩

end Symbols

namespace Registry

variable {r r' : Registry}

/-- Where tokens keep their reading, texts keep their terms. -/
theorem terms?_grammars (hpermissive : r'.permissive = r.permissive)
    (h : r.table.Preserves r'.table)
    (hwords : ∀ symbol ∈ r'.table.names, Text.IsWord symbol.toList)
    {text : List Char} {terms : List Term}
    (hterms : r.grammars.terms? text = some terms) :
    r'.grammars.terms? text = some terms := by
  unfold grammars at hterms ⊢
  rw [hpermissive]
  split
  · next hboth =>
    rw [if_pos hboth, Reader.terms?_choice, Option.or_eq_some_iff]
      at hterms
    rw [Reader.terms?_choice, Reader.terms?, Reader.terms?]
    rcases hterms with hdotted | ⟨-, hfraction⟩
    · rw [Reader.terms?] at hdotted
      rw [h.dotted hdotted]
      rfl
    · rw [Reader.terms?] at hfraction
      have hfraction' := h.fraction hfraction
      cases hdotted : Dotted.terms? r'.table text with
      | none => exact hfraction'
      | some found =>
        -- the text is in the dotted grammar now
        rw [terms_eq_of_both hwords hdotted hfraction']
        rfl
  · next hstrict =>
    rw [if_neg hstrict] at hterms
    exact h.dotted hterms

end Registry

-- =============================================================== catalogs

section

variable {α : Type} [Scalar α] {definitions definitions' : Definitions α}
  {base : List String}

/-- What obeys a table obeys each part of it. -/
theorem Valuation.Obeys.mono {v : Valuation α}
    (hv : v.Obeys definitions' base)
    (hsub : ∀ d ∈ definitions, d ∈ definitions') :
    v.Obeys definitions base where
  base_unit := hv.base_unit
  exponent d hd := hv.exponent d (hsub d hd)
  factor d hd := hv.factor d (hsub d hd)

/-- More definitions leave the entries of the others alone. -/
theorem Built.lookup_eq {c c' : Catalog α} (h : Built definitions base c)
    (h' : Built definitions' base c')
    (hsub : ∀ d ∈ definitions, d ∈ definitions') {name : String}
    (hname : name ∈ definitions.names) :
    c'.entries.lookup name = c.entries.lookup name := by
  obtain ⟨d, hd, rfl⟩ := List.mem_map.1 hname
  obtain ⟨form, hform⟩ := h.covers d hd
  obtain ⟨form', hform'⟩ := h'.covers d (hsub d hd)
  rw [hform, hform', h.settled.form_eq h'.settled (h'.obeys.mono hsub)
    h'.obeys hform hform']

/-- Two catalogs that know the symbols of a product alike reduce it to
the same form. -/
theorem Catalog.reduce_congr {c c' : Catalog α} {terms : List (Term α)}
    (hbase : ∀ t ∈ terms, t.symbol ∈ c'.base ↔ t.symbol ∈ c.base)
    (hentries : ∀ t ∈ terms, t.symbol ∉ c.base →
      c'.entries.lookup t.symbol = c.entries.lookup t.symbol) :
    c'.reduce terms = c.reduce terms := by
  refine foldlM_congr (fun t ht form => ?_) _
  unfold Catalog.reduceTerm
  by_cases hin : t.symbol ∈ c.base
  · simp only [if_pos hin, if_pos ((hbase t ht).2 hin)]
  · simp only [if_neg hin, if_neg (mt (hbase t ht).1 hin),
      hentries t ht hin]

end

-- ================================================================ systems

/-- A system that finds the same terms and reduces them to the same form
reads the same measure. -/
theorem UnitSystem.read_eq_ok_of_terms {x y : UnitSystem} {text : String}
    {m : Measure} (h : x.read text = .ok m)
    (hterms : ∀ terms, x.reader.terms? text.toList = some terms →
      y.reader.terms? text.toList = some terms
        ∧ y.catalog.reduce terms = x.catalog.reduce terms) :
    y.read text = .ok m := by
  unfold UnitSystem.read at h ⊢
  split
  · next hempty =>
    rw [if_pos hempty] at h
    exact h
  · next hne =>
    rw [if_neg hne] at h
    cases hnumber : plainNumber? text with
    | some number =>
      rw [hnumber] at h
      exact h
    | none =>
      rw [hnumber] at h
      obtain ⟨terms, hread, h⟩ := bind_eq_ok_iff.1 h
      obtain ⟨hfound, hreduce⟩ :=
        hterms terms (Reader.read_eq_ok_iff.1 hread)
      refine bind_eq_ok_iff.2 ⟨terms, Reader.read_eq_ok_iff.2 hfound, ?_⟩
      unfold Catalog.measure at h ⊢
      rw [hreduce]
      exact h

namespace Registry

variable {r : Registry} {name : String} {definition : Definition}

/-- Registering a unit adds its name to the symbols. -/
theorem mem_symbols_register {symbol : String} :
    symbol ∈ (r.register (.standalone name definition)).symbols ↔
      symbol ∈ r.symbols ∨ symbol = name := by
  simp [symbols, prefixable, register, or_assoc]

/-- What a registry of letters gains by one more name of letters that
was no token changes no other token. -/
theorem preserves_register
    (hletters : ∀ symbol ∈ r.symbols, ∀ c ∈ symbol.toList,
      Text.isAlphabetic c = true)
    (hname : ∀ c ∈ name.toList, Text.isAlphabetic c = true)
    (hnew : r.table.term? .one name.toList = none) :
    (∀ symbol ∈ (r.register (.standalone name definition)).table.names,
        Text.IsWord symbol.toList)
      ∧ r.table.Preserves
          (r.register (.standalone name definition)).table := by
  have hletters' : ∀ symbol ∈
      (r.register (.standalone name definition)).symbols,
      ∀ c ∈ symbol.toList, Text.isAlphabetic c = true := by
    intro symbol hsymbol
    rcases mem_symbols_register.1 hsymbol with hsymbol | rfl
    · exact hletters symbol hsymbol
    · exact hname
  have hwords' := Symbols.isWord_of_mem_names hletters'
  refine ⟨hwords', Symbols.preserves_of_new
    (Symbols.isWord_of_mem_names hletters) hwords' rfl ?_ hnew⟩
  intro symbol hother
  rw [mem_names_table, mem_names_table, mem_symbols_register,
    or_iff_left hother]

end Registry

/-- Registering one more standalone unit is conservative. Where all names
are of letters and the new one was no token, neither a symbol nor a
prefixed one, every text that was read is read as the same measure,
whatever either system has read before. -/
theorem extension_conservative {r : Registry} {name : String}
    {definition : Definition} {x y : UnitSystem}
    (hletters : ∀ symbol ∈ r.symbols, ∀ c ∈ symbol.toList,
      Text.isAlphabetic c = true)
    (hname : ∀ c ∈ name.toList, Text.isAlphabetic c = true)
    (hnew : r.table.term? .one name.toList = none)
    (hx : r.build = .ok x)
    (hy : (r.register (.standalone name definition)).build = .ok y)
    {memory memory' : Memory} (hmemory : x.Remembers memory)
    (hmemory' : y.Remembers memory') (text : String) (m : Measure)
    (h : ((x.readRemembering text).run.run memory).1 = .ok m) :
    ((y.readRemembering text).run.run memory').1 = .ok m := by
  rw [hmemory.faithful.read_eq] at h
  rw [hmemory'.faithful.read_eq]
  obtain ⟨hcatalog, hreader⟩ := Registry.build_eq_ok_iff.1 hx
  obtain ⟨hcatalog', hreader'⟩ := Registry.build_eq_ok_iff.1 hy
  have hbuilt := Built.of_build hcatalog
  have hbuilt' := Built.of_build hcatalog'
  obtain ⟨hwords', hpreserves⟩ :=
    Registry.preserves_register hletters hname hnew
  refine UnitSystem.read_eq_ok_of_terms h fun terms hterms => ⟨?_, ?_⟩
  · -- the terms are the same
    rw [(Registry.reader_eq_ok_iff.1 hreader).2] at hterms
    rw [(Registry.reader_eq_ok_iff.1 hreader').2]
    have hpermissive :
        (r.register (.standalone name definition)).permissive
          = r.permissive := rfl
    exact Registry.terms?_grammars hpermissive hpreserves hwords' hterms
  · -- and every symbol in them is an old one, with its old entry
    have hsymbols := Registry.symbol_mem_of_terms? hreader hterms
    refine Catalog.reduce_congr (fun t _ => ?_) fun t ht hderived => ?_
    · rw [hbuilt.mem_base, hbuilt'.mem_base]
      rfl
    · have hname := (Registry.mem_symbols.1 (hsymbols t ht)).resolve_left
        (mt (hbuilt.mem_base _).2 hderived)
      refine hbuilt.lookup_eq hbuilt' (fun d hd => ?_) hname
      show d ∈ r.derived ++ (r.standalone ++ [(name, definition)])
      rw [← List.append_assoc]
      exact List.mem_append_left _ hd

/-- An acre is a power of metres. -/
def acre : Definition := .product [.power "m" 2]

/-- An acre beside the metre has no fault. -/
theorem exists_build_acre :
    ∃ y, (Registry.metres.register (.standalone "acre" acre)).build
      = .ok y := by
  have hpower : (Scalar.pow (SIPrefix.factor .plain : Scientific)
      2).toOption.isSome = true := by
    decide +kernel
  obtain ⟨power, hpower⟩ := Option.isSome_iff_exists.1 hpower
  have hpower := eq_ok_of_toOption hpower
  have hcatalog : ∃ c, Catalog.build [("acre", acre)] ["m"] = .ok c := by
    simp only [Catalog.build, List.mergeSort_singleton, Expansion.entries]
    simp +decide [acre, Definition.product, Target.power, Catalog.check,
      Expansion.entry, Expansion.expand, Dimension.add?,
      Dimension.consNonzero, hpower, List.lookup_cons, bind, Except.bind,
      pure, Except.pure]
  obtain ⟨c, hc⟩ := hcatalog
  refine ⟨⟨_, c⟩, Registry.build_eq_ok_iff.2
    ⟨hc, Registry.reader_eq_ok_iff.2 ⟨?_, rfl⟩⟩⟩
  exact ⟨"m", by decide, by decide⟩

/-- Two metres are two metres after acres are registered. -/
theorem extension_conservative_acre :
    ∃ y m, (Registry.metres.register (.standalone "acre" acre)).build
        = .ok y
      ∧ UnitSystem.read ⟨.dotted ⟨["m"], []⟩, ⟨["m"], []⟩⟩ "2 m" = .ok m
      ∧ ((y.readRemembering "2 m").run.run .empty).1 = .ok m := by
  obtain ⟨y, hy⟩ := exists_build_acre
  have hread : (UnitSystem.read ⟨.dotted ⟨["m"], []⟩, ⟨["m"], []⟩⟩
      "2 m").toOption.isSome = true := by
    decide +kernel
  obtain ⟨m, hm⟩ := Option.isSome_iff_exists.1 hread
  replace hm := eq_ok_of_toOption hm
  have hnew : Registry.metres.table.term? .one "acre".toList = none := by
    refine Option.eq_none_iff_forall_ne_some.2 fun t ht => ?_
    have hsymbol := Symbols.symbol_mem_names ht
    rw [Registry.table_metres] at hsymbol
    have hsubset := Symbols.symbol_subset_of_term? ht
    rw [List.mem_singleton.1 hsymbol] at hsubset
    exact absurd hsubset (by decide)
  refine ⟨y, m, hy, hm, ?_⟩
  have hname : "acre".toList.all Text.isAlphabetic = true := by decide
  refine extension_conservative Registry.isAlphabetic_metres
    (List.all_eq_true.1 hname) hnew Registry.build_metres hy .empty .empty
    "2 m" m ?_
  rw [UnitSystem.faithful_empty.read_eq]
  exact hm

end UnitAlgebra
