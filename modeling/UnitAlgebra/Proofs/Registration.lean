/-
The order of registration. A registry collects lists, but what is built
from it depends only on which base units and which definitions there
are (`Registry.Reorders.build_eq_ok`): the very same system comes out,
so whatever it is asked afterwards is answered alike.

# Where order is left behind

Lists leave their order behind at three places:

- symbols are sorted, each once, before a reader sees them. The order of
  spellings is total and antisymmetric (`Text.longerFirst_antisymm`), so
  sorting leaves nothing open (`Text.longestFirst_congr`);
- definitions are checked for faults that no order hides, so a list of
  them passes however it is shuffled (`Checked.congr`). Which fault is
  reported does depend on the order, and nothing is said about it;
- the walk that expands definitions follows the order of their names
  (`Checked.sorted_eq`), asking of the base units only whether a name is
  one (`expand_congr_base`).

Units may also be registered one by one. That appends to the three lists
(`Registry.foldl_register`), so any order of single registrations is a
reordering of the whole (`Registry.reorders_foldl_register`), and a
table of units that comes out of a file is such a row of registrations.
-/
import UnitAlgebra.Proofs.Doubles
import UnitAlgebra.Proofs.Registered
import UnitAlgebra.UnitTable

namespace UnitAlgebra

-- ================================================= what sorting forgets

/-- Sorting forgets the order. -/
theorem mergeSort_congr {β : Type} {le : β → β → Bool}
    (htrans : ∀ a b c, le a b → le b c → le a c)
    (htotal : ∀ a b, le a b || le b a) {l l' : List β}
    (hanti : ∀ a ∈ l, ∀ b ∈ l, le a b → le b a → a = b)
    (h : l.Perm l') : l.mergeSort le = l'.mergeSort le := by
  have hperm : (l.mergeSort le).Perm (l'.mergeSort le) :=
    (l.mergeSort_perm le).trans (h.trans (l'.mergeSort_perm le).symm)
  refine List.Perm.eq_of_pairwise ?_ (l.pairwise_mergeSort htrans htotal)
    (l'.pairwise_mergeSort htrans htotal) hperm
  intro a b ha hb
  exact hanti a (List.mem_mergeSort.1 ha) b
    (h.mem_iff.2 (List.mem_mergeSort.1 hb))

/-- Repetitions can be left out, whatever the list. -/
theorem nodup_eraseDups {β : Type} [BEq β] [LawfulBEq β] (l : List β) :
    l.eraseDups.Nodup := by
  induction hlen : l.length using Nat.strong_induction_on
    generalizing l with
  | _ n ih =>
    cases l with
    | nil => exact List.nodup_nil
    | cons a l =>
      rw [List.eraseDups_cons, List.nodup_cons, List.mem_eraseDups]
      have hless : (l.filter fun b => !b == a).length < n := by
        have := List.length_filter_le (fun b => !b == a) l
        rw [← hlen, List.length_cons]
        omega
      exact ⟨by simp, ih _ hless _ rfl⟩

/-- Two lists with the same members are the same list without
repetitions, up to order. -/
theorem eraseDups_perm {β : Type} [BEq β] [LawfulBEq β] {l l' : List β}
    (h : ∀ a, a ∈ l ↔ a ∈ l') : l.eraseDups.Perm l'.eraseDups :=
  (List.perm_ext_iff_of_nodup (nodup_eraseDups l) (nodup_eraseDups l')).2
    fun a => by rw [List.mem_eraseDups, List.mem_eraseDups, h]

namespace Text

/-- The order of spellings: longer ones first, and names of one length
in their own order. -/
theorem longerFirst_iff {a b : String} :
    longerFirst a b ↔
      b.utf8ByteSize < a.utf8ByteSize
        ∨ a.utf8ByteSize = b.utf8ByteSize ∧ a ≤ b := by
  simp [longerFirst]

theorem longerFirst_trans {a b c : String} (hab : longerFirst a b)
    (hbc : longerFirst b c) : longerFirst a c := by
  rw [longerFirst_iff] at *
  rcases hab with hab | ⟨hab, hle⟩
  · left
    omega
  · rcases hbc with hbc | ⟨hbc, hle'⟩
    · left
      omega
    · exact .inr ⟨hab.trans hbc, String.le_trans hle hle'⟩

theorem longerFirst_total (a b : String) :
    (longerFirst a b || longerFirst b a) = true := by
  rw [Bool.or_eq_true, longerFirst_iff, longerFirst_iff]
  rcases Nat.lt_trichotomy a.utf8ByteSize b.utf8ByteSize with
    hless | hsame | hmore
  · exact .inr (.inl hless)
  · exact (String.le_total a b).imp (fun hle => .inr ⟨hsame, hle⟩)
      fun hle => .inr ⟨hsame.symm, hle⟩
  · exact .inl (.inl hmore)

/-- Two spellings that come before each other are the same, so that
sorting leaves nothing open. -/
theorem longerFirst_antisymm {a b : String} (hab : longerFirst a b)
    (hba : longerFirst b a) : a = b := by
  rw [longerFirst_iff] at hab hba
  rcases hab with hab | ⟨hsame, hab⟩
  · omega
  · rcases hba with hba | ⟨-, hba⟩
    · omega
    · exact String.le_antisymm hab hba

/-- The arrangement of spellings depends on which there are. -/
theorem longestFirst_congr {spellings spellings' : List String}
    (h : ∀ s, s ∈ spellings ↔ s ∈ spellings') :
    longestFirst spellings = longestFirst spellings' := by
  unfold longestFirst
  refine mergeSort_congr ?_ longerFirst_total ?_
    (eraseDups_perm fun s => by simp [h])
  · exact fun a b c => longerFirst_trans
  · exact fun a _ b _ => longerFirst_antisymm

/-- Names in their own order do not show the order they came in. -/
theorem sorted_congr {names names' : List String}
    (h : names.Perm names') : names.mergeSort = names'.mergeSort := by
  refine mergeSort_congr ?_ ?_ ?_ h
  · intro a b c hab hbc
    exact decide_eq_true
      (String.le_trans (of_decide_eq_true hab) (of_decide_eq_true hbc))
  · intro a b
    simp [String.le_total]
  · intro a _ b _ hab hba
    exact String.le_antisymm (of_decide_eq_true hab)
      (of_decide_eq_true hba)

end Text

-- ================================================== catalogs, reordered

section

variable {α : Type} [Scalar α]

open Expansion

/-- The walk asks of base units only whether a name is one. -/
theorem expand_congr_base {definitions : Definitions α}
    {base base' path : List String} (hbase : ∀ b, b ∈ base ↔ b ∈ base')
    (hentry : ∀ known name, entry ⟨base, definitions⟩ path known name
      = entry ⟨base', definitions⟩ path known name)
    (name : String) (targets : List Target) (known : Catalog.Entries α)
    (form : BaseForm α) :
    expand ⟨base, definitions⟩ path known name form targets
      = expand ⟨base', definitions⟩ path known name form targets := by
  induction targets generalizing known form with
  | nil => rw [expand, expand]
  | cons t targets ih =>
    rw [expand, expand]
    simp only [hbase, hentry, ih]

/-- The way down, without the proofs that it ends. -/
theorem entry_eq (table : Table α) (path : List String)
    (known : Catalog.Entries α) (name : String) :
    entry table path known name =
      if (known.lookup name).isSome then .ok known
      else if name ∈ path then .error (.construction (.cycle name))
      else
        match table.definitions.lookup name with
        | none => .error (.construction (.noDefinition name))
        | some definition => (do
          let (known, form) ← expand table (name :: path) known name
            ⟨definition.ratio, []⟩ definition.targets
          .ok ((name, form) :: known)) := by
  fun_cases entry table path known name with
  | case1 form hform =>
    rw [hform]
    rfl
  | case2 hnone hpath => rw [hnone, if_neg nofun, if_pos hpath]
  | case3 hnone hpath hlookup =>
    rw [hnone, if_neg nofun, if_neg hpath, hlookup]
  | case4 hnone hpath definition hlookup =>
    rw [hnone, if_neg nofun, if_neg hpath, hlookup]

/-- An entry is worked out from the definitions and from which names are
base units. -/
theorem entry_congr_base {definitions : Definitions α}
    {base base' : List String} (hbase : ∀ b, b ∈ base ↔ b ∈ base')
    (path : List String) (known : Catalog.Entries α) (name : String) :
    entry ⟨base, definitions⟩ path known name
      = entry ⟨base', definitions⟩ path known name := by
  induction hlen : (Table.ahead ⟨base, definitions⟩ path).length
    using Nat.strong_induction_on generalizing path known name with
  | _ n ih =>
    rw [entry_eq, entry_eq]
    split
    · rfl
    · split
      · rfl
      · next hpath =>
        cases hlookup : definitions.lookup name with
        | none => rfl
        | some definition =>
          have hless : (Table.ahead ⟨base, definitions⟩
                (name :: path)).length
              < (Table.ahead ⟨base, definitions⟩ path).length :=
            Table.length_ahead_cons hpath hlookup
          dsimp only
          rw [expand_congr_base hbase fun known name =>
            ih _ (hlen ▸ hless) _ known name rfl]

theorem entries_congr_base {definitions : Definitions α}
    {base base' : List String} (hbase : ∀ b, b ∈ base ↔ b ∈ base') :
    entries ⟨base, definitions⟩ = entries ⟨base', definitions⟩ := by
  unfold entries
  simp only [entry_congr_base hbase]

/-- Definitions with nothing wrong about any of them alone pass, in
whatever order they come. -/
theorem check_of_checked {base seen : List String}
    {definitions : Definitions α} (h : Checked definitions base)
    (hfresh : ∀ name ∈ definitions.names, name ∉ seen) :
    Catalog.check base seen definitions = .ok () := by
  induction definitions generalizing seen with
  | nil => rfl
  | cons d rest ih =>
    obtain ⟨hhead, htail⟩ := List.nodup_cons.1 h.nodup
    rw [Catalog.check, if_neg (h.derived d List.mem_cons_self),
      if_neg (Bool.eq_false_iff.1 (h.ratio d List.mem_cons_self)),
      if_neg (hfresh d.1 List.mem_cons_self)]
    have hrest : Checked rest base :=
      ⟨htail, fun e he => h.derived e (List.mem_cons_of_mem _ he),
        fun e he => h.ratio e (List.mem_cons_of_mem _ he)⟩
    refine ih hrest fun name hname hin => ?_
    rcases List.mem_cons.1 hin with heq | hin
    · exact hhead (heq ▸ hname)
    · exact hfresh name (List.mem_cons_of_mem _ hname) hin

/-- Nothing that a list of definitions is checked for depends on where
in the list it stands. -/
theorem Checked.congr {definitions definitions' : Definitions α}
    {base base' : List String} (h : Checked definitions base)
    (hdefinitions : definitions.Perm definitions')
    (hbase : ∀ b, b ∈ base ↔ b ∈ base') :
    Checked definitions' base' where
  nodup := (hdefinitions.map Prod.fst).nodup_iff.1 h.nodup
  derived d hd hin :=
    h.derived d (hdefinitions.mem_iff.2 hd) ((hbase d.1).2 hin)
  ratio d hd := h.ratio d (hdefinitions.mem_iff.2 hd)

/-- Definitions of distinct names have one order of the names. -/
theorem Checked.sorted_eq {definitions definitions' : Definitions α}
    {base : List String} (h : Checked definitions base)
    (hdefinitions : definitions.Perm definitions') :
    definitions.mergeSort Catalog.namesInOrder
      = definitions'.mergeSort Catalog.namesInOrder := by
  refine mergeSort_congr ?_ ?_ ?_ hdefinitions
  · intro a b c hab hbc
    exact decide_eq_true
      (String.le_trans (of_decide_eq_true hab) (of_decide_eq_true hbc))
  · intro a b
    simp [Catalog.namesInOrder, String.le_total]
  · intro a ha b hb hab hba
    have hname : a.1 = b.1 :=
      String.le_antisymm (of_decide_eq_true hab) (of_decide_eq_true hba)
    exact List.inj_on_of_nodup_map h.nodup ha hb hname

/-- A catalog is its base units in order and the entries of its
definitions in order. -/
theorem Catalog.build_eq_ok_iff {definitions : Definitions α}
    {base : List String} {c : Catalog α} :
    Catalog.build definitions base = .ok c ↔
      base ≠ [] ∧ Checked definitions base
        ∧ ∃ known, Expansion.entries
              ⟨base, definitions.mergeSort namesInOrder⟩ = .ok known
          ∧ c = ⟨base.eraseDups.mergeSort, known⟩ := by
  constructor
  · intro h
    obtain ⟨hne, hchecked, -, -, -⟩ := Built.of_build h
    have hcheck := check_of_checked hchecked fun _ _ => List.not_mem_nil
    unfold Catalog.build at h
    rw [if_neg (mt List.isEmpty_iff.1 hne), hcheck] at h
    obtain ⟨-, -, h⟩ := bind_eq_ok_iff.1 h
    obtain ⟨known, hknown, h⟩ := bind_eq_ok_iff.1 h
    exact ⟨hne, hchecked, known, hknown, (Except.ok.inj h).symm⟩
  · intro h
    obtain ⟨hne, hchecked, known, hknown, rfl⟩ := h
    have hcheck := check_of_checked hchecked fun _ _ => List.not_mem_nil
    unfold Catalog.build
    rw [if_neg (mt List.isEmpty_iff.1 hne), hcheck]
    refine bind_eq_ok_iff.2 ⟨(), rfl, ?_⟩
    exact bind_eq_ok_iff.2 ⟨known, hknown, rfl⟩

/-- What a table is built to depends on which base units and which
definitions there are. -/
theorem Catalog.build_congr {definitions definitions' : Definitions α}
    {base base' : List String} {c : Catalog α}
    (h : Catalog.build definitions base = .ok c)
    (hdefinitions : definitions.Perm definitions')
    (hbase : ∀ b, b ∈ base ↔ b ∈ base') :
    Catalog.build definitions' base' = .ok c := by
  obtain ⟨hne, hchecked, known, hknown, rfl⟩ := build_eq_ok_iff.1 h
  refine build_eq_ok_iff.2
    ⟨?_, hchecked.congr hdefinitions hbase, known, ?_, ?_⟩
  · obtain ⟨b, hb⟩ := List.exists_mem_of_ne_nil base hne
    exact List.ne_nil_of_mem ((hbase b).1 hb)
  · rw [← hchecked.sorted_eq hdefinitions, ← entries_congr_base hbase]
    exact hknown
  · rw [Text.sorted_congr (eraseDups_perm hbase)]

end

-- ================================================ registries, reordered

/-- With a symbol there is a symbol table. -/
theorem Symbols.ofLists_eq_ok {prefixable standalone : List String}
    {symbol : String} (hmem : symbol ∈ prefixable ++ standalone)
    (hne : symbol ≠ "") :
    ofLists prefixable standalone = .ok ⟨Text.longestFirst prefixable,
      Text.longestFirst standalone⟩ := by
  have hin : symbol ∈ Text.longestFirst prefixable
      ++ Text.longestFirst standalone :=
    Text.mem_longestFirst_append.2 ⟨hmem, hne⟩
  unfold ofLists
  dsimp only
  rw [if_neg]
  intro hempty
  rw [List.isEmpty_iff.1 hempty.1, List.isEmpty_iff.1 hempty.2] at hin
  cases hin

namespace Registry

variable {r : Registry}

/-- The reader of a registry that has one. -/
def grammars (r : Registry) : Reader :=
  if r.permissive then .choice [.dotted r.table, .fraction r.table]
  else .dotted r.table

theorem all_eq_empty_iff {names : List String} :
    names.all (· = "") = true ↔ ¬ ∃ name ∈ names, name ≠ "" := by
  simp

/-- A name to take a prefix is all that a reader needs. -/
theorem reader_eq_ok_iff {reader : Reader} :
    r.reader = .ok reader ↔
      (∃ name ∈ r.prefixable, name ≠ "") ∧ reader = r.grammars := by
  by_cases hnames : ∃ name ∈ r.prefixable, name ≠ ""
  · have hreader : r.reader = .ok r.grammars := by
      obtain ⟨name, hname, hne⟩ := hnames
      unfold Registry.reader Reader.ofDotted Reader.ofFraction grammars
      dsimp only
      rw [if_neg fun h => all_eq_empty_iff.1 h ⟨name, hname, hne⟩,
        Symbols.ofLists_eq_ok
          (List.mem_append_left _ hname) hne]
      cases r.permissive with
      | true => rfl
      | false => rfl
    rw [hreader]
    exact ⟨fun h => ⟨hnames, (Except.ok.inj h).symm⟩,
      fun h => congrArg _ h.2.symm⟩
  · refine ⟨fun h => ?_, fun h => absurd h.1 hnames⟩
    unfold Registry.reader Reader.ofDotted at h
    dsimp only at h
    rw [if_pos (all_eq_empty_iff.2 hnames)] at h
    cases h

/-- A system is its catalog and its reader. -/
theorem build_eq_ok_iff {x : UnitSystem} :
    r.build = .ok x ↔
      Catalog.build (r.derived ++ r.standalone) r.base = .ok x.catalog
        ∧ r.reader = .ok x.reader := by
  refine ⟨eq_of_build, fun h => ?_⟩
  obtain ⟨hcatalog, hreader⟩ := h
  exact bind_eq_ok_iff.2
    ⟨_, hcatalog, bind_eq_ok_iff.2 ⟨_, hreader, rfl⟩⟩

end Registry

/-- The same base units, and the same definitions in another order. -/
structure Registry.Reorders (r s : Registry) : Prop where
  base : ∀ name, name ∈ r.base ↔ name ∈ s.base
  derived : r.derived.Perm s.derived
  standalone : r.standalone.Perm s.standalone
  permissive : r.permissive = s.permissive

/-- Both are built or neither is, and once they are built they give the
same answers, whatever each of them has read before. -/
structure Registry.BuiltAlike (r s : Registry) : Prop where
  exists_iff : (∃ x, r.build = .ok x) ↔ ∃ y, s.build = .ok y
  read : ∀ x y, r.build = .ok x → s.build = .ok y →
    ∀ memory memory', x.Remembers memory → y.Remembers memory' →
      ∀ text, ((x.readRemembering text).run.run memory).1
        = ((y.readRemembering text).run.run memory').1
  reduce : ∀ x y, r.build = .ok x → s.build = .ok y →
    ∀ m, x.reduce m = y.reduce m

namespace Registry

variable {r s : Registry}

theorem Reorders.symm (h : r.Reorders s) : s.Reorders r :=
  ⟨fun name => (h.base name).symm, h.derived.symm, h.standalone.symm,
    h.permissive.symm⟩

/-- The names that take a prefix are the base units and the derived
ones, and neither list shows its order. -/
theorem Reorders.mem_prefixable (h : r.Reorders s) (name : String) :
    name ∈ r.prefixable ↔ name ∈ s.prefixable := by
  unfold prefixable
  rw [List.mem_append, List.mem_append, h.base,
    (h.derived.map Prod.fst).mem_iff]

/-- Reordered registries have the same table of symbols. -/
theorem Reorders.table_eq (h : r.Reorders s) : r.table = s.table := by
  unfold table
  rw [Text.longestFirst_congr h.mem_prefixable,
    Text.longestFirst_congr fun _ => (h.standalone.map Prod.fst).mem_iff]

/-- What is built of either registry is the same system. -/
theorem Reorders.build_eq_ok (h : r.Reorders s) {x : UnitSystem}
    (hx : r.build = .ok x) : s.build = .ok x := by
  obtain ⟨hcatalog, hreader⟩ := build_eq_ok_iff.1 hx
  obtain ⟨⟨name, hname, hne⟩, hgrammars⟩ := reader_eq_ok_iff.1 hreader
  have hcatalog' :=
    Catalog.build_congr hcatalog (h.derived.append h.standalone) h.base
  have hgrammars' : x.reader = s.grammars := by
    rw [hgrammars, grammars, grammars, h.permissive, h.table_eq]
  have hnames : ∃ name ∈ s.prefixable, name ≠ "" :=
    ⟨name, (h.mem_prefixable name).1 hname, hne⟩
  exact build_eq_ok_iff.2
    ⟨hcatalog', reader_eq_ok_iff.2 ⟨hnames, hgrammars'⟩⟩

/-- What one of them is built to, the other is, and so they fail
together as well. -/
theorem Reorders.builtAlike (h : r.Reorders s) : r.BuiltAlike s where
  exists_iff := by
    constructor
    · intro hbuilt
      obtain ⟨x, hx⟩ := hbuilt
      exact ⟨x, h.build_eq_ok hx⟩
    · intro hbuilt
      obtain ⟨y, hy⟩ := hbuilt
      exact ⟨y, h.symm.build_eq_ok hy⟩
  read x y hx hy memory memory' hmemory hmemory' text := by
    obtain rfl := Except.ok.inj ((h.build_eq_ok hx).symm.trans hy)
    rw [hmemory.faithful.read_eq, hmemory'.faithful.read_eq]
  reduce x y hx hy m := by
    obtain rfl := Except.ok.inj ((h.build_eq_ok hx).symm.trans hy)
    rfl

-- ========================================================= unit by unit

def Entry.base? : Entry → Option String
  | .base name => some name
  | _ => none

def Entry.derived? : Entry → Option (String × Definition)
  | .derived name definition => some (name, definition)
  | _ => none

def Entry.standalone? : Entry → Option (String × Definition)
  | .standalone name definition => some (name, definition)
  | _ => none

/-- Registering one by one appends to the three lists. -/
theorem foldl_register (r : Registry) (units : List Entry) :
    units.foldl register r =
      { base := r.base ++ units.filterMap Entry.base?
        derived := r.derived ++ units.filterMap Entry.derived?
        standalone := r.standalone ++ units.filterMap Entry.standalone?
        permissive := r.permissive } := by
  induction units generalizing r with
  | nil => simp
  | cons unit units ih =>
    rw [List.foldl_cons, ih]
    cases unit with
    | base name =>
      simp [register, Entry.base?, Entry.derived?, Entry.standalone?,
        List.filterMap_cons]
    | derived name definition =>
      simp [register, Entry.base?, Entry.derived?, Entry.standalone?,
        List.filterMap_cons]
    | standalone name definition =>
      simp [register, Entry.base?, Entry.derived?, Entry.standalone?,
        List.filterMap_cons]

theorem base_entries (t : Registry) :
    t.entries.filterMap Entry.base? = t.base := by
  simp [entries, List.filterMap_map, Function.comp_def, Entry.base?]

theorem derived_entries (t : Registry) :
    t.entries.filterMap Entry.derived? = t.derived := by
  simp [entries, List.filterMap_map, Function.comp_def, Entry.derived?]

theorem standalone_entries (t : Registry) :
    t.entries.filterMap Entry.standalone? = t.standalone := by
  simp [entries, List.filterMap_map, Function.comp_def, Entry.standalone?]

/-- All at once, or one by one in any order. -/
theorem reorders_foldl_register (r : Registry) {t : Registry}
    (ht : t.permissive = false) {units : List Entry}
    (hunits : units.Perm t.entries) :
    (r.append t).Reorders (units.foldl register r) := by
  rw [foldl_register]
  constructor
  · intro name
    have hperm := hunits.filterMap Entry.base?
    rw [base_entries] at hperm
    show name ∈ r.base ++ t.base ↔ name ∈ r.base ++ _
    rw [List.mem_append, List.mem_append, hperm.mem_iff]
  · have hperm := hunits.filterMap Entry.derived?
    rw [derived_entries] at hperm
    exact hperm.symm.append_left r.derived
  · have hperm := hunits.filterMap Entry.standalone?
    rw [standalone_entries] at hperm
    exact hperm.symm.append_left r.standalone
  · show (r.permissive || t.permissive) = r.permissive
    rw [ht, Bool.or_false]

end Registry

/-- A registry that comes out of a file reads the strict grammar. -/
theorem UnitTable.permissive_registry {table : UnitTable} {t : Registry}
    (h : table.registry = .ok t) : t.permissive = false := by
  unfold registry at h
  cases hderived : table.derivedDefinitions with
  | error fault =>
    rw [hderived] at h
    cases h
  | ok derived =>
    cases hstandalone : table.standaloneDefinitions with
    | error fault =>
      rw [hderived, hstandalone] at h
      cases h
    | ok standalone =>
      rw [hderived, hstandalone] at h
      cases h
      rfl

/-- The order of registration makes no difference. What is built is
decided by the set of base units and by the definitions, in whatever
order they came; so adding a configuration file is adding its units one
by one, in any order. -/
theorem registration_order :
    (∀ r s : Registry, r.Reorders s → r.BuiltAlike s)
      ∧ ∀ (r t : Registry) (table : UnitTable)
          (units : List Registry.Entry),
          table.registry = .ok t → units.Perm t.entries →
            (r.append t).BuiltAlike (units.foldl .register r) := by
  refine ⟨fun r s h => h.builtAlike, ?_⟩
  intro r t table units htable hunits
  have ht := UnitTable.permissive_registry htable
  exact (r.reorders_foldl_register ht hunits).builtAlike

/-- The boxes as a configuration file states them. -/
def boxUnits : UnitTable where
  base := ["m"]
  derived :=
    [("box", ⟨1.0, [⟨"face", none, 1⟩, ⟨"edge", none, 1⟩]⟩),
     ("edge", ⟨1.0, [⟨"m", some "k", 1⟩]⟩),
     ("face", ⟨1.0, [⟨"edge", none, 1⟩, ⟨"edge", none, 1⟩]⟩)]
  standalone := []

/-- What that file registers. -/
def boxes : Registry where
  base := ["m"]
  derived := boxTable

/-- The same boxes backwards, with the metre named twice. -/
def boxesReversed : Registry where
  base := ["m", "m"]
  derived := boxTable.reverse

theorem registry_boxUnits : boxUnits.registry = .ok boxes := by
  have hfinite : Float.isFinite 1.0 = true := by decide
  have hnonzero : ((1.0 : Float) == 0.0) = false := by decide
  have hkilo : SIPrefix.ofSymbol? "k" = some .kilo := by decide
  simp [boxUnits, boxes, boxTable, UnitTable.registry,
    UnitTable.derivedDefinitions, UnitTable.standaloneDefinitions,
    UnitTable.definitions, UnitTable.definition, UnitTable.target, hfinite,
    hnonzero, hkilo, Definition.times, Definition.product,
    Scientific.ofFloat_one, Target.unit, Target.scaled, bind, Except.bind,
    pure, Except.pure]

theorem exists_build_boxes : ∃ x, boxes.build = .ok x := by
  obtain ⟨c, hc⟩ := exists_build_boxTable
  have hreader : boxes.reader = .ok (.dotted boxes.table) :=
    Registry.reader_eq_ok_iff.2 ⟨⟨"m", by decide, by decide⟩, rfl⟩
  exact ⟨⟨_, c⟩, Registry.build_eq_ok_iff.2 ⟨hc, hreader⟩⟩

/-- The same boxes the other way round. -/
theorem reorders_boxesReversed : boxes.Reorders boxesReversed where
  base name := by simp [boxes, boxesReversed]
  derived := (List.reverse_perm boxTable).symm
  standalone := .refl _
  permissive := rfl

/-- Boxes registered backwards, and backwards one by one out of a file,
read every text alike. -/
theorem registration_order_boxes :
    ∃ x y z, boxUnits.registry = .ok boxes
      ∧ boxes.Reorders boxesReversed
      ∧ boxes.build = .ok x ∧ boxesReversed.build = .ok y
      ∧ (boxes.entries.reverse.foldl Registry.register .empty).build
          = .ok z
      ∧ ∀ text, ((x.readRemembering text).run.run .empty).1
            = ((y.readRemembering text).run.run .empty).1
          ∧ ((x.readRemembering text).run.run .empty).1
            = ((z.readRemembering text).run.run .empty).1 := by
  obtain ⟨x, hx⟩ := exists_build_boxes
  obtain ⟨hreorders, hfile⟩ := registration_order
  have hback := hreorders _ _ reorders_boxesReversed
  have hsingly := hfile .empty _ _ _ registry_boxUnits
    (List.reverse_perm _)
  obtain ⟨y, hy⟩ := hback.exists_iff.1 ⟨x, hx⟩
  obtain ⟨z, hz⟩ := hsingly.exists_iff.1 ⟨x, hx⟩
  refine ⟨x, y, z, registry_boxUnits, reorders_boxesReversed, hx, hy, hz,
    fun text => ⟨?_, ?_⟩⟩
  · exact hback.read x y hx hy _ _ .empty .empty text
  · exact hsingly.read x z hx hz _ _ .empty .empty text

end UnitAlgebra
