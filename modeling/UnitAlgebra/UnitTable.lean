/-
Unit tables: definitions as a configuration file states them. A table
lists base units, derived units and standalone units; a ratio that is
not given is one, and so is an exponent.

Reading a table checks its shape only. Whether ratios are usable and
prefixes are known is checked when the definitions are asked for, unit
by unit in the order of their names, the ratio before the targets.
-/
import UnitAlgebra.Registry
import UnitAlgebra.Toml.Document

namespace UnitAlgebra

-- ================================================================ tables

/-- A target as a table states it. -/
structure TargetEntry where
  name : String
  /-- The symbol of a prefix; an empty one is no prefix either. -/
  scale : Option String
  exponent : Exponent
deriving DecidableEq

/-- A definition as a table states it. -/
structure UnitEntry where
  ratio : Float
  targets : List TargetEntry

/-- The contents of a configuration file. -/
structure UnitTable where
  base : List String
  /-- Units that take a prefix, by name. -/
  derived : List (String × UnitEntry)
  /-- Units that take none, by name. -/
  standalone : List (String × UnitEntry)

/-- What is wrong with a unit table. -/
inductive TableFault where
  /-- There is no file of that name. -/
  | missing (path : String)
  /-- Not TOML, or not of the shape of a unit table. -/
  | malformed
  /-- A ratio that is zero, infinite or NaN. -/
  | unusableRatio (unit : String) (ratio : Float)
  | unknownPrefix (unit symbol : String)

/-- The message of a fault. What is malformed is not described. -/
def TableFault.message : TableFault → String
  | missing path =>
    "Failed to read unit table " ++ path
      ++ ": No such file or directory (os error 2)"
  | malformed => "Failed to parse unit table"
  | unusableRatio unit ratio =>
    "Ratio of " ++ Text.quote unit
      ++ " must be finite and non-zero, got "
      ++ String.ofList (Number.plain ratio)
  | unknownPrefix unit symbol =>
    "Unknown metric prefix " ++ Text.quote symbol
      ++ " in the definition of " ++ Text.quote unit

-- =============================================================== reading

open Toml (Value Entries)

/-- An integer that is an exponent. -/
def TargetEntry.exponent? (value : Value) : Option Exponent := do
  Exponent.ofInt? (← value.asInteger?)

/-- A target needs a name. -/
def TargetEntry.ofValue? (value : Value) : Option TargetEntry := do
  let fields ← value.asFields? ["name", "prefix", "exponent"]
  let name ← fields.field? "name" Value.asText? none
  let scale ← fields.field? "prefix" (fun v => v.asText?.map some)
    (some none)
  let exponent ← fields.field? "exponent" exponent? (some 1)
  return ⟨name, scale, exponent⟩

/-- A definition may be empty: a ratio of one and no target. -/
def UnitEntry.ofValue? (value : Value) : Option UnitEntry := do
  let fields ← value.asFields? ["ratio", "targets"]
  let ratio ← fields.field? "ratio" Value.asFloat? (some 1.0)
  let targets ← fields.field? "targets"
    (Value.asList? TargetEntry.ofValue?) (some [])
  return ⟨ratio, targets⟩

namespace UnitTable

/-- A table of definitions, put into the order of the names. -/
def entries? (value : Value) : Option (List (String × UnitEntry)) := do
  let entries ← (← value.asTable?).mapM fun (name, value) => do
    return (name, ← UnitEntry.ofValue? value)
  return entries.mergeSort fun a b => a.1 ≤ b.1

/-- The unit table that a document states. What is stated beyond that
is ignored. -/
def ofDocument? (document : Entries) : Option UnitTable := do
  let base ← document.field? "base_units" (Value.asList? Value.asText?)
    (some [])
  let derived ← document.field? "derived" entries? (some [])
  let standalone ← document.field? "non_prefixed" entries? (some [])
  return ⟨base, derived, standalone⟩

/-- The unit table of a text. -/
def read (text : String) : Except TableFault UnitTable :=
  match (Toml.read? text).bind ofDocument? with
  | some table => .ok table
  | none => .error .malformed

/-- A table that states nothing. -/
def isEmpty (table : UnitTable) : Bool :=
  table.base.isEmpty && table.derived.isEmpty && table.standalone.isEmpty

-- =========================================================== definitions

/-- The target that an entry of `unit` stands for. -/
def target (unit : String) (entry : TargetEntry) :
    Except TableFault Target :=
  let symbol := entry.scale.getD ""
  if symbol = "" then .ok ⟨entry.name, entry.exponent, .plain⟩
  else
    match SIPrefix.ofSymbol? symbol with
    | some scale => .ok ⟨entry.name, entry.exponent, scale⟩
    | none => .error (.unknownPrefix unit symbol)

/-- The definition that the entry of `unit` stands for. -/
def definition (unit : String) (entry : UnitEntry) :
    Except TableFault Definition :=
  if ¬ entry.ratio.isFinite ∨ entry.ratio == 0.0 then
    .error (.unusableRatio unit entry.ratio)
  else do
    let targets ← entry.targets.mapM (target unit)
    return .times entry.ratio targets

/-- The definitions of a list of entries. -/
def definitions (entries : List (String × UnitEntry)) :
    Except TableFault Definitions :=
  entries.mapM fun (name, entry) => do
    return (name, ← definition name entry)

/-- The definitions of the units that take a prefix. -/
def derivedDefinitions (table : UnitTable) :
    Except TableFault Definitions :=
  definitions table.derived

/-- The definitions of the units that take none. -/
def standaloneDefinitions (table : UnitTable) :
    Except TableFault Definitions :=
  definitions table.standalone

/-- The registry of exactly the units of a table. -/
def registry (table : UnitTable) : Except TableFault Registry := do
  let derived ← table.derivedDefinitions
  let standalone ← table.standaloneDefinitions
  return { base := table.base, derived, standalone }

end UnitTable

end UnitAlgebra
