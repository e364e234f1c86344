/-
Registries: units collected for a unit system. Base units and derived
units take prefixes, standalone units never do. Nothing is checked
while units are collected; building the system checks everything.

A registry is three lists, and units may come to them one by one or as
another registry, such as the one of a configuration file, added behind.
The lists only grow. A name that is registered twice stays twice, and is
found out when the catalog is built.

Two things are built from the lists, and a fault in either of them is a
fault of the whole: the catalog, which does not know about prefixes, and
the reader, which does not know what a unit is worth.
-/
import UnitAlgebra.BuiltIn
import UnitAlgebra.UnitSystem

namespace UnitAlgebra

/-- Units to build a system from. -/
structure Registry where
  base : List String := []
  /-- Units that take a prefix. -/
  derived : Definitions := []
  /-- Units that take none. -/
  standalone : Definitions := []
  /-- Whether the fraction grammar is tried after the dotted one. -/
  permissive : Bool := false

namespace Registry

/-- No units at all. -/
def empty : Registry := {}

/-- The units of another registry added after those that are there. -/
def append (r s : Registry) : Registry :=
  { base := r.base ++ s.base
    derived := r.derived ++ s.derived
    standalone := r.standalone ++ s.standalone
    permissive := r.permissive || s.permissive }

/-- One unit to register. -/
inductive Entry where
  | base (name : String)
  | derived (name : String) (definition : Definition)
  | standalone (name : String) (definition : Definition)

/-- One more unit, after those of its kind that are there. -/
def register (r : Registry) : Entry → Registry
  | .base name => { r with base := r.base ++ [name] }
  | .derived name definition =>
    { r with derived := r.derived ++ [(name, definition)] }
  | .standalone name definition =>
    { r with standalone := r.standalone ++ [(name, definition)] }

/-- The units of a registry, kind by kind. -/
def entries (r : Registry) : List Entry :=
  r.base.map .base ++ r.derived.map (fun d => .derived d.1 d.2)
    ++ r.standalone.map fun d => .standalone d.1 d.2

/-- Every built-in unit. -/
def builtIn : Registry :=
  { base := BuiltIn.base
    derived := BuiltIn.derived ++ BuiltIn.otherMetric
    standalone := BuiltIn.imperial }

/-- The symbols that take a prefix. -/
def prefixable (r : Registry) : List String :=
  r.base ++ r.derived.map Prod.fst

/-- The reader for the symbols of a registry. -/
def reader (r : Registry) : Except Fault Reader := do
  let standalone := r.standalone.map Prod.fst
  let dotted ← Reader.ofDotted r.prefixable standalone
  if r.permissive then
    let fraction ← Reader.ofFraction r.prefixable standalone
    Reader.ofReaders [dotted, fraction]
  else
    return dotted

/-- The unit system of a registry. -/
def build (r : Registry) : Except Fault UnitSystem := do
  let catalog ← Catalog.build (r.derived ++ r.standalone) r.base
  let reader ← r.reader
  return ⟨reader, catalog⟩

/-- The built-in units, read with both grammars. -/
def defaults : Except Fault UnitSystem :=
  { builtIn with permissive := true }.build

end Registry

end UnitAlgebra
