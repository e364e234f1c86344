/-
How a document grows. Statements are taken one by one, and each adds
to the tables that are there. What may be added where depends on how a
table came about:

* a value written out is closed: nothing is ever added to it;
* a name holds one value, and a second value for it is refused;
* a header may name a table that so far only stood on the way to
  another header, and no other table a second time;
* a dotted key may only add to tables that dotted keys made;
* a path through an array of tables goes on in its last element.
-/
import UnitAlgebra.Toml.Value

namespace UnitAlgebra.Toml

/-- The entries with a value put under a name, in the place of an older
one or at the end. -/
def Entries.put (name : String) (value : Value) : Entries → Entries
  | [] => [(name, value)]
  | (other, old) :: entries =>
    if other = name then (name, value) :: entries
    else (other, old) :: put name value entries

/-- What happens inside one table; it may refuse. -/
abbrev Change := Origin → Entries → Option Entries

/-- A change in the table to which names lead. The tables that are
missing are made, in the given way. -/
def changeAt (way : Origin) (change : Change) : List String → Change
  | [], origin, entries => change origin entries
  | name :: names, _, entries =>
    match entries.lookup name with
    | none =>
      (changeAt way change names way []).map fun inner =>
        Entries.put name (.table way inner) entries
    | some (.table origin inner) =>
      if origin = .inline ∨ (way = .dotted ∧ origin = .header) then none
      else
        (changeAt way change names origin inner).map fun inner =>
          Entries.put name (.table origin inner) entries
    | some (.array .header items) =>
      match items.reverse with
      | .table origin inner :: earlier =>
        (changeAt way change names origin inner).map fun inner =>
          let items := (Value.table origin inner :: earlier).reverse
          Entries.put name (.array .header items) entries
      | _ => none
    | some _ => none

/-- Puts a value under a key, which may have dots. -/
def assign (path : Path) (value : Value) : Change :=
  changeAt .dotted
    (fun origin entries =>
      if path.tables ≠ [] ∧ origin ≠ .dotted then none
      else if (entries.lookup path.name).isSome then none
      else some (Entries.put path.name value entries))
    path.tables

/-- Names the table of a header. -/
def openTable (name : String) : Change := fun _ entries =>
  match entries.lookup name with
  | none => some (Entries.put name (.table .header []) entries)
  | some (.table .implied inner) =>
    some (Entries.put name (.table .header inner) entries)
  | some _ => none

/-- Adds an element to an array of tables. -/
def openElement (name : String) : Change := fun _ entries =>
  let element := Value.table .header []
  match entries.lookup name with
  | none => some (Entries.put name (.array .header [element]) entries)
  | some (.array .header items) =>
    some (Entries.put name (.array .header (items ++ [element])) entries)
  | some _ => none

/-- The part of a document that has been taken in: its tables, and the
table to which the next entries belong. -/
structure Growth where
  root : Entries
  current : List String

namespace Growth

/-- Nothing yet; the first entries belong to the root. -/
def start : Growth := ⟨[], []⟩

/-- One more statement. -/
def add? (growth : Growth) : Statement → Option Growth
  | .header path => do
    let root ← changeAt .implied (openTable path.name) path.tables .header
      growth.root
    return ⟨root, path.tables ++ [path.name]⟩
  | .element path => do
    let root ← changeAt .implied (openElement path.name) path.tables
      .header growth.root
    return ⟨root, path.tables ++ [path.name]⟩
  | .entry path value => do
    let root ← changeAt .implied (assign path value) growth.current
      .header growth.root
    return { growth with root }

end Growth

/-- The tables that statements build, unless one of them is refused. -/
def ofStatements? (statements : List Statement) : Option Entries := do
  let growth ← statements.foldlM Growth.add? .start
  return growth.root

end UnitAlgebra.Toml
