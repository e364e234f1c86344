/-
Values of a TOML document. Tables and arrays remember how they came
about, because that decides what the rest of a document may still add
to them; once a document is complete it no longer matters.

A date or a time is recognised and kept as `moment` without its
content, since nothing that is configured is one.
-/
import UnitAlgebra.Number.Literal

namespace UnitAlgebra.Toml

/-- How a table or an array came about. -/
inductive Origin where
  /-- Named by a header of its own. -/
  | header
  /-- On the way to the table of a header. -/
  | implied
  /-- On the way of a dotted key. -/
  | dotted
  /-- Written out as a value, and closed since. -/
  | inline
deriving DecidableEq

/-- A value, or a table that is still growing. -/
inductive Value where
  | text (text : String)
  | integer (value : Int)
  | float (value : Float)
  | boolean (value : Bool)
  | moment
  | array (origin : Origin) (items : List Value)
  | table (origin : Origin) (entries : List (String × Value))

/-- The entries of a table, in the order in which they came. -/
abbrev Entries := List (String × Value)

-- ================================================================= views

namespace Value

def asText? : Value → Option String
  | text s => some s
  | _ => none

def asInteger? : Value → Option Int
  | integer n => some n
  | _ => none

/-- The value as a double. An integer stands for the double nearest to
it. -/
def asFloat? : Value → Option Float
  | float x => some x
  | integer n =>
    let x := Number.nearest n.natAbs 0
    some (if n < 0 then -x else x)
  | _ => none

/-- The items of an array, each seen as something. -/
def asList? {α : Type} (item? : Value → Option α) :
    Value → Option (List α)
  | array _ items => items.mapM item?
  | _ => none

def asTable? : Value → Option Entries
  | table _ entries => some entries
  | _ => none

/-- The fields of a structure, which may be written as a table, or as
an array of the first few of its fields in their order. A moment is
taken for a table that has none of them. -/
def asFields? (names : List String) : Value → Option Entries
  | table _ entries => some entries
  | array _ items => some (names.zip items)
  | moment => some []
  | _ => none

end Value

/-- What stands under a name, or else what is to be taken for it. -/
def Entries.field? {α : Type} (entries : Entries) (name : String)
    (value? : Value → Option α) (missing? : Option α) : Option α :=
  match entries.lookup name with
  | some value => value? value
  | none => missing?

-- ============================================================ statements

/-- A key with dots: the tables on the way and the name inside the last
of them. -/
structure Path where
  tables : List String
  name : String
deriving DecidableEq

/-- One statement of a document. -/
inductive Statement where
  /-- `[path]` -/
  | header (path : Path)
  /-- `[[path]]` -/
  | element (path : Path)
  /-- `path = value` -/
  | entry (path : Path) (value : Value)

end UnitAlgebra.Toml
