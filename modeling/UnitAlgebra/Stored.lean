/-
Stored forms: how values are kept as JSON, and how they are read back.
A structure is kept as an object with one entry for each field; an
array of the fields in order is read as well. Entries that are no
field are passed over, and a field that stands twice is refused.

A stored number need not be in normal form; reading brings it there.
-/
import UnitAlgebra.Dimension
import UnitAlgebra.Json.Document
import UnitAlgebra.Term

namespace UnitAlgebra.Stored

/-- The one value that stands under a key. -/
def field? (entries : List (String × Json)) (name : String) :
    Option Json :=
  match entries.filter (·.1 = name) with
  | [(_, value)] => some value
  | _ => none

/-- The values of the fields of a structure, in order. -/
def fields? (names : List String) : Json → Option (List Json)
  | .array items => if items.length = names.length then some items else none
  | .object entries => do
    let entries ← entries.mapM fun (key, value) => do
      return (← key, value)
    names.mapM (field? entries)
  | _ => none

def text? : Json → Option String
  | .string text => text
  | _ => none

/-- A double may be written as any number. -/
def float? : Json → Option Float
  | .number numeral => numeral.toFloat?
  | _ => none

/-- An exponent must be written as an integer. -/
def exponent? : Json → Option Exponent
  | .number numeral => numeral.integer?.bind Exponent.ofInt?
  | _ => none

/-- The prefix of a title. -/
def scaleOfTitle? (title : String) : Option SIPrefix :=
  SIPrefix.all.find? (·.title = title)

/-- A prefix is kept by its title, alone or as the key of a null. -/
def scale? : Json → Option SIPrefix
  | .string title => title.bind scaleOfTitle?
  | .object [(title, .null)] => title.bind scaleOfTitle?
  | _ => none

/-- A number in scientific notation. -/
def scientific? (json : Json) : Option Scientific := do
  match ← fields? ["mantissa", "exponent"] json with
  | [mantissa, exponent] =>
    return .ofParts (← float? mantissa) (← exponent? exponent)
  | _ => none

/-- A term of a written unit. -/
def term? (json : Json) : Option Term := do
  match ← fields? ["factor", "prefix", "abbrev", "exponent"] json with
  | [factor, scale, symbol, exponent] =>
    return ⟨← scientific? factor, ← scale? scale, ← text? symbol,
      ← exponent? exponent⟩
  | _ => none

/-- A base unit to a power. -/
def basePower? (json : Json) : Option BasePower := do
  match ← fields? ["abbrev", "exponent"] json with
  | [base, exponent] => return ⟨← text? base, ← exponent? exponent⟩
  | _ => none

end UnitAlgebra.Stored
