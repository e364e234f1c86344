/-
The decimal multiples of the international system: `yotta` down to
`yocto`, and `plain` for a unit that stands alone. A prefix is a power
of ten with a symbol. Micro is written `u` and also read as the micro
sign and as the Greek letter mu.
-/
import UnitAlgebra.Scalar
import UnitAlgebra.Text.Spelling

namespace UnitAlgebra

/-- A metric prefix, or none (`plain`), the greatest first. -/
inductive SIPrefix where
  | yotta | zetta | exa | peta | tera | giga | mega | kilo | hecto | deca
  | plain
  | deci | centi | milli | micro | nano | pico | femto | atto | zepto
  | yocto
deriving DecidableEq, Ord

namespace SIPrefix

instance : Inhabited SIPrefix := ⟨plain⟩

/-- Every prefix, the greatest first. -/
def all : List SIPrefix :=
  [yotta, zetta, exa, peta, tera, giga, mega, kilo, hecto, deca, plain,
   deci, centi, milli, micro, nano, pico, femto, atto, zepto, yocto]

/-- The symbol as it is written: ASCII, and empty for `plain`. -/
def symbol : SIPrefix → String
  | yotta => "Y"
  | zetta => "Z"
  | exa => "E"
  | peta => "P"
  | tera => "T"
  | giga => "G"
  | mega => "M"
  | kilo => "k"
  | hecto => "h"
  | deca => "da"
  | plain => ""
  | deci => "d"
  | centi => "c"
  | milli => "m"
  | micro => "u"
  | nano => "n"
  | pico => "p"
  | femto => "f"
  | atto => "a"
  | zepto => "z"
  | yocto => "y"

/-- The name under which a prefix is stored. -/
def title : SIPrefix → String
  | yotta => "Yotta"
  | zetta => "Zetta"
  | exa => "Exa"
  | peta => "Peta"
  | tera => "Tera"
  | giga => "Giga"
  | mega => "Mega"
  | kilo => "Kilo"
  | hecto => "Hecto"
  | deca => "Deca"
  | plain => "None"
  | deci => "Deci"
  | centi => "Centi"
  | milli => "Milli"
  | micro => "Micro"
  | nano => "Nano"
  | pico => "Pico"
  | femto => "Femto"
  | atto => "Atto"
  | zepto => "Zepto"
  | yocto => "Yocto"

/-- The power of ten that a prefix stands for. -/
def power : SIPrefix → Exponent
  | yotta => 24
  | zetta => 21
  | exa => 18
  | peta => 15
  | tera => 12
  | giga => 9
  | mega => 6
  | kilo => 3
  | hecto => 2
  | deca => 1
  | plain => 0
  | deci => -1
  | centi => -2
  | milli => -3
  | micro => -6
  | nano => -9
  | pico => -12
  | femto => -15
  | atto => -18
  | zepto => -21
  | yocto => -24

/-- The factor of a prefix, an exact power of ten. -/
def factor {α : Type} [Scalar α] (p : SIPrefix) : α :=
  Scalar.tenTo p.power

/-- The factor as a double: a power of ten, or one over it. -/
def toFloat (p : SIPrefix) : Float :=
  if p.power.val < 0 then 1.0 / Scientific.powerOfTen p.power.val.natAbs
  else Scientific.powerOfTen p.power.val.natAbs

/-- What turns a value counted in `p` into one counted in `q`. -/
def ratioTo (p q : SIPrefix) : Scientific :=
  .ofParts 1.0 (p.power.subClamped q.power)

-- ============================================================= spellings

/-- Every spelling of a prefix; micro has three. -/
def spellings : List (String × SIPrefix) :=
  (all.filter (· ≠ plain)).map (fun p => (p.symbol, p))
    ++ [("µ", micro), ("μ", micro)]

/-- The prefix of a spelling. The empty text spells none. -/
def ofSymbol? (s : String) : Option SIPrefix := spellings.lookup s

/-- The spellings in the order in which they are tried, so that `da` is
not taken for `d`. -/
def longestFirst : List (String × SIPrefix) :=
  (Text.longestFirst (spellings.map Prod.fst)).filterMap fun s =>
    (ofSymbol? s).map (s, ·)

/-- A prefix is read only from one of its spellings. -/
theorem mem_spellings_of_ofSymbol? {s : String} {p : SIPrefix}
    (h : ofSymbol? s = some p) : (s, p) ∈ spellings := by
  obtain ⟨before, after, heq, -⟩ := List.lookup_eq_some_iff.1 h
  rw [heq]
  exact List.mem_append_right _ List.mem_cons_self

/-- What is tried is what spells a prefix. -/
theorem mem_longestFirst_iff {s : String} {p : SIPrefix} :
    (s, p) ∈ longestFirst ↔ ofSymbol? s = some p := by
  unfold longestFirst
  simp only [List.mem_filterMap, Option.map_eq_some_iff, Prod.mk.injEq]
  constructor
  · rintro ⟨_, -, _, h, rfl, rfl⟩
    exact h
  · intro h
    have hnonempty : ∀ q ∈ spellings, q.1 ≠ "" := by decide
    have hmem := mem_spellings_of_ofSymbol? h
    exact ⟨s, Text.mem_longestFirst.2
      ⟨List.mem_map_of_mem hmem, hnonempty _ hmem⟩, p, h, rfl, rfl⟩

end SIPrefix

end UnitAlgebra
