/-
Units and quantities as they are printed for people, in the manner of
the international system: a raised dot between the terms, exponents
above the line, the Greek letter for micro.

# A printer by itself

It has its own order of parts, its own row of terms and its own figures
for exponents, and has in common with the written form (`Measure.text`)
only the texts of numbers and of the other prefixes. That the two say
the same, character by character, does not follow from how they are
defined; it is proved in `UnitAlgebra.Proofs.Typesetting`.

# Exponents

The figures above the line stand in a table, and the digits of an
exponent are looked up there by value. A digit has its place in the
table (`Typography.place_lt`), so the look-up needs no default. The sign
is decided on the exponent and the digits are those of its magnitude, so
that the least exponent, which has no negation, is printed like any
other.
-/
import UnitAlgebra.Number.Grouped
import UnitAlgebra.Quantity

namespace UnitAlgebra

namespace Typography

/-- The raised dot between two terms. -/
def raisedDot : Char := '⋅'

/-- The minus sign above the line. -/
def raisedMinus : Char := '⁻'

/-- The ten digits above the line, each in the place of its value. -/
def raisedDigits : Vector Char 10 :=
  #v['⁰', '¹', '²', '³', '⁴', '⁵', '⁶', '⁷', '⁸', '⁹']

/-- Digits count from zero up to nine, so each has a place in the
table. -/
theorem place_lt {digit : Char} (h : digit.isDigit = true) :
    digit.toNat - '0'.toNat < 10 := by
  have hlast : digit.toNat ≤ 57 := (Char.isDigit_iff_toNat.1 h).2
  show digit.toNat - 48 < 10
  omega

/-- A digit above the line, looked up by its value. -/
def raisedDigit (digit : Char) (h : digit.isDigit = true) : Char :=
  have hplace := place_lt h
  raisedDigits[digit.toNat - '0'.toNat]

/-- An exponent above the line: a minus sign if it is negative, and the
digits of its magnitude. -/
def superscript (e : Exponent) : List Char :=
  let sign := if e.val < 0 then [raisedMinus] else []
  sign ++ (Nat.toDigits 10 e.val.natAbs).pmap raisedDigit
    fun _ => Nat.isDigit_of_mem_toDigits (by decide) (by decide)

/-- The symbol of a prefix, micro by its Greek letter. -/
def scale : SIPrefix → List Char
  | .micro => ['μ']
  | p => p.symbol.toList

/-- A term. A coefficient other than one stands in front of it, an
exponent other than one behind it. -/
def term (t : Term) : List Char :=
  let coefficient :=
    if t.coefficient.isOne then [] else t.coefficient.valueText ++ [' ']
  let exponent := if t.exponent = 1 then [] else superscript t.exponent
  coefficient ++ scale t.scale ++ t.symbol.toList ++ exponent

/-- A unit. A factor of one is left out. -/
def unit (m : Measure) : String :=
  let row := [raisedDot].intercalate (m.terms.map term)
  String.ofList
    (if m.factor.isOne then row
      else if row.isEmpty then m.factor.valueText
      else m.factor.valueText ++ ' ' :: row)

end Typography

/-- How the unit of a printed quantity is set. -/
inductive UnitStyle where
  /-- In the manner of the international system. -/
  | typographic
  /-- As in the dotted grammar. -/
  | dotted

/-- A unit in a style. -/
def UnitStyle.text : UnitStyle → Measure → String
  | typographic, m => Typography.unit m
  | dotted, m => m.text

/-- A quantity for people: the grouped value, a blank and the unit. -/
def Quantity.print (grouping : Number.Grouping) (style : UnitStyle)
    (q : Quantity) : String :=
  String.ofList (grouping.text q.value) ++ " " ++ style.text q.measure

end UnitAlgebra
