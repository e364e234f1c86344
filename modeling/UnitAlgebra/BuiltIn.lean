/-
The built-in units.

The base units are those of the international system, except that the
gram stands in for the kilogram, so that `kg` is simply `k` and `g`.
Derived units are defined through each other where the system does so
(a watt is a joule per second, a joule a newton metre), and the
catalog works out the chains. Radian and steradian reduce to nothing:
angles are dimensionless.

The inch is exactly 25.4 millimetres and every other imperial length a
multiple of it. The nautical mile is ten cables of 600 feet.
-/
import UnitAlgebra.Definition

namespace UnitAlgebra.BuiltIn

open Target (unit power scaled)
open Definition (product times)

/-- Metre, second, gram, kelvin, ampere, mole and candela. -/
def base : List String := ["m", "s", "g", "K", "A", "mol", "cd"]

/-- Per kilogram. -/
def perKilogram : Target := ⟨"g", -1, .kilo⟩

/-- A square. -/
def squared (name : String) : Target := power name 2

/-- One over a unit. -/
def per (name : String) : Target := power name (-1)

/-- One over a square. -/
def perSquared (name : String) : Target := power name (-2)

/-- A ratio that is a power of ten. -/
def powerOfTen (exponent : Exponent) (targets : List Target) :
    Definition :=
  ⟨.ofParts 1.0 exponent, targets⟩

/-- The named derived units of the international system, and the units
accepted beside them. -/
def derived : Definitions :=
  [("au", times 149597870700.0 [unit "m"]),
   ("deg", times (3.14159265358979323846 / 180.0) [unit "rad"]),
   ("ha", powerOfTen 4 [squared "m"]),
   ("eV", ⟨.ofParts 1.602176634 (-19), [unit "J"]⟩),
   ("t", powerOfTen 6 [unit "g"]),
   ("h", times 60.0 [unit "min"]),
   ("min", times 60.0 [unit "s"]),
   ("L", product [unit "l"]),
   ("l", powerOfTen (-3) [power "m" 3]),
   -- mechanics and electromagnetism
   ("N", product [scaled .kilo "g", unit "m", perSquared "s"]),
   ("J", product [unit "N", unit "m"]),
   ("W", product [unit "J", per "s"]),
   ("Pa", product [unit "N", perSquared "m"]),
   ("C", product [unit "s", unit "A"]),
   ("V", product [unit "W", per "A"]),
   ("F", product [unit "C", per "V"]),
   ("Wb", product [unit "V", unit "s"]),
   ("T", product [unit "Wb", perSquared "m"]),
   ("H", product [unit "Wb", per "A"]),
   ("ohm", product [unit "V", per "A"]),
   ("S", product [per "ohm"]),
   -- angles, light and radiation
   ("rad", product []),
   ("sr", product [squared "rad"]),
   ("lm", product [unit "cd", unit "sr"]),
   ("lx", product [unit "lm", perSquared "m"]),
   ("Hz", product [per "s"]),
   ("Bq", product [per "s"]),
   ("Gy", product [unit "J", perKilogram]),
   ("Sv", product [unit "J", perKilogram]),
   ("kat", product [unit "mol", per "s"])]

/-- Metric units of pressure outside the international system. -/
def otherMetric : Definitions :=
  [("bar", powerOfTen 5 [unit "Pa"]),
   ("at", times 98066.5 [unit "Pa"]),
   ("atm", times 101325.0 [unit "Pa"]),
   ("mmHg", times 133.322387415 [unit "Pa"])]

/-- Imperial lengths and areas. None of them takes a prefix. -/
def imperial : Definitions :=
  [("th", times 25.4 [scaled .micro "m"]),
   ("in", times 25.4 [scaled .milli "m"]),
   ("ft", times 304.8 [scaled .milli "m"]),
   ("yd", times 914.4 [scaled .milli "m"]),
   ("ch", times 20.1168 [unit "m"]),
   ("fur", times 201.168 [unit "m"]),
   ("mi", times 1609.344 [unit "m"]),
   ("lea", times 4828.032 [unit "m"]),
   -- maritime
   ("ftm", times 1.8288 [unit "m"]),
   ("cable", times 182.88 [unit "m"]),
   ("M", times 1828.8 [unit "m"]),
   ("NM", product [unit "M"]),
   ("nmi", product [unit "M"]),
   -- surveying
   ("link", times 0.201168 [unit "m"]),
   ("rod", times 5.0292 [unit "m"]),
   -- areas
   ("perch", times 25.29285264 [squared "m"]),
   ("rood", times 1011.7141056 [squared "m"]),
   ("acre", times 4046.8564224 [squared "m"])]

end UnitAlgebra.BuiltIn
