/-
How numbers are written. The plain text of a double is its shortest
decimal in positional notation: never an exponent, no point for a
whole number, a minus sign for everything with the sign bit, and the
words `NaN` and `inf` for what is not finite. The fixed text has a
given number of decimal places and rounds the exact value, a half to
the even neighbour.
-/
import UnitAlgebra.Number.Shortest

namespace UnitAlgebra.Number

/-- Zeros in front of a digit text up to a least length. -/
def padLeft (least : Nat) (digits : List Char) : List Char :=
  List.replicate (least - digits.length) '0' ++ digits

/-- The digits of a natural number cut before its last `places`
digits, with at least one digit in front of the cut. -/
def cutPlaces (n places : Nat) : List Char × List Char :=
  let padded := padLeft (places + 1) (Nat.toDigits 10 n)
  padded.splitAt (padded.length - places)

/-- A digit text without the zeros at its end. -/
def dropTrailingZeros (digits : List Char) : List Char :=
  (digits.reverse.dropWhile (· == '0')).reverse

/-- A decimal in positional notation. -/
def Decimal.positional (d : Decimal) : List Char :=
  if 0 ≤ d.power then
    Nat.toDigits 10 d.digits ++ List.replicate d.power.toNat '0'
  else
    let (whole, fraction) := cutPlaces d.digits (-d.power).toNat
    match dropTrailingZeros fraction with
    | [] => whole
    | fraction => whole ++ '.' :: fraction

/-- The plain text of a double. -/
def plain (x : Float) : List Char :=
  if x.isNaN then ['N', 'a', 'N']
  else
    let magnitude :=
      if ¬ x.isFinite then ['i', 'n', 'f']
      else if x == 0 then ['0']
      else (Magnitude.ofFloat x).shortest.positional
    if isNegative x then '-' :: magnitude else magnitude

/-- The quotient rounded to the nearest natural number, a half to the
even one. -/
def Division.rounded (d : Division) : Nat :=
  if 2 * d.rest < d.whole then d.floor
  else if d.whole < 2 * d.rest then d.floor + 1
  else if d.floor % 2 = 0 then d.floor
  else d.floor + 1

/-- The digits before and after the point of the magnitude of a finite
double, written with `places` decimal places. -/
def fixed (x : Float) (places : Nat) : List Char × List Char :=
  cutPlaces ((Magnitude.ofFloat x).divide (-places)).rounded places

end UnitAlgebra.Number
