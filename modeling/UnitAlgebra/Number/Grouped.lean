/-
Numbers with grouped digits, as people write them: `-12,345.68`. The
number has a fixed count of decimal places; the digits before the
point stand in groups of three, counted from the point. What is not
finite is written as a plain number.
-/
import UnitAlgebra.Number.Text

namespace UnitAlgebra.Number

/-- How a number is grouped. -/
structure Grouping where
  places : Nat
  /-- What stands between whole and fraction. -/
  point : List Char
  /-- What stands between two groups. -/
  separator : List Char

/-- Two places, a point, and commas between the groups. -/
def Grouping.default : Grouping := ⟨2, ['.'], [',']⟩

/-- The digit at place `i` of `count` digits. A separator stands before
it when it starts a group, which the first group needs none for. -/
def Grouping.digitAt (g : Grouping) (count i : Nat) (digit : Char) :
    List Char :=
  if 0 < i ∧ (count - i) % 3 = 0 then g.separator ++ [digit]
  else [digit]

/-- The digits before the point, each with what stands before it. -/
def Grouping.separated (g : Grouping) (digits : List Char) :
    List Char :=
  (digits.mapIdx (g.digitAt digits.length)).flatten

/-- A finite number that is rounded to zero has no sign. -/
def Grouping.text (g : Grouping) (x : Float) : List Char :=
  if ¬ x.isFinite then plain x
  else
    let (whole, fraction) := fixed x g.places
    let negative := x < 0.0 ∧ (whole ++ fraction).any (· ≠ '0')
    (if negative then ['-'] else [])
      ++ g.separated whole
      ++ (if g.places = 0 then [] else g.point ++ fraction)

end UnitAlgebra.Number
