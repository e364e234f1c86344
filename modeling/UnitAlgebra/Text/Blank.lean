/-
Blank characters: the property White_Space of the Unicode character
database. It is wider than the four blanks of a text format such as
JSON, which its reader names for itself.
-/
namespace UnitAlgebra.Text

/-- The ranges of the property White_Space, ascending. -/
def blankRanges : List (Nat × Nat) :=
  [(0x9, 0xD), (0x20, 0x20), (0x85, 0x85), (0xA0, 0xA0),
   (0x1680, 0x1680), (0x2000, 0x200A), (0x2028, 0x2029),
   (0x202F, 0x202F), (0x205F, 0x205F), (0x3000, 0x3000)]

/-- A character of the property White_Space. -/
def isBlank (c : Char) : Bool :=
  blankRanges.any fun r => r.1 ≤ c.toNat && c.toNat ≤ r.2

end UnitAlgebra.Text
