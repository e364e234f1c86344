/-
Reading a number from text. A number word is an optional sign, then
digits with an optional point (at least one digit on one side of it)
and an optional power of ten, or one of the words `inf`, `infinity`
and `nan` in any mixture of cases. The value is the double nearest to
the number written, a tie going to the even significand; there is no
limit on the count of digits.
-/
namespace UnitAlgebra.Number

/-- The natural number that a digit text denotes. -/
def ofDigits (digits : List Char) : Nat :=
  digits.foldl (fun n c => 10 * n + (c.toNat - '0'.toNat)) 0

/-- The value of a digit in a base up to sixteen, in either case. -/
def digitValue? (c : Char) : Option Nat :=
  if c.isDigit then some (c.toNat - '0'.toNat)
  else if 'a' ≤ c.toLower ∧ c.toLower ≤ 'f' then
    some (c.toLower.toNat - 'a'.toNat + 10)
  else none

/-- Whether a character is a digit of a base up to sixteen. -/
def isDigitIn (base : Nat) (c : Char) : Bool :=
  (digitValue? c).any (· < base)

/-- The natural number that a digit text denotes in a base up to
sixteen. -/
def ofDigitsIn (base : Nat) (digits : List Char) : Nat :=
  digits.foldl (fun n c => base * n + (digitValue? c).getD 0) 0

/-- The positive infinity. -/
def infinity : Float := 1.0 / 0.0

/-- The quiet NaN. -/
def nan : Float := 0.0 / 0.0

/-- The double nearest to `digits * 10 ^ power`. A number of more than
310 digits before the point is beyond every double, one whose first
330 places are zeros is below every double; such powers of ten are
never computed. -/
def nearest (digits : Nat) (power : Int) : Float :=
  let count : Int := (Nat.toDigits 10 digits).length
  if digits = 0 then 0.0
  else if 310 < count + power then infinity
  else if count + power < -330 then 0.0
  else Float.ofScientific digits (power < 0) power.natAbs

/-- A leading sign, and what follows it. -/
def takeSign : List Char → Bool × List Char
  | '-' :: rest => (true, rest)
  | '+' :: rest => (false, rest)
  | rest => (false, rest)

/-- The leading digits, and what follows them. -/
def takeDigits (cs : List Char) : List Char × List Char :=
  cs.span Char.isDigit

/-- The power of ten that ends a number: nothing, or `e` with a signed
digit text. -/
def readPower? : List Char → Option Int
  | [] => some 0
  | c :: rest =>
    if c = 'e' ∨ c = 'E' then
      let (negative, digits) := takeSign rest
      if digits.isEmpty ∨ ¬ digits.all Char.isDigit then none
      else if negative then some (-ofDigits digits)
      else some (ofDigits digits)
    else
      none

/-- The magnitude of a number without its sign. -/
def readMagnitude? (cs : List Char) : Option Float :=
  let (whole, rest) := takeDigits cs
  let (fraction, rest) :=
    match rest with
    | '.' :: rest => takeDigits rest
    | rest => ([], rest)
  if whole.isEmpty ∧ fraction.isEmpty then none
  else
    (readPower? rest).map fun power =>
      nearest (ofDigits (whole ++ fraction)) (power - fraction.length)

/-- The magnitude that a word stands for. -/
def readWord? (cs : List Char) : Option Float :=
  match String.ofList (cs.map Char.toLower) with
  | "inf" => some infinity
  | "infinity" => some infinity
  | "nan" => some nan
  | _ => none

/-- The number written by a text, if it is a number. -/
def read? (text : String) : Option Float :=
  let (negative, cs) := takeSign text.toList
  ((readWord? cs).or (readMagnitude? cs)).map fun x =>
    if negative then -x else x

end UnitAlgebra.Number
