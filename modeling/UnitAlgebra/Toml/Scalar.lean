/-
Values of one piece: strings, numbers, truth values, dates and times.

A string is basic, with escapes, or literal, without; each comes on
one line or on many. On many lines the delimiter is three quotes, one
or two more may stand inside or just before the end, and a line break
right after the opening is dropped.
-/
import UnitAlgebra.Number.Literal
import UnitAlgebra.Text.Scan
import UnitAlgebra.Toml.Value

namespace UnitAlgebra.Toml

open Text (Scan)
open Text.Scan

-- ================================================================ blanks

/-- A blank inside a line. -/
def isSpace (c : Char) : Bool := c = ' ' || c = '\t'

/-- Blanks inside a line. -/
def spaces : Scan Unit := do
  let _ ← takeWhile isSpace

/-- The end of a line. -/
def lineBreak : Scan Unit := word "\n" <|> word "\r\n"

/-- A character that may stand in a comment: any but a control
character, and the tab. -/
def isCommentChar (c : Char) : Bool :=
  c = '\t' || (' ' ≤ c && c ≠ '\x7f')

/-- A comment, without the end of its line. -/
def comment : Scan Unit := do
  char '#'
  let _ ← takeWhile isCommentChar

-- =============================================================== strings

/-- The character whose number is written in so many hexadecimal
digits. -/
def charByNumber (count : Nat) : Scan Char := do
  let n := Number.ofDigitsIn 16
    (← takeExactly (Number.isDigitIn 16) count)
  if n.isValidChar then
    return Char.ofNat n
  else
    failure

/-- The character of an escape sequence. -/
def escape : Scan Char := do
  char '\\'
  match ← satisfy (fun _ => true) with
  | 'b' => return '\x08'
  | 't' => return '\t'
  | 'n' => return '\n'
  | 'f' => return '\x0c'
  | 'r' => return '\r'
  | '"' => return '"'
  | '\\' => return '\\'
  | 'u' => charByNumber 4
  | 'U' => charByNumber 8
  | _ => failure

/-- A character that stands for itself in a string with this quote. An
escaping backslash is for the basic strings to see. -/
def isPlain (quote c : Char) : Bool :=
  isCommentChar c && c ≠ quote && !(quote = '"' && c = '\\')

/-- Some characters between quotes, as they are meant. -/
def piece (quote : Char) : Scan (List Char) :=
  takeSome (isPlain quote)
    <|> if quote = '"' then (do return [← escape]) else failure

/-- A string on one line. -/
def lineString (quote : Char) : Scan String := do
  char quote
  iterate (fun read => do
    if ← skip quote then
      return .inr (String.ofList read)
    else
      return .inl (read ++ (← piece quote))) []

/-- A backslash at the end of a line, which joins the line to the next
text, whatever blanks and line breaks come before that. -/
def joinedLine : Scan Unit := do
  char '\\'
  spaces
  lineBreak
  iterate (fun _ => do
    let blank ← optional ((satisfy isSpace *> pure ()) <|> lineBreak)
    return if blank.isSome then .inl () else .inr ()) ()

/-- One step into a string of many lines finds more of the string, or
its end with the quotes just before it. -/
def blockStep (quote : Char) (read : List Char) :
    Scan (List Char ⊕ String) := do
  let quotes ← takeWhile (· = quote)
  if quotes.length ≥ 3 then
    -- The last three close the string; two more at most may be its own.
    guard (quotes.length ≤ 5)
    return .inr (String.ofList (read ++ quotes.drop 3))
  else if quotes.length > 0 then
    return .inl (read ++ quotes)
  else
    (do lineBreak; return .inl (read ++ ['\n']))
      <|> (do guard (quote = '"'); joinedLine; return .inl read)
      <|> (do return .inl (read ++ (← piece quote)))

/-- A string on many lines. -/
def blockString (quote : Char) : Scan String := do
  char quote
  char quote
  char quote
  let _ ← optional lineBreak
  iterate (blockStep quote) []

/-- A string of any kind. -/
def string : Scan String :=
  blockString '"' <|> lineString '"'
    <|> blockString '\'' <|> lineString '\''

-- =============================================================== numbers

/-- The digits of a run in which an underscore may stand between each
two digits. -/
def ungroup? (isDigit : Char → Bool) : List Char → Option (List Char)
  | [] => none
  | [c] => if isDigit c then some [c] else none
  | c :: '_' :: rest =>
    if isDigit c then (ungroup? isDigit rest).map (c :: ·) else none
  | c :: rest =>
    if isDigit c then (ungroup? isDigit rest).map (c :: ·) else none

/-- A run of digits, perhaps with underscores. -/
def digitRun (isDigit : Char → Bool) : Scan (List Char) := do
  let run ← takeSome fun c => isDigit c || c = '_'
  match ungroup? isDigit run with
  | some digits => return digits
  | none => failure

/-- Whether a minus sign comes next; a sign of either kind is read. -/
def sign : Scan Bool := do
  if ← skip '-' then
    return true
  else
    let _ ← skip '+'
    return false

/-- The whole part of a number, which starts with a zero only if it is
one. -/
def wholePart : Scan (List Char) := do
  let digits ← digitRun Char.isDigit
  guard (digits.length = 1 ∨ digits.head? ≠ some '0')
  return digits

/-- The power of ten that ends a number. -/
def power : Scan Int := do
  let _ ← satisfy fun c => c = 'e' || c = 'E'
  let negative ← sign
  let digits ← digitRun Char.isDigit
  let n : Int := Number.ofDigits digits
  return if negative then -n else n

/-- A number with a sign. -/
def signed (negative : Bool) (x : Float) : Float :=
  if negative then -x else x

/-- A decimal number with a point or a power of ten. One above every
double is refused, one below every double is the negative infinity. -/
def decimal : Scan Value := do
  let negative ← sign
  let whole ← wholePart
  let fraction ← optional (char '.' *> digitRun Char.isDigit)
  let power ← optional power
  guard (fraction.isSome ∨ power.isSome)
  let fraction := fraction.getD []
  let x := signed negative
    (Number.nearest (Number.ofDigits (whole ++ fraction))
      (power.getD 0 - fraction.length))
  guard ¬ (x == Number.infinity)
  return .float x

/-- An infinity or a NaN by name. -/
def namedFloat : Scan Value := do
  let negative ← sign
  (do word "inf"; return .float (signed negative Number.infinity))
    <|> (do word "nan"; return .float Number.nan)

/-- An integer in its range, from `-2^63` to `2^63 - 1`. -/
def bounded (n : Int) : Scan Value := do
  guard (-9223372036854775808 ≤ n ∧ n ≤ 9223372036854775807)
  return .integer n

/-- An integer in a base of its own, which has no sign. -/
def basedInteger (mark : String) (base : Nat) : Scan Value := do
  word mark
  bounded (Number.ofDigitsIn base (← digitRun (Number.isDigitIn base)))

/-- An integer in base ten. -/
def integer : Scan Value := do
  let negative ← sign
  let n : Int := Number.ofDigits (← wholePart)
  bounded (if negative then -n else n)

/-- A number of any kind. -/
def number : Scan Value :=
  decimal <|> namedFloat <|> basedInteger "0x" 16 <|> basedInteger "0o" 8
    <|> basedInteger "0b" 2 <|> integer

-- ======================================================= dates and times

/-- A number of so many digits that lies between two bounds. -/
def numberWithin (count low high : Nat) : Scan Nat := do
  let n := Number.ofDigits (← takeExactly Char.isDigit count)
  guard (low ≤ n ∧ n ≤ high)
  return n

/-- The number of days of a month. -/
def daysIn (year month : Nat) : Nat :=
  if month = 2 then
    if year % 4 = 0 ∧ (year % 100 ≠ 0 ∨ year % 400 = 0) then 29 else 28
  else if month ∈ [4, 6, 9, 11] then 30
  else 31

/-- A day of the calendar. -/
def date : Scan Unit := do
  let year ← numberWithin 4 0 9999
  char '-'
  let month ← numberWithin 2 1 12
  char '-'
  let _ ← numberWithin 2 1 (daysIn year month)

/-- A time of day; the sixtieth second is there for leap seconds. -/
def time : Scan Unit := do
  let _ ← numberWithin 2 0 23
  char ':'
  let _ ← numberWithin 2 0 59
  char ':'
  let _ ← numberWithin 2 0 60
  let _ ← optional (char '.' *> takeSome Char.isDigit)

/-- The distance of a time from universal time. -/
def offset : Scan Unit :=
  (do let _ ← satisfy fun c => c = 'Z' || c = 'z')
    <|> do
      let _ ← satisfy fun c => c = '+' || c = '-'
      let _ ← numberWithin 2 0 23
      char ':'
      let _ ← numberWithin 2 0 59

/-- A time of day after a date, perhaps with an offset. -/
def timeOfDate : Scan Unit := do
  let _ ← satisfy fun c => c = 'T' || c = 't' || c = ' '
  time
  let _ ← optional offset

/-- A date, a time or both. -/
def moment : Scan Value :=
  (do date; let _ ← optional timeOfDate; return .moment)
    <|> (do time; return .moment)

/-- A truth value. -/
def boolean : Scan Value :=
  (do word "true"; return .boolean true)
    <|> (do word "false"; return .boolean false)

/-- A value of one piece. -/
def scalar : Scan Value :=
  (Value.text <$> string) <|> boolean <|> moment <|> number

end UnitAlgebra.Toml
