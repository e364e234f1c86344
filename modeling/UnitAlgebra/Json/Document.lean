/-
Reading JSON. The reader takes the grammar as it stands: four blanks,
no comma after a last item, no leading zeros, no control character in
a string. Values may nest as deep as the text is long.
-/
import UnitAlgebra.Json.Value
import UnitAlgebra.Text.Scan

namespace UnitAlgebra.Json

open Text (Scan)
open Text.Scan

/-- The blanks of JSON. -/
def isBlank (c : Char) : Bool :=
  c = ' ' || c = '\n' || c = '\t' || c = '\r'

def blanks : Scan Unit := do
  let _ ← takeWhile isBlank

-- =============================================================== numbers

/-- A digit text that starts with a zero only if it is one. -/
def wholePart : Scan (List Char) := do
  let digits ← takeSome Char.isDigit
  guard (digits.length = 1 ∨ digits.head? ≠ some '0')
  return digits

/-- A power of ten. -/
def power : Scan Int := do
  let _ ← satisfy fun c => c = 'e' || c = 'E'
  let negative ← skip '-'
  unless negative do
    let _ ← skip '+'
  let n : Int := Number.ofDigits (← takeSome Char.isDigit)
  return if negative then -n else n

def numeral : Scan Numeral := do
  let negative ← skip '-'
  let whole ← wholePart
  let fraction ←
    if ← skip '.' then takeSome Char.isDigit else pure []
  let power ←
    match ← peek? with
    | some 'e' => some <$> power
    | some 'E' => some <$> power
    | _ => pure none
  return ⟨negative, whole, fraction, power⟩

-- =============================================================== strings

/-- The sixteen-bit unit of `\uXXXX`. -/
def escapedUnit : Scan Nat := do
  word "\\u"
  return Number.ofDigitsIn 16 (← takeExactly (Number.isDigitIn 16) 4)

/-- The first half of a surrogate pair. -/
def isLeading (unit : Nat) : Bool := 0xD800 ≤ unit && unit < 0xDC00

/-- The second half of a surrogate pair. -/
def isTrailing (unit : Nat) : Bool := 0xDC00 ≤ unit && unit < 0xE000

/-- The second half of a surrogate pair, if it comes next. -/
def trailingUnit : Scan Nat := do
  let unit ← escapedUnit
  guard (isTrailing unit)
  return unit

/-- A character written by its units; nothing for half a pair. -/
def escapedByNumber : Scan (Option Char) := do
  let unit ← escapedUnit
  if isLeading unit then
    match ← optional trailingUnit with
    | some second =>
      return some (Char.ofNat
        (0x10000 + (unit - 0xD800) * 0x400 + (second - 0xDC00)))
    | none => return none
  else if isTrailing unit then
    return none
  else
    return some (Char.ofNat unit)

/-- A character written by a letter. -/
def escapedByLetter : Scan Char := do
  char '\\'
  match ← satisfy (fun _ => true) with
  | '"' => return '"'
  | '\\' => return '\\'
  | '/' => return '/'
  | 'b' => return '\x08'
  | 'f' => return '\x0c'
  | 'n' => return '\n'
  | 'r' => return '\r'
  | 't' => return '\t'
  | _ => failure

/-- A character that stands for itself in a string. -/
def isPlain (c : Char) : Bool := ' ' ≤ c && c ≠ '"' && c ≠ '\\'

/-- Some characters of a string; nothing for half a surrogate pair. -/
def piece : Scan (Option (List Char)) :=
  some <$> takeSome isPlain
    <|> (do return some [← escapedByLetter])
    <|> (do return (← escapedByNumber).map ([·]))

/-- A string; nothing if it stands for no text. -/
def quoted : Scan (Option String) := do
  char '"'
  iterate (fun (read : Option (List Char)) => do
    if ← skip '"' then
      return .inr (read.map String.ofList)
    else
      let more ← piece
      return .inl (do return (← read) ++ (← more))) (some [])

-- ================================================================ values

/-- A key, a colon and a value. -/
def entry (value : Scan Json) : Scan (Option String × Json) := do
  blanks
  let key ← quoted
  blanks
  char ':'
  return (key, ← value)

/-- A value with the blanks in front of it, nested in at most so many
levels. -/
def value : Nat → Scan Json
  | 0 => failure
  | levels + 1 => do
    blanks
    match ← peek? with
    | some '[' =>
      char '['
      return .array (← listUntil ']' blanks false (value levels))
    | some '{' =>
      char '{'
      return .object (← listUntil '}' blanks false (entry (value levels)))
    | some '"' => return .string (← quoted)
    | some 'n' => word "null"; return .null
    | some 't' => word "true"; return .boolean true
    | some 'f' => word "false"; return .boolean false
    | _ => return .number (← numeral)

/-- The value that a text stands for. Each level of nesting takes a
character, so the length of the text bounds the levels. -/
def read? (text : String) : Option Json :=
  readAll? (do
    let value ← value text.length
    blanks
    return value) text

end UnitAlgebra.Json
