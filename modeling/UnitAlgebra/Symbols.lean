/-
Symbol tables: which unit symbols are known, and how a token such as
`kPa-3` is taken apart into prefix, symbol and exponent.

A token is a spelling followed by an exponent text. The spellings that
a table knows are listed in order of preference: first the symbols
that take no prefix, then the others alone, then every prefix in front
of every symbol that takes one, and within each group the longer
spelling first. So a symbol of the table is never mistaken for a
prefixed one, and `min` is never taken for `m` with something after
it. The first spelling whose remainder is an exponent text decides the
reading; if that exponent is out of range, the token has no reading at
all.
-/
import UnitAlgebra.Number.Literal
import UnitAlgebra.Term

namespace UnitAlgebra

/-- The known unit symbols. -/
structure Symbols where
  /-- Symbols that take a prefix, longest first. -/
  prefixable : List String
  /-- Symbols that take none, longest first. -/
  standalone : List String

/-- A way to write a symbol, with or without a prefix. -/
structure Spelling where
  text : List Char
  scale : SIPrefix
  symbol : String

namespace Symbols

/-- The table of two lists of symbols. Empty symbols are left out; one
symbol has to remain. -/
def ofLists (prefixable standalone : List String) :
    Except Fault Symbols :=
  let table : Symbols :=
    ⟨Text.longestFirst prefixable, Text.longestFirst standalone⟩
  if table.prefixable.isEmpty ∧ table.standalone.isEmpty then
    .error (.construction .noSymbol)
  else
    .ok table

/-- A symbol by itself. -/
def bare (symbol : String) : Spelling :=
  ⟨symbol.toList, .plain, symbol⟩

/-- Every spelling that a table knows, the preferred ones first. -/
def spellings (table : Symbols) : List Spelling :=
  table.standalone.map bare ++ table.prefixable.map bare
    ++ SIPrefix.longestFirst.flatMap fun (spelling, scale) =>
      table.prefixable.map fun symbol =>
        ⟨spelling.toList ++ symbol.toList, scale, symbol⟩

-- ========================================================= exponent texts

/-- Digits, with or without a minus sign in front. -/
def isSignedDigits : List Char → Bool
  | '-' :: digits => !digits.isEmpty && digits.all Char.isDigit
  | digits => !digits.isEmpty && digits.all Char.isDigit

/-- What may stand after a symbol: nothing, or signed digits. -/
def isExponentText (text : List Char) : Bool :=
  text.isEmpty || isSignedDigits text

/-- The exponent that an exponent text denotes, if it is in range. -/
def exponentOf? : List Char → Option Exponent
  | [] => some 1
  | '-' :: digits => Exponent.ofInt? (-Number.ofDigits digits)
  | digits => Exponent.ofInt? (Number.ofDigits digits)

-- ============================================================ recognition

/-- What follows a spelling at the start of a token, if that is an
exponent text. -/
def remainder? (spelling : Spelling) (token : List Char) :
    Option (List Char) :=
  (spelling.text.isPrefixOf? token).filter isExponentText

/-- The term that a token stands for, with a coefficient in front. -/
def term? (table : Symbols) (coefficient : Scientific)
    (token : List Char) : Option Term := do
  let (spelling, tail) ← table.spellings.findSome? fun spelling =>
    (remainder? spelling token).map (spelling, ·)
  let exponent ← exponentOf? tail
  return ⟨coefficient, spelling.scale, spelling.symbol, exponent⟩

/-- The number in front of a symbol: digits, with or without a point
and more digits. -/
def coefficient? (text : List Char) : Option Scientific :=
  let whole := text.takeWhile Char.isDigit
  let fraction : Option (List Char) :=
    match text.dropWhile Char.isDigit with
    | [] => some []
    | '.' :: fraction =>
      if fraction.isEmpty ∨ ¬ fraction.all Char.isDigit then none
      else some fraction
    | _ => none
  if whole.isEmpty then none
  else
    fraction.map fun fraction =>
      .ofFloat (Number.nearest (Number.ofDigits (whole ++ fraction))
        (-fraction.length))

end Symbols

end UnitAlgebra
