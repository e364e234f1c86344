/-
The dotted grammar: `10 km.h-1`, `kg.m.s-2`. Terms are joined by dots;
each is a token of the symbol table, with or without a number and one
space in front of it.

A dot is also the decimal point of a number, so not every dot joins. A
dot joins when what stands before it, back to the last joint, is not a
bare number, and what stands after it starts a term: a letter, or a
number, a space and a letter. In `m.2.5 s` the first dot joins and the
second does not.
-/
import UnitAlgebra.Symbols
import UnitAlgebra.Text.Alphabetic

namespace UnitAlgebra.Dotted

-- ================================================================ joints

/-- A text of digits only, and at least one. -/
def isBareNumber (text : List Char) : Bool :=
  !text.isEmpty && text.all Char.isDigit

/-- A text that starts with a letter. -/
def startsWithLetter : List Char → Bool
  | c :: _ => Text.isAlphabetic c
  | [] => false

/-- What follows a leading number: digits, and a point with more digits
if both are there. -/
def afterNumber (text : List Char) : List Char :=
  match text.dropWhile Char.isDigit with
  | '.' :: c :: rest =>
    if c.isDigit then rest.dropWhile Char.isDigit else '.' :: c :: rest
  | rest => rest

/-- Whether a text starts the way a term does. -/
def startsTerm (text : List Char) : Bool :=
  match text with
  | c :: _ =>
    if c.isDigit then
      match afterNumber text with
      | ' ' :: rest => startsWithLetter rest
      | _ => false
    else
      startsWithLetter text
  | [] => false

/-- The pieces of a text between the dots that join. `done` is the
piece under way, last character first. -/
def pieces (done : List Char) : List Char → List (List Char)
  | [] => [done.reverse]
  | c :: rest =>
    if c = '.' ∧ ¬ isBareNumber done ∧ startsTerm rest then
      done.reverse :: pieces [] rest
    else
      pieces (c :: done) rest

-- ================================================================= terms

/-- The term that a piece stands for: a token, or a number, one space
and a token. -/
def term? (table : Symbols) (piece : List Char) : Option Term :=
  match piece.dropWhile (· ≠ ' ') with
  | [] => table.term? .one piece
  | _ :: token =>
    if ' ' ∈ token then none
    else do
      let coefficient ←
        Symbols.coefficient? (piece.takeWhile (· ≠ ' '))
      table.term? coefficient token

/-- The terms that a text stands for, if all its pieces are terms. -/
def terms? (table : Symbols) (text : List Char) : Option (List Term) :=
  (pieces [] text).mapM (term? table)

end UnitAlgebra.Dotted
