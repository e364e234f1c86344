/-
The fraction grammar: `kg m / s2`, `m / (s s)`, `1/min`, `km/h/s`. A
text is a row of items: a word, words in parentheses, or one of the
two after a slash, which turns the exponents over. A slash may have a
`1` in front of it, so that `1/s` reads as one over a second.

Reading goes in rounds. A round takes what stands above a slash, then
the slash with what stands below it, then the words that follow; each
of the three may be missing. A round that takes nothing although tokens
are left has met one that stands where it cannot, such as a closing
parenthesis, and reading fails; so it always ends.
-/
import UnitAlgebra.Grammar.Token
import UnitAlgebra.Symbols

namespace UnitAlgebra.Fraction

variable (table : Symbols)

/-- The term of a word. -/
def term? (number : Option (List Char)) (symbol : List Char) :
    Option Term :=
  match number with
  | none => table.term? .one symbol
  | some number => do
    let coefficient ← Symbols.coefficient? number
    table.term? coefficient symbol

-- ================================================================= parts

/-- The terms of the words that come first, and the tokens after
them. -/
def words? : List Token → Option (List Term × List Token)
  | .word number symbol :: rest => do
    let term ← term? table number symbol
    let (terms, rest) ← words? rest
    return (term :: terms, rest)
  | rest => some ([], rest)

/-- The terms of words in parentheses, and the tokens after them. -/
def parentheses? : List Token → Option (List Term × List Token)
  | .opening :: rest => do
    let (terms, rest) ← words? table rest
    match rest with
    | .closing :: rest => return (terms, rest)
    | _ => none
  | _ => none

/-- What stands above a slash: a `1`, which only a slash may follow, or
words and after them perhaps more of them in parentheses. -/
def above? : List Token → Option (List Term × List Token)
  | .one :: .slash :: rest => some ([], .slash :: rest)
  | .one :: _ => none
  | tokens => do
    let (terms, rest) ← words? table tokens
    match rest with
    | .opening :: _ =>
      let (inside, rest) ← parentheses? table rest
      return (terms ++ inside, rest)
    | _ => return (terms, rest)

/-- What stands below a slash: one word, or words in parentheses. -/
def denominator? : List Token → Option (List Term × List Token)
  | .word number symbol :: rest => do
    let term ← term? table number symbol
    return ([term], rest)
  | tokens => parentheses? table tokens

/-- A slash, if there is one, and what stands below it, turned over. -/
def below? : List Token → Option (List Term × List Token)
  | .slash :: rest => do
    let (terms, rest) ← denominator? table rest
    return (← terms.mapM Term.inverse?, rest)
  | rest => some ([], rest)

-- ================================================================ rounds

/-- One round: above a slash, below it, and words. -/
def round? (tokens : List Token) : Option (List Term × List Token) := do
  let (top, rest) ← above? table tokens
  let (bottom, rest) ← below? table rest
  let (more, rest) ← words? table rest
  return (top ++ bottom ++ more, rest)

/-- Rounds up to the last token. -/
def rounds? (tokens : List Token) : Option (List Term) :=
  match round? table tokens with
  | none => none
  | some (terms, rest) =>
    if rest.isEmpty then some terms
    else if rest.length < tokens.length then
      (rounds? rest).map (terms ++ ·)
    else
      none
termination_by tokens.length

/-- The terms that a text stands for. -/
def terms? (text : List Char) : Option (List Term) := do
  let tokens ← Token.all? text
  rounds? table tokens

end UnitAlgebra.Fraction
