/-
What can go wrong, by cause. A fault says what happened and to what;
its wording is chosen in one place, `Fault.message`. Names and texts
that came from outside are shown quoted, whole units as they are
written.
-/
import UnitAlgebra.Text.Quoted

namespace UnitAlgebra

-- ================================================================ causes

/-- Why a table, a grammar or a unit could not be built. -/
inductive Construction where
  /-- A grammar over no symbols at all. -/
  | noSymbol
  /-- A dotted grammar without any unit that takes a prefix. -/
  | noPrefixable
  /-- A choice between no grammars. -/
  | noGrammar
  /-- A table without base units. -/
  | noBase
  /-- A base unit that is also given a definition. -/
  | baseAndDerived (name : String)
  /-- A definition whose ratio is zero. -/
  | zeroRatio (name : String)
  /-- A second definition of one unit. -/
  | definedTwice (name : String)
  /-- A definition that refers to a unit nobody defines. -/
  | unknownTarget (name target : String)
  /-- A definition that leads back to itself. -/
  | cycle (name : String)
  /-- A unit to be expanded that has no definition. -/
  | noDefinition (name : String)
  /-- A target that has no entry although it was expanded. -/
  | noEntry (name : String)
  /-- A definition whose base exponents leave the range. -/
  | overflow (name : String)
  /-- A base form that lists one base unit twice. -/
  | repeatedBase (name : String)
deriving DecidableEq

/-- How an operation was given something it does not take. -/
inductive Breach where
  /-- A unit without a base form, where one is needed. -/
  | unreduced (unit : String)
  /-- A conversion that would send everything to zero. -/
  | zeroConversion
  /-- A product of units with an exponent out of range. -/
  | productOverflow (left right : String)
  /-- An inverse with an exponent out of range. -/
  | inverseOverflow (unit : String)
deriving DecidableEq

/-- Everything an operation on units can fail with. -/
inductive Fault where
  /-- A text that is no unit expression. -/
  | unreadable (text : String)
  /-- A symbol that could not be reduced to base units. -/
  | irreducible (symbol : String)
  /-- Units whose dimensions are neither equal nor reciprocal. -/
  | incompatible (source target : String)
  | divisionByZero
  | construction (cause : Construction)
  | breach (cause : Breach)
deriving DecidableEq

-- =============================================================== wording

open Text (quote)

/-- What a message says about a failed construction. -/
def Construction.message : Construction → String
  | noSymbol => "at least one unit symbol must be known"
  | noPrefixable => "at least one SI unit must be defined"
  | noGrammar => "a parser chain needs at least one parser"
  | noBase => "at least one base unit must be defined"
  | baseAndDerived name =>
    quote name ++ " is both a base unit and a derived unit"
  | zeroRatio name => "transition ratio of " ++ quote name ++ " is zero"
  | definedTwice name =>
    "derived unit " ++ quote name ++ " is defined more than once"
  | unknownTarget name target =>
    "transition of " ++ quote name ++ " refers to unknown unit "
      ++ quote target
  | cycle name => "unit transitions form a cycle through " ++ quote name
  | noDefinition name => "no transition known for " ++ quote name
  | noEntry name => quote name ++ " was not resolved"
  | overflow name =>
    "exponent overflow in the transition of " ++ quote name
  | repeatedBase name =>
    "normalized component " ++ quote name ++ " appears more than once"

/-- What a message says about a breach. -/
def Breach.message : Breach → String
  | unreduced unit => "unit [" ++ unit ++ "] has no normalized form"
  | zeroConversion => "a conversion ratio cannot be zero"
  | productOverflow left right =>
    "exponent overflow in [" ++ left ++ "] times [" ++ right ++ "]"
  | inverseOverflow unit => "exponent overflow inverting [" ++ unit ++ "]"

/-- The message of a fault. -/
def Fault.message : Fault → String
  | unreadable text => "Cannot parse unit expression: " ++ quote text
  | irreducible symbol =>
    "No normalization known for unit: " ++ quote symbol
  | incompatible source target =>
    "Cannot convert [" ++ source ++ "] into [" ++ target ++ "]"
  | divisionByZero => "Division by zero"
  | construction cause => "Construction error: " ++ cause.message
  | breach cause => "Contract violation: " ++ cause.message

end UnitAlgebra
