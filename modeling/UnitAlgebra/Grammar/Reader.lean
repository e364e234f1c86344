/-
Readers: one grammar over a symbol table, or a choice of readers tried
in turn. Whatever the grammar, a text that is not in it is reported
whole.

A reader finds terms or it does not; a grammar has no faults of its own.
So a choice need not look at why a reader has rejected a text, and after
the last one the answer is the same as that of a single reader
(`Reader.read_eq_error_iff`).

Making a reader may fail, for one of three reasons: there is no symbol
at all, there is none that takes a prefix and the grammar is the dotted
one, or there is no grammar to choose from.
-/
import UnitAlgebra.Grammar.Dotted
import UnitAlgebra.Grammar.Fraction

namespace UnitAlgebra

/-- A way to read unit expressions. -/
inductive Reader where
  | dotted (table : Symbols)
  | fraction (table : Symbols)
  /-- The first reader that accepts the text decides. -/
  | choice (readers : List Reader)

namespace Reader

/-- The dotted grammar. It needs a symbol that takes a prefix. -/
def ofDotted (prefixable standalone : List String) :
    Except Fault Reader := do
  if prefixable.all (· = "") then
    throw (.construction .noPrefixable)
  return .dotted (← Symbols.ofLists prefixable standalone)

/-- The fraction grammar. -/
def ofFraction (prefixable standalone : List String) :
    Except Fault Reader :=
  (Symbols.ofLists prefixable standalone).map .fraction

/-- A choice of at least one reader. -/
def ofReaders (readers : List Reader) : Except Fault Reader :=
  if readers.isEmpty then .error (.construction .noGrammar)
  else .ok (.choice readers)

mutual

/-- The terms that a text stands for. -/
def terms? (text : List Char) : Reader → Option (List Term)
  | dotted table => Dotted.terms? table text
  | fraction table => Fraction.terms? table text
  | choice readers => firstTerms? text readers

/-- The terms that the first accepting reader finds. -/
def firstTerms? (text : List Char) : List Reader → Option (List Term)
  | [] => none
  | reader :: readers =>
    match terms? text reader with
    | some terms => some terms
    | none => firstTerms? text readers

end

/-- The terms of a text; a text outside the grammar is a fault. -/
def read (reader : Reader) (text : String) : Except Fault (List Term) :=
  match reader.terms? text.toList with
  | some terms => .ok terms
  | none => .error (.unreadable text)

/-- Reading succeeds with the terms that are found. -/
theorem read_eq_ok_iff {reader : Reader} {text : String}
    {terms : List Term} :
    reader.read text = .ok terms ↔
      reader.terms? text.toList = some terms := by
  unfold read
  cases reader.terms? text.toList with
  | none => exact ⟨nofun, nofun⟩
  | some found => simp only [Except.ok.injEq, Option.some.injEq]

/-- Reading fails in one way only. -/
theorem read_eq_error_iff {reader : Reader} {text : String}
    {fault : Fault} :
    reader.read text = .error fault ↔
      fault = .unreadable text ∧ reader.terms? text.toList = none := by
  unfold read
  cases reader.terms? text.toList with
  | none => simp only [Except.error.injEq, and_true, eq_comm]
  | some found => exact ⟨nofun, fun h => nomatch h.2⟩

end Reader

end UnitAlgebra
