/-
Reading a document. A document is a row of lines; a line is blank, a
comment, a header or an entry, and any of them may end in a comment. A
value may run over several lines inside an array or a long string.

Values nest, arrays and inline tables alike, up to a limit, and so do
the tables that one key may lead through.
-/
import UnitAlgebra.Toml.Growth
import UnitAlgebra.Toml.Scalar

namespace UnitAlgebra.Toml

open Text (Scan)
open Text.Scan

-- ================================================================== keys

/-- A character of a key without quotes. -/
def isKeyChar (c : Char) : Bool := c.isAlphanum || c = '-' || c = '_'

/-- One name of a key. -/
def keyName : Scan String :=
  lineString '"' <|> lineString '\'' <|> String.ofList <$> takeSome isKeyChar

/-- A key has fewer names than this, and values nest in fewer levels. -/
def depthLimit : Nat := 80

/-- A name and the blanks around it. -/
def spacedName : Scan String := do
  spaces
  let name ← keyName
  spaces
  return name

/-- A key: names joined by dots. -/
def key : Scan Path := do
  let first ← spacedName
  let path ← iterate (fun path => do
      if ← skip '.' then
        return .inl ⟨path.tables ++ [path.name], ← spacedName⟩
      else
        return .inr path)
    (⟨[], first⟩ : Path)
  guard (path.tables.length + 1 < depthLimit)
  return path

-- ================================================================ values

/-- Blanks, line ends and comments, which may stand between the items
of an array. -/
def arrayBlanks : Scan Unit :=
  iterate (fun _ => do
    let blank ← optional
      ((satisfy isSpace *> pure ()) <|> lineBreak
        <|> (comment *> lineBreak))
    return if blank.isSome then .inl () else .inr ()) ()

/-- A key, an equals sign and a value. -/
def entry (value : Scan Value) : Scan (Path × Value) := do
  let path ← key
  char '='
  spaces
  return (path, ← value)

/-- An array of values of any kinds. -/
def array (value : Scan Value) : Scan Value := do
  char '['
  return .array .inline (← listUntil ']' arrayBlanks true value)

/-- A table on one line. Its entries obey the rules of a document. -/
def inlineTable (value : Scan Value) : Scan Value := do
  char '{'
  let entries ← listUntil '}' spaces false (entry value)
  let table? := entries.foldlM
    (fun table (path, value) => assign path value .header table) []
  match table? with
  | some table => return .table .inline table
  | none => failure

/-- A value with no more than so many levels inside it. -/
def value : Nat → Scan Value
  | 0 => scalar
  | levels + 1 =>
    scalar <|> array (value levels) <|> inlineTable (value levels)

-- ================================================================= lines

/-- The end of a statement: blanks, perhaps a comment, and the end of
the line or of the document. -/
def statementEnd : Scan Unit := do
  spaces
  let _ ← optional comment
  lineBreak <|> atEnd

/-- A statement, up to the end of its line. -/
def statement : Scan Statement := do
  let statement ←
    if ← skip '[' then
      if ← skip '[' then
        let path ← key
        char ']'
        char ']'
        pure (.element path)
      else
        let path ← key
        char ']'
        pure (.header path)
    else
      let (path, value) ← entry (value (depthLimit - 1))
      pure (.entry path value)
  statementEnd
  return statement

/-- A line that states nothing. -/
def emptyLine : Scan Unit :=
  lineBreak <|> do
    comment
    lineBreak <|> atEnd

/-- The statements of a document. -/
def statements : Scan (List Statement) := do
  let _ ← optional (char '\ufeff')
  iterate (fun read => do
    spaces
    match ← peek? with
    | none => return .inr read.reverse
    | some _ =>
      (do emptyLine; return .inl read)
        <|> (do return .inl ((← statement) :: read))) []

/-- The root table of a document, if the text is one. -/
def read? (text : String) : Option Entries := do
  ofStatements? (← readAll? statements text)

end UnitAlgebra.Toml
