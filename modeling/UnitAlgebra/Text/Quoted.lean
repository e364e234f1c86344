/-
Quoted text: how a message shows a text that came from outside. The
text stands between double quotes; a quote and a backslash take a
backslash, the line feed, carriage return, tab and null take a short
escape, and every other character that could not be seen takes its
number in hexadecimal. The apostrophe is left alone.
-/
import UnitAlgebra.Text.Invisible

namespace UnitAlgebra.Text

/-- The number of a character in lower-case hexadecimal, in braces. -/
def escapeByNumber (c : Char) : List Char :=
  '\\' :: 'u' :: '{' :: (Nat.toDigits 16 c.toNat ++ ['}'])

/-- What stands in a quoted text for one character. -/
def quoteChar (c : Char) : List Char :=
  match c with
  | '"' => ['\\', '"']
  | '\\' => ['\\', '\\']
  | '\n' => ['\\', 'n']
  | '\r' => ['\\', 'r']
  | '\t' => ['\\', 't']
  | '\x00' => ['\\', '0']
  | c => if isInvisible c then escapeByNumber c else [c]

/-- A text between double quotes. -/
def quote (s : String) : String :=
  String.ofList ('"' :: s.toList.flatMap quoteChar ++ ['"'])

end UnitAlgebra.Text
