/-
Scans: reading a text from the front. A scan fails or gives a value
and the text that is left. The formats read here are such that the
next characters always tell what comes, so a failed scan may simply be
followed by another attempt at the same place.

Recursion in a scan is of two kinds. `iterate` repeats a step and
insists that every step that goes on has read something, so it ends
with the text. Nesting is bounded by a number of levels, which each
format chooses for itself.
-/
namespace UnitAlgebra.Text

/-- Reading a value from the front of a text. -/
abbrev Scan : Type → Type := StateT (List Char) Option

namespace Scan

variable {α σ : Type}

/-- The next character, which stays in the text; nothing at its end. -/
def peek? : Scan (Option Char) := do return (← get).head?

/-- A character with a property. -/
def satisfy (p : Char → Bool) : Scan Char := fun text =>
  match text with
  | c :: rest => if p c then some (c, rest) else none
  | [] => none

/-- This character. -/
def char (c : Char) : Scan Unit := do
  let _ ← satisfy (· = c)

/-- These characters. -/
def word (w : String) : Scan Unit := w.toList.forM char

/-- As many characters with a property as there are. -/
def takeWhile (p : Char → Bool) : Scan (List Char) := fun text =>
  some (text.span p)

/-- At least one character with a property. -/
def takeSome (p : Char → Bool) : Scan (List Char) := do
  let taken ← takeWhile p
  guard (taken ≠ [])
  return taken

/-- A fixed number of characters with a property. -/
def takeExactly (p : Char → Bool) : Nat → Scan (List Char)
  | 0 => return []
  | n + 1 => do return (← satisfy p) :: (← takeExactly p n)

/-- Whether this character comes next; it is then read. -/
def skip (c : Char) : Scan Bool := do
  return (← optional (char c)).isSome

/-- The end of the text. -/
def atEnd : Scan Unit := do
  guard (← get).isEmpty

/-- A step that goes on to a state or stops at a value, repeated until
it stops. A step that goes on without reading anything fails. -/
def iterate (step : σ → Scan (σ ⊕ α)) (state : σ) : Scan α := fun text =>
  match step state text with
  | none => none
  | some (.inr value, rest) => some (value, rest)
  | some (.inl state, rest) =>
    if rest.length < text.length then iterate step state rest else none
termination_by text => text.length

/-- Items up to a closing character, with a comma between each two of
them and blanks around each. Only a format that is `trailing` lets a
comma stand after the last item. -/
def listUntil (closing : Char) (blanks : Scan Unit) (trailing : Bool)
    (item : Scan α) : Scan (List α) := do
  blanks
  if ← skip closing then
    return []
  iterate (nextItem closing blanks trailing item) []
where
  nextItem (closing : Char) (blanks : Scan Unit) (trailing : Bool)
      (item : Scan α) (items : List α) : Scan (List α ⊕ List α) := do
    let items := (← item) :: items
    blanks
    if ← skip ',' then
      blanks
      if trailing then
        if ← skip closing then
          return .inr items.reverse
      return .inl items
    else
      char closing
      return .inr items.reverse

/-- The value that a whole text stands for. -/
def readAll? (scan : Scan α) (text : String) : Option α :=
  (do let value ← scan; atEnd; return value : Scan α).run' text.toList

end Scan

end UnitAlgebra.Text
