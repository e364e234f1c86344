/-
The tokens of the fraction grammar. A word is a symbol with an optional
exponent, and with a number in front of it when blanks stand between
the two; the number belongs to the word. A `1` that is not the number
of a word is the one of `1/s`. Parentheses and the slash stand for
themselves, and blanks between tokens are dropped.

Only ASCII letters make up a symbol here, while a blank is any
character of the property White_Space.
-/
import UnitAlgebra.Text.Blank

namespace UnitAlgebra

/-- A token of the fraction grammar. -/
inductive Token where
  /-- A symbol with its exponent, and the number in front of it. -/
  | word (number : Option (List Char)) (symbol : List Char)
  | opening
  | closing
  | one
  | slash
deriving DecidableEq

namespace Token

-- ======================================================= parts of a word

/-- The exponent text at the start of a text, which may be empty: a
minus sign counts only in front of a digit. -/
def exponentText : List Char → List Char
  | '-' :: rest =>
    match rest.takeWhile Char.isDigit with
    | [] => []
    | digits => '-' :: digits
  | rest => rest.takeWhile Char.isDigit

/-- The symbol with its exponent at the start of a text; empty when the
text does not start with a letter. -/
def symbolText (text : List Char) : List Char :=
  match text.takeWhile Char.isAlpha with
  | [] => []
  | letters => letters ++ exponentText (text.dropWhile Char.isAlpha)

/-- The decimals at the start of a text, which may be empty: a point
counts only in front of a digit. -/
def fractionText : List Char → List Char
  | '.' :: rest =>
    match rest.takeWhile Char.isDigit with
    | [] => []
    | digits => '.' :: digits
  | _ => []

/-- The number at the start of a text, with its decimals; empty when no
digit comes first. -/
def numberText (text : List Char) : List Char :=
  match text.takeWhile Char.isDigit with
  | [] => []
  | whole => whole ++ fractionText (text.dropWhile Char.isDigit)

/-- The number, the blanks after it and the symbol of a word that
starts with a number; none of the three may be missing. -/
def numberedWord? (text : List Char) :
    Option (List Char × List Char × List Char) :=
  let number := numberText text
  let rest := text.drop number.length
  let blanks := rest.takeWhile Text.isBlank
  let symbol := symbolText (rest.drop blanks.length)
  if number.isEmpty ∨ blanks.isEmpty ∨ symbol.isEmpty then none
  else some (number, blanks, symbol)

-- ============================================================== the lexer

/-- What starts a text: blanks or a token, and how many characters it
takes; none at the start of what is no token. -/
def next? (text : List Char) : Option (Option Token × Nat) :=
  match symbolText text with
  | c :: symbol => some (some (.word none (c :: symbol)), symbol.length + 1)
  | [] =>
    match numberedWord? text with
    | some (number, blanks, symbol) =>
      some (some (.word (some number) symbol),
        number.length + blanks.length + symbol.length)
    | none =>
      match text with
      | '(' :: _ => some (some .opening, 1)
      | ')' :: _ => some (some .closing, 1)
      | '1' :: _ => some (some .one, 1)
      | '/' :: _ => some (some .slash, 1)
      | _ =>
        let blanks := text.takeWhile Text.isBlank
        if blanks.isEmpty then none else some (none, blanks.length)

/-- Whatever starts a text takes at least one character of it. -/
theorem next?_pos {text : List Char} {token : Option Token} {n : Nat}
    (h : next? text = some (token, n)) : 0 < n := by
  unfold next? at h
  split at h
  · cases h
    omega
  · split at h
    · next number blanks symbol hword =>
      cases h
      unfold numberedWord? at hword
      simp only at hword
      split at hword
      · cases hword
      · next hparts =>
        cases hword
        have hnumber : numberText text ≠ [] := by
          intro hempty
          exact hparts (.inl (by rw [hempty]; rfl))
        have := List.length_pos_iff.2 hnumber
        omega
    · split at h
      case h_5 =>
        simp only at h
        split at h
        · cases h
        · next hblanks =>
          cases h
          exact List.length_pos_iff.2 (mt List.isEmpty_iff.2 hblanks)
      all_goals
        cases h
        omega

/-- The tokens of a text, if it is made up of tokens and blanks. -/
def all? (text : List Char) : Option (List Token) :=
  match text with
  | [] => some []
  | c :: rest =>
    match _h : next? (c :: rest) with
    | none => none
    | some (token, n) =>
      (all? ((c :: rest).drop n)).map (token.toList ++ ·)
termination_by text.length
decreasing_by
  have hpos := next?_pos _h
  simp only [List.length_drop, List.length_cons]
  omega

end Token

end UnitAlgebra
