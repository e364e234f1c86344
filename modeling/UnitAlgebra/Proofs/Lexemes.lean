/-
Lexemes: what the tokens of the fraction grammar are, said by one
pattern instead of a scanner. A text is made up of tokens when it is
empty, or the pattern matches at its start and what the match leaves is
made up of tokens again (`Token.Lexes`). Of the ways to match, the
preferred one counts: a word before a parenthesis, a blank, a `1` or a
slash, a number in front of a word before none, and every run as long
as it can be. So `1 m` is one word and no `1`, while `1/m` has a `1`.

# The scanner against the pattern

The scanner finds exactly these tokens (`Token.all?_eq_some_iff`). It
never tries a second way, and need not: digits are followed by no digit
of another run, blanks by no blank, and letters by what may be missing,
so at every place the longest run is the only one to be considered. The
parts of a word are compared from right to left, an exponent, a symbol
and a number in front of both (`first?_exponent`, `first?_symbol`,
`first?_number`), each in front of whatever the parts behind it start
with.

# Pieces of a text

What the tokens of a longer text are can be told piece by piece where a
piece ends in front of a character of its own, such as a slash
(`Token.Stops`, `Lexes.append`). And every word among the tokens is one
that a symbol table may be asked for (`Lexes.exists_word`), so that the
grammar above speaks of words and no more of characters.
-/
import UnitAlgebra.Grammar.Token
import UnitAlgebra.Proofs.Words
import UnitAlgebra.Text.Pattern

namespace UnitAlgebra

namespace Text

-- ========================================================== characters

theorem toNat_lt_of_isAlpha {c : Char} (h : c.isAlpha = true) :
    c.toNat < 128 := by
  unfold Char.isAlpha Char.isUpper Char.isLower at h
  simp only [Bool.or_eq_true, Bool.and_eq_true, decide_eq_true_iff] at h
  rcases h with ⟨-, hhigh⟩ | ⟨-, hhigh⟩
  · exact lt_of_le_of_lt (UInt32.le_iff_toNat_le.1 hhigh) (by decide)
  · exact lt_of_le_of_lt (UInt32.le_iff_toNat_le.1 hhigh) (by decide)

/-- The letters of the fraction grammar are letters. -/
theorem isAlphabetic_of_isAlpha {c : Char} (h : c.isAlpha = true) :
    isAlphabetic c = true := by
  unfold isAlphabetic
  rw [if_pos (toNat_lt_of_isAlpha h), h]

/-- Between the space and the second block of marks nothing is blank. -/
theorem isBlank_eq_false_of_printable {c : Char} (hlow : 33 ≤ c.toNat)
    (hhigh : c.toNat < 128) : isBlank c = false := by
  have houtside : ∀ r ∈ blankRanges, r.2 < 33 ∨ 128 ≤ r.1 := by decide
  refine List.any_eq_false.2 fun r hr => ?_
  rw [Bool.and_eq_true, decide_eq_true_iff, decide_eq_true_iff]
  have := houtside r hr
  omega

/-- Digits are not blank, and letters are not; so the parts of a word
can be told apart by one character. -/
theorem isBlank_eq_false_of_isDigit {c : Char} (h : c.isDigit = true) :
    isBlank c = false := by
  have hhigh := toNat_lt_of_isDigit h
  unfold Char.isDigit at h
  simp only [Bool.and_eq_true, decide_eq_true_iff] at h
  exact isBlank_eq_false_of_printable
    (le_trans (by decide) (UInt32.le_iff_toNat_le.1 h.1)) (by omega)

theorem isBlank_eq_false_of_isAlpha {c : Char} (h : c.isAlpha = true) :
    isBlank c = false := by
  have hlow := le_toNat_of_isAlphabetic (isAlphabetic_of_isAlpha h)
  exact isBlank_eq_false_of_printable (by omega) (toNat_lt_of_isAlpha h)

end Text

/-- The token of a word. -/
def Word.lexeme (w : Word) : Token :=
  .word (w.number.map Text.Numeral.text) w.token

namespace Token

open Text (Pattern Match isBlank)

-- ============================================================ the pattern

/-- The parts of the pattern that say what a match is. -/
inductive Part where
  | word
  | opening
  | closing
  | blanks
  | one
  | slash

/-- Digits behind a point. -/
def fractionPattern : Pattern Part :=
  .seq (.char (· = '.')) (.run Char.isDigit)

/-- Digits, and perhaps a point with more digits. -/
def numberPattern : Pattern Part :=
  .seq (.run Char.isDigit) (.maybe fractionPattern)

/-- Digits, perhaps with a minus sign in front. -/
def exponentPattern : Pattern Part :=
  .seq (.maybe (.char (· = '-'))) (.run Char.isDigit)

/-- Letters, and perhaps an exponent. -/
def symbolPattern : Pattern Part :=
  .seq (.run Char.isAlpha) (.maybe exponentPattern)

/-- A symbol, and perhaps a number and blanks in front of it. -/
def wordPattern : Pattern Part :=
  .seq (.maybe (.seq numberPattern (.run isBlank))) symbolPattern

/-- What a text of tokens starts with. -/
def pattern : Pattern Part :=
  .choice (.named .word wordPattern)
  <| .choice (.named .opening (.char (· = '(')))
  <| .choice (.named .closing (.char (· = ')')))
  <| .choice (.named .blanks (.run isBlank))
  <| .choice (.named .one (.char (· = '1')))
  <| .named .slash (.char (· = '/'))

/-- The word of a text: what stands in front of its blanks is the
number, if there are any blanks. -/
def ofWord (text : List Char) : Token :=
  let first := text.takeWhile fun c => !isBlank c
  let rest := text.dropWhile fun c => !isBlank c
  match rest.dropWhile isBlank with
  | [] => .word none first
  | symbol => .word (some first) symbol

/-- The token that a match stands for; none for blanks. -/
def ofMatch (m : Match Part) : Option Token :=
  match m.parts with
  | (.word, text) :: _ => some (ofWord text)
  | (.opening, _) :: _ => some .opening
  | (.closing, _) :: _ => some .closing
  | (.one, _) :: _ => some .one
  | (.slash, _) :: _ => some .slash
  | (.blanks, _) :: _ => none
  | [] => none

/-- A text is made up of tokens and blanks. -/
inductive Lexes : List Char → List Token → Prop where
  | nil : Lexes [] []
  | cons {text : List Char} {m : Match Part} {tokens : List Token} :
      text ≠ [] → pattern.first? text = some m → Lexes m.rest tokens →
        Lexes text ((ofMatch m).toList ++ tokens)

-- ================================================================ symbols

/-- An exponent is taken if there is one, and all of it. -/
theorem first?_exponent (text : List Char) :
    (Pattern.maybe exponentPattern).first? text
      = some (.upTo text (exponentText text)) := by
  rw [Pattern.first?_maybe]
  unfold exponentPattern Pattern.first?
  rw [Pattern.ways_seq_maybe, List.head?_append]
  cases text with
  | nil => rfl
  | cons c rest =>
    rw [Pattern.ways_seq_char]
    simp only [Pattern.ways_run]
    rw [Pattern.head?_runs]
    by_cases hc : c = '-'
    · subst hc
      rw [if_pos (decide_eq_true rfl), List.head?_map, Pattern.head?_runs]
      -- behind a minus sign the way without one has no digit to take
      have hminus : ('-' :: rest).takeWhile Char.isDigit = [] :=
        List.takeWhile_cons_of_neg (by decide)
      rw [hminus]
      unfold exponentText
      cases hdigits : rest.takeWhile Char.isDigit with
      | nil =>
        simp only [hdigits]
        rfl
      | cons d digits =>
        simp only [hdigits]
        rfl
    · rw [if_neg (by simpa using hc)]
      have htext : exponentText (c :: rest)
          = (c :: rest).takeWhile Char.isDigit := by
        unfold exponentText
        split
        · next heq => exact absurd (List.cons_eq_cons.1 heq).1 hc
        · rfl
      rw [htext]
      cases (c :: rest).takeWhile Char.isDigit with
      | nil => rfl
      | cons d digits => rfl

/-- A symbol is read with all its letters and its exponent. -/
theorem first?_symbol (text : List Char) :
    symbolPattern.first? text =
      if (symbolText text).isEmpty then none
      else some (.upTo text (symbolText text)) := by
  unfold symbolPattern
  rw [Pattern.first?_seq (fun text => by simp [Pattern.ways]),
    Pattern.first?_run]
  have hrest := Pattern.drop_length_takeWhile Char.isAlpha text
  unfold symbolText
  cases hletters : text.takeWhile Char.isAlpha with
  | nil => rfl
  | cons c letters =>
    rw [hletters] at hrest
    rw [if_neg (by simp), if_neg (by simp), Option.bind_some]
    show ((Pattern.maybe exponentPattern).first?
      (text.drop (c :: letters).length)).map _ = _
    rw [first?_exponent, Option.map_some, Match.upTo_append_upTo, hrest]

-- ================================================================ numbers

section Numbers

variable {second : Pattern Part}

/-- Decimals are read if there are any, and all of them, in front of
what goes on with neither a digit nor a point. -/
theorem first?_fraction
    (hdigit : ∀ c rest, c.isDigit = true → second.ways (c :: rest) = [])
    (hpoint : ∀ rest, second.ways ('.' :: rest) = [])
    (text : List Char) :
    (Pattern.seq (.maybe fractionPattern) second).first? text
      = (second.first? (text.drop (fractionText text).length)).map
          (Match.append (.upTo text (fractionText text))) := by
  unfold Pattern.first? fractionPattern
  rw [Pattern.ways_seq_maybe, Pattern.ways_seq_assoc]
  have hnone (htext : fractionText text = []) :
      (second.ways text).head?
        = ((second.ways (text.drop (fractionText text).length)).head?).map
            (Match.append (.upTo text (fractionText text))) := by
    rw [htext, List.length_nil, List.drop_zero]
    cases (second.ways text).head? <;> rfl
  cases text with
  | nil => exact hnone rfl
  | cons c rest =>
    rw [Pattern.ways_seq_char]
    by_cases hc : c = '.'
    · subst hc
      rw [if_pos (decide_eq_true rfl), Pattern.ways_seq_run hdigit]
      cases hdigits : rest.takeWhile Char.isDigit with
      | nil =>
        have htext : fractionText ('.' :: rest) = [] := by
          simp only [fractionText, hdigits]
        -- a point without digits is no decimals, and is left where it
        -- is
        exact hnone htext
      | cons d digits =>
        have htext : fractionText ('.' :: rest) = '.' :: d :: digits := by
          simp only [fractionText, hdigits]
        have hdrop : ('.' :: rest).drop ('.' :: d :: digits).length
            = rest.dropWhile Char.isDigit :=
          hdigits ▸ Pattern.drop_length_takeWhile Char.isDigit rest
        rw [htext, hdrop, hpoint, if_neg (by simp), List.append_nil,
          List.map_map, List.head?_map]
        refine congrArg (Option.map · _) (funext fun m => ?_)
        exact (Match.append_assoc _ _ m).symm
    · rw [if_neg (by simpa using hc)]
      refine hnone ?_
      unfold fractionText
      split
      · next heq => exact absurd (List.cons_eq_cons.1 heq).1 hc
      · rfl

/-- A number is read with all its digits, in front of what goes on with
neither a digit nor a point. -/
theorem first?_number
    (hdigit : ∀ c rest, c.isDigit = true → second.ways (c :: rest) = [])
    (hpoint : ∀ rest, second.ways ('.' :: rest) = [])
    (text : List Char) :
    (Pattern.seq numberPattern second).first? text =
      if (numberText text).isEmpty then none
      else (second.first? (text.drop (numberText text).length)).map
        (Match.append (.upTo text (numberText text))) := by
  have hbehind (c : Char) (rest : List Char) (hc : c.isDigit = true) :
      (Pattern.seq (.maybe fractionPattern) second).ways (c :: rest)
        = [] := by
    have hne : ¬ decide (c = '.') = true := by
      rw [decide_eq_true_iff]
      rintro rfl
      exact absurd hc (by decide)
    rw [Pattern.ways_seq_maybe, hdigit c rest hc, List.append_nil]
    unfold fractionPattern
    rw [Pattern.ways_seq_assoc, Pattern.ways_seq_char, if_neg hne]
  unfold numberPattern
  rw [Pattern.first?_seq_assoc, Pattern.first?_seq_run hbehind]
  have hdrop := Pattern.drop_length_takeWhile Char.isDigit text
  unfold numberText
  cases hwhole : text.takeWhile Char.isDigit with
  | nil => rfl
  | cons d whole =>
    rw [hwhole] at hdrop
    rw [if_neg (by simp), if_neg (by simp), ← hdrop,
      first?_fraction hdigit hpoint, Option.map_map, List.drop_drop,
      ← List.length_append, ← Match.upTo_append_upTo]
    refine congrArg (Option.map · _) (funext fun m => ?_)
    exact (Match.append_assoc _ _ m).symm

end Numbers

-- ================================================================== words

/-- A symbol does not start with anything but a letter. -/
theorem ways_symbol_of_not_isAlpha {c : Char} (h : ¬ c.isAlpha = true)
    (rest : List Char) : symbolPattern.ways (c :: rest) = [] := by
  unfold symbolPattern
  rw [Pattern.ways, Pattern.ways_run, Pattern.runs, if_neg h]
  rfl

/-- Blanks are not there unless the first character is one. -/
theorem ways_blanks_of_not_isBlank {c : Char} (h : ¬ isBlank c = true)
    (second : Pattern Part) (rest : List Char) :
    (Pattern.seq (.run isBlank) second).ways (c :: rest) = [] := by
  rw [Pattern.ways, Pattern.ways_run, Pattern.runs, if_neg h]
  rfl

/-- A number, blanks and a symbol are read as the scanner reads
them. -/
theorem first?_numbered (text : List Char) :
    (Pattern.seq (.seq numberPattern (.run isBlank)) symbolPattern).first?
        text
      = (numberedWord? text).map fun word =>
          .upTo text (word.1 ++ word.2.1 ++ word.2.2) := by
  have hdigit (c : Char) (rest : List Char) (hc : c.isDigit = true) :
      (Pattern.seq (.run isBlank) symbolPattern).ways (c :: rest)
        = [] := by
    refine ways_blanks_of_not_isBlank ?_ symbolPattern rest
    rw [Text.isBlank_eq_false_of_isDigit hc]
    exact Bool.false_ne_true
  have hblank (c : Char) (rest : List Char) (hc : isBlank c = true) :
      symbolPattern.ways (c :: rest) = [] := by
    refine ways_symbol_of_not_isAlpha (fun halpha => ?_) rest
    rw [Text.isBlank_eq_false_of_isAlpha halpha] at hc
    cases hc
  -- each part ends where the next one could not have begun
  rw [Pattern.first?_seq_assoc, first?_number hdigit
    (ways_blanks_of_not_isBlank (by decide) symbolPattern),
    Pattern.first?_seq_run hblank, first?_symbol,
    ← Pattern.drop_length_takeWhile]
  unfold numberedWord?
  simp only
  by_cases hnumber : (numberText text).isEmpty = true
  · rw [if_pos hnumber, if_pos (.inl hnumber)]
    rfl
  · rw [if_neg hnumber]
    split
    · next hblanks =>
      rw [if_pos (.inr (.inl hblanks))]
      rfl
    · next hblanks =>
      split
      · next hsymbol =>
        rw [if_pos (.inr (.inr hsymbol))]
        rfl
      · next hsymbol =>
        rw [if_neg (by
          rintro (h | h | h)
          · exact hnumber h
          · exact hblanks h
          · exact hsymbol h)]
        simp only [Option.map_some, Match.upTo_append_upTo,
          List.append_assoc]

/-- A symbol starts with a letter. -/
theorem numberText_eq_nil_of_symbolText {text : List Char}
    (h : symbolText text ≠ []) : numberText text = [] := by
  cases text with
  | nil => rfl
  | cons c rest =>
    have halpha : c.isAlpha = true := by
      by_contra hc
      refine h ?_
      unfold symbolText
      rw [List.takeWhile_cons_of_neg hc]
    have hdigit : ¬ c.isDigit = true := by
      rw [Text.not_isDigit_of_isAlphabetic
        (Text.isAlphabetic_of_isAlpha halpha)]
      exact Bool.false_ne_true
    unfold numberText
    rw [List.takeWhile_cons_of_neg hdigit]

/-- The words of the pattern are those of the scanner. -/
theorem first?_word (text : List Char) :
    wordPattern.first? text =
      ((numberedWord? text).map fun word =>
          .upTo text (word.1 ++ word.2.1 ++ word.2.2)).or
        (if (symbolText text).isEmpty then none
        else some (.upTo text (symbolText text))) := by
  unfold wordPattern
  rw [Pattern.first?_seq_maybe, first?_numbered, first?_symbol]

-- ============================================================ the scanner

theorem isBlank_eq_false_of_mem_fractionText {text : List Char}
    {c : Char} (h : c ∈ fractionText text) : isBlank c = false := by
  unfold fractionText at h
  split at h
  · split at h
    · cases h
    · rcases List.mem_cons.1 h with rfl | h
      · decide
      · exact Text.isBlank_eq_false_of_isDigit (List.mem_takeWhile_imp h)
  · cases h

/-- Nothing in a number is blank. -/
theorem isBlank_eq_false_of_mem_numberText {text : List Char} {c : Char}
    (h : c ∈ numberText text) : isBlank c = false := by
  unfold numberText at h
  split at h
  · cases h
  · rcases List.mem_append.1 h with h | h
    · exact Text.isBlank_eq_false_of_isDigit (List.mem_takeWhile_imp h)
    · exact isBlank_eq_false_of_mem_fractionText h

theorem isBlank_eq_false_of_mem_exponentText {text : List Char}
    {c : Char} (h : c ∈ exponentText text) : isBlank c = false := by
  unfold exponentText at h
  split at h
  · split at h
    · cases h
    · rcases List.mem_cons.1 h with rfl | h
      · decide
      · exact Text.isBlank_eq_false_of_isDigit (List.mem_takeWhile_imp h)
  · exact Text.isBlank_eq_false_of_isDigit (List.mem_takeWhile_imp h)

/-- Nothing in a symbol is blank, its exponent included. -/
theorem isBlank_eq_false_of_mem_symbolText {text : List Char} {c : Char}
    (h : c ∈ symbolText text) : isBlank c = false := by
  unfold symbolText at h
  split at h
  · cases h
  · rcases List.mem_append.1 h with h | h
    · exact Text.isBlank_eq_false_of_isAlpha (List.mem_takeWhile_imp h)
    · exact isBlank_eq_false_of_mem_exponentText h

/-- What is read as a number, blanks and a symbol: three parts, of which
only the middle one is blank. A match of the pattern is cut at these. -/
theorem parts_of_numberedWord? {text number blanks symbol : List Char}
    (h : numberedWord? text = some (number, blanks, symbol)) :
    number ≠ [] ∧ number = numberText text ∧ blanks ≠ [] ∧ symbol ≠ []
      ∧ (∀ c ∈ number, isBlank c = false)
      ∧ (∀ c ∈ blanks, isBlank c = true)
      ∧ ∀ c ∈ symbol, isBlank c = false := by
  unfold numberedWord? at h
  simp only at h
  split at h
  · cases h
  · next hparts =>
    cases h
    rw [not_or, not_or, List.isEmpty_iff, List.isEmpty_iff,
      List.isEmpty_iff] at hparts
    exact ⟨hparts.1, rfl, hparts.2.1, hparts.2.2,
      fun c hc => isBlank_eq_false_of_mem_numberText hc,
      fun c hc => List.mem_takeWhile_imp hc,
      fun c hc => isBlank_eq_false_of_mem_symbolText hc⟩

/-- Without blanks a word has no number. -/
theorem ofWord_of_forall {symbol : List Char}
    (hsymbol : ∀ c ∈ symbol, isBlank c = false) :
    ofWord symbol = .word none symbol := by
  have hnone : ∀ c ∈ symbol, (!isBlank c) = true :=
    fun c hc => (hsymbol c hc).symm ▸ rfl
  have hfirst := Text.takeWhile_append_stop hnone [] rfl
  have hrest := Text.dropWhile_append_stop hnone [] rfl
  rw [List.append_nil] at hfirst hrest
  unfold ofWord
  simp only [hfirst, hrest]
  rfl

/-- A word is cut at its blanks. -/
theorem ofWord_append {number blanks symbol : List Char}
    (hblanks : blanks ≠ []) (hsymbol : symbol ≠ [])
    (hnumber : ∀ c ∈ number, isBlank c = false)
    (hblank : ∀ c ∈ blanks, isBlank c = true)
    (hnone : ∀ c ∈ symbol, isBlank c = false) :
    ofWord (number ++ blanks ++ symbol) = .word (some number) symbol := by
  obtain ⟨b, more, rfl⟩ := List.exists_cons_of_ne_nil hblanks
  obtain ⟨c, letters, rfl⟩ := List.exists_cons_of_ne_nil hsymbol
  have hnumber : ∀ c ∈ number, (!isBlank c) = true :=
    fun c hc => (hnumber c hc).symm ▸ rfl
  have hstop : ((b :: more) ++ (c :: letters)).takeWhile
      (fun c => !isBlank c) = [] := by
    refine List.takeWhile_cons_of_neg ?_
    rw [hblank b List.mem_cons_self]
    exact Bool.false_ne_true
  have hbehind : ((b :: more) ++ (c :: letters)).dropWhile isBlank
      = c :: letters := by
    refine Text.dropWhile_append_stop hblank _ ?_
    refine List.takeWhile_cons_of_neg ?_
    rw [hnone c List.mem_cons_self]
    exact Bool.false_ne_true
  rw [List.append_assoc]
  unfold ofWord
  simp only [Text.takeWhile_append_stop hnumber _ hstop,
    Text.dropWhile_append_stop hnumber _ hstop, hbehind]

/-- A single character that does not come next is not there. -/
theorem first?_named_char_of_ne {name : Part} {d : Char}
    {text : List Char} (h : ∀ rest, text = d :: rest → False) :
    (Pattern.named name (.char (· = d))).first? text = none := by
  rw [Pattern.first?_named]
  cases text with
  | nil => rfl
  | cons c rest =>
    rw [Pattern.first?_char, if_neg]
    · rfl
    · rw [decide_eq_true_iff]
      rintro rfl
      exact h rest rfl

/-- What the scanner finds at the start of a text is the preferred match
of the pattern. -/
theorem next?_eq_first? (text : List Char) :
    next? text
      = (pattern.first? text).map fun m => (ofMatch m, m.taken.length) := by
  unfold pattern
  rw [Pattern.first?_choice, Pattern.first?_named, first?_word]
  unfold next?
  cases hsymbol : symbolText text with
  | cons c symbol =>
    -- the pattern prefers a number in front, but letters are none
    have hnone : numberedWord? text = none := by
      unfold numberedWord?
      rw [numberText_eq_nil_of_symbolText
        (hsymbol ▸ List.cons_ne_nil c symbol)]
      rfl
    rw [hnone]
    show some (some (Token.word none (c :: symbol)), symbol.length + 1)
      = some (some (ofWord (c :: symbol)), (c :: symbol).length)
    rw [← hsymbol, ofWord_of_forall fun c hc =>
      isBlank_eq_false_of_mem_symbolText hc, hsymbol]
    rfl
  | nil =>
    cases hword : numberedWord? text with
    | some word =>
      obtain ⟨number, blanks, symbol⟩ := word
      show some (some (Token.word (some number) symbol),
          number.length + blanks.length + symbol.length)
        = some (some (ofWord (number ++ blanks ++ symbol)),
          (number ++ blanks ++ symbol).length)
      obtain ⟨-, -, hblanks, hsymbol, hnumber, hblank, hnone⟩ :=
        parts_of_numberedWord? hword
      rw [ofWord_append hblanks hsymbol hnumber hblank hnone,
        List.length_append, List.length_append]
    | none =>
      simp only [Option.map_none, Option.none_or, List.isEmpty_nil]
      split
      · rfl
      · rfl
      · rfl
      · rfl
      · next hopening hclosing hone hslash =>
        simp only [Pattern.first?_choice, first?_named_char_of_ne hopening,
          first?_named_char_of_ne hclosing, first?_named_char_of_ne hone,
          first?_named_char_of_ne hslash, Option.none_or, Option.or_none]
        rw [Pattern.first?_named, Pattern.first?_run]
        split
        · rfl
        · rfl

-- ================================================================ a text

/-- The tokens of a text, one match at a time. -/
theorem lexes_cons_iff {text : List Char} (hne : text ≠ [])
    {tokens : List Token} :
    Lexes text tokens ↔
      ∃ m rest, pattern.first? text = some m ∧ Lexes m.rest rest
        ∧ (ofMatch m).toList ++ rest = tokens := by
  constructor
  · rintro (_ | ⟨-, hm, hrest⟩)
    · exact absurd rfl hne
    · exact ⟨_, _, hm, hrest, rfl⟩
  · rintro ⟨m, rest, hm, hrest, rfl⟩
    exact .cons hne hm hrest

/-- The tokens that are found are those that the pattern finds. -/
theorem all?_eq_some_iff {text : List Char} {tokens : List Token} :
    all? text = some tokens ↔ Lexes text tokens := by
  fun_induction all? text generalizing tokens with
  | case1 =>
    rw [Option.some.injEq]
    constructor
    · rintro rfl
      exact .nil
    · rintro (_ | ⟨hne, -, -⟩)
      · rfl
      · exact absurd rfl hne
  | case2 c rest hnext =>
    rw [next?_eq_first?, Option.map_eq_none_iff] at hnext
    rw [lexes_cons_iff (List.cons_ne_nil c rest), hnext]
    simp
  | case3 c rest token n hnext ih =>
    rw [next?_eq_first?, Option.map_eq_some_iff] at hnext
    obtain ⟨m, hm, heq⟩ := hnext
    cases heq
    rw [lexes_cons_iff (List.cons_ne_nil c rest), Option.map_eq_some_iff]
    rw [Pattern.drop_of_first? hm] at ih ⊢
    constructor
    · rintro ⟨more, hmore, rfl⟩
      exact ⟨m, more, hm, ih.1 hmore, rfl⟩
    · rintro ⟨m', more, hm', hmore, rfl⟩
      obtain rfl : m = m' := Option.some.inj (hm.symm.trans hm')
      exact ⟨more, ih.2 hmore, rfl⟩

-- ============================================================= side by side

/-- A character of its own: no word goes on with it, and no blanks. -/
structure Stops (d : Char) : Prop where
  word : wordPattern.avoids d = true
  blank : isBlank d = false

theorem ways_named_char_append (name : Part) (p : Char → Bool)
    {text : List Char} (hne : text ≠ []) (behind : List Char) :
    (Pattern.named name (.char p)).ways (text ++ behind)
      = ((Pattern.named name (.char p)).ways text).map
          (Match.extend behind) := by
  cases text with
  | nil => exact absurd rfl hne
  | cons c text =>
    simp only [List.cons_append, Pattern.ways]
    split
    · rfl
    · rfl

/-- In front of a character of its own, a text starts with what it
starts with alone. -/
theorem first?_append {text : List Char} (hne : text ≠ []) {d : Char}
    (hd : Stops d) (behind : List Char) :
    pattern.first? (text ++ d :: behind)
      = (pattern.first? text).map (Match.extend (d :: behind)) := by
  have hword : (Pattern.named Part.word wordPattern).avoids d = true :=
    hd.word
  have hblanks : (Pattern.named Part.blanks (.run isBlank)).avoids d
      = true := by
    show (!isBlank d) = true
    rw [hd.blank]
    rfl
  unfold pattern Pattern.first?
  rw [← List.head?_map]
  refine congrArg List.head? ?_
  simp only [Pattern.ways_choice]
  rw [Pattern.ways_append hword, Pattern.ways_append hblanks]
  simp only [ways_named_char_append _ _ hne, List.map_append]

/-- Texts side by side have their tokens side by side, where the second
one starts with a character that nothing goes on with. -/
theorem Lexes.append {text behind : List Char} {d : Char}
    {tokens tokens' : List Token} (h : Lexes text tokens) (hd : Stops d)
    (h' : Lexes (d :: behind) tokens') :
    Lexes (text ++ d :: behind) (tokens ++ tokens') := by
  induction h with
  | nil => exact h'
  | @cons text m tokens hne hm _ ih =>
    have hfirst := first?_append hne hd behind
    rw [hm, Option.map_some] at hfirst
    rw [List.append_assoc]
    show Lexes _ ((ofMatch (m.extend (d :: behind))).toList ++ _)
    exact .cons (by simp) hfirst ih

theorem stops_slash : Stops '/' := ⟨by decide, by decide⟩

theorem stops_closing : Stops ')' := ⟨by decide, by decide⟩

/-- A slash in front is a token of its own. The next two say the same of
parentheses. -/
theorem Lexes.slash {text : List Char} {tokens : List Token}
    (h : Lexes text tokens) : Lexes ('/' :: text) (.slash :: tokens) := by
  have hm : pattern.first? ('/' :: text)
      = some ⟨[(.slash, ['/'])], ['/'], text⟩ := rfl
  exact .cons (List.cons_ne_nil _ _) hm h

theorem Lexes.opening {text : List Char} {tokens : List Token}
    (h : Lexes text tokens) :
    Lexes ('(' :: text) (.opening :: tokens) := by
  have hm : pattern.first? ('(' :: text)
      = some ⟨[(.opening, ['('])], ['('], text⟩ := rfl
  exact .cons (List.cons_ne_nil _ _) hm h

theorem Lexes.closing {text : List Char} {tokens : List Token}
    (h : Lexes text tokens) :
    Lexes (')' :: text) (.closing :: tokens) := by
  have hm : pattern.first? (')' :: text)
      = some ⟨[(.closing, [')'])], [')'], text⟩ := rfl
  exact .cons (List.cons_ne_nil _ _) hm h

/-- A text has its tokens in one way only. -/
theorem Lexes.unique {text : List Char} {tokens tokens' : List Token}
    (h : Lexes text tokens) (h' : Lexes text tokens') :
    tokens = tokens' :=
  Option.some.inj
    ((all?_eq_some_iff.2 h).symm.trans (all?_eq_some_iff.2 h'))

-- ============================================================= its words

theorem exists_digits_of_takeWhile {text : List Char}
    (h : text.takeWhile Char.isDigit ≠ []) :
    ∃ digits : Text.Digits, digits.chars = text.takeWhile Char.isDigit :=
  ⟨⟨_, h, fun _ hc => List.mem_takeWhile_imp hc⟩, rfl⟩

/-- Decimals are a point with digits behind it, or missing. -/
theorem fractionText_cases (text : List Char) :
    fractionText text = []
      ∨ ∃ digits : Text.Digits, fractionText text = '.' :: digits.chars := by
  unfold fractionText
  split
  · next rest =>
    split
    · exact .inl rfl
    · next hdigits =>
      obtain ⟨digits, hchars⟩ := exists_digits_of_takeWhile hdigits
      exact .inr ⟨digits, by rw [hchars]⟩
  · exact .inl rfl

/-- What is read as a number is one. -/
theorem exists_numeral_of_numberText {text : List Char}
    (h : numberText text ≠ []) :
    ∃ n : Text.Numeral, n.text = numberText text := by
  unfold numberText at h ⊢
  split at h
  · exact absurd rfl h
  · next hdigits =>
    obtain ⟨whole, hwhole⟩ := exists_digits_of_takeWhile hdigits
    rw [← hwhole]
    rcases fractionText_cases (text.dropWhile Char.isDigit) with
      hnone | ⟨digits, hsome⟩
    · refine ⟨⟨whole, none⟩, ?_⟩
      rw [hnone, List.append_nil]
      rfl
    · refine ⟨⟨whole, some digits⟩, ?_⟩
      rw [hsome]
      rfl

/-- A word that is found is written like one: its number, if it has one,
is a number with decimals or without. -/
theorem exists_word_of_next? {text : List Char}
    {number : Option (List Char)} {symbol : List Char} {n : Nat}
    (h : next? text = some (some (.word number symbol), n)) :
    ∃ w : Word, w.lexeme = .word number symbol := by
  unfold next? at h
  split at h
  · cases h
    exact ⟨⟨none, _⟩, rfl⟩
  · split at h
    · next hword =>
      cases h
      obtain ⟨hne, rfl, -⟩ := parts_of_numberedWord? hword
      obtain ⟨n, hn⟩ := exists_numeral_of_numberText hne
      refine ⟨⟨some n, symbol⟩, ?_⟩
      rw [← hn]
      rfl
    · split at h
      case h_5 => 
        simp only at h
        split at h <;> cases h
      all_goals cases h

/-- Every word of a text of tokens is one that a symbol table may
read. -/
theorem Lexes.exists_word {text : List Char} {tokens : List Token}
    (h : Lexes text tokens) {number : Option (List Char)}
    {symbol : List Char} (hmem : .word number symbol ∈ tokens) :
    ∃ w : Word, w.lexeme = .word number symbol := by
  induction h with
  | nil => cases hmem
  | @cons text m tokens _ hm _ ih =>
    rcases List.mem_append.1 hmem with hmem | hmem
    · have hnext := next?_eq_first? text
      rw [hm, Option.map_some, Option.mem_toList.1 hmem] at hnext
      exact exists_word_of_next? hnext
    · exact ih hmem

end Token

end UnitAlgebra
