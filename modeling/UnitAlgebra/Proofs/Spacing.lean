/-
Blanks next to a mark. A slash and the two parentheses are tokens by
themselves, so blanks may be put in directly before and after them, or
taken away there, and the text keeps its tokens.

# Away from a mark

Elsewhere blanks do matter: they tie a number to the word behind it, and
decide whether a `1` is one. Two facts keep that away from a mark.

- No token goes on across a mark, so a text is read as two, up to the
  mark and from it (`Token.all?_append`).
- Neither of the two cares for blanks at the cut. Those at the start of
  a text are dropped (`Token.all?_dropWhile`), and those at its end are
  dropped as well (`Token.all?_append_blanks`).

The second fact is the one that takes work. At the end of a text there
may be a number, and blanks behind it could make it the number of a
word. They do not, because no word follows
(`Token.numberedWord?_append_blanks`); everything else that a token can
be ends at a blank anyway, piece by piece.

# Any number of changes

One change is `Token.Widens`. Texts are the same up to spacing when a
row of changes, in either direction, leads from one to the other; this
is the equivalence that `Widens` generates, so what one change keeps
(`Token.Widens.all?_eq`) all of them keep. The tokens are all that the
reader sees, hence success and failure are kept with them.
-/
import Mathlib.Logic.Relation
import UnitAlgebra.Proofs.Grammars

namespace UnitAlgebra

namespace Token

open Text (Pattern Match isBlank)

-- ========================================================= up to a mark

/-- The characters that are tokens by themselves. -/
def marks : List Char := ['/', '(', ')']

/-- At a mark every word and every number ends. -/
theorem stops_of_mem_marks {d : Char} (hd : d ∈ marks) : Stops d := by
  rcases List.mem_cons.1 hd with rfl | hd
  · exact stops_slash
  rcases List.mem_cons.1 hd with rfl | hd
  · exact ⟨by decide, by decide⟩
  rw [List.mem_singleton.1 hd]
  exact stops_closing

/-- In front of a mark, a text starts with what it starts with alone. -/
theorem next?_append {text : List Char} (hne : text ≠ []) {d : Char}
    (hd : Stops d) (behind : List Char) :
    next? (text ++ d :: behind) = next? text := by
  rw [next?_eq_first?, next?_eq_first?, first?_append hne hd,
    Option.map_map]
  rfl

/-- What is found at the start of a text is a part of it. -/
theorem next?_le {text : List Char} {token : Option Token} {n : Nat}
    (h : next? text = some (token, n)) : n ≤ text.length := by
  rw [next?_eq_first?] at h
  obtain ⟨m, hm, heq⟩ := Option.map_eq_some_iff.1 h
  cases heq
  have hsplit := Pattern.append_eq_of_mem_ways (List.mem_of_head? hm)
  have hlength := congrArg List.length hsplit
  rw [List.length_append] at hlength
  omega

/-- A text with a mark in it is read up to the mark and from it. -/
theorem all?_append {d : Char} (hd : Stops d) (text behind : List Char) :
    all? (text ++ d :: behind)
      = (all? text).bind fun tokens =>
          (all? (d :: behind)).map (tokens ++ ·) := by
  fun_induction all? text with
  | case1 =>
    rw [List.nil_append]
    cases all? (d :: behind) <;> rfl
  | case2 c rest hnone =>
    have hne := List.cons_ne_nil c rest
    rw [← next?_append hne hd behind] at hnone
    exact all?_of_next?_eq_none (by simp) hnone
  | case3 c rest token n hnext ih =>
    have hne := List.cons_ne_nil c rest
    have hlength := next?_le hnext
    rw [← next?_append hne hd behind] at hnext
    rw [all?_of_next? (by simp) hnext,
      List.drop_append_of_le_length hlength, ih]
    cases all? ((c :: rest).drop n) with
    | none => rfl
    | some tokens =>
      cases all? (d :: behind) with
      | none => rfl
      | some more => simp

-- ============================================================== blanks

theorem isAlpha_eq_false_of_isBlank {c : Char} (h : isBlank c = true) :
    c.isAlpha = false := by
  rw [Bool.eq_false_iff]
  intro halpha
  rw [Text.isBlank_eq_false_of_isAlpha halpha] at h
  cases h

theorem isDigit_eq_false_of_isBlank {c : Char} (h : isBlank c = true) :
    c.isDigit = false := by
  rw [Bool.eq_false_iff]
  intro hdigit
  rw [Text.isBlank_eq_false_of_isDigit hdigit] at h
  cases h

/-- A blank is none of the characters that a token looks for. -/
theorem ne_of_isBlank {c d : Char} (hc : isBlank c = true)
    (hd : isBlank d = false) : c ≠ d := by
  rintro rfl
  rw [hc] at hd
  cases hd

/-- Blanks are taken as far as they go. -/
theorem next?_of_isBlank {c : Char} (hc : isBlank c = true)
    (rest : List Char) :
    next? (c :: rest)
      = some (none, ((c :: rest).takeWhile isBlank).length) := by
  have hsymbol : symbolText (c :: rest) = [] := by
    unfold symbolText
    rw [List.takeWhile_cons_of_neg (by
      simp [isAlpha_eq_false_of_isBlank hc])]
  have hnumber : numberedWord? (c :: rest) = none := by
    unfold numberedWord? numberText
    rw [List.takeWhile_cons_of_neg (by
      simp [isDigit_eq_false_of_isBlank hc])]
    rfl
  have hmark (d : Char) (hd : isBlank d = false) : c ≠ d :=
    ne_of_isBlank hc hd
  unfold next?
  rw [hsymbol, hnumber]
  simp only
  split
  · next heq => exact absurd (List.cons.inj heq).1 (hmark '(' (by decide))
  · next heq => exact absurd (List.cons.inj heq).1 (hmark ')' (by decide))
  · next heq => exact absurd (List.cons.inj heq).1 (hmark '1' (by decide))
  · next heq => exact absurd (List.cons.inj heq).1 (hmark '/' (by decide))
  · rw [List.takeWhile_cons_of_pos hc]
    rfl

/-- Blanks at the start of a text are dropped. -/
theorem all?_dropWhile (text : List Char) :
    all? (text.dropWhile isBlank) = all? text := by
  cases text with
  | nil => rfl
  | cons c rest =>
    by_cases hc : isBlank c = true
    · rw [all?_of_next? (List.cons_ne_nil c rest) (next?_of_isBlank hc rest),
        Pattern.drop_length_takeWhile]
      cases all? ((c :: rest).dropWhile isBlank) <;> rfl
    · rw [List.dropWhile_cons_of_neg hc]

/-- What does not start with a minus sign is an exponent as far as its
digits go. -/
theorem exponentText_cons_of_ne {c : Char} (hc : c ≠ '-')
    (rest : List Char) :
    exponentText (c :: rest) = (c :: rest).takeWhile Char.isDigit := by
  unfold exponentText
  split
  · next heq => exact absurd (List.cons.inj heq).1 hc
  · rfl

/-- What does not start with a point has no decimals. -/
theorem fractionText_cons_of_ne {c : Char} (hc : c ≠ '.')
    (rest : List Char) : fractionText (c :: rest) = [] := by
  unfold fractionText
  split
  · next heq => exact absurd (List.cons.inj heq).1 hc
  · rfl

/-- The decimals of a number are a part of the text. -/
theorem fractionText_begins (text : List Char) :
    fractionText text <+: text := by
  unfold fractionText
  split
  · next rest =>
    split
    · exact List.nil_prefix
    · next hdigits =>
      exact List.cons_prefix_cons.2 ⟨rfl, List.takeWhile_prefix _⟩
  · exact List.nil_prefix

/-- The number at the start of a text is a part of it. -/
theorem numberText_begins (text : List Char) :
    numberText text <+: text := by
  have hsplit := List.takeWhile_append_dropWhile (p := Char.isDigit)
    (l := text)
  have hfraction := fractionText_begins (text.dropWhile Char.isDigit)
  unfold numberText
  split
  · exact List.nil_prefix
  · next hwhole =>
    conv_rhs => rw [← hsplit]
    exact (List.prefix_append_right_inj _).2 hfraction

section

variable {blanks : List Char} (hblanks : ∀ c ∈ blanks, isBlank c = true)

include hblanks

/-- Any blanks in front of a text are dropped. -/
theorem all?_blanks_append (text : List Char) :
    all? (blanks ++ text) = all? text := by
  rw [← all?_dropWhile, List.dropWhile_append_of_pos hblanks,
    all?_dropWhile]

/-- What is taken while a class of characters lasts, if no blank is in
the class. Digits and letters are such classes, and each piece of a
token below is put together from these two lemmas. -/
theorem takeWhile_append_blanks {p : Char → Bool}
    (hp : ∀ c, isBlank c = true → p c = false) (text : List Char) :
    (text ++ blanks).takeWhile p = text.takeWhile p := by
  have hstop : blanks.takeWhile p = [] := by
    cases blanks with
    | nil => rfl
    | cons b more =>
      rw [List.takeWhile_cons_of_neg]
      simp [hp b (hblanks b List.mem_cons_self)]
  rw [List.takeWhile_append]
  split
  · next hall =>
    rw [hstop, List.append_nil]
    exact ((List.takeWhile_prefix p).eq_of_length hall).symm
  · rfl

/-- What is left keeps the blanks at its end. -/
theorem dropWhile_append_blanks {p : Char → Bool}
    (hp : ∀ c, isBlank c = true → p c = false) (text : List Char) :
    (text ++ blanks).dropWhile p = text.dropWhile p ++ blanks := by
  have htake := takeWhile_append_blanks hblanks hp text
  have hsplit := List.takeWhile_append_dropWhile (p := p)
    (l := text ++ blanks)
  rw [htake] at hsplit
  refine List.append_cancel_left (hsplit.trans ?_)
  rw [← List.append_assoc, List.takeWhile_append_dropWhile]

/-- An exponent ends at a blank, also the one that is missing. -/
theorem exponentText_append_blanks (text : List Char) :
    exponentText (text ++ blanks) = exponentText text := by
  have htake := takeWhile_append_blanks hblanks
    (fun _ => isDigit_eq_false_of_isBlank)
  cases text with
  | nil =>
    cases blanks with
    | nil => rfl
    | cons b more =>
      have hb := ne_of_isBlank (hblanks b List.mem_cons_self)
        (show isBlank '-' = false by decide)
      rw [List.nil_append, exponentText_cons_of_ne hb]
      exact htake []
  | cons c rest =>
    by_cases hc : c = '-'
    · subst hc
      rw [List.cons_append]
      simp only [exponentText, htake]
    · rw [List.cons_append, exponentText_cons_of_ne hc,
        exponentText_cons_of_ne hc]
      exact htake (c :: rest)

/-- Letters and exponent end at a blank. -/
theorem symbolText_append_blanks (text : List Char) :
    symbolText (text ++ blanks) = symbolText text := by
  unfold symbolText
  rw [takeWhile_append_blanks hblanks (fun _ => isAlpha_eq_false_of_isBlank),
    dropWhile_append_blanks hblanks (fun _ => isAlpha_eq_false_of_isBlank),
    exponentText_append_blanks hblanks]

theorem fractionText_append_blanks (text : List Char) :
    fractionText (text ++ blanks) = fractionText text := by
  have htake := takeWhile_append_blanks hblanks
    (fun _ => isDigit_eq_false_of_isBlank)
  cases text with
  | nil =>
    cases blanks with
    | nil => rfl
    | cons b more =>
      have hb := ne_of_isBlank (hblanks b List.mem_cons_self)
        (show isBlank '.' = false by decide)
      exact fractionText_cons_of_ne hb more
  | cons c rest =>
    by_cases hc : c = '.'
    · subst hc
      rw [List.cons_append]
      simp only [fractionText, htake]
    · rw [List.cons_append, fractionText_cons_of_ne hc,
        fractionText_cons_of_ne hc]

/-- A number ends at a blank, with its decimals or without any. -/
theorem numberText_append_blanks (text : List Char) :
    numberText (text ++ blanks) = numberText text := by
  unfold numberText
  rw [takeWhile_append_blanks hblanks (fun _ => isDigit_eq_false_of_isBlank),
    dropWhile_append_blanks hblanks (fun _ => isDigit_eq_false_of_isBlank),
    fractionText_append_blanks hblanks]

/-- A number at the end of a text is the number of no word, whether
blanks follow it or not. -/
theorem numberedWord?_append_blanks (text : List Char) :
    numberedWord? (text ++ blanks) = numberedWord? text := by
  have hinside := (numberText_begins text).length_le
  unfold numberedWord?
  simp only [numberText_append_blanks hblanks,
    List.drop_append_of_le_length hinside,
    Pattern.drop_length_takeWhile]
  generalize text.drop (numberText text).length = rest
  cases hrest : rest.dropWhile isBlank with
  | nil =>
    have hend : (rest ++ blanks).dropWhile isBlank = [] := by
      rw [List.dropWhile_append, hrest]
      exact List.dropWhile_eq_nil_iff.2 hblanks
    have hnone : (symbolText []).isEmpty = true := rfl
    rw [hend, if_pos (.inr (.inr hnone)), if_pos (.inr (.inr hnone))]
  | cons c more =>
    have hdrop : (rest ++ blanks).dropWhile isBlank
        = c :: more ++ blanks := by
      rw [List.dropWhile_append, hrest]
      rfl
    have htake : (rest ++ blanks).takeWhile isBlank
        = rest.takeWhile isBlank := by
      have hsplit := List.takeWhile_append_dropWhile (p := isBlank)
        (l := rest)
      have hlength := congrArg List.length hsplit
      rw [hrest, List.length_append, List.length_cons] at hlength
      rw [List.takeWhile_append, if_neg (by omega)]
    rw [hdrop, htake, symbolText_append_blanks hblanks]

/-- What a text starts with, if that is no blank, is the same with blanks
at its end. -/
theorem next?_append_blanks {c : Char} (hc : isBlank c = false)
    (rest : List Char) :
    next? (c :: rest ++ blanks) = next? (c :: rest) := by
  have hstop (more : List Char) : (c :: more).takeWhile isBlank = [] :=
    List.takeWhile_cons_of_neg (by simp [hc])
  unfold next?
  rw [symbolText_append_blanks hblanks, numberedWord?_append_blanks hblanks]
  cases symbolText (c :: rest) with
  | cons d symbol => rfl
  | nil =>
    cases numberedWord? (c :: rest) with
    | some word => rfl
    | none =>
      rw [List.cons_append]
      simp only [hstop]
      -- The four marks are told by the first character alone.
      by_cases hopening : c = '('
      · subst hopening
        rfl
      by_cases hclosing : c = ')'
      · subst hclosing
        rfl
      by_cases hone : c = '1'
      · subst hone
        rfl
      by_cases hslash : c = '/'
      · subst hslash
        rfl
      simp [hopening, hclosing, hone, hslash]

/-- Blanks at the end of a text are dropped. -/
theorem all?_append_blanks (text : List Char) :
    all? (text ++ blanks) = all? text := by
  induction hlength : text.length using Nat.strong_induction_on
    generalizing text with
  | _ n ih =>
    cases text with
    | nil =>
      have hall := all?_blanks_append hblanks []
      rwa [List.append_nil] at hall
    | cons c rest =>
      by_cases hc : isBlank c = true
      · rw [List.length_cons] at hlength
        rw [← all?_dropWhile, List.cons_append, List.dropWhile_cons_of_pos hc,
          all?_dropWhile]
        rw [← all?_dropWhile (c :: rest), List.dropWhile_cons_of_pos hc,
          all?_dropWhile]
        exact ih rest.length (by omega) rest rfl
      · rw [Bool.not_eq_true] at hc
        have hsame := next?_append_blanks hblanks hc rest
        cases hnext : next? (c :: rest) with
        | none =>
          rw [all?_of_next?_eq_none (by simp) hnext,
            all?_of_next?_eq_none (by simp) (hsame.trans hnext)]
        | some found =>
          obtain ⟨token, m⟩ := found
          have hpos := next?_pos hnext
          have hle := next?_le hnext
          have hrest := ih ((c :: rest).drop m).length (by
            rw [List.length_drop]
            omega) _ rfl
          rw [all?_of_next? (by simp) hnext,
            all?_of_next? (by simp) (hsame.trans hnext),
            List.drop_append_of_le_length hle, hrest]

end

-- ===================================================== next to a mark

/-- A mark is a token, whatever stands behind it. -/
theorem exists_next?_mark {d : Char} (hd : d ∈ marks) :
    ∃ token : Token, ∀ behind,
      next? (d :: behind) = some (some token, 1) := by
  rcases List.mem_cons.1 hd with rfl | hd
  · exact ⟨.slash, fun _ => rfl⟩
  rcases List.mem_cons.1 hd with rfl | hd
  · exact ⟨.opening, fun _ => rfl⟩
  rw [List.mem_singleton.1 hd]
  exact ⟨.closing, fun _ => rfl⟩

/-- A text with blanks put in directly before a mark or directly after
it. -/
inductive Widens : List Char → List Char → Prop where
  | before {d : Char} (hd : d ∈ marks) {blanks : List Char}
      (hblanks : ∀ c ∈ blanks, isBlank c = true)
      (front behind : List Char) :
      Widens (front ++ d :: behind) (front ++ blanks ++ d :: behind)
  | after {d : Char} (hd : d ∈ marks) {blanks : List Char}
      (hblanks : ∀ c ∈ blanks, isBlank c = true)
      (front behind : List Char) :
      Widens (front ++ d :: behind) (front ++ d :: (blanks ++ behind))

/-- Both ways of putting blanks in keep the tokens: at the end of the
text up to the mark, and at the start of the text behind it. -/
theorem Widens.all?_eq {text wider : List Char} (h : Widens text wider) :
    all? text = all? wider := by
  cases h with
  | before hd hblanks front behind =>
    have hstops := stops_of_mem_marks hd
    rw [all?_append hstops, all?_append hstops,
      all?_append_blanks hblanks]
  | after hd hblanks front behind =>
    have hstops := stops_of_mem_marks hd
    obtain ⟨token, hmark⟩ := exists_next?_mark hd
    rw [all?_append hstops, all?_append hstops,
      all?_of_next? (by simp) (hmark _), all?_of_next? (by simp) (hmark _)]
    rw [List.drop_one, List.drop_one, List.tail_cons, List.tail_cons,
      all?_blanks_append hblanks]

/-- Two texts are the same up to blanks next to marks when one becomes
the other by putting such blanks in and taking them away. -/
def SameUpToSpacing : String → String → Prop :=
  Relation.EqvGen fun text wider => Widens text.toList wider.toList

/-- Blanks may be put in at one place and taken away at another, any
number of times. -/
theorem SameUpToSpacing.all?_eq {text other : String}
    (h : SameUpToSpacing text other) :
    all? text.toList = all? other.toList := by
  induction h with
  | rel text wider hwider => exact hwider.all?_eq
  | refl text => rfl
  | symm text wider _ ih => exact ih.symm
  | trans text middle other _ _ ihLeft ihRight =>
    exact ihLeft.trans ihRight

end Token

/-- Blanks next to a slash or a parenthesis do not matter to the fraction
grammar, neither to what a text means nor to whether it means anything. -/
theorem fraction_read_spacing (table : Symbols) {text other : String}
    (h : Token.SameUpToSpacing text other) :
    (∀ terms, (Reader.fraction table).read text = .ok terms
        ↔ (Reader.fraction table).read other = .ok terms) ∧
      ((Reader.fraction table).read text = .error (.unreadable text)
        ↔ (Reader.fraction table).read other
          = .error (.unreadable other)) := by
  have hterms : (Reader.fraction table).terms? text.toList
      = (Reader.fraction table).terms? other.toList := by
    simp only [Reader.terms?, Fraction.terms?, h.all?_eq]
  constructor
  · intro terms
    rw [Reader.read_eq_ok_iff, Reader.read_eq_ok_iff, hterms]
  · rw [Reader.read_eq_error_iff, Reader.read_eq_error_iff, hterms]
    simp only [true_and]

/-- One blank taken away before the slash, one put in after the
parenthesis. -/
theorem fraction_read_spacing_moved :
    let reader : Reader := .fraction ⟨["m", "s"], ["h"]⟩
    Token.SameUpToSpacing "m /(h s)" "m/( h s)"
      ∧ (∀ terms, reader.read "m /(h s)" = .ok terms
        ↔ reader.read "m/( h s)" = .ok terms)
      ∧ (reader.terms? "m/( h s)".toList).isSome = true := by
  have hspace : ∀ c ∈ [' '], Text.isBlank c = true := by
    intro c hc
    rw [List.mem_singleton.1 hc]
    decide
  have hslash : Token.Widens "m/(h s)".toList "m /(h s)".toList :=
    .before (d := '/') (by decide) hspace ['m'] "(h s)".toList
  have hopening : Token.Widens "m/(h s)".toList "m/( h s)".toList :=
    .after (d := '(') (by decide) hspace ['m', '/'] "h s)".toList
  have hsame : Token.SameUpToSpacing "m /(h s)" "m/( h s)" :=
    .trans _ "m/(h s)" _ (.symm _ _ (.rel _ _ hslash)) (.rel _ _ hopening)
  exact ⟨hsame, (fraction_read_spacing _ hsame).1, by decide +kernel⟩

end UnitAlgebra
