/-
The numbers of a text, and where they go. A number stands in front of a
token, with a space between the two in the dotted grammar and with
blanks in the fraction grammar. Which numbers these are is a matter of
cutting the text, and no symbol has a part in it (`Reader.Numbers`). In
a choice of readers, the one that accepts the text cuts it.

# Numbers and coefficients

Each of these numbers is the coefficient of a term, and a term without a
number has the coefficient one (`Reader.carries`). For a single grammar
this follows from what its texts are: terms stand beside pieces, or
beside the words of a row, in the same order, so a member of one list
has its partner in the other. A choice is followed reader by reader, by
the recursion of the readers themselves.

# What has no numbers

A plain number has none of them, although it is one: between a number
and its token there is a blank (`Reader.Numbers.exists_blank`), and a
plain number holds no blank. So a statement about all numbers of a text
says nothing about texts that are read without a grammar.
-/
import UnitAlgebra.Proofs.DottedRows
import UnitAlgebra.Proofs.FractionRows
import UnitAlgebra.Proofs.PlainNumbers

namespace UnitAlgebra

-- =================================================== numbers of a text

/-- The numbers of a text, as a reader cuts it. -/
inductive Reader.Numbers (text : List Char) :
    Reader → Text.Numeral → Prop where
  | dotted {table : Symbols} {n : Text.Numeral} {token : List Char}
      (h : Dotted.written ⟨some n, token⟩ ∈ Dotted.pieces [] text) :
      Numbers text (.dotted table) n
  | fraction {table : Symbols} {n : Text.Numeral} {token : List Char}
      {tokens : List Token} (htokens : Token.Lexes text tokens)
      (h : Word.lexeme ⟨some n, token⟩ ∈ tokens) :
      Numbers text (.fraction table) n
  | first {reader : Reader} {readers : List Reader} {n : Text.Numeral}
      (haccepts : (reader.terms? text).isSome = true)
      (h : Numbers text reader n) :
      Numbers text (.choice (reader :: readers)) n
  | later {reader : Reader} {readers : List Reader} {n : Text.Numeral}
      (hrejects : reader.terms? text = none)
      (h : Numbers text (.choice readers) n) :
      Numbers text (.choice (reader :: readers)) n

/-- The coefficients of terms are numbers and ones, and none of the
numbers is missing. -/
structure Carries (numbers : Text.Numeral → Prop) (terms : List Term) :
    Prop where
  eq_value : ∀ t ∈ terms, t.coefficient = .one
    ∨ ∃ n, numbers n ∧ t.coefficient = n.value
  exists_mem : ∀ n, numbers n → ∃ t ∈ terms, t.coefficient = n.value

/-- The same numbers, described in another way. -/
theorem Carries.congr {p q : Text.Numeral → Prop} {terms : List Term}
    (h : Carries p terms) (hpq : ∀ n, q n ↔ p n) : Carries q terms := by
  obtain rfl : q = p := funext fun n => propext (hpq n)
  exact h

namespace Word

/-- The symbol table gives prefix, symbol and exponent of a word. Its
coefficient comes from the number alone. -/
theorem coefficient_of_term? {table : Symbols} {w : Word} {t : Term}
    (h : w.term? table = some t) : t.coefficient = w.coefficient := by
  obtain ⟨_, -, _, -, -, -, ht⟩ := Symbols.exists_of_term? h
  rw [ht]

end Word

-- ====================================================== dotted grammar

namespace Dotted

variable {table : Symbols} {text : List Char} {terms : List Term}

/-- Cutting adds no character. -/
theorem mem_of_mem_pieces {done text piece : List Char}
    (h : piece ∈ pieces done text) {c : Char} (hc : c ∈ piece) :
    c ∈ done ∨ c ∈ text := by
  fun_induction pieces done text with
  | case1 done =>
    rw [List.mem_singleton.1 h, List.mem_reverse] at hc
    exact .inl hc
  | case2 done c' rest hjoint ih =>
    rcases List.mem_cons.1 h with rfl | h
    · exact .inl (List.mem_reverse.1 hc)
    · exact .inr (List.mem_cons_of_mem _
        ((ih h).resolve_left List.not_mem_nil))
  | case3 done c' rest hjoint ih =>
    rcases ih h with hdone | hrest
    · rcases List.mem_cons.1 hdone with rfl | hdone
      · exact .inr List.mem_cons_self
      · exact .inl hdone
    · exact .inr (List.mem_cons_of_mem _ hrest)

/-- A word whose token has no space has the number that it starts
with. -/
theorem number_eq_of_written {w : Word} (hw : ' ' ∉ w.token)
    {n : Text.Numeral} {token : List Char}
    (h : written w = written ⟨some n, token⟩) : w.number = some n := by
  obtain ⟨number, token'⟩ := w
  cases number with
  | none =>
    refine absurd ?_ hw
    show ' ' ∈ token'
    rw [show token' = n.text ++ ' ' :: token from h]
    simp
  | some n' =>
    obtain ⟨htext, -, -⟩ := (List.append_cons_inj_of_notMem
      n'.space_not_mem_text hw).1 h
    rw [Text.Numeral.text_inj htext]

/-- In the dotted grammar pieces and terms go together one by one. -/
theorem carries (h : terms? table text = some terms) :
    Carries ((Reader.dotted table).Numbers text) terms := by
  have hterms := mapM_eq_some_iff.1 h
  constructor
  · intro t ht
    obtain ⟨piece, hmem, hpiece⟩ :=
      exists_of_mem_of_forall₂ hterms.flip ht
    obtain ⟨⟨number, token⟩, rfl, -, hterm⟩ := exists_word_of_term? hpiece
    rw [Word.coefficient_of_term? hterm]
    cases number with
    | none => exact .inl rfl
    | some n => exact .inr ⟨n, .dotted hmem, rfl⟩
  · rintro n ⟨hmem⟩
    obtain ⟨t, ht, hpiece⟩ := exists_of_mem_of_forall₂ hterms hmem
    obtain ⟨w, hwritten, hspace, hterm⟩ := exists_word_of_term? hpiece
    refine ⟨t, ht, ?_⟩
    rw [Word.coefficient_of_term? hterm, Word.coefficient,
      number_eq_of_written hspace hwritten]

end Dotted

-- ==================================================== fraction grammar

namespace Fraction

variable {table : Symbols} {text : List Char} {terms : List Term}

/-- No word stands in front of the words of an item. -/
theorem lexeme_not_mem_lead (lead : Lead) (w : Word) :
    w.lexeme ∉ lead.tokens := by
  cases lead <;> simp [Lead.tokens, Word.lexeme]

/-- Among the tokens of an item, parentheses are no words. -/
theorem lexeme_mem_words_iff {words : Words} {w : Word} :
    w.lexeme ∈ words.tokens ↔ ∃ v ∈ words.list, v.lexeme = w.lexeme := by
  cases words with
  | single v =>
    simp only [Words.tokens, Words.list, List.mem_singleton,
      exists_eq_left]
    exact eq_comm
  | group words =>
    have hopening : ¬ w.lexeme = .opening := fun h => by cases h
    have hclosing : ¬ w.lexeme = .closing := fun h => by cases h
    simp only [Words.tokens, Words.list, List.mem_cons, List.mem_append,
      List.mem_map, List.not_mem_nil, hopening, hclosing, false_or,
      or_false]

/-- The words among tokens are those in the places of their items. -/
theorem lexeme_mem_iff {items : List Item} {w : Word} :
    w.lexeme ∈ items.flatMap Item.tokens ↔
      ∃ place ∈ items.flatMap Item.places,
        place.word.lexeme = w.lexeme := by
  simp only [List.mem_flatMap, Item.tokens, Item.places,
    List.mem_append, lexeme_not_mem_lead, false_or, lexeme_mem_words_iff]
  constructor
  · rintro ⟨item, hitem, v, hv, heq⟩
    exact ⟨_, ⟨item, hitem, List.mem_map_of_mem hv⟩, heq⟩
  · rintro ⟨place, ⟨item, hitem, hplace⟩, heq⟩
    obtain ⟨v, hv, rfl⟩ := List.mem_map.1 hplace
    exact ⟨item, hitem, v, hv, heq⟩

/-- A slash turns the exponent of a word over and leaves its number
alone. -/
theorem coefficient_of_denotes {place : Place} {t : Term}
    (h : Denotes table place t) :
    t.coefficient = place.word.coefficient := by
  obtain ⟨read, hread, ht, -⟩ := h
  have hsame := Word.coefficient_of_term? hread
  rw [ht]
  exact hsame

/-- In the fraction grammar a term goes with the place of its word. -/
theorem carries (h : terms? table text = some terms) :
    Carries ((Reader.fraction table).Numbers text) terms := by
  obtain ⟨tokens, items, hlexes, htokens, hterms⟩ :=
    terms?_eq_some_iff.1 h
  constructor
  · intro t ht
    obtain ⟨⟨⟨number, token⟩, below⟩, hplace, hdenotes⟩ :=
      exists_of_mem_of_forall₂ hterms.flip ht
    rw [coefficient_of_denotes hdenotes]
    cases number with
    | none => exact .inl rfl
    | some n =>
      have hmem : Word.lexeme ⟨some n, token⟩ ∈ tokens := by
        rw [← htokens]
        exact lexeme_mem_iff.2 ⟨_, hplace, rfl⟩
      exact .inr ⟨n, .fraction hlexes hmem, rfl⟩
  · rintro n (_ | ⟨hlexes', hmem⟩)
    rw [hlexes'.unique hlexes, ← htokens] at hmem
    obtain ⟨⟨⟨number, token⟩, below⟩, hplace, heq⟩ :=
      lexeme_mem_iff.1 hmem
    obtain ⟨t, ht, hdenotes⟩ := exists_of_mem_of_forall₂ hterms hplace
    refine ⟨t, ht, (coefficient_of_denotes hdenotes).trans ?_⟩
    obtain ⟨hnumber, -⟩ := Token.word.inj heq
    cases number with
    | none => cases hnumber
    | some n' => rw [Text.Numeral.text_inj (Option.some.inj hnumber)]; rfl

end Fraction

-- ============================================================== blanks

namespace Token

/-- The blanks of a word are a part of the text. -/
theorem mem_of_mem_blanks {text number blanks symbol : List Char}
    (h : numberedWord? text = some (number, blanks, symbol)) {c : Char}
    (hc : c ∈ blanks) : c ∈ text := by
  unfold numberedWord? at h
  simp only at h
  split at h
  · cases h
  · cases h
    exact List.mem_of_mem_drop ((List.takeWhile_sublist _).subset hc)

/-- What stands behind the number of a word is blank. -/
theorem exists_blank_of_next? {text number symbol : List Char} {k : Nat}
    (h : next? text = some (some (.word (some number) symbol), k)) :
    ∃ c ∈ text, Text.isBlank c = true := by
  unfold next? at h
  split at h
  · cases h
  · split at h
    · next blanks _ hword =>
      obtain ⟨-, -, hne, -, -, hblank, -⟩ := parts_of_numberedWord? hword
      obtain ⟨c, hc⟩ := List.exists_mem_of_ne_nil blanks hne
      exact ⟨c, mem_of_mem_blanks hword hc, hblank c hc⟩
    · split at h
      case h_5 =>
        simp only at h
        split at h <;> cases h
      all_goals cases h

/-- A word with a number takes a blank, at whichever place of the text
it stands. -/
theorem exists_blank_of_all? {text : List Char} {tokens : List Token}
    (h : all? text = some tokens) {number symbol : List Char}
    (hmem : .word (some number) symbol ∈ tokens) :
    ∃ c ∈ text, Text.isBlank c = true := by
  fun_induction all? text generalizing tokens with
  | case1 =>
    cases h
    cases hmem
  | case2 => cases h
  | case3 c rest token k hnext ih =>
    obtain ⟨tokens', htokens, rfl⟩ := Option.map_eq_some_iff.1 h
    rcases List.mem_append.1 hmem with hmem | hmem
    · rw [Option.mem_toList.1 hmem] at hnext
      exact exists_blank_of_next? hnext
    · obtain ⟨d, hd, hblank⟩ := ih htokens hmem
      exact ⟨d, List.mem_of_mem_drop hd, hblank⟩

end Token

-- ============================================================= readers

namespace Reader

variable {text : List Char} {reader : Reader} {readers : List Reader}
  {n : Text.Numeral}

/-- The first reader that accepts a text cuts it. -/
theorem numbers_first_iff (h : (reader.terms? text).isSome = true) :
    (Reader.choice (reader :: readers)).Numbers text n
      ↔ reader.Numbers text n := by
  refine ⟨?_, .first h⟩
  rintro (_ | _ | ⟨-, hn⟩ | ⟨hrejects, -⟩)
  · exact hn
  · rw [hrejects] at h
    cases h

/-- A reader that rejects a text has no say in its numbers. -/
theorem numbers_later_iff (h : reader.terms? text = none) :
    (Reader.choice (reader :: readers)).Numbers text n
      ↔ (Reader.choice readers).Numbers text n := by
  refine ⟨?_, .later h⟩
  rintro (_ | _ | ⟨haccepts, -⟩ | ⟨-, hn⟩)
  · rw [h] at haccepts
    cases haccepts
  · exact hn

mutual

/-- The numbers of a text are the coefficients of its terms. -/
theorem carries {terms : List Term} : ∀ {reader : Reader},
    reader.terms? text = some terms →
      Carries (reader.Numbers text) terms
  | .dotted _, h => Dotted.carries h
  | .fraction _, h => Fraction.carries h
  | .choice _, h => carries_choice h

/-- The readers of a choice are tried one after another. -/
theorem carries_choice {terms : List Term} : ∀ {readers : List Reader},
    firstTerms? text readers = some terms →
      Carries ((Reader.choice readers).Numbers text) terms
  | [], h => nomatch h
  | reader :: readers, h => by
    rw [firstTerms?] at h
    cases hfirst : reader.terms? text with
    | some found =>
      rw [hfirst] at h
      cases h
      exact (carries hfirst).congr fun n =>
        numbers_first_iff (by rw [hfirst]; rfl)
    | none =>
      rw [hfirst] at h
      exact (carries_choice h).congr fun n => numbers_later_iff hfirst

end

/-- A text with a number in front of a token has a blank in it. -/
theorem Numbers.exists_blank (h : reader.Numbers text n) :
    ∃ c ∈ text, Text.isBlank c = true := by
  induction h with
  | @dotted _ n token h =>
    refine ⟨' ', ?_, by decide⟩
    have hspace : ' ' ∈ Dotted.written ⟨some n, token⟩ := by
      simp [Dotted.written]
    exact (Dotted.mem_of_mem_pieces h hspace).resolve_left
      List.not_mem_nil
  | fraction htokens h =>
    exact Token.exists_blank_of_all? (Token.all?_eq_some_iff.2 htokens) h
  | first _ _ ih => exact ih
  | later _ _ ih => exact ih

/-- A plain number has no such number in it, and neither has the empty
text. -/
theorem Numbers.plainNumber?_eq_none {text : String}
    (h : reader.Numbers text.toList n) :
    text ≠ "" ∧ UnitSystem.plainNumber? text = none := by
  obtain ⟨c, hc, hblank⟩ := h.exists_blank
  have hmarks : ['.', 'e', 'E', '+', '-'].all (!Text.isBlank ·)
      = true := by
    decide
  have hmark : ¬ Number.IsMark c := by
    rintro (hdigit | hmem)
    · rw [Text.isBlank_eq_false_of_isDigit hdigit] at hblank
      cases hblank
    · have hother := List.all_eq_true.1 hmarks c hmem
      rw [hblank] at hother
      cases hother
  refine ⟨?_, UnitSystem.plainNumber?_of_mem hc hmark⟩
  rintro rfl
  cases hc

end Reader

end UnitAlgebra
