/-
Printed units are read again. A unit without factors prints as a row of
words, one for each term, and the dotted grammar reads that row as the
same terms (`printed_read`).

# Letters

Printing and reading have no code in common. The printer leaves out an
exponent of one and writes micro as `u`, whatever it was read from; the
reader looks for the longest prefix that leaves a name. So what has to
be shown is that the printed letters mean what the letters meant that
gave the term (`Symbols.Reads.printed`). They do, unless `u` and a name
that takes a prefix make up another name: that name would be read
instead.

It helps that meaning is told apart from searching (`Symbols.Reads`). To
print one spelling of micro for another is harmless because no other
prefix begins like it (`SIPrefix.eq_of_begins`), so no longer prefix
comes in its way.

# Exponents and rows

The digits of an exponent denote it (`Symbols.denotes_digits`), down to
the least one, and no text denotes one, as printed
(`Symbols.denotes_exponentText`). Term by term the printed row is a row
of words (`Measure.toList_text_written`), and rows are cut as they are
written.

# What was read

A table yields prefix and name together (`Symbols.Yields`); the printer
has no more to go by, and it needs no more. A text of the fraction
grammar has the same kind of terms, since turning an exponent over
changes neither (`Fraction.yields_of_terms?`). So what that grammar
reads without a number can be printed and read by the dotted one.
-/
import UnitAlgebra.Measure
import UnitAlgebra.Proofs.SingleWords

namespace UnitAlgebra

-- ============================================================= exponents

namespace Symbols

/-- The digits of an exponent denote it. -/
theorem denotes_digits (e : Exponent) : Denotes e.digits e := by
  have hne : Nat.toDigits 10 e.val.natAbs ≠ [] := Nat.toDigits_ne_nil
  have hdigits : ∀ c ∈ Nat.toDigits 10 e.val.natAbs,
      c.isDigit = true :=
    fun _ => Nat.isDigit_of_mem_toDigits (by decide) (by decide)
  have hvalue : Number.ofDigits (Nat.toDigits 10 e.val.natAbs)
      = e.val.natAbs := Nat.ofDigitChars_ten_toDigits
  unfold Exponent.digits
  dsimp only
  split
  · next hneg =>
    refine .negative hne hdigits ?_
    rw [hvalue]
    omega
  · next hpos =>
    refine .digits hne hdigits ?_
    rw [hvalue]
    omega

/-- So does the text behind a printed symbol, which leaves out a one. -/
theorem denotes_exponentText (e : Exponent) :
    Denotes (Term.exponentText e) e := by
  unfold Term.exponentText
  by_cases hone : e = 1
  · rw [if_pos hone, hone]
    exact .absent
  · rw [if_neg hone]
    exact denotes_digits e

-- ======================================================== printed letters

/-- The prefix and the name that a table finds in some token. -/
def Yields (table : Symbols) (scale : SIPrefix) (name : String) : Prop :=
  ∃ coefficient token t, table.term? coefficient token = some t
    ∧ t.scale = scale ∧ t.symbol = name

end Symbols

namespace SIPrefix

/-- A prefix is spelled as it is printed, or is micro, which is printed
`u`. -/
theorem eq_symbol_or_micro {spelling : String} {scale : SIPrefix}
    (h : ofSymbol? spelling = some scale) :
    spelling = scale.symbol ∨ scale = .micro := by
  have hall : ∀ p ∈ spellings, p.1 = p.2.symbol ∨ p.2 = .micro := by
    decide
  exact hall _ (mem_spellings_of_ofSymbol? h)

/-- No other spelling of a prefix starts like `u`. -/
theorem eq_of_begins {spelling : String} {scale : SIPrefix}
    (h : ofSymbol? spelling = some scale) {rest : List Char}
    (hbegins : spelling.toList <+: 'u' :: rest) : spelling = "u" := by
  have hall : ∀ p ∈ spellings,
      p.1 = "u" ∨ p.1.toList.head?.any (· ≠ 'u') = true := by
    decide
  rcases hall _ (mem_spellings_of_ofSymbol? h) with heq | hother
  · exact heq
  · obtain ⟨c, hc, hne⟩ := (Option.any_eq_true _ _).1 hother
    obtain ⟨more, hmore⟩ := hbegins
    obtain ⟨tail, htail⟩ := List.head?_eq_some_iff.1 hc
    rw [htail] at hmore
    exact absurd (List.cons.inj hmore).1 (of_decide_eq_true hne)

end SIPrefix

namespace Symbols

section

variable {prefixable standalone : List String}
  (hmicro : ∀ name ∈ prefixable, "u" ++ name ∉ prefixable ++ standalone)

include hmicro

/-- What letters mean, the printed letters mean as well. -/
theorem Reads.printed {letters : List Char} {scale : SIPrefix}
    {name : String}
    (h : Reads prefixable standalone letters scale name) :
    Reads prefixable standalone (scale.symbol.toList ++ name.toList)
      scale name := by
  cases h with
  | alone hknown =>
    have hprinted : SIPrefix.plain.symbol.toList
        ++ (String.ofList letters).toList = letters :=
      String.toList_ofList
    rw [hprinted]
    exact .alone hknown
  | @scaled spelling _ _ hother hscales hlongest =>
    obtain ⟨hscale, hname, hletters⟩ := hscales
    rcases SIPrefix.eq_symbol_or_micro hscale with rfl | rfl
    · rw [hletters]
      exact .scaled hother ⟨hscale, hname, hletters⟩ hlongest
    · have hu : Scales prefixable
          (SIPrefix.micro.symbol.toList ++ name.toList) "u" .micro name :=
        ⟨by decide, hname, rfl⟩
      refine .scaled ?_ hu ?_
      · have hprinted : String.ofList ("u".toList ++ name.toList)
            = "u" ++ name := by
          rw [← String.toList_append, String.ofList_toList]
        show String.ofList ("u".toList ++ name.toList) ∉ _
        rw [hprinted]
        exact hmicro name hname
      · intro spelling' scale' name' h
        obtain ⟨hscale', -, hletters'⟩ := h
        rw [SIPrefix.eq_of_begins hscale' ⟨_, hletters'⟩]

end

end Symbols

-- ========================================================= printed terms

theorem Scientific.isOne_one : Scalar.isOne Scientific.one = true := by
  decide +kernel

/-- The word that a term without a factor is printed as. -/
def Term.word (t : Term) : Word := ⟨none, t.text⟩

/-- A coefficient of one is not printed. -/
theorem Term.text_eq {t : Term} (h : t.coefficient = .one) :
    t.text = t.scale.symbol.toList ++ t.symbol.toList
      ++ exponentText t.exponent := by
  unfold text coefficientText
  rw [h, if_pos Scientific.isOne_one, List.nil_append]

/-- A unit without factors is printed as a row of words. -/
theorem Measure.toList_text_written (terms : List Term) :
    (Measure.written .one terms).text.toList
      = Dotted.joined (terms.map Term.word) := by
  have hrow : terms.map Term.text
      = (terms.map Term.word).map Dotted.written := by
    rw [List.map_map]
    rfl
  unfold text
  dsimp only
  rw [String.toList_ofList, written, if_pos Scientific.isOne_one,
    rowText_eq_intercalate, hrow]
  rfl

section

variable {table : Symbols}
  (hwords : ∀ symbol ∈ table.names, Text.IsWord symbol.toList)
  (hmicro : ∀ name ∈ table.prefixable,
    "u" ++ name ∉ table.prefixable ++ table.standalone)

include hwords hmicro

/-- A printed term is read as the term. -/
theorem Term.term?_word {t : Term} (hone : t.coefficient = .one)
    (h : table.Yields t.scale t.symbol) :
    t.word.term? table = some t := by
  obtain ⟨coefficient, token, u, hu, hscale, hsymbol⟩ := h
  obtain ⟨-, letters, tail, -, -, hreads⟩ :=
    (Symbols.term?_eq_some_iff_reads hwords).1 hu
  rw [hscale, hsymbol] at hreads
  exact (Symbols.term?_eq_some_iff_reads hwords).2
    ⟨hone, _, _, (text_eq hone).symm, Symbols.denotes_exponentText _,
      hreads.printed hmicro⟩

/-- A printed row of terms is read as the terms. -/
theorem Dotted.terms?_printed {terms : List Term} (hne : terms ≠ [])
    (h : ∀ t ∈ terms, t.coefficient = .one
      ∧ table.Yields t.scale t.symbol) :
    terms? table (Measure.written .one terms).text.toList
      = some terms := by
  have hterms : List.Forall₂ (fun w t => Word.term? table w = some t)
      (terms.map Term.word) terms := by
    rw [List.forall₂_map_left_iff, List.forall₂_same]
    intro t ht
    obtain ⟨hone, hyields⟩ := h t ht
    exact t.term?_word hwords hmicro hone hyields
  refine (terms?_eq_some_iff (separable_of_words hwords)).2
    ⟨terms.map Term.word, ?_, ?_, hterms⟩
  · rwa [ne_eq, List.map_eq_nil_iff]
  · exact (Measure.toList_text_written terms).symm

end

-- ============================================================ what is read

section

variable {table : Symbols} {text : List Char} {terms : List Term}

/-- The dotted grammar finds what the table yields. -/
theorem Dotted.yields_of_terms?
    (hwords : ∀ symbol ∈ table.names, Text.IsWord symbol.toList)
    (h : terms? table text = some terms) :
    ∀ t ∈ terms, table.Yields t.scale t.symbol := by
  intro t ht
  obtain ⟨words, -, -, hterms⟩ :=
    (terms?_eq_some_iff (separable_of_words hwords)).1 h
  obtain ⟨w, -, hw⟩ := exists_of_mem_of_forall₂ hterms.flip ht
  exact ⟨_, _, t, hw, rfl, rfl⟩

/-- The fraction grammar finds what the table yields, below a slash with
another exponent. -/
theorem Fraction.yields_of_terms? (h : terms? table text = some terms) :
    ∀ t ∈ terms, table.Yields t.scale t.symbol := by
  intro t ht
  obtain ⟨tokens, items, -, hspells⟩ := terms?_eq_some_iff.1 h
  obtain ⟨place, -, read, hread, heq, -⟩ :=
    exists_of_mem_of_forall₂ hspells.terms.flip ht
  rw [heq]
  exact ⟨_, _, read, hread, rfl, rfl⟩

/-- Whatever a word holds, its row holds. -/
theorem Dotted.written_subset_joined {w : Word} {words : List Word}
    (hw : w ∈ words) : written w ⊆ joined words := by
  induction words with
  | nil => cases hw
  | cons v words ih =>
    cases words with
    | nil =>
      rw [List.mem_singleton.1 hw, joined_singleton]
      exact List.Subset.refl _
    | cons v' words =>
      rw [joined_cons_cons]
      rcases List.mem_cons.1 hw with rfl | hw
      · exact List.subset_append_left _ _
      · intro c hc
        exact List.mem_append_right _
          (List.mem_cons_of_mem _ (ih hw hc))

/-- Without a space there is no number in a dotted text. -/
theorem Dotted.coefficient_eq_one
    (hwords : ∀ symbol ∈ table.names, Text.IsWord symbol.toList)
    (h : terms? table text = some terms) (hspace : ' ' ∉ text) :
    ∀ t ∈ terms, t.coefficient = .one := by
  intro t ht
  obtain ⟨words, -, rfl, hterms⟩ :=
    (terms?_eq_some_iff (separable_of_words hwords)).1 h
  obtain ⟨w, hmem, hw⟩ := exists_of_mem_of_forall₂ hterms.flip ht
  obtain ⟨hone, -⟩ := (Symbols.term?_eq_some_iff_reads hwords).1 hw
  obtain ⟨number, token⟩ := w
  cases number with
  | none => exact hone
  | some n =>
    refine absurd (written_subset_joined hmem ?_) hspace
    exact List.mem_append_right _ List.mem_cons_self

/-- A word of a row is one of its tokens. -/
theorem Fraction.lexeme_mem_tokens {items : List Item} {place : Place}
    (h : place ∈ items.flatMap Item.places) :
    place.word.lexeme ∈ items.flatMap Item.tokens := by
  obtain ⟨item, hitem, hplace⟩ := List.mem_flatMap.1 h
  obtain ⟨w, hw, rfl⟩ := List.mem_map.1 hplace
  refine List.mem_flatMap.2 ⟨item, hitem, List.mem_append_right _ ?_⟩
  obtain ⟨lead, words⟩ := item
  cases words with
  | single v =>
    rw [List.mem_singleton.1 hw]
    exact List.mem_cons_self
  | group words =>
    exact List.mem_cons_of_mem _ (List.mem_append_left _
      (List.mem_map_of_mem hw))

/-- Where no word has a number, every term has the coefficient one. -/
theorem Fraction.coefficient_eq_one
    (hwords : ∀ symbol ∈ table.names, Text.IsWord symbol.toList)
    {tokens : List Token} (hlexes : Token.Lexes text tokens)
    (h : terms? table text = some terms)
    (hnumber : ∀ number symbol, Token.word (some number) symbol ∉ tokens) :
    ∀ t ∈ terms, t.coefficient = .one := by
  intro t ht
  obtain ⟨tokens', items, hlexes', hspells⟩ := terms?_eq_some_iff.1 h
  obtain rfl := hlexes.unique hlexes'
  obtain ⟨place, hplace, read, hread, heq, -⟩ :=
    exists_of_mem_of_forall₂ hspells.terms.flip ht
  have hin := hspells.tokens ▸ lexeme_mem_tokens hplace
  obtain ⟨hone, -⟩ := (Symbols.term?_eq_some_iff_reads hwords).1 hread
  rw [heq]
  obtain ⟨⟨number, token⟩, below⟩ := place
  cases number with
  | none => exact hone
  | some n => exact absurd hin (hnumber _ _)

end

-- =============================================================== reading

/-- Over names of letters, where `u` and a name that takes a prefix make
no other name, a unit without factors is printed as a text that the
dotted grammar reads as the same terms: any row of terms with prefixes
and symbols that the table finds in some token, and so the terms of any
text without numbers, whichever of the grammars has read it. -/
theorem printed_read {prefixable standalone : List String}
    {table : Symbols}
    (hletters : ∀ name ∈ prefixable ++ standalone, ∀ c ∈ name.toList,
      Text.isAlphabetic c = true)
    (hmicro : ∀ name ∈ prefixable, name ≠ "" →
      "u" ++ name ∉ prefixable ++ standalone)
    (hdotted : Reader.ofDotted prefixable standalone
      = .ok (.dotted table)) :
    (∀ terms, terms ≠ [] →
        (∀ t ∈ terms, t.coefficient = .one
          ∧ table.Yields t.scale t.symbol) →
        (Reader.dotted table).read (Measure.written .one terms).text
          = .ok terms)
      ∧ ∃ fraction, Reader.ofFraction prefixable standalone = .ok fraction
        ∧ (∀ reader ∈ [Reader.dotted table, fraction], ∀ text terms,
            reader.read text = .ok terms → terms ≠ [] →
            (∀ t ∈ terms, t.coefficient = .one) →
            (Reader.dotted table).read (Measure.written .one terms).text
              = .ok terms)
        ∧ (∀ text terms, (Reader.dotted table).read text = .ok terms →
            ' ' ∉ text.toList → ∀ t ∈ terms, t.coefficient = .one)
        ∧ ∀ text terms tokens, fraction.read text = .ok terms →
            Token.Lexes text.toList tokens →
            (∀ number symbol, .word (some number) symbol ∉ tokens) →
            ∀ t ∈ terms, t.coefficient = .one := by
  obtain ⟨_, htable, heq, hfraction⟩ := Reader.exists_of_ofDotted hdotted
  cases heq
  obtain rfl := Symbols.eq_of_ofLists htable
  have hwords := Symbols.isWord_of_mem_names hletters
  -- the hypothesis speaks of the names as given, the table of them
  -- sorted
  have hother : ∀ name ∈ Text.longestFirst prefixable,
      "u" ++ name ∉ Text.longestFirst prefixable
        ++ Text.longestFirst standalone := by
    intro name hname hin
    obtain ⟨hname, hne⟩ := Text.mem_longestFirst.1 hname
    exact hmicro name hname hne (Text.mem_longestFirst_append.1 hin).1
  refine ⟨?_, _, hfraction, ?_, ?_, ?_⟩
  · intro terms hne h
    exact Reader.read_eq_ok_iff.2
      (Dotted.terms?_printed hwords hother hne h)
  · intro reader hreader text terms hread hne hone
    refine Reader.read_eq_ok_iff.2
      (Dotted.terms?_printed hwords hother hne fun t ht => ⟨hone t ht, ?_⟩)
    have hterms := Reader.read_eq_ok_iff.1 hread
    rcases List.mem_cons.1 hreader with rfl | hreader
    · exact Dotted.yields_of_terms? hwords hterms t ht
    · rw [List.mem_singleton.1 hreader] at hterms
      exact Fraction.yields_of_terms? hterms t ht
  · intro text terms hread hspace
    exact Dotted.coefficient_eq_one hwords
      (Reader.read_eq_ok_iff.1 hread) hspace
  · intro text terms tokens hread hlexes hnumber
    exact Fraction.coefficient_eq_one hwords hlexes
      (Reader.read_eq_ok_iff.1 hread) hnumber

/-- Micrometres to the least power, found with the micro sign and
printed without it; and a division, printed without a slash. -/
theorem printed_read_micrometres :
    ∃ table fraction terms,
      (∀ name ∈ ["m"] ++ [], ∀ c ∈ name.toList,
          Text.isAlphabetic c = true)
        ∧ (∀ name ∈ ["m"], name ≠ "" → "u" ++ name ∉ ["m"] ++ [])
        ∧ Reader.ofDotted ["m"] [] = .ok (.dotted table)
        ∧ table.term? .one "µm".toList = some ⟨.one, .micro, "m", 1⟩
        ∧ (Reader.dotted table).read "um-2147483648.dam"
          = .ok [⟨.one, .micro, "m", .least⟩, ⟨.one, .deca, "m", 1⟩]
        ∧ Reader.ofFraction ["m"] [] = .ok fraction
        ∧ fraction.read "1/m2" = .ok terms ∧ terms.length = 1
        ∧ (Reader.dotted table).read (Measure.written .one terms).text
          = .ok terms := by
  have hletters : ∀ name ∈ ["m"] ++ [], ∀ c ∈ name.toList,
      Text.isAlphabetic c = true := fun name hname c hc =>
    Text.isAlphabetic_of_isAlpha (Symbols.isAlpha_metres name hname c hc)
  have hmicro : ∀ name ∈ ["m"], name ≠ "" →
      "u" ++ name ∉ ["m"] ++ [] := by
    decide
  have hsign : Symbols.term? ⟨["m"], []⟩ .one "µm".toList
      = some ⟨.one, .micro, "m", 1⟩ :=
    Symbols.term?_metres .one "µ" [] (by decide) .absent
  have hyields (spelling : String) {scale : SIPrefix}
      (hscale : SIPrefix.ofSymbol? spelling = some scale) :
      Symbols.Yields ⟨["m"], []⟩ scale "m" :=
    ⟨.one, _, _, Symbols.term?_metres .one spelling [] hscale .absent,
      rfl, rfl⟩
  have hterms : ∀ t ∈ [(⟨.one, .micro, "m", .least⟩ : Term),
      ⟨.one, .deca, "m", 1⟩],
      t.coefficient = .one
        ∧ Symbols.Yields ⟨["m"], []⟩ t.scale t.symbol := by
    intro t ht
    rcases List.mem_cons.1 ht with rfl | ht
    · exact ⟨rfl, hyields "µ" (by decide)⟩
    · rw [List.mem_singleton.1 ht]
      exact ⟨rfl, hyields "da" (by decide)⟩
  have htext : (Measure.written .one [(⟨.one, .micro, "m", .least⟩ : Term),
      ⟨.one, .deca, "m", 1⟩]).text = "um-2147483648.dam" := by
    decide +kernel
  obtain ⟨hprinted, fraction, hfraction, hagain, -, hplain⟩ :=
    printed_read hletters hmicro Reader.ofDotted_metres
  obtain rfl : fraction = .fraction ⟨["m"], []⟩ := by
    obtain ⟨_, -, heq, hsame⟩ :=
      Reader.exists_of_ofDotted Reader.ofDotted_metres
    cases heq
    exact Except.ok.inj (hfraction.symm.trans hsame)
  have hrun : ((Reader.fraction ⟨["m"], []⟩).read "1/m2").toOption.map
      List.length = some 1 := by
    decide +kernel
  obtain ⟨terms, hsome, hlength⟩ := Option.map_eq_some_iff.1 hrun
  have hread := eq_ok_of_toOption hsome
  have hlexes : Token.Lexes "1/m2".toList
      [.one, .slash, .word none ['m', '2']] :=
    Token.all?_eq_some_iff.1 (by decide +kernel)
  have hone := hplain _ _ _ hread hlexes (by simp)
  have hne : terms ≠ [] := List.ne_nil_of_length_pos (by omega)
  exact ⟨_, _, terms, hletters, hmicro, Reader.ofDotted_metres, hsign,
    htext ▸ hprinted _ (List.cons_ne_nil _ _) hterms, hfraction, hread,
    hlength, hagain _ (by simp) _ _ hread hne hone⟩

end UnitAlgebra
