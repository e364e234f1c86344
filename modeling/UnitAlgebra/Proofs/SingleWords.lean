/-
Single words in the fraction grammar. Over names of ASCII letters, a
text that the dotted grammar reads as one term is one word
(`Dotted.terms?_eq_singleton_iff`). The fraction grammar takes it as one
token, number, blank and exponent included
(`Token.lexes_written`), and looks the same word up in the same table.

# The exception

Micro is spelled in three ways, and two of them are signs that are no
ASCII letters: the micro sign and the Greek letter mu. The table knows
them, but no token of the fraction grammar has them in it, so it reads
no text that holds one.

Letters that mean something are ASCII letters or begin with one of those
signs (`Symbols.Reads.isAlpha_or_micro`), so this is the only exception.
It is carried through the proof as the other case of each lemma
(`Word.lexes_or_micro`, `Fraction.terms?_or_micro`) and turned into a
condition at the end (`fraction_read_word`): the two grammars agree on a
text of one term exactly if it holds neither of the two signs.
-/
import UnitAlgebra.Proofs.Grammars
import UnitAlgebra.Proofs.Readings

namespace UnitAlgebra

-- ======================================================== three spellings

namespace SIPrefix

/-- The spellings of micro that are no ASCII letters. -/
def microSigns : List Char := ['µ', 'μ']

/-- The two signs for micro are letters, but no ASCII letters. -/
theorem isAlphabetic_of_mem_microSigns {c : Char} (h : c ∈ microSigns) :
    Text.isAlphabetic c = true ∧ c.isAlpha = false := by
  rcases List.mem_cons.1 h with rfl | h
  · exact ⟨by decide, by decide⟩
  · rw [List.mem_singleton.1 h]
    exact ⟨by decide, by decide⟩

/-- A prefix is spelled with ASCII letters, or is micro, spelled with a
sign. -/
theorem isAlpha_or_micro_of_ofSymbol? {spelling : String}
    {scale : SIPrefix} (h : ofSymbol? spelling = some scale) :
    (∀ c ∈ spelling.toList, c.isAlpha = true)
      ∨ (scale = .micro ∧ ∃ c ∈ microSigns, c ∈ spelling.toList) := by
  have hall : ∀ p ∈ spellings, p.1.toList.all Char.isAlpha = true
      ∨ p.2 = .micro ∧ microSigns.any (p.1.toList.contains ·) = true := by
    decide
  rcases hall _ (mem_spellings_of_ofSymbol? h) with
    hletters | ⟨hmicro, hsign⟩
  · exact .inl (List.all_eq_true.1 hletters)
  · obtain ⟨c, hc, hin⟩ := List.any_eq_true.1 hsign
    exact .inr ⟨hmicro, c, hc, List.contains_iff_mem.1 hin⟩

end SIPrefix

open SIPrefix (microSigns)

namespace Symbols

/-- Over names of ASCII letters, what letters mean is written in ASCII
letters, or is micro with a sign. -/
theorem Reads.isAlpha_or_micro {prefixable standalone : List String}
    (hnames : ∀ name ∈ prefixable ++ standalone, ∀ c ∈ name.toList,
      c.isAlpha = true)
    {letters : List Char} {scale : SIPrefix} {name : String}
    (h : Reads prefixable standalone letters scale name) :
    (∀ c ∈ letters, c.isAlpha = true)
      ∨ (scale = .micro ∧ ∃ c ∈ microSigns, c ∈ letters) := by
  cases h with
  | alone hknown =>
    have hletters := hnames _ hknown
    rw [String.toList_ofList] at hletters
    exact .inl hletters
  | scaled _ hscales _ =>
    obtain ⟨hscale, hname, rfl⟩ := hscales
    have hin := hnames name (List.mem_append_left _ hname)
    rcases SIPrefix.isAlpha_or_micro_of_ofSymbol? hscale with
      hletters | ⟨hmicro, c, hc, hsign⟩
    · exact .inl fun c hc =>
        (List.mem_append.1 hc).elim (hletters c) (hin c)
    · exact .inr ⟨hmicro, c, hc, List.mem_append_left _ hsign⟩

end Symbols

-- ============================================================== one word

/-- A text with one term is one word. -/
theorem Dotted.terms?_eq_singleton_iff {table : Symbols}
    (hwords : ∀ symbol ∈ table.names, Text.IsWord symbol.toList)
    {text : List Char} {t : Term} :
    terms? table text = some [t] ↔
      ∃ w : Word, written w = text ∧ w.term? table = some t := by
  rw [terms?_eq_some_iff (separable_of_words hwords)]
  constructor
  · intro h
    obtain ⟨words, -, hjoined, hterms⟩ := h
    obtain ⟨w, _, hw, hnil, rfl⟩ := List.forall₂_cons_right_iff.1 hterms
    obtain rfl := List.forall₂_nil_right_iff.1 hnil
    rw [joined_singleton] at hjoined
    exact ⟨w, hjoined, hw⟩
  · intro h
    obtain ⟨w, rfl, hw⟩ := h
    exact ⟨[w], List.cons_ne_nil _ _, joined_singleton w, .cons hw .nil⟩

/-- A word of ASCII letters is one token, and all of its text. -/
theorem Token.lexes_written {w : Word} {letters tail : List Char}
    (htoken : letters ++ tail = w.token) (hne : letters ≠ [])
    (hletters : ∀ c ∈ letters, c.isAlpha = true)
    (htail : Symbols.isExponentText tail = true) :
    Lexes (Dotted.written w) [w.lexeme] := by
  have hnext := next?_written htoken hne hletters htail (.inl rfl)
  rw [List.append_nil] at hnext
  obtain ⟨c, hc⟩ := List.exists_mem_of_ne_nil letters hne
  have hmem : c ∈ Dotted.written w :=
    Dotted.mem_written (htoken ▸ List.mem_append_left _ hc)
  rw [← all?_eq_some_iff, all?_of_next? (List.ne_nil_of_mem hmem) hnext,
    List.drop_length, all?]
  rfl

/-- A word that is one token stands for its term. -/
theorem Fraction.terms?_of_lexes {table : Symbols} {text : List Char}
    {w : Word} {t : Term} (hlexes : Token.Lexes text [w.lexeme])
    (hw : w.term? table = some t) : terms? table text = some [t] := by
  have hplaces : List.Forall₂ (Denotes table)
      (Item.places ⟨.nothing, .single w⟩) [t] :=
    .cons (denotes_above_iff.2 hw) .nil
  exact terms?_eq_some_iff.2 ⟨_, _, hlexes, .singleton hplaces⟩

-- ========================================================= both grammars

section

variable {table : Symbols}
  (hnames : ∀ name ∈ table.prefixable ++ table.standalone,
    ∀ c ∈ name.toList, c.isAlpha = true)
  (hwords : ∀ symbol ∈ table.names, Text.IsWord symbol.toList)

include hnames hwords

/-- A word that stands for a term is one token, or is micro with a
sign. -/
theorem Word.lexes_or_micro {w : Word} {t : Term}
    (h : w.term? table = some t) :
    Token.Lexes (Dotted.written w) [w.lexeme]
      ∨ (t.scale = .micro ∧ ∃ c ∈ microSigns, c ∈ Dotted.written w) := by
  obtain ⟨-, letters, tail, htoken, htail, hreads⟩ :=
    (Symbols.term?_eq_some_iff_reads hwords).1 h
  obtain ⟨s, hs, -, -⟩ := Symbols.exists_spelled?_of_reads hreads
  have hword := Symbols.isWord_of_spelled? hwords hs
  have hexponent := (Symbols.denotes_iff.1 htail).1
  rcases hreads.isAlpha_or_micro hnames with
    hletters | ⟨hmicro, c, hc, hsign⟩
  · exact .inl (Token.lexes_written htoken hword.1 hletters hexponent)
  · have hin : c ∈ w.token := htoken ▸ List.mem_append_left _ hsign
    exact .inr ⟨hmicro, c, hc, Dotted.mem_written hin⟩

/-- What the dotted grammar reads as one term, the fraction grammar reads
as the same term, or it is micro with a sign. -/
theorem Fraction.terms?_or_micro {text : List Char} {t : Term}
    (h : Dotted.terms? table text = some [t]) :
    (terms? table text = some [t] ∧ ∀ c ∈ microSigns, c ∉ text)
      ∨ (t.scale = .micro ∧ (∃ c ∈ microSigns, c ∈ text)
        ∧ terms? table text = none) := by
  -- no text of tokens holds a sign
  have hunread {c : Char} (hc : c ∈ microSigns) (hin : c ∈ text)
      {tokens : List Token} (hlexes : Token.Lexes text tokens) : False := by
    obtain ⟨hletter, hother⟩ := SIPrefix.isAlphabetic_of_mem_microSigns hc
    rw [hlexes.isAlpha hin hletter] at hother
    cases hother
  obtain ⟨w, rfl, hw⟩ := (Dotted.terms?_eq_singleton_iff hwords).1 h
  rcases Word.lexes_or_micro hnames hwords hw with
    hlexes | ⟨hmicro, c, hc, hin⟩
  · exact .inl ⟨terms?_of_lexes hlexes hw,
      fun c hc hin => hunread hc hin hlexes⟩
  · refine .inr ⟨hmicro, ⟨c, hc, hin⟩, ?_⟩
    rw [Option.eq_none_iff_forall_ne_some]
    intro terms hterms
    obtain ⟨tokens, items, hlexes, -⟩ := terms?_eq_some_iff.1 hterms
    exact hunread hc hin hlexes

end

/-- Over the same names of ASCII letters, the fraction grammar reads what
the dotted grammar reads as one term, and reads the same term, unless
micro is written with a sign. Such a text it does not read. -/
theorem fraction_read_word {prefixable standalone : List String}
    {dotted : Reader}
    (hnames : ∀ name ∈ prefixable ++ standalone, ∀ c ∈ name.toList,
      c.isAlpha = true)
    (hdotted : Reader.ofDotted prefixable standalone = .ok dotted) :
    ∃ fraction, Reader.ofFraction prefixable standalone = .ok fraction
      ∧ ∀ (text : String) (t : Term), dotted.read text = .ok [t] →
          (fraction.read text = .ok [t] ↔
              ∀ c ∈ SIPrefix.microSigns, c ∉ text.toList)
            ∧ ((∃ c ∈ SIPrefix.microSigns, c ∈ text.toList) →
              t.scale = .micro
                ∧ fraction.read text = .error (.unreadable text)) := by
  obtain ⟨table, htable, rfl, hfraction⟩ :=
    Reader.exists_of_ofDotted hdotted
  obtain rfl := Symbols.eq_of_ofLists htable
  have hwords := Symbols.isWord_of_mem_names fun name hname c hc =>
    Text.isAlphabetic_of_isAlpha (hnames name hname c hc)
  have hlisted : ∀ name ∈ Text.longestFirst prefixable
      ++ Text.longestFirst standalone, ∀ c ∈ name.toList,
      c.isAlpha = true := by
    intro name hname
    exact hnames name (Text.mem_longestFirst_append.1 hname).1
  refine ⟨_, hfraction, ?_⟩
  intro text t ht
  rw [Reader.read_eq_ok_iff, Reader.read_eq_error_iff]
  rcases Fraction.terms?_or_micro hlisted hwords
    (Reader.read_eq_ok_iff.1 ht) with
    ⟨hterms, hsigns⟩ | ⟨hmicro, ⟨c, hc, hin⟩, hnone⟩
  · refine ⟨iff_of_true hterms hsigns, ?_⟩
    intro h
    obtain ⟨c, hc, hin⟩ := h
    exact absurd hin (hsigns c hc)
  · refine ⟨iff_of_false ?_ fun hsigns => hsigns c hc hin,
      fun _ => ⟨hmicro, rfl, hnone⟩⟩
    intro hterms
    exact absurd (hterms.symm.trans hnone) nofun

-- ================================================================ metres

/-- The grammars over metres alone. -/
theorem Reader.ofDotted_metres :
    ofDotted ["m"] [] = .ok (.dotted ⟨["m"], []⟩) := by
  have hprefixable : Text.longestFirst ["m"] = ["m"] := by decide +kernel
  have hstandalone : Text.longestFirst [] = [] := by decide +kernel
  have htable : Symbols.ofLists ["m"] [] = .ok ⟨["m"], []⟩ := by
    have hmetre : "m" ∈ ["m"] ++ [] := List.mem_cons_self
    rw [Symbols.ofLists_eq_ok hmetre (by decide), hprefixable, hstandalone]
  unfold ofDotted
  rw [htable]
  rfl

theorem Symbols.isWord_metres :
    ∀ symbol ∈ names ⟨["m"], []⟩, Text.IsWord symbol.toList := by
  decide

theorem Symbols.isAlpha_metres :
    ∀ name ∈ ["m"] ++ [], ∀ c ∈ name.toList, c.isAlpha = true := by
  have hall : "m".toList.all Char.isAlpha = true := by decide
  intro name hname
  rw [List.append_nil, List.mem_singleton] at hname
  rw [hname]
  exact List.all_eq_true.1 hall

/-- Metres with a prefix, to some power. -/
theorem Symbols.term?_metres (x : Scientific) (spelling : String)
    {scale : SIPrefix} (tail : List Char) {e : Exponent}
    (hscale : SIPrefix.ofSymbol? spelling = some scale)
    (htail : Denotes tail e) :
    term? ⟨["m"], []⟩ x (spelling.toList ++ ['m'] ++ tail)
      = some ⟨x, scale, "m", e⟩ := by
  have hscales : Scales ["m"] (spelling.toList ++ ['m']) spelling scale
      "m" := ⟨hscale, List.mem_singleton_self _, rfl⟩
  have hempty : SIPrefix.ofSymbol? "" = none := by decide
  refine (term?_eq_some_iff_reads isWord_metres).2
    ⟨rfl, _, _, rfl, htail, .scaled ?_ hscales ?_⟩
  · intro hknown
    have hbare : spelling.toList ++ ['m'] = [] ++ ['m'] := by
      rw [← String.toList_ofList (l := spelling.toList ++ ['m']),
        List.mem_singleton.1 hknown]
      rfl
    have hnothing := List.append_cancel_right hbare
    rw [String.toList_eq_nil_iff.1 hnothing, hempty] at hscale
    cases hscale
  · intro _ _ name h
    have hname : name = "m" := List.mem_singleton.1 h.2.1
    exact hscales.length_le h (hname ▸ le_refl _)

/-- A prefix of two letters, a coefficient with decimals and a negative
exponent. -/
theorem fraction_read_word_decametres :
    ∃ dotted fraction t,
      (∀ name ∈ ["m"] ++ [], ∀ c ∈ name.toList, c.isAlpha = true)
        ∧ Reader.ofDotted ["m"] [] = .ok dotted
        ∧ Reader.ofFraction ["m"] [] = .ok fraction
        ∧ t.scale = .deca ∧ t.symbol = "m" ∧ t.exponent = -3
        ∧ dotted.read "2.5 dam-3" = .ok [t]
        ∧ fraction.read "2.5 dam-3" = .ok [t] := by
  have hdotted := Reader.ofDotted_metres
  obtain ⟨fraction, hfraction, hread⟩ :=
    fraction_read_word Symbols.isAlpha_metres hdotted
  have hsigns : ∀ c ∈ SIPrefix.microSigns, c ∉ "2.5 dam-3".toList := by
    simp [SIPrefix.microSigns]
  let number : Text.Numeral :=
    ⟨⟨['2'], by decide, by simp [Char.isDigit]⟩,
      some ⟨['5'], by decide, by simp [Char.isDigit]⟩⟩
  let t : Term := ⟨number.value, .deca, "m", -3⟩
  have hterm : Word.term? ⟨["m"], []⟩ ⟨some number, "dam-3".toList⟩
      = some t :=
    Symbols.term?_metres _ "da" ['-', '3'] (by decide)
      (Symbols.denotes_iff.2 (by decide))
  have ht : (Reader.dotted ⟨["m"], []⟩).read "2.5 dam-3" = .ok [t] :=
    Reader.read_eq_ok_iff.2 ((Dotted.terms?_eq_singleton_iff
      Symbols.isWord_metres).2 ⟨_, by decide, hterm⟩)
  exact ⟨_, fraction, t, Symbols.isAlpha_metres, hdotted, hfraction, rfl,
    rfl, rfl, ht, (hread _ t ht).1.2 hsigns⟩

/-- Micrometres, written with the micro sign, are known to the table and
read by the dotted grammar only. -/
theorem micro_sign_unread :
    ∃ dotted fraction,
      (∀ name ∈ ["m"] ++ [], ∀ c ∈ name.toList, c.isAlpha = true)
        ∧ Reader.ofDotted ["m"] [] = .ok dotted
        ∧ Reader.ofFraction ["m"] [] = .ok fraction
        ∧ dotted.read "µm" = .ok [⟨.one, .micro, "m", 1⟩]
        ∧ fraction.read "µm" = .error (.unreadable "µm") := by
  obtain ⟨table, -, heq, hfraction⟩ :=
    Reader.exists_of_ofDotted Reader.ofDotted_metres
  cases heq
  have hterm : Word.term? ⟨["m"], []⟩ ⟨none, "µm".toList⟩
      = some ⟨.one, .micro, "m", 1⟩ :=
    Symbols.term?_metres _ "µ" [] (by decide) .absent
  have hunread : Fraction.terms? ⟨["m"], []⟩ "µm".toList = none := by
    decide +kernel
  refine ⟨_, _, Symbols.isAlpha_metres, Reader.ofDotted_metres, hfraction,
    ?_, ?_⟩
  · exact Reader.read_eq_ok_iff.2 ((Dotted.terms?_eq_singleton_iff
      Symbols.isWord_metres).2 ⟨_, by decide, hterm⟩)
  · exact Reader.read_eq_error_iff.2 ⟨rfl, hunread⟩

end UnitAlgebra
