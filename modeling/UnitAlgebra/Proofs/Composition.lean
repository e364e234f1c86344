/-
Composed texts. In the dotted grammar a dot between two unit
expressions multiplies, and in the fraction grammar a slash and
parentheses divide by what stands in them, provided these are words
only.

# On texts

The parts are read inside the larger text as they are read alone: a row
of dotted words may be continued behind a dot, and a row of the fraction
grammar by a slash and a group (`Dotted.Spells.append`,
`Fraction.Spells.over`). The marks in between stop every word, so tokens
stay what they are (`Fraction.lexes_over`).

A composed text must not be taken for a number before any grammar sees
it. Rows of words never are (`Dotted.Spells.plainNumber?`), though each
word may hold one.

# On units

Two computations of a dimension agree. The composed text sums the
exponents of all its terms; the operation sums those of the parts and
adds or subtracts the sums. The invariant is the one of all measures:
what is read spans the total of its terms (`UnitSystem.spans_of_read`),
and totals of rows put together add up.

Here `composed_read` asks for the composed text and the operation to
succeed, since that of their parts does not ensure it: sums on the way
may leave the range in either of them.
-/
import UnitAlgebra.Proofs.DottedRows
import UnitAlgebra.Proofs.FractionRows
import UnitAlgebra.Proofs.PlainNumbers
import UnitAlgebra.Proofs.Totals

namespace UnitAlgebra

-- ============================================================== the dot

namespace Dotted

/-- Two rows are joined by one more dot. An empty row would leave the
dot without a word. -/
theorem joined_append {words words' : List Word} (hne : words ≠ [])
    (hne' : words' ≠ []) :
    joined (words ++ words') = joined words ++ '.' :: joined words' := by
  induction words with
  | nil => exact absurd rfl hne
  | cons v words ih =>
    cases words with
    | nil =>
      obtain ⟨w, words', rfl⟩ := List.exists_cons_of_ne_nil hne'
      rw [joined_singleton]
      exact joined_cons_cons v w words'
    | cons w words =>
      rw [List.cons_append, List.cons_append, joined_cons_cons,
        joined_cons_cons, ← List.cons_append, ih (List.cons_ne_nil w words),
        List.append_assoc]
      rfl

/-- Rows with a dot between them are a row. -/
theorem Spells.append {table : Symbols} {text text' : List Char}
    {words words' : List Word} {terms terms' : List Term}
    (h : Spells table text words terms)
    (h' : Spells table text' words' terms') :
    Spells table (text ++ '.' :: text') (words ++ words')
      (terms ++ terms') where
  ne_nil := List.append_ne_nil_of_left_ne_nil h.ne_nil _
  joined := by
    rw [joined_append h.ne_nil h'.ne_nil, h.joined, h'.joined]
  terms := List.rel_append h.terms h'.terms

/-- A row of words is no plain number: it starts with a letter, or it
has a space in it. -/
theorem Spells.plainNumber? {table : Symbols}
    (hsymbols : ∀ symbol ∈ table.names, Separable symbol.toList)
    {text : String} {words : List Word} {terms : List Term}
    (h : Spells table text.toList words terms) :
    UnitSystem.plainNumber? text = none := by
  have hseparable := h.separable hsymbols
  obtain ⟨hne, hjoined, -⟩ := h
  obtain ⟨⟨number, token⟩, words, rfl⟩ := List.exists_cons_of_ne_nil hne
  obtain ⟨rest, hrest⟩ := exists_joined_cons ⟨number, token⟩ words
  rw [hrest] at hjoined
  cases number with
  | none =>
    obtain ⟨c, tail, rfl, hc⟩ :=
      (hseparable _ List.mem_cons_self).exists_cons
    exact UnitSystem.plainNumber?_of_letter hjoined.symm hc
  | some n =>
    have hspace : ' ' ∈ text.toList := by
      rw [← hjoined]
      simp [written]
    refine UnitSystem.plainNumber?_of_mem hspace ?_
    unfold Number.IsMark
    decide

end Dotted

-- ============================================================ the slash

/-- A token tells its word. -/
theorem Word.lexeme_inj {v w : Word} (h : v.lexeme = w.lexeme) :
    v = w := by
  obtain ⟨number, token⟩ := v
  obtain ⟨number', token'⟩ := w
  obtain ⟨hnumber, htoken⟩ := Token.word.inj h
  obtain rfl : number = number' :=
    Option.map_injective (fun _ _ => Text.Numeral.text_inj) hnumber
  obtain rfl : token = token' := htoken
  rfl

namespace Fraction

/-- A text of words. -/
def OnlyWords (text : List Char) : Prop :=
  ∃ words : List Word, Token.Lexes text (words.map Word.lexeme)

variable {table : Symbols}

/-- The words of a row of words are read one by one. -/
theorem reads_of_spells {words : List Word} {items : List Item}
    {terms : List Term}
    (h : Spells table (words.map Word.lexeme) items terms) :
    Reads table words terms := by
  induction words generalizing items terms with
  | nil =>
    rw [h.eq_nil]
    exact .nil
  | cons w words ih =>
    rw [List.map_cons] at h
    generalize htoken : w.lexeme = token at h
    generalize hrest : words.map Word.lexeme = rest at h ih
    cases h.begins with
    | word hw hback =>
      rw [← Word.lexeme_inj htoken] at hw
      exact .cons hw (ih hback)
    | group => cases htoken
    | slash => cases htoken
    | oneSlash => cases htoken

/-- A row may be continued by a slash and words in parentheses. -/
theorem Spells.over {tokens : List Token} {items : List Item}
    {terms reads inverted : List Term} {words : List Word}
    (h : Spells table tokens items terms)
    (hwords : Reads table words reads)
    (hinverted : reads.mapM Term.inverse? = some inverted) :
    Spells table
      (tokens ++ .slash :: .opening :: (words.map Word.lexeme ++ [.closing]))
      (items ++ [⟨.slash, .group words⟩]) (terms ++ inverted) := by
  have hitem : List.Forall₂ (Denotes table)
      (Item.places ⟨.slash, .group words⟩) inverted :=
    forall₂_below_iff.2 ⟨reads, hwords, hinverted⟩
  exact h.append (.singleton hitem)

/-- The tokens of a text over words in parentheses. -/
theorem lexes_over {text text' : List Char} {tokens tokens' : List Token}
    (h : Token.Lexes text tokens) (h' : Token.Lexes text' tokens') :
    Token.Lexes (text ++ '/' :: '(' :: (text' ++ [')']))
      (tokens ++ .slash :: .opening :: (tokens' ++ [.closing])) :=
  h.append Token.stops_slash
    (h'.append Token.stops_closing Token.Lexes.nil.closing).opening.slash

end Fraction

-- =========================================================== dimensions

/-- A text that is left to the grammar. -/
def UnitSystem.Grammatical (text : String) : Prop :=
  text ≠ "" ∧ UnitSystem.plainNumber? text = none

/-- What a grammar has read spans the total of the terms. -/
theorem UnitSystem.spans_of_read {definitions : Definitions}
    {base : List String} {system : UnitSystem}
    (hc : Catalog.build definitions base = .ok system.catalog)
    {text : String} (htext : UnitSystem.Grammatical text) {m : Measure}
    (h : system.read text = .ok m) :
    system.reader.read text = .ok m.terms
      ∧ m.Spans (system.catalog.total m.terms) := by
  obtain ⟨hne, hnumber⟩ := htext
  unfold UnitSystem.read at h
  rw [if_neg hne, hnumber] at h
  obtain ⟨terms, hterms, h⟩ := bind_eq_ok_iff.1 h
  have hbalanced :=
    Measure.balanced_measure (Built.of_build hc).wellFormed h
  obtain ⟨form, -, h⟩ := bind_eq_ok_iff.1 h
  obtain ⟨-, rfl⟩ := Measure.ofForms_eq_ok_iff.1 h
  exact ⟨hterms, hbalanced⟩

-- ========================================================= composition

theorem toList_dotted (a b : String) :
    (a ++ "." ++ b).toList = a.toList ++ '.' :: b.toList := by
  rw [String.toList_append, String.toList_append, List.append_assoc]
  rfl

theorem toList_over (a b : String) :
    (a ++ "/(" ++ b ++ ")").toList
      = a.toList ++ '/' :: '(' :: (b.toList ++ [')']) := by
  rw [String.toList_append, String.toList_append, String.toList_append,
    List.append_assoc, List.append_assoc]
  rfl

section

variable {table : Symbols} {a b : String} {terms terms' : List Term}

/-- Behind a dot, a text continues the row in front of it. -/
theorem read_dotted
    (hsymbols : ∀ symbol ∈ table.names, Dotted.Separable symbol.toList)
    (ha : (Reader.dotted table).read a = .ok terms)
    (hb : (Reader.dotted table).read b = .ok terms') :
    (Reader.dotted table).read (a ++ "." ++ b) = .ok (terms ++ terms')
      ∧ UnitSystem.Grammatical (a ++ "." ++ b) := by
  obtain ⟨words, ha⟩ := (Dotted.terms?_eq_some_iff hsymbols).1
    (Reader.read_eq_ok_iff.1 ha)
  obtain ⟨words', hb⟩ := (Dotted.terms?_eq_some_iff hsymbols).1
    (Reader.read_eq_ok_iff.1 hb)
  have hspells : Dotted.Spells table (a ++ "." ++ b).toList
      (words ++ words') (terms ++ terms') :=
    toList_dotted a b ▸ ha.append hb
  refine ⟨Reader.read_eq_ok_iff.2
    ((Dotted.terms?_eq_some_iff hsymbols).2 ⟨_, hspells⟩), ?_,
    hspells.plainNumber? hsymbols⟩
  intro hempty
  have hlist := toList_dotted a b
  rw [hempty] at hlist
  simp at hlist

/-- Below a slash, words in parentheses are turned over. -/
theorem read_over {inverted : List Term}
    (ha : (Reader.fraction table).read a = .ok terms)
    (hb : (Reader.fraction table).read b = .ok terms')
    (hwords : Fraction.OnlyWords b.toList)
    (hinverted : terms'.mapM Term.inverse? = some inverted) :
    (Reader.fraction table).read (a ++ "/(" ++ b ++ ")")
        = .ok (terms ++ inverted)
      ∧ UnitSystem.Grammatical (a ++ "/(" ++ b ++ ")") := by
  obtain ⟨tokens, items, hlexes, ha⟩ := Fraction.terms?_eq_some_iff.1
    (Reader.read_eq_ok_iff.1 ha)
  obtain ⟨tokens', items', hlexes', hb⟩ := Fraction.terms?_eq_some_iff.1
    (Reader.read_eq_ok_iff.1 hb)
  obtain ⟨words, hwords⟩ := hwords
  rw [hlexes'.unique hwords] at hb
  have hspells := ha.over (Fraction.reads_of_spells hb) hinverted
  have hlexes := Fraction.lexes_over hlexes hwords
  rw [← toList_over] at hlexes
  have hslash : '/' ∈ (a ++ "/(" ++ b ++ ")").toList := by
    rw [toList_over]
    simp
  refine ⟨Reader.read_eq_ok_iff.2
    (Fraction.terms?_eq_some_iff.2 ⟨_, _, hlexes, hspells⟩), ?_,
    UnitSystem.plainNumber?_of_mem hslash ?_⟩
  · intro hempty
    rw [hempty] at hslash
    cases hslash
  · unfold Number.IsMark
    decide

end

/-- Composing texts composes units. Over names of letters, two texts of
the dotted grammar with a dot between them give the terms of the one
and then those of the other. In the fraction grammar, a text over words
in parentheses gives its terms and then the others turned over, unless
one of those has the least exponent. So the composed text has the
dimension of the product, or of the quotient, of what the two texts
stand for, whenever all of it is there. -/
theorem composed_read (table : Symbols)
    (hwords : ∀ symbol ∈ table.names, Text.IsWord symbol.toList)
    (a b : String) :
    (∀ terms terms', (Reader.dotted table).read a = .ok terms →
        (Reader.dotted table).read b = .ok terms' →
          (Reader.dotted table).read (a ++ "." ++ b)
            = .ok (terms ++ terms'))
      ∧ (∀ terms terms', (Reader.fraction table).read a = .ok terms →
          (Reader.fraction table).read b = .ok terms' →
            Fraction.OnlyWords b.toList →
              (∀ t ∈ terms', t.exponent ≠ .least) →
                ∃ inverted, terms'.mapM Term.inverse? = some inverted
                  ∧ (Reader.fraction table).read (a ++ "/(" ++ b ++ ")")
                      = .ok (terms ++ inverted))
      ∧ ∀ (definitions : Definitions) (base : List String)
          (c : Catalog), Catalog.build definitions base = .ok c →
            UnitSystem.Grammatical a → UnitSystem.Grammatical b →
              (∀ u v w product,
                (UnitSystem.mk (.dotted table) c).read a = .ok u →
                (UnitSystem.mk (.dotted table) c).read b = .ok v →
                (UnitSystem.mk (.dotted table) c).read (a ++ "." ++ b)
                    = .ok w →
                u.mul v = .ok product →
                  ∃ d, w.dimension? = some d
                    ∧ product.dimension? = some d)
              ∧ (Fraction.OnlyWords b.toList → ∀ u v w quotient,
                (UnitSystem.mk (.fraction table) c).read a = .ok u →
                (UnitSystem.mk (.fraction table) c).read b = .ok v →
                (UnitSystem.mk (.fraction table) c).read
                    (a ++ "/(" ++ b ++ ")") = .ok w →
                u.div v = .ok quotient →
                  ∃ d, w.dimension? = some d
                    ∧ quotient.dimension? = some d) := by
  have hsymbols : ∀ symbol ∈ table.names,
      Dotted.Separable symbol.toList :=
    fun symbol hmem => Dotted.separable_of_isWord (hwords symbol hmem)
  refine ⟨fun terms terms' ha hb => (read_dotted hsymbols ha hb).1,
    fun terms terms' ha hb honly hleast => ?_,
    fun definitions base c hc hreachA hreachB =>
      ⟨fun u v w product hu hv hw hproduct => ?_,
        fun honly u v w quotient hu hv hw hquotient => ?_⟩⟩
  · have hinverses :=
      exists_forall₂_iff.2 fun t ht =>
        Term.exists_inverse?_iff.2 (hleast t ht)
    obtain ⟨inverted, hinverted⟩ := hinverses
    have hinverted := mapM_eq_some_iff.2 hinverted
    exact ⟨inverted, hinverted, (read_over ha hb honly hinverted).1⟩
  · obtain ⟨ha, hu⟩ := UnitSystem.spans_of_read hc hreachA hu
    obtain ⟨hb, hv⟩ := UnitSystem.spans_of_read hc hreachB hv
    obtain ⟨hread, hreach⟩ := read_dotted hsymbols ha hb
    obtain ⟨hall, hw⟩ := UnitSystem.spans_of_read hc hreach hw
    -- both sides span the sum of the two totals
    rw [Except.ok.inj (hall.symm.trans hread), Catalog.total_append] at hw
    exact hw.dimension_eq (hu.mul hv hproduct)
  · obtain ⟨ha, hu⟩ := UnitSystem.spans_of_read hc hreachA hu
    obtain ⟨hb, hv⟩ := UnitSystem.spans_of_read hc hreachB hv
    obtain ⟨turned, hturned, -⟩ := Measure.div_eq_ok hquotient
    have hinverted := (Measure.inverse_eq_ok hturned).2.1
    obtain ⟨hread, hreach⟩ := read_over ha hb honly hinverted
    obtain ⟨hall, hw⟩ := UnitSystem.spans_of_read hc hreach hw
    rw [Except.ok.inj (hall.symm.trans hread), Catalog.total_append,
      Catalog.total_mapM_inverse? hinverted, ← sub_eq_add_neg] at hw
    exact hw.dimension_eq (hu.div hv hquotient)

/-- `2 m.m2` is cubic, like the product of `2 m` and `m2`, and
`2 m/(m2)` is per metre, like the quotient. -/
theorem composed_read_cubic_metres :
    ∃ (c : Catalog) (product quotient w w' : Measure),
      (∀ symbol ∈ Symbols.names ⟨["m"], []⟩, Text.IsWord symbol.toList)
        ∧ Catalog.build [] ["m"] = .ok c
        ∧ (UnitSystem.mk (.dotted ⟨["m"], []⟩) c).read
            ("2 m" ++ "." ++ "m2") = .ok w
        ∧ (UnitSystem.mk (.fraction ⟨["m"], []⟩) c).read
            ("2 m" ++ "/(" ++ "m2" ++ ")") = .ok w'
        ∧ w.dimension? = some [⟨"m", 3⟩]
        ∧ product.dimension? = some [⟨"m", 3⟩]
        ∧ w'.dimension? = some [⟨"m", -1⟩]
        ∧ quotient.dimension? = some [⟨"m", -1⟩] := by
  have hwords : ∀ symbol ∈ Symbols.names ⟨["m"], []⟩,
      Text.IsWord symbol.toList := by
    decide
  have hrun : (do
      let c ← Catalog.build [] ["m"]
      let u ← (UnitSystem.mk (.dotted ⟨["m"], []⟩) c).read "2 m"
      let v ← (UnitSystem.mk (.dotted ⟨["m"], []⟩) c).read "m2"
      let w ← (UnitSystem.mk (.dotted ⟨["m"], []⟩) c).read
        ("2 m" ++ "." ++ "m2")
      let product ← u.mul v
      let u' ← (UnitSystem.mk (.fraction ⟨["m"], []⟩) c).read "2 m"
      let v' ← (UnitSystem.mk (.fraction ⟨["m"], []⟩) c).read "m2"
      let w' ← (UnitSystem.mk (.fraction ⟨["m"], []⟩) c).read
        ("2 m" ++ "/(" ++ "m2" ++ ")")
      let quotient ← u'.div v'
      return w.dimension? = some [⟨"m", 3⟩]
        && w'.dimension? = some [⟨"m", -1⟩]
      : Except Fault Bool).toOption = some true := by
    decide +kernel
  obtain ⟨c, hc, hrun⟩ := bind_eq_ok_iff.1 (eq_ok_of_toOption hrun)
  obtain ⟨u, hu, hrun⟩ := bind_eq_ok_iff.1 hrun
  obtain ⟨v, hv, hrun⟩ := bind_eq_ok_iff.1 hrun
  obtain ⟨w, hw, hrun⟩ := bind_eq_ok_iff.1 hrun
  obtain ⟨product, hproduct, hrun⟩ := bind_eq_ok_iff.1 hrun
  obtain ⟨u', hu', hrun⟩ := bind_eq_ok_iff.1 hrun
  obtain ⟨v', hv', hrun⟩ := bind_eq_ok_iff.1 hrun
  obtain ⟨w', hw', hrun⟩ := bind_eq_ok_iff.1 hrun
  obtain ⟨quotient, hquotient, hrun⟩ := bind_eq_ok_iff.1 hrun
  obtain ⟨hcubic, hper⟩ := Bool.and_eq_true_iff.1 (Except.ok.inj hrun)
  have hreach : UnitSystem.Grammatical "2 m"
      ∧ UnitSystem.Grammatical "m2" := by
    unfold UnitSystem.Grammatical
    decide +kernel
  have honly : Fraction.OnlyWords "m2".toList :=
    ⟨[⟨none, "m2".toList⟩], Token.all?_eq_some_iff.1 (by decide +kernel)⟩
  obtain ⟨-, -, hdimension⟩ := composed_read ⟨["m"], []⟩ hwords "2 m" "m2"
  obtain ⟨hmul, hdiv⟩ := hdimension [] ["m"] c hc hreach.1 hreach.2
  obtain ⟨d, hwd, hproductd⟩ := hmul u v w product hu hv hw hproduct
  obtain ⟨e, hwe, hquotiente⟩ :=
    hdiv honly u' v' w' quotient hu' hv' hw' hquotient
  have hcubic := of_decide_eq_true hcubic
  have hper := of_decide_eq_true hper
  refine ⟨c, product, quotient, w, w', hwords, hc, hw, hw', hcubic, ?_,
    hper, ?_⟩
  · rw [hproductd, ← hwd, hcubic]
  · rw [hquotiente, ← hwe, hper]

end UnitAlgebra
