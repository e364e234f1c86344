/-
Words: what both grammars are made of. A word is a token of the symbol
table, with or without a number in front of it (`Word`). The grammars
differ in how they find words in a text and agree on what a word stands
for, so what is said here is used by both.

# Numbers

A number is digits, and perhaps a point with more digits
(`Text.Numeral`). It is a structure and no predicate on texts: parts
that are not allowed cannot be written down, and a number says itself
where it ends. The coefficient of a term is read from exactly the
numbers (`Symbols.coefficient?_eq_some_iff`), and no text is that of two
(`Text.Numeral.text_inj`).

# Tokens

A token is recognised only as a spelling of the table with an exponent
text behind it (`Symbols.exists_of_term?`), and its symbol is a name of
the table. A name of letters is more than that: standing alone it is
read as itself, whatever else is in the table
(`Symbols.term?_eq_of_isWord`).

# Rows of results

Reading a row of words is reading each of them. The lemmas on `mapM` and
`List.Forall₂` turn the one into the other and find the partner of an
element in the other row.
-/
import Mathlib.Data.List.Forall2
import Mathlib.Data.List.TakeWhile
import UnitAlgebra.Symbols
import UnitAlgebra.Text.Alphabetic

namespace UnitAlgebra

-- ========================================================== characters

namespace Text

/-- Digits come before all letters. -/
theorem toNat_lt_of_isDigit {c : Char} (h : c.isDigit = true) :
    c.toNat < 58 := by
  unfold Char.isDigit at h
  simp only [Bool.and_eq_true, decide_eq_true_iff] at h
  have hupper : c.val.toNat ≤ 57 := h.2
  show c.val.toNat < 58
  omega

/-- Letters come after the digits and after every mark that stands in a
number or an exponent. -/
theorem le_toNat_of_isAlphabetic {c : Char}
    (h : isAlphabetic c = true) : 65 ≤ c.toNat := by
  unfold isAlphabetic at h
  split at h
  · unfold Char.isAlpha Char.isUpper Char.isLower at h
    simp only [Bool.or_eq_true, Bool.and_eq_true, decide_eq_true_iff] at h
    show 65 ≤ c.val.toNat
    rcases h with ⟨hlower, -⟩ | ⟨hlower, -⟩
    · exact hlower
    · exact le_trans (by decide) (UInt32.le_iff_toNat_le.1 hlower)
  · omega

/-- A letter is no digit, so numbers end where symbols begin. -/
theorem not_isDigit_of_isAlphabetic {c : Char}
    (h : isAlphabetic c = true) : c.isDigit = false := by
  refine Bool.eq_false_iff.2 fun hdigit => ?_
  have hlow := toNat_lt_of_isDigit hdigit
  have hhigh := le_toNat_of_isAlphabetic h
  omega

/-- Taking a run off the front stops where the run does. -/
theorem takeWhile_append_stop {p : Char → Bool} {run : List Char}
    (hrun : ∀ c ∈ run, p c = true) (rest : List Char)
    (hrest : rest.takeWhile p = []) :
    (run ++ rest).takeWhile p = run := by
  rw [List.takeWhile_append_of_pos hrun, hrest, List.append_nil]

theorem dropWhile_append_stop {p : Char → Bool} {run : List Char}
    (hrun : ∀ c ∈ run, p c = true) (rest : List Char)
    (hrest : rest.takeWhile p = []) :
    (run ++ rest).dropWhile p = rest := by
  have hsplit := List.takeWhile_append_dropWhile (p := p) (l := rest)
  rw [hrest, List.nil_append] at hsplit
  rw [List.dropWhile_append_of_pos hrun, hsplit]

/-- A text of letters, at least one. -/
def IsWord (text : List Char) : Prop :=
  text ≠ [] ∧ ∀ c ∈ text, isAlphabetic c = true

instance (text : List Char) : Decidable (IsWord text) :=
  decidable_of_iff (text ≠ [] ∧ text.all isAlphabetic = true) <| by
    unfold IsWord
    rw [List.all_eq_true]

end Text

-- ========================================================= rows of options

/-- A row has a value when each of its elements has one. -/
theorem mapM_eq_some_iff {α β : Type} {f : α → Option β} {l : List α}
    {values : List β} :
    l.mapM f = some values ↔
      List.Forall₂ (fun a b => f a = some b) l values := by
  induction l generalizing values with
  | nil => simp [eq_comm]
  | cons a l ih =>
    rw [List.mapM_cons, List.forall₂_cons_left_iff]
    constructor
    · intro h
      obtain ⟨b, hb, h⟩ := Option.bind_eq_some_iff.1 h
      obtain ⟨rest, hrest, h⟩ := Option.bind_eq_some_iff.1 h
      cases h
      exact ⟨b, rest, hb, ih.1 hrest, rfl⟩
    · rintro ⟨b, rest, hb, hrest, rfl⟩
      rw [hb, ih.2 hrest]
      rfl

/-- In rows that belong together every element has a partner. -/
theorem exists_of_mem_of_forall₂ {α β : Type} {R : α → β → Prop}
    {l : List α} {m : List β} (h : List.Forall₂ R l m) {a : α}
    (ha : a ∈ l) : ∃ b ∈ m, R a b := by
  induction h with
  | nil => cases ha
  | cons hhead _ ih =>
    rcases List.mem_cons.1 ha with rfl | ha
    · exact ⟨_, List.mem_cons_self, hhead⟩
    · obtain ⟨b, hb, hR⟩ := ih ha
      exact ⟨b, List.mem_cons_of_mem _ hb, hR⟩

/-- A row has partners when each of its elements has one. -/
theorem exists_forall₂_iff {α β : Type} {R : α → β → Prop}
    {l : List α} : (∃ m, List.Forall₂ R l m) ↔ ∀ a ∈ l, ∃ b, R a b := by
  constructor
  · rintro ⟨m, h⟩ a ha
    obtain ⟨b, -, hb⟩ := exists_of_mem_of_forall₂ h ha
    exact ⟨b, hb⟩
  · intro h
    induction l with
    | nil => exact ⟨[], .nil⟩
    | cons a l ih =>
      obtain ⟨b, hb⟩ := h a List.mem_cons_self
      obtain ⟨m, hm⟩ := ih fun a ha => h a (List.mem_cons_of_mem _ ha)
      exact ⟨b :: m, .cons hb hm⟩

/-- What belongs to two rows one after the other is cut between them. -/
theorem exists_append_of_forall₂ {α β : Type} {R : α → β → Prop}
    {l l' : List α} {m : List β} (h : List.Forall₂ R (l ++ l') m) :
    ∃ front back, front ++ back = m ∧ List.Forall₂ R l front
      ∧ List.Forall₂ R l' back :=
  ⟨m.take l.length, m.drop l.length, List.take_append_drop _ m,
    (List.forall₂_take_append m l l' h.flip).flip,
    (List.forall₂_drop_append m l l' h.flip).flip⟩

-- ============================================================== numbers

namespace Text

/-- A text of digits, at least one. -/
structure Digits where
  chars : List Char
  ne_nil : chars ≠ []
  isDigit : ∀ c ∈ chars, c.isDigit = true

/-- Digits are told by their characters. -/
theorem Digits.ext {a b : Digits} (h : a.chars = b.chars) : a = b := by
  cases a
  cases b
  cases h
  rfl

/-- Digits hold no point, so the first point of a number is the one. -/
theorem Digits.dot_not_mem (digits : Digits) : '.' ∉ digits.chars :=
  fun h => absurd (digits.isDigit _ h) (by decide)

/-- A number as it is written in front of a symbol. -/
structure Numeral where
  whole : Digits
  fraction : Option Digits

namespace Numeral

/-- The digits after the point, if there are any. -/
def fractionChars (n : Numeral) : List Char :=
  match n.fraction with
  | none => []
  | some digits => digits.chars

/-- The text of a number. -/
def text (n : Numeral) : List Char :=
  match n.fraction with
  | none => n.whole.chars
  | some digits => n.whole.chars ++ '.' :: digits.chars

/-- The number that is written. -/
def value (n : Numeral) : Scientific :=
  .ofFloat (Number.nearest
    (Number.ofDigits (n.whole.chars ++ n.fractionChars))
    (-n.fractionChars.length))

/-- A number holds digits and points. -/
theorem isDigit_or_eq_of_mem_text {n : Numeral} {c : Char}
    (h : c ∈ n.text) : c.isDigit = true ∨ c = '.' := by
  unfold text at h
  split at h
  · exact .inl (n.whole.isDigit c h)
  · next digits _ =>
    rcases List.mem_append.1 h with h | h
    · exact .inl (n.whole.isDigit c h)
    · rcases List.mem_cons.1 h with h | h
      · exact .inr h
      · exact .inl (digits.isDigit c h)

/-- A number starts with its whole digits. -/
theorem exists_text_eq_append (n : Numeral) :
    ∃ rest, n.text = n.whole.chars ++ rest := by
  unfold text
  split
  · exact ⟨[], (List.append_nil _).symm⟩
  · next digits _ => exact ⟨'.' :: digits.chars, rfl⟩

/-- A number holds no space, so the first space behind it is the one
before its token. -/
theorem space_not_mem_text (n : Numeral) : ' ' ∉ n.text := by
  intro h
  rcases isDigit_or_eq_of_mem_text h with h | h
  · exact absurd h (by decide)
  · exact absurd h (by decide)

/-- A text is that of one number only. -/
theorem text_inj {m n : Numeral} (h : m.text = n.text) : m = n := by
  obtain ⟨whole, fraction⟩ := m
  obtain ⟨whole', fraction'⟩ := n
  cases fraction with
  | none =>
    cases fraction' with
    | none =>
      have hwhole : whole = whole' := Digits.ext h
      rw [hwhole]
    | some digits' =>
      refine absurd ?_ whole.dot_not_mem
      rw [show whole.chars = whole'.chars ++ '.' :: digits'.chars from h]
      simp
  | some digits =>
    cases fraction' with
    | none =>
      refine absurd ?_ whole'.dot_not_mem
      rw [show whole'.chars = whole.chars ++ '.' :: digits.chars
        from h.symm]
      simp
    | some digits' =>
      obtain ⟨hwhole, -, hdigits⟩ := (List.append_cons_inj_of_notMem
        whole.dot_not_mem digits.dot_not_mem).1 h
      rw [Digits.ext hwhole, Digits.ext hdigits]

end Numeral

end Text

namespace Symbols

/-- A coefficient is read from the text of a number, and from no other
text. -/
theorem coefficient?_eq_some_iff {text : List Char} {x : Scientific} :
    coefficient? text = some x ↔
      ∃ n : Text.Numeral, n.text = text ∧ n.value = x := by
  constructor
  · intro h
    have hsplit := List.takeWhile_append_dropWhile
      (p := Char.isDigit) (l := text)
    unfold coefficient? at h
    simp only at h
    split at h
    · cases h
    · next hwhole =>
      rw [List.isEmpty_iff] at hwhole
      -- the parts that were read, with the checks that they passed
      let whole : Text.Digits := ⟨text.takeWhile Char.isDigit, hwhole,
        fun c hc => List.mem_takeWhile_imp hc⟩
      obtain ⟨fraction, hfraction, rfl⟩ := Option.map_eq_some_iff.1 h
      split at hfraction
      · next hnil =>
        cases hfraction
        rw [hnil, List.append_nil] at hsplit
        exact ⟨⟨whole, none⟩, hsplit, rfl⟩
      · next after hpoint =>
        split at hfraction
        · cases hfraction
        · next hdigits =>
          cases hfraction
          rw [not_or, not_not, List.isEmpty_iff, List.all_eq_true]
            at hdigits
          rw [hpoint] at hsplit
          exact ⟨⟨whole, some ⟨fraction, hdigits.1, hdigits.2⟩⟩, hsplit,
            rfl⟩
      · cases hfraction
  · rintro ⟨n, rfl, rfl⟩
    obtain ⟨whole, fraction⟩ := n
    have hwhole : whole.chars.isEmpty = false :=
      Bool.eq_false_iff.2 (mt List.isEmpty_iff.1 whole.ne_nil)
    unfold coefficient?
    cases fraction with
    | none =>
      have htake := Text.takeWhile_append_stop whole.isDigit [] rfl
      have hdrop := Text.dropWhile_append_stop whole.isDigit [] rfl
      rw [List.append_nil] at htake hdrop
      simp only [Text.Numeral.text, htake, hdrop, hwhole]
      rfl
    | some digits =>
      have htake := Text.takeWhile_append_stop whole.isDigit
        ('.' :: digits.chars) rfl
      have hdrop := Text.dropWhile_append_stop whole.isDigit
        ('.' :: digits.chars) rfl
      have hgood : ¬ (digits.chars.isEmpty = true
          ∨ ¬ digits.chars.all Char.isDigit = true) := by
        rw [not_or, not_not, List.isEmpty_iff, List.all_eq_true]
        exact ⟨digits.ne_nil, digits.isDigit⟩
      simp only [Text.Numeral.text, htake, hdrop, hwhole]
      simp only [if_neg hgood]
      rfl

end Symbols

-- ================================================================ words

/-- A token of the symbol table, with or without a number in front. -/
structure Word where
  number : Option Text.Numeral
  token : List Char

namespace Word

/-- The coefficient that a word gives to its term. -/
def coefficient (w : Word) : Scientific :=
  match w.number with
  | none => .one
  | some n => n.value

/-- The term of a word, if its token is recognised. -/
def term? (table : Symbols) (w : Word) : Option Term :=
  table.term? w.coefficient w.token

end Word

-- ========================================================== recognition

namespace Symbols

variable {table : Symbols}

/-- The symbols of a table. -/
def names (table : Symbols) : List String :=
  table.standalone ++ table.prefixable

/-- What a table can spell: its symbols alone, and some of them behind
a prefix. -/
theorem mem_spellings {spelling : Spelling}
    (h : spelling ∈ table.spellings) :
    spelling.symbol ∈ table.names
      ∧ (spelling = bare spelling.symbol
        ∨ ∃ p ∈ SIPrefix.longestFirst,
            spelling.text = p.1.toList ++ spelling.symbol.toList) := by
  unfold spellings at h
  rw [← List.map_append] at h
  rcases List.mem_append.1 h with h | h
  · obtain ⟨symbol, hsymbol, rfl⟩ := List.mem_map.1 h
    exact ⟨hsymbol, .inl rfl⟩
  · obtain ⟨p, hp, h⟩ := List.mem_flatMap.1 h
    obtain ⟨symbol, hsymbol, rfl⟩ := List.mem_map.1 h
    exact ⟨List.mem_append_right _ hsymbol, .inr ⟨p, hp, rfl⟩⟩

/-- A prefix is spelled with letters. -/
theorem isWord_of_mem_longestFirst {p : String × SIPrefix}
    (h : p ∈ SIPrefix.longestFirst) : Text.IsWord p.1.toList := by
  have hletters : ∀ p ∈ SIPrefix.spellings, Text.IsWord p.1.toList := by
    decide
  exact hletters p
    (SIPrefix.mem_spellings_of_ofSymbol? (SIPrefix.mem_longestFirst_iff.1 h))

/-- What stands behind a spelling holds digits and minus signs. -/
theorem isDigit_or_eq_of_mem_exponentText {tail : List Char}
    (h : isExponentText tail = true) {c : Char} (hc : c ∈ tail) :
    c.isDigit = true ∨ c = '-' := by
  have hall : ∀ digits : List Char,
      (!digits.isEmpty && digits.all Char.isDigit) = true →
        ∀ c ∈ digits, c.isDigit = true := by
    intro digits hdigits
    exact List.all_eq_true.1 (Bool.and_eq_true_iff.1 hdigits).2
  unfold isExponentText at h
  rcases Bool.or_eq_true_iff.1 h with h | h
  · rw [List.isEmpty_iff.1 h] at hc
    cases hc
  · unfold isSignedDigits at h
    split at h
    · rcases List.mem_cons.1 hc with hc | hc
      · exact .inr hc
      · exact .inl (hall _ h c hc)
    · exact .inl (hall _ h c hc)

/-- A spelling fits a token when it is the front of it and the rest is
an exponent text. -/
theorem remainder?_eq_some_iff {spelling : Spelling}
    {token tail : List Char} :
    remainder? spelling token = some tail ↔
      spelling.text ++ tail = token ∧ isExponentText tail = true := by
  unfold remainder?
  rw [Option.filter_eq_some_iff,
    List.isPrefixOf?_eq_some_iff_append_eq]

/-- A token is recognised as a spelling of the table with an exponent
text behind it. -/
theorem exists_of_term? {coefficient : Scientific} {token : List Char}
    {t : Term} (h : table.term? coefficient token = some t) :
    ∃ spelling ∈ table.spellings, ∃ tail,
      spelling.text ++ tail = token ∧ isExponentText tail = true
        ∧ exponentOf? tail = some t.exponent
        ∧ t = ⟨coefficient, spelling.scale, spelling.symbol,
            t.exponent⟩ := by
  unfold term? at h
  obtain ⟨⟨spelling, tail⟩, hfound, h⟩ := Option.bind_eq_some_iff.1 h
  obtain ⟨exponent, hexponent, h⟩ := Option.bind_eq_some_iff.1 h
  cases h
  obtain ⟨other, hmem, hother⟩ :=
    List.exists_of_findSome?_eq_some hfound
  obtain ⟨tail', htail, heq⟩ := Option.map_eq_some_iff.1 hother
  cases heq
  obtain ⟨happend, hexponentText⟩ := remainder?_eq_some_iff.1 htail
  exact ⟨spelling, hmem, tail, happend, hexponentText, hexponent, rfl⟩

theorem symbol_mem_names {coefficient : Scientific} {token : List Char}
    {t : Term} (h : table.term? coefficient token = some t) :
    t.symbol ∈ table.names := by
  obtain ⟨spelling, hspelling, _, -, -, -, ht⟩ := exists_of_term? h
  rw [ht]
  exact (mem_spellings hspelling).1

/-- Among alternatives that agree, the first one that has a value
decides. -/
theorem findSome?_eq_of_forall {α β : Type} {f : α → Option β}
    {l : List α} {b : β} (hall : ∀ a ∈ l, f a = none ∨ f a = some b)
    {a : α} (ha : a ∈ l) (hb : f a = some b) : l.findSome? f = some b := by
  cases hfound : l.findSome? f with
  | none =>
    rw [List.findSome?_eq_none_iff.1 hfound a ha] at hb
    cases hb
  | some found =>
    obtain ⟨other, hother, heq⟩ :=
      List.exists_of_findSome?_eq_some hfound
    rcases hall other hother with hnone | hsome
    · rw [hnone] at heq
      cases heq
    · rw [← heq, hsome]

/-- A name of letters is read as itself, to the first power and without
a prefix, whatever else the table spells. -/
theorem term?_eq_of_isWord {symbol : String} (hmem : symbol ∈ table.names)
    (hword : Text.IsWord symbol.toList) (coefficient : Scientific) :
    table.term? coefficient symbol.toList
      = some ⟨coefficient, .plain, symbol, 1⟩ := by
  let reads (spelling : Spelling) : Option (Spelling × List Char) :=
    (remainder? spelling symbol.toList).map (spelling, ·)
  -- a symbol alone leaves an exponent text only if it is the whole name
  have halone : ∀ name ∈ table.names, (reads ∘ bare) name = none
      ∨ (reads ∘ bare) name = some (bare symbol, []) := by
    intro name _
    show (remainder? (bare name) symbol.toList).map (bare name, ·) = none
      ∨ (remainder? (bare name) symbol.toList).map (bare name, ·) = _
    cases hremainder : remainder? (bare name) symbol.toList with
    | none => exact .inl rfl
    | some tail =>
      obtain ⟨happend, htail⟩ := remainder?_eq_some_iff.1 hremainder
      obtain rfl : tail = [] := by
        refine List.eq_nil_iff_forall_not_mem.2 fun c hc => ?_
        have hletter := hword.2 c (happend ▸ List.mem_append_right _ hc)
        rcases isDigit_or_eq_of_mem_exponentText htail hc with h | rfl
        · rw [Text.not_isDigit_of_isAlphabetic hletter] at h
          cases h
        · exact absurd (Text.le_toNat_of_isAlphabetic hletter)
            (by decide)
      rw [List.append_nil] at happend
      obtain rfl : name = symbol := String.toList_inj.1 happend
      exact .inr rfl
  have hself : (reads ∘ bare) symbol = some (bare symbol, []) := by
    have hwhole : remainder? (bare symbol) symbol.toList = some [] :=
      remainder?_eq_some_iff.2 ⟨List.append_nil _, rfl⟩
    show (remainder? (bare symbol) symbol.toList).map _ = _
    rw [hwhole]
    rfl
  have hfound : table.spellings.findSome? reads
      = some (bare symbol, []) := by
    unfold spellings
    rw [← List.map_append, List.findSome?_append, List.findSome?_map]
    show ((List.findSome? (reads ∘ bare) table.names).or _) = _
    rw [findSome?_eq_of_forall halone hmem hself]
    rfl
  unfold term?
  rw [show table.spellings.findSome? (fun spelling =>
    (remainder? spelling symbol.toList).map (spelling, ·)) = _
    from hfound]
  rfl

end Symbols

end UnitAlgebra
