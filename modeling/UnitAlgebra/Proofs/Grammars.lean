/-
The two grammars side by side. One cuts a text at its dots, the other
takes tokens off its front, and some texts are read by both. Then both
read the same terms (`terms_eq_of_both`), so it does not matter which of
them is asked first.

# Texts that both read

Over names of letters such a text is a single word. A word as the dotted
grammar writes it is a token to its last character, whatever stands
behind it in its row (`Token.next?_written`), and what stands behind it
is a dot, with which no token starts (`Token.all?_dot`). So a text of
tokens is a row of one word, which is its one token
(`Dotted.Spells.eq_singleton`), and both grammars look up the same word.

To see that a written word is a token, the tokenizer is followed through
the parts of a word: number, blank, letters and exponent each end where
the word says (`Token.numberText_append` and its like), because the
next part begins with a character of another kind.

# Letters

The tokens know ASCII letters only, but that does no harm: no token and
no blank takes a letter of any other kind (`Token.Lexes.isAlpha`), so a
text with such a letter is no text of tokens. This is read off the
pattern of a token rather than off the scanner: a pattern takes no
character that all its parts avoid (`Text.Pattern.avoids_eq_false`).

# Systems

A permissive system asks the dotted grammar first and then the other. It
reads what a strict one reads, as the same measure, and some texts more
(`grammars_agree`).
-/
import UnitAlgebra.Proofs.Composition
import UnitAlgebra.Proofs.Recognition
import UnitAlgebra.Proofs.Registration

namespace UnitAlgebra

-- ============================================== what tokens are made of

namespace Text

/-- No letter of any script is a blank: the two tables of ranges have
nothing in common. -/
theorem isBlank_eq_false_of_isAlphabetic {c : Char}
    (h : isAlphabetic c = true) : isBlank c = false := by
  have hdisjoint : ∀ r ∈ blankRanges, ∀ s ∈ alphabeticRanges,
      r.2 < s.1 ∨ s.2 < r.1 := by
    decide +kernel
  unfold isAlphabetic at h
  split at h
  · exact isBlank_eq_false_of_isAlpha h
  · obtain ⟨s, hs, hin⟩ := List.any_eq_true.1 h
    rw [Bool.and_eq_true, decide_eq_true_iff, decide_eq_true_iff] at hin
    refine List.any_eq_false.2 fun r hr => ?_
    rw [Bool.and_eq_true, decide_eq_true_iff, decide_eq_true_iff]
    have := hdisjoint r hr s hs
    omega

namespace Pattern

variable {γ : Type}

/-- A run takes what it runs over and nothing else. -/
theorem mem_taken_runs {p : Char → Bool} {text : List Char} {m : Match γ}
    (h : m ∈ runs p text) : ∀ c ∈ m.taken, p c = true := by
  induction text generalizing m with
  | nil => cases h
  | cons d text ih =>
    rw [runs] at h
    split at h
    · next hd =>
      have hhead : ∀ c ∈ [d], p c = true := fun c hc =>
        List.mem_singleton.1 hc ▸ hd
      rcases List.mem_append.1 h with h | h
      · obtain ⟨n, hn, rfl⟩ := List.mem_map.1 h
        intro c hc
        exact (List.mem_append.1 hc).elim (hhead c) (ih hn c)
      · rw [List.mem_singleton.1 h]
        exact hhead
    · cases h

/-- A pattern takes no character that it avoids. -/
theorem avoids_eq_false {pattern : Pattern γ} {text : List Char}
    {m : Match γ} (h : m ∈ pattern.ways text) :
    ∀ c ∈ m.taken, pattern.avoids c = false := by
  induction pattern generalizing text m with
  | char p =>
    intro c hc
    cases text with
    | nil => cases h
    | cons d rest =>
      rw [ways] at h
      split at h
      · next hd =>
        rw [List.mem_singleton.1 h] at hc
        rw [List.mem_singleton.1 hc, avoids, hd]
        rfl
      · cases h
  | run p =>
    intro c hc
    rw [avoids, mem_taken_runs h c hc]
    rfl
  | seq first second ihFirst ihSecond =>
    intro c hc
    obtain ⟨n, hn, h⟩ := List.mem_flatMap.1 h
    obtain ⟨l, hl, rfl⟩ := List.mem_map.1 h
    rw [avoids, Bool.and_eq_false_iff]
    exact (List.mem_append.1 hc).imp (ihFirst hn c) (ihSecond hl c)
  | choice left right ihLeft ihRight =>
    intro c hc
    rw [avoids, Bool.and_eq_false_iff]
    exact (List.mem_append.1 h).imp (ihLeft · c hc) (ihRight · c hc)
  | maybe inner ih =>
    intro c hc
    rcases List.mem_append.1 h with h | h
    · exact ih h c hc
    · rw [List.mem_singleton.1 h] at hc
      cases hc
  | named name inner ih =>
    intro c hc
    obtain ⟨n, hn, rfl⟩ := List.mem_map.1 h
    exact ih hn c hc

end Pattern

end Text

namespace Token

open Text (Pattern Match isBlank)

/-- A text of tokens holds no letters but those of a symbol. -/
theorem Lexes.isAlpha {text : List Char} {tokens : List Token}
    (h : Lexes text tokens) {c : Char} (hc : c ∈ text)
    (hletter : Text.isAlphabetic c = true) : c.isAlpha = true := by
  -- all marks come before the letters
  have hmark (d : Char) (hd : d.toNat < 65) : decide (c = d) = false := by
    have hhigh := Text.le_toNat_of_isAlphabetic hletter
    refine decide_eq_false fun heq => ?_
    rw [heq] at hhigh
    omega
  have havoids : pattern.avoids c = !c.isAlpha := by
    simp [pattern, wordPattern, numberPattern, fractionPattern,
      symbolPattern, exponentPattern, Pattern.avoids,
      Text.not_isDigit_of_isAlphabetic hletter,
      Text.isBlank_eq_false_of_isAlphabetic hletter, hmark]
  induction h with
  | nil => cases hc
  | @cons text m tokens _ hm _ ih =>
    have hway := List.mem_of_head? hm
    rw [← Pattern.append_eq_of_mem_ways hway] at hc
    rcases List.mem_append.1 hc with hc | hc
    · have htaken := Pattern.avoids_eq_false hway c hc
      rw [havoids] at htaken
      simpa using htaken
    · exact ih hc

-- =================================================== one word at a time

/-- What may stand behind a word of a dotted row. -/
def Behind (rest : List Char) : Prop :=
  rest = [] ∨ ∃ more, rest = '.' :: more

/-- Nothing that avoids a dot goes on behind a word. -/
theorem Behind.takeWhile {rest : List Char} (h : Behind rest)
    {p : Char → Bool} (hp : p '.' = false) : rest.takeWhile p = [] := by
  rcases h with rfl | ⟨more, rfl⟩
  · rfl
  · exact List.takeWhile_cons_of_neg (Bool.eq_false_iff.1 hp)

/-- An exponent text is taken as a whole. -/
theorem exponentText_append {tail rest : List Char}
    (htail : Symbols.isExponentText tail = true) (hrest : Behind rest) :
    exponentText (tail ++ rest) = tail := by
  have hstop := hrest.takeWhile (p := Char.isDigit) (by decide)
  have hdigits (digits : List Char)
      (h : (!digits.isEmpty && digits.all Char.isDigit) = true) :
      digits ≠ [] ∧ (digits ++ rest).takeWhile Char.isDigit = digits := by
    rw [Bool.and_eq_true, List.all_eq_true] at h
    obtain ⟨hne, hall⟩ := h
    refine ⟨?_, Text.takeWhile_append_stop hall rest hstop⟩
    rintro rfl
    cases hne
  unfold Symbols.isExponentText at htail
  rcases Bool.or_eq_true_iff.1 htail with hnil | hsigned
  · rw [List.isEmpty_iff.1 hnil, List.nil_append]
    rcases hrest with rfl | ⟨more, rfl⟩
    · rfl
    · rfl
  · unfold Symbols.isSignedDigits at hsigned
    split at hsigned
    · next digits =>
      obtain ⟨hne, htake⟩ := hdigits digits hsigned
      obtain ⟨d, more, rfl⟩ := List.exists_cons_of_ne_nil hne
      rw [List.cons_append]
      simp only [exponentText, htake]
    · next hminus =>
      obtain ⟨hne, htake⟩ := hdigits tail hsigned
      obtain ⟨d, more, rfl⟩ := List.exists_cons_of_ne_nil hne
      unfold exponentText
      split
      · next heq =>
        obtain ⟨rfl, -⟩ := List.cons_eq_cons.1 heq
        exact absurd rfl (hminus more)
      · exact htake

/-- A word of letters is taken as a whole. -/
theorem symbolText_append {letters tail rest : List Char}
    (hne : letters ≠ []) (hletters : ∀ c ∈ letters, c.isAlpha = true)
    (htail : Symbols.isExponentText tail = true) (hrest : Behind rest) :
    symbolText (letters ++ tail ++ rest) = letters ++ tail := by
  have hstop : (tail ++ rest).takeWhile Char.isAlpha = [] := by
    cases tail with
    | nil => exact hrest.takeWhile (by decide)
    | cons c more =>
      refine List.takeWhile_cons_of_neg fun halpha => ?_
      have hletter := Text.isAlphabetic_of_isAlpha halpha
      have hnone := Symbols.takeWhile_exponentText htail
      rw [List.takeWhile_cons_of_pos hletter] at hnone
      cases hnone
  obtain ⟨c, more, rfl⟩ := List.exists_cons_of_ne_nil hne
  unfold symbolText
  rw [List.append_assoc, Text.takeWhile_append_stop hletters _ hstop,
    Text.dropWhile_append_stop hletters _ hstop,
    exponentText_append htail hrest]

/-- A number starts with a digit, never with a point or a sign. -/
theorem exists_text_eq_cons (n : Text.Numeral) :
    ∃ d more, n.text = d :: more ∧ d.isDigit = true := by
  obtain ⟨rest, htext⟩ := n.exists_text_eq_append
  obtain ⟨d, more, hchars⟩ := List.exists_cons_of_ne_nil n.whole.ne_nil
  have hd := n.whole.isDigit d (hchars ▸ List.mem_cons_self)
  exact ⟨d, more ++ rest, by rw [htext, hchars]; rfl, hd⟩

/-- A digit starts no symbol. -/
theorem symbolText_of_isDigit {d : Char} (h : d.isDigit = true)
    (rest : List Char) : symbolText (d :: rest) = [] := by
  have hletter : ¬ d.isAlpha = true := by
    intro halpha
    rw [Text.not_isDigit_of_isAlphabetic
      (Text.isAlphabetic_of_isAlpha halpha)] at h
    cases h
  unfold symbolText
  rw [List.takeWhile_cons_of_neg hletter]

/-- A number is taken up to the space behind it. -/
theorem numberText_append (n : Text.Numeral) (rest : List Char) :
    numberText (n.text ++ ' ' :: rest) = n.text := by
  obtain ⟨whole, fraction⟩ := n
  obtain ⟨d, more, hchars⟩ := List.exists_cons_of_ne_nil whole.ne_nil
  cases fraction with
  | none =>
    show numberText (whole.chars ++ ' ' :: rest) = whole.chars
    unfold numberText
    rw [Text.takeWhile_append_stop whole.isDigit _ rfl,
      Text.dropWhile_append_stop whole.isDigit _ rfl, hchars]
    exact List.append_nil _
  | some digits =>
    obtain ⟨e, decimals, hdigits⟩ :=
      List.exists_cons_of_ne_nil digits.ne_nil
    have hfraction : fractionText ('.' :: (digits.chars ++ ' ' :: rest))
        = '.' :: digits.chars := by
      have htake := Text.takeWhile_append_stop digits.isDigit
        (' ' :: rest) rfl
      unfold fractionText
      simp only [htake]
      rw [hdigits]
    show numberText ((whole.chars ++ '.' :: digits.chars) ++ ' ' :: rest)
      = whole.chars ++ '.' :: digits.chars
    unfold numberText
    rw [List.append_assoc, List.cons_append,
      Text.takeWhile_append_stop whole.isDigit _ rfl,
      Text.dropWhile_append_stop whole.isDigit _ rfl, hfraction, hchars]

/-- A number and a symbol with a space between them are taken
together. -/
theorem numberedWord?_append (n : Text.Numeral) {c : Char}
    {rest symbol : List Char} (hc : c.isAlpha = true)
    (hsymbol : symbolText (c :: rest) = symbol) (hne : symbol ≠ []) :
    numberedWord? (n.text ++ ' ' :: c :: rest)
      = some (n.text, [' '], symbol) := by
  have hnumber := numberText_append n (c :: rest)
  have hblanks : (' ' :: c :: rest).takeWhile isBlank = [' '] := by
    rw [List.takeWhile_cons_of_pos (by decide),
      List.takeWhile_cons_of_neg (by
        rw [Text.isBlank_eq_false_of_isAlpha hc]
        exact Bool.false_ne_true)]
  obtain ⟨d, more, htext, -⟩ := exists_text_eq_cons n
  unfold numberedWord?
  simp only [hnumber, List.drop_left, hblanks, List.length_singleton,
    List.drop_succ_cons, List.drop_zero, hsymbol]
  rw [if_neg]
  rw [not_or, not_or, List.isEmpty_iff, List.isEmpty_iff,
    List.isEmpty_iff]
  exact ⟨by rw [htext]; exact List.cons_ne_nil d more,
    List.cons_ne_nil _ _, hne⟩

/-- A written word is the next token, whatever is behind it in its
row. -/
theorem next?_written {w : Word} {letters tail rest : List Char}
    (htoken : letters ++ tail = w.token) (hne : letters ≠ [])
    (hletters : ∀ c ∈ letters, c.isAlpha = true)
    (htail : Symbols.isExponentText tail = true) (hrest : Behind rest) :
    next? (Dotted.written w ++ rest)
      = some (some w.lexeme, (Dotted.written w).length) := by
  obtain ⟨number, token⟩ := w
  obtain rfl : letters ++ tail = token := htoken
  have hsymbol := symbolText_append hne hletters htail hrest
  obtain ⟨c, more, rfl⟩ := List.exists_cons_of_ne_nil hne
  cases number with
  | none =>
    show next? (c :: more ++ tail ++ rest) = _
    unfold next?
    rw [hsymbol]
    rfl
  | some n =>
    have hword := numberedWord?_append n
      (hletters c List.mem_cons_self) hsymbol (List.cons_ne_nil _ _)
    have hdigit : symbolText (n.text ++ ' ' :: (c :: more ++ tail ++ rest))
        = [] := by
      obtain ⟨d, digits, htext, hd⟩ := exists_text_eq_cons n
      rw [htext]
      exact symbolText_of_isDigit hd _
    show next? (n.text ++ ' ' :: (c :: more ++ tail) ++ rest) = _
    rw [List.append_assoc, List.cons_append]
    unfold next?
    rw [hdigit]
    simp only
    rw [show numberedWord? (n.text ++ ' ' :: (c :: more ++ tail ++ rest))
      = _ from hword]
    simp [Word.lexeme, Dotted.written]
    omega

/-- The loop over tokens by the first one. -/
theorem all?_of_next? {text : List Char} (hne : text ≠ [])
    {token : Option Token} {n : Nat} (h : next? text = some (token, n)) :
    all? text = (all? (text.drop n)).map (token.toList ++ ·) := by
  fun_cases all? text with
  | case1 => exact absurd rfl hne
  | case2 c rest hnone => exact absurd (h.symm.trans hnone) nofun
  | case3 c rest token' n' hsome =>
    cases h.symm.trans hsome
    rfl

/-- Where no token starts, no text of tokens does. -/
theorem all?_of_next?_eq_none {text : List Char} (hne : text ≠ [])
    (h : next? text = none) : all? text = none := by
  fun_cases all? text with
  | case1 => exact absurd rfl hne
  | case2 c rest hnone => rfl
  | case3 c rest token n hsome => cases h.symm.trans hsome

/-- No token starts with a dot. -/
theorem all?_dot (rest : List Char) : all? ('.' :: rest) = none :=
  all?_of_next?_eq_none (List.cons_ne_nil '.' rest) rfl

end Token

-- ======================================================= one text, twice

namespace Dotted

/-- A row is its first word, and behind that the end or a joint. -/
theorem exists_joined_behind (w : Word) (words : List Word) :
    ∃ behind, joined (w :: words) = written w ++ behind
      ∧ Token.Behind behind ∧ (behind = [] → words = []) := by
  cases words with
  | nil =>
    refine ⟨[], ?_, .inl rfl, fun _ => rfl⟩
    rw [joined_singleton, List.append_nil]
  | cons v words =>
    exact ⟨_, joined_cons_cons w v words, .inr ⟨_, rfl⟩, nofun⟩

theorem mem_written {w : Word} {c : Char} (h : c ∈ w.token) :
    c ∈ written w := by
  unfold written
  split
  · exact h
  · exact List.mem_append_right _ (List.mem_cons_of_mem _ h)

end Dotted

section

variable {table : Symbols}
  (hwords : ∀ symbol ∈ table.names, Text.IsWord symbol.toList)

include hwords

/-- Names of letters hold neither a dot nor a space, so rows of words
are cut as they were written. -/
theorem separable_of_words :
    ∀ symbol ∈ table.names, Dotted.Separable symbol.toList :=
  fun symbol h => Dotted.separable_of_isWord (hwords symbol h)

/-- A row of dotted words that is made up of tokens is one word, and
that word is the one token. -/
theorem Dotted.Spells.eq_singleton {text : List Char} {words : List Word}
    {terms : List Term} {tokens : List Token}
    (h : Spells table text words terms)
    (hlexes : Token.Lexes text tokens) :
    ∃ w, words = [w] ∧ tokens = [w.lexeme] := by
  obtain ⟨hne, hjoined, hterms⟩ := h
  obtain ⟨v, rest, rfl⟩ := List.exists_cons_of_ne_nil hne
  obtain ⟨t, -, ht⟩ := exists_of_mem_of_forall₂ hterms List.mem_cons_self
  obtain ⟨letters, tail, htoken, hword, htail⟩ :=
    Symbols.exists_letters_of_term? hwords ht
  obtain ⟨behind, htext, hbehind, hend⟩ := exists_joined_behind v rest
  obtain rfl : written v ++ behind = text := htext ▸ hjoined
  have hwritten : ∀ c ∈ letters, c ∈ written v ++ behind := fun c hc =>
    List.mem_append_left _
      (mem_written (htoken ▸ List.mem_append_left _ hc))
  have hletters : ∀ c ∈ letters, c.isAlpha = true := fun c hc =>
    hlexes.isAlpha (hwritten c hc) (hword.2 c hc)
  obtain ⟨c, hc⟩ := List.exists_mem_of_ne_nil letters hword.1
  have hnext :=
    Token.next?_written htoken hword.1 hletters htail hbehind
  have hlex := Token.all?_eq_some_iff.2 hlexes
  rw [Token.all?_of_next? (List.ne_nil_of_mem (hwritten c hc)) hnext,
    List.drop_left] at hlex
  rcases hbehind with rfl | ⟨more, rfl⟩
  · rw [Token.all?] at hlex
    cases hlex
    exact ⟨v, congrArg _ (hend rfl), rfl⟩
  · rw [Token.all?_dot] at hlex
    cases hlex

/-- A text that both grammars read means one thing. -/
theorem terms_eq_of_both {text : List Char} {terms terms' : List Term}
    (h : Dotted.terms? table text = some terms)
    (h' : Fraction.terms? table text = some terms') : terms = terms' := by
  obtain ⟨words, hdotted⟩ :=
    (Dotted.terms?_eq_some_iff (separable_of_words hwords)).1 h
  obtain ⟨tokens, items, hlexes, hfraction⟩ :=
    Fraction.terms?_eq_some_iff.1 h'
  obtain ⟨w, rfl, rfl⟩ := hdotted.eq_singleton hwords hlexes
  have hreads : Fraction.Reads table [w] terms' :=
    Fraction.reads_of_spells hfraction
  obtain ⟨t, _, ht, hnil, rfl⟩ :=
    List.forall₂_cons_left_iff.1 hdotted.terms
  obtain ⟨t', _, ht', hnil', rfl⟩ := List.forall₂_cons_left_iff.1 hreads
  cases hnil
  cases hnil'
  rw [ht] at ht'
  rw [Option.some.inj ht']

end

-- ================================================ the two in a choice

/-- Names of letters make a table of words; the empty one is left
out. -/
theorem Symbols.isWord_of_mem_names {prefixable standalone : List String}
    (hletters : ∀ name ∈ prefixable ++ standalone, ∀ c ∈ name.toList,
      Text.isAlphabetic c = true) :
    ∀ symbol ∈ names ⟨Text.longestFirst prefixable,
      Text.longestFirst standalone⟩, Text.IsWord symbol.toList := by
  intro symbol hsymbol
  have hin : symbol ∈ prefixable ++ standalone ∧ symbol ≠ "" := by
    rw [names, Text.mem_longestFirst_append] at hsymbol
    exact ⟨List.mem_append.2 (List.mem_append.1 hsymbol.1).symm, hsymbol.2⟩
  exact ⟨fun hnil => hin.2 (String.toList_eq_nil_iff.1 hnil),
    hletters symbol hin.1⟩

namespace Reader

variable {first second : Reader} {text : String} {terms : List Term}

/-- A dotted reader that was made has this table of symbols. -/
theorem eq_of_ofDotted {prefixable standalone : List String}
    {reader : Reader} (h : ofDotted prefixable standalone = .ok reader) :
    reader = .dotted ⟨Text.longestFirst prefixable,
      Text.longestFirst standalone⟩ := by
  unfold ofDotted at h
  dsimp only at h
  split at h
  · cases h
  · obtain ⟨table, htable, h⟩ := bind_eq_ok_iff.1 h
    cases h
    rw [Symbols.eq_of_ofLists htable]

/-- The fraction reader over the same lists has the same table. This is
where the two grammars come to agree on symbols. -/
theorem eq_of_ofFraction {prefixable standalone : List String}
    {reader : Reader} (h : ofFraction prefixable standalone = .ok reader) :
    reader = .fraction ⟨Text.longestFirst prefixable,
      Text.longestFirst standalone⟩ := by
  unfold ofFraction at h
  cases htable : Symbols.ofLists prefixable standalone with
  | error fault =>
    rw [htable] at h
    cases h
  | ok table =>
    rw [htable] at h
    cases h
    rw [Symbols.eq_of_ofLists htable]

/-- With a dotted grammar there is a fraction grammar over the same
table. -/
theorem exists_of_ofDotted {prefixable standalone : List String}
    {dotted : Reader}
    (h : ofDotted prefixable standalone = .ok dotted) :
    ∃ table, Symbols.ofLists prefixable standalone = .ok table
      ∧ dotted = .dotted table
      ∧ ofFraction prefixable standalone = .ok (.fraction table) := by
  unfold ofDotted at h
  dsimp only at h
  split at h
  · cases h
  · obtain ⟨table, htable, h⟩ := bind_eq_ok_iff.1 h
    cases h
    refine ⟨table, htable, rfl, ?_⟩
    rw [ofFraction, htable]
    rfl

/-- A choice of two readers asks the second one where the first does
not accept. -/
theorem terms?_choice (text : List Char) (first second : Reader) :
    (choice [first, second]).terms? text
      = (first.terms? text).or (second.terms? text) := by
  rw [terms?, firstTerms?]
  cases first.terms? text with
  | some terms => rfl
  | none =>
    rw [firstTerms?]
    cases second.terms? text with
    | some terms => rfl
    | none => rfl

/-- What the first reader reads, the choice reads. -/
theorem read_choice_of_ok (h : first.read text = .ok terms) :
    (choice [first, second]).read text = .ok terms := by
  rw [read_eq_ok_iff] at h ⊢
  rw [terms?_choice, h]
  rfl

/-- Readers that never disagree may be tried in either order. -/
theorem read_choice_comm
    (h : ∀ terms terms', first.read text = .ok terms →
      second.read text = .ok terms' → terms = terms') :
    (choice [first, second]).read text = .ok terms ↔
      (choice [second, first]).read text = .ok terms := by
  simp only [read_eq_ok_iff] at h ⊢
  rw [terms?_choice, terms?_choice]
  cases hfirst : first.terms? text.toList with
  | none => rw [Option.none_or, Option.or_none]
  | some found =>
    cases hsecond : second.terms? text.toList with
    | none => rw [Option.none_or, Option.or_none]
    | some other => rw [h found other hfirst hsecond]

end Reader

namespace Registry

variable {r : Registry}

/-- With the fraction grammar or without it, the same catalog is
built, and the same symbols are known. -/
theorem build_permissive {strict : UnitSystem}
    (h : { r with permissive := false }.build = .ok strict) :
    strict.reader = .dotted r.table
      ∧ { r with permissive := true }.build = .ok
          ⟨.choice [strict.reader, .fraction r.table],
            strict.catalog⟩ := by
  obtain ⟨hcatalog, hreader⟩ := build_eq_ok_iff.1 h
  obtain ⟨hnames, hgrammars⟩ := reader_eq_ok_iff.1 hreader
  have hdotted : strict.reader = .dotted r.table := hgrammars
  refine ⟨hdotted, build_eq_ok_iff.2 ⟨hcatalog, ?_⟩⟩
  rw [hdotted]
  exact reader_eq_ok_iff.2 ⟨hnames, rfl⟩

end Registry

/-- A reader that is asked only where another one does not accept
changes no other answer. -/
theorem UnitSystem.read_choice {x : UnitSystem} {second : Reader}
    {text : String} (h : x.read text ≠ .error (.unreadable text)) :
    UnitSystem.read ⟨.choice [x.reader, second], x.catalog⟩ text
      = x.read text := by
  unfold UnitSystem.read at h ⊢
  split
  · rfl
  · next hne =>
    rw [if_neg hne] at h
    cases hnumber : plainNumber? text with
    | some number => rfl
    | none =>
      rw [hnumber] at h
      cases hread : x.reader.read text with
      | ok terms =>
        show ((Reader.choice [x.reader, second]).read text >>= _) = _
        rw [Reader.read_choice_of_ok hread]
      | error fault =>
        obtain ⟨rfl, -⟩ := Reader.read_eq_error_iff.1 hread
        rw [hread] at h
        exact absurd rfl h

-- ============================================================= agreement

/-- The two grammars never disagree. Over the same symbols, names of
letters, a text that both of them read has the same terms by either, so
a choice of the two reads the same in either order. And a system with
the fraction grammar behind the dotted one answers as the system without
it does, unless the text is not in the dotted grammar. -/
theorem grammars_agree :
    (∀ (prefixable standalone : List String) (dotted fraction : Reader),
        (∀ name ∈ prefixable ++ standalone, ∀ c ∈ name.toList,
          Text.isAlphabetic c = true) →
        Reader.ofDotted prefixable standalone = .ok dotted →
        Reader.ofFraction prefixable standalone = .ok fraction →
        (∀ text terms terms', dotted.read text = .ok terms →
            fraction.read text = .ok terms' → terms = terms')
          ∧ ∀ first second,
              Reader.ofReaders [dotted, fraction] = .ok first →
              Reader.ofReaders [fraction, dotted] = .ok second →
              ∀ text terms, first.read text = .ok terms ↔
                second.read text = .ok terms)
      ∧ ∀ (r : Registry) (strict : UnitSystem),
          { r with permissive := false }.build = .ok strict →
          ∃ permissive,
            { r with permissive := true }.build = .ok permissive
            ∧ ∀ memory memory', strict.Remembers memory →
              permissive.Remembers memory' → ∀ text,
              ((strict.readRemembering text).run.run memory).1
                  ≠ .error (.unreadable text) →
                ((permissive.readRemembering text).run.run memory').1
                  = ((strict.readRemembering text).run.run memory).1 := by
  refine ⟨?_, ?_⟩
  · intro prefixable standalone dotted fraction hletters hdotted hfraction
    have hwords := Symbols.isWord_of_mem_names hletters
    have hagree : ∀ text terms terms', dotted.read text = .ok terms →
        fraction.read text = .ok terms' → terms = terms' := by
      obtain rfl := Reader.eq_of_ofDotted hdotted
      obtain rfl := Reader.eq_of_ofFraction hfraction
      intro text terms terms' h h'
      exact terms_eq_of_both hwords (Reader.read_eq_ok_iff.1 h)
        (Reader.read_eq_ok_iff.1 h')
    refine ⟨hagree, ?_⟩
    intro first second hfirst hsecond text terms
    cases hfirst
    cases hsecond
    exact Reader.read_choice_comm (hagree text)
  · intro r strict hstrict
    obtain ⟨-, hpermissive⟩ := Registry.build_permissive hstrict
    refine ⟨_, hpermissive, ?_⟩
    intro memory memory' hmemory hmemory' text
    rw [hmemory.faithful.read_eq, hmemory'.faithful.read_eq]
    exact UnitSystem.read_choice

/-- Nothing but metres. -/
def Registry.metres : Registry where
  base := ["m"]

theorem Registry.isAlphabetic_metres :
    ∀ symbol ∈ metres.symbols, ∀ c ∈ symbol.toList,
      Text.isAlphabetic c = true := by
  have hall : "m".toList.all Text.isAlphabetic = true := by decide
  intro symbol hsymbol
  rw [List.mem_singleton.1 hsymbol]
  exact List.all_eq_true.1 hall

/-- The registry of the examples below, as a table of symbols. -/
theorem Registry.table_metres : metres.table = ⟨["m"], []⟩ := by
  have hprefixable : Text.longestFirst metres.prefixable = ["m"] := by
    decide +kernel
  have hstandalone : Text.longestFirst (metres.standalone.map Prod.fst)
      = [] := by
    decide +kernel
  unfold table
  rw [hprefixable, hstandalone]

theorem Registry.build_metres :
    metres.build = .ok ⟨.dotted ⟨["m"], []⟩, ⟨["m"], []⟩⟩ := by
  have hbase : ["m"].eraseDups.mergeSort = ["m"] := by decide +kernel
  refine build_eq_ok_iff.2 ⟨Catalog.build_eq_ok_iff.2
    ⟨by decide, .nil, [], ?_, ?_⟩, reader_eq_ok_iff.2 ⟨?_, ?_⟩⟩
  · show Expansion.entries ⟨["m"], List.mergeSort [] _⟩ = _
    rw [List.mergeSort_nil]
    rfl
  · show _ = Catalog.mk (["m"].eraseDups.mergeSort) []
    rw [hbase]
  · exact ⟨"m", by decide, by decide⟩
  · rw [grammars, table_metres]
    rfl

/-- Two metres mean the same in either grammar, and in a system with
both of them. -/
theorem grammars_agree_metres :
    ∃ dotted fraction first second strict permissive terms,
      Reader.ofDotted ["m"] [] = .ok dotted
      ∧ Reader.ofFraction ["m"] [] = .ok fraction
      ∧ Reader.ofReaders [dotted, fraction] = .ok first
      ∧ Reader.ofReaders [fraction, dotted] = .ok second
      ∧ dotted.read "2 m" = .ok terms ∧ fraction.read "2 m" = .ok terms
      ∧ second.read "2 m" = .ok terms
      ∧ Registry.metres.build = .ok strict
      ∧ { Registry.metres with permissive := true }.build = .ok permissive
      ∧ ((permissive.readRemembering "2 m").run.run .empty).1
          = ((strict.readRemembering "2 m").run.run .empty).1 := by
  have hdotted : (Reader.ofDotted ["m"] []).toOption.isSome := by
    decide +kernel
  have hfraction : (Reader.ofFraction ["m"] []).toOption.isSome := by
    decide +kernel
  obtain ⟨dotted, hdotted⟩ := Option.isSome_iff_exists.1 hdotted
  obtain ⟨fraction, hfraction⟩ := Option.isSome_iff_exists.1 hfraction
  replace hdotted := eq_ok_of_toOption hdotted
  replace hfraction := eq_ok_of_toOption hfraction
  obtain ⟨hreaders, hsystems⟩ := grammars_agree
  obtain ⟨hagree, horder⟩ := hreaders ["m"] [] dotted fraction
    Registry.isAlphabetic_metres hdotted hfraction
  obtain ⟨terms, terms', hterms, hterms'⟩ :
      ∃ terms terms', dotted.read "2 m" = .ok terms
        ∧ fraction.read "2 m" = .ok terms' := by
    rw [Reader.eq_of_ofDotted hdotted, Reader.eq_of_ofFraction hfraction]
    have hd : ((Reader.dotted ⟨Text.longestFirst ["m"],
        Text.longestFirst []⟩).read "2 m").toOption.isSome = true := by
      decide +kernel
    have hf : ((Reader.fraction ⟨Text.longestFirst ["m"],
        Text.longestFirst []⟩).read "2 m").toOption.isSome = true := by
      decide +kernel
    obtain ⟨terms, hterms⟩ := Option.isSome_iff_exists.1 hd
    obtain ⟨terms', hterms'⟩ := Option.isSome_iff_exists.1 hf
    exact ⟨terms, terms', eq_ok_of_toOption hterms,
      eq_ok_of_toOption hterms'⟩
  have hsecond := (horder _ _ rfl rfl "2 m" terms).1
    (Reader.read_choice_of_ok hterms)
  obtain ⟨permissive, hpermissive, hsame⟩ :=
    hsystems .metres _ Registry.build_metres
  refine ⟨dotted, fraction, _, _, _, permissive, terms, hdotted, hfraction,
    rfl, rfl, hterms, ?_, hsecond, Registry.build_metres, hpermissive,
    hsame _ _ .empty .empty "2 m" ?_⟩
  · rw [hagree "2 m" terms terms' hterms hterms']
    exact hterms'
  · rw [UnitSystem.faithful_empty.read_eq]
    intro hunreadable
    have hread : (UnitSystem.read ⟨.dotted ⟨["m"], []⟩, ⟨["m"], []⟩⟩
        "2 m").toOption.isSome = true := by
      decide +kernel
    rw [hunreadable] at hread
    cases hread

end UnitAlgebra
