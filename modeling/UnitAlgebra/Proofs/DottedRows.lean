/-
The dotted grammar as a row of words. A word is written as its token,
or as its number, one space and its token; a text of the grammar is a
row of words with a dot between each two of them (`dotted_read`).

# Where a text is cut

A dot may also be the point of a number, and where a text is cut is
decided dot by dot, by what stands before it and what comes after. As
long as every symbol starts with a letter and holds neither a dot nor a
space (`Separable`), these decisions are right for the text as a whole.
Along a row of words, the piece under way is always the written
beginning of a word. So

- a dot found there is the point of its number exactly when the piece is
  a bare number (`pieces_written`),
- and behind a word it joins, because the next word starts a term
  (`startsTerm_written`) and the word is no bare number
  (`not_isBareNumber_written`).

Hence a row of words is cut into its words again (`pieces_joined`), and
no text is written by two rows (`Spells.unique`).

# What the pieces are

Each piece is a term by itself or the text is refused. A piece with a
space has its number in front of it; more than one space, or one in
another place, makes it no term (`exists_word_of_term?`). Together with
the cutting this says which texts are read and what they stand for
(`terms?_eq_some_iff`).
-/
import UnitAlgebra.Grammar.Reader
import UnitAlgebra.Proofs.Outcome
import UnitAlgebra.Proofs.Words

namespace UnitAlgebra

namespace Dotted

-- ============================================================ separable

/-- A text that can be told from the dots, spaces and numbers around
it. -/
structure Separable (text : List Char) : Prop where
  letter : startsWithLetter text = true
  dot : '.' ∉ text
  space : ' ' ∉ text

theorem Separable.exists_cons {text : List Char} (h : Separable text) :
    ∃ c rest, text = c :: rest ∧ Text.isAlphabetic c = true := by
  cases text with
  | nil => exact absurd h.letter Bool.false_ne_true
  | cons c rest => exact ⟨c, rest, rfl, h.letter⟩

/-- An exponent text behind a separable symbol keeps it separable. -/
theorem Separable.append {text tail : List Char} (h : Separable text)
    (hdot : '.' ∉ tail) (hspace : ' ' ∉ tail) :
    Separable (text ++ tail) where
  letter := by
    obtain ⟨c, rest, rfl, hc⟩ := h.exists_cons
    exact hc
  dot := List.not_mem_append h.dot hdot
  space := List.not_mem_append h.space hspace

/-- Names of letters are separable, so all that is said here applies to
them. -/
theorem separable_of_isWord {text : List Char} (h : Text.IsWord text) :
    Separable text := by
  obtain ⟨hne, hletters⟩ := h
  have hmark : ∀ c : Char, c.toNat < 65 → c ∉ text := by
    intro c hc hmem
    have := Text.le_toNat_of_isAlphabetic (hletters c hmem)
    omega
  refine ⟨?_, hmark '.' (by decide), hmark ' ' (by decide)⟩
  cases text with
  | nil => exact absurd rfl hne
  | cons c rest => exact hletters c List.mem_cons_self

/-- Over separable symbols, whatever is recognised is separable. -/
theorem separable_of_term? {table : Symbols}
    (hsymbols : ∀ symbol ∈ table.names, Separable symbol.toList)
    {coefficient : Scientific} {token : List Char} {t : Term}
    (h : table.term? coefficient token = some t) : Separable token := by
  obtain ⟨spelling, hspelling, tail, rfl, htail, -, -⟩ :=
    Symbols.exists_of_term? h
  have hmark : ∀ c : Char, c.isDigit = false → c ≠ '-' → c ∉ tail := by
    intro c hdigit hminus hc
    rcases Symbols.isDigit_or_eq_of_mem_exponentText htail hc with h | h
    · rw [hdigit] at h
      cases h
    · exact hminus h
  obtain ⟨hmem, hshape⟩ := Symbols.mem_spellings hspelling
  have hsymbol := hsymbols _ hmem
  refine Separable.append ?_ (hmark '.' rfl (by decide))
    (hmark ' ' rfl (by decide))
  rcases hshape with hbare | ⟨p, hp, htext⟩
  · rw [hbare]
    exact hsymbol
  · rw [htext]
    exact (separable_of_isWord
      (Symbols.isWord_of_mem_longestFirst hp)).append hsymbol.dot
        hsymbol.space

-- ======================================================== written words

/-- A word as it is written in the dotted grammar. -/
def written (w : Word) : List Char :=
  match w.number with
  | none => w.token
  | some n => n.text ++ ' ' :: w.token

/-- A row of words, with a dot between each two of them. -/
def joined (words : List Word) : List Char :=
  ['.'].intercalate (words.map written)

theorem joined_singleton (w : Word) : joined [w] = written w := by
  simp [joined, List.intercalate]

theorem joined_cons_cons (v w : Word) (words : List Word) :
    joined (v :: w :: words) = written v ++ '.' :: joined (w :: words) := by
  unfold joined
  rw [List.map_cons, List.map_cons, List.intercalate_cons_cons,
    List.append_assoc]
  rfl

/-- A row starts with its first word. -/
theorem exists_joined_cons (w : Word) (words : List Word) :
    ∃ rest, joined (w :: words) = written w ++ rest := by
  cases words with
  | nil => exact ⟨[], by rw [joined_singleton, List.append_nil]⟩
  | cons v words => exact ⟨_, joined_cons_cons w v words⟩

/-- What stands behind a number does not belong to it. -/
theorem afterNumber_append (n : Text.Numeral) (rest : List Char) :
    afterNumber (n.text ++ ' ' :: rest) = ' ' :: rest := by
  obtain ⟨whole, fraction⟩ := n
  unfold afterNumber
  cases fraction with
  | none =>
    rw [show Text.Numeral.text ⟨whole, none⟩ = whole.chars from rfl,
      List.dropWhile_append_of_pos whole.isDigit]
    rfl
  | some digits =>
    obtain ⟨c, more, hchars⟩ := List.exists_cons_of_ne_nil digits.ne_nil
    have hc : c.isDigit = true := digits.isDigit c (by simp [hchars])
    have hmore : ∀ d ∈ more, d.isDigit = true := fun d hd =>
      digits.isDigit d (by simp [hchars, hd])
    rw [show Text.Numeral.text ⟨whole, some digits⟩
        = whole.chars ++ '.' :: digits.chars from rfl,
      List.append_assoc, List.dropWhile_append_of_pos whole.isDigit,
      hchars]
    show (if c.isDigit then (more ++ ' ' :: rest).dropWhile Char.isDigit
      else _) = _
    rw [if_pos hc, List.dropWhile_append_of_pos hmore]
    rfl

/-- A written word starts a term, whatever comes after it. -/
theorem startsTerm_written {w : Word} (h : Separable w.token)
    (rest : List Char) : startsTerm (written w ++ rest) = true := by
  obtain ⟨number, token⟩ := w
  obtain ⟨c, tail, rfl, hc⟩ := h.exists_cons
  cases number with
  | none =>
    show (if c.isDigit then _ else Text.isAlphabetic c) = true
    rw [Text.not_isDigit_of_isAlphabetic hc]
    exact hc
  | some n =>
    have hafter := afterNumber_append n (c :: tail ++ rest)
    obtain ⟨behind, htext⟩ := n.exists_text_eq_append
    obtain ⟨d, more, hchars⟩ := List.exists_cons_of_ne_nil n.whole.ne_nil
    have hd : d.isDigit = true := n.whole.isDigit d (by simp [hchars])
    rw [show written ⟨some n, c :: tail⟩ ++ rest
      = n.text ++ ' ' :: (c :: tail ++ rest) by simp [written]]
    rw [htext, hchars] at hafter ⊢
    show (if d.isDigit then _ else _) = true
    rw [if_pos hd]
    simp only [List.cons_append] at hafter ⊢
    rw [hafter]
    exact hc

/-- Behind a written word stands no bare number. -/
theorem not_isBareNumber_written {w : Word} (h : Separable w.token) :
    isBareNumber (written w).reverse = false := by
  obtain ⟨number, token⟩ := w
  obtain ⟨c, tail, rfl, hc⟩ := h.exists_cons
  have hmem : c ∈ (written ⟨number, c :: tail⟩).reverse := by
    cases number with
    | none => simp [written]
    | some n => simp [written]
  refine Bool.eq_false_iff.2 fun hbare => ?_
  have hall := (Bool.and_eq_true_iff.1 hbare).2
  have hdigit := List.all_eq_true.1 hall c hmem
  rw [Text.not_isDigit_of_isAlphabetic hc] at hdigit
  cases hdigit

-- ================================================================ pieces

/-- Cutting gives one piece at least, also of the empty text. -/
theorem pieces_ne_nil (done text : List Char) : pieces done text ≠ [] := by
  induction text generalizing done with
  | nil => exact List.cons_ne_nil _ _
  | cons c text ih =>
    rw [pieces]
    split
    · exact List.cons_ne_nil _ _
    · exact ih _

/-- Put together again, the pieces are the text. -/
theorem intercalate_pieces (done text : List Char) :
    ['.'].intercalate (pieces done text) = done.reverse ++ text := by
  induction text generalizing done with
  | nil => simp [pieces, List.intercalate]
  | cons c text ih =>
    rw [pieces]
    split
    · next hjoint =>
      obtain ⟨next, more, hpieces⟩ :=
        List.exists_cons_of_ne_nil (pieces_ne_nil [] text)
      rw [hpieces, List.intercalate_cons_cons, ← hpieces, ih, hjoint.1,
        List.append_assoc]
      rfl
    · rw [ih, List.reverse_cons, List.append_assoc]
      rfl

/-- Nothing is cut where there is no dot. -/
theorem pieces_append {text : List Char} (h : '.' ∉ text)
    (done rest : List Char) :
    pieces done (text ++ rest) = pieces (text.reverse ++ done) rest := by
  induction text generalizing done with
  | nil => rfl
  | cons c text ih =>
    rw [List.mem_cons, not_or] at h
    obtain ⟨hc, htext⟩ := h
    rw [List.cons_append, pieces, if_neg (fun hjoint => hc hjoint.1.symm),
      ih htext, List.reverse_cons, List.append_assoc]
    rfl

/-- The point of a number is no joint. -/
theorem pieces_point {digits : Text.Digits} (rest : List Char) :
    pieces digits.chars.reverse ('.' :: rest)
      = pieces ('.' :: digits.chars.reverse) rest := by
  have hbare : isBareNumber digits.chars.reverse = true := by
    unfold isBareNumber
    rw [List.all_reverse, List.all_eq_true.2 digits.isDigit,
      Bool.and_true, Bool.not_eq_true', List.isEmpty_eq_false_iff]
    exact mt List.reverse_eq_nil_iff.1 digits.ne_nil
  rw [pieces, if_neg (fun hjoint => hjoint.2.1 hbare)]

/-- A written word is not cut. -/
theorem pieces_written {w : Word} (h : Separable w.token)
    (rest : List Char) :
    pieces [] (written w ++ rest) = pieces (written w).reverse rest := by
  obtain ⟨number, token⟩ := w
  have htoken : '.' ∉ ' ' :: token := by
    rw [List.mem_cons, not_or]
    exact ⟨by decide, h.dot⟩
  cases number with
  | none => rw [written, pieces_append h.dot, List.append_nil]
  | some n =>
    obtain ⟨whole, fraction⟩ := n
    have hwhole := whole.dot_not_mem
    cases fraction with
    | none =>
      show pieces [] ((whole.chars ++ ' ' :: token) ++ rest) = _
      rw [pieces_append (List.not_mem_append hwhole htoken),
        List.append_nil]
      rfl
    | some digits =>
      have hbehind : '.' ∉ digits.chars ++ ' ' :: token :=
        List.not_mem_append digits.dot_not_mem htoken
      have hsplit : written ⟨some ⟨whole, some digits⟩, token⟩
          = whole.chars ++ '.' :: (digits.chars ++ ' ' :: token) := by
        simp [written, Text.Numeral.text]
      rw [hsplit, List.append_assoc, pieces_append hwhole,
        List.append_nil, List.cons_append, pieces_point,
        pieces_append hbehind]
      simp

/-- A row of words is cut into its words. -/
theorem pieces_joined {words : List Word} (hne : words ≠ [])
    (h : ∀ w ∈ words, Separable w.token) :
    pieces [] (joined words) = words.map written := by
  induction words with
  | nil => exact absurd rfl hne
  | cons v words ih =>
    obtain ⟨hv, hwords⟩ := List.forall_mem_cons.1 h
    cases words with
    | nil =>
      have hcut := pieces_written hv []
      rw [List.append_nil] at hcut
      rw [joined_singleton, hcut, pieces, List.reverse_reverse]
      rfl
    | cons w words =>
      have hstarts : startsTerm (joined (w :: words)) = true := by
        have hw := (List.forall_mem_cons.1 hwords).1
        obtain ⟨rest, hrest⟩ := exists_joined_cons w words
        rw [hrest]
        exact startsTerm_written hw rest
      have hjoint : ¬ isBareNumber (written v).reverse = true := by
        rw [not_isBareNumber_written hv]
        exact Bool.false_ne_true
      rw [joined_cons_cons, pieces_written hv, pieces,
        if_pos ⟨rfl, hjoint, hstarts⟩, List.reverse_reverse,
        ih (List.cons_ne_nil _ _) hwords]
      rfl

-- ================================================================= terms

variable {table : Symbols}

/-- A piece without a space is a token. -/
theorem term?_of_space_not_mem {token : List Char} (h : ' ' ∉ token) :
    term? table token = table.term? .one token := by
  have hdrop : token.dropWhile (fun c => c ≠ ' ') = [] := by
    refine List.dropWhile_eq_nil_iff.2 fun c hc => ?_
    exact decide_eq_true fun heq => h (heq ▸ hc)
  unfold term?
  rw [hdrop]

/-- A piece that is a term is a written word, and the space behind its
number is the only one. -/
theorem exists_word_of_term? {piece : List Char} {t : Term}
    (h : term? table piece = some t) :
    ∃ w : Word, written w = piece ∧ ' ' ∉ w.token
      ∧ w.term? table = some t := by
  have hsplit := List.takeWhile_append_dropWhile
    (p := fun c => c ≠ ' ') (l := piece)
  unfold term? at h
  split at h
  · next hdrop =>
    refine ⟨⟨none, piece⟩, rfl, fun hspace => ?_, h⟩
    have hall := List.dropWhile_eq_nil_iff.1 hdrop ' ' hspace
    exact of_decide_eq_true hall rfl
  · next c token hdrop =>
    split at h
    · cases h
    · next htoken =>
      obtain ⟨x, hx, h⟩ := Option.bind_eq_some_iff.1 h
      obtain ⟨n, hn, rfl⟩ := Symbols.coefficient?_eq_some_iff.1 hx
      have hc := List.head_dropWhile_not (fun c => decide (c ≠ ' '))
        (l := piece) (by rw [hdrop]; exact List.cons_ne_nil _ _)
      simp only [hdrop, List.head_cons] at hc
      have hspace : c = ' ' := by simpa using hc
      rw [hdrop, ← hn, hspace] at hsplit
      exact ⟨⟨some n, token⟩, hsplit, htoken, h⟩

/-- Over separable symbols, a piece is a term when it is a written word
and its token is recognised. -/
theorem term?_eq_some_iff
    (hsymbols : ∀ symbol ∈ table.names, Separable symbol.toList)
    {piece : List Char} {t : Term} :
    term? table piece = some t ↔
      ∃ w : Word, written w = piece ∧ w.term? table = some t := by
  constructor
  · intro h
    obtain ⟨w, hwritten, -, hterm⟩ := exists_word_of_term? h
    exact ⟨w, hwritten, hterm⟩
  · rintro ⟨⟨number, token⟩, rfl, h⟩
    have hspace := (separable_of_term? hsymbols h).space
    cases number with
    | none => exact (term?_of_space_not_mem hspace).trans h
    | some n =>
      have hnumber : ∀ c ∈ n.text, decide (c ≠ ' ') = true := fun c hc =>
        decide_eq_true fun heq => n.space_not_mem_text (heq ▸ hc)
      have hdrop :=
        Text.dropWhile_append_stop hnumber (' ' :: token) rfl
      have htake :=
        Text.takeWhile_append_stop hnumber (' ' :: token) rfl
      have hx : Symbols.coefficient? n.text = some n.value :=
        Symbols.coefficient?_eq_some_iff.2 ⟨n, rfl, rfl⟩
      unfold term? written
      simp only [hdrop, htake, if_neg hspace, hx]
      exact h

/-- A text as a row of words with their terms. -/
structure Spells (table : Symbols) (text : List Char) (words : List Word)
    (terms : List Term) : Prop where
  ne_nil : words ≠ []
  joined : joined words = text
  terms : List.Forall₂ (fun w t => w.term? table = some t) words terms

/-- The words of a row stand for terms that its pieces stand for. -/
theorem exists_words_of_pieces
    (hsymbols : ∀ symbol ∈ table.names, Separable symbol.toList)
    {texts : List (List Char)} {terms : List Term}
    (h : List.Forall₂ (fun text t => term? table text = some t) texts
      terms) :
    ∃ words, words.map written = texts
      ∧ List.Forall₂ (fun w t => w.term? table = some t) words terms := by
  induction h with
  | nil => exact ⟨[], rfl, .nil⟩
  | cons ht _ ih =>
    obtain ⟨w, rfl, hw⟩ := (term?_eq_some_iff hsymbols).1 ht
    obtain ⟨words, rfl, hwords⟩ := ih
    exact ⟨w :: words, rfl, .cons hw hwords⟩

/-- The tokens of a row are separable when the symbols are. -/
theorem Spells.separable
    (hsymbols : ∀ symbol ∈ table.names, Separable symbol.toList)
    {text : List Char} {words : List Word} {terms : List Term}
    (h : Spells table text words terms) :
    ∀ w ∈ words, Separable w.token := by
  intro w hw
  obtain ⟨t, -, ht⟩ := exists_of_mem_of_forall₂ h.terms hw
  exact separable_of_term? hsymbols ht

/-- A row of words is cut where its words end, and nowhere else. -/
theorem Spells.pieces_eq
    (hsymbols : ∀ symbol ∈ table.names, Separable symbol.toList)
    {text : List Char} {words : List Word} {terms : List Term}
    (h : Spells table text words terms) :
    pieces [] text = words.map written :=
  h.joined ▸ pieces_joined h.ne_nil (h.separable hsymbols)

/-- A text stands for terms when it is a row of words with these
terms. -/
theorem terms?_eq_some_iff
    (hsymbols : ∀ symbol ∈ table.names, Separable symbol.toList)
    {text : List Char} {terms : List Term} :
    terms? table text = some terms ↔
      ∃ words, Spells table text words terms := by
  unfold terms?
  rw [mapM_eq_some_iff]
  constructor
  · intro h
    obtain ⟨words, hwords, hterms⟩ := exists_words_of_pieces hsymbols h
    refine ⟨words, ?_, ?_, hterms⟩
    · rintro rfl
      exact pieces_ne_nil [] text hwords.symm
    · unfold joined
      rw [hwords, intercalate_pieces]
      rfl
  · rintro ⟨words, h⟩
    rw [h.pieces_eq hsymbols, List.forall₂_map_left_iff]
    exact h.terms.imp fun w t ht =>
      (term?_eq_some_iff hsymbols).2 ⟨w, rfl, ht⟩

/-- A name of letters is one piece, and is read as itself. -/
theorem terms?_eq_of_isWord {name : String} (hmem : name ∈ table.names)
    (hword : Text.IsWord name.toList) :
    terms? table name.toList = some [⟨.one, .plain, name, 1⟩] := by
  have hseparable := separable_of_isWord hword
  have hpieces : pieces [] name.toList = [name.toList] := by
    have hcut := pieces_append hseparable.dot [] []
    rw [List.append_nil, List.append_nil] at hcut
    rw [hcut, pieces, List.reverse_reverse]
  have hterm : term? table name.toList
      = some ⟨.one, .plain, name, 1⟩ := by
    rw [term?_of_space_not_mem hseparable.space]
    exact Symbols.term?_eq_of_isWord hmem hword .one
  unfold terms?
  rw [hpieces, mapM_eq_some_iff]
  exact .cons hterm .nil

/-- Every term that is found has a symbol of the table. -/
theorem symbol_mem_names {text : List Char} {terms : List Term}
    (h : terms? table text = some terms) :
    ∀ t ∈ terms, t.symbol ∈ table.names := by
  intro t ht
  obtain ⟨piece, -, hpiece⟩ :=
    exists_of_mem_of_forall₂ (mapM_eq_some_iff.1 h).flip ht
  obtain ⟨w, -, -, hterm⟩ := exists_word_of_term? hpiece
  exact Symbols.symbol_mem_names hterm

/-- A written word says where its number ends. -/
theorem written_inj {v w : Word} (hv : ' ' ∉ v.token)
    (hw : ' ' ∉ w.token) (h : written v = written w) : v = w := by
  obtain ⟨number, token⟩ := v
  obtain ⟨number', token'⟩ := w
  cases number with
  | none =>
    cases number' with
    | none => exact congrArg (Word.mk none) h
    | some n =>
      refine absurd ?_ hv
      show ' ' ∈ token
      rw [show token = n.text ++ ' ' :: token' from h]
      simp
  | some n =>
    cases number' with
    | none =>
      refine absurd ?_ hw
      show ' ' ∈ token'
      rw [show token' = n.text ++ ' ' :: token from h.symm]
      simp
    | some n' =>
      obtain ⟨htext, -, htoken⟩ := (List.append_cons_inj_of_notMem
        n.space_not_mem_text hv).1 h
      obtain rfl : token = token' := htoken
      rw [Text.Numeral.text_inj htext]

/-- A text is written by one row of words only. -/
theorem Spells.unique
    (hsymbols : ∀ symbol ∈ table.names, Separable symbol.toList)
    {text : List Char} {words words' : List Word}
    {terms terms' : List Term} (h : Spells table text words terms)
    (h' : Spells table text words' terms') : words = words' := by
  have hsame : words.map written = words'.map written :=
    (h.pieces_eq hsymbols).symm.trans (h'.pieces_eq hsymbols)
  have hspace := fun w hw => (h.separable hsymbols w hw).space
  have hspace' := fun w hw => (h'.separable hsymbols w hw).space
  clear h h'
  induction words generalizing words' with
  | nil => exact (List.map_eq_nil_iff.1 hsame.symm).symm
  | cons v words ih =>
    cases words' with
    | nil => cases hsame
    | cons w words' =>
      obtain ⟨hv, hwords⟩ := List.forall_mem_cons.1 hspace
      obtain ⟨hw, hwords'⟩ := List.forall_mem_cons.1 hspace'
      obtain ⟨hhead, htail⟩ := List.cons_eq_cons.1 hsame
      rw [written_inj hv hw hhead, ih htail hwords hwords']

end Dotted

-- =============================================================== reading

/-- Over symbols that start with a letter and hold neither a dot nor a
space, the dotted grammar reads exactly the rows of words with a dot
between each two of them, and gives their terms in order. No text is
such a row in two ways, and a text that is one is cut at the joints
between its words and nowhere else. Every other text is reported
whole. -/
theorem dotted_read (table : Symbols)
    (hsymbols : ∀ symbol ∈ table.names, Dotted.Separable symbol.toList)
    (text : String) :
    (∀ terms, (Reader.dotted table).read text = .ok terms ↔
        ∃ words, Dotted.Spells table text.toList words terms)
      ∧ (∀ words words' terms terms',
          Dotted.Spells table text.toList words terms →
            Dotted.Spells table text.toList words' terms' →
              words = words')
      ∧ (∀ words terms, Dotted.Spells table text.toList words terms →
          Dotted.pieces [] text.toList = words.map Dotted.written)
      ∧ ∀ fault, (Reader.dotted table).read text = .error fault ↔
          fault = .unreadable text
            ∧ ∀ words terms,
                ¬ Dotted.Spells table text.toList words terms := by
  have hspells (terms : List Term) :
      Dotted.terms? table text.toList = some terms ↔
        ∃ words, Dotted.Spells table text.toList words terms :=
    Dotted.terms?_eq_some_iff hsymbols
  refine ⟨fun terms => Reader.read_eq_ok_iff.trans (hspells terms),
    fun _ _ _ _ h h' => h.unique hsymbols h',
    fun _ _ h => h.pieces_eq hsymbols, fun fault => ?_⟩
  refine Reader.read_eq_error_iff.trans (and_congr_right fun _ => ?_)
  show Dotted.terms? table text.toList = none ↔ _
  rw [Option.eq_none_iff_forall_ne_some]
  constructor
  · exact fun hnone words terms h =>
      hnone terms ((hspells terms).2 ⟨words, h⟩)
  · intro hnone terms hterms
    obtain ⟨words, h⟩ := (hspells terms).1 hterms
    exact hnone words terms h

/-- In `m.2.5 s` the first dot joins two words, and the second one is
the point of a number. -/
theorem dotted_read_metre_seconds :
    ∃ words terms,
      (∀ symbol ∈ Symbols.names ⟨["m", "s"], []⟩,
          Dotted.Separable symbol.toList)
        ∧ (Reader.dotted ⟨["m", "s"], []⟩).read "m.2.5 s" = .ok terms
        ∧ Dotted.Spells ⟨["m", "s"], []⟩ "m.2.5 s".toList words terms
        ∧ words.map Dotted.written = ["m".toList, "2.5 s".toList] := by
  have hsymbols : ∀ symbol ∈ Symbols.names ⟨["m", "s"], []⟩,
      Dotted.Separable symbol.toList := by
    intro symbol hsymbol
    refine Dotted.separable_of_isWord ?_
    revert symbol
    decide
  have hrun : ((Reader.dotted ⟨["m", "s"], []⟩).read
      "m.2.5 s").toOption.isSome = true := by
    decide +kernel
  obtain ⟨terms, hterms⟩ := Option.isSome_iff_exists.1 hrun
  have hread := eq_ok_of_toOption hterms
  obtain ⟨hiff, -, hcut, -⟩ :=
    dotted_read ⟨["m", "s"], []⟩ hsymbols "m.2.5 s"
  obtain ⟨words, hspells⟩ := (hiff terms).1 hread
  refine ⟨words, terms, hsymbols, hread, hspells, ?_⟩
  rw [← hcut words terms hspells]
  decide

end UnitAlgebra
