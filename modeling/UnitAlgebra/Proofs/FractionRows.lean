/-
Rows of the fraction grammar. A row is a list of items: a word, or
words in parentheses, and in front of either perhaps a slash, and in
front of that perhaps a `1`. A text is read exactly when its tokens are
such a row, every word of it is recognised, and no word below a slash
has the exponent that cannot be turned over (`fraction_read`).

The reader does not go by items. It goes in rounds that begin and end
anywhere between two items, and takes `1/s` apart, so no round is a
piece of a row in an obvious way. Two facts carry the proof, one for
each direction.

# What is read is a row

What a round takes off the front is a row (`front_of_round?`). Its parts
need not be: the part above a slash may have dropped a `1`, and the
slash behind it is still to be taken (`exists_of_above?`). Wherever
`Front` does hold of two parts, it holds of both in a row
(`Front.trans`), so the rounds up to the last token take a row
(`exists_of_rounds?`).

# A row is read

On a row each part of a round succeeds and leaves a row
(`leads_round?`), whatever the parts before it took: `Leads` keeps
nothing but this of a part. What is left need not begin where an item
of the first row began, since a `1` may have been taken from it; it is a
row all the same, of an item that lost its `1`.

A round that takes nothing has met the end or a closing parenthesis
(`round?_progress`), and no row starts with that (`Spells.ne_closing`).
So rounds go on to the end (`rounds?_eq_of_spells`), by induction on the
number of tokens that are left.
-/
import UnitAlgebra.Grammar.Reader
import UnitAlgebra.Proofs.Lexemes

namespace UnitAlgebra

namespace Fraction

-- ================================================================== items

/-- What stands in front of the words of an item. -/
inductive Lead where
  | nothing
  | slash
  | oneSlash

/-- The words of an item: one by itself, or any number of them in
parentheses. -/
inductive Words where
  | single (w : Word)
  | group (words : List Word)

/-- An item of a row. -/
structure Item where
  lead : Lead
  words : Words

/-- A word of a row, and whether it stands below a slash. -/
structure Place where
  word : Word
  below : Bool

def Lead.tokens : Lead → List Token
  | nothing => []
  | slash => [.slash]
  | oneSlash => [.one, .slash]

/-- A slash turns over what stands below it. -/
def Lead.inverts : Lead → Bool
  | nothing => false
  | slash => true
  | oneSlash => true

def Words.list : Words → List Word
  | single w => [w]
  | group words => words

def Words.tokens : Words → List Token
  | single w => [w.lexeme]
  | group words => .opening :: words.map Word.lexeme ++ [.closing]

def Item.tokens (item : Item) : List Token :=
  item.lead.tokens ++ item.words.tokens

/-- The words of an item in order. -/
def Item.places (item : Item) : List Place :=
  item.words.list.map (⟨·, item.lead.inverts⟩)

variable (table : Symbols)

/-- The term of a word in its place: as it is read, but with the
opposite exponent below a slash. -/
def Denotes (place : Place) (t : Term) : Prop :=
  ∃ read, place.word.term? table = some read
    ∧ t = { read with exponent := t.exponent }
    ∧ t.exponent.val
        = if place.below then -read.exponent.val else read.exponent.val

/-- Tokens as a row of items with the terms of its words. -/
structure Spells (tokens : List Token) (items : List Item)
    (terms : List Term) : Prop where
  tokens : items.flatMap Item.tokens = tokens
  terms : List.Forall₂ (Denotes table) (items.flatMap Item.places) terms

variable {table}

namespace Spells

/-- The empty row. -/
theorem nil : Spells table [] [] [] := ⟨rfl, .nil⟩

/-- Rows put side by side are a row. Nothing between two items can be
taken the wrong way, so this asks for no condition. -/
theorem append {s t : List Token} {a b : List Item} {x y : List Term}
    (h : Spells table s a x) (h' : Spells table t b y) :
    Spells table (s ++ t) (a ++ b) (x ++ y) := by
  constructor
  · rw [List.flatMap_append, h.tokens, h'.tokens]
  · rw [List.flatMap_append]
    exact List.rel_append h.terms h'.terms

/-- One item is a row. -/
theorem singleton {item : Item} {terms : List Term}
    (h : List.Forall₂ (Denotes table) item.places terms) :
    Spells table item.tokens [item] terms := by
  constructor
  · exact List.flatMap_singleton ..
  · rw [List.flatMap_singleton]
    exact h

/-- The first item of a row, and the row behind it. -/
theorem uncons {tokens : List Token} {item : Item} {items : List Item}
    {terms : List Term} (h : Spells table tokens (item :: items) terms) :
    ∃ rest front back, item.tokens ++ rest = tokens
      ∧ front ++ back = terms
      ∧ List.Forall₂ (Denotes table) item.places front
      ∧ Spells table rest items back := by
  obtain ⟨htokens, hterms⟩ := h
  rw [List.flatMap_cons] at htokens hterms
  obtain ⟨front, back, hsplit, hfront, hback⟩ :=
    exists_append_of_forall₂ hterms
  exact ⟨_, front, back, htokens, hsplit, hfront, rfl, hback⟩

end Spells

-- ================================================================== words

/-- The reader of one token against the words that both grammars are
made of. -/
theorem term?_eq_some_iff {number : Option (List Char)}
    {symbol : List Char} {t : Term} :
    term? table number symbol = some t ↔
      ∃ w : Word, w.lexeme = .word number symbol
        ∧ w.term? table = some t := by
  constructor
  · intro h
    cases number with
    | none => exact ⟨⟨none, symbol⟩, rfl, h⟩
    | some text =>
      obtain ⟨x, hx, h⟩ := Option.bind_eq_some_iff.1 h
      obtain ⟨n, rfl, rfl⟩ := Symbols.coefficient?_eq_some_iff.1 hx
      exact ⟨⟨some n, symbol⟩, rfl, h⟩
  · rintro ⟨⟨number, token⟩, hlexeme, h⟩
    cases hlexeme
    cases number with
    | none => exact h
    | some n =>
      have hx : Symbols.coefficient? n.text = some n.value :=
        Symbols.coefficient?_eq_some_iff.2 ⟨n, rfl, rfl⟩
      exact Option.bind_eq_some_iff.2 ⟨n.value, hx, h⟩

/-- The terms of words as they are read. -/
def Reads (table : Symbols) (words : List Word) (terms : List Term) :
    Prop :=
  List.Forall₂ (fun w t => w.term? table = some t) words terms

/-- A word above a slash denotes what it is read as. -/
theorem denotes_above_iff {w : Word} {t : Term} :
    Denotes table ⟨w, false⟩ t ↔ w.term? table = some t := by
  constructor
  · rintro ⟨read, hread, ht, hexponent⟩
    have hsame : t.exponent = read.exponent := Exponent.ext hexponent
    rw [hread, ht, hsame]
  · intro h
    exact ⟨t, h, rfl, rfl⟩

/-- A word below a slash denotes the inverse of what it is read as. -/
theorem denotes_below_iff {w : Word} {t : Term} :
    Denotes table ⟨w, true⟩ t ↔
      ∃ read, w.term? table = some read ∧ read.inverse? = some t := by
  refine exists_congr fun read => and_congr_right fun _ => ?_
  unfold Term.inverse?
  rw [Option.map_eq_some_iff]
  constructor
  · rintro ⟨ht, hexponent⟩
    exact ⟨t.exponent, Exponent.neg?_eq_some_iff.2 hexponent, ht.symm⟩
  · rintro ⟨e, he, rfl⟩
    exact ⟨rfl, Exponent.neg?_eq_some_iff.1 he⟩

/-- Above a slash a list of words is read word by word. -/
theorem forall₂_above_iff {words : List Word} {terms : List Term} :
    List.Forall₂ (Denotes table) (words.map (⟨·, false⟩)) terms ↔
      Reads table words terms := by
  rw [List.forall₂_map_left_iff]
  unfold Reads
  simp only [denotes_above_iff]

/-- Below a slash the words are read first and turned over together; one
that cannot be turned over spoils the list. -/
theorem forall₂_below_iff {words : List Word} {terms : List Term} :
    List.Forall₂ (Denotes table) (words.map (⟨·, true⟩)) terms ↔
      ∃ reads, Reads table words reads
        ∧ reads.mapM Term.inverse? = some terms := by
  rw [List.forall₂_map_left_iff]
  simp only [denotes_below_iff, mapM_eq_some_iff]
  constructor
  · intro h
    induction h with
    | nil => exact ⟨[], .nil, .nil⟩
    | cons hhead _ ih =>
      obtain ⟨read, hread, hinverse⟩ := hhead
      obtain ⟨reads, hreads, hinverses⟩ := ih
      exact ⟨read :: reads, .cons hread hreads, .cons hinverse hinverses⟩
  · rintro ⟨reads, hreads, hinverses⟩
    induction hreads generalizing terms with
    | nil =>
      cases hinverses
      exact .nil
    | cons hread _ ih =>
      obtain _ | ⟨hinverse, hinverses⟩ := hinverses
      exact .cons ⟨_, hread, hinverse⟩ (ih hinverses)

-- ====================================================== what a part takes

/-- Tokens start with a row that has these terms. -/
def Front (table : Symbols) (tokens : List Token) (terms : List Term)
    (rest : List Token) : Prop :=
  ∃ front items, front ++ rest = tokens ∧ Spells table front items terms

namespace Front

/-- A part may take nothing. -/
theorem refl (tokens : List Token) : Front table tokens [] tokens :=
  ⟨[], [], rfl, .nil⟩

/-- Parts one after another take their rows one after another. This
carries the whole direction from the reader to rows. -/
theorem trans {s t u : List Token} {x y : List Term}
    (h : Front table s x t) (h' : Front table t y u) :
    Front table s (x ++ y) u := by
  obtain ⟨front, items, rfl, hspells⟩ := h
  obtain ⟨front', items', rfl, hspells'⟩ := h'
  exact ⟨_, _, List.append_assoc .., hspells.append hspells'⟩

/-- A whole item is taken. -/
theorem item {item : Item} {terms : List Term}
    (h : List.Forall₂ (Denotes table) item.places terms)
    (rest : List Token) : Front table (item.tokens ++ rest) terms rest :=
  ⟨_, [item], rfl, .singleton h⟩

/-- Words stand in a row one by one. -/
theorem words {words : List Word} {terms : List Term}
    (h : Reads table words terms) (rest : List Token) :
    Front table (words.map Word.lexeme ++ rest) terms rest := by
  induction h with
  | nil => exact refl rest
  | @cons w t _ _ hw _ ih =>
    have hitem : List.Forall₂ (Denotes table)
        (Item.places ⟨.nothing, .single w⟩) [t] :=
      .cons (denotes_above_iff.2 hw) .nil
    exact (item hitem _).trans ih

/-- Nothing is put back. Rounds stop because of it. -/
theorem length_le {tokens rest : List Token} {terms : List Term}
    (h : Front table tokens terms rest) :
    rest.length ≤ tokens.length := by
  obtain ⟨front, -, rfl, -⟩ := h
  rw [List.length_append]
  omega

end Front

/-- The words that come first are taken, up to what is no word. -/
theorem exists_of_words? {tokens rest : List Token} {terms : List Term}
    (h : words? table tokens = some (terms, rest)) :
    ∃ words, words.map Word.lexeme ++ rest = tokens
      ∧ Reads table words terms := by
  induction tokens generalizing terms with
  | nil =>
    cases h
    exact ⟨[], rfl, .nil⟩
  | cons token more ih =>
    cases token with
    | word number symbol =>
      obtain ⟨t, ht, h⟩ := Option.bind_eq_some_iff.1 h
      obtain ⟨⟨behind, rest⟩, hmore, h⟩ := Option.bind_eq_some_iff.1 h
      cases h
      obtain ⟨w, hlexeme, hw⟩ := term?_eq_some_iff.1 ht
      obtain ⟨words, rfl, hwords⟩ := ih hmore
      refine ⟨w :: words, ?_, .cons hw hwords⟩
      rw [← hlexeme]
      rfl
    | _ =>
      cases h
      exact ⟨[], rfl, .nil⟩

/-- Words outside parentheses are items of their own. -/
theorem front_of_words? {tokens rest : List Token} {terms : List Term}
    (h : words? table tokens = some (terms, rest)) :
    Front table tokens terms rest := by
  obtain ⟨words, rfl, hwords⟩ := exists_of_words? h
  exact .words hwords rest

/-- A group is taken to its closing parenthesis. It is no row yet:
whether it stands below a slash decides how it is read. -/
theorem exists_of_parentheses? {tokens rest : List Token}
    {terms : List Term}
    (h : parentheses? table tokens = some (terms, rest)) :
    ∃ words, (Words.group words).tokens ++ rest = tokens
      ∧ Reads table words terms := by
  unfold parentheses? at h
  split at h
  · next more =>
    obtain ⟨⟨inside, behind⟩, hinside, h⟩ := Option.bind_eq_some_iff.1 h
    simp only at h
    split at h
    · cases h
      obtain ⟨words, rfl, hreads⟩ := exists_of_words? hinside
      refine ⟨words, ?_, hreads⟩
      exact congrArg (Token.opening :: ·) (List.append_assoc ..)
    · cases h
  · cases h

/-- What is taken behind a slash is one word or one group. -/
theorem exists_of_denominator? {tokens rest : List Token}
    {terms : List Term}
    (h : denominator? table tokens = some (terms, rest)) :
    ∃ words : Words, words.tokens ++ rest = tokens
      ∧ Reads table words.list terms := by
  unfold denominator? at h
  split at h
  · next number symbol more =>
    obtain ⟨t, ht, h⟩ := Option.bind_eq_some_iff.1 h
    cases h
    obtain ⟨w, hlexeme, hw⟩ := term?_eq_some_iff.1 ht
    refine ⟨.single w, ?_, .cons hw .nil⟩
    rw [← hlexeme]
    rfl
  · obtain ⟨words, hwords, hreads⟩ := exists_of_parentheses? h
    exact ⟨.group words, hwords, hreads⟩

/-- Above a slash stands a row, unless it is the `1` that goes with the
slash. -/
theorem exists_of_above? {tokens rest : List Token} {terms : List Term}
    (h : above? table tokens = some (terms, rest)) :
    (∃ more, tokens = .one :: .slash :: more ∧ terms = []
        ∧ rest = .slash :: more)
      ∨ Front table tokens terms rest := by
  unfold above? at h
  split at h
  · next more =>
    cases h
    exact .inl ⟨more, rfl, rfl, rfl⟩
  · cases h
  · obtain ⟨⟨first, behind⟩, hwords, h⟩ := Option.bind_eq_some_iff.1 h
    have hfirst := front_of_words? hwords
    simp only at h
    split at h
    · obtain ⟨⟨inside, after⟩, hinside, h⟩ :=
        Option.bind_eq_some_iff.1 h
      cases h
      obtain ⟨words, hgroup, hreads⟩ := exists_of_parentheses? hinside
      have hitem : List.Forall₂ (Denotes table)
          (Item.places ⟨.nothing, .group words⟩) inside :=
        forall₂_above_iff.2 hreads
      rw [← hgroup] at hfirst
      exact .inr (hfirst.trans (.item hitem _))
    · cases h
      exact .inr hfirst

/-- A slash is taken with the words below it. -/
theorem exists_of_below? {tokens rest : List Token} {terms : List Term}
    (h : below? table tokens = some (terms, rest)) :
    (terms = [] ∧ rest = tokens ∧ ∀ more, tokens = .slash :: more → False)
      ∨ ∃ words : Words, .slash :: words.tokens ++ rest = tokens
          ∧ List.Forall₂ (Denotes table) (words.list.map (⟨·, true⟩))
              terms := by
  unfold below? at h
  split at h
  · obtain ⟨⟨reads, behind⟩, hreads, h⟩ := Option.bind_eq_some_iff.1 h
    obtain ⟨inverted, hinverted, h⟩ := Option.bind_eq_some_iff.1 h
    cases h
    obtain ⟨words, rfl, hwords⟩ := exists_of_denominator? hreads
    exact .inr ⟨words, rfl, forall₂_below_iff.2 ⟨reads, hwords, hinverted⟩⟩
  · next hslash =>
    cases h
    exact .inl ⟨rfl, rfl, hslash⟩

/-- A slash with what stands below it is an item. -/
theorem front_of_below? {tokens rest : List Token} {terms : List Term}
    (h : below? table tokens = some (terms, rest)) :
    Front table tokens terms rest := by
  rcases exists_of_below? h with ⟨rfl, rfl, -⟩ | ⟨words, rfl, hterms⟩
  · exact .refl _
  · have hitem : List.Forall₂ (Denotes table)
        (Item.places ⟨.slash, words⟩) terms := hterms
    exact .item hitem rest

/-- A round takes a row. -/
theorem front_of_round? {tokens rest : List Token} {terms : List Term}
    (h : round? table tokens = some (terms, rest)) :
    Front table tokens terms rest := by
  unfold round? at h
  obtain ⟨⟨top, afterTop⟩, htop, h⟩ := Option.bind_eq_some_iff.1 h
  obtain ⟨⟨bottom, afterBottom⟩, hbottom, h⟩ :=
    Option.bind_eq_some_iff.1 h
  obtain ⟨⟨more, afterMore⟩, hmore, h⟩ := Option.bind_eq_some_iff.1 h
  cases h
  refine .trans ?_ (front_of_words? hmore)
  rcases exists_of_above? htop with ⟨after, rfl, rfl, rfl⟩ | hfront
  · -- the `1` was dropped, and the slash behind it is still to be taken
    rcases exists_of_below? hbottom with
      ⟨-, -, hslash⟩ | ⟨words, hwords, hterms⟩
    · exact absurd rfl (hslash after)
    · have hitem : List.Forall₂ (Denotes table)
          (Item.places ⟨.oneSlash, words⟩) bottom := hterms
      rw [← hwords]
      exact .item hitem afterBottom
  · exact hfront.trans (front_of_below? hbottom)

/-- Rounds up to the last token take a row. -/
theorem exists_of_rounds? {tokens : List Token} {terms : List Term}
    (h : rounds? table tokens = some terms) :
    ∃ items, Spells table tokens items terms := by
  fun_induction rounds? table tokens generalizing terms with
  | case1 tokens hround => cases h
  | case2 tokens first rest hround hempty =>
    cases h
    obtain ⟨front, items, rfl, hspells⟩ := front_of_round? hround
    rw [List.isEmpty_iff.1 hempty, List.append_nil]
    exact ⟨items, hspells⟩
  | case3 tokens first rest hround _ _ ih =>
    obtain ⟨more, hmore, rfl⟩ := Option.map_eq_some_iff.1 h
    obtain ⟨front, items, rfl, hspells⟩ := front_of_round? hround
    obtain ⟨items', hspells'⟩ := ih hmore
    exact ⟨items ++ items', hspells.append hspells'⟩
  | case4 => cases h

-- =============================================================== progress

/-- Above a slash something is taken, unless the slash itself comes
first, or what no row starts with. -/
theorem above?_progress {token : Token} {more rest : List Token}
    {terms : List Term}
    (h : above? table (token :: more) = some (terms, rest)) :
    rest.length ≤ more.length ∨ token = .slash ∨ token = .closing := by
  cases token with
  | slash => exact .inr (.inl rfl)
  | closing => exact .inr (.inr rfl)
  | one =>
    left
    -- a `1` is taken only in front of a slash
    match more, h with
    | .slash :: after, h =>
      cases h
      exact le_rfl
  | opening =>
    left
    change (parentheses? table (.opening :: more)).bind _ = _ at h
    obtain ⟨⟨inside, after⟩, hinside, h⟩ := Option.bind_eq_some_iff.1 h
    cases h
    obtain ⟨words, hgroup, -⟩ := exists_of_parentheses? hinside
    have hlength := congrArg List.length hgroup
    simp only [Words.tokens, List.length_append, List.length_cons]
      at hlength
    omega
  | word number symbol =>
    left
    obtain ⟨⟨first, behind⟩, hwords, h⟩ := Option.bind_eq_some_iff.1 h
    obtain ⟨t, -, hwords⟩ := Option.bind_eq_some_iff.1 hwords
    obtain ⟨⟨_, behind'⟩, hmore, hwords⟩ :=
      Option.bind_eq_some_iff.1 hwords
    cases hwords
    have hbehind := (front_of_words? hmore).length_le
    simp only at h
    split at h
    · obtain ⟨⟨inside, after⟩, hinside, h⟩ :=
        Option.bind_eq_some_iff.1 h
      cases h
      obtain ⟨words, hgroup, -⟩ := exists_of_parentheses? hinside
      show after.length ≤ more.length
      have hlength := congrArg List.length hgroup
      simp only [Words.tokens, List.length_append, List.length_cons]
        at hlength hbehind
      omega
    · cases h
      exact hbehind

/-- A round takes something, unless it meets the end or a closing
parenthesis. -/
theorem round?_progress {token : Token} {more rest : List Token}
    {terms : List Term}
    (h : round? table (token :: more) = some (terms, rest))
    (htoken : token ≠ .closing) : rest.length ≤ more.length := by
  unfold round? at h
  obtain ⟨⟨top, afterTop⟩, htop, h⟩ := Option.bind_eq_some_iff.1 h
  obtain ⟨⟨bottom, afterBottom⟩, hbottom, h⟩ :=
    Option.bind_eq_some_iff.1 h
  obtain ⟨⟨behind, afterMore⟩, hmore, h⟩ := Option.bind_eq_some_iff.1 h
  cases h
  have hlast := (front_of_words? hmore).length_le
  have hmiddle := (front_of_below? hbottom).length_le
  rcases above?_progress htop with hfirst | rfl | rfl
  · omega
  · cases htop
    rcases exists_of_below? hbottom with
      ⟨-, -, hslash⟩ | ⟨words, hwords, -⟩
    · exact absurd rfl (hslash more)
    · have hlength := congrArg List.length hwords
      simp only [List.length_append, List.length_cons] at hlength
      omega
  · exact absurd rfl htoken

-- ============================================================ on a row

/-- How a row can begin. -/
inductive Begins (table : Symbols) : List Token → List Term → Prop where
  | nothing : Begins table [] []
  | word {w : Word} {t : Term} {rest : List Token} {items : List Item}
      {back : List Term} :
      w.term? table = some t → Spells table rest items back →
        Begins table (w.lexeme :: rest) (t :: back)
  | group {words : List Word} {front back : List Term}
      {rest : List Token} {items : List Item} :
      Reads table words front → Spells table rest items back →
        Begins table
          (.opening :: (words.map Word.lexeme ++ [.closing] ++ rest))
          (front ++ back)
  | slash {words : Words} {front back : List Term} {rest : List Token}
      {items : List Item} :
      List.Forall₂ (Denotes table) (Item.places ⟨.slash, words⟩) front →
        Spells table rest items back →
          Begins table (.slash :: (words.tokens ++ rest)) (front ++ back)
  | oneSlash {words : Words} {front back : List Term}
      {rest : List Token} {items : List Item} :
      List.Forall₂ (Denotes table) (Item.places ⟨.slash, words⟩) front →
        Spells table rest items back →
          Begins table (.one :: .slash :: (words.tokens ++ rest))
            (front ++ back)

/-- A row begins in one of these ways, which are those between which a
round decides. -/
theorem Spells.begins {tokens : List Token} {items : List Item}
    {terms : List Term} (h : Spells table tokens items terms) :
    Begins table tokens terms := by
  cases items with
  | nil =>
    obtain rfl : [] = tokens := h.tokens
    rw [List.forall₂_nil_left_iff.1 h.terms]
    exact .nothing
  | cons item items =>
    obtain ⟨rest, front, back, rfl, rfl, hfront, hback⟩ := h.uncons
    match item, hfront with
    | ⟨.nothing, .single w⟩, hfront =>
      obtain _ | ⟨hw, hnil⟩ := hfront
      cases hnil
      exact .word (denotes_above_iff.1 hw) hback
    | ⟨.nothing, .group words⟩, hfront =>
      exact .group (forall₂_above_iff.1 hfront) hback
    | ⟨.slash, words⟩, hfront => exact .slash hfront hback
    | ⟨.oneSlash, words⟩, hfront => exact .oneSlash hfront hback

/-- What is found on a row is the front of it, and leaves a row. -/
def Leads (table : Symbols) (found : Option (List Term × List Token))
    (terms : List Term) : Prop :=
  ∃ front back rest items, found = some (front, rest)
    ∧ front ++ back = terms ∧ Spells table rest items back

/-- To take nothing leaves the row as it is. -/
theorem leads_nothing {tokens : List Token} {items : List Item}
    {terms : List Term} (h : Spells table tokens items terms) :
    Leads table (some ([], tokens)) terms :=
  ⟨[], terms, tokens, items, rfl, rfl, h⟩

/-- The loop over words by its first word. -/
theorem words?_cons {w : Word} {t : Term} (hw : w.term? table = some t)
    (rest : List Token) :
    words? table (w.lexeme :: rest)
      = (words? table rest).map fun found => (t :: found.1, found.2) := by
  have hterm := term?_eq_some_iff.2 ⟨w, rfl, hw⟩
  show (term? table (w.number.map Text.Numeral.text) w.token).bind _ = _
  rw [hterm, Option.bind_some]
  cases words? table rest <;> rfl

/-- The loop takes every word that is there before it looks at what
follows. -/
theorem words?_append {words : List Word} {terms : List Term}
    (h : Reads table words terms) (rest : List Token) :
    words? table (words.map Word.lexeme ++ rest)
      = (words? table rest).map fun found =>
          (terms ++ found.1, found.2) := by
  induction h with
  | nil =>
    show words? table rest = _
    cases words? table rest <;> rfl
  | cons hw _ ih =>
    rw [List.map_cons, List.cons_append, words?_cons hw, ih,
      Option.map_map]
    rfl

/-- A group is read whole, whatever follows the closing parenthesis. -/
theorem parentheses?_eq {words : List Word} {terms : List Term}
    (h : Reads table words terms) (rest : List Token) :
    parentheses? table ((Words.group words).tokens ++ rest)
      = some (terms, rest) := by
  show (words? table (words.map Word.lexeme ++ [.closing] ++ rest)).bind _
    = _
  rw [List.append_assoc, words?_append h]
  show some (terms ++ [], rest) = _
  rw [List.append_nil]

/-- Below a slash exactly one word or one group is taken; a second word
would be one of the items behind. -/
theorem denominator?_eq {words : Words} {terms : List Term}
    (h : Reads table words.list terms) (rest : List Token) :
    denominator? table (words.tokens ++ rest) = some (terms, rest) := by
  cases words with
  | single w =>
    obtain _ | ⟨hw, hnil⟩ := h
    cases hnil
    have hterm := term?_eq_some_iff.2 ⟨w, rfl, hw⟩
    show (term? table (w.number.map Text.Numeral.text) w.token).bind _ = _
    rw [hterm]
    rfl
  | group words => exact parentheses?_eq h rest

/-- On a row the loop over words takes all the items that are single
words. -/
theorem leads_words? {tokens : List Token} {items : List Item}
    {terms : List Term} (h : Spells table tokens items terms) :
    Leads table (words? table tokens) terms := by
  induction tokens generalizing items terms with
  | nil => exact leads_nothing h
  | cons token more ih =>
    cases h.begins with
    | word hw hrest =>
      obtain ⟨front, back, rest, items', hfound, rfl, hback⟩ := ih hrest
      refine ⟨_ :: front, back, rest, items', ?_, rfl, hback⟩
      rw [words?_cons hw, hfound]
      rfl
    | group => exact leads_nothing h
    | slash => exact leads_nothing h
    | oneSlash => exact leads_nothing h

/-- A row that starts with a parenthesis starts with a group. -/
theorem leads_parentheses? {more : List Token} {items : List Item}
    {terms : List Term}
    (h : Spells table (.opening :: more) items terms) :
    Leads table (parentheses? table (.opening :: more)) terms := by
  cases h.begins with
  | @group words front back rest items hreads hback =>
    exact ⟨front, back, rest, items, parentheses?_eq hreads rest, rfl,
      hback⟩

/-- Above a slash a row loses its front, or the `1` of its first
slash. -/
theorem leads_above? {tokens : List Token} {items : List Item}
    {terms : List Term} (h : Spells table tokens items terms) :
    Leads table (above? table tokens) terms := by
  unfold above?
  split
  · cases h.begins with
    | oneSlash hfront hback =>
      exact leads_nothing (Spells.append (.singleton hfront) hback)
  · next more hslash =>
    cases h.begins with
    | oneSlash => exact absurd rfl (hslash _)
  · obtain ⟨front, back, rest, items', hfound, rfl, hrest⟩ :=
      leads_words? h
    rw [hfound, Option.bind_eq_bind, Option.bind_some]
    simp only
    split
    · obtain ⟨inside, back', rest', items', hinside, rfl, hback⟩ :=
        leads_parentheses? hrest
      refine ⟨front ++ inside, back', rest', items', ?_, ?_, hback⟩
      · rw [hinside]
        rfl
      · exact List.append_assoc ..
    · exact ⟨front, back, rest, items', rfl, rfl, hrest⟩

/-- Below a slash a row loses its first item, if that is a slash with
words, and nothing otherwise. -/
theorem leads_below? {tokens : List Token} {items : List Item}
    {terms : List Term} (h : Spells table tokens items terms) :
    Leads table (below? table tokens) terms := by
  cases h.begins with
  | @slash words front back rest items hfront hback =>
    obtain ⟨reads, hreads, hinverted⟩ := forall₂_below_iff.1 hfront
    refine ⟨front, back, rest, items, ?_, rfl, hback⟩
    show (denominator? table (words.tokens ++ rest)).bind _ = _
    rw [denominator?_eq hreads]
    show (reads.mapM Term.inverse?).bind _ = _
    rw [hinverted]
    rfl
  | nothing => exact leads_nothing h
  | word => exact leads_nothing h
  | group => exact leads_nothing h
  | oneSlash => exact leads_nothing h

/-- On a row a round succeeds, and leaves a row. -/
theorem leads_round? {tokens : List Token} {items : List Item}
    {terms : List Term} (h : Spells table tokens items terms) :
    Leads table (round? table tokens) terms := by
  obtain ⟨top, below, afterTop, _, htop, rfl, hbelow⟩ := leads_above? h
  obtain ⟨bottom, words, afterBottom, _, hbottom, rfl, hwords⟩ :=
    leads_below? hbelow
  obtain ⟨more, back, rest, items', hmore, rfl, hback⟩ :=
    leads_words? hwords
  refine ⟨top ++ bottom ++ more, back, rest, items', ?_, ?_, hback⟩
  · unfold round?
    rw [htop, Option.bind_eq_bind, Option.bind_some]
    simp only
    rw [hbottom, Option.bind_some]
    simp only
    rw [hmore]
    rfl
  · rw [List.append_assoc, List.append_assoc]

/-- No row starts with a closing parenthesis. -/
theorem Spells.ne_closing {token : Token} {more : List Token}
    {items : List Item} {terms : List Term}
    (h : Spells table (token :: more) items terms) :
    token ≠ .closing := by
  cases h.begins <;> exact nofun

/-- The empty row has no terms. -/
theorem Spells.eq_nil {items : List Item} {terms : List Term}
    (h : Spells table [] items terms) : terms = [] := by
  cases h.begins
  rfl

/-- A row is read in rounds to its end. -/
theorem rounds?_eq_of_spells {tokens : List Token} {items : List Item}
    {terms : List Term} (h : Spells table tokens items terms) :
    rounds? table tokens = some terms := by
  induction hlength : tokens.length using Nat.strong_induction_on
    generalizing tokens items terms with
  | _ n ih =>
    obtain ⟨front, back, rest, items', hround, rfl, hrest⟩ :=
      leads_round? h
    rw [rounds?, hround]
    simp only
    cases rest with
    | nil =>
      rw [hrest.eq_nil, List.append_nil]
      rfl
    | cons next after =>
      have hshorter : (next :: after).length < tokens.length := by
        cases tokens with
        | nil => cases hround
        | cons token more =>
          exact Nat.lt_succ_of_le (round?_progress hround h.ne_closing)
      rw [if_neg (by simp), if_pos hshorter,
        ih _ (hlength ▸ hshorter) hrest rfl]
      rfl

/-- Tokens are read exactly when they are a row. -/
theorem rounds?_eq_some_iff {tokens : List Token} {terms : List Term} :
    rounds? table tokens = some terms ↔
      ∃ items, Spells table tokens items terms :=
  ⟨exists_of_rounds?, fun ⟨_, h⟩ => rounds?_eq_of_spells h⟩

/-- A text is read when its tokens are a row. Tokens and row are cut
apart here: the first is a matter of characters, the second of the
table. -/
theorem terms?_eq_some_iff {text : List Char} {terms : List Term} :
    terms? table text = some terms ↔
      ∃ tokens items, Token.Lexes text tokens
        ∧ Spells table tokens items terms := by
  unfold terms?
  rw [Option.bind_eq_bind, Option.bind_eq_some_iff]
  simp only [Token.all?_eq_some_iff, rounds?_eq_some_iff,
    exists_and_left]

/-- Every term that is found has a symbol of the table. -/
theorem symbol_mem_names {text : List Char} {terms : List Term}
    (h : terms? table text = some terms) :
    ∀ t ∈ terms, t.symbol ∈ table.names := by
  intro t ht
  obtain ⟨tokens, items, -, hspells⟩ := terms?_eq_some_iff.1 h
  obtain ⟨place, -, read, hread, ht, -⟩ :=
    exists_of_mem_of_forall₂ hspells.terms.flip ht
  have hterm : table.term? place.word.coefficient place.word.token
      = some read := hread
  have hsymbol : t.symbol = read.symbol := by
    rw [ht]
  rw [hsymbol]
  exact Symbols.symbol_mem_names hterm

-- =============================================================== reading

/-- A word of a row can be read: it is recognised, and if it stands
below a slash, its exponent can be turned over. -/
def Place.Readable (table : Symbols) (place : Place) : Prop :=
  ∃ read, place.word.term? table = some read
    ∧ (place.below = true → read.exponent ≠ .least)

/-- That a word can be read at its place asks for a reading, and below a
slash for one that can be turned over. -/
theorem Place.readable_iff {place : Place} :
    place.Readable table ↔ ∃ t, Denotes table place t := by
  obtain ⟨w, below⟩ := place
  cases below with
  | false =>
    simp only [denotes_above_iff]
    exact ⟨fun ⟨read, h, _⟩ => ⟨read, h⟩, fun ⟨t, h⟩ => ⟨t, h, nofun⟩⟩
  | true =>
    simp only [denotes_below_iff]
    constructor
    · rintro ⟨read, hread, hleast⟩
      obtain ⟨t, ht⟩ := Term.exists_inverse?_iff.2 (hleast rfl)
      exact ⟨t, read, hread, ht⟩
    · rintro ⟨t, read, hread, hinverse⟩
      exact ⟨read, hread,
        fun _ => Term.exists_inverse?_iff.1 ⟨t, hinverse⟩⟩

/-- Tokens can be read when they are a row of words that can. -/
theorem exists_spells_iff {tokens : List Token} {items : List Item} :
    (∃ terms, Spells table tokens items terms) ↔
      items.flatMap Item.tokens = tokens
        ∧ ∀ place ∈ items.flatMap Item.places, place.Readable table := by
  simp only [Place.readable_iff, ← exists_forall₂_iff]
  exact ⟨fun ⟨terms, h⟩ => ⟨h.tokens, terms, h.terms⟩,
    fun ⟨htokens, terms, hterms⟩ => ⟨terms, htokens, hterms⟩⟩

end Fraction

/-- The fraction grammar reads exactly the texts of tokens that are a
row of items: a word, or words in parentheses, with or without a slash
in front, and a slash with or without a `1` in front of it. Every word
has to be recognised, and below a slash its exponent must not be the
least one. The terms are those of the words in order, with the opposite
exponent for each word below a slash and for no other. A text that is
not read is reported whole. -/
theorem fraction_read (table : Symbols) (text : String) :
    (∀ terms, (Reader.fraction table).read text = .ok terms ↔
        ∃ tokens items, Token.Lexes text.toList tokens
          ∧ Fraction.Spells table tokens items terms)
      ∧ ((∃ terms, (Reader.fraction table).read text = .ok terms) ↔
          ∃ (tokens : List Token) (items : List Fraction.Item),
            Token.Lexes text.toList tokens
            ∧ items.flatMap Fraction.Item.tokens = tokens
            ∧ ∀ place ∈ items.flatMap Fraction.Item.places,
                place.Readable table)
      ∧ (∀ tokens, Token.Lexes text.toList tokens →
          ∀ number symbol, .word number symbol ∈ tokens →
            ∃ w : Word, w.lexeme = .word number symbol)
      ∧ ∀ fault, (Reader.fraction table).read text = .error fault ↔
          fault = .unreadable text
            ∧ ¬ ∃ terms, (Reader.fraction table).read text = .ok terms := by
  have hread (terms : List Term) :
      (Reader.fraction table).read text = .ok terms ↔
        ∃ tokens items, Token.Lexes text.toList tokens
          ∧ Fraction.Spells table tokens items terms :=
    Reader.read_eq_ok_iff.trans Fraction.terms?_eq_some_iff
  refine ⟨hread, ?_, fun tokens hlexes number symbol hmem =>
    hlexes.exists_word hmem, fun fault => ?_⟩
  · simp only [hread, ← Fraction.exists_spells_iff]
    constructor
    · rintro ⟨terms, tokens, items, hlexes, hspells⟩
      exact ⟨tokens, items, hlexes, terms, hspells⟩
    · rintro ⟨tokens, items, hlexes, terms, hspells⟩
      exact ⟨terms, tokens, items, hlexes, hspells⟩
  · refine Reader.read_eq_error_iff.trans (and_congr_right fun _ => ?_)
    simp only [Reader.read_eq_ok_iff, not_exists,
      Option.eq_none_iff_forall_ne_some]

end UnitAlgebra
