/-
What a token means, said apart from any search. A table of names of
letters reads letters as a name that is registered, by itself, or else
as a prefix in front of a name that takes one, and then the longest
prefix that leaves such a name (`Symbols.Reads`). The two cases exclude
each other and either leaves one reading (`Symbols.Reads.unique`), so
the order in which the names are listed has nothing to decide.

# The search

It finds that reading (`Symbols.reads_of_spelled?`). A name by itself is
tried before all prefixed spellings. Of those, the one with the
preferred prefix is the longest that is left
(`Symbols.exists_of_find?_prefixed`), because of two prefixes that begin
the same letters the shorter one is tried later.

Longer means longer in bytes where spellings are sorted, and in
characters where readings are compared. For two beginnings of one text
this is the same (`Text.length_le_of_longerFirst`).

# Exponents

What stands behind the letters is an exponent text or nothing, and its
value is told apart from the code too (`Symbols.Denotes`). Since letters
are no digits, a token has at most one cut into letters and exponent,
and what it means is settled by both (`Symbols.term?_eq_some_iff_reads`,
`recognition_of_words`).
-/
import UnitAlgebra.Proofs.Registration
import UnitAlgebra.Proofs.TokenPattern

namespace UnitAlgebra

-- ====================================================== longer and shorter

namespace Text

/-- Of two spellings that are kept, the one in front comes first in the
order. -/
theorem pairwise_longestFirst (spellings : List String) :
    (longestFirst spellings).Pairwise fun a b => longerFirst a b = true :=
  @List.pairwise_mergeSort _ longerFirst (fun _ _ _ => longerFirst_trans)
    longerFirst_total _

/-- Of two beginnings of one text, the one that comes first is no
shorter than the other. -/
theorem length_le_of_longerFirst {a b : String} {text : List Char}
    (ha : a.toList <+: text) (hb : b.toList <+: text)
    (h : longerFirst a b = true) : b.length ≤ a.length := by
  rcases List.prefix_or_prefix_of_prefix hb ha with hinside | houtside
  · have hlength := hinside.length_le
    rwa [String.length_toList, String.length_toList] at hlength
  · obtain ⟨more, hmore⟩ := houtside
    have hb : b = a ++ String.ofList more := by
      rw [← String.toList_inj, String.toList_append,
        String.toList_ofList, hmore]
    have hsize : a.utf8ByteSize + (String.ofList more).utf8ByteSize
        ≤ a.utf8ByteSize := by
      rw [← String.utf8ByteSize_append, ← hb]
      rcases longerFirst_iff.1 h with hless | ⟨hsame, -⟩
      · exact hless.le
      · exact hsame.ge
    have hnothing : String.ofList more = "" :=
      String.utf8ByteSize_eq_zero_iff.1 (by omega)
    rw [hb, hnothing, String.append_empty]

end Text

/-- Prefixes are tried the longer ones first. -/
theorem SIPrefix.pairwise_longestFirst :
    SIPrefix.longestFirst.Pairwise fun p q =>
      Text.longerFirst p.1 q.1 = true := by
  unfold longestFirst
  rw [List.pairwise_filterMap]
  refine (Text.pairwise_longestFirst _).imp ?_
  intro s t hst p hp q hq
  obtain ⟨_, -, rfl⟩ := Option.map_eq_some_iff.1 hp
  obtain ⟨_, -, rfl⟩ := Option.map_eq_some_iff.1 hq
  exact hst

namespace Symbols

-- ============================================================ exponents

/-- What a text behind a symbol denotes: one if there is none, else the
value of its digits, negative behind a minus sign. -/
inductive Denotes : List Char → Exponent → Prop where
  | absent : Denotes [] 1
  | digits {text : List Char} {e : Exponent} (hne : text ≠ [])
      (hdigits : ∀ c ∈ text, c.isDigit = true)
      (he : e.val = Number.ofDigits text) : Denotes text e
  | negative {text : List Char} {e : Exponent} (hne : text ≠ [])
      (hdigits : ∀ c ∈ text, c.isDigit = true)
      (he : e.val = -Number.ofDigits text) : Denotes ('-' :: text) e

/-- The test for digits, as it is asked of exponents. -/
theorem isDigits_iff {text : List Char} :
    (!text.isEmpty && text.all Char.isDigit) = true ↔
      text ≠ [] ∧ ∀ c ∈ text, c.isDigit = true := by
  rw [Bool.and_eq_true_iff, List.all_eq_true, Bool.not_eq_true',
    List.isEmpty_eq_false_iff]

/-- Without a minus sign an exponent is the value of its digits. -/
theorem exponentOf?_cons_of_ne {c : Char} (hminus : c ≠ '-')
    (rest : List Char) :
    exponentOf? (c :: rest)
      = Exponent.ofInt? (Number.ofDigits (c :: rest)) := by
  rw [exponentOf?]
  · exact List.cons_ne_nil c rest
  · intro digits heq
    exact hminus (List.cons.inj heq).1

/-- An exponent text denotes what is computed from it, and other texts
denote nothing. -/
theorem denotes_iff {text : List Char} {e : Exponent} :
    Denotes text e ↔
      isExponentText text = true ∧ exponentOf? text = some e := by
  constructor
  · intro h
    cases h with
    | absent => exact ⟨rfl, rfl⟩
    | digits hne hdigits he =>
      cases text with
      | nil => exact absurd rfl hne
      | cons c rest =>
        have hminus : c ≠ '-' := by
          rintro rfl
          exact absurd (hdigits _ List.mem_cons_self) (by decide)
        rw [isExponentText, isSignedDigits_cons_of_ne hminus,
          exponentOf?_cons_of_ne hminus]
        exact ⟨isDigits_iff.2 ⟨hne, hdigits⟩,
          Exponent.ofInt?_eq_some_iff.2 he⟩
    | negative hne hdigits he =>
      exact ⟨isDigits_iff.2 ⟨hne, hdigits⟩,
        Exponent.ofInt?_eq_some_iff.2 he⟩
  · rintro ⟨htext, he⟩
    cases text with
    | nil =>
      cases he
      exact .absent
    | cons c rest =>
      by_cases hminus : c = '-'
      · subst hminus
        obtain ⟨hne, hdigits⟩ := isDigits_iff.1 htext
        exact .negative hne hdigits (Exponent.ofInt?_eq_some_iff.1 he)
      · rw [exponentOf?_cons_of_ne hminus] at he
        change isSignedDigits (c :: rest) = true at htext
        rw [isSignedDigits_cons_of_ne hminus] at htext
        obtain ⟨hne, hdigits⟩ := isDigits_iff.1 htext
        exact .digits hne hdigits (Exponent.ofInt?_eq_some_iff.1 he)

-- ============================================================= readings

variable {prefixable standalone : List String} {letters : List Char}
  {scale scale' : SIPrefix} {name name' : String}

/-- The letters are a prefix and a name that takes one. -/
def Scales (prefixable : List String) (letters : List Char)
    (spelling : String) (scale : SIPrefix) (name : String) : Prop :=
  SIPrefix.ofSymbol? spelling = some scale ∧ name ∈ prefixable
    ∧ spelling.toList ++ name.toList = letters

/-- What letters mean to someone who knows two lists of names. -/
inductive Reads (prefixable standalone : List String)
    (letters : List Char) : SIPrefix → String → Prop where
  /-- A name that is registered means itself. -/
  | alone (h : String.ofList letters ∈ prefixable ++ standalone) :
      Reads prefixable standalone letters .plain (String.ofList letters)
  /-- What is not registered means the longest prefix of a name. -/
  | scaled {spelling name : String} {scale : SIPrefix}
      (hother : String.ofList letters ∉ prefixable ++ standalone)
      (hscales : Scales prefixable letters spelling scale name)
      (hlongest : ∀ spelling' scale' name',
        Scales prefixable letters spelling' scale' name' →
          spelling'.length ≤ spelling.length) :
      Reads prefixable standalone letters scale name

/-- Prefix and name take up all the letters, so the longer the one, the
shorter the other. -/
theorem Scales.length_add_length {spelling : String}
    (h : Scales prefixable letters spelling scale name) :
    spelling.length + name.length = letters.length := by
  rw [← h.2.2, List.length_append, String.length_toList,
    String.length_toList]

/-- The shorter the name, the longer the prefix. -/
theorem Scales.length_le {spelling spelling' : String}
    (h : Scales prefixable letters spelling scale name)
    (h' : Scales prefixable letters spelling' scale' name')
    (hname : name.length ≤ name'.length) :
    spelling'.length ≤ spelling.length := by
  have hlength := h.length_add_length
  have hlength' := h'.length_add_length
  omega

/-- A prefix of given length leaves one name. -/
theorem Scales.unique {spelling spelling' : String}
    (h : Scales prefixable letters spelling scale name)
    (h' : Scales prefixable letters spelling' scale' name')
    (hlength : spelling.length = spelling'.length) :
    scale = scale' ∧ name = name' := by
  obtain ⟨hscale, -, hletters⟩ := h
  obtain ⟨hscale', -, hletters'⟩ := h'
  rw [← String.length_toList, ← String.length_toList] at hlength
  obtain ⟨hspelling, hname⟩ :=
    List.append_inj (hletters.trans hletters'.symm) hlength
  rw [String.toList_inj.1 hspelling, hscale'] at hscale
  exact ⟨(Option.some.inj hscale).symm, String.toList_inj.1 hname⟩

/-- Letters mean one thing at most. -/
theorem Reads.unique (h : Reads prefixable standalone letters scale name)
    (h' : Reads prefixable standalone letters scale' name') :
    scale = scale' ∧ name = name' := by
  cases h with
  | alone hknown =>
    cases h' with
    | alone _ => exact ⟨rfl, rfl⟩
    | scaled hother _ _ => exact absurd hknown hother
  | scaled hother hscales hlongest =>
    cases h' with
    | alone hknown => exact absurd hknown hother
    | scaled _ hscales' hlongest' =>
      exact hscales.unique hscales' (Nat.le_antisymm
        (hlongest' _ _ _ hscales) (hlongest _ _ _ hscales'))

/-- The letters are a name, or a prefix and a name that takes one. -/
def Known (prefixable standalone : List String) (letters : List Char) :
    Prop :=
  String.ofList letters ∈ prefixable ++ standalone
    ∨ ∃ spelling scale name, Scales prefixable letters spelling scale name

/-- What means something is known. -/
theorem Reads.known (h : Reads prefixable standalone letters scale name) :
    Known prefixable standalone letters := by
  cases h with
  | alone hknown => exact .inl hknown
  | scaled _ hscales _ => exact .inr ⟨_, _, _, hscales⟩

/-- What takes no prefix means itself. -/
theorem Reads.plain (h : Reads prefixable standalone letters scale name)
    (hname : name ∉ prefixable) : scale = .plain := by
  cases h with
  | alone _ => rfl
  | scaled _ hscales _ => exact absurd hscales.2.1 hname

section

variable {prefixable' standalone' : List String}

/-- Only which names take a prefix matters. -/
theorem scales_congr (hprefixable : ∀ s, s ∈ prefixable ↔ s ∈ prefixable')
    {spelling : String} :
    Scales prefixable letters spelling scale name ↔
      Scales prefixable' letters spelling scale name := by
  unfold Scales
  rw [hprefixable]

theorem known_congr (hprefixable : ∀ s, s ∈ prefixable ↔ s ∈ prefixable')
    (hstandalone : ∀ s, s ∈ standalone ↔ s ∈ standalone') :
    Known prefixable standalone letters ↔
      Known prefixable' standalone' letters := by
  unfold Known
  simp only [List.mem_append, hprefixable, hstandalone,
    scales_congr hprefixable]

/-- The meaning of letters is a matter of which names there are. -/
theorem Reads.congr (hprefixable : ∀ s, s ∈ prefixable ↔ s ∈ prefixable')
    (hstandalone : ∀ s, s ∈ standalone ↔ s ∈ standalone')
    (h : Reads prefixable standalone letters scale name) :
    Reads prefixable' standalone' letters scale name := by
  have hnames : ∀ s, s ∈ prefixable' ++ standalone' ↔
      s ∈ prefixable ++ standalone := by
    intro s
    rw [List.mem_append, List.mem_append, hprefixable, hstandalone]
  cases h with
  | alone hknown => exact .alone ((hnames _).2 hknown)
  | scaled hother hscales hlongest =>
    refine .scaled (fun hknown => hother ((hnames _).1 hknown))
      ((scales_congr hprefixable).1 hscales) fun _ _ _ h' => ?_
    exact hlongest _ _ _ ((scales_congr hprefixable).2 h')

end

-- ============================================================ the search

variable {table : Symbols}

/-- The names of a table are those of its two lists. -/
theorem mem_names_iff {s : String} :
    s ∈ table.names ↔ s ∈ table.prefixable ++ table.standalone := by
  unfold names
  rw [List.mem_append, List.mem_append, or_comm]

/-- The prefixed spellings are all prefixes in front of all names that
take one. -/
theorem mem_prefixed_iff {s : Spelling} :
    s ∈ table.prefixed ↔
      ∃ spelling,
        Scales table.prefixable s.text spelling s.scale s.symbol := by
  unfold prefixed Scales
  rw [List.mem_flatMap]
  constructor
  · intro h
    obtain ⟨p, hp, h⟩ := h
    obtain ⟨name, hname, rfl⟩ := List.mem_map.1 h
    exact ⟨p.1, SIPrefix.mem_longestFirst_iff.1 hp, hname, rfl⟩
  · intro h
    obtain ⟨text, scale, symbol⟩ := s
    obtain ⟨spelling, hscale, hname, htext⟩ := h
    exact ⟨(spelling, scale), SIPrefix.mem_longestFirst_iff.2 hscale,
      List.mem_map.2
        ⟨symbol, hname, congrArg (Spelling.mk · scale symbol) htext⟩⟩

/-- The prefixed spelling that is found has the longest prefix. -/
theorem exists_of_find?_prefixed {s : Spelling}
    (h : table.prefixed.find? (fun s => decide (s.text = letters))
      = some s) :
    ∃ spelling,
      Scales table.prefixable letters spelling s.scale s.symbol
        ∧ ∀ spelling' scale' name',
            Scales table.prefixable letters spelling' scale' name' →
              spelling'.length ≤ spelling.length := by
  unfold prefixed at h
  rw [List.find?_flatMap] at h
  obtain ⟨before, p, behind, hsplit, hfound, hbefore⟩ :=
    List.findSome?_eq_some_iff.1 h
  have htried : p ∈ SIPrefix.longestFirst := by
    rw [hsplit]
    exact List.mem_append_right _ List.mem_cons_self
  have htext := List.find?_some hfound
  rw [decide_eq_true_iff] at htext
  obtain ⟨name, hname, rfl⟩ :=
    List.mem_map.1 (List.mem_of_find?_eq_some hfound)
  have hscales : Scales table.prefixable letters p.1 p.2 name :=
    ⟨SIPrefix.mem_longestFirst_iff.1 htried, hname, htext⟩
  refine ⟨p.1, hscales, fun spelling' scale' name' h' => ?_⟩
  obtain ⟨hscale', hname', htext'⟩ := h'
  have htried' := SIPrefix.mem_longestFirst_iff.2 hscale'
  have hordered := SIPrefix.pairwise_longestFirst
  rw [hsplit] at htried' hordered
  rcases List.mem_append.1 htried' with hearlier | hlater
  · -- what was tried before leaves no name
    have hnone := List.find?_eq_none.1 (hbefore _ hearlier) _
      (List.mem_map_of_mem hname')
    exact absurd (decide_eq_true htext') hnone
  · rcases List.mem_cons.1 hlater with heq | hlater
    · rw [← heq]
    · obtain ⟨-, hordered, -⟩ := List.pairwise_append.1 hordered
      have hlonger := (List.pairwise_cons.1 hordered).1 _ hlater
      exact Text.length_le_of_longerFirst ⟨_, htext⟩ ⟨_, htext'⟩ hlonger

/-- The spelling that is found is the one that is meant. -/
theorem reads_of_spelled? {s : Spelling}
    (h : table.spelled? letters = some s) :
    Reads table.prefixable table.standalone letters s.scale s.symbol := by
  rw [spelled?_eq] at h
  split at h
  · next hknown =>
    cases h
    exact .alone (mem_names_iff.1 hknown)
  · next hother =>
    obtain ⟨spelling, hscales, hlongest⟩ := exists_of_find?_prefixed h
    exact .scaled (fun hknown => hother (mem_names_iff.2 hknown)) hscales
      hlongest

/-- What is known is spelled. -/
theorem exists_spelled?_iff :
    (∃ s, table.spelled? letters = some s) ↔
      Known table.prefixable table.standalone letters := by
  constructor
  · intro h
    obtain ⟨s, hs⟩ := h
    exact (reads_of_spelled? hs).known
  · intro h
    rw [spelled?_eq]
    split
    · exact ⟨_, rfl⟩
    · next hother =>
      rcases h with hknown | ⟨spelling, scale, name, hscales⟩
      · exact absurd (mem_names_iff.2 hknown) hother
      · rw [← Option.isSome_iff_exists, List.find?_isSome]
        exact ⟨⟨letters, scale, name⟩, mem_prefixed_iff.2 ⟨spelling, hscales⟩,
          decide_eq_true rfl⟩

/-- What letters mean is found. -/
theorem exists_spelled?_of_reads
    (h : Reads table.prefixable table.standalone letters scale name) :
    ∃ s, table.spelled? letters = some s ∧ s.scale = scale
      ∧ s.symbol = name := by
  obtain ⟨s, hs⟩ := exists_spelled?_iff.2 h.known
  exact ⟨s, hs, (reads_of_spelled? hs).unique h⟩

-- =============================================================== tokens

/-- Letters that mean something are letters. -/
theorem isWord_of_spelled?
    (hwords : ∀ symbol ∈ table.names, Text.IsWord symbol.toList)
    {s : Spelling} (h : table.spelled? letters = some s) :
    Text.IsWord letters := by
  have htext := List.find?_some h
  rw [decide_eq_true_iff] at htext
  rw [← htext]
  exact isWord_of_mem_spellings hwords (List.mem_of_find?_eq_some h)

/-- A token stands for what its letters mean, to the power that is
written behind them. -/
theorem term?_eq_some_iff_reads
    (hwords : ∀ symbol ∈ table.names, Text.IsWord symbol.toList)
    {coefficient : Scientific} {token : List Char} {t : Term} :
    table.term? coefficient token = some t ↔
      t.coefficient = coefficient
        ∧ ∃ letters tail, letters ++ tail = token
          ∧ Denotes tail t.exponent
          ∧ Reads table.prefixable table.standalone letters t.scale
              t.symbol := by
  constructor
  · intro h
    obtain ⟨letters, tail, rfl, hletters, htail⟩ :=
      exists_letters_of_term? hwords h
    rw [term?_append hwords coefficient hletters htail] at h
    obtain ⟨s, hs, h⟩ := Option.bind_eq_some_iff.1 h
    obtain ⟨e, he, rfl⟩ := Option.map_eq_some_iff.1 h
    exact ⟨rfl, letters, tail, rfl, denotes_iff.2 ⟨htail, he⟩,
      reads_of_spelled? hs⟩
  · rintro ⟨rfl, letters, tail, rfl, htail, hreads⟩
    obtain ⟨s, hs, hscale, hsymbol⟩ := exists_spelled?_of_reads hreads
    obtain ⟨htail, he⟩ := denotes_iff.1 htail
    rw [term?_append hwords _ (isWord_of_spelled? hwords hs) htail, hs, he]
    show some _ = some t
    rw [hscale, hsymbol]

/-- A token is recognised when it can be cut into letters that are known
and an exponent text. -/
theorem exists_term?_iff
    (hwords : ∀ symbol ∈ table.names, Text.IsWord symbol.toList)
    (coefficient : Scientific) (token : List Char) :
    (∃ t, table.term? coefficient token = some t) ↔
      ∃ letters tail e, letters ++ tail = token ∧ Denotes tail e
        ∧ Known table.prefixable table.standalone letters := by
  constructor
  · intro h
    obtain ⟨t, ht⟩ := h
    obtain ⟨-, letters, tail, happend, htail, hreads⟩ :=
      (term?_eq_some_iff_reads hwords).1 ht
    exact ⟨letters, tail, t.exponent, happend, htail, hreads.known⟩
  · intro h
    obtain ⟨letters, tail, e, happend, htail, hknown⟩ := h
    obtain ⟨s, hs⟩ := exists_spelled?_iff.2 hknown
    exact ⟨⟨coefficient, s.scale, s.symbol, e⟩,
      (term?_eq_some_iff_reads hwords).2
        ⟨rfl, letters, tail, happend, htail, reads_of_spelled? hs⟩⟩

/-- Names of letters, not none at all, make a table. -/
theorem exists_ofLists
    (hwords : ∀ name ∈ prefixable ++ standalone, Text.IsWord name.toList)
    (hsome : prefixable ++ standalone ≠ []) :
    ∃ table, ofLists prefixable standalone = .ok table := by
  obtain ⟨symbol, hsymbol⟩ := List.exists_mem_of_ne_nil _ hsome
  refine ⟨_, ofLists_eq_ok hsymbol ?_⟩
  rintro rfl
  exact (hwords _ hsymbol).1 rfl

/-- The table has the names of the lists. -/
theorem mem_of_ofLists
    (hwords : ∀ name ∈ prefixable ++ standalone, Text.IsWord name.toList)
    (h : ofLists prefixable standalone = .ok table) :
    (∀ s, s ∈ table.prefixable ↔ s ∈ prefixable)
      ∧ (∀ s, s ∈ table.standalone ↔ s ∈ standalone) := by
  have hne : ∀ s ∈ prefixable ++ standalone, s ≠ "" := by
    rintro s hs rfl
    exact (hwords _ hs).1 rfl
  rw [eq_of_ofLists h]
  constructor
  · intro s
    rw [Text.mem_longestFirst]
    exact and_iff_left_of_imp fun hs => hne s (List.mem_append_left _ hs)
  · intro s
    rw [Text.mem_longestFirst]
    exact and_iff_left_of_imp fun hs => hne s (List.mem_append_right _ hs)

/-- A table of names of letters has letters only. Making the table drops
and repeats names, and changes none. -/
theorem isWord_of_ofLists
    (hwords : ∀ name ∈ prefixable ++ standalone, Text.IsWord name.toList)
    (h : ofLists prefixable standalone = .ok table) :
    ∀ symbol ∈ table.names, Text.IsWord symbol.toList := by
  obtain ⟨hprefixable, hstandalone⟩ := mem_of_ofLists hwords h
  intro name hname
  refine hwords name ?_
  rcases List.mem_append.1 (mem_names_iff.1 hname) with hname | hname
  · exact List.mem_append_left _ ((hprefixable name).1 hname)
  · exact List.mem_append_right _ ((hstandalone name).1 hname)

/-- What a token stands for, by the lists. -/
theorem term?_eq_some_iff_of_ofLists
    (hwords : ∀ name ∈ prefixable ++ standalone, Text.IsWord name.toList)
    (h : ofLists prefixable standalone = .ok table)
    (coefficient : Scientific) (token : List Char) (t : Term) :
    table.term? coefficient token = some t ↔
      t.coefficient = coefficient
        ∧ ∃ letters tail, letters ++ tail = token
          ∧ Denotes tail t.exponent
          ∧ Reads prefixable standalone letters t.scale t.symbol := by
  obtain ⟨hprefixable, hstandalone⟩ := mem_of_ofLists hwords h
  rw [term?_eq_some_iff_reads (isWord_of_ofLists hwords h)]
  constructor
  · rintro ⟨hcoefficient, letters, tail, happend, htail, hreads⟩
    exact ⟨hcoefficient, letters, tail, happend, htail,
      hreads.congr hprefixable hstandalone⟩
  · rintro ⟨hcoefficient, letters, tail, happend, htail, hreads⟩
    exact ⟨hcoefficient, letters, tail, happend, htail, hreads.congr
      (fun s => (hprefixable s).symm) fun s => (hstandalone s).symm⟩

end Symbols

-- ========================================================== recognition

open Symbols

/-- How a table of names of letters takes tokens. It matches them with a
pattern, whole and by preference. It takes a token that is a known name,
or a prefix and a name that takes one, with an exponent text in range
behind it; a name that is registered stands for itself, and other
letters for the longest prefix that leaves a name. What takes no prefix
is read with none, micro has three spellings, and the order of the
names and their repetition make no difference. -/
theorem recognition_of_words {prefixable standalone : List String}
    (hwords : ∀ name ∈ prefixable ++ standalone, Text.IsWord name.toList)
    (hsome : prefixable ++ standalone ≠ []) :
    ∃ table, ofLists prefixable standalone = .ok table
      ∧ (∀ coefficient token, table.term? coefficient token
          = (table.pattern.whole? token).bind (termOf? coefficient))
      ∧ (∀ coefficient token,
          (∃ t, table.term? coefficient token = some t) ↔
            ∃ letters tail e, letters ++ tail = token ∧ Denotes tail e
              ∧ Known prefixable standalone letters)
      ∧ (∀ coefficient token t,
          table.term? coefficient token = some t ↔
            t.coefficient = coefficient
              ∧ ∃ letters tail, letters ++ tail = token
                ∧ Denotes tail t.exponent
                ∧ Reads prefixable standalone letters t.scale t.symbol)
      ∧ (∀ coefficient token t,
          table.term? coefficient token = some t →
            t.symbol ∉ prefixable → t.scale = .plain)
      ∧ (∀ spelling ∈ ["u", "µ", "μ"],
          SIPrefix.ofSymbol? spelling = some .micro)
      ∧ ∀ prefixable' standalone' : List String,
          (∀ s, s ∈ prefixable' ↔ s ∈ prefixable) →
          (∀ s, s ∈ standalone' ↔ s ∈ standalone) →
            ofLists prefixable' standalone' = .ok table := by
  obtain ⟨table, htable⟩ := exists_ofLists hwords hsome
  obtain ⟨hprefixable, hstandalone⟩ := mem_of_ofLists hwords htable
  have hiff := term?_eq_some_iff_of_ofLists hwords htable
  refine ⟨table, htable, table.term?_eq_whole?, fun coefficient token => ?_,
    hiff, fun coefficient token t ht hsymbol => ?_, by decide,
    fun prefixable' standalone' hprefixable' hstandalone' => ?_⟩
  · rw [exists_term?_iff (isWord_of_ofLists hwords htable)]
    simp only [known_congr hprefixable hstandalone]
  · obtain ⟨-, letters, tail, -, -, hreads⟩ := (hiff _ _ _).1 ht
    exact hreads.plain hsymbol
  · rw [← htable]
    unfold ofLists
    rw [Text.longestFirst_congr hprefixable',
      Text.longestFirst_congr hstandalone']

/-- `dam` is ten metres and not a tenth of `am`, however the names are
listed. -/
theorem recognition_of_words_decametre :
    (∀ name ∈ ["am", "m"] ++ ["ft"], Text.IsWord name.toList)
      ∧ ["am", "m"] ++ ["ft"] ≠ []
      ∧ ∃ table, ofLists ["am", "m"] ["ft"] = .ok table
        ∧ ofLists ["m", "am"] ["ft", "ft"] = .ok table
        ∧ table.term? 1 "dam2".toList = some ⟨1, .deca, "m", 2⟩
        ∧ (table.pattern.whole? "dam2".toList).bind (termOf? 1)
          = some ⟨1, .deca, "m", 2⟩
        ∧ table.term? 1 "ft-2".toList = some ⟨1, .plain, "ft", -2⟩ := by
  have hwords : ∀ name ∈ ["am", "m"] ++ ["ft"],
      Text.IsWord name.toList := by decide
  have hsome : ["am", "m"] ++ ["ft"] ≠ [] := by decide
  obtain ⟨table, htable, hpattern, -, hiff, -, -, horder⟩ :=
    recognition_of_words hwords hsome
  have hten : Scales ["am", "m"] "dam".toList "da" .deca "m" := by
    refine ⟨?_, ?_, ?_⟩ <;> decide
  have hshort : ∀ name ∈ ["am", "m"], "m".length ≤ name.length := by
    decide
  have hmetre : table.term? 1 "dam2".toList = some ⟨1, .deca, "m", 2⟩ := by
    refine (hiff _ _ _).2 ⟨rfl, "dam".toList, "2".toList, rfl,
      denotes_iff.2 (by decide), ?_⟩
    exact .scaled (by decide) hten fun _ _ name h =>
      hten.length_le h (hshort name h.2.1)
  have hfoot : table.term? 1 "ft-2".toList
      = some ⟨1, .plain, "ft", -2⟩ := by
    exact (hiff _ _ _).2 ⟨rfl, "ft".toList, "-2".toList, rfl,
      denotes_iff.2 (by decide), .alone (by decide)⟩
  have hagain := horder ["m", "am"] ["ft", "ft"]
    (fun s => by simp [or_comm]) (fun s => by simp)
  exact ⟨hwords, hsome, table, htable, hagain, hmetre,
    (hpattern _ _).symm.trans hmetre, hfoot⟩

/-- A name that is listed as taking no prefix takes one if it is listed
as taking one, too. -/
theorem standalone_with_prefix :
    (∀ name ∈ ["ft"] ++ ["ft"], Text.IsWord name.toList)
      ∧ ∃ table, ofLists ["ft"] ["ft"] = .ok table
        ∧ table.term? 1 "kft".toList = some ⟨1, .kilo, "ft", 1⟩ := by
  have hwords : ∀ name ∈ ["ft"] ++ ["ft"], Text.IsWord name.toList := by
    decide
  have hthousand : Scales ["ft"] "kft".toList "k" .kilo "ft" := by
    refine ⟨?_, ?_, ?_⟩ <;> decide
  obtain ⟨table, htable⟩ := exists_ofLists hwords (by decide)
  refine ⟨hwords, table, htable,
    (term?_eq_some_iff_of_ofLists hwords htable _ _ _).2
      ⟨rfl, "kft".toList, [], rfl, .absent, ?_⟩⟩
  refine .scaled (by decide) hthousand fun _ _ name h => ?_
  have hname : name = "ft" := List.mem_singleton.1 h.2.1
  exact hthousand.length_le h (hname ▸ le_refl _)

end UnitAlgebra
