/-
A table of symbols as one pattern: a symbol that takes no prefix, or one
that takes a prefix and, rather not, a prefix in front of it, and behind
that, rather so, an exponent. A token is read as the whole pattern
starts it, in the preferred one of the ways that leave nothing.

A reader by backtracking would try that pattern. The table reads a token
by a search through its spellings, and finds the same term
(`Symbols.term?_eq_whole?`). So the order of preference in the table,
which is a rule of its own there, is the order in which a pattern is
tried.

# The two sides of the comparison

- Up to the exponent, the ways of the pattern come in the order of the
  spellings (`ways_writtenPattern`). Each spelling is marked with the
  parts that a match would name (`Marked`), which is how the prefix and
  the symbol are found again (`symbolOf?_append`).
- Behind a spelling, at most one way leaves nothing
  (`whole?_exponentPattern`): either nothing is left already, or what is
  left is all sign and digits.

A sequence is then a search over the ways of its first pattern
(`whole?_seq`), and the table's search is one over spellings. The two
searches end alike at every step, and so they end alike
(`bind_findSome?_congr`).
-/
import UnitAlgebra.Text.Pattern
import UnitAlgebra.Proofs.Recognition

namespace UnitAlgebra

-- ================================================== literals and wholes

namespace Text.Pattern

variable {γ : Type}

/-- What no text starts with. -/
def never : Pattern γ := char fun _ => false

/-- A text, character by character. -/
def literal : List Char → Pattern γ
  | [] => maybe never
  | c :: rest => seq (char fun d => decide (d = c)) (literal rest)

/-- One of several texts, the first ones preferred. -/
def oneOf (texts : List (List Char)) : Pattern γ :=
  texts.foldr (fun text others => choice (literal text) others) never

/-- The preferred one of the ways that leave nothing. -/
def whole? (pattern : Pattern γ) (text : List Char) :
    Option (Match γ) :=
  (pattern.ways text).find? (·.rest.isEmpty)

theorem ways_never (text : List Char) :
    ways (never : Pattern γ) text = [] := by
  cases text with
  | nil => rfl
  | cons c rest => rfl

/-- A literal is a test for a prefix: it has one way or none. -/
theorem ways_literal (s text : List Char) :
    ways (literal s : Pattern γ) text
      = ((s.isPrefixOf? text).map (Match.mk [] s)).toList := by
  induction s generalizing text with
  | nil =>
    rw [literal, ways, ways_never]
    rfl
  | cons c s ih =>
    rw [literal]
    cases text with
    | nil => rfl
    | cons d text =>
      rw [ways_seq_char, ih, List.isPrefixOf?]
      by_cases h : d = c
      · rw [if_pos (decide_eq_true h), if_pos (beq_iff_eq.2 h.symm), h]
        cases s.isPrefixOf? text with
        | none => rfl
        | some rest => rfl
      · rw [if_neg (by simpa using h), if_neg (by simpa using Ne.symm h)]
        rfl

/-- A choice of literals tries them in their order. -/
theorem ways_oneOf (texts : List (List Char)) (text : List Char) :
    ways (oneOf texts : Pattern γ) text
      = texts.filterMap fun s =>
          (s.isPrefixOf? text).map (Match.mk [] s) := by
  induction texts with
  | nil => exact ways_never text
  | cons s texts ih =>
    show ways (literal s) text ++ ways (oneOf texts) text = _
    rw [ways_literal, ih, List.filterMap_cons]
    cases s.isPrefixOf? text with
    | none => rfl
    | some rest => rfl

theorem whole?_named (name : γ) (inner : Pattern γ) (text : List Char) :
    whole? (named name inner) text
      = (whole? inner text).map (Match.rename name) := by
  unfold whole?
  rw [ways, List.find?_map]
  rfl

/-- A part that may be missing can leave nothing by taking all, or by
finding nothing there. -/
theorem whole?_maybe (inner : Pattern γ) (text : List Char) :
    whole? (maybe inner) text =
      (whole? inner text).or
        (if text.isEmpty then some (.upTo text []) else none) := by
  unfold whole?
  rw [ways, List.find?_append]
  cases text with
  | nil => rfl
  | cons c rest => rfl

/-- A sequence leaves nothing when its second pattern, behind some way
of the first, leaves nothing. The first such way decides, which is what
a search through spellings does as well. -/
theorem whole?_seq (first second : Pattern γ) (text : List Char) :
    whole? (seq first second) text =
      (first.ways text).findSome? fun m =>
        (whole? second m.rest).map m.append := by
  unfold whole?
  rw [ways, List.find?_flatMap]
  refine congrArg (List.findSome? · _) (funext fun m => ?_)
  rw [List.find?_map]
  rfl

/-- Taking the part that may be missing is tried first. -/
theorem whole?_seq_maybe (a b : Pattern γ) (text : List Char) :
    whole? (seq (maybe a) b) text
      = (whole? (seq a b) text).or (whole? b text) := by
  unfold whole?
  rw [ways_seq_maybe, List.find?_append]

/-- A character in front is there or the sequence fails. -/
theorem whole?_seq_char (p : Char → Bool) (second : Pattern γ) (c : Char)
    (rest : List Char) :
    whole? (seq (char p) second) (c :: rest) =
      if p c then
        (whole? second rest).map (Match.append (.upTo (c :: rest) [c]))
      else
        none := by
  unfold whole?
  rw [ways_seq_char]
  split
  · rw [List.find?_map]
    rfl
  · rfl

/-- A run is the whole of a text if all of it is of the class. -/
theorem whole?_run (p : Char → Bool) (text : List Char) :
    whole? (run p : Pattern γ) text =
      if !text.isEmpty && text.all p then some ⟨[], text, []⟩
      else none := by
  unfold whole?
  rw [ways_run]
  induction text with
  | nil => rfl
  | cons c text ih =>
    rw [runs, List.all_cons]
    cases p c with
    | false => rfl
    | true =>
      rw [if_pos rfl, List.find?_append, List.find?_map]
      show ((List.find? (·.rest.isEmpty) (runs p text)).map _).or _ = _
      rw [ih]
      cases text with
      | nil => rfl
      | cons d text =>
        cases (d :: text).all p with
        | false => rfl
        | true => rfl

end Text.Pattern

namespace Symbols

open Text Text.Pattern

-- ========================================================== the pattern

/-- The parts of a token. -/
inductive Part where
  | alone | scale | symbol | exponent
deriving DecidableEq

/-- Symbols that take a prefix. -/
def symbolPattern (table : Symbols) : Pattern Part :=
  .named .symbol (oneOf (table.prefixable.map String.toList))

def scalePattern : Pattern Part :=
  .named .scale
    (oneOf ((SIPrefix.longestFirst.map Prod.fst).map String.toList))

/-- What stands in front of the exponent. The prefix is left out before
it is tried. -/
def writtenPattern (table : Symbols) : Pattern Part :=
  .choice (.named .alone (oneOf (table.standalone.map String.toList)))
    (.choice table.symbolPattern
      (.seq scalePattern table.symbolPattern))

def exponentPattern : Pattern Part :=
  .maybe (.named .exponent
    (.seq (.maybe (.char (· = '-'))) (.run Char.isDigit)))

def pattern (table : Symbols) : Pattern Part :=
  .seq table.writtenPattern exponentPattern

/-- The prefix and the symbol among the parts of a token. -/
def symbolOf? (parts : List (Part × List Char)) :
    Option (SIPrefix × String) :=
  match parts.lookup .alone with
  | some name => some (.plain, .ofList name)
  | none => do
    let name ← parts.lookup .symbol
    let scale ← match parts.lookup .scale with
      | some spelling => SIPrefix.ofSymbol? (.ofList spelling)
      | none => some .plain
    return (scale, .ofList name)

/-- The exponent among the parts of a token, one if there is none. -/
def exponentIn? (parts : List (Part × List Char)) : Option Exponent :=
  match parts.lookup .exponent with
  | some text => exponentOf? text
  | none => some 1

/-- What a match of the pattern stands for. -/
def termOf? (coefficient : Scientific) (m : Match Part) :
    Option Term := do
  let exponent ← exponentIn? m.parts
  let (scale, symbol) ← symbolOf? m.parts
  return ⟨coefficient, scale, symbol, exponent⟩

-- ======================================================== its exponents

theorem isSignedDigits_cons_of_ne {c : Char} (hminus : c ≠ '-')
    (rest : List Char) :
    isSignedDigits (c :: rest)
      = (!(c :: rest).isEmpty && (c :: rest).all Char.isDigit) := by
  rw [isSignedDigits]
  intro digits heq
  exact hminus (List.cons.inj heq).1

/-- A minus sign that may be missing and a run of digits are the whole
of the signed digit texts, and of nothing else. -/
theorem whole?_signedPattern (text : List Char) :
    whole? (.seq (.maybe (.char (· = '-'))) (.run Char.isDigit)
        : Pattern Part) text =
      if isSignedDigits text then some ⟨[], text, []⟩ else none := by
  rw [whole?_seq_maybe, whole?_run]
  cases text with
  | nil => rfl
  | cons c rest =>
    rw [whole?_seq_char, whole?_run]
    by_cases hminus : c = '-'
    · subst hminus
      show (Option.map _ (if (!rest.isEmpty && rest.all Char.isDigit) = true
        then _ else _)).or none = if (!rest.isEmpty
          && rest.all Char.isDigit) = true then _ else _
      split
      · rfl
      · rfl
    · rw [if_neg (by simpa using hminus), Option.none_or,
        isSignedDigits_cons_of_ne hminus]

/-- At most one exponent leaves nothing: none at all, or the whole
text. -/
theorem whole?_exponentPattern (text : List Char) :
    whole? exponentPattern text =
      if text.isEmpty then some ⟨[], [], []⟩
      else if isSignedDigits text then some ⟨[(.exponent, text)], text, []⟩
      else none := by
  unfold exponentPattern
  rw [whole?_maybe, whole?_named, whole?_signedPattern]
  cases text with
  | nil => rfl
  | cons c rest =>
    cases isSignedDigits (c :: rest) with
    | true => rfl
    | false => rfl

-- ============================================================= its ways

/-- A spelling, and the parts that it consists of. -/
abbrev Marked := Spelling × List (Part × List Char)

def markAlone (name : String) : Marked :=
  (bare name, [(.alone, name.toList)])

def markSymbol (name : String) : Marked :=
  (bare name, [(.symbol, name.toList)])

def markScaled (p : String × SIPrefix) (name : String) : Marked :=
  (⟨p.1.toList ++ name.toList, p.2, name⟩,
    [(.scale, p.1.toList), (.symbol, name.toList)])

/-- The spellings of a table with their parts. -/
def marked (table : Symbols) : List Marked :=
  table.standalone.map markAlone
    ++ (table.prefixable.map markSymbol
      ++ SIPrefix.longestFirst.flatMap fun p =>
        table.prefixable.map (markScaled p))

/-- How a text starts with a spelling. -/
def start? (text : List Char) (c : Marked) : Option (Match Part) :=
  (c.1.text.isPrefixOf? text).map (Match.mk c.2 c.1.text)

/-- The marked spellings are the spellings of the table, in their order
of preference. -/
theorem spellings_eq_map_marked (table : Symbols) :
    table.spellings = table.marked.map Prod.fst := by
  unfold spellings marked
  simp only [List.map_append, List.map_map, List.map_flatMap,
    List.append_assoc]
  rfl

/-- A prefix in two pieces is tested for piece by piece. -/
theorem isPrefixOf?_append (s t text : List Char) :
    (s ++ t).isPrefixOf? text
      = (s.isPrefixOf? text).bind t.isPrefixOf? := by
  induction s generalizing text with
  | nil => rfl
  | cons c s ih =>
    cases text with
    | nil => rfl
    | cons d text =>
      rw [List.cons_append, List.isPrefixOf?, List.isPrefixOf?]
      split
      · exact ih text
      · rfl

/-- The ways of a list of names are the names that the text starts with,
each marked with its part. -/
theorem ways_named_oneOf (part : Part) (names : List String)
    (text : List Char) :
    ways (.named part (oneOf (names.map String.toList))) text
      = names.filterMap fun name =>
          (name.toList.isPrefixOf? text).map
            (Match.mk [(part, name.toList)] name.toList) := by
  rw [ways, ways_oneOf, List.filterMap_map, List.map_filterMap]
  refine congrArg (List.filterMap · _) (funext fun name => ?_)
  rw [Function.comp_apply, Option.map_map]
  rfl

/-- A prefix and a symbol behind it are one spelling. -/
theorem ways_scaled (table : Symbols) (text : List Char) :
    ways (.seq scalePattern table.symbolPattern) text
      = (SIPrefix.longestFirst.flatMap fun p =>
          table.prefixable.map (markScaled p)).filterMap (start? text) := by
  unfold scalePattern symbolPattern
  rw [ways, ways_named_oneOf, List.filterMap_map,
    List.filterMap_eq_flatMap_toList, List.flatMap_assoc,
    List.filterMap_flatMap]
  refine congrArg (List.flatMap · _) (funext fun p => ?_)
  rw [List.filterMap_map, Function.comp_apply]
  cases hfront : p.1.toList.isPrefixOf? text with
  | none =>
    refine (List.filterMap_eq_nil_iff.2 fun name _ => ?_).symm
    show Option.map _ ((p.1.toList ++ name.toList).isPrefixOf? text) = none
    rw [isPrefixOf?_append, hfront]
    rfl
  | some rest =>
    show ((ways _ rest).map _) ++ [] = _
    rw [List.append_nil, ways_named_oneOf, List.map_filterMap]
    refine congrArg (List.filterMap · _) (funext fun name => ?_)
    show Option.map _ (Option.map _ _) = Option.map _
      ((p.1.toList ++ name.toList).isPrefixOf? text)
    rw [isPrefixOf?_append, hfront, Option.map_map, Option.bind_some]
    rfl

/-- The pattern in front of the exponent starts a text with the
spellings that the text starts with, in their order. -/
theorem ways_writtenPattern (table : Symbols) (text : List Char) :
    table.writtenPattern.ways text
      = table.marked.filterMap (start? text) := by
  unfold writtenPattern marked
  rw [ways_choice, ways_choice, ways_scaled, List.filterMap_append,
    List.filterMap_append, List.filterMap_map, List.filterMap_map]
  unfold symbolPattern
  rw [ways_named_oneOf, ways_named_oneOf]
  rfl

-- ========================================================== its reading

/-- A marked spelling stands alone, takes a prefix without having one,
or has one. -/
theorem mem_marked {table : Symbols} {c : Marked}
    (h : c ∈ table.marked) :
    (∃ name, c = markAlone name) ∨ (∃ name, c = markSymbol name)
      ∨ ∃ p name, SIPrefix.ofSymbol? p.1 = some p.2
          ∧ c = markScaled p name := by
  unfold marked at h
  rcases List.mem_append.1 h with h | h
  · obtain ⟨name, -, rfl⟩ := List.mem_map.1 h
    exact .inl ⟨name, rfl⟩
  · rcases List.mem_append.1 h with h | h
    · obtain ⟨name, -, rfl⟩ := List.mem_map.1 h
      exact .inr (.inl ⟨name, rfl⟩)
    · obtain ⟨p, hp, h⟩ := List.mem_flatMap.1 h
      obtain ⟨name, -, rfl⟩ := List.mem_map.1 h
      exact .inr (.inr ⟨p, name, SIPrefix.mem_longestFirst_iff.1 hp, rfl⟩)

/-- The parts in front of an exponent name the prefix and the symbol of
the spelling. -/
theorem symbolOf?_append {table : Symbols} {c : Marked}
    (hc : c ∈ table.marked) (behind : List (Part × List Char))
    (hbehind : ∀ part ∈ behind, part.1 = .exponent) :
    symbolOf? (c.2 ++ behind) = some (c.1.scale, c.1.symbol) := by
  have hnone : ∀ part : Part, part ≠ .exponent →
      behind.lookup part = none := by
    intro part hpart
    rw [List.lookup_eq_none_iff]
    intro q hq
    rw [hbehind q hq]
    exact bne_iff_ne.2 hpart
  unfold symbolOf?
  rcases mem_marked hc with ⟨name, rfl⟩ | ⟨name, rfl⟩ | ⟨p, name, hp, rfl⟩
  · show some (SIPrefix.plain, String.ofList name.toList) = _
    rw [String.ofList_toList]
    rfl
  · rw [show ((markSymbol name).2 ++ behind).lookup .alone = none from
        hnone .alone (by decide),
      show ((markSymbol name).2 ++ behind).lookup .scale = none from
        hnone .scale (by decide)]
    show some (SIPrefix.plain, String.ofList name.toList) = _
    rw [String.ofList_toList]
    rfl
  · rw [show ((markScaled p name).2 ++ behind).lookup .alone = none from
      hnone .alone (by decide)]
    show (SIPrefix.ofSymbol? (String.ofList p.1.toList)).bind
      (fun scale => some (scale, String.ofList name.toList)) = _
    rw [String.ofList_toList, String.ofList_toList, hp]
    rfl

/-- No spelling marks an exponent, so the exponent is looked for behind
it. -/
theorem exponentIn?_append {table : Symbols} {c : Marked}
    (hc : c ∈ table.marked) (behind : List (Part × List Char)) :
    exponentIn? (c.2 ++ behind) = exponentIn? behind := by
  rcases mem_marked hc with ⟨name, rfl⟩ | ⟨name, rfl⟩ | ⟨p, name, -, rfl⟩
  · rfl
  · rfl
  · rfl

/-- What a spelling stands for with an exponent behind it. -/
theorem termOf?_append {table : Symbols} {c : Marked}
    (hc : c ∈ table.marked) (coefficient : Scientific)
    (behind : List (Part × List Char))
    (hbehind : ∀ part ∈ behind, part.1 = Part.exponent)
    (taken rest : List Char) :
    termOf? coefficient ⟨c.2 ++ behind, taken, rest⟩
      = (exponentIn? behind).bind fun exponent =>
        some ⟨coefficient, c.1.scale, c.1.symbol, exponent⟩ := by
  unfold termOf?
  rw [exponentIn?_append hc, symbolOf?_append hc behind hbehind]
  rfl

/-- A search that ends alike at every step ends alike. -/
theorem bind_findSome?_congr {β γ δ ε : Type} {f : β → Option γ}
    {g : β → Option δ} {F : γ → Option ε} {G : δ → Option ε} {l : List β}
    (h : ∀ b ∈ l, (f b = none ∧ g b = none)
      ∨ ∃ c d, f b = some c ∧ g b = some d ∧ F c = G d) :
    (l.findSome? f).bind F = (l.findSome? g).bind G := by
  induction l with
  | nil => rfl
  | cons b l ih =>
    obtain ⟨hb, hl⟩ := List.forall_mem_cons.1 h
    rw [List.findSome?_cons, List.findSome?_cons]
    rcases hb with ⟨hf, hg⟩ | ⟨c, d, hf, hg, hsame⟩
    · rw [hf, hg]
      exact ih hl
    · rw [hf, hg]
      exact hsame

theorem findSome?_filterMap {β γ δ : Type} (f : β → Option γ)
    (g : γ → Option δ) (l : List β) :
    (l.filterMap f).findSome? g = l.findSome? fun b => (f b).bind g := by
  rw [← List.head?_filterMap, List.filterMap_filterMap,
    List.head?_filterMap]

/-- A table reads a token as its pattern matches the whole of it. -/
theorem term?_eq_whole? (table : Symbols) (coefficient : Scientific)
    (token : List Char) :
    table.term? coefficient token
      = (table.pattern.whole? token).bind (termOf? coefficient) := by
  unfold term? pattern
  rw [spellings_eq_map_marked, List.findSome?_map, whole?_seq,
    ways_writtenPattern, findSome?_filterMap]
  refine bind_findSome?_congr fun c hc => ?_
  rw [Function.comp_apply]
  unfold remainder? start?
  cases c.1.text.isPrefixOf? token with
  | none => exact .inl ⟨rfl, rfl⟩
  | some tail =>
    show (Option.map _ (if isExponentText tail then some tail else none)
        = none ∧ (whole? exponentPattern tail).map _ = none)
      ∨ ∃ _ _, Option.map _ (if isExponentText tail then some tail
        else none) = _ ∧ (whole? exponentPattern tail).map _ = _ ∧ _
    rw [whole?_exponentPattern]
    unfold isExponentText
    cases tail with
    | nil =>
      refine .inr ⟨_, _, rfl, rfl, ?_⟩
      exact (termOf?_append hc coefficient []
        (fun part h => absurd h List.not_mem_nil) _ _).symm
    | cons d rest =>
      cases hsigned : isSignedDigits (d :: rest) with
      | false => exact .inl ⟨rfl, rfl⟩
      | true =>
        refine .inr ⟨_, _, rfl, rfl, ?_⟩
        exact (termOf?_append hc coefficient [(.exponent, d :: rest)]
          (fun part h => congrArg Prod.fst (List.mem_singleton.1 h))
          _ _).symm

end Symbols

end UnitAlgebra
