/-
Recognition in a table of names of letters.

# One cut

A token has one possible cut there: its letters, and the exponent text
behind them (`Symbols.append_inj_of_isWord`), because no letter starts
an exponent text. So a table recognises a token by its letters alone
(`Symbols.term?_append`): the first spelling with that very text gives
prefix and symbol, and the exponent is read apart. Without this, a
search would have to be followed through spellings that fit the start of
a token and fail at its end.

# One spelling

Which spelling it is does not depend on the order of the symbols either.
A name that is registered is spelled by itself and no two names are
spelled alike, so only prefixed spellings compete
(`Symbols.spelled?_eq`). Which of these comes first is settled in
`UnitAlgebra.Proofs.Readings`.
-/
import UnitAlgebra.Proofs.Words

namespace UnitAlgebra

namespace Symbols

-- =========================================================== one cut only

/-- No letter starts an exponent text. -/
theorem takeWhile_exponentText {tail : List Char}
    (h : isExponentText tail = true) :
    tail.takeWhile Text.isAlphabetic = [] := by
  cases tail with
  | nil => rfl
  | cons c rest =>
    refine List.takeWhile_cons_of_neg fun hletter => ?_
    have hhigh := Text.le_toNat_of_isAlphabetic hletter
    rcases isDigit_or_eq_of_mem_exponentText h List.mem_cons_self with
      hdigit | hminus
    · have hlow := Text.toNat_lt_of_isDigit hdigit
      omega
    · rw [hminus] at hhigh
      exact absurd hhigh (by decide)

/-- Letters end where the exponent text begins. -/
theorem append_inj_of_isWord {letters letters' tail tail' : List Char}
    (hletters : Text.IsWord letters) (hletters' : Text.IsWord letters')
    (htail : isExponentText tail = true)
    (htail' : isExponentText tail' = true)
    (h : letters ++ tail = letters' ++ tail') :
    letters = letters' ∧ tail = tail' := by
  have htake := Text.takeWhile_append_stop hletters.2 tail
    (takeWhile_exponentText htail)
  have htake' := Text.takeWhile_append_stop hletters'.2 tail'
    (takeWhile_exponentText htail')
  have hsame : letters = letters' := by rw [← htake, h, htake']
  subst hsame
  exact ⟨rfl, List.append_cancel_left h⟩

-- ============================================================= spellings

variable {table : Symbols}

/-- The spellings with a prefix. -/
def prefixed (table : Symbols) : List Spelling :=
  SIPrefix.longestFirst.flatMap fun (spelling, scale) =>
    table.prefixable.map fun symbol =>
      ⟨spelling.toList ++ symbol.toList, scale, symbol⟩

/-- The preferred spelling with this text. -/
def spelled? (table : Symbols) (letters : List Char) : Option Spelling :=
  table.spellings.find? fun spelling => spelling.text = letters

/-- The names stand before all prefixed spellings. -/
theorem spellings_eq (table : Symbols) :
    table.spellings = table.names.map bare ++ table.prefixed := by
  unfold spellings names prefixed
  rw [List.map_append]

/-- Names of letters are spelled with letters. -/
theorem isWord_of_mem_spellings
    (hwords : ∀ symbol ∈ table.names, Text.IsWord symbol.toList)
    {spelling : Spelling} (h : spelling ∈ table.spellings) :
    Text.IsWord spelling.text := by
  obtain ⟨hmem, hshape⟩ := mem_spellings h
  have hsymbol := hwords _ hmem
  rcases hshape with hbare | ⟨p, hp, htext⟩
  · rw [hbare]
    exact hsymbol
  · have hfront := isWord_of_mem_longestFirst hp
    rw [htext]
    refine ⟨List.append_ne_nil_of_left_ne_nil hfront.1 _, fun c hc => ?_⟩
    exact (List.mem_append.1 hc).elim (hfront.2 c) (hsymbol.2 c)

/-- A name is spelled by itself, whatever else the table spells. -/
theorem spelled?_eq (table : Symbols) (letters : List Char) :
    table.spelled? letters =
      if String.ofList letters ∈ table.names then
        some (bare (String.ofList letters))
      else
        table.prefixed.find? fun spelling => spelling.text = letters := by
  have hbare (name : String) :
      (bare name).text = letters ↔ name = String.ofList letters := by
    rw [← String.toList_inj, String.toList_ofList]
    rfl
  unfold spelled?
  rw [spellings_eq, List.find?_append]
  split
  · next hmem =>
    have hin : bare (String.ofList letters) ∈ table.names.map bare :=
      List.mem_map_of_mem hmem
    cases hfound : (table.names.map bare).find? fun spelling =>
        decide (spelling.text = letters) with
    | none =>
      refine absurd (decide_eq_true ((hbare _).2 rfl)) ?_
      exact List.find?_eq_none.1 hfound _ hin
    | some spelling =>
      obtain ⟨name, -, rfl⟩ :=
        List.mem_map.1 (List.mem_of_find?_eq_some hfound)
      have htext := List.find?_some hfound
      rw [decide_eq_true_iff, hbare] at htext
      rw [htext]
      rfl
  · next hmem =>
    rw [List.find?_eq_none.2, Option.none_or]
    intro spelling hspelling
    obtain ⟨name, hname, rfl⟩ := List.mem_map.1 hspelling
    rw [decide_eq_true_iff, hbare]
    exact fun heq => hmem (heq ▸ hname)

/-- Alternatives that give a value exactly when a test is passed. -/
theorem findSome?_eq_map_find? {β γ : Type} {f : β → Option γ}
    {p : β → Bool} {g : β → γ} {l : List β}
    (h : ∀ b ∈ l, f b = if p b then some (g b) else none) :
    l.findSome? f = (l.find? p).map g := by
  induction l with
  | nil => rfl
  | cons b l ih =>
    obtain ⟨hb, hl⟩ := List.forall_mem_cons.1 h
    rw [List.findSome?_cons, List.find?_cons, hb]
    cases p b with
    | true => rfl
    | false => exact ih hl

/-- A token is recognised by its letters, and its exponent is read
apart. -/
theorem term?_append
    (hwords : ∀ symbol ∈ table.names, Text.IsWord symbol.toList)
    (coefficient : Scientific) {letters tail : List Char}
    (hletters : Text.IsWord letters) (htail : isExponentText tail = true) :
    table.term? coefficient (letters ++ tail) =
      (table.spelled? letters).bind fun spelling =>
        (exponentOf? tail).map fun exponent =>
          ⟨coefficient, spelling.scale, spelling.symbol, exponent⟩ := by
  -- a spelling fits the token exactly when it is the letters
  have hcut : ∀ spelling ∈ table.spellings,
      (remainder? spelling (letters ++ tail)).map (spelling, ·)
        = if decide (spelling.text = letters) then some (spelling, tail)
          else none := by
    intro spelling hspelling
    have hword := isWord_of_mem_spellings hwords hspelling
    split
    · next htext =>
      have hrest : remainder? spelling (letters ++ tail) = some tail :=
        remainder?_eq_some_iff.2
          ⟨by rw [of_decide_eq_true htext], htail⟩
      rw [hrest]
      rfl
    · next htext =>
      cases hrest : remainder? spelling (letters ++ tail) with
      | none => rfl
      | some rest =>
        obtain ⟨happend, hrest⟩ := remainder?_eq_some_iff.1 hrest
        obtain ⟨hsame, -⟩ :=
          append_inj_of_isWord hword hletters hrest htail happend
        exact absurd (decide_eq_true hsame) htext
  unfold term? spelled?
  rw [findSome?_eq_map_find? hcut]
  cases table.spellings.find? fun spelling =>
      decide (spelling.text = letters) with
  | none => rfl
  | some spelling =>
    show (exponentOf? tail).bind (fun exponent => some _)
      = (exponentOf? tail).map _
    rw [Option.map_eq_bind]
    rfl

/-- What is recognised is letters with an exponent text behind them. -/
theorem exists_letters_of_term?
    (hwords : ∀ symbol ∈ table.names, Text.IsWord symbol.toList)
    {coefficient : Scientific} {token : List Char} {t : Term}
    (h : table.term? coefficient token = some t) :
    ∃ letters tail, letters ++ tail = token ∧ Text.IsWord letters
      ∧ isExponentText tail = true := by
  obtain ⟨spelling, hspelling, tail, happend, htail, -, -⟩ :=
    exists_of_term? h
  exact ⟨_, tail, happend, isWord_of_mem_spellings hwords hspelling,
    htail⟩

/-- What is recognised holds the characters of its symbol. -/
theorem symbol_subset_of_term? {coefficient : Scientific}
    {token : List Char} {t : Term}
    (h : table.term? coefficient token = some t) :
    t.symbol.toList ⊆ token := by
  obtain ⟨spelling, hspelling, tail, rfl, -, -, ht⟩ := exists_of_term? h
  intro c hc
  rw [ht] at hc
  refine List.mem_append_left _ ?_
  rcases (mem_spellings hspelling).2 with hbare | ⟨p, -, htext⟩
  · rw [hbare]
    exact hc
  · rw [htext]
    exact List.mem_append_right _ hc

end Symbols

end UnitAlgebra
