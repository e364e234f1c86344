/-
Which texts are plain numbers, and so never reach a grammar. A plain
number is finite, so none of the words for infinity and for what is no
number is one; it is a magnitude behind its sign
(`UnitSystem.exists_of_plainNumber?`).

# Telling texts from numbers

A magnitude is made up of digits and a few marks, and it starts with one
of them (`Number.IsMark`, `Number.head_of_readMagnitude?`). A unit
expression is made of letters, spaces and slashes as well, and so it can
be told from a number by one character, wherever that stands
(`UnitSystem.plainNumber?_of_mem`) or at the start
(`UnitSystem.plainNumber?_of_letter`). The second is not a case of the
first: `e` is a mark, and it is a letter with which a symbol may begin.

# Numbers by themselves

What the grammars call a number is a plain number too when it stands
alone, and it is read as the same double, unless it overflows
(`UnitSystem.plainNumber?_text`).
-/
import Mathlib.Data.List.TakeDrop
import UnitAlgebra.Proofs.Words
import UnitAlgebra.UnitSystem

namespace UnitAlgebra

namespace Number

/-- A character of a number. -/
def IsMark (c : Char) : Prop :=
  c.isDigit = true ∨ c ∈ ['.', 'e', 'E', '+', '-']

/-- Digits are taken as far as they go, by one pass. -/
theorem takeDigits_eq (cs : List Char) :
    takeDigits cs
      = (cs.takeWhile Char.isDigit, cs.dropWhile Char.isDigit) :=
  List.span_eq_takeWhile_dropWhile ..

/-- A sign is a mark, so marks are a matter of what stands behind it. -/
theorem isMark_of_mem_takeSign {cs : List Char} {c : Char} (hc : c ∈ cs)
    (h : ∀ c ∈ (takeSign cs).2, IsMark c) : IsMark c := by
  unfold takeSign at h
  split at h
  · rcases List.mem_cons.1 hc with rfl | hc
    · exact .inr (by decide)
    · exact h c hc
  · rcases List.mem_cons.1 hc with rfl | hc
    · exact .inr (by decide)
    · exact h c hc
  · exact h c hc

/-- A power of ten is written with marks. -/
theorem isMark_of_readPower? {cs : List Char} {power : Int}
    (h : readPower? cs = some power) : ∀ c ∈ cs, IsMark c := by
  unfold readPower? at h
  split at h
  · exact fun c hc => absurd hc List.not_mem_nil
  · next e rest =>
    split at h
    · next he =>
      simp only at h
      split at h
      · cases h
      · next hdigits =>
        rw [not_or, not_not, List.all_eq_true] at hdigits
        intro c hc
        rcases List.mem_cons.1 hc with rfl | hc
        · rcases he with rfl | rfl
          · exact .inr (by decide)
          · exact .inr (by decide)
        · exact isMark_of_mem_takeSign hc fun c hc =>
            .inl (hdigits.2 c hc)
    · cases h

/-- A magnitude is digits, perhaps a point and digits, and perhaps a
power of ten, with a digit before the power. -/
theorem parts_of_readMagnitude? {cs : List Char} {x : Float}
    (h : readMagnitude? cs = some x) :
    ∃ whole fraction power, cs = whole ++ (fraction ++ power)
      ∧ (∀ c ∈ whole, c.isDigit = true)
      ∧ (∀ c ∈ fraction, c.isDigit = true ∨ c = '.')
      ∧ (∀ c ∈ power, IsMark c)
      ∧ whole ++ fraction ≠ [] := by
  have hwhole := List.takeWhile_append_dropWhile
    (p := Char.isDigit) (l := cs)
  unfold readMagnitude? at h
  simp only [takeDigits_eq] at h
  split at h
  · next rest hrest =>
    rw [hrest] at hwhole
    split at h
    · cases h
    · next hdigits =>
      obtain ⟨power, hpower, -⟩ := Option.map_eq_some_iff.1 h
      refine ⟨cs.takeWhile Char.isDigit,
        '.' :: rest.takeWhile Char.isDigit, rest.dropWhile Char.isDigit,
        ?_, fun c hc => List.mem_takeWhile_imp hc, fun c hc => ?_,
        isMark_of_readPower? hpower, by simp⟩
      · rw [List.cons_append, List.takeWhile_append_dropWhile, hwhole]
      · rcases List.mem_cons.1 hc with rfl | hc
        · exact .inr rfl
        · exact .inl (List.mem_takeWhile_imp hc)
  · split at h
    · cases h
    · next hdigits =>
      obtain ⟨power, hpower, -⟩ := Option.map_eq_some_iff.1 h
      refine ⟨_, [], _, hwhole.symm,
        fun c hc => List.mem_takeWhile_imp hc, nofun,
        isMark_of_readPower? hpower, ?_⟩
      simpa [List.isEmpty_iff] using hdigits

/-- A magnitude is made up of marks. -/
theorem isMark_of_readMagnitude? {cs : List Char} {x : Float}
    (h : readMagnitude? cs = some x) : ∀ c ∈ cs, IsMark c := by
  obtain ⟨whole, fraction, power, rfl, hwhole, hfraction, hpower, -⟩ :=
    parts_of_readMagnitude? h
  intro c hc
  rcases List.mem_append.1 hc with hc | hc
  · exact .inl (hwhole c hc)
  · rcases List.mem_append.1 hc with hc | hc
    · rcases hfraction c hc with hdigit | rfl
      · exact .inl hdigit
      · exact .inr (by decide)
    · exact hpower c hc

/-- A magnitude starts with a digit or a point. -/
theorem head_of_readMagnitude? {c : Char} {rest : List Char} {x : Float}
    (h : readMagnitude? (c :: rest) = some x) :
    c.isDigit = true ∨ c = '.' := by
  obtain ⟨whole, fraction, power, hparts, hwhole, hfraction, -, hne⟩ :=
    parts_of_readMagnitude? h
  cases whole with
  | cons d whole =>
    cases hparts
    exact .inl (hwhole c List.mem_cons_self)
  | nil =>
    cases fraction with
    | nil => exact absurd rfl hne
    | cons d fraction =>
      cases hparts
      exact hfraction c List.mem_cons_self

/-- The words of numbers stand for infinities and for what is no number,
on either side of zero. -/
theorem isFinite_of_readWord? {cs : List Char} {x : Float}
    (h : readWord? cs = some x) :
    x.isFinite = false ∧ (-x).isFinite = false := by
  have hinfinity : infinity.isFinite = false
      ∧ (-infinity).isFinite = false := by decide +kernel
  have hnan : nan.isFinite = false ∧ (-nan).isFinite = false := by
    decide +kernel
  unfold readWord? at h
  split at h
  · cases h
    exact hinfinity
  · cases h
    exact hinfinity
  · cases h
    exact hnan
  · cases h

/-- No digit changes its case, and so no word starts with one. -/
theorem readWord?_of_isDigit {c : Char} (rest : List Char)
    (hc : c.isDigit = true) : readWord? (c :: rest) = none := by
  have hlow := Text.toNat_lt_of_isDigit hc
  have hsame : c.toLower = c := by
    unfold Char.toLower
    refine dif_neg fun hupper => ?_
    have hleast : 65 ≤ c.toNat := hupper.1
    omega
  have hother : ∀ word : String,
      word.toList.all (fun d => decide (65 ≤ d.toNat)) = true →
        String.ofList ((c :: rest).map Char.toLower) ≠ word := by
    rintro word hletters rfl
    have hletter := List.all_eq_true.1 hletters c.toLower (by simp)
    rw [hsame, decide_eq_true_iff] at hletter
    omega
  unfold readWord?
  split
  · next heq => exact absurd heq (hother _ (by decide))
  · next heq => exact absurd heq (hother _ (by decide))
  · next heq => exact absurd heq (hother _ (by decide))
  · rfl

theorem takeSign_of_isDigit {c : Char} (rest : List Char)
    (hc : c.isDigit = true) : takeSign (c :: rest) = (false, c :: rest) := by
  unfold takeSign
  split
  · next heq =>
    cases heq
    exact absurd hc (by decide)
  · next heq =>
    cases heq
    exact absurd hc (by decide)
  · rfl

/-- The digits of a number are read as the double nearest to it. -/
theorem readMagnitude?_text (n : Text.Numeral) :
    readMagnitude? n.text
      = some (nearest (ofDigits (n.whole.chars ++ n.fractionChars))
          (-n.fractionChars.length)) := by
  obtain ⟨whole, fraction⟩ := n
  have hne : whole.chars.isEmpty = false := by
    rw [Bool.eq_false_iff, ne_eq, List.isEmpty_iff]
    exact whole.ne_nil
  cases fraction with
  | none =>
    have htake := Text.takeWhile_append_stop whole.isDigit [] rfl
    have hdrop := Text.dropWhile_append_stop whole.isDigit [] rfl
    rw [List.append_nil] at htake hdrop
    show readMagnitude? whole.chars = _
    unfold readMagnitude?
    simp only [takeDigits_eq, htake, hdrop, hne, Bool.false_eq_true,
      false_and, if_false]
    show some (nearest (ofDigits (whole.chars ++ []))
      (0 - ([] : List Char).length)) = _
    rw [Int.zero_sub]
    rfl
  | some digits =>
    have htake := Text.takeWhile_append_stop whole.isDigit
      ('.' :: digits.chars) rfl
    have hdrop := Text.dropWhile_append_stop whole.isDigit
      ('.' :: digits.chars) rfl
    have htake' := Text.takeWhile_append_stop digits.isDigit [] rfl
    have hdrop' := Text.dropWhile_append_stop digits.isDigit [] rfl
    rw [List.append_nil] at htake' hdrop'
    show readMagnitude? (whole.chars ++ '.' :: digits.chars) = _
    unfold readMagnitude?
    simp only [takeDigits_eq, htake, hdrop, htake', hdrop', hne,
      Bool.false_eq_true, false_and, if_false]
    show some (nearest (ofDigits (whole.chars ++ digits.chars))
      (0 - digits.chars.length)) = _
    rw [Int.zero_sub]
    rfl

end Number

namespace UnitSystem

/-- A plain number is a magnitude behind its sign. -/
theorem exists_of_plainNumber? {text : String} {number : Float}
    (h : plainNumber? text = some number) :
    ∃ x, Number.readMagnitude? (Number.takeSign text.toList).2
      = some x := by
  obtain ⟨hread, hfinite⟩ := Option.filter_eq_some_iff.1 h
  unfold Number.read? at hread
  simp only at hread
  obtain ⟨x, hx, rfl⟩ := Option.map_eq_some_iff.1 hread
  cases hword : Number.readWord? (Number.takeSign text.toList).2 with
  | none =>
    rw [hword, Option.none_or] at hx
    exact ⟨x, hx⟩
  | some y =>
    rw [hword, Option.some_or] at hx
    cases hx
    obtain ⟨hpositive, hnegative⟩ := Number.isFinite_of_readWord? hword
    split at hfinite
    · rw [hnegative] at hfinite
      cases hfinite
    · rw [hpositive] at hfinite
      cases hfinite

/-- A text with a character that stands in no number is none. -/
theorem plainNumber?_of_mem {text : String} {c : Char}
    (hc : c ∈ text.toList) (hmark : ¬ Number.IsMark c) :
    plainNumber? text = none := by
  cases h : plainNumber? text with
  | none => rfl
  | some number =>
    obtain ⟨x, hx⟩ := exists_of_plainNumber? h
    exact absurd (Number.isMark_of_mem_takeSign hc
      (Number.isMark_of_readMagnitude? hx)) hmark

/-- A text that starts with a letter is no plain number. -/
theorem plainNumber?_of_letter {text : String} {c : Char}
    {rest : List Char} (htext : text.toList = c :: rest)
    (hc : Text.isAlphabetic c = true) : plainNumber? text = none := by
  cases h : plainNumber? text with
  | none => rfl
  | some number =>
    have hletter : 65 ≤ c.toNat := Text.le_toNat_of_isAlphabetic hc
    have hsign : Number.takeSign (c :: rest) = (false, c :: rest) := by
      unfold Number.takeSign
      split
      · next heq =>
        cases heq
        exact absurd hletter (by decide)
      · next heq =>
        cases heq
        exact absurd hletter (by decide)
      · rfl
    obtain ⟨x, hx⟩ := exists_of_plainNumber? h
    rw [htext, hsign] at hx
    rcases Number.head_of_readMagnitude? hx with hdigit | rfl
    · rw [Text.not_isDigit_of_isAlphabetic hc] at hdigit
      cases hdigit
    · exact absurd hletter (by decide)

/-- A number by itself is a plain number if the double nearest to it is
finite. -/
theorem plainNumber?_text (n : Text.Numeral) :
    plainNumber? (String.ofList n.text)
      = (some (Number.nearest
          (Number.ofDigits (n.whole.chars ++ n.fractionChars))
          (-n.fractionChars.length))).filter Float.isFinite := by
  obtain ⟨c, whole, hwhole⟩ :=
    List.exists_cons_of_ne_nil n.whole.ne_nil
  obtain ⟨rest, hrest⟩ := n.exists_text_eq_append
  rw [hwhole] at hrest
  have hc : c.isDigit = true :=
    n.whole.isDigit c (by rw [hwhole]; exact List.mem_cons_self)
  have hread := Number.readMagnitude?_text n
  rw [hrest, List.cons_append] at hread
  unfold plainNumber? Number.read?
  rw [String.toList_ofList, hrest, List.cons_append,
    Number.takeSign_of_isDigit _ hc]
  simp only
  rw [Number.readWord?_of_isDigit _ hc, Option.none_or, hread]
  rfl

end UnitSystem

end UnitAlgebra
