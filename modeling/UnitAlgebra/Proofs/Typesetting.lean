/-
Typeset units against written ones. A unit is printed in two manners:
set for readers, with raised dots, raised exponents and the Greek letter
for micro, and typed in the dotted grammar. Typing what was set, one
character after another (`typed`), gives the written form
(`map_typed_unit`).

# What the two printers share

The text of a number and the symbols of the prefixes other than micro,
and nothing else. The rest is there twice and has to be compared:

- the exponent. One printer looks up figures above the line by the
  values of the digits (`superscript`), the other writes the integer
  (`Exponent.digits`). Both have a sign test of their own, and the least
  exponent is where they could part, as it has no negation. Typing a
  raised digit gives the digit (`typed_raisedDigit`), and so the two
  agree on every exponent (`map_typed_superscript`);
- the row. One printer joins finished pieces, the other puts a dot in
  front of each term but the first (`Measure.rowText`). Typing goes
  through a join piece by piece (`map_intercalate`);
- whether there is a row at all. One printer looks at the text of the
  row and the other at its terms, and these are the same only where no
  term is printed as nothing (`isEmpty_row`).

# Why nothing else is touched

Typing changes the marks of typesetting (`marks`) and leaves every other
character alone. All that is printed besides the symbols is ASCII before
it is set, numbers included (`Number.ascii_plain`), and no mark is
(`unmarked_of_ascii`). The symbols are the caller's. They may hold no
mark, as typing would change it; and none may be empty, for the row's
sake.
-/
import UnitAlgebra.Proofs.Numerals
import UnitAlgebra.Proofs.Words
import UnitAlgebra.Typography

namespace UnitAlgebra

-- ======================================================== texts in ASCII

namespace Text

/-- Nothing in a text lies beyond ASCII. -/
def Ascii (text : List Char) : Prop := ∀ c ∈ text, c.toNat < 128

instance (text : List Char) : Decidable (Ascii text) :=
  List.decidableBAll ..

namespace Ascii

/-- ASCII texts are put together from ASCII pieces. -/
theorem append {left right : List Char} (hleft : Ascii left)
    (hright : Ascii right) : Ascii (left ++ right) := by
  intro c hc
  rcases List.mem_append.1 hc with hc | hc
  · exact hleft c hc
  · exact hright c hc

theorem cons {c : Char} {text : List Char} (hc : c.toNat < 128)
    (htext : Ascii text) : Ascii (c :: text) :=
  List.forall_mem_cons.2 ⟨hc, htext⟩

/-- Digits are ASCII; most of what is printed consists of them. -/
theorem of_isDigit {text : List Char} (h : ∀ c ∈ text, c.isDigit = true) :
    Ascii text := by
  intro c hc
  have hlow := toNat_lt_of_isDigit (h c hc)
  omega

theorem toDigits (n : Nat) : Ascii (Nat.toDigits 10 n) :=
  of_isDigit fun _ => Nat.isDigit_of_mem_toDigits (by decide) (by decide)

end Ascii

end Text

open Text

namespace Number

/-- Zeros at the end are dropped and nothing is made up. -/
theorem mem_of_mem_dropTrailingZeros {digits : List Char} {c : Char}
    (h : c ∈ dropTrailingZeros digits) : c ∈ digits := by
  unfold dropTrailingZeros at h
  have hdropped := List.mem_reverse.1 h
  exact List.mem_reverse.1 ((List.dropWhile_sublist _).mem hdropped)

/-- Digits, a point and more digits: the zeros of a great number and the
places of a small one are no exception. -/
theorem ascii_positional (d : Decimal) : Ascii d.positional := by
  have hparts := Ascii.of_isDigit
    (isDigit_of_mem_cutPlaces d.digits (-d.power).toNat)
  unfold Decimal.positional
  split
  · refine (Ascii.toDigits _).append fun c hc => ?_
    rw [List.eq_of_mem_replicate hc]
    decide
  · have hwhole : Ascii (cutPlaces d.digits (-d.power).toNat).1 :=
      fun c hc => hparts c (List.mem_append_left _ hc)
    dsimp only
    split
    · exact hwhole
    · refine hwhole.append (.cons (by decide) fun c hc => ?_)
      exact hparts c
        (List.mem_append_right _ (mem_of_mem_dropTrailingZeros hc))

/-- A number is written in ASCII, whatever its value. -/
theorem ascii_plain (x : Float) : Ascii (plain x) := by
  have hmagnitude : Ascii
      (if ¬ x.isFinite then ['i', 'n', 'f']
        else if x == 0 then ['0']
        else (Magnitude.ofFloat x).shortest.positional) := by
    split
    · decide
    · split
      · decide
      · exact ascii_positional _
  unfold plain
  split
  · decide
  · dsimp only
    split
    · exact .cons (by decide) hmagnitude
    · exact hmagnitude

end Number

/-- Prefixes are typed in ASCII; micro is a `u` there. -/
theorem SIPrefix.ascii_symbol (p : SIPrefix) : Ascii p.symbol.toList := by
  cases p <;> decide

namespace Typography

-- ========================================================== typing again

/-- What only typesetting writes. -/
def marks : List Char :=
  ['⋅', 'μ', '⁻', '⁰', '¹', '²', '³', '⁴', '⁵', '⁶', '⁷', '⁸', '⁹']

/-- No mark stands in a text. -/
def Unmarked (text : List Char) : Prop := ∀ c ∈ text, c ∉ marks

instance (text : List Char) : Decidable (Unmarked text) :=
  List.decidableBAll ..

/-- A character as it is typed. -/
def typed : Char → Char
  | '⋅' => '.'
  | 'μ' => 'u'
  | '⁻' => '-'
  | '⁰' => '0'
  | '¹' => '1'
  | '²' => '2'
  | '³' => '3'
  | '⁴' => '4'
  | '⁵' => '5'
  | '⁶' => '6'
  | '⁷' => '7'
  | '⁸' => '8'
  | '⁹' => '9'
  | c => c

/-- No mark is ASCII. -/
theorem unmarked_of_ascii {text : List Char} (h : Ascii text) :
    Unmarked text := by
  have hbeyond : marks.all (128 ≤ ·.toNat) = true := by decide
  rw [List.all_eq_true] at hbeyond
  intro c hc hmark
  exact Nat.not_le_of_lt (h c hc) (of_decide_eq_true (hbeyond c hmark))

/-- What is no mark is typed as it stands. -/
theorem typed_of_not_mem {c : Char} (h : c ∉ marks) : typed c = c := by
  unfold typed
  split <;> first | rfl | exact absurd (by decide) h

/-- Typing a raised digit gives the digit: the table has each of them in
the place of its value. -/
theorem typed_raisedDigit {c : Char} (h : c.isDigit = true) :
    typed (raisedDigit c h) = c := by
  have htable : ∀ place : Fin 10,
      typed raisedDigits[place] = Char.ofNat (48 + place) := by
    decide
  have hfirst : 48 ≤ c.toNat := (Char.isDigit_iff_toNat.1 h).1
  calc typed (raisedDigit c h)
      = Char.ofNat (48 + (c.toNat - 48)) := htable ⟨c.toNat - 48, place_lt h⟩
    _ = Char.ofNat c.toNat := by rw [Nat.add_sub_cancel' hfirst]
    _ = c := Char.ofNat_toNat c

section

variable {text : List Char}

/-- A text without marks is typed as it stands. The symbols of a unit
come through by this, and by their hypothesis. -/
theorem map_typed_of_unmarked (h : Unmarked text) :
    text.map typed = text := by
  rw [List.map_congr_left fun c hc => typed_of_not_mem (h c hc)]
  exact List.map_id' text

theorem map_typed_of_ascii (h : Ascii text) : text.map typed = text :=
  map_typed_of_unmarked (unmarked_of_ascii h)

end

-- ================================================================== terms

/-- Figures above the line and an integer that is written out agree on
every exponent, on the least one too. -/
theorem map_typed_superscript (e : Exponent) :
    (superscript e).map typed = e.digits := by
  have hmagnitude : ((Nat.toDigits 10 e.val.natAbs).pmap raisedDigit
        fun _ => Nat.isDigit_of_mem_toDigits (by decide)
          (by decide)).map typed
      = Nat.toDigits 10 e.val.natAbs := by
    rw [List.map_pmap]
    calc List.pmap (fun c h => typed (raisedDigit c h)) _ _
        = List.pmap (fun c _ => c) (Nat.toDigits 10 e.val.natAbs)
            fun _ => Nat.isDigit_of_mem_toDigits (by decide) (by decide) :=
          List.pmap_congr_left _ fun c _ h _ => typed_raisedDigit h
      _ = Nat.toDigits 10 e.val.natAbs := by
          rw [List.pmap_eq_map, List.map_id']
  unfold superscript Exponent.digits
  dsimp only
  rw [List.map_append, hmagnitude]
  by_cases hnegative : e.val < 0
  · rw [if_pos hnegative, if_pos hnegative]
    rfl
  · rw [if_neg hnegative, if_neg hnegative]
    rfl

/-- Micro is the one prefix that is set in another way than it is
typed. -/
theorem map_typed_scale (p : SIPrefix) :
    (scale p).map typed = p.symbol.toList := by
  by_cases hmicro : p = .micro
  · rw [hmicro]
    rfl
  · have hscale : scale p = p.symbol.toList := by
      unfold scale
      split
      · exact absurd rfl hmicro
      · rfl
    rw [hscale, map_typed_of_ascii p.ascii_symbol]

/-- A coefficient and the blank behind it are the same in both
manners. -/
theorem map_typed_coefficient (x : Scientific) :
    (if x.isOne then [] else x.valueText ++ [' ']).map typed
      = Term.coefficientText x := by
  have hnumber : Ascii x.valueText := Number.ascii_plain x.toFloat
  have hone : Scalar.isOne x = x.isOne := rfl
  unfold Term.coefficientText
  rw [hone]
  split
  · rfl
  · exact map_typed_of_ascii (hnumber.append (by decide))

/-- A set term, typed, is the written term. The four parts are compared
one by one. -/
theorem map_typed_term {t : Term} (hsymbol : Unmarked t.symbol.toList) :
    (term t).map typed = t.text := by
  have hexponent : (if t.exponent = 1 then []
        else superscript t.exponent).map typed
      = Term.exponentText t.exponent := by
    unfold Term.exponentText
    split
    · rfl
    · exact map_typed_superscript t.exponent
  unfold term Term.text
  dsimp only
  rw [List.map_append, List.map_append, List.map_append,
    map_typed_coefficient, map_typed_scale, map_typed_of_unmarked hsymbol,
    hexponent]

/-- A term with a symbol is not set as nothing. -/
theorem term_ne_nil {t : Term} (hsymbol : t.symbol ≠ "") :
    term t ≠ [] := by
  intro hnil
  unfold term at hnil
  simp only [List.append_eq_nil_iff] at hnil
  exact hsymbol (String.toList_eq_nil_iff.1 hnil.1.2)

-- =================================================================== rows

/-- To change the characters of a joined row is to change those of the
separator and of each piece. -/
theorem map_intercalate (f : Char → Char) (separator : List Char)
    (pieces : List (List Char)) :
    (separator.intercalate pieces).map f
      = (separator.map f).intercalate (pieces.map (List.map f)) := by
  induction pieces with
  | nil => rfl
  | cons piece pieces ih =>
    cases pieces with
    | nil => simp only [List.map_cons, List.map_nil,
        List.intercalate_singleton]
    | cons next pieces =>
      rw [List.intercalate_cons_cons, List.map_append, List.map_append, ih]
      simp only [List.map_cons, List.intercalate_cons_cons]

/-- A set row, typed, is the written row: typing turns the raised dot
into the dot. -/
theorem map_typed_row {terms : List Term}
    (hsymbols : ∀ t ∈ terms, Unmarked t.symbol.toList) :
    ([raisedDot].intercalate (terms.map term)).map typed
      = Measure.rowText terms := by
  have hterms : (terms.map term).map (List.map typed)
      = terms.map Term.text := by
    rw [List.map_map]
    exact List.map_congr_left fun t ht => map_typed_term (hsymbols t ht)
  rw [map_intercalate, hterms, Measure.rowText_eq_intercalate]
  rfl

/-- A row of terms with symbols is set as nothing only when it has no
terms. -/
theorem isEmpty_row {terms : List Term}
    (hsymbols : ∀ t ∈ terms, t.symbol ≠ "") :
    ([raisedDot].intercalate (terms.map term)).isEmpty
      = terms.isEmpty := by
  cases terms with
  | nil => rfl
  | cons t terms =>
    have hterm := term_ne_nil (hsymbols t List.mem_cons_self)
    have hrow : [raisedDot].intercalate ((t :: terms).map term) ≠ [] := by
      cases terms with
      | nil => simpa using hterm
      | cons u terms =>
        rw [List.map_cons, List.map_cons, List.intercalate_cons_cons]
        simp
    rw [List.isEmpty_eq_false_iff.2 hrow]
    rfl

/-- Typing a set unit gives its written form, when every symbol has a
character and none a mark of typesetting. The numbers in front have no
mark, and typing what is set for any exponent at all gives its
digits. -/
theorem map_typed_unit {m : Measure}
    (hsymbols : ∀ t ∈ m.terms, t.symbol ≠ "" ∧ Unmarked t.symbol.toList) :
    String.ofList ((unit m).toList.map typed) = m.text
      ∧ Unmarked m.factor.valueText
      ∧ (∀ t ∈ m.terms, Unmarked t.coefficient.valueText)
      ∧ ∀ e : Exponent, (superscript e).map typed = e.digits := by
  have hnumber : ∀ x : Scientific, Ascii x.valueText :=
    fun x => Number.ascii_plain x.toFloat
  have hrow := map_typed_row fun t ht => (hsymbols t ht).2
  refine ⟨?_, unmarked_of_ascii (hnumber _),
    fun t _ => unmarked_of_ascii (hnumber _), map_typed_superscript⟩
  unfold unit Measure.text
  dsimp only
  rw [String.toList_ofList, isEmpty_row fun t ht => (hsymbols t ht).1]
  by_cases hone : m.factor.isOne = true
  · have hone' : Scalar.isOne m.factor = true := hone
    rw [if_pos hone, if_pos hone', hrow]
  · have hone' : ¬ Scalar.isOne m.factor = true := hone
    rw [if_neg hone, if_neg hone']
    by_cases hempty : m.terms.isEmpty = true
    · rw [if_pos hempty, if_pos hempty, map_typed_of_ascii (hnumber _)]
      rfl
    · rw [if_neg hempty, if_neg hempty, List.map_append, List.map_cons,
        map_typed_of_ascii (hnumber _), hrow]
      rfl

/-- A unit with a factor, a coefficient, micro and the least
exponent. -/
def crowded : Measure :=
  .written ⟨2.0, 0⟩
    [.simple "first" 1234567890, ⟨⟨3.0, 0⟩, .micro, "second", -23⟩,
      .simple "third" .least]

/-- Figures, a Greek letter, two numbers and the least exponent in one
unit. -/
theorem map_typed_unit_crowded :
    (∀ t ∈ crowded.terms, t.symbol ≠ "" ∧ Unmarked t.symbol.toList)
      ∧ unit crowded
        = "2 first¹²³⁴⁵⁶⁷⁸⁹⁰⋅3 μsecond⁻²³⋅third⁻²¹⁴⁷⁴⁸³⁶⁴⁸"
      ∧ crowded.text = "2 first1234567890.3 usecond-23.third-2147483648"
      ∧ String.ofList ((unit crowded).toList.map typed) = crowded.text := by
  have hsymbols : ∀ t ∈ crowded.terms,
      t.symbol ≠ "" ∧ Unmarked t.symbol.toList := by
    decide
  refine ⟨hsymbols, ?_, ?_, (map_typed_unit hsymbols).1⟩
  · decide +kernel
  · decide +kernel

end Typography

end UnitAlgebra
