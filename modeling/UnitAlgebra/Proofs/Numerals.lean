/-
Numbers as people read them: digits in groups of three, a point, a
fixed count of places.

# Groups

The printer never makes a group. It walks over the digits before the
point and decides for each one, by the remainder of its distance from
the end, whether a separator comes first. `groups` cuts the same digits
into a list of groups, from the right, and the two agree
(`Grouping.separated_eq`). The induction takes three digits off the end
each time, as `groups` does:

- the walk over the digits in front of the last group decides as it
  would if they were all there were, because three digits fewer leave
  every remainder as it was (`Grouping.mapIdx_digitAt_add_three`);
- of the last three digits only the first is a multiple of three away
  from the end (`Grouping.separated_append`).

So what is said of a row of groups (`Cut`) holds of the printed text,
and no digit is lost.

# Places

The digits themselves are those of the magnitude rounded to a whole
number of the last place, with zeros in front up to one digit before the
point (`cutPlaces`). They denote that whole number
(`ofDigits_cutPlaces`), with exactly as many of them behind the point as
places are asked for (`length_cutPlaces_snd`).
-/
import Mathlib.Data.List.Basic
import UnitAlgebra.Number.Grouped
import UnitAlgebra.Number.Literal

namespace UnitAlgebra.Number

-- ======================================================== rows of groups

/-- Digits cut into groups from the right: nothing is lost, the first
group has one to three digits and every other group has three. -/
structure Cut (digits : List Char) (groups : List (List Char)) : Prop where
  flatten : groups.flatten = digits
  bounds : ∀ group ∈ groups, 1 ≤ group.length ∧ group.length ≤ 3
  full : ∀ group ∈ groups.tail, group.length = 3

/-- Digits in groups of three from the right. No digits make no
group. -/
def groups (digits : List Char) : List (List Char) :=
  if _h : digits.length ≤ 3 then
    if digits.isEmpty then [] else [digits]
  else
    let front := digits.length - 3
    groups (digits.take front) ++ [digits.drop front]
termination_by digits.length
decreasing_by
  simp only [List.length_take]
  omega

/-- One group makes a row. -/
theorem Cut.single {digits : List Char} (hne : digits ≠ [])
    (hshort : digits.length ≤ 3) : Cut digits [digits] where
  flatten := by simp
  bounds group hgroup := by
    rw [List.mem_singleton.1 hgroup]
    exact ⟨List.length_pos_iff.2 hne, hshort⟩
  full _ hgroup := absurd hgroup List.not_mem_nil

/-- A row goes on with three more digits. -/
theorem Cut.concat {digits last : List Char} {groups : List (List Char)}
    (h : Cut digits groups) (hne : groups ≠ []) (hlast : last.length = 3) :
    Cut (digits ++ last) (groups ++ [last]) where
  flatten := by
    rw [List.flatten_append, h.flatten]
    simp
  bounds group hgroup := by
    rcases List.mem_append.1 hgroup with hgroup | hgroup
    · exact h.bounds group hgroup
    · rw [List.mem_singleton.1 hgroup, hlast]
      omega
  full group hgroup := by
    rw [List.tail_append_of_ne_nil hne] at hgroup
    rcases List.mem_append.1 hgroup with hgroup | hgroup
    · exact h.full group hgroup
    · rw [List.mem_singleton.1 hgroup, hlast]

/-- Only no digits make no group. -/
theorem Cut.ne_nil {digits : List Char} {groups : List (List Char)}
    (h : Cut digits groups) (hne : digits ≠ []) : groups ≠ [] := by
  intro hnil
  have hflatten := h.flatten
  rw [hnil] at hflatten
  exact hne hflatten.symm

section

variable {digits : List Char} (hlong : ¬ digits.length ≤ 3)

include hlong

/-- More than three digits leave some in front of the last three. -/
theorem take_ne_nil_of_long : digits.take (digits.length - 3) ≠ [] := by
  intro hnil
  have hlength := congrArg List.length hnil
  rw [List.length_take, List.length_nil] at hlength
  omega

theorem length_drop_of_long :
    (digits.drop (digits.length - 3)).length = 3 := by
  rw [List.length_drop]
  omega

end

/-- Cutting from the right leaves one to three digits for the first
group. -/
theorem cut_groups (digits : List Char) : Cut digits (groups digits) := by
  fun_induction groups digits with
  | case1 digits _ hempty =>
    rw [List.isEmpty_iff.1 hempty]
    exact ⟨rfl, nofun, nofun⟩
  | case2 digits hshort hempty =>
    exact .single (fun hnil => hempty (List.isEmpty_iff.2 hnil)) hshort
  | case3 digits hlong front ih =>
    have hcut := ih.concat (ih.ne_nil (take_ne_nil_of_long hlong))
      (length_drop_of_long hlong)
    rw [List.take_append_drop] at hcut
    exact hcut

-- ======================================================== digit by digit

namespace Grouping

variable (g : Grouping)

/-- A group other than the first starts a multiple of three digits away
from the end. -/
theorem digitAt_of_start {count i : Nat} (hi : 0 < i)
    (hstart : (count - i) % 3 = 0) (digit : Char) :
    g.digitAt count i digit = g.separator ++ [digit] :=
  if_pos ⟨hi, hstart⟩

/-- Inside a group no separator comes first. -/
theorem digitAt_of_inner {count i : Nat}
    (hinner : i = 0 ∨ (count - i) % 3 ≠ 0) (digit : Char) :
    g.digitAt count i digit = [digit] :=
  if_neg (by omega)

/-- Three digits more at the end leave the walk over the others as it
was. -/
theorem mapIdx_digitAt_add_three (digits : List Char) :
    digits.mapIdx (g.digitAt (digits.length + 3))
      = digits.mapIdx (g.digitAt digits.length) := by
  rw [List.mapIdx_eq_mapIdx_iff]
  intro i hi
  unfold digitAt
  rw [show digits.length + 3 - i = digits.length - i + 3 by omega,
    Nat.add_mod_right]

/-- The walk over digits and three more is the walk over the digits, a
separator and the three. -/
theorem separated_append {digits last : List Char} (hne : digits ≠ [])
    (hlast : last.length = 3) :
    g.separated (digits ++ last)
      = g.separated digits ++ (g.separator ++ last) := by
  -- the three are looked at one by one: they are three, two and one
  -- away from the end
  obtain ⟨a, b, c, rfl⟩ := List.length_eq_three.1 hlast
  have hpos := List.length_pos_iff.2 hne
  unfold separated
  rw [List.length_append, List.mapIdx_append, List.flatten_append, hlast,
    mapIdx_digitAt_add_three]
  congr 1
  simp only [List.mapIdx_cons, List.mapIdx_nil, List.flatten_cons,
    List.flatten_nil]
  rw [g.digitAt_of_start (by omega) (by omega),
    g.digitAt_of_inner (by omega), g.digitAt_of_inner (by omega)]
  simp

theorem flatten_mapIdx_singleton (digits : List Char) :
    (digits.mapIdx fun _ digit => [digit]).flatten = digits := by
  induction digits with
  | nil => rfl
  | cons digit digits ih =>
    rw [List.mapIdx_cons, List.flatten_cons, ih]
    rfl

/-- A walk over no more than three digits puts nothing in. -/
theorem separated_of_length_le {digits : List Char}
    (hshort : digits.length ≤ 3) : g.separated digits = digits := by
  have halone : digits.mapIdx (g.digitAt digits.length)
      = digits.mapIdx fun _ digit => [digit] := by
    rw [List.mapIdx_eq_mapIdx_iff]
    intro i hi
    exact g.digitAt_of_inner (by omega) _
  unfold separated
  rw [halone, flatten_mapIdx_singleton]

/-- Joining goes on with one more piece. -/
theorem intercalate_concat {separator last : List Char}
    {pieces : List (List Char)} (hne : pieces ≠ []) :
    separator.intercalate (pieces ++ [last])
      = separator.intercalate pieces ++ (separator ++ last) := by
  induction pieces with
  | nil => exact absurd rfl hne
  | cons piece pieces ih =>
    cases pieces with
    | nil =>
      rw [List.singleton_append, List.intercalate_cons_cons,
        List.intercalate_singleton, List.intercalate_singleton,
        List.append_assoc]
    | cons next pieces =>
      rw [List.cons_append, List.cons_append, List.intercalate_cons_cons,
        ← List.cons_append, ih (List.cons_ne_nil _ _),
        List.intercalate_cons_cons]
      simp only [List.append_assoc]

/-- The walk over the digits joins their groups. -/
theorem separated_eq (digits : List Char) :
    g.separated digits = g.separator.intercalate (groups digits) := by
  fun_induction groups digits with
  | case1 digits _ hempty =>
    rw [List.isEmpty_iff.1 hempty]
    rfl
  | case2 digits hshort _ =>
    rw [g.separated_of_length_le hshort, List.intercalate_singleton]
  | case3 digits hlong front ih =>
    have hfront := take_ne_nil_of_long hlong
    rw [intercalate_concat ((cut_groups _).ne_nil hfront), ← ih,
      ← g.separated_append hfront (length_drop_of_long hlong),
      List.take_append_drop]

end Grouping

-- ========================================================= fixed places

/-- Zeros in front are digits, and change nothing. -/
theorem isDigit_of_mem_padLeft {least : Nat} {digits : List Char}
    (h : ∀ c ∈ digits, c.isDigit = true) :
    ∀ c ∈ padLeft least digits, c.isDigit = true := by
  intro c hc
  rcases List.mem_append.1 hc with hzero | hc
  · rw [List.eq_of_mem_replicate hzero]
    rfl
  · exact h c hc

/-- Padding reaches the length that is asked for. -/
theorem length_padLeft (least : Nat) (digits : List Char) :
    least ≤ (padLeft least digits).length := by
  unfold padLeft
  rw [List.length_append, List.length_replicate]
  omega

/-- Zeros in front leave the value as it is. -/
theorem ofDigits_padLeft (least : Nat) (digits : List Char) :
    ofDigits (padLeft least digits) = ofDigits digits := by
  have hzeros : ∀ count, ofDigits (List.replicate count '0') = 0 := by
    intro count
    induction count with
    | zero => rfl
    | succ count ih => exact ih
  unfold padLeft
  unfold ofDigits at hzeros ⊢
  rw [List.foldl_append, hzeros]

section

variable (n places : Nat)

/-- The two parts of a cut are the padded digits. -/
theorem cutPlaces_append :
    (cutPlaces n places).1 ++ (cutPlaces n places).2
      = padLeft (places + 1) (Nat.toDigits 10 n) := by
  unfold cutPlaces
  rw [List.splitAt_eq]
  exact List.take_append_drop ..

theorem length_cutPlaces_snd : (cutPlaces n places).2.length = places := by
  have hlength := length_padLeft (places + 1) (Nat.toDigits 10 n)
  unfold cutPlaces
  rw [List.splitAt_eq, List.length_drop]
  omega

/-- At least one digit stands before the point. -/
theorem cutPlaces_fst_ne_nil : (cutPlaces n places).1 ≠ [] := by
  have hlength := length_padLeft (places + 1) (Nat.toDigits 10 n)
  have hparts := congrArg List.length (cutPlaces_append n places)
  rw [List.length_append, length_cutPlaces_snd] at hparts
  exact List.length_pos_iff.1 (by omega)

/-- Neither part holds anything but digits, so the separators and the
point can be told from them. -/
theorem isDigit_of_mem_cutPlaces :
    ∀ c ∈ (cutPlaces n places).1 ++ (cutPlaces n places).2,
      c.isDigit = true := by
  rw [cutPlaces_append]
  exact isDigit_of_mem_padLeft fun _ =>
    Nat.isDigit_of_mem_toDigits (by decide) (by decide)

/-- The digits denote the number that was cut. -/
theorem ofDigits_cutPlaces :
    ofDigits ((cutPlaces n places).1 ++ (cutPlaces n places).2) = n := by
  rw [cutPlaces_append, ofDigits_padLeft]
  exact Nat.ofDigitChars_ten_toDigits

end

-- ======================================================== grouped numbers

/-- Grouping loses nothing. The text of a finite number is a sign, the
digits before the point cut into groups from the right and joined by the
separator, and the point with the places if there are any. Those digits
are the ones of the magnitude rounded to the places. The sign is there
when the number is negative and some digit is not zero. -/
theorem Grouping.text_of_isFinite (g : Grouping) {x : Float}
    (hx : x.isFinite = true) :
    ∃ sign whole fraction groups,
      g.text x
          = sign ++ g.separator.intercalate groups
            ++ (if 0 < g.places then g.point ++ fraction else [])
        ∧ fixed x g.places = (whole, fraction)
        ∧ ofDigits (whole ++ fraction)
          = ((Magnitude.ofFloat x).divide (-g.places)).rounded
        ∧ (∀ c ∈ whole ++ fraction, c.isDigit = true)
        ∧ whole ≠ [] ∧ fraction.length = g.places
        ∧ Cut whole groups ∧ groups ≠ []
        ∧ (sign = ['-'] ∨ sign = [])
        ∧ (sign = ['-'] ↔ x < 0.0 ∧ ∃ c ∈ whole ++ fraction, c ≠ '0') := by
  let whole := (fixed x g.places).1
  let fraction := (fixed x g.places).2
  have hne : whole ≠ [] := cutPlaces_fst_ne_nil _ _
  refine ⟨if x < 0.0 ∧ (whole ++ fraction).any (· ≠ '0') then ['-'] else [],
    whole, fraction, groups whole, ?_, rfl, ofDigits_cutPlaces _ _,
    isDigit_of_mem_cutPlaces _ _, hne, length_cutPlaces_snd _ _,
    cut_groups whole, (cut_groups whole).ne_nil hne, ?_, ?_⟩
  · have hplaces : (if g.places = 0 then [] else g.point ++ fraction)
        = if 0 < g.places then g.point ++ fraction else [] := by
      by_cases hzero : g.places = 0
      · rw [if_pos hzero, if_neg (by omega)]
      · rw [if_neg hzero, if_pos (by omega)]
    rw [← g.separated_eq, ← hplaces]
    unfold text
    rw [if_neg (not_not.2 hx)]
  · split
    · exact .inl rfl
    · exact .inr rfl
  · have hany : (whole ++ fraction).any (· ≠ '0') = true
        ↔ ∃ c ∈ whole ++ fraction, c ≠ '0' := by
      simp only [List.any_eq_true, decide_eq_true_eq]
    rw [← hany]
    split
    · next hnegative => exact iff_of_true rfl hnegative
    · next hnegative =>
      exact iff_of_false (List.cons_ne_nil _ _).symm hnegative

/-- Seven digits make three groups, behind a sign. -/
theorem text_of_isFinite_millions :
    (-1500000.4 : Float).isFinite = true
      ∧ ∃ groups, (⟨0, ['.'], [' ']⟩ : Grouping).text (-1500000.4)
          = '-' :: [' '].intercalate groups
        ∧ Cut "1500000".toList groups
        ∧ [' '].intercalate groups = "1 500 000".toList := by
  have hfinite : (-1500000.4 : Float).isFinite = true := by decide +kernel
  have htext : (⟨0, ['.'], [' ']⟩ : Grouping).text (-1500000.4)
      = "-1 500 000".toList := by decide +kernel
  have hfixed : fixed (-1500000.4) 0 = ("1500000".toList, []) := by
    decide +kernel
  have hnegative : (-1500000.4 : Float) < 0.0 := by decide +kernel
  obtain ⟨sign, whole, fraction, groups, heq, hparts, -, -, -, -, hcut, -,
    -, hsign⟩ := Grouping.text_of_isFinite ⟨0, ['.'], [' ']⟩ hfinite
  obtain ⟨rfl, rfl⟩ := Prod.mk.inj (hfixed.symm.trans hparts)
  obtain rfl : sign = ['-'] := hsign.2 ⟨hnegative, '1', by decide, by decide⟩
  rw [if_neg (Nat.lt_irrefl 0), List.append_nil, List.singleton_append]
    at heq
  exact ⟨hfinite, groups, heq, hcut, (List.cons.inj (heq.symm.trans htext)).2⟩

/-- What is rounded to zero has no sign. -/
example : (⟨0, ['.'], [' ']⟩ : Grouping).text (-0.2) = ['0'] := by
  decide +kernel

end UnitAlgebra.Number
