/-
Mantissas in normal form are near one. However great or small a finite
double is, bringing it into `[1, 10)` leaves a mantissa that has plenty
of room on both sides (`Moderate`), and products and reciprocals of such
mantissas stay finite. So do all products of numbers in normal form,
since each of them is brought into normal form again (`Moderate.mul`).

Nothing here depends on a mantissa being in `[1, 10)` exactly. The
bounds are far enough out not to notice what rounding does to the last
place.

# Moving the point

The point is moved by the logarithm, whose power of ten is never farther
from the leading decimal digit than one place. How many binary places
that are is told by two powers that lie next to each other: `2 ^ 10` is
just over `10 ^ 3`, and `2 ^ 33` just under `10 ^ 10`
(`Number.log_ten_bounds`). With these, the distance between a decimal
and a binary place becomes linear arithmetic (`Number.Near`).

A shift by that many places is one step of at most 300 places, or two,
as longer ones are not needed for a double (`moderate_scaleBy`). A step
adds the length of a power of ten to the leading place or takes it away
(`between_mul_powerOfTen`, `between_div_powerOfTen`).

# After the move

The mantissa is put onto one if it is almost one, divided by ten while
it is ten or more, and multiplied by ten while it is less than one. Each
of these is done only where it does not lead away: what is ten or more
is not small after one division, and what is less than one is not great
after one multiplication (`moderate_lower`, `moderate_raise`). That is
all that the comparisons with one and with ten are needed for.
-/
import UnitAlgebra.Proofs.LeadingPlaces

namespace UnitAlgebra

open Float.Model (UnpackedFloat Format totalExponent)
open Float.Model.UnpackedFloat

namespace Number

/-- The number of decimal digits against that of binary digits. -/
theorem log_ten_bounds {n : Nat} (hn : n ≠ 0) :
    33 * Nat.log 10 n < 10 * (n.log2 + 1)
      ∧ 3 * n.log2 < 10 * (Nat.log 10 n + 1) := by
  constructor
  · refine (Nat.pow_lt_pow_iff_right (show 1 < 2 by decide)).1 ?_
    calc 2 ^ (33 * Nat.log 10 n)
        = (2 ^ 33) ^ Nat.log 10 n := Nat.pow_mul ..
      _ ≤ (10 ^ 10) ^ Nat.log 10 n := Nat.pow_le_pow_left (by decide) _
      _ = (10 ^ Nat.log 10 n) ^ 10 := Nat.pow_right_comm ..
      _ ≤ n ^ 10 := Nat.pow_le_pow_left (Nat.pow_log_le_self 10 hn) _
      _ < (2 ^ (n.log2 + 1)) ^ 10 :=
        Nat.pow_lt_pow_left Nat.lt_log2_self (by decide)
      _ = 2 ^ (10 * (n.log2 + 1)) := by rw [← Nat.pow_mul, Nat.mul_comm]
  · refine (Nat.pow_lt_pow_iff_right (show 1 < 10 by decide)).1 ?_
    calc 10 ^ (3 * n.log2)
        = (10 ^ 3) ^ n.log2 := Nat.pow_mul ..
      _ ≤ (2 ^ 10) ^ n.log2 := Nat.pow_le_pow_left (by decide) _
      _ = (2 ^ n.log2) ^ 10 := Nat.pow_right_comm ..
      _ ≤ n ^ 10 := Nat.pow_le_pow_left (Nat.log2_self_le hn) _
      _ < (10 ^ (Nat.log 10 n + 1)) ^ 10 :=
        Nat.pow_lt_pow_left (Nat.lt_pow_succ_log_self (by decide) n)
          (by decide)
      _ = 10 ^ (10 * (Nat.log 10 n + 1)) := by
        rw [← Nat.pow_mul, Nat.mul_comm]

/-- The number of decimal digits is the logarithm and one more. -/
theorem length_toDigits {n : Nat} (hn : n ≠ 0) :
    (Nat.toDigits 10 n).length = Nat.log 10 n + 1 := by
  have hten : 1 < 10 := by decide
  have hfits := (Nat.length_toDigits_le_iff hten (Nat.succ_pos _)).2
    (Nat.lt_pow_succ_log_self hten n)
  refine Nat.le_antisymm hfits (Nat.lt_of_not_le fun hshort => ?_)
  have hsome : 0 < (Nat.toDigits 10 n).length := Nat.length_toDigits_pos
  have hless := (Nat.length_toDigits_le_iff hten (by omega)).1 hshort
  exact absurd (Nat.pow_log_le_self 10 hn) (Nat.not_le_of_lt hless)

/-- The magnitude of a double is what is in its bits. -/
theorem ofFloat_of_unpack {x : Float} {s : Sign} {m : Nat} {e : Int}
    {h : 0 < m} (hx : x.toModel.unpack = .finite s m e h) :
    (Magnitude.ofFloat x).significand = m
      ∧ (Magnitude.ofFloat x).scale = e := by
  show (Magnitude.ofFloat x).significand = _ ∧ _
  unfold Magnitude.ofFloat
  rcases Double.fields_of_unpack hx with
    ⟨hzero, hm, he⟩ | ⟨hpos, hm, he⟩
  · change x.toBits.toNat / Nat.pow 2 52 % Nat.pow 2 11 = 0 at hzero
    dsimp only
    rw [if_pos hzero]
    exact ⟨hm.symm, he.symm⟩
  · change 0 < x.toBits.toNat / Nat.pow 2 52 % Nat.pow 2 11 at hpos
    dsimp only
    rw [if_neg hpos.ne']
    exact ⟨hm.symm, he.symm⟩

/-- How far the place of the leading decimal digit may be from that of
the leading binary one, for numbers from one on and for those below. -/
def Near (power place : Int) : Prop :=
  0 < place ∧ 0 ≤ power ∧ 33 * power < 10 * place
      ∧ 3 * (place - 1) < 10 * (power + 1)
    ∨ place ≤ 0 ∧ power ≤ 0 ∧ 33 * (-power - 1) < 10 * (2 - place)
      ∧ 3 * -place < 10 * (1 - power)

/-- The leading decimal digit is near the leading binary one. From one
on it is counted in the number and below one in its reciprocal, as the
search for it does. -/
theorem near_leadingPower {x : Magnitude} (hx : x.significand ≠ 0) :
    Near x.leadingPower (totalExponent x.significand x.scale) := by
  obtain ⟨m, e, halved⟩ := x
  change m ≠ 0 at hx
  have htotal : totalExponent m e = m.log2 + 1 + e := rfl
  unfold Near Magnitude.leadingPower Magnitude.divide
  simp only [htotal, Nat.pow_eq, Int.neg_zero, Int.toNat_zero,
    Nat.pow_zero, Nat.mul_one]
  have hshifted := Double.log2_shiftLeft hx e.toNat
  rw [Nat.shiftLeft_eq] at hshifted
  by_cases hunits : m * 2 ^ e.toNat / 2 ^ (-e).toNat = 0
  -- less than one: the digits of the reciprocal are counted
  · rw [if_pos hunits]
    have hbelow := (Nat.div_eq_zero_iff_lt (Nat.two_pow_pos _)).1 hunits
    have hnegative : e.toNat = 0 := by
      by_contra hpos
      rw [show (-e).toNat = 0 by omega, Nat.pow_zero] at hbelow
      have := Nat.mul_ne_zero hx (Nat.two_pow_pos e.toNat).ne'
      omega
    rw [hnegative, Nat.pow_zero, Nat.mul_one] at hbelow ⊢
    have hlong := (Nat.log2_lt hx).2 hbelow
    have hreciprocal : 2 ^ (-e).toNat / m ≠ 0 :=
      (Nat.div_pos hbelow.le (Nat.pos_of_ne_zero hx)).ne'
    have hten := log_ten_bounds hreciprocal
    have hfits := Double.log2_div_add_log2_le hreciprocal
    have hfills := Double.log2_le_log2_div (a := 2 ^ (-e).toNat) hx
    rw [Nat.log2_two_pow] at hfits hfills
    rw [length_toDigits hreciprocal]
    split <;> omega
  · rw [if_neg hunits]
    have hlength := Double.log2_div_two_pow (m * 2 ^ e.toNat) (-e).toNat
    have hten := log_ten_bounds hunits
    rw [length_toDigits hunits]
    have hfits := Double.log2_div_add_log2_le hunits
    rw [Nat.log2_two_pow] at hfits
    omega

/-- The same for a double, whose leading place is told by its bits. -/
theorem near_leadingPower_ofFloat {x : Float}
    (hfinite : x.isFinite = true) (hzero : (x == 0.0) = false) :
    Near (Magnitude.ofFloat x).leadingPower
      (Double.leading x.toModel.unpack) := by
  obtain ⟨s, m, e, hm, hx⟩ := Double.exists_finite hfinite hzero
  obtain ⟨hsignificand, hscale⟩ := ofFloat_of_unpack hx
  have hnear := near_leadingPower (x := .ofFloat x)
    (by rw [hsignificand]; exact hm.ne')
  rw [hsignificand, hscale] at hnear
  rw [hx]
  exact hnear

end Number

namespace Double

/-- A double other than zero that is far from overflow and underflow. -/
def Moderate (x : Float) : Prop := Between (-64) 64 x

theorem unpack_one : (1.0 : Float).toModel.unpack
    = .finite .positive (2 ^ 52) (-52) (by decide) := rfl

theorem unpack_ten : (10.0 : Float).toModel.unpack
    = .finite .positive (10 * 2 ^ 49) (-49) (by decide) := rfl

/-- One and ten have a leading place to compare with, which is what a
test against them tells. -/
theorem between_one : Between 1 1 1.0 :=
  ⟨_, _, _, _, unpack_one, by decide, by decide⟩

theorem between_ten : Between 4 4 10.0 :=
  ⟨_, _, _, _, unpack_ten, by decide, by decide⟩

/-- The whole range of finite doubles, the ones at the least exponent
included. -/
theorem leading_bounds {x : Float} (hfinite : x.isFinite = true)
    (hzero : (x == 0.0) = false) :
    -1073 ≤ leading x.toModel.unpack
      ∧ leading x.toModel.unpack ≤ 1024 := by
  refine ⟨?_, leading_unpack_le _⟩
  obtain ⟨s, m, e, hm, hx⟩ := exists_finite hfinite hzero
  have hleast := (shape_of_unpack hx).2.1
  rw [hx]
  show -1073 ≤ (m.log2 : Int) + 1 + e
  omega

/-- What equals zero is a zero, of one sign or the other. -/
theorem exists_eq_zero {x : Float} (h : (x == 0.0) = true) :
    ∃ s, x.toModel.unpack = .zero s := by
  have hsame := beq_iff.1 h
  rw [show (0.0 : Float).toModel.unpack = .zero .positive from rfl] at hsame
  cases hu : x.toModel.unpack with
  | zero s => exact ⟨s, rfl⟩
  | notANumber =>
    rw [hu] at hsame
    cases hsame
  | infinity s =>
    rw [hu] at hsame
    cases hsame
  | finite s m e hm =>
    rw [hu] at hsame
    cases hsame

theorem isFinite_stored_zero (s : Sign) :
    (stored (.zero s)).isFinite = true := by
  rw [stored_zero]
  rfl

/-- Zero times a finite number does not leave what is finite. -/
theorem isFinite_mul_of_zero {x y : Float} (hx : x.isFinite = true)
    (hy : y.isFinite = true)
    (h : (x == 0.0) = true ∨ (y == 0.0) = true) :
    (x * y).isFinite = true := by
  change x.toModel.unpack.isFinite = true at hx
  change y.toModel.unpack.isFinite = true at hy
  show (stored (UnpackedFloat.mul .binary64 x.toModel.unpack
    y.toModel.unpack)).isFinite = true
  rcases h with h | h
  · obtain ⟨s, hzero⟩ := exists_eq_zero h
    rw [hzero]
    cases hv : y.toModel.unpack with
    | notANumber =>
      rw [hv] at hy
      cases hy
    | infinity t =>
      rw [hv] at hy
      cases hy
    | zero t => exact isFinite_stored_zero _
    | finite t n f hn => exact isFinite_stored_zero _
  · obtain ⟨t, hzero⟩ := exists_eq_zero h
    rw [hzero]
    cases hu : x.toModel.unpack with
    | notANumber =>
      rw [hu] at hx
      cases hx
    | infinity s =>
      rw [hu] at hx
      cases hx
    | zero s => exact isFinite_stored_zero _
    | finite s m e hm => exact isFinite_stored_zero _

end Double

namespace Scientific

open Double

/-- How long a power of ten is, up to one binary place. -/
theorem powerOfTen_bounds (n : Nat) :
    33 * n < 10 * ((10 ^ n).log2 + 1)
      ∧ 3 * (10 ^ n).log2 < 10 * (n + 1) := by
  have hten := Number.log_ten_bounds (Nat.pow_pos (n := n)
    (show 0 < 10 by decide)).ne'
  rw [Nat.log_pow (by decide)] at hten
  exact hten

/-- Rounding has not moved the leading place of a power of ten, in the
steps that are taken. -/
theorem between_powerOfTen {n : Nat} (h : n ≤ 300) :
    Between ((10 ^ n).log2 + 1) ((10 ^ n).log2 + 1) (powerOfTen n) := by
  have hleading := leading_powerOfTen h
  rw [← hleading]
  exact between_of_leading_ne (by omega)

section

variable {low high low' high' : Int} {x : Float} {n : Nat}
  (hx : Between low high x)

include hx

/-- Multiplying by a power of ten moves the leading place to the left by
its length. The bounds are those of `log_ten_bounds`, in which the exact
length does not occur any more. -/
theorem between_mul_powerOfTen (hn : n ≤ 300)
    (hlow : -1021 ≤ low') (hhigh : high' ≤ 1024)
    (hleast : 10 * (low' + 1) ≤ 10 * low + 33 * n)
    (hgreatest : 3 * high + 10 * n + 16 ≤ 3 * high') :
    Between low' high' (x * powerOfTen n) := by
  have hten := powerOfTen_bounds n
  exact (between_mul hx (between_powerOfTen hn) (by omega) (by omega)
    (by omega)).mono (by omega) (by omega)

/-- Dividing moves it to the right. -/
theorem between_div_powerOfTen (hn : n ≤ 300)
    (hlow : -1021 ≤ low') (hhigh : high' ≤ 1024)
    (hleast : 3 * low' + 10 * n + 13 ≤ 3 * low)
    (hgreatest : 10 * high + 20 ≤ 10 * high' + 33 * n) :
    Between low' high' (x / powerOfTen n) := by
  have hten := powerOfTen_bounds n
  exact (between_div hx (between_powerOfTen hn) (by omega) (by omega)).mono
    (by omega) (by omega)

/-- A step is taken while there are places left. -/
theorem moves {power : Int} (h : power ≠ 0) :
    ¬ (power = 0 ∨ (x == 0.0) = true ∨ ¬ x.isFinite = true) := by
  rintro (hzero | hzero | hinfinite)
  · exact h hzero
  · exact hx.ne_zero hzero
  · exact hinfinite hx.isFinite

/-- One step to the left. The rest of the way is a number with a leading
place again, so that steps can be chained. -/
theorem scaleBy_of_pos {power : Int} (h : 0 < power) :
    scaleBy x power = scaleBy (x * powerOfTen (min power 300).toNat)
      (power - min power 300) := by
  conv_lhs => unfold scaleBy
  rw [if_neg (moves hx h.ne'), if_pos h]
  rfl

/-- One step to the right. -/
theorem scaleBy_of_neg {power : Int} (h : power < 0) :
    scaleBy x power = scaleBy (x / powerOfTen (min (-power) 300).toNat)
      (power + min (-power) 300) := by
  conv_lhs => unfold scaleBy
  rw [if_neg (moves hx h.ne), if_neg (by omega)]
  rfl

end

theorem scaleBy_zero (x : Float) : scaleBy x 0 = x := by
  unfold scaleBy
  rw [if_pos (.inl rfl)]

section

variable {x : Float} {place shift : Int}

/-- The point is moved in one step, or in a step of 300 places and
another one. -/
theorem moderate_scaleBy (hx : Between place place x)
    (hsmall : -1073 ≤ place) (hgreat : place ≤ 1024)
    (hleft : -200 ≤ 10 * place - 33 * shift)
    (hright : 10 * place - 33 * shift ≤ 200) :
    Moderate (scaleBy x (-shift)) := by
  rcases lt_trichotomy shift 0 with hneg | rfl | hpos
  · rw [scaleBy_of_pos hx (by omega)]
    by_cases hshort : -shift ≤ 300
    · rw [min_eq_left hshort, Int.sub_self, scaleBy_zero]
      exact between_mul_powerOfTen hx (by omega) (by decide) (by decide)
        (by omega) (by omega)
    · have hfirst : Between (place + 989) (place + 1006)
          (x * powerOfTen 300) :=
        between_mul_powerOfTen hx (by decide) (by omega) (by omega)
          (by omega) (by omega)
      rw [min_eq_right (by omega), show (300 : Int).toNat = 300 from rfl,
        scaleBy_of_pos hfirst (by omega), min_eq_left (by omega),
        Int.sub_self, scaleBy_zero]
      exact between_mul_powerOfTen hfirst (by omega) (by decide)
        (by decide) (by omega) (by omega)
  · rw [Int.neg_zero, scaleBy_zero]
    exact hx.mono (by omega) (by omega)
  · rw [scaleBy_of_neg hx (by omega), Int.neg_neg]
    by_cases hshort : shift ≤ 300
    · rw [min_eq_left hshort, Int.add_left_neg, scaleBy_zero]
      exact between_div_powerOfTen hx (by omega) (by decide) (by decide)
        (by omega) (by omega)
    · have hfirst : Between (place - 1005) (place - 988)
          (x / powerOfTen 300) :=
        between_div_powerOfTen hx (by decide) (by omega) (by omega)
          (by omega) (by omega)
      rw [min_eq_right (by omega), show (300 : Int).toNat = 300 from rfl,
        scaleBy_of_neg hfirst (by omega), min_eq_left (by omega),
        Int.add_right_neg, scaleBy_zero]
      exact between_div_powerOfTen hfirst (by omega) (by decide)
        (by decide) (by omega) (by omega)

/-- The point is moved about as many places as the number has. -/
theorem pointShift_bounds (hfinite : x.isFinite = true)
    (hzero : (x == 0.0) = false) :
    -200 ≤ 10 * leading x.toModel.unpack - 33 * pointShift x
      ∧ 10 * leading x.toModel.unpack - 33 * pointShift x ≤ 200 := by
  have hbetween := between_leading hfinite hzero
  unfold pointShift
  split
  · next hdigit =>
    obtain ⟨hfrom, hbelow⟩ := hdigit
    have hleast : 1 ≤ leading x.toModel.unpack :=
      (hbetween.of_le_abs unpack_one hfrom).leading_bounds.1
    have hgreatest : leading x.toModel.unpack ≤ 4 :=
      (hbetween.of_abs_lt unpack_ten hbelow).leading_bounds.2
    omega
  · have hnear := Number.near_leadingPower_ofFloat hfinite hzero
    have hsize := leading_bounds hfinite hzero
    unfold Number.Near at hnear
    dsimp only
    omega

/-- Moved by the logarithm, the point leaves a mantissa with room on
both sides. -/
theorem moderate_move (hfinite : x.isFinite = true)
    (hzero : (x == 0.0) = false) :
    Moderate (scaleBy x (-pointShift x)) := by
  obtain ⟨hsmall, hgreat⟩ := leading_bounds hfinite hzero
  obtain ⟨hleft, hright⟩ := pointShift_bounds hfinite hzero
  exact moderate_scaleBy (between_leading hfinite hzero) hsmall hgreat
    hleft hright

end

-- ========================================================= normal form

section

variable {x : Scientific} (h : Double.Moderate x.mantissa)

theorem moderate_unitLike (x : Float) : Double.Moderate (unitLike x) := by
  unfold unitLike
  split
  · exact ⟨.negative, 2 ^ 52, -52, by decide, rfl, by decide, by decide⟩
  · exact between_one.mono (by decide) (by decide)

include h

/-- A mantissa that is put onto one is moderate, as one is. -/
theorem moderate_snap : Double.Moderate (snap x).mantissa := by
  unfold snap
  dsimp only
  split
  · exact moderate_unitLike _
  · split
    · exact moderate_unitLike _
    · exact h

/-- Dividing by ten what is ten or more does not make it small. -/
theorem moderate_lower (steps : Nat) :
    Double.Moderate (lower steps x).mantissa := by
  induction steps generalizing x with
  | zero => exact h
  | succ steps ih =>
    unfold lower
    split
    · next hgreat =>
      refine ih ((between_div (h.of_le_abs unpack_ten hgreat) between_ten
        (by decide) (by decide)).mono (by decide) (by decide))
    · exact h

/-- Multiplying by ten what is less than one does not make it great. -/
theorem moderate_raise (steps : Nat) :
    Double.Moderate (raise steps x).mantissa := by
  induction steps generalizing x with
  | zero => exact h
  | succ steps ih =>
    unfold raise
    split
    · next hsmall =>
      refine ih ((between_mul (h.of_abs_lt unpack_one hsmall) between_ten
        (by decide) (by decide) (by decide)).mono (by decide) (by decide))
    · exact h

/-- Moving by single places, down and then up, stays in the middle. -/
theorem moderate_settle : Double.Moderate (settle x).mantissa :=
  moderate_raise (moderate_lower h _) _

end

/-- Zero, or a number with a moderate mantissa. -/
def Moderate (x : Scientific) : Prop :=
  x.isZero = true ∨ Double.Moderate x.mantissa

/-- What is moderate is finite; this is what it is for. -/
theorem Moderate.isFinite {x : Scientific} (h : Moderate x) :
    x.mantissa.isFinite = true := by
  rcases h with hzero | hmoderate
  · exact Double.isFinite_of_beq hzero (by decide)
  · exact Between.isFinite hmoderate

/-- Whatever is finite has a moderate mantissa in normal form. -/
theorem moderate_ofParts {m : Float} (hm : m.isFinite = true)
    (e : Exponent) : Moderate (ofParts m e) := by
  unfold ofParts
  by_cases hzero : (m == 0.0) = true
  · rw [if_pos hzero]
    exact .inl rfl
  · rw [if_neg hzero, if_neg (not_not.2 hm)]
    exact .inr (moderate_settle (moderate_snap
      (moderate_move hm (Bool.eq_false_iff.2 hzero))))

theorem moderate_one : Moderate one :=
  .inr (between_one.mono (by decide) (by decide))

-- ========================================================== arithmetic

section

variable {x y : Scientific}

/-- Two moderate mantissas leave room for their product. Zero is apart,
as it has no leading place. -/
theorem isFinite_mantissa_mul (hx : Moderate x) (hy : Moderate y) :
    (x.mantissa * y.mantissa).isFinite = true := by
  have hx' := hx.isFinite
  have hy' := hy.isFinite
  rcases hx with hzero | hx
  · exact isFinite_mul_of_zero hx' hy' (.inl hzero)
  · rcases hy with hzero | hy
    · exact isFinite_mul_of_zero hx' hy' (.inr hzero)
    · exact (between_mul hx hy (by decide) (by decide) (by decide)).isFinite

/-- A product is brought into normal form, so it is moderate again. The
next three carry this through reciprocals and powers. -/
theorem Moderate.mul (hx : Moderate x) (hy : Moderate y) :
    Moderate (x.mul y) := by
  unfold Scientific.mul
  split
  · exact hy
  · split
    · exact hx
    · exact moderate_ofParts (isFinite_mantissa_mul hx hy) _

/-- A reciprocal that is there is moderate. -/
theorem Moderate.inverse (hx : Moderate x) (hy : x.inverse = .ok y) :
    Moderate y := by
  unfold Scientific.inverse at hy
  by_cases hzero : x.isZero = true
  · rw [if_pos hzero] at hy
    cases hy
  · rw [if_neg hzero] at hy
    have hmantissa := hx.resolve_left hzero
    split at hy
    · cases hy
      exact hx
    · cases hy
      exact moderate_ofParts (between_div between_one hmantissa (by decide)
        (by decide)).isFinite _

/-- Squaring and multiplying keeps base and result moderate, bit by bit.
-/
theorem Moderate.mulPower {base acc : Scientific} (hbase : Moderate base)
    (hacc : Moderate acc) (n : Nat) :
    Moderate (Scientific.mulPower base acc n) := by
  -- the base is squared and the result multiplied by it, or left alone
  have hnext : ∀ base acc : Scientific, Moderate base → Moderate acc →
      ∀ n : Nat, Moderate (if n % 2 = 1 then acc.mul base else acc) := by
    intro base acc hbase hacc n
    split
    · exact hacc.mul hbase
    · exact hacc
  fun_induction Scientific.mulPower base acc n with
  | case1 => exact hacc
  | case2 base acc n hn acc' hlast =>
    exact hnext base acc hbase hacc n
  | case3 base acc n hn acc' hlast ih =>
    exact ih (hbase.mul hbase) (hnext base acc hbase hacc n)

/-- Whatever power is there is moderate, however great. -/
theorem Moderate.pow {n : Exponent} (hx : Moderate x)
    (hy : x.pow n = .ok y) : Moderate y := by
  unfold Scientific.pow at hy
  split at hy
  · cases hy
    exact moderate_one
  · split at hy
    · cases hy
      exact hx
    · split at hy
      · split at hy
        · cases hy
        · cases hy
          exact .inl rfl
      · have hpower := hx.mulPower moderate_one n.val.natAbs
        split at hy
        · exact hpower.inverse hy
        · cases hy
          exact hpower

end

end Scientific

end UnitAlgebra
