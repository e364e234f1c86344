/-
Which decimals overflow. The greatest double is one unit short of
`2 ^ 1024`, and numbers up to half a unit past it are still rounded down
to it. From there on, `Double.overflow`, everything is rounded up to
`2 ^ 1024`, for which there is no room, and comes out as an infinity.

The edge is sharp because rounding decides by the first bit that is cut
off, once all that are kept are ones (`log2_roundedMantissa_iff`): a tie
goes to the even neighbour, and that is the one above. So it takes no
account of what else is cut off, and the same edge holds for a number
that is rounded from a quotient with a remainder
(`isFinite_round_iff`).

A decimal is read in one of three ways: short ones as a product or a
quotient of two exact doubles, longer ones by one exact product or
division (`isFinite_decimal_iff`), and those that are far out of range
without any arithmetic. All three agree on the edge
(`Number.isFinite_nearest_iff`).
-/
import UnitAlgebra.Number.Literal
import UnitAlgebra.Proofs.Mantissas

namespace UnitAlgebra

open Float.Model (UnpackedFloat Format totalExponent)
open Float.Model.UnpackedFloat

namespace Double

-- ============================================================== the edge

/-- The least number that is rounded to an infinity. -/
def overflow : Nat := (2 ^ 54 - 1) * 2 ^ 970

/-- The last bit that is shifted out. -/
theorem roundBit_shiftRight_succ (x : ExtendedMantissa) (k : Nat) :
    (x >>> (k + 1)).roundBit = (x.mantissa / 2 ^ k % 2 != 0) := by
  rw [← mantissa_shiftRight]
  rfl

/-- Rounding carries into a new digit when all the digits are ones, and
the next bit too. -/
theorem log2_roundedMantissa_iff {x : ExtendedMantissa}
    (hx : x.mantissa.log2 = 52) :
    x.roundedMantissa.log2 = 52
      ↔ ¬ (x.mantissa = 2 ^ 53 - 1 ∧ x.roundBit = true) := by
  obtain ⟨m, round, sticky⟩ := x
  change m.log2 = 52 at hx
  have hm : m ≠ 0 := by
    rintro rfl
    rw [Nat.log2_zero] at hx
    omega
  rw [Nat.log2_eq_iff hm] at hx
  cases round with
  | false =>
    have hstays : (ExtendedMantissa.mk m false sticky).roundedMantissa
        = m := by
      cases sticky <;> rfl
    rw [hstays, Nat.log2_eq_iff hm]
    exact iff_of_true hx fun hcarries => Bool.false_ne_true hcarries.2
  | true =>
    rw [and_iff_left rfl]
    show _ ↔ ¬ m = 2 ^ 53 - 1
    cases sticky with
    | false =>
      show (m + m % 2).log2 = 52 ↔ _
      rw [Nat.log2_eq_iff (by omega)]
      omega
    | true =>
      show (m + 1).log2 = 52 ↔ _
      rw [Nat.log2_eq_iff (by omega)]
      omega

section

variable {s : Sign} {m : Nat} {e : Int} {accuracy : Accuracy}

/-- A number of 1024 places is finite while it is rounded without a
carry. -/
theorem isFinite_round_of_edge (he : e ≤ 970)
    (hedge : totalExponent m e = 1024) :
    (stored (roundWithAccuracy .binary64 s m e accuracy)).isFinite = true
      ↔ m / 2 ^ (970 - e).toNat < 2 ^ 54 - 1 := by
  have htotal : totalExponent m e = m.log2 + 1 + e := rfl
  have hlong : 52 ≤ m.log2 := by omega
  have hnormal : -1021 ≤ totalExponent m e := by omega
  obtain ⟨n, h, hround, hfull⟩ := exists_round (s := s) accuracy hlong
    hnormal
  have hlength := log2_roundedMantissa accuracy hlong hnormal
  -- `q` will be the digits that are kept and the first that is cut off
  have hshift : (target m e - e).toNat = (970 - e).toNat + 1 := by
    rw [target_eq]
    omega
  have hbit : (shiftToTargetExponent .binary64 m e accuracy).1.roundBit
      = (m / 2 ^ (970 - e).toNat % 2 != 0) := by
    show (ExtendedMantissa.ofMantissaAndAccuracy m accuracy
      >>> (target m e - e).toNat).roundBit = _
    rw [hshift, roundBit_shiftRight_succ]
    cases accuracy with
    | exact => rfl
    | inexact o => cases o <;> rfl
  have hcut := mantissa_shiftToTargetExponent m e accuracy
  have hfirst : (shiftToTargetExponent .binary64 m e
      accuracy).1.mantissa.log2 = 52 := by
    rw [hcut, log2_div_two_pow]
    omega
  have hcarry := log2_roundedMantissa_iff hfirst
  rw [hcut, hbit, hshift, Nat.pow_succ, ← Nat.div_div_eq_div_mul]
    at hcarry
  have hdigits : (m / 2 ^ (970 - e).toNat).log2 = 53 := by
    rw [log2_div_two_pow]
    omega
  generalize m / 2 ^ (970 - e).toNat = q at hcarry hdigits ⊢
  have hq : q ≠ 0 := by
    rintro rfl
    rw [Nat.log2_zero] at hdigits
    omega
  rw [Nat.log2_eq_iff hq] at hdigits
  rw [hround]
  generalize (shiftToTargetExponent .binary64 m e
    accuracy).1.roundedMantissa.log2 = length at hlength hcarry ⊢
  have hroom : (stored (.finite s n (totalExponent m e - 105 + length)
      h)).isFinite = true ↔ length = 52 := by
    constructor
    · intro hfinite
      by_contra hcarried
      rw [stored_finite_of_lt (by omega)] at hfinite
      cases hfinite
    · intro hstays
      exact isFinite_stored (by omega)
  rw [hroom, hcarry, bne_iff_ne]
  omega

/-- What is rounded becomes an infinity from the edge on. -/
theorem isFinite_round_iff (he : e ≤ 970) :
    (stored (roundWithAccuracy .binary64 s m e accuracy)).isFinite = true
      ↔ m < (2 ^ 54 - 1) * 2 ^ (970 - e).toNat := by
  have htotal : totalExponent m e = m.log2 + 1 + e := rfl
  rcases lt_trichotomy (totalExponent m e) 1024 with hless | hedge | hmore
  · refine iff_of_true ?_ ?_
    · rcases roundWithAccuracy_cases m e accuracy s with
        hround | ⟨n, f, h, hround, hf⟩
      · rw [hround]
        exact isFinite_stored_zero s
      · rw [hround]
        exact isFinite_stored (by omega)
    · calc m < 2 ^ (m.log2 + 1) := Nat.lt_log2_self
        _ ≤ 2 ^ (53 + (970 - e).toNat) :=
          Nat.pow_le_pow_right (by decide) (by omega)
        _ = 2 ^ 53 * 2 ^ (970 - e).toNat := Nat.pow_add ..
        _ ≤ (2 ^ 54 - 1) * 2 ^ (970 - e).toNat :=
          Nat.mul_le_mul_right _ (by decide)
  · -- at the edge itself the carry decides
    rw [isFinite_round_of_edge he hedge,
      Nat.div_lt_iff_lt_mul (Nat.two_pow_pos _)]
  · have hlong : 52 ≤ m.log2 := by omega
    have hnormal : -1021 ≤ totalExponent m e := by omega
    obtain ⟨n, h, hround, -⟩ := exists_round (s := s) accuracy hlong
      hnormal
    have hlength := log2_roundedMantissa accuracy hlong hnormal
    have hm : m ≠ 0 := by
      rintro rfl
      rw [Nat.log2_zero] at hlong
      omega
    refine iff_of_false ?_ (Nat.not_lt_of_le ?_)
    · rw [hround, stored_finite_of_lt (by omega)]
      exact Bool.false_ne_true
    · calc (2 ^ 54 - 1) * 2 ^ (970 - e).toNat
          ≤ 2 ^ 54 * 2 ^ (970 - e).toNat :=
            Nat.mul_le_mul_right _ (by decide)
        _ = 2 ^ (54 + (970 - e).toNat) := (Nat.pow_add ..).symm
        _ ≤ 2 ^ m.log2 := Nat.pow_le_pow_right (by decide) (by omega)
        _ ≤ m := Nat.log2_self_le hm

end

/-- Both sides of the edge may be shifted. -/
theorem mul_two_pow_lt_iff (m k room shift n : Nat) :
    m * 2 ^ k < room * 2 ^ (shift + k) * n ↔ m < room * 2 ^ shift * n := by
  rw [Nat.pow_add, ← Nat.mul_assoc, Nat.mul_right_comm]
  exact Nat.mul_lt_mul_right (Nat.two_pow_pos k)

section

variable {s t : Sign} {m n : Nat} {e f : Int} {hm : 0 < m} {hn : 0 < n}

/-- A product is rounded from an exact integer, so its edge is that of
rounding. -/
theorem isFinite_mul_iff (h : e + f ≤ 970) :
    (stored (UnpackedFloat.mul .binary64 (.finite s m e hm)
        (.finite t n f hn))).isFinite = true
      ↔ m * n < (2 ^ 54 - 1) * 2 ^ (970 - (e + f)).toNat :=
  isFinite_round_iff h

/-- A quotient is rounded from its whole part and a remainder, which the
edge does not see. -/
theorem isFinite_div_iff (h : e - f ≤ 970) :
    (stored (UnpackedFloat.div .binary64 (.finite s m e hm)
        (.finite t n f hn))).isFinite = true
      ↔ m < (2 ^ 54 - 1) * 2 ^ (970 - (e - f)).toNat * n := by
  have hplace := exponent_divCore m e n f
  generalize hp : (divCore .binary64 m e n f).2.1 = p at hplace
  have hquotient : (divCore .binary64 m e n f).1
      = m <<< (e - f - p).toNat / n := by
    rw [← hp]
    rfl
  have hshift : (970 - p).toNat
      = (970 - (e - f)).toNat + (e - f - p).toNat := by
    omega
  show (stored (roundWithAccuracy .binary64 (s / t)
    (divCore .binary64 m e n f).1 (divCore .binary64 m e n f).2.1
    (divCore .binary64 m e n f).2.2)).isFinite = true ↔ _
  rw [hp, isFinite_round_iff (by omega), hquotient,
    Nat.div_lt_iff_lt_mul hn, Nat.shiftLeft_eq, hshift,
    mul_two_pow_lt_iff]

end

-- ============================================================== decimals

/-- A whole number of up to 53 digits is a double. -/
theorem between_toFloat {n : Nat} (hn : n ≠ 0) (h : n < 2 ^ 53) :
    Between 1 54 n.toUInt64.toFloat := by
  have hlength : n.log2 < 53 := (Nat.log2_lt hn).2 h
  have hvalue : n.toUInt64.toNat = n := by
    show n % 2 ^ 64 = n
    omega
  have htarget := target_eq n 0
  have hshifted := log2_shiftLeft hn (0 - target n 0).toNat
  have htotal : totalExponent (n <<< (0 - target n 0).toNat)
        (0 - (0 - target n 0).toNat)
      = (n <<< (0 - target n 0).toNat).log2 + 1
        + (0 - (0 - target n 0).toNat) := rfl
  show Between 1 54 (.ofModel (.pack
    (UnpackedFloat.normalize .binary64 n.toUInt64.toNat 0 .positive)))
  unfold UnpackedFloat.normalize
  rw [hvalue, Int.compare_eq_gt.2 (by omega)]
  show Between 1 54 (.ofModel (.pack (roundWithAccuracy .binary64
    .positive (n <<< (0 - target n 0).toNat)
    (0 - (0 - target n 0).toNat) .exact)))
  exact (between_round _ (by omega) (by omega) (by omega)).mono (by omega)
    (by omega)

/-- Short decimals take two exact doubles, and stay far below the edge.
-/
theorem isFinite_ofScientific_of_short {n places : Nat} {negative : Bool}
    (hn : n ≠ 0) (h : n < 2 ^ 53 ∧ places ≤ 22) :
    (Float.ofScientific n negative places).isFinite = true := by
  have hpowers : ∀ e : Fin 23, 1 ≤ leading
        (Float.exactlyRepresentablePowersOfTen[e]).toModel.unpack
      ∧ leading (Float.exactlyRepresentablePowersOfTen[e]).toModel.unpack
        ≤ 74 := by
    decide +kernel
  obtain ⟨hleast, hgreatest⟩ := hpowers ⟨places, by omega⟩
  have hpower := (between_of_leading_ne (by omega)).mono hleast hgreatest
  have hwhole := between_toFloat hn h.1
  unfold Float.ofScientific
  rw [dif_pos h]
  dsimp only
  split
  · exact (between_div hwhole hpower (by decide) (by decide)).isFinite
  · exact (between_mul hwhole hpower (by decide) (by decide)
      (by decide)).isFinite

theorem isFinite_ofScientific_iff {n : Nat} (hn : n ≠ 0) (places : Nat) :
    (stored (UnpackedFloat.ofScientific .binary64 n (-places))).isFinite
        = true
      ↔ n < overflow * 10 ^ places := by
  have hbelow : ¬ 2 ^ Format.binary64.exponentBits < -(places : Int) := by
    show ¬ (2048 : Int) < -places
    omega
  unfold UnpackedFloat.ofScientific
  rw [dif_neg hn, if_neg hbelow]
  split
  · next hsmall =>
    change -(places : Int) < -(2048 + n.log2) at hsmall
    refine iff_of_true (isFinite_stored_zero _) ?_
    calc n < 2 ^ (n.log2 + 1) := Nat.lt_log2_self
      _ ≤ 2 ^ places := Nat.pow_le_pow_right (by decide) (by omega)
      _ ≤ 10 ^ places := Nat.pow_le_pow_left (by decide) _
      _ ≤ overflow * 10 ^ places :=
        Nat.le_mul_of_pos_left _ (by decide +kernel)
  · split
    · next hwhole =>
      obtain rfl : places = 0 := by omega
      have hshift : (970 - (-(Format.binary64.mantissaBits : Int)
          + 0)).toNat = 970 + Format.binary64.mantissaBits := rfl
      have hscaled := mul_two_pow_lt_iff n Format.binary64.mantissaBits
        (2 ^ 54 - 1) 970 1
      rw [Nat.mul_one, Nat.mul_one] at hscaled
      unfold overflow
      rw [isFinite_mul_iff (by decide), Nat.shiftLeft_eq, hshift,
        show (-((0 : Nat) : Int)).toNat = 0 from rfl, Nat.pow_zero,
        Nat.mul_one, Nat.mul_one, hscaled]
    · next hfraction =>
      unfold overflow
      rw [isFinite_div_iff (by decide), Int.neg_neg, Int.toNat_natCast,
        show (970 - (0 - 0) : Int).toNat = 970 from rfl]

/-- Short decimals and long ones have the same edge. -/
theorem isFinite_decimal_iff {n : Nat} (hn : n ≠ 0) (places : Nat) :
    (Float.ofScientific n (decide (-(places : Int) < 0)) places).isFinite
        = true
      ↔ n < overflow * 10 ^ places := by
  by_cases hshort : n < 2 ^ 53 ∧ places ≤ 22
  · refine iff_of_true (isFinite_ofScientific_of_short hn hshort) ?_
    calc n < 2 ^ 53 := hshort.1
      _ ≤ overflow := by decide +kernel
      _ ≤ overflow * 10 ^ places :=
        Nat.le_mul_of_pos_right _ (Nat.pow_pos (by decide))
  · rw [← isFinite_ofScientific_iff hn]
    have hpower : (if decide (-(places : Int) < 0) = true
        then Int.negOfNat places else Int.ofNat places) = -places := by
      split
      · exact Int.negOfNat_eq
      · next hwhole =>
        have hnone : ¬ -(places : Int) < 0 := fun hneg =>
          hwhole (decide_eq_true hneg)
        obtain rfl : places = 0 := by omega
        rfl
    unfold Float.ofScientific
    rw [dif_neg hshort]
    dsimp only
    rw [hpower]
    rfl

end Double

namespace Number

/-- A decimal with `places` decimal places is finite below the edge. -/
theorem isFinite_nearest_iff (digits places : Nat) :
    (nearest digits (-places)).isFinite = true
      ↔ digits < Double.overflow * 10 ^ places := by
  have hten : 0 < 10 ^ places := Nat.pow_pos (by decide)
  have hedge : 0 < Double.overflow := by decide +kernel
  unfold nearest
  dsimp only
  by_cases hzero : digits = 0
  · rw [if_pos hzero, hzero]
    exact iff_of_true (by decide) (Nat.mul_pos hedge hten)
  · rw [if_neg hzero, length_toDigits hzero]
    have hfrom := Nat.pow_log_le_self 10 hzero
    have hbelow := Nat.lt_pow_succ_log_self (show 1 < 10 by decide) digits
    generalize Nat.log 10 digits = count at hfrom hbelow ⊢
    split
    · next hgreat =>
      refine iff_of_false (by decide +kernel) (Nat.not_lt_of_le ?_)
      obtain ⟨far, hfar, hroom⟩ :
          ∃ far ≤ 310, Double.overflow ≤ 10 ^ far :=
        ⟨309, by decide, by decide +kernel⟩
      calc Double.overflow * 10 ^ places
          ≤ 10 ^ far * 10 ^ places := Nat.mul_le_mul_right _ hroom
        _ = 10 ^ (far + places) := (Nat.pow_add ..).symm
        _ ≤ 10 ^ count := Nat.pow_le_pow_right (by decide) (by omega)
        _ ≤ digits := hfrom
    · split
      · next hsmall =>
        refine iff_of_true (by decide) ?_
        calc digits < 10 ^ (count + 1) := hbelow
          _ ≤ 10 ^ places := Nat.pow_le_pow_right (by decide) (by omega)
          _ ≤ Double.overflow * 10 ^ places :=
            Nat.le_mul_of_pos_left _ hedge
      · rw [Int.natAbs_neg, Int.natAbs_natCast]
        exact Double.isFinite_decimal_iff hzero places

end Number

end UnitAlgebra
