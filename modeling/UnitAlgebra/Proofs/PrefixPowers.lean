/-
Powers of prefixes. A prefix is a power of ten with mantissa one, and
such numbers are multiplied by adding exponents, which stop at the ends
of their range.

# Positive powers

Adding up exponents of one sign moves one way only, so stopping on the
way or at the end comes to the same (`Exponent.addClamped_clamp`). This
is the invariant of the repeated squaring: base and accumulator are
powers of ten whose exponents, had they not been stopped, have one sign
(`Scientific.mulPower_ten`). The induction halves the power that is
left. So a positive power is exact whenever its exponent is in range, as
the product of that many factors is (`Scientific.manyTimes_ten`).

# Negative powers

A negative power is the reciprocal of a positive one, and the range has
one more exponent below zero than above. The one power that is lost is
the one whose exponent is the least: its reciprocal is stopped one short
of it, and turning it over does not bring the missing step back
(`Exponent.scaleClamped_eq`).

For which prefixes this can happen is a matter of arithmetic: the power
of the prefix has to divide the least exponent, which is a power of two
(`SIPrefix.fallsShort_iff`). `factor_pow_iff` says that these are the
only powers that are not exact.
-/
import Mathlib.Tactic.Ring
import UnitAlgebra.SIPrefix

namespace UnitAlgebra

-- ===================================================== stopped exponents

namespace Exponent

/-- Two integers are not on different sides of zero. -/
def OneSided (a b : Int) : Prop := 0 ≤ a ∧ 0 ≤ b ∨ a ≤ 0 ∧ b ≤ 0

/-- Stopping at the ends of the range, as arithmetic knows it. -/
theorem val_clamp (n : Int) :
    (clamp n).val = Max.max (-2147483648) (min n 2147483647) := by
  unfold clamp
  by_cases hlow : n < -2147483648
  · rw [dif_pos hlow]
    show (-2147483648 : Int) = _
    omega
  · rw [dif_neg hlow]
    by_cases hhigh : 2147483647 < n
    · rw [dif_pos hhigh]
      show (2147483647 : Int) = _
      omega
    · rw [dif_neg hhigh]
      show n = _
      omega

/-- On one side of zero it makes no difference where a sum is
stopped. -/
theorem addClamped_clamp {a b : Int} (h : OneSided a b) :
    (clamp a).addClamped (clamp b) = clamp (a + b) := by
  unfold OneSided at h
  apply ext
  unfold addClamped
  rw [val_clamp, val_clamp, val_clamp, val_clamp]
  omega

/-- The exponent of a power. Its size is stopped at the end of the range
first, and then the sign of `n` is taken into account. -/
def scaleClamped (e n : Exponent) : Exponent :=
  if n.val < 0 then (clamp (e.val * n.val.natAbs)).negClamped
  else clamp (e.val * n.val.natAbs)

theorem scaleClamped_zero (e : Exponent) : e.scaleClamped 0 = 0 := by
  unfold scaleClamped
  rw [val_zero, if_neg (by decide), Int.natAbs_zero, Nat.cast_zero,
    mul_zero]
  rfl

/-- Once is the exponent itself. -/
theorem scaleClamped_one (e : Exponent) : e.scaleClamped 1 = e := by
  unfold scaleClamped
  rw [val_one, if_neg (by decide), Int.natAbs_one, Nat.cast_one, mul_one,
    clamp_val]

theorem zero_scaleClamped (n : Exponent) :
    (0 : Exponent).scaleClamped n = 0 := by
  unfold scaleClamped
  rw [val_zero, zero_mul]
  exact ite_self _

/-- Only the least exponent is missed, and only by a negative power,
which comes one short of it. -/
theorem scaleClamped_eq {e n exact : Exponent}
    (h : exact.val = e.val * n.val) :
    e.scaleClamped n
      = if n.val < 0 ∧ exact = least then exact.addClamped 1
        else exact := by
  have hrange := exact.inRange_val
  have hleast : exact = least ↔ exact.val = -2147483648 := val_inj.symm
  unfold InRange at hrange
  apply ext
  unfold scaleClamped
  by_cases hsign : n.val < 0
  · have hsize : e.val * (n.val.natAbs : Int) = -exact.val := by
      rw [Int.ofNat_natAbs_of_nonpos hsign.le, mul_neg, h]
    rw [if_pos hsign, hsize]
    unfold negClamped addClamped
    rw [val_clamp, val_clamp]
    by_cases hend : exact = least
    · have hval := hleast.1 hend
      rw [if_pos ⟨hsign, hend⟩, val_clamp, val_one]
      omega
    · have hval := mt hleast.2 hend
      rw [if_neg (fun hboth => hend hboth.2)]
      omega
  · have hsize : e.val * (n.val.natAbs : Int) = exact.val := by
      rw [Int.natAbs_of_nonneg (by omega), h]
    rw [if_neg hsign, if_neg (fun hboth => hsign hboth.1), hsize,
      clamp_val]

end Exponent

-- ========================================================= powers of ten

namespace Scientific

open Exponent (clamp OneSided)

/-- A mantissa of one is left as it is. -/
theorem ofParts_one (e : Exponent) : ofParts 1.0 e = ⟨1.0, e⟩ := by
  have hshift : pointShift 1.0 = 0 := by decide +kernel
  have hscale : scaleBy 1.0 (-0) = 1.0 := by decide +kernel
  have hlow : ¬ ((1.0 : Float).abs < 1.0) := by decide +kernel
  have hhigh : ¬ (10.0 ≤ (1.0 : Float).abs) := by decide +kernel
  have hsnap : snap ⟨1.0, e⟩ = ⟨1.0, e⟩ := by
    have hten : ¬ (((1.0 : Float).abs - 10.0).abs < 10.0 * snapWidth) := by
      decide +kernel
    have hone : ((1.0 : Float).abs - 1.0).abs < snapWidth := by
      decide +kernel
    have hunit : unitLike 1.0 = 1.0 := by decide +kernel
    unfold snap
    rw [if_neg hten, if_pos hone, hunit]
  have hstay : e.addClamped (clamp 0) = e := by
    unfold Exponent.addClamped
    rw [Exponent.val_clamp_of_inRange (by decide), Int.add_zero,
      Exponent.clamp_val]
  unfold ofParts
  rw [if_neg (by decide), if_neg (by decide)]
  simp only [hshift, hscale, hstay, hsnap]
  unfold settle lower raise
  rw [if_neg hhigh, if_neg hlow]

/-- Of the powers of ten one is the one with exponent zero. -/
theorem isOne_ten {e : Exponent} :
    isOne ⟨1.0, e⟩ = true ↔ e = 0 := by
  have hmantissa : ((1.0 : Float) == 1.0) = true := by decide +kernel
  unfold isOne
  simp [hmantissa]

/-- Powers of ten are multiplied by adding their exponents. -/
theorem mul_ten (a b : Exponent) :
    mul ⟨1.0, a⟩ ⟨1.0, b⟩ = ⟨1.0, a.addClamped b⟩ := by
  have hmantissa : (1.0 : Float) * 1.0 = 1.0 := by decide +kernel
  unfold mul
  by_cases ha : a = 0
  · rw [if_pos (isOne_ten.2 ha), ha]
    unfold Exponent.addClamped
    rw [Exponent.val_zero, Int.zero_add, Exponent.clamp_val]
  · rw [if_neg (mt isOne_ten.1 ha)]
    by_cases hb : b = 0
    · rw [if_pos (isOne_ten.2 hb), hb]
      unfold Exponent.addClamped
      rw [Exponent.val_zero, Int.add_zero, Exponent.clamp_val]
    · rw [if_neg (mt isOne_ten.1 hb)]
      simp only [hmantissa]
      exact ofParts_one _

/-- A power of ten is turned over by negating its exponent. -/
theorem inverse_ten (e : Exponent) :
    inverse ⟨1.0, e⟩ = .ok ⟨1.0, e.negClamped⟩ := by
  have hmantissa : (1.0 : Float) / 1.0 = 1.0 := by decide +kernel
  have hzero : ¬ isZero ⟨1.0, e⟩ = true := by
    show ¬ ((1.0 : Float) == 0.0) = true
    decide +kernel
  unfold inverse
  rw [if_neg hzero]
  by_cases he : e = 0
  · rw [if_pos (isOne_ten.2 he), he]
    rfl
  · rw [if_neg (mt isOne_ten.1 he)]
    simp only [hmantissa]
    rw [ofParts_one]

/-- What repeated squaring makes of powers of ten. The exponents `a` and
`b` are those that accumulator and base would have without the ends of
the range. -/
theorem mulPower_ten {a b : Int} (h : OneSided a b) (n : Nat) :
    mulPower ⟨1.0, clamp b⟩ ⟨1.0, clamp a⟩ n
      = ⟨1.0, clamp (a + b * n)⟩ := by
  induction n using Nat.strong_induction_on generalizing a b with
  | _ n ih =>
    rw [mulPower]
    by_cases hn : n = 0
    · subst hn
      rw [if_pos rfl, Nat.cast_zero, mul_zero, add_zero]
    · rw [if_neg hn]
      -- one bit moves from the count to the accumulator
      have hacc : (if n % 2 = 1 then
          mul ⟨1.0, clamp a⟩ ⟨1.0, clamp b⟩ else ⟨1.0, clamp a⟩)
            = ⟨1.0, clamp (a + b * (n % 2 : Nat))⟩ := by
        rcases Nat.mod_two_eq_zero_or_one n with hbit | hbit
        · simp [hbit]
        · simp [hbit, mul_ten, Exponent.addClamped_clamp h]
      have hsquare : mul ⟨1.0, clamp b⟩ ⟨1.0, clamp b⟩
          = ⟨1.0, clamp (2 * b)⟩ := by
        have hsame : OneSided b b := by
          unfold OneSided
          omega
        rw [mul_ten, Exponent.addClamped_clamp hsame, ← two_mul]
      have hbits : (n : Int) = (n % 2 : Nat) + 2 * (n / 2 : Nat) := by
        omega
      have htotal : a + b * n
          = a + b * (n % 2 : Nat) + 2 * b * (n / 2 : Nat) := by
        rw [hbits]
        push_cast
        ring
      simp only [hacc]
      by_cases hlast : n / 2 = 0
      · rw [if_pos hlast, htotal, hlast, Nat.cast_zero, mul_zero, add_zero]
      · rw [if_neg hlast, hsquare, htotal]
        refine ih (n / 2) (by omega) ?_
        rcases Nat.mod_two_eq_zero_or_one n with hbit | hbit
        · rw [hbit]
          unfold OneSided at h ⊢
          omega
        · rw [hbit]
          unfold OneSided at h ⊢
          omega

/-- Every power of a power of ten is there. -/
theorem pow_ten (e n : Exponent) :
    pow ⟨1.0, e⟩ n = .ok ⟨1.0, e.scaleClamped n⟩ := by
  have hpower : mulPower ⟨1.0, e⟩ one n.val.natAbs
      = ⟨1.0, clamp (e.val * n.val.natAbs)⟩ := by
    have hone : OneSided 0 e.val := by
      unfold OneSided
      omega
    have hstart := mulPower_ten hone n.val.natAbs
    rw [Exponent.clamp_val, zero_add] at hstart
    exact hstart
  have hzero : ¬ isZero ⟨1.0, e⟩ = true := by
    show ¬ ((1.0 : Float) == 0.0) = true
    decide +kernel
  unfold pow
  by_cases hnone : n = 0
  · rw [if_pos hnone, hnone, Exponent.scaleClamped_zero]
    rfl
  · rw [if_neg hnone]
    by_cases hself : n = 1 ∨ isOne ⟨1.0, e⟩ = true
    · rw [if_pos hself]
      rcases hself with hn | hone
      · rw [hn, Exponent.scaleClamped_one]
      · rw [isOne_ten.1 hone, Exponent.zero_scaleClamped]
    · rw [if_neg hself, if_neg hzero, hpower, inverse_ten]
      unfold Exponent.scaleClamped
      split
      · rfl
      · rfl

-- ==================================================== many factors

/-- A number multiplied by itself over and over; none of it is one. -/
def repeated (x : Scientific) : Nat → Scientific
  | 0 => one
  | count + 1 => (repeated x count).mul x

theorem repeated_ten (e : Exponent) (count : Nat) :
    repeated ⟨1.0, e⟩ count = ⟨1.0, clamp (e.val * count)⟩ := by
  induction count with
  | zero =>
    rw [Nat.cast_zero, mul_zero]
    rfl
  | succ count ih =>
    have hsided : OneSided (e.val * count) e.val := by
      unfold OneSided
      rcases le_total 0 e.val with h | h
      · exact .inl ⟨Int.mul_nonneg h (by omega), h⟩
      · exact .inr ⟨Int.mul_nonpos_of_nonpos_of_nonneg h (by omega), h⟩
    have hsum := Exponent.addClamped_clamp hsided
    rw [Exponent.clamp_val] at hsum
    rw [repeated, ih, mul_ten, hsum, Nat.cast_succ, mul_add, mul_one]

/-- The product of as many factors as `n` says, each of them `x`, or its
reciprocal if `n` is negative. -/
def manyTimes (x : Scientific) (n : Exponent) : Except Fault Scientific :=
  if n.val < 0 then x.inverse.map (repeated · n.val.natAbs)
  else .ok (repeated x n.val.natAbs)

/-- Multiplied factor by factor, a power of ten is exact. -/
theorem manyTimes_ten {e n exact : Exponent}
    (he : Exponent.InRange (-e.val)) (h : exact.val = e.val * n.val) :
    manyTimes ⟨1.0, e⟩ n = .ok ⟨1.0, exact⟩ := by
  have hneg : e.negClamped.val = -e.val := Exponent.val_clamp_of_inRange he
  unfold manyTimes
  by_cases hsign : n.val < 0
  · have hsize : -e.val * (n.val.natAbs : Int) = e.val * n.val := by
      rw [Int.ofNat_natAbs_of_nonpos hsign.le, neg_mul_neg]
    rw [if_pos hsign, inverse_ten]
    show Except.ok (repeated _ _) = _
    rw [repeated_ten, hneg, hsize, ← h, Exponent.clamp_val]
  · have hsize : e.val * (n.val.natAbs : Int) = e.val * n.val := by
      rw [Int.natAbs_of_nonneg (by omega)]
    rw [if_neg hsign, repeated_ten, hsize, ← h, Exponent.clamp_val]

end Scientific

-- ============================================================== prefixes

namespace SIPrefix

open Exponent (InRange least)

/-- The factor of a prefix is a power of ten, with nothing rounded. -/
theorem factor_eq (p : SIPrefix) :
    (p.factor : Scientific) = ⟨1.0, p.power⟩ :=
  Scientific.ofParts_one p.power

/-- The powers that are stopped on their way to the least exponent. -/
def FallsShort (p : SIPrefix) (n : Exponent) : Prop :=
  (p = deca ∧ n.val = -2147483648) ∨ (p = hecto ∧ n.val = -1073741824)

instance (p : SIPrefix) (n : Exponent) : Decidable (FallsShort p n) :=
  inferInstanceAs (Decidable (_ ∨ _))

/-- These are the negative powers with the least exponent: no other
prefix above one stands for a power of two of tens. -/
theorem fallsShort_iff {p : SIPrefix} {n exact : Exponent}
    (h : exact.val = p.power.val * n.val) :
    p.FallsShort n ↔ n.val < 0 ∧ exact = least := by
  have hleast : exact = least ↔ exact.val = -2147483648 :=
    Exponent.val_inj.symm
  have hother (hdeca : p ≠ deca) (hhecto : p ≠ hecto) :
      p.power.val ≤ 0 ∨ 3 ∣ p.power.val := by
    revert hdeca hhecto
    cases p <;> decide
  unfold FallsShort
  rw [hleast]
  by_cases hdeca : p = deca
  · subst hdeca
    have hpower : deca.power.val = 1 := rfl
    rw [hpower] at h
    simp
    omega
  · by_cases hhecto : p = hecto
    · subst hhecto
      have hpower : hecto.power.val = 2 := rfl
      rw [hpower] at h
      simp
      omega
    · simp only [hdeca, hhecto, false_and, or_false, false_iff, not_and]
      intro hsign hend
      rcases hother hdeca hhecto with hsmall | hthree
      · have := Int.mul_nonneg_of_nonpos_of_nonpos hsmall hsign.le
        omega
      · have hdivides : 3 ∣ exact.val := h ▸ hthree.mul_right n.val
        omega

end SIPrefix

open Exponent (InRange)

/-- Powers of prefixes are exact. The factor of a prefix, multiplied by
itself as often as `n` says, is the power of ten with the product of the
exponents, if that is in range, and its mantissa is one. So is the
power, but for two: the least power of `deca` and half the least power
of `hecto` come out ten times too great. -/
theorem factor_pow_iff (p : SIPrefix) (n : Exponent)
    (h : InRange (p.power.val * n.val)) :
    ∃ exact : Exponent, exact.val = p.power.val * n.val
      ∧ Scientific.manyTimes p.factor n = .ok ⟨1.0, exact⟩
      ∧ (Scientific.pow p.factor n = .ok ⟨1.0, exact⟩ ↔
          ¬ p.FallsShort n)
      ∧ (p.FallsShort n →
          Scientific.pow p.factor n = .ok ⟨1.0, exact.addClamped 1⟩) := by
  have hturned : InRange (-p.power.val) := by
    cases p <;> decide
  obtain ⟨exact, hexact⟩ : ∃ exact : Exponent,
      exact.val = p.power.val * n.val := ⟨⟨_, h.1, h.2⟩, rfl⟩
  have hshort := SIPrefix.fallsShort_iff hexact
  rw [p.factor_eq, Scientific.manyTimes_ten hturned hexact,
    Scientific.pow_ten, Exponent.scaleClamped_eq hexact]
  refine ⟨exact, hexact, rfl, ?_, ?_⟩
  · by_cases hcase : p.FallsShort n
    · have hnext : exact.addClamped 1 ≠ exact := by
        rw [(hshort.1 hcase).2]
        decide
      rw [if_pos (hshort.1 hcase)]
      simp [hnext, hcase]
    · rw [if_neg (mt hshort.2 hcase)]
      simp [hcase]
  · intro hcase
    rw [if_pos (hshort.1 hcase)]

/-- Half the greatest exponent and one, as a power of a hundredth, is
the least exponent. -/
theorem factor_pow_iff_centi :
    InRange (SIPrefix.centi.power.val * (1073741824 : Exponent).val)
      ∧ Scientific.pow SIPrefix.centi.factor 1073741824
        = .ok ⟨1.0, .least⟩ := by
  have hrange : InRange (SIPrefix.centi.power.val
      * (1073741824 : Exponent).val) := by decide
  obtain ⟨exact, hexact, -, hpow, -⟩ :=
    factor_pow_iff .centi 1073741824 hrange
  obtain rfl : exact = .least := Exponent.ext hexact
  exact ⟨hrange, hpow.2 (by decide)⟩

/-- The least power of `deca` comes out ten times too great. -/
theorem deca_pow_least :
    SIPrefix.deca.power.val * Exponent.least.val = Exponent.least.val
      ∧ InRange (SIPrefix.deca.power.val * Exponent.least.val)
      ∧ Scientific.manyTimes SIPrefix.deca.factor .least
        = .ok ⟨1.0, .least⟩
      ∧ Scientific.pow SIPrefix.deca.factor .least
        = .ok ⟨1.0, { val := -2147483647 }⟩ := by
  refine ⟨by decide, by decide, ?_, ?_⟩
  · have hproduct : Exponent.least.val
        = SIPrefix.deca.power.val * Exponent.least.val := by decide
    rw [SIPrefix.factor_eq]
    exact Scientific.manyTimes_ten (by decide) hproduct
  · have hexponent : SIPrefix.deca.power.scaleClamped .least
        = { val := -2147483647 } := by decide +kernel
    rw [SIPrefix.factor_eq, Scientific.pow_ten, hexponent]

end UnitAlgebra
