/-
The leading places of doubles. The leading place of a number other than
zero is where its first binary digit stands, and it says within a factor
of two how great the number is (`Between`).

# What operations do to it

Multiplying adds leading places and dividing subtracts them, up to one
place, and rounding may carry into one place more (`between_mul`,
`between_div`). So whole computations can be bounded by adding up
integers, and what stays between -1021 and 1023 overflows nowhere and
loses no digits.

This holds in the range of normal numbers, where rounding leaves the
full length of 53 digits (`between_round`) and storing changes nothing
(`stored_finite`). What goes in may be shorter than that: the first
factor of a product may be any double but zero.

Rounding is done in two steps, and both are followed here. The first
cuts to 53 digits and may carry into one more
(`log2_roundedMantissa`); the second takes away the digit that a carry
has added (`exists_round`), so in the end the length is always 53.

# What comparing tells

Of two numbers the greater has no lesser leading place
(`totalExponent_le_of_compare`). Comparing with one and with ten thus
tells the leading place up to the width of one decimal digit, and that
is all that is taken from a comparison.
-/
import UnitAlgebra.Proofs.Comparing

namespace UnitAlgebra

namespace Double

open Float.Model (UnpackedFloat Format totalExponent)
open Float.Model.UnpackedFloat

/-- A finite number other than zero whose leading place lies from `low`
to `high`. -/
def Between (low high : Int) (x : Float) : Prop :=
  ∃ s m e h, x.toModel.unpack = .finite s m e h
    ∧ low ≤ totalExponent m e ∧ totalExponent m e ≤ high

section

variable {low high low' high' : Int} {x : Float}

/-- Bounds may be given away. -/
theorem Between.mono (h : Between low high x) (hlow : low' ≤ low)
    (hhigh : high ≤ high') : Between low' high' x := by
  obtain ⟨s, m, e, hm, hx, hleast, hgreatest⟩ := h
  exact ⟨s, m, e, hm, hx, hlow.trans hleast, hgreatest.trans hhigh⟩

/-- What has a leading place is finite. Bounds on leading places are the
way in which whole computations are shown to stay finite. -/
theorem Between.isFinite (h : Between low high x) : x.isFinite = true := by
  obtain ⟨s, m, e, hm, hx, -⟩ := h
  show x.toModel.unpack.isFinite = true
  rw [hx]
  rfl

/-- What has a leading place is not zero, so the tests for zero go the
other way. -/
theorem Between.ne_zero (h : Between low high x) : ¬ (x == 0.0) = true := by
  obtain ⟨s, m, e, hm, hx, -⟩ := h
  rw [beq_iff, hx]
  rintro ⟨⟩

/-- The bounds as they stand in the definition of the leading place. -/
theorem Between.leading_bounds (h : Between low high x) :
    low ≤ leading x.toModel.unpack
      ∧ leading x.toModel.unpack ≤ high := by
  obtain ⟨s, m, e, hm, hx, hbounds⟩ := h
  rw [hx]
  exact hbounds

/-- A finite number other than zero has a leading place. -/
theorem between_leading (hfinite : x.isFinite = true)
    (hzero : (x == 0.0) = false) :
    Between (leading x.toModel.unpack) (leading x.toModel.unpack) x := by
  obtain ⟨s, m, e, hm, hx⟩ := exists_finite hfinite hzero
  rw [hx]
  exact ⟨s, m, e, hm, hx, le_rfl, le_rfl⟩

/-- Nothing else has one. -/
theorem between_of_leading_ne (h : leading x.toModel.unpack ≠ 0) :
    Between (leading x.toModel.unpack) (leading x.toModel.unpack) x := by
  cases hx : x.toModel.unpack with
  | notANumber =>
    rw [hx] at h
    exact absurd rfl h
  | infinity s =>
    rw [hx] at h
    exact absurd rfl h
  | zero s =>
    rw [hx] at h
    exact absurd rfl h
  | finite s m e hm => exact ⟨s, m, e, hm, hx, le_rfl, le_rfl⟩

end

-- ====================================================== what is stored

/-- A number of full length is stored as it is. -/
theorem stored_finite {s : Sign} {m : Nat} {e : Int} {h : 0 < m}
    (hm : m.log2 = 52) (hlow : -1074 ≤ e) (hhigh : e ≤ 971) :
    stored (.finite s m e h) = .finite s m e h := by
  obtain ⟨hleast, hgreatest⟩ := (Nat.log2_eq_iff h.ne').1 hm
  have hroom : ¬ 2 ^ Format.binary64.exponentBits
      ≤ (e + Format.binary64.exponentBias
          + Format.binary64.mantissaBitsWithoutImplicit).toNat + 1 := by
    show ¬ 2048 ≤ (e + 1023 + 52).toNat + 1
    omega
  have hbiased : (BitVec.ofNat Format.binary64.exponentBits
      (e + Format.binary64.exponentBias
        + Format.binary64.mantissaBitsWithoutImplicit).toNat).toNat
        = (e + 1075).toNat := by
    show (e + 1023 + 52).toNat % 2048 = _
    omega
  have hmantissa : (1#1 ++ BitVec.ofNat
      Format.binary64.mantissaBitsWithoutImplicit m).toNat = m := by
    rw [BitVec.toNat_append]
    show 1 <<< 52 ||| m % 2 ^ 52 = m
    rw [← Nat.shiftLeft_add_eq_or_of_lt
      (Nat.mod_lt _ (Nat.two_pow_pos 52))]
    omega
  -- from here on the exponent is some field of bits with this value
  generalize hexponent : BitVec.ofNat Format.binary64.exponentBits
      (e + Format.binary64.exponentBias
        + Format.binary64.mantissaBitsWithoutImplicit).toNat = biased
    at hbiased
  have hones : biased ≠ -1#_ := by
    intro hones
    rw [hones] at hbiased
    change 2047 = (e + 1075).toNat at hbiased
    omega
  have hnone : biased ≠ 0#_ := by
    intro hnone
    rw [hnone] at hbiased
    change 0 = (e + 1075).toNat at hbiased
    omega
  show unpack _ (pack _ _) = _
  unfold pack
  dsimp only
  rw [if_neg hroom, if_pos (by rw [hm]; rfl), hexponent]
  unfold unpack
  simp only [unpackMantissa_packComponents, unpackExponent_packComponents,
    unpackSign_packComponents, Sign.ofBitVec_toBitVec, if_neg hones,
    if_neg hnone, hmantissa, hbiased]
  congr 1
  show ((e + 1075).toNat : Int) - (1023 + 52) = e
  omega

/-- What is in the bits of a double is stored as it is. -/
theorem stored_unpack (x : Float) :
    stored x.toModel.unpack = x.toModel.unpack :=
  congrArg (unpack Format.binary64) (pack_unpack_of_valid x.toModel.valid)

/-- The magnitude of a double is stored as it is, too. -/
theorem unpack_abs (x : Float) :
    x.abs.toModel.unpack = x.toModel.unpack.abs := by
  have hself := stored_unpack x
  show stored x.toModel.unpack.abs = _
  cases hx : x.toModel.unpack with
  | notANumber => rfl
  | infinity s => exact stored_infinity _
  | zero s => exact stored_zero _
  | finite s m e hm =>
    rw [hx] at hself
    cases s with
    | positive => exact hself
    | negative =>
      have hneg := stored_neg (.finite .negative m e hm)
      rw [hself] at hneg
      exact hneg

section

variable {bits : BitVec Format.binary64.numBits} {s : Sign} {m : Nat}
  {e : Int} {h : 0 < m} (hbits : unpack .binary64 bits = .finite s m e h)

include hbits

/-- The two kinds of finite numbers: those at the least exponent, with
the mantissa as it is in the bits, and those with one more digit in
front of it. -/
theorem fields_of_unpack :
    bits.toNat / 2 ^ 52 % 2 ^ 11 = 0 ∧ m = bits.toNat % 2 ^ 52
        ∧ e = -1074
      ∨ 0 < bits.toNat / 2 ^ 52 % 2 ^ 11
        ∧ m = 2 ^ 52 + bits.toNat % 2 ^ 52
        ∧ e = (bits.toNat / 2 ^ 52 % 2 ^ 11 : Nat) - 1075 := by
  have hexponent : (unpackExponent bits).toNat
      = bits.toNat / 2 ^ 52 % 2 ^ 11 := by
    show bits.toNat >>> 52 % 2 ^ 11 = _
    rw [Nat.shiftRight_eq_div_pow]
  rw [← hexponent]
  unfold unpack at hbits
  dsimp only at hbits
  split at hbits
  · split at hbits <;> cases hbits
  · split at hbits
    · next hzero =>
      split at hbits
      · cases hbits
      · cases hbits
        rw [hzero]
        exact .inl ⟨rfl, rfl, by decide⟩
    · next hzero =>
      cases hbits
      refine .inr ⟨Nat.pos_of_ne_zero fun hnone =>
        hzero (BitVec.eq_of_toNat_eq hnone), ?_, rfl⟩
      rw [BitVec.toNat_append]
      show 1 <<< 52 ||| bits.toNat % 2 ^ 52 = _
      rw [← Nat.shiftLeft_add_eq_or_of_lt
        (Nat.mod_lt _ (Nat.two_pow_pos 52))]
      rfl

/-- A double has 53 digits, or fewer of them at the least exponent. -/
theorem shape_of_unpack :
    m.log2 ≤ 52 ∧ -1074 ≤ e ∧ (m.log2 = 52 ∨ e = -1074) := by
  rcases fields_of_unpack hbits with ⟨-, rfl, rfl⟩ | ⟨hpos, rfl, rfl⟩
  · have hlength := (Nat.log2_lt h.ne').2
      (Nat.mod_lt bits.toNat (Nat.two_pow_pos 52))
    exact ⟨hlength.le, by decide, .inr rfl⟩
  · have hlength : (2 ^ 52 + bits.toNat % 2 ^ 52).log2 = 52 := by
      rw [Nat.log2_eq_iff h.ne']
      omega
    exact ⟨hlength.le, by omega, .inl hlength⟩

end

-- ============================================================= rounding

/-- Rounding never takes anything away from the digits that are kept. -/
theorem le_roundedMantissa (x : ExtendedMantissa) :
    x.mantissa ≤ x.roundedMantissa := by
  obtain ⟨m, round, sticky⟩ := x
  cases round <;> cases sticky
  · exact Nat.le_refl m
  · exact Nat.le_refl m
  · exact Nat.le_add_right m _
  · exact Nat.le_succ m

/-- Cutting off binary digits shortens a number by as many. -/
theorem log2_div_two_pow (m k : Nat) : (m / 2 ^ k).log2 = m.log2 - k := by
  rw [Nat.log2_eq_log_two, Nat.log2_eq_log_two, Nat.log_div_base_pow]

section

variable {s : Sign} {m : Nat} {e : Int} (accuracy : Accuracy)
  (hlong : 52 ≤ m.log2) (hnormal : -1021 ≤ totalExponent m e)

include hlong hnormal

/-- The first rounding cuts to 53 digits and adds one at most. -/
theorem log2_roundedMantissa :
    52 ≤ (shiftToTargetExponent .binary64 m e
        accuracy).1.roundedMantissa.log2
      ∧ (shiftToTargetExponent .binary64 m e
        accuracy).1.roundedMantissa.log2 ≤ 53 := by
  have htotal : totalExponent m e = m.log2 + 1 + e := rfl
  have htarget := target_eq m e
  have hcut : (shiftToTargetExponent .binary64 m e
      accuracy).1.mantissa.log2 = 52 := by
    rw [mantissa_shiftToTargetExponent, log2_div_two_pow]
    omega
  have hleast := log2_le_log2 (le_roundedMantissa
    (shiftToTargetExponent .binary64 m e accuracy).1)
  have hgreatest := (log2_le_log2 (roundedMantissa_le
    (shiftToTargetExponent .binary64 m e accuracy).1)).trans
    (log2_succ_le _)
  omega

/-- The second rounding takes away the digit that a carry has added. -/
theorem exists_round :
    ∃ n h, roundWithAccuracy .binary64 s m e accuracy
        = .finite s n (totalExponent m e - 105
          + (shiftToTargetExponent .binary64 m e
            accuracy).1.roundedMantissa.log2) h
      ∧ n.log2 = 52 := by
  have hlength := log2_roundedMantissa accuracy hlong hnormal
  have htotal : totalExponent m e = m.log2 + 1 + e := rfl
  have htarget := target_eq m e
  have hexponent := exponent_shiftToTargetExponent m e accuracy
  generalize hfirst : (shiftToTargetExponent .binary64 m e accuracy).1
    = first at hlength ⊢
  have htarget' := target_eq first.roundedMantissa (max e (target m e))
  have hmantissa' := mantissa_shiftToTargetExponent first.roundedMantissa
    (max e (target m e)) .exact
  have hexponent' := exponent_shiftToTargetExponent first.roundedMantissa
    (max e (target m e)) .exact
  generalize hsecond : shiftToTargetExponent .binary64
    first.roundedMantissa (max e (target m e)) .exact = second
    at hmantissa' hexponent'
  have hfull : second.1.mantissa.log2 = 52 := by
    rw [hmantissa', log2_div_two_pow]
    omega
  have hpositive : 0 < second.1.mantissa := by
    refine Nat.pos_of_ne_zero fun hzero => ?_
    rw [hzero, Nat.log2_zero] at hfull
    omega
  have hplace : second.2
      = totalExponent m e - 105 + first.roundedMantissa.log2 := by
    omega
  refine ⟨second.1.mantissa, hpositive, ?_, hfull⟩
  unfold roundWithAccuracy
  simp only [hexponent, hfirst, hsecond, dif_neg hpositive.ne', hplace]

/-- A long number is rounded to full length. Its leading digit stays
where it is, or is carried into the next place. -/
theorem between_round (hhigh : totalExponent m e ≤ 1023) :
    Between (totalExponent m e) (totalExponent m e + 1)
      (.ofModel (.pack (roundWithAccuracy .binary64 s m e accuracy))) := by
  have hlength := log2_roundedMantissa accuracy hlong hnormal
  obtain ⟨n, h, hround, hfull⟩ := exists_round (s := s) accuracy hlong
    hnormal
  generalize (shiftToTargetExponent .binary64 m e
    accuracy).1.roundedMantissa.log2 = length at hlength hround
  refine ⟨s, n, totalExponent m e - 105 + length, h, ?_, ?_, ?_⟩
  · show stored _ = _
    rw [hround, stored_finite hfull (by omega) (by omega)]
  · show totalExponent m e
      ≤ (n.log2 : Int) + 1 + (totalExponent m e - 105 + length)
    omega
  · show (n.log2 : Int) + 1 + (totalExponent m e - 105 + length) ≤ _
    omega

end

-- ============================================================ comparing

/-- The order of doubles in terms of what they unpack to. -/
theorem le_iff {x y : Float} :
    x ≤ y ↔ (x.toModel.unpack.compare y.toModel.unpack).any
      (·.isLE) = true := by
  show decide (x.toModel.unpack.le y.toModel.unpack = true) = true ↔ _
  rw [decide_eq_true_iff]
  rfl

/-- Of two doubles of one sign, the one that compares as the greater has
no lesser leading place. -/
theorem totalExponent_le_of_compare {bits bits' : BitVec _}
    {s t : Sign} {m n : Nat} {e f : Int} {hm : 0 < m} {hn : 0 < n}
    (hx : unpack .binary64 bits = .finite s m e hm)
    (hy : unpack .binary64 bits' = .finite t n f hn)
    (h : ((compare e f).then (compare m n)).isLE = true) :
    totalExponent m e ≤ totalExponent n f := by
  obtain ⟨hlength, hleast, -⟩ := shape_of_unpack hx
  obtain ⟨-, -, hshape⟩ := shape_of_unpack hy
  show (m.log2 : Int) + 1 + e ≤ n.log2 + 1 + f
  rcases lt_trichotomy e f with hlt | rfl | hgt
  · omega
  · rw [Int.compare_eq_eq.2 rfl, Ordering.eq_then,
      Nat.isLE_compare] at h
    have hmono := log2_le_log2 h
    omega
  · rw [Int.compare_eq_gt.2 hgt] at h
    cases h

section

variable {low high : Int} {x y : Float} {n : Nat} {f : Int} {hn : 0 < n}
  (hx : Between low high x)
  (hy : y.toModel.unpack = .finite .positive n f hn)

include hx hy

/-- A number that compares as less has no greater leading place. -/
theorem Between.of_abs_lt (h : x.abs < y) :
    Between low (totalExponent n f) x := by
  obtain ⟨s, m, e, hm, hx, hleast, -⟩ := hx
  rw [lt_iff, unpack_abs, hx, hy] at h
  refine ⟨s, m, e, hm, hx, hleast, totalExponent_le_of_compare hx hy ?_⟩
  rw [Option.some.inj h]
  rfl

/-- A number that does not compare as less has no lesser leading place.
-/
theorem Between.of_le_abs (h : y ≤ x.abs) :
    Between (totalExponent n f) high x := by
  obtain ⟨s, m, e, hm, hx, -, hgreatest⟩ := hx
  rw [le_iff, unpack_abs, hx, hy] at h
  exact ⟨s, m, e, hm, hx, totalExponent_le_of_compare hy hx h, hgreatest⟩

end

-- =============================================== products and quotients

/-- Lengths add up in a product, but for a carry. -/
theorem log2_mul_bounds {a b : Nat} (ha : a ≠ 0) (hb : b ≠ 0) :
    a.log2 + b.log2 ≤ (a * b).log2
      ∧ (a * b).log2 ≤ a.log2 + b.log2 + 1 := by
  have hne : a * b ≠ 0 := Nat.mul_ne_zero ha hb
  constructor
  · rw [Nat.le_log2 hne, Nat.pow_add]
    exact Nat.mul_le_mul (Nat.log2_self_le ha) (Nat.log2_self_le hb)
  · refine Nat.le_of_lt_succ ((Nat.log2_lt hne).2 ?_)
    calc a * b < 2 ^ (a.log2 + 1) * 2 ^ (b.log2 + 1) :=
          Nat.mul_lt_mul'' Nat.lt_log2_self Nat.lt_log2_self
      _ = 2 ^ (a.log2 + b.log2 + 1).succ := by
          rw [← Nat.pow_add]
          congr 1
          omega

/-- Lengths are subtracted in a quotient, but for a borrow. It takes a
dividend that is the longer one, which the division sees to by shifting.
-/
theorem log2_le_log2_div {a b : Nat} (hb : b ≠ 0)
    (h : b.log2 < a.log2) : a.log2 ≤ (a / b).log2 + b.log2 + 1 := by
  have ha : a ≠ 0 := by
    rintro rfl
    rw [Nat.log2_zero] at h
    omega
  have hpower : 2 ^ (a.log2 - b.log2 - 1) ≤ a / b := by
    rw [Nat.le_div_iff_mul_le (Nat.pos_of_ne_zero hb)]
    calc 2 ^ (a.log2 - b.log2 - 1) * b
        ≤ 2 ^ (a.log2 - b.log2 - 1) * 2 ^ (b.log2 + 1) :=
          Nat.mul_le_mul_left _ Nat.lt_log2_self.le
      _ = 2 ^ a.log2 := by
          rw [← Nat.pow_add]
          congr 1
          omega
      _ ≤ a := Nat.log2_self_le ha
  have hlength := log2_le_log2 hpower
  rw [Nat.log2_two_pow] at hlength
  omega

/-- Places that are moved in at the end count as places. -/
theorem log2_shiftLeft {a : Nat} (ha : a ≠ 0) (k : Nat) :
    (a <<< k).log2 = a.log2 + k := by
  refine le_antisymm (log2_shiftLeft_le a k) ?_
  have hlength := (log2_mul_bounds ha (Nat.two_pow_pos k).ne').1
  rw [Nat.log2_two_pow] at hlength
  rw [Nat.shiftLeft_eq]
  exact hlength

section

variable {low high low' high' : Int} {x y : Float}
  (hx : Between low high x) (hy : Between low' high' y)

include hx hy

/-- A product has a leading place near the sum of those of its
factors. -/
theorem between_mul (hnormal : -1021 ≤ low')
    (hlow : -1021 ≤ low + low' - 1) (hhigh : high + high' ≤ 1023) :
    Between (low + low' - 1) (high + high' + 1) (x * y) := by
  obtain ⟨s, m, e, hm, hx, hleast, hgreatest⟩ := hx
  obtain ⟨t, n, f, hn, hy, hleast', hgreatest'⟩ := hy
  have hlength := log2_mul_bounds hm.ne' hn.ne'
  have hshape := shape_of_unpack hy
  have htotal : totalExponent m e = m.log2 + 1 + e := rfl
  have htotal' : totalExponent n f = n.log2 + 1 + f := rfl
  have hproduct : totalExponent (m * n) (e + f)
    = (m * n).log2 + 1 + (e + f) := rfl
  show Between _ _ (.ofModel (.pack (UnpackedFloat.mul .binary64 _ _)))
  rw [hx, hy]
  exact (between_round _ (by omega) (by omega) (by omega)).mono (by omega)
    (by omega)

/-- A quotient has a leading place near the difference of those of its
parts. -/
theorem between_div (hlow : -1021 ≤ low - high')
    (hhigh : high - low' + 1 ≤ 1023) :
    Between (low - high') (high - low' + 2) (x / y) := by
  obtain ⟨s, m, e, hm, hx, hleast, hgreatest⟩ := hx
  obtain ⟨t, n, f, hn, hy, hleast', hgreatest'⟩ := hy
  have htotal : totalExponent m e = m.log2 + 1 + e := rfl
  have htotal' : totalExponent n f = n.log2 + 1 + f := rfl
  have hplace := exponent_divCore m e n f
  generalize hp : (divCore .binary64 m e n f).2.1 = p at hplace
  have hquotient : (divCore .binary64 m e n f).1
      = m <<< (e - f - p).toNat / n := by
    rw [← hp]
    rfl
  -- the dividend is shifted until its quotient has 53 digits
  have hshifted := log2_shiftLeft hm.ne' (e - f - p).toNat
  have hlonger := log2_le_log2_div (a := m <<< (e - f - p).toNat) hn.ne'
    (by omega)
  have hshorter := log2_div_add_log2_le
    (a := m <<< (e - f - p).toNat) (b := n) (by
      intro hzero
      rw [hzero, Nat.log2_zero] at hlonger
      omega)
  have hround := between_round (s := s / t)
    (m := m <<< (e - f - p).toNat / n) (e := p)
    (divCore .binary64 m e n f).2.2
  have hresult : totalExponent (m <<< (e - f - p).toNat / n) p
    = (m <<< (e - f - p).toNat / n).log2 + 1 + p := rfl
  show Between _ _ (.ofModel (.pack (UnpackedFloat.div .binary64 _ _)))
  rw [hx, hy]
  show Between _ _ (.ofModel (.pack (roundWithAccuracy .binary64 (s / t)
    (divCore .binary64 m e n f).1 (divCore .binary64 m e n f).2.1
    (divCore .binary64 m e n f).2.2)))
  rw [hquotient, hp]
  exact (hround (by omega) (by omega) (by omega)).mono (by omega)
    (by omega)

end

end Double

end UnitAlgebra
