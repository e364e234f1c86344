/-
Doubles, as far as they are compared and divided by themselves. Two
doubles compare as equal when they are the same infinity, two zeros of
any sign or the same finite number (`Double.Same`, `Double.beq_iff`).
NaN equals nothing, so this is an equality of all numbers but those that
are none: symmetric and transitive, and reflexive away from NaN. Written
terms are merged by that equality, and quantities are compared with it.

A number divided by itself is one, exactly, because the quotient of the
mantissas leaves nothing to round (`Double.divCore_self`). That asks for
a finite number other than zero; an infinity divided by itself is NaN.

# How doubles are opened

A double is unpacked into a sign, a mantissa and an exponent, or into
one of the three other kinds of number, and an operation on doubles is
the operation on what is unpacked, rounded and packed again. The proofs
here stay on the unpacked side. They look at the kinds first
(`exists_finite`), and only the quotient looks at mantissas.

The last part says the same of numbers in scientific notation, where it
is the identity of a conversion: what goes into itself once is finite
and not zero (`exists_div_self`), and the two ways in which this fails
are apart (`div_self_of_isZero`, `exists_div_self_of_not_isFinite`).
-/
import UnitAlgebra.Scalar

namespace UnitAlgebra

namespace Double

open Float.Model (UnpackedFloat)

-- ============================================================ comparing

/-- What comparing finds equal: the same infinity, two zeros of any
sign, the same finite number. -/
inductive Same : UnpackedFloat → UnpackedFloat → Prop where
  | infinity (s : UnpackedFloat.Sign) : Same (.infinity s) (.infinity s)
  | zero (s t : UnpackedFloat.Sign) : Same (.zero s) (.zero t)
  | finite (s : UnpackedFloat.Sign) (m : Nat) (e : Int) (h : 0 < m) :
      Same (.finite s m e h) (.finite s m e h)

/-- Equality of doubles is symmetric and transitive whatever they are;
only reflexivity asks for more. -/
theorem Same.symm {u v : UnpackedFloat} (h : Same u v) : Same v u := by
  cases h with
  | infinity s => exact .infinity s
  | zero s t => exact .zero t s
  | finite s m e h => exact .finite s m e h

theorem Same.trans {u v w : UnpackedFloat} (h : Same u v)
    (h' : Same v w) : Same u w := by
  cases h with
  | infinity s => exact h'
  | zero s t =>
    cases h' with
    | zero _ t' => exact .zero s t'
  | finite s m e h => exact h'

/-- What equals something is a number. This is where reflexivity stops.
-/
theorem Same.isNaN {u v : UnpackedFloat} (h : Same u v) :
    u.isNaN = false := by
  cases h with
  | infinity s => rfl
  | zero s t => rfl
  | finite s m e h => rfl

/-- Finiteness goes from one side of an equality to the other. -/
theorem Same.isFinite {u v : UnpackedFloat} (h : Same u v)
    (hv : v.isFinite = true) : u.isFinite = true := by
  cases h with
  | infinity s => exact hv
  | zero s t => rfl
  | finite s m e h => rfl

/-- Numbers of one sign compare by exponent and then by mantissa. -/
theorem compare_then_eq_iff {e f : Int} {m n : Nat} :
    (compare e f).then (compare m n) = .eq ↔ e = f ∧ m = n := by
  rw [Ordering.then_eq_eq, Std.compare_eq_iff_eq, Std.compare_eq_iff_eq]

/-- The case analysis of a comparison, made once: it says equal for the
same infinity, two zeros or the same finite number. -/
theorem compare_eq_iff {u v : UnpackedFloat} :
    u.compare v = some .eq ↔ Same u v := by
  constructor
  · intro h
    cases u with
    | notANumber => cases h
    | infinity s =>
      cases v with
      | notANumber => cases s <;> cases h
      | infinity t =>
        cases s <;> cases t <;> first | exact .infinity _ | cases h
      | zero t => cases s <;> cases h
      | finite t m e hm => cases s <;> cases h
    | zero s =>
      cases v with
      | notANumber => cases h
      | infinity t => cases t <;> cases h
      | zero t => exact .zero s t
      | finite t m e hm => cases t <;> cases h
    | finite s m e hm =>
      cases v with
      | notANumber => cases s <;> cases h
      | infinity t => cases s <;> cases t <;> cases h
      | zero t => cases s <;> cases h
      | finite t n f hn =>
        cases s with
        | negative =>
          cases t with
          | negative =>
            -- below zero the magnitudes are compared the other way
            have hsame := Ordering.swap_eq_eq.1 (Option.some.inj h)
            obtain ⟨rfl, rfl⟩ := compare_then_eq_iff.1 hsame
            exact .finite _ _ _ _
          | positive => cases h
        | positive =>
          cases t with
          | negative => cases h
          | positive =>
            have hsame := Option.some.inj h
            obtain ⟨rfl, rfl⟩ := compare_then_eq_iff.1 hsame
            exact .finite _ _ _ _
  · intro h
    cases h with
    | infinity s => cases s <;> rfl
    | zero s t => rfl
    | finite s m e h =>
      have hsame : (compare e e).then (compare m m) = .eq :=
        compare_then_eq_iff.2 ⟨rfl, rfl⟩
      cases s with
      | negative => exact congrArg some (Ordering.swap_eq_eq.2 hsame)
      | positive => exact congrArg some hsame

/-- The same for doubles as they are stored. -/
theorem beq_iff {a b : Float} :
    (a == b) = true ↔ Same a.toModel.unpack b.toModel.unpack := by
  rw [← compare_eq_iff]
  show (_ == some Ordering.eq) = true ↔ _
  exact beq_iff_eq

instance partialEquivBEq : PartialEquivBEq Float where
  symm h := beq_iff.2 (beq_iff.1 h).symm
  trans h h' := beq_iff.2 ((beq_iff.1 h).trans (beq_iff.1 h'))

-- ============================================================= dividing

/-- A finite double other than zero has a sign, a mantissa and an
exponent. Most proofs about one start here. -/
theorem exists_finite {a : Float} (hfinite : a.isFinite = true)
    (hzero : (a == 0.0) = false) :
    ∃ s m e h, a.toModel.unpack = .finite s m e h := by
  have hother : ¬ Same a.toModel.unpack (.zero .positive) := by
    rw [show UnpackedFloat.zero .positive
      = (0.0 : Float).toModel.unpack from rfl, ← beq_iff, hzero]
    exact Bool.false_ne_true
  change a.toModel.unpack.isFinite = true at hfinite
  cases h : a.toModel.unpack with
  | notANumber =>
    rw [h] at hfinite
    cases hfinite
  | infinity s =>
    rw [h] at hfinite
    cases hfinite
  | zero s =>
    rw [h] at hother
    exact absurd (.zero s _) hother
  | finite s m e hm => exact ⟨s, m, e, hm, rfl⟩

section

open Float.Model Float.Model.UnpackedFloat

/-- The quotient of a number by itself is `2 ^ 53` units of `2 ^ -53`,
and nothing is left over. -/
theorem divCore_self (m : Nat) (e : Int) (hm : 0 < m) :
    divCore Format.binary64 m e m e = (1 <<< 53, -53, .exact) := by
  have htarget : min (e - e) (Format.binary64.targetExponent
      (totalExponent m e - totalExponent m e)) = -53 := by
    rw [Int.sub_self, Int.sub_self]
    decide
  unfold divCore
  rw [htarget]
  simp [Nat.shiftLeft_eq, accuracyOfFraction, Nat.mul_div_cancel_left _ hm]

/-- What is left to round is one, in a sign over itself. -/
theorem div_finite_self (s : Sign) (m : Nat) (e : Int) (hm : 0 < m) :
    UnpackedFloat.div Format.binary64 (.finite s m e hm)
        (.finite s m e hm)
      = roundWithAccuracy Format.binary64 (s / s) (1 <<< 53) (-53)
          .exact := by
  show (let quotient := divCore Format.binary64 m e m e
    roundWithAccuracy Format.binary64 (s / s) quotient.1 quotient.2.1
      quotient.2.2) = _
  rw [divCore_self m e hm]

end

/-- A finite number other than zero, divided by itself, is one, and not
one up to rounding. -/
theorem div_self_eq_one {a : Float} (hfinite : a.isFinite = true)
    (hzero : (a == 0.0) = false) : a / a = 1.0 := by
  obtain ⟨s, m, e, hm, h⟩ := exists_finite hfinite hzero
  show Float.ofModel (.pack (UnpackedFloat.div _ _ _)) = 1.0
  rw [h, div_finite_self]
  cases s with
  | negative => decide +kernel
  | positive => decide +kernel

/-- What is not finite has no quotient by itself. -/
theorem isNaN_div_self {a : Float} (h : a.isFinite = false) :
    (a / a).isNaN = true := by
  have hnothing :
      (Float.ofModel (.pack .notANumber)).isNaN = true := by decide +kernel
  change a.toModel.unpack.isFinite = false at h
  show (Float.ofModel (.pack (UnpackedFloat.div _ _ _))).isNaN = true
  cases hunpack : a.toModel.unpack with
  | notANumber => exact hnothing
  | infinity s => exact hnothing
  | zero s =>
    rw [hunpack] at h
    cases h
  | finite s m e hm =>
    rw [hunpack] at h
    cases h

/-- NaN equals nothing, itself included. -/
theorem beq_eq_false_of_isNaN {a : Float} (h : a.isNaN = true)
    (b : Float) : (a == b) = false := by
  rw [Bool.eq_false_iff, ne_eq, beq_iff]
  intro hsame
  exact absurd h (Bool.eq_false_iff.1 hsame.isNaN)

theorem isFinite_eq_false_of_isNaN {a : Float} (h : a.isNaN = true) :
    a.isFinite = false := by
  change a.toModel.unpack.isNaN = true at h
  show a.toModel.unpack.isFinite = false
  generalize a.toModel.unpack = u at h ⊢
  cases u with
  | notANumber => rfl
  | infinity s => cases h
  | zero s => cases h
  | finite s m e hm => cases h

/-- What equals a finite number is finite. -/
theorem isFinite_of_beq {a b : Float} (h : (a == b) = true)
    (hb : b.isFinite = true) : a.isFinite = true :=
  (beq_iff.1 h).isFinite hb

end Double

-- =================================================== scientific notation

namespace Scientific

instance partialEquivBEq : PartialEquivBEq Scientific where
  symm {x y} h := by
    obtain ⟨hmantissa, hexponent⟩ := Bool.and_eq_true_iff.1 h
    exact Bool.and_eq_true_iff.2
      ⟨BEq.symm hmantissa, BEq.symm hexponent⟩
  trans {x y z} h h' := by
    obtain ⟨hmantissa, hexponent⟩ := Bool.and_eq_true_iff.1 h
    obtain ⟨hmantissa', hexponent'⟩ := Bool.and_eq_true_iff.1 h'
    exact Bool.and_eq_true_iff.2
      ⟨BEq.trans hmantissa hmantissa', BEq.trans hexponent hexponent'⟩

theorem ofFloat_one : ofFloat 1.0 = one := by
  have hmantissa : (ofFloat 1.0).mantissa = 1.0 := by decide +kernel
  have hexponent : (ofFloat 1.0).exponent = 0 := by decide +kernel
  cases hone : ofFloat 1.0 with
  | mk mantissa exponent =>
    rw [hone] at hmantissa hexponent
    rw [show mantissa = 1.0 from hmantissa,
      show exponent = 0 from hexponent]
    rfl

/-- What is one is not zero. -/
theorem isZero_of_isOne {x : Scientific} (h : x.isOne = true) :
    x.isZero = false := by
  obtain ⟨hone, -⟩ := Bool.and_eq_true_iff.1 h
  rw [Bool.eq_false_iff]
  intro hzero
  have himpossible : ((1.0 : Float) == 0.0) = true :=
    BEq.trans (BEq.symm hone) hzero
  exact absurd himpossible (by decide)

-- ====================================================== divided by itself

theorem subClamped_self (e : Exponent) : e.subClamped e = 0 := by
  unfold Exponent.subClamped
  rw [Int.sub_self]
  exact Exponent.clamp_val 0

/-- Zero does not go into itself. -/
theorem div_self_of_isZero {x : Scientific} (h : x.isZero = true) :
    x.div x = .error .divisionByZero := by
  unfold div
  rw [if_pos h]

/-- A finite number other than zero goes into itself once. -/
theorem exists_div_self {x : Scientific}
    (hfinite : x.mantissa.isFinite = true) (hzero : x.isZero = false) :
    ∃ ratio, x.div x = .ok ratio ∧ ratio.isOne = true := by
  unfold div
  rw [hzero, if_neg Bool.false_ne_true]
  by_cases hone : x.isOne = true
  · rw [if_pos hone]
    exact ⟨x, rfl, hone⟩
  · rw [if_neg hone, Double.div_self_eq_one hfinite hzero, subClamped_self]
    refine ⟨_, rfl, ?_⟩
    rw [show ofParts 1.0 0 = one from ofFloat_one]
    rfl

/-- What is not finite goes into itself, and what comes of it is no
number. -/
theorem exists_div_self_of_not_isFinite {x : Scientific}
    (h : x.mantissa.isFinite = false) :
    ∃ ratio, x.div x = .ok ratio ∧ ratio.mantissa.isNaN = true := by
  have hother : ∀ b : Float, b.isFinite = true →
      ¬ (x.mantissa == b) = true := by
    intro b hb hsame
    rw [Double.isFinite_of_beq hsame hb] at h
    cases h
  have hzero : ¬ x.isZero = true := hother 0.0 (by decide)
  have hone : ¬ x.isOne = true := by
    intro hone
    exact hother 1.0 (by decide) (Bool.and_eq_true_iff.1 hone).1
  have hnothing := Double.isNaN_div_self h
  unfold div ofParts
  rw [if_neg hzero, if_neg hone,
    Double.beq_eq_false_of_isNaN hnothing, if_neg Bool.false_ne_true,
    Double.isFinite_eq_false_of_isNaN hnothing, if_pos Bool.false_ne_true]
  exact ⟨_, rfl, hnothing⟩

end Scientific

end UnitAlgebra
