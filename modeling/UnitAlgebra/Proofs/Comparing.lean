/-
Comparing within a tolerance, in both directions. Two numbers are lined
up on one power of ten and subtracted; a difference below the tolerance
makes them equal, a positive one greater, and any other one less.

# Exchanging the two numbers

- They line up on the same power (`commonPower_comm`).
- The difference changes its sign and nothing else: rounding treats both
  signs alike (`round_neg`), so the two differences are each other's
  negation, or zeros (`Opposite`).
- This takes both lined-up doubles to be finite. They are, because a
  number is only ever moved down, by divisions that cannot overflow
  (`isFinite_scaleBy`).

`Opposite` is the invariant: it passes from exact differences to rounded
ones and to stored ones (`Opposite.sub`, `Opposite.stored`), and it
answers what the verdict asks of a difference: the magnitude is the same
and the sign is exchanged.

# Where it fails

The verdict is reversed when the numbers are exchanged, unless both
differences are zero and the tolerance does not make that equal. Then
the verdict falls through to less, both ways (`FallsThrough`), and a
number comes out less than itself. Two zeros never get there, since they
are told apart first. `compareWithin_consistent_iff` says that nothing
else goes wrong.
-/
import UnitAlgebra.Measure
import UnitAlgebra.Proofs.Rounding

namespace UnitAlgebra

namespace Double

open Float.Model (UnpackedFloat)
open Float.Model.UnpackedFloat

-- ============================================================ differences

/-- A number and its negation, or two zeros of any sign. -/
inductive Opposite : UnpackedFloat → UnpackedFloat → Prop where
  | zeros (s t : Sign) : Opposite (.zero s) (.zero t)
  | negated {u : UnpackedFloat} (h : u.isNaN = false) : Opposite u u.neg

/-- Rounding knows no direction: ties go to the even neighbour, so the
sign passes through. -/
theorem round_neg (s : Sign) (m : Nat) (e : Int) :
    UnpackedFloat.round .binary64 (-s) m e = (UnpackedFloat.round .binary64 s m e).neg := by
  unfold UnpackedFloat.round roundWithAccuracy
  dsimp only
  split <;> rfl

theorem isNaN_round (s : Sign) (m : Nat) (e : Int) :
    (UnpackedFloat.round .binary64 s m e).isNaN = false := by
  unfold UnpackedFloat.round roundWithAccuracy
  dsimp only
  split <;> rfl

/-- The exact difference of two lined-up numbers is an integer times a
power of two. Exchanging the numbers negates the integer; a difference
of zero is the positive zero both times. -/
theorem opposite_normalize (n e : Int) :
    Opposite (UnpackedFloat.normalize .binary64 n e .positive)
      (UnpackedFloat.normalize .binary64 (-n) e .positive) := by
  unfold UnpackedFloat.normalize
  rcases lt_trichotomy n 0 with hneg | hzero | hpos
  · rw [Int.compare_eq_lt.2 hneg, Int.compare_eq_gt.2 (by omega)]
    show Opposite _ (UnpackedFloat.round .binary64 (-.negative) (-n).toNat e)
    rw [round_neg]
    exact .negated (isNaN_round ..)
  · rw [hzero]
    exact .zeros _ _
  · rw [Int.compare_eq_gt.2 hpos, Int.compare_eq_lt.2 (by omega),
      Int.neg_neg]
    show Opposite _ (UnpackedFloat.round .binary64 (-.positive) n.toNat e)
    rw [round_neg]
    exact .negated (isNaN_round ..)

namespace Opposite

variable {u v : UnpackedFloat}

/-- Differences the two ways round, before they are stored. -/
theorem sub (hu : u.isFinite = true) (hv : v.isFinite = true) :
    Opposite (UnpackedFloat.sub .binary64 u v)
      (UnpackedFloat.sub .binary64 v u) := by
  cases u with
  | notANumber => cases hu
  | infinity s => cases hu
  | zero s =>
    cases v with
    | notANumber => cases hv
    | infinity t => cases hv
    | zero t => cases s <;> cases t <;> exact .zeros _ _
    | finite t n f hn =>
      cases t
      · exact .negated rfl
      · exact .negated rfl
  | finite s m e hm =>
    cases v with
    | notANumber => cases hv
    | infinity t => cases hv
    | zero t => exact .negated rfl
    | finite t n f hn =>
      -- the only case that rounds: the mantissas are lined up on one
      -- exponent either way, and their difference changes its sign
      have hnormalize := opposite_normalize
        (s.apply (decreaseExponent m e (min e f)).1
          - t.apply (decreaseExponent n f (min e f)).1) (min e f)
      rw [Int.neg_sub] at hnormalize
      show Opposite (UnpackedFloat.normalize .binary64 _ (min e f) .positive)
        (UnpackedFloat.normalize .binary64
          (t.apply (decreaseExponent n f (min f e)).1
            - s.apply (decreaseExponent m e (min f e)).1) (min f e)
          .positive)
      rw [min_comm f e]
      exact hnormalize

/-- Storing keeps numbers opposite, also when both overflow. -/
theorem stored (h : Opposite u v) : Opposite (stored u) (stored v) := by
  cases h with
  | zeros s t =>
    rw [stored_zero, stored_zero]
    exact .zeros s t
  | negated h =>
    rw [stored_neg]
    exact .negated (isNaN_stored h)

/-- Of opposite numbers none is a NaN, so every comparison below has an
answer. -/
theorem isNaN (h : Opposite u v) : u.isNaN = false := by
  cases h with
  | zeros s t => rfl
  | negated h => exact h

/-- Only a zero is opposite to itself. -/
theorem eq_zero (h : Opposite u v) (heq : v = u) : ∃ s, u = .zero s := by
  cases h with
  | zeros s t => exact ⟨s, rfl⟩
  | negated h =>
    cases u with
    | notANumber => cases h
    | zero s => exact ⟨s, rfl⟩
    | infinity s => cases s <;> cases heq
    | finite s m e hm => cases s <;> cases heq

/-- The tolerance is compared with the magnitude, which is the same both
ways. -/
theorem abs_eq (h : Opposite u v) : v.abs = u.abs := by
  cases h with
  | zeros s t => rfl
  | negated h => cases u <;> rfl

/-- One is above zero when the other is below. -/
theorem compare_eq_lt_iff (h : Opposite u v) :
    (UnpackedFloat.zero .positive).compare v = some .lt
      ↔ u.compare (.zero .positive) = some .lt := by
  cases h with
  | zeros s t => exact Iff.rfl
  | negated h =>
    cases u with
    | notANumber => cases h
    | zero s => exact Iff.rfl
    | infinity s => cases s <;> exact Iff.rfl
    | finite s m e hm => cases s <;> exact Iff.rfl

end Opposite

/-- The order of doubles in terms of what they unpack to. -/
theorem lt_iff {a b : Float} :
    a < b ↔ a.toModel.unpack.compare b.toModel.unpack = some .lt := by
  show decide (a.toModel.unpack.lt b.toModel.unpack = true) = true ↔ _
  rw [decide_eq_true_iff]
  exact beq_iff_eq

/-- Subtraction the two ways round, on stored doubles. -/
theorem opposite_sub {a b : Float} (ha : a.isFinite = true)
    (hb : b.isFinite = true) :
    Opposite (a - b).toModel.unpack (b - a).toModel.unpack :=
  (Opposite.sub (u := a.toModel.unpack) ha hb).stored

/-- A difference of a number from itself compares equal to zero. It is
what makes a number fall through. -/
theorem sub_self_beq {a : Float} (ha : a.isFinite = true) :
    (a - a == 0.0) = true := by
  obtain ⟨s, hzero⟩ := (opposite_sub ha ha).eq_zero rfl
  rw [beq_iff, hzero]
  exact .zero s .positive

-- ================================================================= signs

/-- A number is positive, negative or zero. -/
theorem sign_cases {d : Float} (h : d.toModel.unpack.isNaN = false) :
    (0.0 < d ∧ ¬ d < 0.0 ∧ ¬ (d == 0.0) = true)
      ∨ (¬ 0.0 < d ∧ d < 0.0 ∧ ¬ (d == 0.0) = true)
      ∨ (¬ 0.0 < d ∧ ¬ d < 0.0 ∧ (d == 0.0) = true) := by
  have hzero : (0.0 : Float).toModel.unpack = .zero .positive := rfl
  rw [lt_iff, lt_iff, beq_iff, ← compare_eq_iff, hzero]
  cases hd : d.toModel.unpack with
  | notANumber =>
    rw [hd] at h
    cases h
  | infinity s => cases s <;> decide
  | zero s => cases s <;> decide
  | finite s m e hm => cases s <;> simp [UnpackedFloat.compare]

section

variable {d d' : Float}
  (h : Opposite d.toModel.unpack d'.toModel.unpack)

include h

/-- So both ways the tolerance decides alike. -/
theorem abs_eq_of_opposite : d'.abs = d.abs := by
  show Float.ofModel (.pack _) = Float.ofModel (.pack _)
  rw [h.abs_eq]

/-- One of two opposite numbers is positive when the other is
negative. -/
theorem pos_iff_of_opposite : 0.0 < d' ↔ d < 0.0 := by
  rw [lt_iff, lt_iff]
  exact h.compare_eq_lt_iff

end

/-- The magnitude of a zero is the positive zero. -/
theorem abs_eq_zero {d : Float} (h : (d == 0.0) = true) : d.abs = 0.0 := by
  have hsame := beq_iff.1 h
  rw [show (0.0 : Float).toModel.unpack = .zero .positive from rfl] at hsame
  show Float.ofModel (.pack d.toModel.unpack.abs) = 0.0
  generalize d.toModel.unpack = u at hsame
  cases hsame with
  | zero s => rfl

end Double

namespace Scientific

-- =========================================================== lining up

/-- A number lined up on a power of ten. -/
def alignedTo (power : Exponent) (z : Scientific) : Float :=
  scaleBy z.mantissa (z.exponent.subClamped power).val

/-- The difference of two numbers lined up on their common power. -/
def gap (x y : Scientific) : Float :=
  alignedTo (commonPower x y) x - alignedTo (commonPower x y) y

/-- What a difference says within a tolerance. -/
def verdict (tolerance difference : Float) : Ordering :=
  if difference.abs < tolerance then .eq
  else if 0.0 < difference then .gt
  else .lt

/-- The branch that looks at no tolerance: two zeros are equal. -/
theorem compareWithin_of_zeros {x y : Scientific} (tolerance : Float)
    (h : x.isZero = true ∧ y.isZero = true) :
    compareWithin tolerance x y = .eq :=
  if_pos h

/-- Every other comparison is the verdict on one difference. -/
theorem compareWithin_eq_verdict {x y : Scientific} (tolerance : Float)
    (h : ¬ (x.isZero = true ∧ y.isZero = true)) :
    compareWithin tolerance x y = verdict tolerance (gap x y) :=
  if_neg h

/-- Both orders line up on the same power, but for two zeros. -/
theorem commonPower_comm {x y : Scientific}
    (h : ¬ (x.isZero = true ∧ y.isZero = true)) :
    commonPower y x = commonPower x y := by
  unfold commonPower
  by_cases hx : x.isZero = true
  · have hy : ¬ y.isZero = true := fun hy => h ⟨hx, hy⟩
    rw [if_pos hx, if_neg hy, if_pos hx]
  · rw [if_neg hx, if_neg hx]
    by_cases hy : y.isZero = true
    · rw [if_pos hy, if_pos hy]
    · rw [if_neg hy, if_neg hy]
      unfold Exponent.max
      by_cases hlt : x.exponent.val < y.exponent.val
      · rw [if_pos hlt, if_neg (by omega)]
      · rw [if_neg hlt]
        by_cases hgt : y.exponent.val < x.exponent.val
        · rw [if_pos hgt]
        · rw [if_neg hgt]
          exact Exponent.ext (by omega)

/-- A number that is not zero is lined up on no lesser power than its
own. -/
theorem exponent_le_commonPower (x y : Scientific) :
    x.isZero = true ∨ x.exponent.val ≤ (commonPower x y).val := by
  unfold commonPower Exponent.max
  by_cases hx : x.isZero = true
  · exact .inl hx
  · rw [if_neg hx]
    refine .inr ?_
    split
    · exact Int.le_refl _
    · split <;> omega

/-- Clamping does not turn a step to the left into one to the right. -/
theorem val_subClamped_nonpos {a b : Exponent} (h : a.val ≤ b.val) :
    (a.subClamped b).val ≤ 0 := by
  unfold Exponent.subClamped Exponent.clamp
  split
  · decide
  · split
    · omega
    · show a.val - b.val ≤ 0
      omega

/-- Lining up only moves a number down, to a power no less than its own,
so it stays finite. For a zero the power does not matter. -/
theorem isFinite_alignedTo {power : Exponent} {z : Scientific}
    (hz : z.mantissa.isFinite = true)
    (h : z.isZero = true ∨ z.exponent.val ≤ power.val) :
    (alignedTo power z).isFinite = true := by
  unfold alignedTo
  rcases h with hzero | hle
  · have hstays : scaleBy z.mantissa (z.exponent.subClamped power).val
        = z.mantissa := by
      unfold scaleBy
      exact if_pos (.inr (.inl hzero))
    rw [hstays]
    exact hz
  · exact isFinite_scaleBy hz (val_subClamped_nonpos hle)

-- ============================================================= verdicts

section

variable {x y : Scientific}

/-- Exchanging the numbers turns their difference over. -/
theorem opposite_gap (hx : x.mantissa.isFinite = true)
    (hy : y.mantissa.isFinite = true)
    (h : ¬ (x.isZero = true ∧ y.isZero = true)) :
    Double.Opposite (gap x y).toModel.unpack (gap y x).toModel.unpack := by
  have hright := exponent_le_commonPower y x
  unfold gap
  rw [commonPower_comm h] at hright ⊢
  exact Double.opposite_sub
    (isFinite_alignedTo hx (exponent_le_commonPower x y))
    (isFinite_alignedTo hy hright)

end

/-- Opposite differences have opposite verdicts, unless they are zeros
that the tolerance does not cover. -/
theorem verdict_swap_iff {tolerance d d' : Float}
    (h : Double.Opposite d.toModel.unpack d'.toModel.unpack) :
    verdict tolerance d' = (verdict tolerance d).swap
      ↔ ¬ ((d == 0.0) = true ∧ ¬ 0.0 < tolerance) := by
  have hpositive := Double.pos_iff_of_opposite h
  unfold verdict
  rw [Double.abs_eq_of_opposite h]
  -- within the tolerance both are equal; beyond it the sign decides, and
  -- a zero has none
  by_cases hclose : d.abs < tolerance
  · rw [if_pos hclose, if_pos hclose]
    refine iff_of_true rfl fun hfalls => hfalls.2 ?_
    rw [Double.abs_eq_zero hfalls.1] at hclose
    exact hclose
  · rw [if_neg hclose, if_neg hclose]
    rcases Double.sign_cases h.isNaN with
      ⟨hpos, hneg, hzero⟩ | ⟨hpos, hneg, hzero⟩ | ⟨hpos, hneg, hzero⟩
    · rw [if_neg (hneg ∘ hpositive.1), if_pos hpos]
      exact iff_of_true rfl fun hfalls => hzero hfalls.1
    · rw [if_pos (hpositive.2 hneg), if_neg hpos]
      exact iff_of_true rfl fun hfalls => hzero hfalls.1
    · rw [if_neg (hneg ∘ hpositive.1), if_neg hpos]
      rw [Double.abs_eq_zero hzero] at hclose
      exact iff_of_false (by decide) (not_not.2 ⟨hzero, hclose⟩)

/-- The differences that count as none are those below the
tolerance. -/
theorem verdict_eq_iff {tolerance d : Float} :
    verdict tolerance d = .eq ↔ d.abs < tolerance := by
  unfold verdict
  by_cases hclose : d.abs < tolerance
  · rw [if_pos hclose]
    exact iff_of_true rfl hclose
  · rw [if_neg hclose]
    refine iff_of_false ?_ hclose
    split <;> decide

-- ============================================================ comparing

/-- Two numbers that are not both zero and have no difference, while the
tolerance is not above zero. None of the three verdicts is meant for
them; they get the last one. -/
def FallsThrough (tolerance : Float) (x y : Scientific) : Prop :=
  ¬ (x.isZero = true ∧ y.isZero = true)
    ∧ (gap x y == 0.0) = true ∧ ¬ 0.0 < tolerance

/-- A number equals itself within a tolerance above zero, and zero
equals itself within any. -/
theorem compareWithin_self_iff {x : Scientific}
    (hx : x.mantissa.isFinite = true) (tolerance : Float) :
    compareWithin tolerance x x = .eq
      ↔ x.isZero = true ∨ 0.0 < tolerance := by
  by_cases hzero : x.isZero = true
  · rw [compareWithin_of_zeros tolerance ⟨hzero, hzero⟩]
    exact iff_of_true rfl (.inl hzero)
  · have hgap : (gap x x == 0.0) = true := Double.sub_self_beq
      (isFinite_alignedTo hx (exponent_le_commonPower x x))
    rw [compareWithin_eq_verdict tolerance fun hboth => hzero hboth.1,
      verdict_eq_iff, Double.abs_eq_zero hgap]
    exact ⟨.inr, fun h => h.resolve_left hzero⟩

section

variable {x y : Scientific} (hx : x.mantissa.isFinite = true)
  (hy : y.mantissa.isFinite = true) (tolerance : Float)

include hx hy

/-- Exchanging two numbers reverses how they compare, unless they fall
through. -/
theorem compareWithin_swap_iff :
    compareWithin tolerance y x = (compareWithin tolerance x y).swap
      ↔ ¬ FallsThrough tolerance x y := by
  unfold FallsThrough
  by_cases hzero : x.isZero = true ∧ y.isZero = true
  · rw [compareWithin_of_zeros tolerance hzero,
      compareWithin_of_zeros tolerance hzero.symm]
    exact iff_of_true rfl fun hfalls => hfalls.1 hzero
  · rw [compareWithin_eq_verdict tolerance hzero,
      compareWithin_eq_verdict tolerance (hzero ∘ And.symm),
      verdict_swap_iff (opposite_gap hx hy hzero), and_iff_right hzero]

/-- Equality within a tolerance has no direction. -/
theorem equalWithin_comm :
    equalWithin tolerance y x = equalWithin tolerance x y := by
  have hsame : compareWithin tolerance y x = .eq
      ↔ compareWithin tolerance x y = .eq := by
    by_cases hzero : x.isZero = true ∧ y.isZero = true
    · rw [compareWithin_of_zeros tolerance hzero,
        compareWithin_of_zeros tolerance hzero.symm]
    · rw [compareWithin_eq_verdict tolerance hzero,
        compareWithin_eq_verdict tolerance (hzero ∘ And.symm),
        verdict_eq_iff, verdict_eq_iff,
        Double.abs_eq_of_opposite (opposite_gap hx hy hzero)]
  unfold equalWithin
  rw [Bool.eq_iff_iff, beq_iff_eq, beq_iff_eq, hsame]

end

/-- A number is equal to itself as soon as there is any tolerance. -/
theorem equalWithin_self_iff {x : Scientific}
    (hx : x.mantissa.isFinite = true) (tolerance : Float) :
    equalWithin tolerance x x = true
      ↔ x.isZero = true ∨ 0.0 < tolerance := by
  unfold equalWithin
  rw [beq_iff_eq, compareWithin_self_iff hx]

end Scientific

namespace Measure

/-- Measures with base forms are equal when their dimensions are, and
their factors within the tolerance. -/
theorem equalWithin_eq {m n : Measure} {left right : BaseForm Scientific}
    (hm : m.baseForm = some left) (hn : n.baseForm = some right)
    (tolerance : Float) :
    m.equalWithin tolerance n
      = .ok (decide (left.dimension = right.dimension)
          && left.factor.equalWithin tolerance right.factor) := by
  unfold equalWithin requireBase
  rw [hm, hn]
  rfl

end Measure

namespace Scientific

/-- Comparing is consistent wherever numbers do not fall through, and
only there. Equality has no direction, for numbers and for measures, and
everything equals itself within a tolerance above zero. -/
theorem compareWithin_consistent_iff {x y : Scientific}
    (hx : x.mantissa.isFinite = true) (hy : y.mantissa.isFinite = true)
    (tolerance : Float) :
    (compareWithin tolerance y x = (compareWithin tolerance x y).swap
        ↔ ¬ FallsThrough tolerance x y)
      ∧ (compareWithin tolerance x x = .eq
        ↔ x.isZero = true ∨ 0.0 < tolerance)
      ∧ equalWithin tolerance y x = equalWithin tolerance x y
      ∧ ∀ (m n : Measure) (d e : Dimension),
        m.baseForm = some ⟨x, d⟩ → n.baseForm = some ⟨y, e⟩ →
          n.equalWithin tolerance m = m.equalWithin tolerance n
          ∧ (m.equalWithin tolerance m = .ok true
            ↔ x.isZero = true ∨ 0.0 < tolerance) := by
  refine ⟨compareWithin_swap_iff hx hy tolerance,
    compareWithin_self_iff hx tolerance, equalWithin_comm hx hy tolerance,
    fun m n d e hm hn => ⟨?_, ?_⟩⟩
  · rw [Measure.equalWithin_eq hm hn, Measure.equalWithin_eq hn hm]
    dsimp only
    rw [equalWithin_comm hx hy, decide_eq_decide.2 eq_comm]
  · rw [Measure.equalWithin_eq hm hm]
    dsimp only
    rw [decide_eq_true rfl, Bool.true_and, Except.ok.injEq,
      equalWithin_self_iff hx]

/-- Three is less than thirty, and so thirty greater than three. -/
theorem compareWithin_consistent_iff_three :
    (3.0 : Float).isFinite = true
      ∧ compareWithin 1e-12 ⟨3.0, 0⟩ ⟨3.0, 1⟩ = .lt
      ∧ compareWithin 1e-12 ⟨3.0, 1⟩ ⟨3.0, 0⟩ = .gt
      ∧ compareWithin 1e-12 ⟨3.0, 0⟩ ⟨3.0, 0⟩ = .eq := by
  have hfinite : (3.0 : Float).isFinite = true := by decide +kernel
  have htolerance : (0.0 : Float) < 1e-12 := by decide +kernel
  have hless : compareWithin 1e-12 ⟨3.0, 0⟩ ⟨3.0, 1⟩ = .lt := by
    decide +kernel
  obtain ⟨hswap, hself, -, -⟩ := compareWithin_consistent_iff
    (x := ⟨3.0, 0⟩) (y := ⟨3.0, 1⟩) hfinite hfinite 1e-12
  have hgreater := hswap.2 fun hfalls => hfalls.2.2 htolerance
  rw [hless] at hgreater
  exact ⟨hfinite, hless, hgreater, hself.2 (.inr htolerance)⟩

/-- Without a tolerance one is less than itself, though its difference
from itself is zero. -/
theorem one_lt_one_without_tolerance :
    one.mantissa.isFinite = true ∧ (0.0 : Float).isFinite = true
      ∧ (0.0 : Float) ≤ 0.0
      ∧ compareWithin 0.0 one one = .lt
      ∧ compareWithin 0.0 one one ≠ .eq
      ∧ compareWithin 0.0 one one ≠ (compareWithin 0.0 one one).swap := by
  have hless : compareWithin 0.0 one one = .lt := by decide +kernel
  refine ⟨by decide +kernel, by decide +kernel, by decide +kernel, hless,
    ?_, ?_⟩
  · rw [hless]
    decide
  · rw [hless]
    decide

end Scientific

end UnitAlgebra
