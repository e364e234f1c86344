/-
Rounding of doubles, as far as it decides what is finite. A result is
computed as an exact mantissa with an exponent, rounded to the length of
a double and stored. Storing keeps sign and kind (`stored_neg`,
`isNaN_stored`), with one exception: an exponent over 971 leaves no room
and gives an infinity (`stored_finite_of_lt`).

# How far an exponent can go

It is told by the length of the mantissa, and three things can change
that:

- a quotient is as much shorter as its divisor is long (`log2_divCore`),
- rounding may carry into one digit more (`target_roundedMantissa_le`),
- and no double starts out longer than 1024 places
  (`leading_unpack_le`).

Together they leave every quotient by four or more finite
(`isFinite_div`), so that moving the point of a number to the left never
overflows (`isFinite_scaleBy`). The powers of ten that are divided by
are products of squares (`foldl_squares`), and there are few enough to
look at each.

The lemmas on the bits of a double that are built on here, such as
`unpackSign_packComponents`, stand in no smaller part of Mathlib, so
this module names the whole of it; all modules on doubles take them from
here.
-/
import Mathlib
import UnitAlgebra.Proofs.Doubles

namespace UnitAlgebra

namespace Double

open Float.Model (UnpackedFloat Format totalExponent)
open Float.Model.UnpackedFloat

-- ============================================================== storing

/-- An unpacked number as it comes back from its bits. -/
def stored (u : UnpackedFloat) : UnpackedFloat := (Float.Model.pack u).unpack

section

variable (s : Sign) (exponent : BitVec Format.binary64.exponentBits)
  (mantissa : BitVec Format.binary64.mantissaBitsWithoutImplicit)

/-- The bits of a number with the other sign are those of its
negation. -/
theorem unpack_packComponents_neg :
    unpack .binary64 (packComponents .binary64 (-s) exponent mantissa)
      = (unpack .binary64
          (packComponents .binary64 s exponent mantissa)).neg := by
  unfold unpack
  simp only [unpackMantissa_packComponents, unpackExponent_packComponents,
    unpackSign_packComponents, Sign.ofBitVec_toBitVec]
  split
  · split <;> rfl
  · split
    · split <;> rfl
    · rfl

variable {exponent}

/-- Bits are those of a finite number unless the exponent is all ones.
-/
theorem isFinite_unpack_packComponents (h : exponent ≠ -1#_) :
    (unpack .binary64
      (packComponents .binary64 s exponent mantissa)).isFinite = true := by
  unfold unpack
  simp only [unpackMantissa_packComponents, unpackExponent_packComponents,
    unpackSign_packComponents, if_neg h]
  split
  · split <;> rfl
  · rfl

end

/-- Infinities are stored as they are. -/
theorem stored_infinity (s : Sign) : stored (.infinity s) = .infinity s := by
  cases s <;> rfl

/-- Zeros are stored as they are, and keep their sign. -/
theorem stored_zero (s : Sign) : stored (.zero s) = .zero s := by
  cases s <;> rfl

/-- Storing treats both signs alike. -/
theorem stored_neg (u : UnpackedFloat) : stored u.neg = (stored u).neg := by
  cases u with
  | notANumber => rfl
  | infinity s => exact unpack_packComponents_neg s _ _
  | zero s => exact unpack_packComponents_neg s _ _
  | finite s m e h =>
    unfold stored Float.Model.pack Float.Model.unpack pack neg
    dsimp only
    split
    · exact unpack_packComponents_neg s _ _
    · split
      · exact unpack_packComponents_neg s _ _
      · exact unpack_packComponents_neg s _ _

/-- A number whose exponent is too great becomes an infinity. -/
theorem stored_finite_of_lt {s : Sign} {m : Nat} {e : Int} {h : 0 < m}
    (he : 971 < e) : stored (.finite s m e h) = .infinity s := by
  have hbias : 2 ^ Format.binary64.exponentBits
      ≤ (e + Format.binary64.exponentBias
          + Format.binary64.mantissaBitsWithoutImplicit).toNat + 1 := by
    show 2048 ≤ (e + 1023 + 52).toNat + 1
    omega
  have hpack : UnpackedFloat.pack .binary64 (.finite s m e h)
      = packedInfinity .binary64 s := by
    unfold pack
    dsimp only
    rw [if_pos hbias]
  show unpack _ (pack _ _) = _
  rw [hpack]
  exact stored_infinity s

/-- Up to the exponent 971 there is room, whatever the mantissa: longer
ones are cut off before they are stored. -/
theorem isFinite_stored {s : Sign} {m : Nat} {e : Int} {h : 0 < m}
    (he : e ≤ 971) : (stored (.finite s m e h)).isFinite = true := by
  have hroom : (e + 1023 + 52).toNat + 1 < 2048 := by omega
  have hbias : ¬ 2 ^ Format.binary64.exponentBits
      ≤ (e + Format.binary64.exponentBias
          + Format.binary64.mantissaBitsWithoutImplicit).toNat + 1 :=
    Nat.not_le_of_lt hroom
  show (unpack _ (pack _ _)).isFinite = true
  unfold pack
  dsimp only
  rw [if_neg hbias]
  split
  · refine isFinite_unpack_packComponents s _ fun hones => ?_
    have hvalue : (e + 1023 + 52).toNat % 2048 = 2047 :=
      congrArg BitVec.toNat hones
    omega
  · exact isFinite_unpack_packComponents s _ (by decide)

/-- Storing makes no NaN. -/
theorem isNaN_stored {u : UnpackedFloat} (h : u.isNaN = false) :
    (stored u).isNaN = false := by
  cases u with
  | notANumber => cases h
  | infinity s => rw [stored_infinity]; rfl
  | zero s => rw [stored_zero]; rfl
  | finite s m e hm =>
    by_cases he : e ≤ 971
    · have hfinite := isFinite_stored (s := s) (h := hm) he
      cases hstored : stored (.finite s m e hm) with
      | notANumber =>
        rw [hstored] at hfinite
        cases hfinite
      | infinity s => rfl
      | zero s => rfl
      | finite s m e h => rfl
    · rw [stored_finite_of_lt (by omega)]
      rfl

-- =========================================================== bit lengths

theorem log2_le_log2 {a b : Nat} (h : a ≤ b) : a.log2 ≤ b.log2 := by
  rw [Nat.log2_eq_log_two, Nat.log2_eq_log_two]
  exact Nat.log_mono_right h

/-- One more adds at most one place, when it carries all the way. -/
theorem log2_succ_le (a : Nat) : (a + 1).log2 ≤ a.log2 + 1 := by
  refine Nat.le_of_lt_succ ((Nat.log2_lt (Nat.succ_ne_zero a)).2 ?_)
  have hupper : a < 2 ^ (a.log2 + 1) := Nat.lt_log2_self
  have hdouble : 2 ^ (a.log2 + 1 + 1) = 2 * 2 ^ (a.log2 + 1) := Nat.pow_succ'
  show a + 1 < 2 ^ (a.log2 + 1 + 1)
  omega

/-- A quotient is as much shorter as its divisor is long. -/
theorem log2_div_add_log2_le {a b : Nat} (h : a / b ≠ 0) :
    (a / b).log2 + b.log2 ≤ a.log2 := by
  have hb : b ≠ 0 := fun hb => h (by rw [hb, Nat.div_zero])
  have ha : a ≠ 0 := fun ha => h (by rw [ha, Nat.zero_div])
  rw [Nat.le_log2 ha, Nat.pow_add]
  calc 2 ^ (a / b).log2 * 2 ^ b.log2
      ≤ a / b * b :=
        Nat.mul_le_mul (Nat.log2_self_le h) (Nat.log2_self_le hb)
    _ ≤ a := Nat.div_mul_le_self a b

/-- Places that are moved in at the end count as places. -/
theorem log2_shiftLeft_le (a k : Nat) : (a <<< k).log2 ≤ a.log2 + k := by
  rw [Nat.shiftLeft_eq]
  by_cases ha : a = 0
  · rw [ha, Nat.zero_mul, Nat.log2_zero]
    omega
  · have hne : a * 2 ^ k ≠ 0 := Nat.mul_ne_zero ha (Nat.two_pow_pos k).ne'
    refine Nat.le_of_lt_succ ((Nat.log2_lt hne).2 ?_)
    rw [show (a.log2 + k).succ = a.log2 + 1 + k by omega, Nat.pow_add]
    exact Nat.mul_lt_mul_of_pos_right Nat.lt_log2_self (Nat.two_pow_pos k)

-- ============================================================== rounding

/-- The bits that are kept, as a quotient. Guard and sticky bit do not
count among them. -/
theorem mantissa_shiftRight (x : ExtendedMantissa) (k : Nat) :
    (x >>> k).mantissa = x.mantissa / 2 ^ k := by
  induction k with
  | zero => exact (Nat.div_one _).symm
  | succ k ih =>
    show (x >>> k).mantissa / 2 = _
    rw [ih, Nat.div_div_eq_div_mul, Nat.pow_succ]

/-- Rounding adds one at most. -/
theorem roundedMantissa_le (x : ExtendedMantissa) :
    x.roundedMantissa ≤ x.mantissa + 1 := by
  obtain ⟨m, round, sticky⟩ := x
  cases round <;> cases sticky
  · exact Nat.le_succ m
  · exact Nat.le_succ m
  · show m + m % 2 ≤ m + 1
    omega
  · exact Nat.le_refl _

section

variable (m : Nat) (e : Int) (accuracy : Accuracy)

/-- Where the last digit of a number is put. -/
def target : Int := Format.binary64.targetExponent (totalExponent m e)

/-- A double keeps 53 places, and none below the least subnormal one. -/
theorem target_eq : target m e = max (m.log2 + e - 52) (-1074) := by
  show max ((m.log2 : Int) + 1 + e - 53) (-1074) = _
  congr 1
  omega

/-- What is left of the mantissa when it is brought to its length. -/
theorem mantissa_shiftToTargetExponent :
    (shiftToTargetExponent .binary64 m e accuracy).1.mantissa
      = m / 2 ^ (target m e - e).toNat := by
  unfold shiftToTargetExponent shiftToExponent
  dsimp only
  rw [mantissa_shiftRight]
  congr 1
  cases accuracy with
  | exact => rfl
  | inexact o => cases o <;> rfl

/-- A mantissa that is short already keeps its exponent. -/
theorem exponent_shiftToTargetExponent :
    (shiftToTargetExponent .binary64 m e accuracy).2
      = max e (target m e) := by
  show e + ((target m e - e).toNat : Int) = _
  omega

/-- Rounding moves the leading digit by no more than one place. -/
theorem target_roundedMantissa_le :
    target (shiftToTargetExponent .binary64 m e accuracy).1.roundedMantissa
        (max e (target m e))
      ≤ max e (max (m.log2 + e - 51) (-1074)) := by
  have hrounded := roundedMantissa_le
    (shiftToTargetExponent .binary64 m e accuracy).1
  rw [mantissa_shiftToTargetExponent] at hrounded
  have hlength := (log2_le_log2 hrounded).trans (log2_succ_le _)
  have hshift : (m / 2 ^ (target m e - e).toNat).log2
        + (target m e - e).toNat ≤ m.log2
      ∨ m / 2 ^ (target m e - e).toNat = 0 := by
    by_cases hzero : m / 2 ^ (target m e - e).toNat = 0
    · exact .inr hzero
    · have hdiv := log2_div_add_log2_le hzero
      rw [Nat.log2_two_pow] at hdiv
      exact .inl hdiv
  rw [target_eq _ (max e (target m e))]
  -- a mantissa that is shifted out is rounded to one at most, and then
  -- its place is the one it was shifted to
  rcases hshift with hshift | hzero
  · omega
  · rw [hzero, Nat.log2_zero] at hlength
    rw [target_eq]
    omega

/-- What rounding gives has an exponent near the one it was given, or
near the one its length asks for. -/
theorem roundWithAccuracy_cases (s : Sign) :
    roundWithAccuracy .binary64 s m e accuracy = .zero s
      ∨ ∃ n f h, roundWithAccuracy .binary64 s m e accuracy
          = .finite s n f h
        ∧ f ≤ max e (max (m.log2 + e - 51) (-1074)) := by
  have hexponent := exponent_shiftToTargetExponent m e accuracy
  have htarget := target_roundedMantissa_le m e accuracy
  unfold roundWithAccuracy
  dsimp only
  split
  · exact .inl rfl
  · next hne =>
    refine .inr ⟨_, _, Nat.pos_of_ne_zero hne, rfl, ?_⟩
    rw [exponent_shiftToTargetExponent, hexponent]
    have hfirst := target_eq m e
    omega

end

-- ============================================================== quotients

/-- The place of the leading digit of a finite number. -/
def leading : UnpackedFloat → Int
  | .finite _ m e _ => totalExponent m e
  | _ => 0

/-- A field of `n` bits holds numbers of `n` places. -/
theorem log2_toNat_lt {n : Nat} (hn : 0 < n) (v : BitVec n) :
    v.toNat.log2 < n := by
  by_cases hzero : v.toNat = 0
  · rw [hzero, Nat.log2_zero]
    exact hn
  · exact (Nat.log2_lt hzero).2 v.isLt

/-- No double is as great as `2 ^ 1024`. -/
theorem leading_unpack_le (bits : BitVec Format.binary64.numBits) :
    leading (unpack .binary64 bits) ≤ 1024 := by
  have hnothing : (0 : Int) ≤ 1024 := by decide
  unfold unpack
  dsimp only
  split
  · split <;> exact hnothing
  · next hones =>
    split
    · next hzero =>
      split
      · exact hnothing
      · have hlength : (unpackMantissa bits).toNat.log2 < 52 :=
          log2_toNat_lt (by decide) _
        show ((unpackMantissa bits).toNat.log2 : Int) + 1
          + (((unpackExponent bits).toNat : Int) - (1023 + 52) + 1) ≤ 1024
        rw [hzero]
        show ((unpackMantissa bits).toNat.log2 : Int) + 1
          + (0 - (1023 + 52) + 1) ≤ 1024
        omega
    · have hlength : (1#1 ++ unpackMantissa bits).toNat.log2 < 53 :=
        log2_toNat_lt (by decide) _
      have hexponent : (unpackExponent bits).toNat < 2047 := by
        have hupper : (unpackExponent bits).toNat < 2048 := BitVec.isLt _
        by_contra hgreat
        exact hones (BitVec.eq_of_toNat_eq (show _ = 2047 by omega))
      show ((1#1 ++ unpackMantissa bits).toNat.log2 : Int) + 1
          + (((unpackExponent bits).toNat : Int) - (1023 + 52)) ≤ 1024
      omega

section

variable (m : Nat) (e : Int) (n : Nat) (f : Int)

/-- Where the quotient of two numbers has its last digit. -/
theorem exponent_divCore :
    (divCore .binary64 m e n f).2.1
      = min (e - f) (max (m.log2 + e - (n.log2 + f) - 53) (-1074)) := by
  show min (e - f)
    (max (((m.log2 : Int) + 1 + e) - (n.log2 + 1 + f) - 53) (-1074)) = _
  omega

/-- The quotient of two numbers is as much shorter as the divisor is
long. -/
theorem log2_divCore :
    (divCore .binary64 m e n f).1 = 0
      ∨ ((divCore .binary64 m e n f).1.log2 : Int)
          + (divCore .binary64 m e n f).2.1
        ≤ m.log2 + e - (n.log2 + f) := by
  have hplace := exponent_divCore m e n f
  generalize hp : (divCore .binary64 m e n f).2.1 = p at hplace ⊢
  have hquotient : (divCore .binary64 m e n f).1
      = m <<< (e - f - p).toNat / n := by
    rw [← hp]
    rfl
  rw [hquotient]
  by_cases hzero : m <<< (e - f - p).toNat / n = 0
  · exact .inl hzero
  · have hdiv := log2_div_add_log2_le hzero
    have hshift := log2_shiftLeft_le m (e - f - p).toNat
    refine .inr ?_
    omega

end

/-- A quotient by four or more does not overflow. -/
theorem isFinite_stored_div {u v : UnpackedFloat} (hu : u.isFinite = true)
    (hleading : leading u ≤ 1024) (hv : 3 ≤ leading v) :
    (stored (UnpackedFloat.div .binary64 u v)).isFinite = true := by
  have hnothing : ¬ (3 : Int) ≤ 0 := by decide
  cases v with
  | notANumber => exact absurd hv hnothing
  | infinity t => exact absurd hv hnothing
  | zero t => exact absurd hv hnothing
  | finite t n f hn =>
    cases u with
    | notANumber => cases hu
    | infinity s => cases hu
    | zero s =>
      show (stored (.zero (s / t))).isFinite = true
      rw [stored_zero]
      rfl
    | finite s m e hm =>
      change (m.log2 : Int) + 1 + e ≤ 1024 at hleading
      change 3 ≤ (n.log2 : Int) + 1 + f at hv
      have hplace := exponent_divCore m e n f
      have hlength := log2_divCore m e n f
      show (stored (roundWithAccuracy .binary64 (s / t)
        (divCore .binary64 m e n f).1 (divCore .binary64 m e n f).2.1
        (divCore .binary64 m e n f).2.2)).isFinite = true
      rcases roundWithAccuracy_cases (divCore .binary64 m e n f).1
          (divCore .binary64 m e n f).2.1 (divCore .binary64 m e n f).2.2
          (s / t) with hround | ⟨k, g, hk, hround, hg⟩
      · rw [hround, stored_zero]
        rfl
      · rw [hround]
        refine isFinite_stored ?_
        rcases hlength with hzero | hlength
        · rw [hzero, Nat.log2_zero] at hg
          omega
        · omega

/-- A quotient by four or more is finite. This is the form in which the
powers of ten use it. -/
theorem isFinite_div {a b : Float} (ha : a.isFinite = true)
    (hb : 3 ≤ leading b.toModel.unpack) : (a / b).isFinite = true :=
  isFinite_stored_div ha (leading_unpack_le _) hb

end Double

namespace Scientific

-- ========================================================= powers of ten

/-- The double `10 ^ 2 ^ i`, by squaring. -/
def square : Nat → Float
  | 0 => 10.0
  | i + 1 => square i * square i

/-- The products of the first `k` squares, in the order of the numbers
whose bits say which squares are taken. -/
def products : Nat → List Float
  | 0 => [1.0]
  | k + 1 => products k ++ (products k).map (· * square k)

/-- There is a product for each number of `k` bits. -/
theorem length_products (k : Nat) : (products k).length = 2 ^ k := by
  induction k with
  | zero => rfl
  | succ k ih =>
    unfold products
    rw [List.length_append, List.length_map, ih, Nat.pow_succ]
    omega

/-- The products of more squares start with those of fewer. -/
theorem products_getElem?_of_le {j k : Nat} (h : j ≤ k) {n : Nat}
    {p : Float} (hp : (products j)[n]? = some p) :
    (products k)[n]? = some p := by
  induction h with
  | refl => exact hp
  | step h ih =>
    unfold products
    rw [List.getElem?_append_left (List.getElem?_eq_some_iff.1 ih).1, ih]

/-- After `k` bits of `n` the product is the one those bits stand
for. -/
theorem foldl_squares (n k : Nat) :
    ∃ p, (List.range k).foldl
        (fun (product, square) i =>
          (if n.testBit i then product * square else product,
            square * square)) ((1.0, 10.0) : Float × Float)
        = (p, square k) ∧ (products k)[n % 2 ^ k]? = some p := by
  -- the product is told by the bits read so far, which are those of the
  -- remainder by `2 ^ k`; the next bit adds `2 ^ k` or nothing
  induction k with
  | zero => exact ⟨1.0, rfl, by rw [Nat.pow_zero, Nat.mod_one]; rfl⟩
  | succ k ih =>
    obtain ⟨p, hfold, hp⟩ := ih
    have hlength := length_products k
    rw [List.range_succ, List.foldl_append, hfold, Nat.mod_pow_succ]
    unfold products
    by_cases hbit : n.testBit k = true
    · refine ⟨p * square k, ?_, ?_⟩
      · simp only [List.foldl_cons, List.foldl_nil, if_pos hbit, square]
      · rw [Nat.testBit_eq_decide_div_mod_eq, decide_eq_true_eq] at hbit
        rw [hbit, List.getElem?_append_right (by omega), hlength,
          Nat.mul_one, Nat.add_sub_cancel, List.getElem?_map, hp]
        rfl
    · refine ⟨p, ?_, ?_⟩
      · simp only [List.foldl_cons, List.foldl_nil, if_neg hbit, square]
      · rw [Nat.testBit_eq_decide_div_mod_eq, decide_eq_true_eq] at hbit
        rw [show n / 2 ^ k % 2 = 0 by omega, Nat.mul_zero, Nat.add_zero,
          List.getElem?_append_left, hp]
        rw [hlength]
        exact Nat.mod_lt _ (Nat.two_pow_pos k)

/-- The power of ten is the product that its number stands for. -/
theorem products_getElem?_powerOfTen {n : Nat} (h : n ≤ 300) :
    (products 9)[n]? = some (powerOfTen n) := by
  obtain ⟨p, hfold, hp⟩ := foldl_squares n (n.log2 + 1)
  have hlog : n.log2 < 9 := by
    by_cases hzero : n = 0
    · rw [hzero, Nat.log2_zero]
      decide
    · exact (Nat.log2_lt hzero).2 (by omega)
  rw [Nat.mod_eq_of_lt Nat.lt_log2_self] at hp
  have hpower : powerOfTen n = p := congrArg Prod.fst hfold
  rw [hpower]
  exact products_getElem?_of_le (by omega) hp

/-- Rounding does not change how long a power of ten is, in the steps
that are taken. -/
theorem leading_powerOfTen {n : Nat} (h : n ≤ 300) :
    Double.leading (powerOfTen n).toModel.unpack = (10 ^ n).log2 + 1 := by
  have hall : ∀ q ∈ ((products 9).take 301).zipIdx,
      Double.leading q.1.toModel.unpack = (10 ^ q.2).log2 + 1 := by
    decide +kernel
  refine hall (powerOfTen n, n)
    (List.mk_mem_zipIdx_iff_getElem?.2 ?_)
  rw [List.getElem?_take_of_lt (by omega), products_getElem?_powerOfTen h]

/-- Every power of ten that a step divides by has three places or
more. -/
theorem three_le_leading_powerOfTen {n : Nat} (hpos : 0 < n)
    (hshort : n ≤ 300) :
    3 ≤ Double.leading (powerOfTen n).toModel.unpack := by
  have hten : 10 ≤ 10 ^ n := Nat.le_self_pow hpos.ne' 10
  have hlength := Double.log2_le_log2 hten
  rw [show (10 : Nat).log2 = 3 from rfl] at hlength
  rw [leading_powerOfTen hshort]
  omega

/-- Moving the point to the left keeps a number finite. -/
theorem isFinite_scaleBy {m : Float} {power : Int}
    (hm : m.isFinite = true) (hpower : power ≤ 0) :
    (scaleBy m power).isFinite = true := by
  fun_induction scaleBy m power with
  | case1 => exact hm
  | case2 m power hmoves hup => omega
  | case3 m power hmoves hdown step ih =>
    have hstep : 1 ≤ step ∧ step ≤ 300 ∧ power + step ≤ 0 := by
      simp only [longestStep, step]
      omega
    obtain ⟨hfirst, hlast, hrest⟩ := hstep
    exact ih (Double.isFinite_div hm
      (three_le_leading_powerOfTen (by omega) (by omega))) hrest

end Scientific

end UnitAlgebra
