/-
Exponents: the integers that stand above a unit symbol or above the
ten of a scaled number. They live in thirty-two bits and never wrap
around. An operation whose exact result leaves the range does one of
two things:

- it says so (`add?`, `mul?`, `neg?`). Dimensions and written terms are
  computed like this, so that a power that cannot be written is a
  failure and not another power;
- it stops at the nearer end of the range (`addClamped` and its kin).
  The ten of a scaled number is computed like this, where the end of the
  range stands for what is out of reach.

Either way it is the exact operation on the integer inside (`val`), and
then one of two ways back, `ofInt?` and `clamp`. The lemmas below say
what the way back does, and with them everything about exponents is
linear arithmetic over `val`.
-/
namespace UnitAlgebra

/-- An integer from `-2^31` to `2^31 - 1`. -/
structure Exponent where
  val : Int
  lower : -2147483648 ≤ val := by decide
  upper : val ≤ 2147483647 := by decide
deriving DecidableEq

namespace Exponent

-- ====================================================== in and out of Int

/-- An exponent is the integer inside; the bounds carry no data. -/
theorem ext {a b : Exponent} (h : a.val = b.val) : a = b := by
  cases a
  cases b
  cases h
  rfl

theorem val_inj {a b : Exponent} : a.val = b.val ↔ a = b :=
  ⟨ext, fun h => h ▸ rfl⟩

/-- The least exponent; it is the only one without a negation. -/
def least : Exponent := { val := -2147483648 }

/-- The greatest exponent. -/
def greatest : Exponent := { val := 2147483647 }

/-- The integers that are the value of some exponent. -/
def InRange (n : Int) : Prop := -2147483648 ≤ n ∧ n ≤ 2147483647

instance (n : Int) : Decidable (InRange n) :=
  inferInstanceAs (Decidable (_ ∧ _))

/-- What is inside is in range, by construction. Every proof that a sum
or a negation stays in range starts from here. -/
theorem inRange_val (e : Exponent) : InRange e.val := ⟨e.lower, e.upper⟩

/-- The exponent with this value, if there is one. -/
def ofInt? (n : Int) : Option Exponent :=
  if h : InRange n then some ⟨n, h.1, h.2⟩ else none

/-- `ofInt?` finds an exponent exactly when one has that value. -/
theorem ofInt?_eq_some_iff {n : Int} {e : Exponent} :
    ofInt? n = some e ↔ e.val = n := by
  unfold ofInt?
  split
  · exact ⟨fun h => by cases h; rfl, fun h => by cases h; rfl⟩
  · next h => exact ⟨nofun, fun he => absurd (he ▸ e.inRange_val) h⟩

/-- Beyond the range there is no exponent, and only there. -/
theorem ofInt?_eq_none_iff {n : Int} : ofInt? n = none ↔ ¬ InRange n := by
  unfold ofInt?
  split
  · next h => exact ⟨nofun, fun hn => absurd h hn⟩
  · next h => exact ⟨fun _ => h, fun _ => rfl⟩

/-- The exponent closest to an integer. -/
def clamp (n : Int) : Exponent :=
  if hlo : n < -2147483648 then least
  else if hhi : 2147483647 < n then greatest
  else ⟨n, by omega, by omega⟩

/-- Inside the range nothing is clamped, so that clamping is the exact
operation wherever that has a result. -/
theorem val_clamp_of_inRange {n : Int} (h : InRange n) :
    (clamp n).val = n := by
  obtain ⟨hlo, hhi⟩ := h
  unfold clamp
  rw [dif_neg (by omega), dif_neg (by omega)]

theorem clamp_val (e : Exponent) : clamp e.val = e :=
  ext (val_clamp_of_inRange e.inRange_val)

/-- A numeral stands for the exponent closest to it. -/
instance (n : Nat) : OfNat Exponent n := ⟨clamp n⟩

instance : Inhabited Exponent := ⟨0⟩

@[simp] theorem val_zero : (0 : Exponent).val = 0 := rfl

@[simp] theorem val_one : (1 : Exponent).val = 1 := rfl

-- ================================================= refusing to overflow

/-- The exact sum, unless it leaves the range. -/
def add? (a b : Exponent) : Option Exponent := ofInt? (a.val + b.val)

/-- The exact product, unless it leaves the range. -/
def mul? (a b : Exponent) : Option Exponent := ofInt? (a.val * b.val)

/-- The exact negation, unless it leaves the range. -/
def neg? (a : Exponent) : Option Exponent := ofInt? (-a.val)

/-- A sum that is there is exact. The refusing operations are used
through these three statements and never opened. -/
theorem add?_eq_some_iff {a b c : Exponent} :
    a.add? b = some c ↔ c.val = a.val + b.val := ofInt?_eq_some_iff

theorem mul?_eq_some_iff {a b c : Exponent} :
    a.mul? b = some c ↔ c.val = a.val * b.val := ofInt?_eq_some_iff

/-- A negation that is there is exact. -/
theorem neg?_eq_some_iff {a c : Exponent} :
    a.neg? = some c ↔ c.val = -a.val := ofInt?_eq_some_iff

/-- The least exponent, and no other, has no negation. -/
theorem neg?_eq_none_iff {a : Exponent} : a.neg? = none ↔ a = least := by
  have hrange := a.inRange_val
  unfold neg?
  rw [ofInt?_eq_none_iff, ← val_inj]
  show ¬ InRange (-a.val) ↔ a.val = -2147483648
  unfold InRange at hrange ⊢
  omega

/-- Every exponent times one is there. -/
theorem mul?_one (a : Exponent) : a.mul? 1 = some a := by
  rw [mul?_eq_some_iff, val_one, Int.mul_one]

-- ============================================== stopping at the range's end

/-- The sum, or the end of the range that it passes. -/
def addClamped (a b : Exponent) : Exponent := clamp (a.val + b.val)

/-- The difference, or the end of the range that it passes. -/
def subClamped (a b : Exponent) : Exponent := clamp (a.val - b.val)

/-- The negation; that of the least exponent is the greatest. -/
def negClamped (a : Exponent) : Exponent := clamp (-a.val)

instance : Neg Exponent := ⟨negClamped⟩

-- ================================================================== views

/-- `-1`, `0` or `1`. -/
def signum (a : Exponent) : Exponent := clamp a.val.sign

/-- A sign is in range, so taking it never clamps. -/
theorem val_signum (a : Exponent) : a.signum.val = a.val.sign := by
  refine val_clamp_of_inRange ?_
  rcases Int.sign_trichotomy a.val with h | h | h <;> rw [h] <;> decide

/-- The greater of two exponents. -/
def max (a b : Exponent) : Exponent := if a.val < b.val then b else a

/-- The decimal digits, after a minus sign for a negative exponent. -/
def digits (a : Exponent) : List Char :=
  let magnitude := Nat.toDigits 10 a.val.natAbs
  if a.val < 0 then '-' :: magnitude else magnitude

end Exponent

end UnitAlgebra
