/-
A measure and an equal copy of it. Into itself a measure converts
without being looked at, so nothing about it can keep the conversion
from being the identity.

A copy is looked at. Its dimension is the same and likeness is not in
question (`Dimension.likeness?_self`). But the base form has to be
there, and the ratio is that of a factor to itself. There are four
cases, and they are all:

- no base form: there is nothing to compare
  (`Measure.convertTo_copy_of_none`);
- a factor of zero: a division by zero
  (`Measure.convertTo_copy_of_isZero`);
- a factor that is not finite: a ratio that is no number
  (`Measure.exists_convertTo_copy_of_not_isFinite`);
- any other factor: the ratio one (`Measure.exists_convertTo_copy`).

So whether a measure converts into itself tells nothing, and whether it
converts into a copy tells if it is `Measure.Sized`
(`convertTo_itself_or_copy`).
-/
import UnitAlgebra.Proofs.Doubles
import UnitAlgebra.Proofs.Likeness
import UnitAlgebra.Proofs.Obtained

namespace UnitAlgebra

/-- A dimension is like itself. -/
theorem Dimension.likeness?_self (d : Dimension) :
    likeness? true true d d = some .same := by
  rw [likeness?_eq d d (.inl rfl), if_pos ⟨rfl, rfl⟩]

/-- The same ratio in the same direction, or the same fault. -/
inductive Conversion.Alike :
    Except Fault Conversion → Except Fault Conversion → Prop where
  | ok {c d : Conversion} (hfactor : (c.factor == d.factor) = true)
      (hinverted : c.inverted = d.inverted) : Alike (.ok c) (.ok d)
  | error (fault : Fault) : Alike (.error fault) (.error fault)

namespace Measure

variable {m : Measure} {form : BaseForm}

/-- The measure has a size: a base form whose factor is a finite number
other than zero. -/
def Sized (m : Measure) : Prop :=
  ∃ form, m.baseForm = some form
    ∧ form.factor.mantissa.isFinite = true ∧ form.factor.isZero = false

-- ============================================================ the copy

/-- Without a base form there is nothing to compare. -/
theorem convertTo_copy_of_none (h : m.baseForm = none) :
    m.convertTo (.another m) = .error (.breach (.unreduced m.text)) := by
  show m.convertInto m = _
  unfold convertInto requireBase
  rw [h]
  rfl

/-- Conversion into a copy divides the factor by itself. -/
theorem convertTo_copy_of_some (h : m.baseForm = some form) :
    m.convertTo (.another m) =
      (form.factor.div form.factor).bind (Conversion.ofFactor · false) := by
  rw [convertTo_another_eq h h, Dimension.likeness?_self]
  rfl

/-- Nothing at all has no ratio to itself. -/
theorem convertTo_copy_of_isZero (h : m.baseForm = some form)
    (hzero : form.factor.isZero = true) :
    m.convertTo (.another m) = .error .divisionByZero := by
  rw [convertTo_copy_of_some h, Scientific.div_self_of_isZero hzero]
  rfl

/-- A factor that is finite and not zero is divided by itself without
rounding, so the ratio is one exactly. -/
theorem exists_convertTo_copy (h : m.Sized) :
    ∃ conversion, m.convertTo (.another m) = .ok conversion
      ∧ conversion.inverted = false
      ∧ conversion.factor.isOne = true := by
  obtain ⟨form, hform, hfinite, hzero⟩ := h
  obtain ⟨ratio, hratio, hone⟩ := Scientific.exists_div_self hfinite hzero
  rw [convertTo_copy_of_some hform, hratio]
  refine ⟨⟨ratio, false⟩, ?_, rfl, hone⟩
  show Conversion.ofFactor ratio false = _
  unfold Conversion.ofFactor
  rw [Scientific.isZero_of_isOne hone, if_neg Bool.false_ne_true]

/-- A factor that is not finite gives a ratio that is no number. -/
theorem exists_convertTo_copy_of_not_isFinite
    (h : m.baseForm = some form)
    (hfinite : form.factor.mantissa.isFinite = false) :
    ∃ conversion, m.convertTo (.another m) = .ok conversion
      ∧ conversion.inverted = false
      ∧ conversion.factor.mantissa.isNaN = true := by
  obtain ⟨ratio, hratio, hnothing⟩ :=
    Scientific.exists_div_self_of_not_isFinite hfinite
  have hzero : ratio.isZero = false :=
    Double.beq_eq_false_of_isNaN hnothing 0.0
  rw [convertTo_copy_of_some h, hratio]
  refine ⟨⟨ratio, false⟩, ?_, rfl, hnothing⟩
  show Conversion.ofFactor ratio false = _
  unfold Conversion.ofFactor
  rw [hzero, if_neg Bool.false_ne_true]

-- ================================================= itself and the copy

/-- The copy gives the identity, as the measure itself does. -/
theorem Sized.alike (h : m.Sized) :
    Conversion.Alike (m.convertTo .itself)
      (m.convertTo (.another m)) := by
  obtain ⟨conversion, hconversion, hinverted, hone⟩ :=
    exists_convertTo_copy h
  obtain ⟨hmantissa, hexponent⟩ := Bool.and_eq_true_iff.1 hone
  rw [hconversion]
  refine .ok ?_ hinverted.symm
  refine Bool.and_eq_true_iff.2 ⟨BEq.symm hmantissa, ?_⟩
  exact beq_iff_eq.2 (of_decide_eq_true hexponent).symm

/-- The copy gives the identity in no other case. -/
theorem sized_of_alike
    (h : Conversion.Alike (m.convertTo .itself)
      (m.convertTo (.another m))) : m.Sized := by
  cases hform : m.baseForm with
  | none =>
    rw [convertTo_copy_of_none hform] at h
    cases h
  | some form =>
    refine ⟨form, hform, ?_, ?_⟩
    · rw [← Bool.not_eq_false]
      intro hfinite
      obtain ⟨conversion, hconversion, -, hnothing⟩ :=
        exists_convertTo_copy_of_not_isFinite hform hfinite
      rw [hconversion] at h
      cases h with
      | ok hfactor _ =>
        have hmantissa := BEq.symm (Bool.and_eq_true_iff.1 hfactor).1
        rw [Double.beq_eq_false_of_isNaN hnothing] at hmantissa
        cases hmantissa
    · rw [Bool.eq_false_iff]
      intro hzero
      rw [convertTo_copy_of_isZero hform hzero] at h
      cases h

end Measure

/-- Into itself every measure converts as it is. Into a copy it
converts alike exactly when it has a size; a measure without a base form
and a measure of size zero do not convert at all, and where the factor
is not finite the ratio is no number. -/
theorem convertTo_itself_or_copy (m : Measure) :
    m.convertTo .itself = .ok .identity
      ∧ (Conversion.Alike (m.convertTo .itself)
            (m.convertTo (.another m)) ↔ m.Sized)
      ∧ (m.baseForm = none → m.convertTo (.another m)
          = .error (.breach (.unreduced m.text)))
      ∧ ∀ form, m.baseForm = some form →
          (form.factor.isZero = true →
              m.convertTo (.another m) = .error .divisionByZero)
            ∧ (form.factor.mantissa.isFinite = false →
              ∃ conversion, m.convertTo (.another m) = .ok conversion
                ∧ conversion.inverted = false
                ∧ conversion.factor.mantissa.isNaN = true) := by
  refine ⟨rfl, ⟨Measure.sized_of_alike, Measure.Sized.alike⟩,
    Measure.convertTo_copy_of_none, fun form hform => ⟨?_, ?_⟩⟩
  · exact Measure.convertTo_copy_of_isZero hform
  · exact Measure.exists_convertTo_copy_of_not_isFinite hform

/-- A metre that is only written down. -/
def Measure.writtenMetre : Measure := .written 1 [.simple "m" 1]

/-- A dozen converts into a dozen. A metre that is only written down,
nothing at all and infinitely much do not, or not by a number. -/
theorem convertTo_itself_or_copy_dozen :
    Conversion.Alike ((Measure.scalar ⟨1.2, 1⟩).convertTo .itself)
        ((Measure.scalar ⟨1.2, 1⟩).convertTo
          (.another (.scalar ⟨1.2, 1⟩)))
      ∧ Measure.writtenMetre.convertTo (.another .writtenMetre)
        = .error (.breach (.unreduced Measure.writtenMetre.text))
      ∧ (Measure.scalar .zero).convertTo (.another (.scalar .zero))
        = .error .divisionByZero
      ∧ ∃ conversion,
          (Measure.scalar ⟨1.0 / 0.0, 0⟩).convertTo
              (.another (.scalar ⟨1.0 / 0.0, 0⟩)) = .ok conversion
            ∧ conversion.inverted = false
            ∧ conversion.factor.mantissa.isNaN = true := by
  have hdozen := (convertTo_itself_or_copy (.scalar ⟨1.2, 1⟩)).2.1.2
    ⟨_, rfl, by decide +kernel, by decide +kernel⟩
  have hwritten := (convertTo_itself_or_copy .writtenMetre).2.2.1 rfl
  have hzero := ((convertTo_itself_or_copy (.scalar .zero)).2.2.2
    _ rfl).1 (by decide +kernel)
  have hinfinite := ((convertTo_itself_or_copy
    (.scalar ⟨1.0 / 0.0, 0⟩)).2.2.2 _ rfl).2 (by decide +kernel)
  exact ⟨hdozen, hwritten, hzero, hinfinite⟩

/-- The metre that is only written down converts into itself and not
into a copy. -/
theorem copy_tells_writtenMetre :
    Obtained .writtenMetre
      ∧ Measure.writtenMetre.convertTo .itself = .ok .identity
      ∧ Measure.writtenMetre.convertTo (.another .writtenMetre)
          = .error (.breach (.unreduced Measure.writtenMetre.text))
      ∧ ¬ Conversion.Alike (Measure.writtenMetre.convertTo .itself)
          (Measure.writtenMetre.convertTo (.another .writtenMetre)) := by
  have hcopy : Measure.writtenMetre.convertTo (.another .writtenMetre)
      = .error (.breach (.unreduced Measure.writtenMetre.text)) :=
    Measure.convertTo_copy_of_none rfl
  refine ⟨.written 1 [.simple "m" 1], rfl, hcopy, ?_⟩
  rw [hcopy]
  exact nofun

end UnitAlgebra
