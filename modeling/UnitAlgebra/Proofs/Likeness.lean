/-
Which measures convert into each other. A conversion walks the two
dimensions side by side; what it decides is a property of the
dimensions as a whole. Equal dimensions convert directly, dimensions
that give every base unit opposite exponents convert inverted, and no
others convert (`convertTo_classifies`).

# The walk and the property

The walk goes power by power with both answers open, and ends as soon as
neither is left. On canonical lists it finds the same as comparing
exponents (`Dimension.likeness?_eq_some_iff`). Both lists ascend by
name, so powers of one base unit meet, and an exponent zero is in
neither.

A dimension without any powers is equal to itself and opposite to itself
as well. It counts as equal, which is why `Likeness.Holds` asks for
opposite dimensions that are not equal.

# The laws

Likeness in this sense is symmetric, and it composes: along two
conversions in a row the dimension is kept or turned over twice, so the
conversion that leads straight to the end is inverted when exactly one
of the two is (`Likeness.inverted_comp`). Only factors can keep it from
existing.
-/
import UnitAlgebra.Dimension.Canonical
import UnitAlgebra.Proofs.Algebra

namespace UnitAlgebra

-- ============================================================ likeness

namespace Dimension

variable {d e f : Dimension}

/-- Every base unit has opposite exponents in the two. -/
def Opposite (d e : Dimension) : Prop :=
  ∀ base, e.exponentOf base = -d.exponentOf base

/-- Turning over twice changes nothing. -/
theorem Opposite.symm (h : d.Opposite e) : e.Opposite d := by
  intro base
  rw [h, Int.neg_neg]

/-- The opposite of the opposite is what it was. -/
theorem Opposite.trans (h : d.Opposite e) (h' : e.Opposite f)
    (hd : d.Canonical) (hf : f.Canonical) : d = f := by
  refine hd.eq_of_exponentOf hf fun base => ?_
  rw [h', h, Int.neg_neg]

namespace Likeness

/-- What a likeness says of two dimensions as a whole. -/
def Holds (d e : Dimension) : Likeness → Prop
  | same => d = e
  | opposite => d ≠ e ∧ d.Opposite e

/-- Whether conversions between such dimensions are inverted. -/
def inverted : Likeness → Bool
  | same => false
  | opposite => true

/-- One likeness after another. -/
def comp : Likeness → Likeness → Likeness
  | same, l => l
  | opposite, same => opposite
  | opposite, opposite => same

/-- Of two conversions in a row, the one that counts as inverted is told
by exclusive or. -/
theorem inverted_comp (k l : Likeness) :
    (k.comp l).inverted = (k.inverted ^^ l.inverted) := by
  cases k <;> cases l <;> rfl

/-- A likeness holds both ways, as the same one. -/
theorem Holds.symm {l : Likeness} (h : l.Holds d e) : l.Holds e d := by
  cases l with
  | same => exact Eq.symm h
  | opposite => exact ⟨Ne.symm h.1, h.2.symm⟩

/-- At most one likeness holds. -/
theorem Holds.unique {k l : Likeness} (h : k.Holds d e)
    (h' : l.Holds d e) : k = l := by
  cases k with
  | same =>
    cases l with
    | same => rfl
    | opposite => exact absurd h h'.1
  | opposite =>
    cases l with
    | same => exact absurd h' h.1
    | opposite => rfl

/-- Likenesses in a row. Lists come back from exponents here, hence the
two canonical dimensions. -/
theorem Holds.comp {k l : Likeness} (h : k.Holds d e) (h' : l.Holds e f)
    (hd : d.Canonical) (hf : f.Canonical) : (k.comp l).Holds d f := by
  cases k with
  | same =>
    obtain rfl : d = e := h
    exact h'
  | opposite =>
    cases l with
    | same =>
      obtain rfl : e = f := h'
      exact h
    | opposite => exact h.2.trans h'.2 hd hf

end Likeness

/-- The walk finds a likeness exactly when it holds of the whole. -/
theorem likeness?_eq_some_iff (hd : d.Canonical) (he : e.Canonical)
    {l : Likeness} : likeness? true true d e = some l ↔ l.Holds d e := by
  rw [likeness?_eq d e (.inl rfl)]
  by_cases hsame : d = e
  · rw [if_pos ⟨rfl, hsame⟩]
    cases l with
    | same => exact ⟨fun _ => hsame, fun _ => rfl⟩
    | opposite => exact ⟨nofun, fun h => absurd hsame h.1⟩
  · rw [if_neg (fun h => hsame h.2)]
    by_cases hopposite : d.Opposite e
    · rw [if_pos ⟨rfl, (neg?_eq_some_iff hd he).2 hopposite⟩]
      cases l with
      | same => exact ⟨nofun, fun h => absurd h hsame⟩
      | opposite => exact ⟨fun _ => ⟨hsame, hopposite⟩, fun _ => rfl⟩
    · rw [if_neg (fun h => hopposite ((neg?_eq_some_iff hd he).1 h.2))]
      cases l with
      | same => exact ⟨nofun, fun h => absurd h hsame⟩
      | opposite => exact ⟨nofun, fun h => absurd h.2 hopposite⟩

end Dimension

-- ========================================================= conversions

/-- Dividing fails for one reason. -/
theorem Scientific.div_ends (x y : Scientific) :
    Ends (fun _ => y.isZero = false)
      (fun fault => y.isZero = true ∧ fault = .divisionByZero)
      (x.div y) := by
  unfold Scientific.div
  split
  · next hzero => exact ⟨hzero, rfl⟩
  · next hzero =>
    split
    · exact Bool.eq_false_iff.2 hzero
    · exact Bool.eq_false_iff.2 hzero

/-- A conversion needs a factor other than zero, and whether it is
inverted has no part in that. -/
theorem Conversion.ofFactor_ends (factor : Scientific)
    (inverted : Bool) :
    Ends
      (fun conversion => factor.isZero = false
        ∧ conversion = ⟨factor, inverted⟩)
      (fun fault => factor.isZero = true
        ∧ fault = .breach .zeroConversion)
      (Conversion.ofFactor factor inverted) := by
  unfold Conversion.ofFactor
  split
  · next hzero => exact ⟨hzero, rfl⟩
  · next hzero => exact ⟨Bool.eq_false_iff.2 hzero, rfl⟩

namespace Measure

variable {m n : Measure} {f g : BaseForm}

/-- A conversion into another measure looks at the two base forms
only. -/
theorem convertTo_another_eq (hm : m.baseForm = some f)
    (hn : n.baseForm = some g) :
    m.convertTo (.another n) =
      match Dimension.likeness? true true f.dimension g.dimension with
      | some .same => do
        Conversion.ofFactor (← f.factor.div g.factor) false
      | some .opposite =>
        Conversion.ofFactor (f.factor.mul g.factor) true
      | none => .error (.incompatible m.text n.text) := by
  show m.convertInto n = _
  unfold convertInto requireBase
  rw [hm, hn]
  rfl

/-- How a conversion ends, by the dimensions as a whole. Between like
dimensions nothing but factors can make it fail. -/
structure Converts (m n : Measure) (f g : BaseForm) : Prop where
  direct : f.dimension = g.dimension →
    Ends
      (fun conversion => g.factor.isZero = false
        ∧ conversion.inverted = false
        ∧ f.factor.div g.factor = .ok conversion.factor
        ∧ conversion.factor.isZero = false)
      (fun fault =>
        (g.factor.isZero = true ∧ fault = .divisionByZero)
          ∨ ∃ ratio, f.factor.div g.factor = .ok ratio
              ∧ ratio.isZero = true ∧ fault = .breach .zeroConversion)
      (m.convertTo (.another n))
  inverted : f.dimension ≠ g.dimension →
    f.dimension.Opposite g.dimension →
    Ends
      (fun conversion => conversion.inverted = true
        ∧ conversion.factor = f.factor.mul g.factor
        ∧ conversion.factor.isZero = false)
      (fun fault => (f.factor.mul g.factor).isZero = true
        ∧ fault = .breach .zeroConversion)
      (m.convertTo (.another n))
  neither : f.dimension ≠ g.dimension →
    ¬ f.dimension.Opposite g.dimension →
    m.convertTo (.another n) = .error (.incompatible m.text n.text)

/-- A conversion in all its outcomes: the likeness decides whether there
is one and how the ratio is formed, and only a factor of zero can spoil
it then. -/
theorem converts (hm : m.baseForm = some f) (hn : n.baseForm = some g)
    (hf : f.dimension.Canonical) (hg : g.dimension.Canonical) :
    m.Converts n f g := by
  have hwalk := fun l =>
    Dimension.likeness?_eq_some_iff hf hg (l := l)
  refine ⟨fun hsame => ?_, fun hne hopposite => ?_,
    fun hne hopposite => ?_⟩
  · rw [convertTo_another_eq hm hn, (hwalk .same).2 hsame]
    have hends := Scientific.div_ends f.factor g.factor
    cases hdiv : f.factor.div g.factor with
    | error fault => exact .inl (hends.of_error hdiv)
    | ok ratio =>
      have hzero := hends.of_ok hdiv
      refine ((Conversion.ofFactor_ends ratio false).mono ?_).mono_bad ?_
      · rintro conversion ⟨hratio, rfl⟩
        exact ⟨hzero, rfl, rfl, hratio⟩
      · rintro fault ⟨hratio, rfl⟩
        exact .inr ⟨ratio, rfl, hratio, rfl⟩
  · rw [convertTo_another_eq hm hn, (hwalk .opposite).2 ⟨hne, hopposite⟩]
    refine (Conversion.ofFactor_ends _ true).mono ?_
    rintro conversion ⟨hratio, rfl⟩
    exact ⟨rfl, rfl, hratio⟩
  · have hnone : Dimension.likeness? true true f.dimension g.dimension
        = none := by
      refine Option.eq_none_iff_forall_ne_some.2 fun l hl => ?_
      cases l with
      | same => exact hne ((hwalk _).1 hl)
      | opposite => exact hopposite ((hwalk _).1 hl).2
    rw [convertTo_another_eq hm hn, hnone]

/-- A conversion that exists is inverted as the dimensions are alike,
and a fault says that they are not only where they are not. -/
theorem Converts.alike (h : m.Converts n f g) :
    Ends
      (fun conversion => ∃ l : Dimension.Likeness,
        l.Holds f.dimension g.dimension
          ∧ conversion.inverted = l.inverted)
      (fun fault => (∃ source target,
          fault = .incompatible source target) ↔
        ∀ l : Dimension.Likeness, ¬ l.Holds f.dimension g.dimension)
      (m.convertTo (.another n)) := by
  by_cases hsame : f.dimension = g.dimension
  · refine ((h.direct hsame).mono ?_).mono_bad ?_
    · rintro conversion ⟨-, hinverted, -⟩
      exact ⟨.same, hsame, hinverted⟩
    · rintro fault (⟨-, rfl⟩ | ⟨ratio, -, -, rfl⟩)
      · exact ⟨nofun, fun hnone => absurd hsame (hnone .same)⟩
      · exact ⟨nofun, fun hnone => absurd hsame (hnone .same)⟩
  · by_cases hopposite : f.dimension.Opposite g.dimension
    · have hlike : Dimension.Likeness.Holds f.dimension g.dimension
          .opposite := ⟨hsame, hopposite⟩
      refine ((h.inverted hsame hopposite).mono ?_).mono_bad ?_
      · rintro conversion ⟨hinverted, -⟩
        exact ⟨.opposite, hlike, hinverted⟩
      · rintro fault ⟨-, rfl⟩
        exact ⟨nofun, fun hnone => absurd hlike (hnone _)⟩
    · rw [h.neither hsame hopposite]
      refine ⟨fun _ l hl => ?_, fun _ => ⟨_, _, rfl⟩⟩
      cases l with
      | same => exact hsame hl
      | opposite => exact hopposite hl.2

/-- Measures are incompatible exactly when no likeness holds. -/
theorem Converts.incompatible_iff (h : m.Converts n f g) :
    (∃ source target,
        m.convertTo (.another n)
          = .error (.incompatible source target)) ↔
      ∀ l : Dimension.Likeness, ¬ l.Holds f.dimension g.dimension := by
  have hends := h.alike
  cases hconvert : m.convertTo (.another n) with
  | ok conversion =>
    obtain ⟨l, hl, -⟩ := hends.of_ok hconvert
    exact ⟨nofun, fun hnone => absurd hl (hnone l)⟩
  | error fault =>
    rw [← hends.of_error hconvert]
    simp only [Except.error.injEq]

end Measure

-- ====================================================== classification

/-- Conversions between measures with canonical dimensions, none of
them into the very same measure: how each of them ends, that the other
direction is incompatible or inverted alike, and where two in a row
lead. -/
theorem convertTo_classifies {u v w : Measure} {f g h : BaseForm}
    (hu : u.baseForm = some f) (hv : v.baseForm = some g)
    (hw : w.baseForm = some h) (hf : f.dimension.Canonical)
    (hg : g.dimension.Canonical) (hh : h.dimension.Canonical) :
    u.Converts v f g
      ∧ ((∃ source target, u.convertTo (.another v)
            = .error (.incompatible source target)) ↔
          ∃ source target, v.convertTo (.another u)
            = .error (.incompatible source target))
      ∧ (∀ there back, u.convertTo (.another v) = .ok there →
          v.convertTo (.another u) = .ok back →
            there.inverted = back.inverted)
      ∧ ∀ first second, u.convertTo (.another v) = .ok first →
          v.convertTo (.another w) = .ok second →
            (∀ source target, u.convertTo (.another w)
                ≠ .error (.incompatible source target))
              ∧ ∀ straight, u.convertTo (.another w) = .ok straight →
                  straight.inverted
                    = (first.inverted ^^ second.inverted) := by
  have huv := Measure.converts hu hv hf hg
  have hvu := Measure.converts hv hu hg hf
  have hvw := Measure.converts hv hw hg hh
  have huw := Measure.converts hu hw hf hh
  refine ⟨huv, ?_, fun there back hthere hback => ?_,
    fun first second hfirst hsecond => ?_⟩
  · refine huv.incompatible_iff.trans (.trans ?_ hvu.incompatible_iff.symm)
    exact ⟨fun hnone l hl => hnone l hl.symm,
      fun hnone l hl => hnone l hl.symm⟩
  · obtain ⟨k, hk, hinverted⟩ := huv.alike.of_ok hthere
    obtain ⟨l, hl, hinverted'⟩ := hvu.alike.of_ok hback
    have hkl := Dimension.Likeness.Holds.unique hk hl.symm
    rw [hinverted, hinverted', hkl]
  · obtain ⟨k, hk, hinverted⟩ := huv.alike.of_ok hfirst
    obtain ⟨l, hl, hinverted'⟩ := hvw.alike.of_ok hsecond
    -- likenesses compose, so the straight way is never incompatible
    have hkl := hk.comp hl hf hh
    refine ⟨fun source target hfault => ?_, fun straight hstraight => ?_⟩
    · exact huw.incompatible_iff.1 ⟨source, target, hfault⟩ _ hkl
    · obtain ⟨j, hj, hinverted''⟩ := huw.alike.of_ok hstraight
      rw [hinverted'', hinverted, hinverted',
        ← Dimension.Likeness.inverted_comp, hj.unique hkl]

/-- A unit that comes to a power of the second. -/
def Measure.ofSeconds (symbol : String) (factor : Scientific)
    (e : Exponent) : Measure :=
  ⟨1, [.simple symbol 1], some ⟨factor, [⟨"s", e⟩]⟩⟩

/-- From hertz into minutes and on into kilohertz: both conversions are
inverted, and the one that leads straight there is not. -/
theorem convertTo_classifies_hertz :
    ∃ (hertz minute kilohertz : Measure)
      (first second straight : Conversion),
      hertz.dimension? = some [⟨"s", -1⟩]
        ∧ minute.dimension? = some [⟨"s", 1⟩]
        ∧ kilohertz.dimension? = some [⟨"s", -1⟩]
        ∧ hertz.convertTo (.another minute) = .ok first
        ∧ minute.convertTo (.another kilohertz) = .ok second
        ∧ hertz.convertTo (.another kilohertz) = .ok straight
        ∧ first.inverted = true ∧ second.inverted = true
        ∧ straight.inverted = false := by
  have hcanonical : ∀ e : Exponent, e ≠ 0 →
      Dimension.Canonical [⟨"s", e⟩] := by
    intro e he
    rw [Dimension.canonical_cons]
    exact ⟨fun q hq => absurd hq List.not_mem_nil, he,
      Dimension.canonical_nil⟩
  have hrun : (do
      let first ← (Measure.ofSeconds "Hz" 1 (-1)).convertTo
        (.another (.ofSeconds "min" ⟨6.0, 1⟩ 1))
      let second ← (Measure.ofSeconds "min" ⟨6.0, 1⟩ 1).convertTo
        (.another (.ofSeconds "kHz" ⟨1.0, 3⟩ (-1)))
      let _ ← (Measure.ofSeconds "Hz" 1 (-1)).convertTo
        (.another (.ofSeconds "kHz" ⟨1.0, 3⟩ (-1)))
      return first.inverted && second.inverted
      : Except Fault Bool).toOption = some true := by
    decide +kernel
  obtain ⟨first, hfirst, hrun⟩ :=
    bind_eq_ok_iff.1 (eq_ok_of_toOption hrun)
  obtain ⟨second, hsecond, hrun⟩ := bind_eq_ok_iff.1 hrun
  obtain ⟨straight, hstraight, hrun⟩ := bind_eq_ok_iff.1 hrun
  obtain ⟨htrue, htrue'⟩ := Bool.and_eq_true_iff.1 (Except.ok.inj hrun)
  obtain ⟨-, -, -, hchain⟩ := convertTo_classifies
    (u := .ofSeconds "Hz" 1 (-1)) (v := .ofSeconds "min" ⟨6.0, 1⟩ 1)
    (w := .ofSeconds "kHz" ⟨1.0, 3⟩ (-1)) rfl rfl rfl
    (hcanonical (-1) (by decide)) (hcanonical 1 (by decide))
    (hcanonical (-1) (by decide))
  have hflag := (hchain first second hfirst hsecond).2 straight hstraight
  rw [htrue, htrue'] at hflag
  exact ⟨_, _, _, first, second, straight, rfl, rfl, rfl, hfirst, hsecond,
    hstraight, htrue, htrue', hflag⟩

end UnitAlgebra
