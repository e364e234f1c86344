/-
Expressions over quantities, and the dimensions of what they come to.
The exponents of an expression are computed from those of its leaves
by integer arithmetic alone (`Expression.exponents`), without looking
at values or factors and without a range.

Evaluating an expression can fail in many ways, but not in this one:
whatever it comes to has exactly those exponents (`eval_spans`). From
that follow the two things a reader of an expression relies on
(`eval_sound`):

- wherever quantities were added, subtracted or converted, the
  dimensions were the same or opposite (`compatible_of_eval`);
- exponents that leave the range are a failure at the node where they
  do, so none is ever wrapped around.

# How the proof goes

One lemma for each operation says what it does to the exponents of its
operands (`spans_mul`, `spans_div`, `spans_inverse`), or that it keeps
those of the first one and compares the other with it (`measure_add`,
`measure_sub`, `measure_convertTo`). The induction over the tree then
has one case for each kind of node. What it needs of the leaves is that
their dimensions are in canonical form (`Grounded`), and this is the one
thing that evaluation cannot see for itself: a dimension that names a
base twice has no exponents to speak of.

A part of an expression is again an expression, so what holds of the
root holds of every node that was evaluated on the way (`eval_part`).
-/
import Mathlib.Logic.Relation
import UnitAlgebra.Proofs.Exponents
import UnitAlgebra.Proofs.Likeness
import UnitAlgebra.Quantity

namespace UnitAlgebra

-- ========================================================== one operation

/-- Exponents between which a conversion exists. -/
def Agree (x y : String → Int) : Prop := x = y ∨ x = -y

namespace Measure

/-- The exponents of base units in a measure. -/
def exponents (m : Measure) : String → Int := fun base =>
  match m.baseForm with
  | some form => form.dimension.exponentOf base
  | none => 0

/-- The base form is there and in canonical form. -/
def Canonical (m : Measure) : Prop :=
  ∃ form, m.baseForm = some form ∧ form.dimension.Canonical

/-- A measure in canonical form has the exponents that are read off it.
-/
theorem Canonical.spans {m : Measure} (h : m.Canonical) :
    m.Spans m.exponents := by
  obtain ⟨form, hform, hcanonical⟩ := h
  refine ⟨form, hform, hcanonical, fun base => ?_⟩
  unfold exponents
  rw [hform]

variable {m n : Measure} {x y : String → Int}

/-- Measures that convert into each other have the same or opposite
exponents. -/
theorem Spans.agree (hm : m.Spans x) (hn : n.Spans y)
    {conversion : Conversion}
    (h : m.convertTo (.another n) = .ok conversion) : Agree x y := by
  obtain ⟨f, hf, hx⟩ := hm
  obtain ⟨g, hg, hy⟩ := hn
  obtain ⟨l, hl, -⟩ :=
    (converts hf hg hx.canonical hy.canonical).alike.of_ok h
  cases l with
  | same =>
    left
    funext base
    rw [← hx.exponentOf, ← hy.exponentOf, show f.dimension = _ from hl]
  | opposite =>
    right
    funext base
    rw [Pi.neg_apply, ← hx.exponentOf, ← hy.exponentOf, hl.2 base,
      Int.neg_neg]

end Measure

namespace Quantity

variable {q r result : Quantity} {x y : String → Int}

/-- One lemma for each operation on quantities: what it does to the
exponents. A product adds them, and this is the only place that has to
know how. -/
theorem spans_mul (hq : q.measure.Spans x) (hr : r.measure.Spans y)
    (h : q.mul r = .ok result) : result.measure.Spans (x + y) := by
  obtain ⟨measure, hmeasure, h⟩ := bind_eq_ok_iff.1 h
  cases h
  exact hq.mul hr hmeasure

/-- A quotient subtracts them. -/
theorem spans_div (hq : q.measure.Spans x) (hr : r.measure.Spans y)
    (h : q.div r = .ok result) : result.measure.Spans (x - y) := by
  unfold div at h
  split at h
  · cases h
  · obtain ⟨measure, hmeasure, h⟩ := bind_eq_ok_iff.1 h
    cases h
    exact hq.div hr hmeasure

/-- A reciprocal negates them. -/
theorem spans_inverse (hq : q.measure.Spans x)
    (h : q.inverse = .ok result) : result.measure.Spans (-x) := by
  unfold inverse at h
  split at h
  · cases h
  · obtain ⟨measure, hmeasure, h⟩ := bind_eq_ok_iff.1 h
    cases h
    exact hq.inverse hmeasure

/-- A sum is measured as its first operand. -/
theorem measure_add {peer : Peer Quantity}
    (h : q.add peer = .ok result) :
    result.measure = q.measure ∧ ∃ value, q.countIn peer = .ok value := by
  obtain ⟨value, hvalue, h⟩ := bind_eq_ok_iff.1 h
  cases h
  exact ⟨rfl, value, hvalue⟩

/-- A difference is measured as its first operand, too. Both operands
are counted in its unit, and that is where dimensions are compared. -/
theorem measure_sub {peer : Peer Quantity}
    (h : q.sub peer = .ok result) :
    result.measure = q.measure ∧ ∃ value, q.countIn peer = .ok value := by
  obtain ⟨value, hvalue, h⟩ := bind_eq_ok_iff.1 h
  cases h
  exact ⟨rfl, value, hvalue⟩

/-- Whatever is counted in a unit has the dimension of it, or the
opposite one. -/
theorem agree_of_countIn (hq : q.measure.Spans x)
    (hr : r.measure.Spans y) {value : Float}
    (h : q.countIn (.another r) = .ok value) : Agree y x := by
  obtain ⟨conversion, hconversion, -⟩ := bind_eq_ok_iff.1 h
  exact hr.agree hq hconversion

/-- A converted quantity is measured in the unit it was converted to. -/
theorem measure_convertTo {target : Peer Measure}
    (h : q.convertTo target = .ok result) :
    result.measure = target.value q.measure
      ∧ ∃ conversion, q.measure.convertTo target = .ok conversion := by
  obtain ⟨conversion, hconversion, h⟩ := bind_eq_ok_iff.1 h
  cases h
  exact ⟨rfl, conversion, hconversion⟩

end Quantity

-- ========================================================== expressions

/-- What can be computed from given quantities. Where the other operand
is the very same quantity and not a copy of it, it is not written
down a second time. -/
inductive Expression where
  | quantity (q : Quantity)
  | mul (e f : Expression)
  | div (e f : Expression)
  | inverse (e : Expression)
  | add (e f : Expression)
  | addItself (e : Expression)
  | sub (e f : Expression)
  | subItself (e : Expression)
  | convert (e : Expression) (target : Peer Measure)

namespace Expression

/-- What an expression comes to, operands first. -/
def eval : Expression → Except Fault Quantity
  | quantity q => .ok q
  | mul e f => do
    let q ← e.eval
    let r ← f.eval
    q.mul r
  | div e f => do
    let q ← e.eval
    let r ← f.eval
    q.div r
  | inverse e => do
    let q ← e.eval
    q.inverse
  | add e f => do
    let q ← e.eval
    let r ← f.eval
    q.add (.another r)
  | addItself e => do
    let q ← e.eval
    q.add .itself
  | sub e f => do
    let q ← e.eval
    let r ← f.eval
    q.sub (.another r)
  | subItself e => do
    let q ← e.eval
    q.sub .itself
  | convert e target => do
    let q ← e.eval
    q.convertTo target

/-- The exponents of an expression, as integers without a range. -/
def exponents : Expression → String → Int
  | quantity q => q.measure.exponents
  | mul e f => e.exponents + f.exponents
  | div e f => e.exponents - f.exponents
  | inverse e => -e.exponents
  | add e _ | sub e _ => e.exponents
  | addItself e | subItself e | convert e .itself => e.exponents
  | convert _ (.another n) => n.exponents

/-- The expressions that a node puts together. -/
def operands : Expression → List Expression
  | quantity _ => []
  | mul e f | div e f | add e f | sub e f => [e, f]
  | inverse e | addItself e | subItself e | convert e _ => [e]

/-- An expression is a part of itself, and so are the parts of its
operands. -/
def IsPart : Expression → Expression → Prop :=
  Relation.ReflTransGen fun part e => part ∈ e.operands

/-- The measures that are given at a node and not computed. -/
def measures : Expression → List Measure
  | quantity q => [q.measure]
  | convert _ (.another n) => [n]
  | _ => []

/-- All measures that are given are canonical. -/
def Grounded (e : Expression) : Prop :=
  ∀ part : Expression, part.IsPart e → ∀ m ∈ part.measures, m.Canonical

/-- What is added, subtracted or converted at a node has the same
exponents as that into which it is counted, or the opposite ones. -/
def Compatible : Expression → Prop
  | add e f | sub e f => Agree f.exponents e.exponents
  | convert e (.another n) => Agree e.exponents n.exponents
  | _ => True

variable {e part operand : Expression} {q : Quantity}

/-- Groundedness is about every part, so an operand inherits it. -/
theorem Grounded.of_operand (h : e.Grounded)
    (hoperand : operand ∈ e.operands) : operand.Grounded :=
  fun part hpart => h part (hpart.tail hoperand)

theorem Grounded.canonical (h : e.Grounded) :
    ∀ m ∈ e.measures, m.Canonical := h e .refl

/-- Whether an expression is grounded shows at its root and in its
operands. -/
theorem grounded_iff :
    e.Grounded ↔ (∀ m ∈ e.measures, m.Canonical)
      ∧ ∀ operand ∈ e.operands, operand.Grounded := by
  refine ⟨fun h => ⟨h.canonical, fun operand => h.of_operand⟩, ?_⟩
  rintro ⟨hroot, hoperands⟩ part hpart
  rcases Relation.ReflTransGen.cases_tail hpart with heq | hpart
  · exact heq ▸ hroot
  · obtain ⟨operand, hpart, hoperand⟩ := hpart
    exact hoperands operand hoperand part hpart

-- ============================================================ evaluation

/-- An expression comes to something only when its operands do. -/
theorem eval_operand (h : e.eval = .ok q)
    (hoperand : operand ∈ e.operands) : ∃ r, operand.eval = .ok r := by
  cases e with
  | quantity q => cases hoperand
  | mul e f | div e f | add e f | sub e f =>
    obtain ⟨left, hleft, h⟩ := bind_eq_ok_iff.1 h
    obtain ⟨right, hright, -⟩ := bind_eq_ok_iff.1 h
    rcases List.mem_cons.1 hoperand with rfl | hoperand
    · exact ⟨left, hleft⟩
    · obtain rfl := List.mem_singleton.1 hoperand
      exact ⟨right, hright⟩
  | inverse e | addItself e | subItself e | convert e target =>
    obtain ⟨inner, hinner, -⟩ := bind_eq_ok_iff.1 h
    obtain rfl := List.mem_singleton.1 hoperand
    exact ⟨inner, hinner⟩

/-- Nothing fails in silence: if the root comes to something, every part
has. -/
theorem eval_part (hpart : part.IsPart e) (h : ∃ q, e.eval = .ok q) :
    ∃ r, part.eval = .ok r := by
  induction hpart with
  | refl => exact h
  | tail _ hoperand ih =>
    obtain ⟨q, hq⟩ := h
    exact ih (eval_operand hq hoperand)

/-- Whatever an expression comes to has the exponents of the
expression. -/
theorem eval_spans (he : e.Grounded) (h : e.eval = .ok q) :
    q.measure.Spans e.exponents := by
  induction e generalizing q with
  | quantity p =>
    cases h
    exact (he.canonical _ List.mem_cons_self).spans
  | mul e f ihe ihf =>
    obtain ⟨left, hleft, h⟩ := bind_eq_ok_iff.1 h
    obtain ⟨right, hright, h⟩ := bind_eq_ok_iff.1 h
    exact Quantity.spans_mul (ihe (he.of_operand (by simp [operands])) hleft)
      (ihf (he.of_operand (by simp [operands])) hright) h
  | div e f ihe ihf =>
    obtain ⟨left, hleft, h⟩ := bind_eq_ok_iff.1 h
    obtain ⟨right, hright, h⟩ := bind_eq_ok_iff.1 h
    exact Quantity.spans_div (ihe (he.of_operand (by simp [operands])) hleft)
      (ihf (he.of_operand (by simp [operands])) hright) h
  | inverse e ih =>
    obtain ⟨inner, hinner, h⟩ := bind_eq_ok_iff.1 h
    exact Quantity.spans_inverse
      (ih (he.of_operand (by simp [operands])) hinner) h
  -- a sum or a difference has the unit of its left operand
  | add e f ihe ihf =>
    obtain ⟨left, hleft, h⟩ := bind_eq_ok_iff.1 h
    obtain ⟨right, -, h⟩ := bind_eq_ok_iff.1 h
    rw [(Quantity.measure_add h).1]
    exact ihe (he.of_operand (by simp [operands])) hleft
  | sub e f ihe ihf =>
    obtain ⟨left, hleft, h⟩ := bind_eq_ok_iff.1 h
    obtain ⟨right, -, h⟩ := bind_eq_ok_iff.1 h
    rw [(Quantity.measure_sub h).1]
    exact ihe (he.of_operand (by simp [operands])) hleft
  | addItself e ih =>
    obtain ⟨inner, hinner, h⟩ := bind_eq_ok_iff.1 h
    rw [(Quantity.measure_add h).1]
    exact ih (he.of_operand (by simp [operands])) hinner
  | subItself e ih =>
    obtain ⟨inner, hinner, h⟩ := bind_eq_ok_iff.1 h
    rw [(Quantity.measure_sub h).1]
    exact ih (he.of_operand (by simp [operands])) hinner
  | convert e target ih =>
    obtain ⟨inner, hinner, h⟩ := bind_eq_ok_iff.1 h
    rw [(Quantity.measure_convertTo h).1]
    cases target with
    | itself => exact ih (he.of_operand (by simp [operands])) hinner
    | another n => exact (he.canonical n List.mem_cons_self).spans

/-- A sum, a difference or a conversion that comes to something was made
between equal or opposite dimensions. -/
theorem compatible_of_eval (he : e.Grounded) (h : e.eval = .ok q) :
    e.Compatible := by
  have hspans : ∀ operand ∈ e.operands, ∀ r, operand.eval = .ok r →
      r.measure.Spans operand.exponents :=
    fun operand hoperand r hr => eval_spans (he.of_operand hoperand) hr
  cases e with
  | quantity q | mul e f | div e f | inverse e | addItself e
  | subItself e => trivial
  | add e f =>
    obtain ⟨left, hleft, h⟩ := bind_eq_ok_iff.1 h
    obtain ⟨right, hright, h⟩ := bind_eq_ok_iff.1 h
    obtain ⟨-, value, hvalue⟩ := Quantity.measure_add h
    exact Quantity.agree_of_countIn
      (hspans e (by simp [operands]) left hleft)
      (hspans f (by simp [operands]) right hright) hvalue
  | sub e f =>
    obtain ⟨left, hleft, h⟩ := bind_eq_ok_iff.1 h
    obtain ⟨right, hright, h⟩ := bind_eq_ok_iff.1 h
    obtain ⟨-, value, hvalue⟩ := Quantity.measure_sub h
    exact Quantity.agree_of_countIn
      (hspans e (by simp [operands]) left hleft)
      (hspans f (by simp [operands]) right hright) hvalue
  | convert e target =>
    cases target with
    | itself => trivial
    | another n =>
      obtain ⟨inner, hinner, h⟩ := bind_eq_ok_iff.1 h
      obtain ⟨-, conversion, hconversion⟩ := Quantity.measure_convertTo h
      exact (hspans e (by simp [operands]) inner hinner).agree
        (he.canonical n List.mem_cons_self).spans hconversion

/-- Dimensions are sound. An expression that comes to a quantity has
come to one with exactly its own exponents, and each of its parts had
operands that go together. A part that was computed had such operands
in any case; a part whose exponents leave the range fails, and with it
the whole. -/
theorem eval_sound (he : e.Grounded) :
    (∀ q, e.eval = .ok q →
        q.measure.Spans e.exponents
          ∧ ∀ part : Expression, part.IsPart e →
              (∃ r, part.eval = .ok r) ∧ part.Compatible)
      ∧ ∀ part : Expression, part.IsPart e →
          ((∃ r, part.eval = .ok r) → part.Compatible)
            ∧ ((∃ base, ¬ Exponent.InRange (part.exponents base)) →
                (∃ fault, part.eval = .error fault)
                  ∧ ∃ fault, e.eval = .error fault) := by
  have hpart : ∀ part : Expression, part.IsPart e → part.Grounded :=
    fun part hpart other hother => he other (hother.trans hpart)
  have hcompatible : ∀ part : Expression, part.IsPart e →
      (∃ r, part.eval = .ok r) → part.Compatible := by
    rintro part hin ⟨r, hr⟩
    exact compatible_of_eval (hpart part hin) hr
  refine ⟨fun q hq => ⟨eval_spans he hq, fun part hin => ?_⟩,
    fun part hin => ⟨hcompatible part hin, ?_⟩⟩
  · have hr := eval_part hin ⟨q, hq⟩
    exact ⟨hr, hcompatible part hin hr⟩
  · rintro ⟨base, hout⟩
    have hfail : ¬ ∃ r, part.eval = .ok r := by
      rintro ⟨r, hr⟩
      exact hout ((eval_spans (hpart part hin) hr).inRange base)
    exact ⟨exists_error_iff.2 hfail,
      exists_error_iff.2 fun h => hfail (eval_part hin h)⟩

/-- A quantity by itself is grounded when its exponent is not zero. -/
theorem grounded_quantity (value : Float) (symbol : String)
    (factor : Scientific) {n : Exponent} (hn : n ≠ 0) :
    (quantity ⟨value, .ofSeconds symbol factor n⟩).Grounded := by
  refine grounded_iff.2 ⟨fun m hm => ?_, fun operand h => nomatch h⟩
  obtain rfl := List.mem_singleton.1 hm
  refine ⟨_, rfl, Dimension.canonical_cons.2 ?_⟩
  exact ⟨fun q hq => absurd hq List.not_mem_nil, hn,
    Dimension.canonical_nil⟩

/-- A minute added to the period of two hertz. -/
def minuteMore : Expression :=
  add (inverse (quantity ⟨2.0, .ofSeconds "Hz" 1 (-1)⟩))
    (quantity ⟨1.0, .ofSeconds "min" ⟨6.0, 1⟩ 1⟩)

/-- Seconds to the greatest exponent, times seconds. -/
def beyondGreatest : Expression :=
  mul (quantity ⟨1.0, .ofSeconds "s" 1 .greatest⟩)
    (quantity ⟨1.0, .ofSeconds "s" 1 1⟩)

theorem grounded_minuteMore : minuteMore.Grounded := by
  refine grounded_iff.2 ⟨fun m hm => absurd hm List.not_mem_nil, ?_⟩
  refine List.forall_mem_cons.2 ⟨?_, List.forall_mem_singleton.2 ?_⟩
  · refine grounded_iff.2 ⟨fun m hm => absurd hm List.not_mem_nil, ?_⟩
    exact List.forall_mem_singleton.2
      (grounded_quantity 2.0 "Hz" 1 (by decide : (-1 : Exponent) ≠ 0))
  · exact grounded_quantity 1.0 "min" _ (by decide : (1 : Exponent) ≠ 0)

theorem grounded_beyondGreatest : beyondGreatest.Grounded := by
  refine grounded_iff.2 ⟨fun m hm => absurd hm List.not_mem_nil, ?_⟩
  refine List.forall_mem_cons.2 ⟨?_, List.forall_mem_singleton.2 ?_⟩
  · exact grounded_quantity 1.0 "s" 1 (by decide : Exponent.greatest ≠ 0)
  · exact grounded_quantity 1.0 "s" 1 (by decide : (1 : Exponent) ≠ 0)

/-- The sum comes to seconds, and the product fails. -/
theorem eval_sound_seconds :
    (∃ q, minuteMore.eval = .ok q ∧ q.measure.Spans minuteMore.exponents
        ∧ minuteMore.exponents "s" = 1)
      ∧ ∃ fault, beyondGreatest.eval = .error fault := by
  have hrun : minuteMore.eval.toOption.isSome = true := by
    decide +kernel
  constructor
  · obtain ⟨q, hq⟩ := Option.isSome_iff_exists.1 hrun
    have hq := eq_ok_of_toOption hq
    exact ⟨q, hq, ((eval_sound grounded_minuteMore).1 q hq).1, by decide⟩
  · refine (((eval_sound grounded_beyondGreatest).2 _ .refl).2
      ⟨"s", ?_⟩).1
    decide

end Expression

end UnitAlgebra
