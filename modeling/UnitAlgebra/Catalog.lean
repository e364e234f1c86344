/-
Catalogs: every derived unit reduced to base units. A catalog is built
from definitions that may refer to each other in any order; building
it expands every definition down to base units once, so that reducing
a written unit later takes one look-up per term.

# The expansion

It is a depth-first walk along the references. It carries two things.
`path` lists the names on the way down to where the walk stands: a
reference back to one of them closes a cycle. A step down goes to a
defined name that is not on the path, so the walk ends on every table,
cyclic ones included. `known` holds the entries that are finished, so
that a unit shared by many definitions is expanded once.

Definitions are checked one by one before the walk begins, and the walk
goes through them in the order of their names. Two of its faults can
therefore never be seen, a name without a definition and a name without
an entry; they stand for what the walk takes for granted.

# Reduction

Reducing multiplies the terms of a row into a form, one after the other,
as the walk does with targets. The coefficient of a term takes the sign
of the exponent and nothing else of it. A term that cannot be multiplied
in is reported by its symbol, whether that is unknown or out of range.
-/
import UnitAlgebra.Definition
import UnitAlgebra.Dimension
import UnitAlgebra.Term

namespace UnitAlgebra

variable {α : Type} [Scalar α]

-- =========================================================== expansion

/-- Derived units by name, each expressed in base units. -/
abbrev Catalog.Entries (α : Type := Scientific) :=
  List (String × BaseForm α)

namespace Expansion

/-- What a definition is expanded against. -/
structure Table (α : Type := Scientific) where
  base : List String
  definitions : Definitions α

/-- The names of the definitions that are not on the path. -/
def Table.ahead {α : Type} (table : Table α) (path : List String) :
    List String :=
  (table.definitions.map Prod.fst).filter fun name => name ∉ path

/-- A step down leaves fewer names ahead. -/
theorem Table.length_ahead_cons {α : Type} {table : Table α}
    {path : List String} {name : String} {definition : Definition α}
    (hpath : name ∉ path)
    (h : table.definitions.lookup name = some definition) :
    (table.ahead (name :: path)).length < (table.ahead path).length := by
  have hsplit : table.ahead (name :: path)
      = (table.ahead path).filter fun other => other ≠ name := by
    unfold ahead
    rw [List.filter_filter]
    refine List.filter_congr fun other _ => ?_
    simp [List.mem_cons, not_or]
  have hname : name ∈ table.ahead path := by
    obtain ⟨before, after, heq, -⟩ := List.lookup_eq_some_iff.1 h
    simp [ahead, heq, hpath]
  rw [hsplit]
  exact List.length_filter_lt_length_iff_exists.2 ⟨name, hname, by simp⟩

mutual

/-- Everything known once `name` has an entry: that of its definition,
unless it has one already. -/
def entry (table : Table α) (path : List String)
    (known : Catalog.Entries α) (name : String) :
    Except Fault (Catalog.Entries α) :=
  match known.lookup name with
  | some _ => .ok known
  | none =>
    if _hpath : name ∈ path then .error (.construction (.cycle name))
    else
      match _h : table.definitions.lookup name with
      | none => .error (.construction (.noDefinition name))
      | some definition => do
        let (known, form) ← expand table (name :: path) known name
          ⟨definition.ratio, []⟩ definition.targets
        .ok ((name, form) :: known)
termination_by ((table.ahead path).length, 0)
decreasing_by
  exact Prod.Lex.left _ _ (Table.length_ahead_cons _hpath _h)

/-- The form so far, times the targets still to come in the definition
of `name`. -/
def expand (table : Table α) (path : List String)
    (known : Catalog.Entries α) (name : String) (form : BaseForm α) :
    List Target → Except Fault (Catalog.Entries α × BaseForm α)
  | [] => .ok (known, form)
  | t :: targets => do
    let factor := form.factor * (← Scalar.pow t.scale.factor t.exponent)
    if t.name ∈ table.base then
      match form.dimension.add? t.name t.exponent with
      | none => .error (.construction (.overflow name))
      | some dimension =>
        expand table path known name ⟨factor, dimension⟩ targets
    else if (table.definitions.lookup t.name).isNone then
      .error (.construction (.unknownTarget name t.name))
    else do
      let known ← entry table path known t.name
      match known.lookup t.name with
      | none => .error (.construction (.noEntry t.name))
      | some inner =>
        let factor := factor * (← Scalar.pow inner.factor t.exponent)
        match form.dimension.addScaled? t.exponent inner.dimension with
        | none => .error (.construction (.overflow name))
        | some dimension =>
          expand table path known name ⟨factor, dimension⟩ targets
termination_by targets => ((table.ahead path).length, targets.length)
decreasing_by
  · exact Prod.Lex.right _ (by simp)
  · exact Prod.Lex.right _ (by simp)
  · exact Prod.Lex.right _ (by simp)

end

/-- Every definition expanded, in the order of the table. -/
def entries (table : Table α) : Except Fault (Catalog.Entries α) :=
  table.definitions.foldlM
    (fun known (name, _) => entry table [] known name) []

end Expansion

-- ============================================================ building

/-- Base units, and derived units expressed in them. -/
structure Catalog (α : Type := Scientific) where
  base : List String
  entries : Catalog.Entries α

namespace Catalog

/-- The first thing wrong with a list of definitions taken one by one:
a name that is a base unit, a ratio of zero, or a name defined
before. -/
def check (base seen : List String) :
    Definitions α → Except Fault Unit
  | [] => .ok ()
  | (name, definition) :: rest =>
    if name ∈ base then .error (.construction (.baseAndDerived name))
    else if Scalar.isZero definition.ratio then
      .error (.construction (.zeroRatio name))
    else if name ∈ seen then .error (.construction (.definedTwice name))
    else check base (name :: seen) rest

/-- Whether the first name does not come after the second. -/
def namesInOrder (a b : String × Definition α) : Bool := a.1 ≤ b.1

/-- The catalog of a list of definitions over base units. Definitions
are expanded in the order of their names, so nothing depends on the
order in which they were given. -/
def build (definitions : Definitions α) (base : List String) :
    Except Fault (Catalog α) := do
  if base.isEmpty then
    throw (.construction .noBase)
  check base [] definitions
  let entries ← Expansion.entries
    ⟨base, definitions.mergeSort namesInOrder⟩
  .ok ⟨base.eraseDups.mergeSort, entries⟩

/-- The derived units, by name. -/
def derived (c : Catalog α) : List String :=
  (c.entries.map Prod.fst).mergeSort

/-- Whether a symbol is a base unit or a derived unit. -/
def knows (c : Catalog α) (symbol : String) : Bool :=
  symbol ∈ c.base || (c.entries.lookup symbol).isSome

-- =========================================================== reduction

/-- A form times one more term. -/
def reduceTerm (c : Catalog α) (form : BaseForm α) (t : Term α) :
    Except Fault (BaseForm α) := do
  let coefficient ← Scalar.pow t.coefficient t.exponent.signum
  let factor := form.factor * coefficient
  let factor := factor * (← Scalar.pow t.scale.factor t.exponent)
  if t.symbol ∈ c.base then
    match form.dimension.add? t.symbol t.exponent with
    | none => .error (.irreducible t.symbol)
    | some dimension => .ok ⟨factor, dimension⟩
  else
    match c.entries.lookup t.symbol with
    | none => .error (.irreducible t.symbol)
    | some inner =>
      let factor := factor * (← Scalar.pow inner.factor t.exponent)
      match form.dimension.addScaled? t.exponent inner.dimension with
      | none => .error (.irreducible t.symbol)
      | some dimension => .ok ⟨factor, dimension⟩

/-- The product of terms, in base units. -/
def reduce (c : Catalog α) (terms : List (Term α)) :
    Except Fault (BaseForm α) :=
  terms.foldlM c.reduceTerm ⟨1, []⟩

end Catalog

end UnitAlgebra
