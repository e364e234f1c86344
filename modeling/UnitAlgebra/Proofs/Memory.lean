/-
The memory of a unit system. A memory is faithful when every measure in
it is what its text is read as. Reading keeps it so (`Faithful.read`),
whether the text was in it or not, and whether it could be read or not.
So along any row of texts a system that remembers answers as it would
without a memory (`Faithful.read_eq`, `Remembers.faithful`).

This is the step of one text, which the proofs about readers use. What
whole services do with a memory, and what exactly is in it, is told in
`UnitAlgebra.Proofs.Remembering`.
-/
import UnitAlgebra.Service

namespace UnitAlgebra.UnitSystem

/-- The memories that reading text after text leads to. -/
inductive Remembers (system : UnitSystem) : Memory → Prop where
  | empty : Remembers system .empty
  | read {memory : Memory} (h : Remembers system memory)
      (text : String) :
      Remembers system ((system.readRemembering text).run.run memory).2

/-- Every measure in a memory is what its text is read as. -/
def Faithful (system : UnitSystem) (memory : Memory) : Prop :=
  ∀ text m, memory.find? text = some m → system.read text = .ok m

variable {system : UnitSystem} {memory : Memory}

/-- Reading with a memory, taken apart into its three outcomes. -/
theorem run_readRemembering (system : UnitSystem) (text : String)
    (memory : Memory) :
    (system.readRemembering text).run.run memory =
      match memory.find? text with
      | some m => (.ok m, memory)
      | none =>
        match system.read text with
        | .ok m => (.ok m, memory.insert text m)
        | .error fault => (.error fault, memory) :=
  rfl

/-- A text that is remembered is not read again. -/
theorem run_readRemembering_of_find? {text : String} {m : Measure}
    (h : memory.find? text = some m) :
    (system.readRemembering text).run.run memory = (.ok m, memory) := by
  rw [run_readRemembering, h]

/-- A text that is not remembered is read, and remembered if it could
be. -/
theorem run_readRemembering_of_find?_eq_none {text : String}
    (h : memory.find? text = none) :
    (system.readRemembering text).run.run memory =
      match system.read text with
      | .ok m => (.ok m, memory.insert text m)
      | .error fault => (.error fault, memory) := by
  rw [run_readRemembering, h]

/-- From a faithful memory comes what would be read. -/
theorem Faithful.read_eq (h : system.Faithful memory) (text : String) :
    ((system.readRemembering text).run.run memory).1
      = system.read text := by
  cases hfind : memory.find? text with
  | some m => rw [run_readRemembering_of_find? hfind, h text m hfind]
  | none =>
    rw [run_readRemembering_of_find?_eq_none hfind]
    cases system.read text with
    | ok m => rfl
    | error fault => rfl

theorem faithful_empty : system.Faithful .empty :=
  fun _ _ h => nomatch h

/-- A memory stays faithful when a text is put into it with what it is
read as. -/
theorem Faithful.insert (h : system.Faithful memory) {text : String}
    {m : Measure} (hm : system.read text = .ok m) :
    system.Faithful (memory.insert text m) := by
  intro other n hn
  have hlookup : ((text, m) :: memory.known).lookup other = some n := hn
  rw [List.lookup_cons] at hlookup
  split at hlookup
  · next heq =>
    cases hlookup
    rw [eq_of_beq heq, hm]
  · exact h other n hlookup

/-- Reading keeps a memory faithful. -/
theorem Faithful.read (h : system.Faithful memory) (text : String) :
    system.Faithful ((system.readRemembering text).run.run memory).2 := by
  cases hfind : memory.find? text with
  | some m =>
    rw [run_readRemembering_of_find? hfind]
    exact h
  | none =>
    rw [run_readRemembering_of_find?_eq_none hfind]
    cases hread : system.read text with
    | ok m => exact h.insert hread
    | error fault => exact h

/-- Every memory that comes of reading is faithful, however long the row
of texts was. -/
theorem Remembers.faithful (h : system.Remembers memory) :
    system.Faithful memory := by
  induction h with
  | empty => exact faithful_empty
  | read _ text ih => exact ih.read text

end UnitAlgebra.UnitSystem
