/-
The other operand of an operation. Some operations treat an operand
that is the receiver itself differently from one that merely equals
it, so what stands on the other side says which of the two it is.
-/
namespace UnitAlgebra

/-- The other operand: the receiver itself, or something else, which
may be equal to it. -/
inductive Peer (α : Type) where
  | itself
  | another (value : α)

namespace Peer

/-- The operand's value, for a given receiver. -/
def value {α : Type} (self : α) : Peer α → α
  | itself => self
  | another a => a

/-- The operand seen through a function of both sides. -/
def map {α β : Type} (f : α → β) : Peer α → Peer β
  | itself => itself
  | another a => another (f a)

end Peer

end UnitAlgebra
