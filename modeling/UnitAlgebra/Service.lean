/-
Services: what a unit system does for its users, built from two things
only, reading a text and reducing a measure. Every other operation
takes measures or texts alike and reads the texts first.

A service works in a monad of its own. The unit system itself is a
service without effects. A remembering service keeps every measure it
has read by the exact text, and answers a text it has met before from
memory; a text that could not be read is not remembered.
-/
import UnitAlgebra.Quantity
import UnitAlgebra.UnitSystem

namespace UnitAlgebra

/-- A measure, or a text to be read as one. -/
inductive Designation where
  | text (text : String)
  | given (measure : Measure)

/-- Reading texts and reducing measures, in a monad. -/
structure Service (m : Type → Type) where
  read : String → ExceptT Fault m Measure
  reduce : Measure → ExceptT Fault m Measure

/-- A result that no effect had a part in. -/
def liftExcept {α : Type} {m : Type → Type} [Monad m]
    (result : Except Fault α) : ExceptT Fault m α :=
  ExceptT.mk (pure result)

namespace Service

variable {m : Type → Type} [Monad m] (service : Service m)

/-- The measure that a name stands for; a name is a text like any
other. -/
def lookup {m : Type → Type} (service : Service m) (name : String) :
    ExceptT Fault m Measure :=
  service.read name

/-- The measure that a designation stands for. -/
def resolve : Designation → ExceptT Fault m Measure
  | .text text => service.read text
  | .given measure => pure measure

/-- A peer of measures, from a peer of designations. -/
def resolvePeer : Peer Designation → ExceptT Fault m (Peer Measure)
  | .itself => pure .itself
  | .another target => .another <$> service.resolve target

/-- A value with a unit. -/
def quantity (value : Float) (unit : Designation) :
    ExceptT Fault m Quantity := do
  return ⟨value, ← service.resolve unit⟩

/-- The conversion from one unit into another. -/
def conversion (source : Designation) (target : Peer Designation) :
    ExceptT Fault m Conversion := do
  let measure ← service.resolve source
  let peer ← service.resolvePeer target
  liftExcept (measure.convertTo peer)

/-- A quantity counted in another unit; `itself` is the unit that the
quantity already has. -/
def convert (q : Quantity) (target : Peer Designation) :
    ExceptT Fault m Quantity := do
  let peer ← service.resolvePeer target
  liftExcept (q.convertTo peer)

end Service

-- =========================================================== two services

/-- A unit system as a service, which has no effects in any monad. -/
def UnitSystem.service {m : Type → Type} [Monad m]
    (system : UnitSystem) : Service m :=
  ⟨fun text => liftExcept (system.read text),
    fun measure => liftExcept (system.reduce measure)⟩

/-- The measures read so far, by their texts. -/
structure Memory where
  known : List (String × Measure)

namespace Memory

/-- A memory that has nothing in it. -/
def empty : Memory := ⟨[]⟩

/-- The number of texts remembered. -/
def size (memory : Memory) : Nat := memory.known.length

/-- The measure remembered for a text. -/
def find? (memory : Memory) (text : String) : Option Measure :=
  memory.known.lookup text

/-- A memory with one more text in it. -/
def insert (memory : Memory) (text : String) (measure : Measure) :
    Memory :=
  ⟨(text, measure) :: memory.known⟩

end Memory

/-- The measure of a text, from memory if it is there. A text read for
the first time is remembered if it could be read. -/
def UnitSystem.readRemembering (system : UnitSystem) (text : String) :
    ExceptT Fault (StateM Memory) Measure :=
  ExceptT.mk fun memory =>
    match memory.find? text with
    | some measure => (.ok measure, memory)
    | none =>
      match system.read text with
      | .ok measure => (.ok measure, memory.insert text measure)
      | .error fault => (.error fault, memory)

/-- A unit system as a service that remembers what it has read. -/
def UnitSystem.remembering (system : UnitSystem) :
    Service (StateM Memory) :=
  { system.service with read := system.readRemembering }

end UnitAlgebra
