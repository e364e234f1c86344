/-
A service that remembers, over whole runs. Whatever a user asks for,
text after text and operation after operation, the answers are those of
the service that remembers nothing, and the memory holds exactly the
texts that could be read since it was last cleared, each with what it
is read as (`remembered_answers`).

# The invariant

`Remembered service texts memory` says that the memory holds the texts
`texts`, each once and as the service reads it. An operation of the
service that remembers `Follows` the same operation of the plain one
when, from any such memory, it gives the same result and leaves a memory
that holds the texts which were read on the way as well.

# What follows

- Reading a text (`follows_read`). A text that is found is not read
  again; one that is read is put into memory; one that cannot be read
  leaves no trace, so that it fails again the next time.
- What has no effects (`follows_liftExcept`).
- One computation after another, when both do (`Follows.bind`), also
  when the first one fails: its texts stay in memory.

Every operation is put together from these, so each request follows
(`follows_answer`). From one request a run follows by induction
(`Remembered.run`), and the size of the memory is a matter of counting
different texts (`Remembered.size_eq`).

The texts that an operation reads are told by its arguments alone
(`Request.reads`), apart from running it. Where the first unit of two
cannot be read the second one is not looked at, and the list says so.
-/
import Mathlib.Data.Finset.Card
import UnitAlgebra.Service

namespace UnitAlgebra

-- ============================================================ requests

/-- What may be asked of a service. -/
inductive Request where
  | read (text : String)
  | lookup (name : String)
  | reduce (measure : Measure)
  | resolve (unit : Designation)
  | quantity (value : Float) (unit : Designation)
  | conversion (source : Designation) (target : Peer Designation)
  | convert (q : Quantity) (target : Peer Designation)
  /-- To forget every text. -/
  | clear

/-- What a service answers when it does not fail. -/
inductive Answer where
  | measure (m : Measure)
  | quantity (q : Quantity)
  | conversion (c : Conversion)
  /-- The answer to a request to forget. -/
  | done

namespace Service

section

variable {m : Type → Type} [Monad m] (service : Service m)

/-- The answer to a request; `clear` is how the service forgets. -/
def answer (clear : m Unit) : Request → ExceptT Fault m Answer
  | .read text => return .measure (← service.read text)
  | .lookup name => return .measure (← service.lookup name)
  | .reduce measure => return .measure (← service.reduce measure)
  | .resolve unit => return .measure (← service.resolve unit)
  | .quantity value unit =>
    return .quantity (← service.quantity value unit)
  | .conversion source target =>
    return .conversion (← service.conversion source target)
  | .convert q target => return .quantity (← service.convert q target)
  | .clear => do
    clear
    return .done

/-- The answers to one request after the other. A request that fails
does not stop those that come after it. -/
def answers (clear : m Unit) (requests : List Request) :
    m (List (Except Fault Answer)) :=
  requests.mapM fun request => (service.answer clear request).run

end

/-- The answer of a service that has no effects, and so has nothing to
forget. -/
def plainAnswer (service : Service Id) (request : Request) :
    Except Fault Answer :=
  (service.answer (pure ()) request).run.run

/-- A service without effects, made to remember what it has read. -/
def remembering (service : Service Id) : Service (StateM Memory) where
  read text := ExceptT.mk fun memory =>
    match memory.find? text with
    | some measure => (.ok measure, memory)
    | none =>
      match (service.read text).run.run with
      | .ok measure => (.ok measure, memory.insert text measure)
      | .error fault => (.error fault, memory)
  reduce measure := liftExcept (service.reduce measure).run.run

/-- A unit system remembers as any service does. -/
theorem remembering_eq (system : UnitSystem) :
    system.remembering = system.service.remembering := rfl

end Service

-- ========================================================= what is read

/-- The texts that are read behind a result, if there is one. -/
def textsAfter {α : Type} (result : Except Fault α)
    (texts : List String) : List String :=
  match result with
  | .ok _ => texts
  | .error _ => []

/-- The text of a designation, if it is one that can be read. -/
def Designation.reads (service : Service Id) : Designation → List String
  | .text written => textsAfter (service.read written).run.run [written]
  | .given _ => []

def Peer.reads (service : Service Id) : Peer Designation → List String
  | .itself => []
  | .another unit => unit.reads service

/-- The texts that are read to answer a request, whether it is answered
in the end or not. The target of a conversion is read only if there is
a source to convert. -/
def Request.reads (service : Service Id) : Request → List String
  | .read text => Designation.reads service (.text text)
  | .lookup name => Designation.reads service (.text name)
  | .reduce _ => []
  | .resolve unit => unit.reads service
  | .quantity _ unit => unit.reads service
  | .conversion source target =>
    source.reads service
      ++ textsAfter (service.resolve source).run.run
          (target.reads service)
  | .convert _ target => target.reads service
  | .clear => []

/-- The texts that were read since the last request to forget, with one
more request. -/
def Request.since (service : Service Id) (texts : List String) :
    Request → List String
  | .clear => []
  | request => texts ++ request.reads service

-- =========================================================== the memory

/-- The texts in a memory. -/
def Memory.texts (memory : Memory) : List String :=
  memory.known.map Prod.fst

/-- A text is found exactly when it is one of the texts of the memory.
-/
theorem Memory.exists_find?_iff {memory : Memory} {text : String} :
    (∃ m, memory.find? text = some m) ↔ text ∈ memory.texts := by
  unfold find? texts
  rw [← Option.ne_none_iff_exists', ne_eq, List.lookup_eq_none_iff,
    List.mem_map]
  constructor
  · intro h
    by_contra hnone
    refine h fun p hp => bne_iff_ne.2 fun heq => ?_
    exact hnone ⟨p, hp, heq.symm⟩
  · rintro ⟨p, hp, rfl⟩ hall
    exact bne_iff_ne.1 (hall p hp) rfl

/-- A memory holds these texts, each once and as the service reads
it. -/
structure Remembered (service : Service Id) (texts : List String)
    (memory : Memory) : Prop where
  faithful : ∀ text m, memory.find? text = some m →
    (service.read text).run.run = .ok m
  nodup : memory.texts.Nodup
  mem_iff : ∀ text, text ∈ memory.texts ↔ text ∈ texts

variable {service : Service Id} {texts : List String} {memory : Memory}

/-- An empty memory holds no texts, as the service reads them. -/
theorem remembered_empty (service : Service Id) :
    Remembered service [] .empty where
  faithful _ _ h := nomatch h
  nodup := List.nodup_nil
  mem_iff _ := Iff.rfl

/-- A text that is in memory may be read again. -/
theorem Remembered.again (h : Remembered service texts memory)
    {text : String} {m : Measure} (hfind : memory.find? text = some m) :
    Remembered service (texts ++ [text]) memory where
  faithful := h.faithful
  nodup := h.nodup
  mem_iff other := by
    have hin : text ∈ texts :=
      (h.mem_iff text).1 (Memory.exists_find?_iff.1 ⟨m, hfind⟩)
    rw [h.mem_iff other, List.mem_append, List.mem_singleton]
    exact ⟨.inl, fun hother => hother.elim id fun heq => heq ▸ hin⟩

/-- A text that is new to the memory is put into it. -/
theorem Remembered.insert (h : Remembered service texts memory)
    {text : String} {m : Measure}
    (hread : (service.read text).run.run = .ok m)
    (hnew : memory.find? text = none) :
    Remembered service (texts ++ [text]) (memory.insert text m) := by
  have hout : text ∉ memory.texts := by
    intro hin
    obtain ⟨n, hn⟩ := Memory.exists_find?_iff.2 hin
    rw [hnew] at hn
    cases hn
  refine ⟨fun other n hn => ?_, List.nodup_cons.2 ⟨hout, h.nodup⟩,
    fun other => ?_⟩
  · have hlookup : ((text, m) :: memory.known).lookup other = some n :=
      hn
    rw [List.lookup_cons] at hlookup
    split at hlookup
    · next heq =>
      cases hlookup
      rw [eq_of_beq heq, hread]
    · exact h.faithful other n hlookup
  · show other ∈ text :: memory.texts ↔ _
    rw [List.mem_cons, List.mem_append, List.mem_singleton, or_comm]
    exact or_congr_left (h.mem_iff other)

-- ============================================================ following

section

variable {α β : Type}

/-- With a memory a computation gives what the plain one gives, and
leaves the texts `reads` in the memory beside those that were there. -/
def Follows (service : Service Id)
    (x : ExceptT Fault (StateM Memory) α) (y : ExceptT Fault Id α)
    (reads : List String) : Prop :=
  ∀ texts memory, Remembered service texts memory →
    ∃ memory', x.run.run memory = (y.run.run, memory')
      ∧ Remembered service (texts ++ reads) memory'

/-- What comes after a success runs on the memory that the success has
left. -/
theorem run_bind_of_ok {x : ExceptT Fault (StateM Memory) α}
    {f : α → ExceptT Fault (StateM Memory) β} {memory memory' : Memory}
    {a : α} (h : x.run.run memory = (.ok a, memory')) :
    (x >>= f).run.run memory = (f a).run.run memory' := by
  rw [ExceptT.run_bind, StateT.run_bind, h]
  rfl

/-- What comes after a failure does not run, but the failure keeps the
memory that it has left. The plain service has no such trace, and this
is why the two have to be compared step by step. -/
theorem run_bind_of_error {x : ExceptT Fault (StateM Memory) α}
    {f : α → ExceptT Fault (StateM Memory) β} {memory memory' : Memory}
    {fault : Fault} (h : x.run.run memory = (.error fault, memory')) :
    (x >>= f).run.run memory = (.error fault, memory') := by
  rw [ExceptT.run_bind, StateT.run_bind, h]
  rfl

/-- A computation without effects gives the same result on both sides
and reads nothing. -/
theorem follows_liftExcept (result : Except Fault α) :
    Follows service (liftExcept result) (liftExcept result) [] := by
  intro texts memory h
  refine ⟨memory, rfl, ?_⟩
  rw [List.append_nil]
  exact h

/-- What the first of two computations has read stays read, whether it
succeeds or not; what the second would read is read only behind a
value. -/
theorem Follows.bind {x : ExceptT Fault (StateM Memory) α}
    {y : ExceptT Fault Id α} {reads more : List String}
    {f : α → ExceptT Fault (StateM Memory) β}
    {g : α → ExceptT Fault Id β} (hx : Follows service x y reads)
    (hf : ∀ a, Follows service (f a) (g a) more) :
    Follows service (x >>= f) (y >>= g)
      (reads ++ textsAfter y.run.run more) := by
  intro texts memory h
  obtain ⟨memory', hrun, h'⟩ := hx texts memory h
  rw [← List.append_assoc]
  -- without effects a computation is its result
  change Except Fault α at y
  cases y with
  | error fault =>
    refine ⟨memory', run_bind_of_error hrun, ?_⟩
    show Remembered service (texts ++ reads ++ []) memory'
    rw [List.append_nil]
    exact h'
  | ok a =>
    obtain ⟨memory'', hrun', h''⟩ := hf a _ _ h'
    exact ⟨memory'', (run_bind_of_ok hrun).trans hrun', h''⟩

/-- What comes after a computation without effects reads nothing. -/
theorem Follows.bind_liftExcept {x : ExceptT Fault (StateM Memory) α}
    {y : ExceptT Fault Id α} {reads : List String}
    (hx : Follows service x y reads) (f : α → Except Fault β) :
    Follows service (x >>= fun a => liftExcept (f a))
      (y >>= fun a => liftExcept (f a)) reads := by
  have h := hx.bind fun a => follows_liftExcept (f a)
  have hnone : textsAfter y.run.run [] = [] := by
    unfold textsAfter
    split
    · rfl
    · rfl
  rw [hnone, List.append_nil] at h
  exact h

theorem Follows.bind_pure {x : ExceptT Fault (StateM Memory) α}
    {y : ExceptT Fault Id α} {reads : List String}
    (hx : Follows service x y reads) (f : α → β) :
    Follows service (x >>= fun a => pure (f a))
      (y >>= fun a => pure (f a)) reads :=
  hx.bind_liftExcept fun a => .ok (f a)

end

-- ======================================================= each operation

/-- Reading a text, taken apart: it is found, or it is read and put into
memory, or it cannot be read. -/
theorem run_read_remembering (service : Service Id) (text : String)
    (memory : Memory) :
    (service.remembering.read text).run.run memory =
      match memory.find? text with
      | some m => (.ok m, memory)
      | none =>
        match (service.read text).run.run with
        | .ok m => (.ok m, memory.insert text m)
        | .error fault => (.error fault, memory) :=
  rfl

/-- A text that cannot be read leaves no trace. -/
theorem Remembered.run_read_of_error
    (h : Remembered service texts memory) {text : String} {fault : Fault}
    (hread : (service.read text).run.run = .error fault) :
    (service.remembering.read text).run.run memory
      = (.error fault, memory) := by
  have hnew : memory.find? text = none := by
    rw [Option.eq_none_iff_forall_ne_some]
    intro m hm
    cases hread.symm.trans (h.faithful text m hm)
  rw [run_read_remembering, hnew, hread]

/-- Reading a text follows reading it. All that follow below are put
together from this one. -/
theorem follows_read (service : Service Id) (text : String) :
    Follows service (service.remembering.read text) (service.read text)
      (Designation.reads service (.text text)) := by
  intro texts memory h
  show ∃ memory', _ ∧ Remembered service
    (texts ++ textsAfter (service.read text).run.run [text]) memory'
  cases hread : (service.read text).run.run with
  | error fault =>
    refine ⟨memory, h.run_read_of_error hread, ?_⟩
    show Remembered service (texts ++ []) memory
    rw [List.append_nil]
    exact h
  | ok m =>
    rw [run_read_remembering]
    cases hfind : memory.find? text with
    | none =>
      rw [hread]
      exact ⟨_, rfl, h.insert hread hfind⟩
    | some n =>
      have hsame := (h.faithful text n hfind).symm.trans hread
      obtain rfl : n = m := Except.ok.inj hsame
      exact ⟨memory, rfl, h.again hfind⟩

/-- A unit that is given as a text is read, and one that is at hand is
not. -/
theorem follows_resolve (service : Service Id) (unit : Designation) :
    Follows service (service.remembering.resolve unit)
      (service.resolve unit) (unit.reads service) := by
  cases unit with
  | text written => exact follows_read service written
  | given m => exact follows_liftExcept (.ok m)

theorem follows_resolvePeer (service : Service Id)
    (target : Peer Designation) :
    Follows service (service.remembering.resolvePeer target)
      (service.resolvePeer target) (target.reads service) := by
  cases target with
  | itself => exact follows_liftExcept (.ok Peer.itself)
  | another unit =>
    exact (follows_resolve service unit).bind_pure Peer.another

theorem follows_quantity (service : Service Id) (value : Float)
    (unit : Designation) :
    Follows service (service.remembering.quantity value unit)
      (service.quantity value unit) (unit.reads service) :=
  (follows_resolve service unit).bind_pure _

theorem follows_conversion (service : Service Id) (source : Designation)
    (target : Peer Designation) :
    Follows service (service.remembering.conversion source target)
      (service.conversion source target)
      (Request.reads service (.conversion source target)) :=
  (follows_resolve service source).bind fun _ =>
    (follows_resolvePeer service target).bind_liftExcept _

theorem follows_convert (service : Service Id) (q : Quantity)
    (target : Peer Designation) :
    Follows service (service.remembering.convert q target)
      (service.convert q target) (target.reads service) :=
  (follows_resolvePeer service target).bind_liftExcept _

/-- A request is answered as it would be without a memory. -/
theorem follows_answer (service : Service Id) {request : Request}
    (hclear : request ≠ .clear) :
    Follows service
      (service.remembering.answer (set Memory.empty) request)
      (service.answer (pure ()) request) (request.reads service) := by
  cases request with
  | read text => exact (follows_read service text).bind_pure _
  | lookup name => exact (follows_read service name).bind_pure _
  | reduce m =>
    exact (follows_liftExcept (service.reduce m).run.run).bind_pure _
  | resolve unit => exact (follows_resolve service unit).bind_pure _
  | quantity value unit =>
    exact (follows_quantity service value unit).bind_pure _
  | conversion source target =>
    exact (follows_conversion service source target).bind_pure _
  | convert q target =>
    exact (follows_convert service q target).bind_pure _
  | clear => exact absurd rfl hclear

-- ================================================================= runs

/-- One request: the same answer, and a memory that holds what was read
for it as well. -/
theorem Remembered.step (h : Remembered service texts memory)
    (request : Request) :
    ∃ memory',
      (service.remembering.answer (set Memory.empty) request).run.run
          memory
        = (service.plainAnswer request, memory')
      ∧ Remembered service (request.since service texts) memory' := by
  by_cases hclear : request = .clear
  · subst hclear
    exact ⟨.empty, rfl, remembered_empty service⟩
  · have hsince : request.since service texts
        = texts ++ request.reads service := by
      unfold Request.since
      split
      · exact absurd rfl hclear
      · rfl
    rw [hsince]
    exact follows_answer service hclear texts memory h

/-- A run of requests, by induction on it. Clearing the memory is a
request like the others. -/
theorem Remembered.run (h : Remembered service texts memory)
    (requests : List Request) :
    ∃ memory',
      (service.remembering.answers (set Memory.empty) requests).run
          memory
        = (requests.map service.plainAnswer, memory')
      ∧ Remembered service
          (requests.foldl (Request.since service) texts) memory' := by
  induction requests generalizing texts memory with
  | nil => exact ⟨memory, rfl, h⟩
  | cons request requests ih =>
    obtain ⟨memory', hstep, h'⟩ := h.step request
    obtain ⟨memory'', hrun, h''⟩ := ih h'
    refine ⟨memory'', ?_, h''⟩
    unfold Service.answers at hrun ⊢
    rw [List.mapM_cons, StateT.run_bind, hstep]
    show StateT.run (_ >>= _) memory' = _
    rw [StateT.run_bind, hrun]
    rfl

/-- A memory holds as many texts as there are different ones among
those that it was given. -/
theorem Remembered.size_eq (h : Remembered service texts memory) :
    memory.size = texts.toFinset.card := by
  have hsame : texts.toFinset = memory.texts.toFinset := by
    ext text
    rw [List.mem_toFinset, List.mem_toFinset, h.mem_iff text]
  rw [hsame, List.toFinset_card_of_nodup h.nodup]
  exact (List.length_map _).symm

/-- To remember makes no difference. From an empty memory every request
of a run is answered as the service without a memory answers it. At the
end of the run the memory holds exactly the texts that were read since
it was last cleared, also on the way to an answer that failed, each as
it is read; so its size is the number of different ones. A text that
cannot be read leaves the memory as it is, and so does reducing a
measure. A unit system that remembers is such a service. -/
theorem remembered_answers (service : Service Id)
    (requests : List Request) :
    ∃ memory,
      (service.remembering.answers (set Memory.empty) requests).run
            .empty
          = (requests.map service.plainAnswer, memory)
        ∧ (∀ text m, memory.find? text = some m →
            (service.read text).run.run = .ok m)
        ∧ (∀ text, (∃ m, memory.find? text = some m) ↔
            text ∈ requests.foldl (Request.since service) [])
        ∧ memory.size
            = (requests.foldl (Request.since service) []).toFinset.card
        ∧ (∀ text fault, (service.read text).run.run = .error fault →
            (service.remembering.read text).run.run memory
              = (.error fault, memory))
        ∧ (∀ m, (service.remembering.reduce m).run.run memory
            = ((service.reduce m).run.run, memory))
        ∧ ∀ system : UnitSystem,
            system.remembering = system.service.remembering := by
  obtain ⟨memory, hrun, h⟩ := (remembered_empty service).run requests
  refine ⟨memory, hrun, h.faithful,
    fun text => Memory.exists_find?_iff.trans (h.mem_iff text),
    h.size_eq, fun text fault hread => h.run_read_of_error hread,
    fun m => rfl, Service.remembering_eq⟩

end UnitAlgebra
