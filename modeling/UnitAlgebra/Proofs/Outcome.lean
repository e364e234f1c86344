/-
Reasoning about computations that may fail.

The first lemmas take a computation apart at a result that is known: a
sequence has a value when both steps have (`bind_eq_ok_iff`), and a
fault when one of them has (`bind_eq_error_iff`). For a fold, every
element that it passes has left a value (`exists_of_foldlM_eq_ok`).

The other way round, `Ends good bad x` says how `x` ends, whichever way
that is: with a value that is `good` or with a fault that is `bad`. It
is what a function is specified by. One rule carries it through a
sequence of steps (`Ends.bind`) and one through a fold (`Ends.foldlM`),
where what holds after each element may speak of all the elements before
it. So a proof follows the steps of the code once, and says about the
values and about the faults what there is to say.
-/
import Mathlib.Data.List.Infix
import UnitAlgebra.Fault

namespace UnitAlgebra

/-- A sequence has a value when both of its steps have. Proofs take
computations apart with this and the next one, and never unfold the
monad. -/
theorem bind_eq_ok_iff {β γ : Type} {x : Except Fault β}
    {f : β → Except Fault γ} {result : γ} :
    x >>= f = .ok result ↔ ∃ b, x = .ok b ∧ f b = .ok result := by
  cases x with
  | error fault => exact ⟨nofun, fun ⟨_, h, _⟩ => nomatch h⟩
  | ok b => exact ⟨fun h => ⟨b, rfl, h⟩, fun ⟨_, rfl, h⟩ => h⟩

/-- A sequence has the fault of its first step, or that of its second
step if the first one has a value. -/
theorem bind_eq_error_iff {β γ : Type} {x : Except Fault β}
    {f : β → Except Fault γ} {fault : Fault} :
    x >>= f = .error fault ↔
      x = .error fault ∨ ∃ b, x = .ok b ∧ f b = .error fault := by
  cases x with
  | error cause => simp [Bind.bind, Except.bind]
  | ok b => simp [Bind.bind, Except.bind]

/-- What has no value has a fault. -/
theorem exists_error_iff {β : Type} {x : Except Fault β} :
    (∃ fault, x = .error fault) ↔ ¬ ∃ b, x = .ok b := by
  cases x with
  | error fault => simp
  | ok b => simp

/-- A value that is seen with the faults left out is a value. Closed
runs are decided in that form. -/
theorem eq_ok_of_toOption {β : Type} {x : Except Fault β} {b : β}
    (h : x.toOption = some b) : x = .ok b := by
  cases x with
  | error fault => cases h
  | ok b' => exact congrArg _ (Option.some.inj h)

/-- A fold that ends well has a value at every element that it
passes. -/
theorem exists_of_foldlM_eq_ok {β γ : Type} {f : γ → β → Except Fault γ}
    {l done : List β} {next : β} {start result : γ}
    (h : l.foldlM f start = .ok result) (hnext : done ++ [next] <+: l) :
    ∃ before after, done.foldlM f start = .ok before
      ∧ f before next = .ok after := by
  obtain ⟨rest, rfl⟩ := hnext
  rw [List.append_assoc, List.foldlM_append, bind_eq_ok_iff] at h
  obtain ⟨before, hdone, h⟩ := h
  rw [List.singleton_append, List.foldlM_cons, bind_eq_ok_iff] at h
  obtain ⟨after, hstep, -⟩ := h
  exact ⟨before, after, hdone, hstep⟩

/-- A fold asks its step about the elements of its list only. -/
theorem foldlM_congr {β γ : Type} {f g : γ → β → Except Fault γ}
    {l : List β} (h : ∀ b ∈ l, ∀ acc, f acc b = g acc b) (start : γ) :
    l.foldlM f start = l.foldlM g start := by
  induction l generalizing start with
  | nil => rfl
  | cons b l ih =>
    obtain ⟨hb, hl⟩ := List.forall_mem_cons.1 h
    rw [List.foldlM_cons, List.foldlM_cons, hb]
    exact congrArg _ (funext (ih hl))

/-- How a computation ends: a value is `good`, a fault is `bad`. -/
def Ends {β : Type} (good : β → Prop) (bad : Fault → Prop) :
    Except Fault β → Prop
  | .ok result => good result
  | .error fault => bad fault

namespace Ends

variable {β γ : Type} {good : β → Prop} {bad : Fault → Prop}

/-- What is said of either end, read at a value. -/
theorem of_ok {x : Except Fault β} {result : β} (h : Ends good bad x)
    (hx : x = .ok result) : good result := by
  subst hx
  exact h

/-- And read at a fault. -/
theorem of_error {x : Except Fault β} {fault : Fault}
    (h : Ends good bad x) (hx : x = .error fault) : bad fault := by
  subst hx
  exact h

theorem mono {x : Except Fault β} {good' : β → Prop}
    (h : Ends good bad x) (hgood : ∀ b, good b → good' b) :
    Ends good' bad x := by
  cases x with
  | ok b => exact hgood b h
  | error fault => exact h

theorem mono_bad {x : Except Fault β} {bad' : Fault → Prop}
    (h : Ends good bad x) (hbad : ∀ fault, bad fault → bad' fault) :
    Ends good bad' x := by
  cases x with
  | ok b => exact h
  | error fault => exact hbad fault h

/-- A sequence of two steps. -/
theorem bind {x : Except Fault β} {f : β → Except Fault γ}
    {good' : γ → Prop} (hx : Ends good bad x)
    (hf : ∀ b, x = .ok b → good b → Ends good' bad (f b)) :
    Ends good' bad (x >>= f) := by
  cases x with
  | ok b => exact hf b rfl hx
  | error fault => exact hx

/-- A fold, with what holds after every prefix of the list. -/
theorem foldlM {f : γ → β → Except Fault γ} {l : List β} {start : γ}
    (inv : List β → γ → Prop) (hstart : inv [] start)
    (hstep : ∀ done next acc, done ++ [next] <+: l → inv done acc →
      Ends (inv (done ++ [next])) bad (f acc next)) :
    Ends (inv l) bad (l.foldlM f start) := by
  induction l using List.reverseRecOn with
  | nil => exact hstart
  | append_singleton l last ih =>
    rw [List.foldlM_append]
    have hbefore : Ends (inv l) bad (l.foldlM f start) :=
      ih fun done next acc hnext hacc => hstep done next acc
        (hnext.trans (List.prefix_append _ _)) hacc
    refine hbefore.bind fun acc _ hacc => ?_
    have hlast := hstep l last acc (List.prefix_refl _) hacc
    rw [List.foldlM_cons]
    exact hlast.bind fun _ _ h => h

end Ends

end UnitAlgebra
