import LinearChoice.Backend.Basic
import Mathlib.Data.List.Infix

/-!
# Transcribed backends

A backend that writes down every request, in the order in which they come. Its
answers are those of the backend inside, so the transcript of a run is what the
run asks of any backend that answers alike.
-/

set_option autoImplicit false

namespace LinearChoice

inductive Request (α : Type := Float) where
  | newVariable
  | add (c : Constraint α)
  | remove (id : ConstraintId)
  | update

structure Transcribed (σ : Type) (α : Type := Float) where
  inner : σ
  /-- The latest request comes first. -/
  requests : List (Request α)

namespace Transcribed

variable {σ α : Type} [BackendOver σ α]

def ofBackend (b : σ) : Transcribed σ α := ⟨b, []⟩

instance : BackendOver (Transcribed σ α) α where
  newVariable t :=
    ((Backend.newVariable t.inner).1,
      ⟨(Backend.newVariable t.inner).2, .newVariable :: t.requests⟩)
  addConstraint t c :=
    ((Backend.addConstraint t.inner c).1,
      ⟨(Backend.addConstraint t.inner c).2, .add c :: t.requests⟩)
  removeConstraint t id :=
    ((Backend.removeConstraint t.inner id).1,
      ⟨(Backend.removeConstraint t.inner id).2, .remove id :: t.requests⟩)
  updateVariables t :=
    ((Backend.updateVariables t.inner).1,
      ⟨(Backend.updateVariables t.inner).2, .update :: t.requests⟩)
  value t := Backend.value t.inner
  constraintCount t := Backend.constraintCount t.inner

theorem requests_removeAll (ids : List ConstraintId) (t : Transcribed σ α) :
    (Backend.removeAll ids t).2.requests = (ids.map .remove).reverse ++ t.requests := by
  induction ids generalizing t with
  | nil => rfl
  | cons id ids ih =>
    have asked : (Backend.removeConstraint t id).2.requests = .remove id :: t.requests := rfl
    have whole : (Backend.removeAll (id :: ids) t).2 =
        (Backend.removeAll ids (Backend.removeConstraint t id).2).2 := by
      simp only [Backend.removeAll]
      split <;> rfl
    rw [whole, ih, asked, List.map_cons, List.reverse_cons, List.append_assoc,
      List.singleton_append]

theorem requests_addAll (added : List ConstraintId) (cs : List (Constraint α))
    (t : Transcribed σ α) : t.requests <:+ (Backend.addAll added cs t).2.requests := by
  induction cs generalizing added t with
  | nil => exact List.suffix_rfl
  | cons c cs ih =>
    have asked : t.requests <:+ (Backend.addConstraint t c).2.requests := List.suffix_cons _ _
    simp only [Backend.addAll]
    split
    · next id b run =>
      rw [run] at asked
      exact asked.trans (ih (id :: added) b)
    · next e b run =>
      rw [run] at asked
      exact asked

end Transcribed

end LinearChoice
