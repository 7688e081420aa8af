import LinearChoice.Backend.Basic
import LinearChoice.Registry

/-!
# The baseline

The constraints that always hold. Each is added to the backend once and stays there.
-/

set_option autoImplicit false

namespace LinearChoice

structure Baseline (α : Type := Float) where
  held : List (Constraint α × ConstraintId)

namespace Baseline

variable {α : Type}

def empty : Baseline α := ⟨[]⟩

instance : Inhabited (Baseline α) := ⟨empty⟩

def constraints (b : Baseline α) : List (Constraint α) := b.held.map Prod.fst

def size (b : Baseline α) : Nat := b.held.length

def isEmpty (b : Baseline α) : Bool := b.held.isEmpty

def add {σ : Type} [Scalar α] [Numeral α] [BackendOver σ α] (b : Baseline α) (backend : σ)
    (registry : Registry α) (c : Constraint α) :
    Except SystemError ConstraintId × Baseline α × σ :=
  match Backend.addConstraint backend c with
  | (.ok id, backend) => (.ok id, ⟨b.held ++ [(c, id)]⟩, backend)
  | (.error .unsatisfiable, backend) =>
    (.error (.baselineInfeasible (registry.describe c)), b, backend)
  | (.error e, backend) => (.error (.solver e), b, backend)

end Baseline

end LinearChoice
