import LinearChoice.Constraint.Basic
import LinearChoice.Error

/-!
# Arithmetic backends

What a search needs of an incremental arithmetic solver. A call answers together with the state
after it, whether it succeeds or fails. The numbers are those of the backend, floating point unless
others are named.
-/

set_option autoImplicit false

namespace LinearChoice

class BackendOver (σ : Type) (α : outParam Type) where
  newVariable : σ → Variable × σ
  addConstraint : σ → Constraint α → Except SolverError ConstraintId × σ
  removeConstraint : σ → ConstraintId → Except SolverError Unit × σ
  updateVariables : σ → Except SolverError Unit × σ
  value : σ → Variable → α
  constraintCount : σ → Nat

abbrev Backend (σ : Type) : Type := BackendOver σ Float

namespace Backend

export BackendOver (newVariable addConstraint removeConstraint updateVariables value
  constraintCount)

variable {σ α : Type} [BackendOver σ α]

def removeAll : List ConstraintId → σ → Except SolverError Unit × σ
  | [], b => (.ok (), b)
  | id :: rest, b =>
    let (first, b) := removeConstraint b id
    let (others, b) := removeAll rest b
    match first with
    | .error e => (.error e, b)
    | .ok () => (others, b)

def addAll (added : List ConstraintId) :
    List (Constraint α) → σ → (Option SolverError × List ConstraintId) × σ
  | [], b => ((none, added), b)
  | c :: rest, b =>
    match addConstraint b c with
    | (.ok id, b) => addAll (id :: added) rest b
    | (.error e, b) => ((some e, added), b)

end Backend

end LinearChoice
