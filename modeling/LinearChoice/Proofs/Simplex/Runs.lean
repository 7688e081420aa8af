import LinearChoice.Simplex.Edit

/-!
# Runs of a solver

The calls that change a solver, and what a sequence of them leads to. Nothing
is assumed of the arithmetic.
-/

set_option autoImplicit false

namespace LinearChoice.Solver

variable {α : Type}

inductive Call (α : Type) where
  | newVariable
  | add (c : Constraint α)
  | remove (id : ConstraintId)
  | update
  | addEdit (v : Variable) (strength : Strength α)
  | removeEdit (v : Variable)
  | suggest (v : Variable) (x : α)

def Call.Within (C : Constraint α → Prop) : Call α → Prop
  | .add c => C c
  | .newVariable | .remove _ | .update => True
  | .addEdit _ _ | .removeEdit _ | .suggest _ _ => False

instance {C : Constraint α → Prop} [DecidablePred C] : DecidablePred (Call.Within C)
  | .add c => inferInstanceAs (Decidable (C c))
  | .newVariable | .remove _ | .update => isTrue trivial
  | .addEdit _ _ | .removeEdit _ | .suggest _ _ => isFalse id

variable [Scalar α]

def after (s : Solver α) : Call α → Solver α
  | .newVariable => s.newVariable.2
  | .add c => (s.addConstraint c).2
  | .remove id => (s.removeConstraint id).2
  | .update => s.updateVariables.2
  | .addEdit v strength => (s.addEdit v strength).2
  | .removeEdit v => (s.removeEdit v).2
  | .suggest v x => (s.suggest v x).2

def answer (s : Solver α) : Call α → Except SolverError Unit
  | .newVariable => .ok ()
  | .add c => (s.addConstraint c).1.map fun _ => ()
  | .remove id => (s.removeConstraint id).1
  | .update => s.updateVariables.1
  | .addEdit v strength => (s.addEdit v strength).1
  | .removeEdit v => (s.removeEdit v).1
  | .suggest v x => (s.suggest v x).1

def afterAll (s : Solver α) (calls : List (Call α)) : Solver α := calls.foldl after s

theorem afterAll_invariant_of {P : Solver α → Prop} {Q : Call α → Prop} {s : Solver α}
    (start : P s) (step : ∀ s call, Q call → P s → P (s.after call)) (calls : List (Call α))
    (all : ∀ call ∈ calls, Q call) : P (s.afterAll calls) := by
  induction calls generalizing s with
  | nil => exact start
  | cons call calls ih =>
    obtain ⟨own, others⟩ := List.forall_mem_cons.mp all
    exact ih (step s call own start) others

theorem afterAll_invariant {P : Solver α → Prop} {s : Solver α} (start : P s)
    (step : ∀ s call, P s → P (s.after call)) (calls : List (Call α)) : P (s.afterAll calls) :=
  afterAll_invariant_of (Q := fun _ => True) start (fun s call _ => step s call) calls
    fun _ _ => trivial

end LinearChoice.Solver
