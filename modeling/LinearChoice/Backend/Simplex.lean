import LinearChoice.Backend.Basic
import LinearChoice.Simplex.Solver

/-!
# The simplex solver as a backend
-/

set_option autoImplicit false

namespace LinearChoice

instance : Backend (Solver Float) where
  newVariable := Solver.newVariable
  addConstraint := Solver.addConstraint
  removeConstraint := Solver.removeConstraint
  updateVariables := Solver.updateVariables
  value := Solver.value
  constraintCount := Solver.constraintCount

end LinearChoice
