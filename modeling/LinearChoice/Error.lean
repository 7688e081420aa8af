import LinearChoice.Variable

/-!
# Errors

What can go wrong in an arithmetic solver, and what can go wrong in the system on top of one. Each
error is a cause; its wording is said once.
-/

set_option autoImplicit false

namespace LinearChoice

inductive Fault where
  | nonFinite
  | noLeavingRow
  | noEnteringSymbol
  | stalled
  | reported (text : String)
  deriving DecidableEq

def Fault.message : Fault → String
  | .nonFinite => "Non-finite constraint coefficient"
  | .noLeavingRow => "No leaving row found"
  | .noEnteringSymbol => "Dual optimize failed"
  | .stalled => "Pivot budget exhausted"
  | .reported text => text

inductive SolverError where
  | unsatisfiable
  | unknownConstraint
  | duplicateEdit (v : Variable)
  | unknownEdit (v : Variable)
  | requiredEdit
  | unbounded
  | internal (fault : Fault)
  deriving DecidableEq

def SolverError.message : SolverError → String
  | .unsatisfiable => "The constraint cannot be satisfied"
  | .unknownConstraint => "The constraint is not in the solver"
  | .duplicateEdit v => "The edit variable " ++ v.text ++ " is already registered"
  | .unknownEdit v => "The variable " ++ v.text ++ " is not an edit variable"
  | .requiredEdit => "Edit variables cannot be required"
  | .unbounded => "The objective is unbounded"
  | .internal fault => "Internal solver error: " ++ fault.message

inductive SystemError where
  | duplicateVariable (name : String)
  | unknownVariable (name : String)
  | unregisteredHandle (v : Variable)
  | emptyDisjunction
  | baselineInfeasible (constraint : String)
  | discarded
  | stepLimitExceeded (limit : Nat)
  | solver (e : SolverError)
  deriving DecidableEq

namespace SystemError

def message : SystemError → String
  | .duplicateVariable name => "Variable '" ++ name ++ "' is already registered"
  | .unknownVariable name => "Variable '" ++ name ++ "' is not registered or has no solved value"
  | .unregisteredHandle v => "Constraint references unregistered variable handle " ++ v.text
  | .emptyDisjunction => "A disjunction needs at least one alternative"
  | .baselineInfeasible constraint => "Baseline constraints are infeasible: " ++ constraint
  | .discarded => "Solver instance was discarded after its baseline became infeasible"
  | .stepLimitExceeded limit =>
    "Search step limit of " ++ toString limit ++ " alternative attempts exceeded"
  | .solver e => e.message

def isConfiguration : SystemError → Bool
  | .duplicateVariable _ | .unknownVariable _ | .unregisteredHandle _ | .emptyDisjunction => true
  | _ => false

def isFatal : SystemError → Bool
  | .baselineInfeasible _ | .discarded => true
  | _ => false

end SystemError

end LinearChoice
