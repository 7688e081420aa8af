import LinearChoice.Simplex.Primal

/-!
# Restoring feasibility

The dual simplex. Rows that a change has brought below zero wait on a stack; each is pivoted away at
the least cost, and the rows that this brings below zero join the stack.
-/

set_option autoImplicit false

namespace LinearChoice.Tableau

variable {α : Type} [Scalar α]

def cheaper (objective : Row α) (best : Option (α × Symbol)) (e : Symbol × α) :
    Option (α × Symbol) :=
  if decide (0 < e.2) && !e.1.isDummy then
    let ratio := objective.coefficient e.1 / e.2
    match best with
    | none => if Scalar.belowLargest ratio then some (ratio, e.1) else none
    | some b => if ratio < b.1 then some (ratio, e.1) else some b
  else best

def dualEntering? (objective row : Row α) : Option Symbol :=
  (row.cells.entries.foldl (cheaper objective) none).map Prod.snd

def restore : Nat → List Symbol → Tableau α → Except SolverError Unit × Tableau α
  | _, [], t => (.ok (), t)
  | 0, _ :: _, t => (.error (.internal .stalled), t)
  | n + 1, s :: stack, t =>
    match t.rows.get? s with
    | none => restore n stack t
    | some row =>
      if row.constant < 0 then
        match dualEntering? t.objective row with
        | none => (.error (.internal .noEnteringSymbol), t.detach s)
        | some entering =>
          let solved := row.exchange s entering
          let rest := (t.detach s).substitute entering solved
          restore n (rest.negatives.reverse ++ stack) (rest.attach entering solved)
      else restore n stack t

end LinearChoice.Tableau
