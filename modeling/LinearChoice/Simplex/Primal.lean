import LinearChoice.Error
import LinearChoice.Simplex.Tableau

/-!
# Minimising a goal

The primal simplex under smallest-symbol rules. The smallest symbol with a negative cost enters; the
row with the smallest ratio leaves, and of rows with equal ratios the one with the smallest symbol.
The goal is a row of its own, so that an artificial goal can be minimised while the objective is
carried along.
-/

set_option autoImplicit false

namespace LinearChoice

structure Candidate (α : Type) where
  ratio : α
  symbol : Symbol
  row : Row α

inductive Progress (α : Type) where
  | optimal
  | unbounded
  | moved (t : Tableau α) (goal : Row α)

namespace Tableau

variable {α : Type} [Scalar α]

def entering? (goal : Row α) : Option Symbol :=
  Symbol.least ((goal.cells.entries.filter fun e => !e.1.isDummy && decide (e.2 < 0)).map Prod.fst)

def better (c best : Candidate α) : Bool :=
  decide (c.ratio < best.ratio - Scalar.tolerance) ||
    (decide (Scalar.magnitude (c.ratio - best.ratio) ≤ Scalar.tolerance) &&
      decide (c.symbol < best.symbol))

def tighten (entering : Symbol) (best : Option (Candidate α)) (e : Symbol × Row α) :
    Option (Candidate α) :=
  let c := e.2.coefficient entering
  if e.1.isExternal then best
  else if c < 0 then
    let candidate : Candidate α := ⟨-e.2.constant / c, e.1, e.2⟩
    match best with
    | none => some candidate
    | some b => if better candidate b then some candidate else some b
  else best

def leaving? (t : Tableau α) (entering : Symbol) : Option (Candidate α) :=
  t.rows.entries.foldl (tighten entering) none

def advance (t : Tableau α) (goal : Row α) : Progress α :=
  match entering? goal with
  | none => .optimal
  | some entering =>
    match t.leaving? entering with
    | none => .unbounded
    | some c =>
      .moved (t.pivot c.symbol c.row entering)
        (goal.substitute entering (c.row.exchange c.symbol entering))

def minimise : Nat → Tableau α → Row α → Except SolverError Unit × Tableau α × Row α
  | 0, t, goal => (.error (.internal .stalled), t, goal)
  | n + 1, t, goal =>
    match t.advance goal with
    | .optimal => (.ok (), t, goal)
    | .unbounded => (.error .unbounded, t, goal)
    | .moved t goal => minimise n t goal

def optimise (t : Tableau α) : Except SolverError Unit × Tableau α :=
  let (outcome, t, _) := minimise t.budget t t.objective
  (outcome, t)

/-- Adds a row that has no subject of its own, through an artificial symbol whose value is
minimised. The answer says whether it came down to zero. If not, the artificial symbol is still
basic, and dropping its row leaves the tableau equivalent to what it was. -/
def introduce (t : Tableau α) (artificial : Symbol) (row : Row α) :
    Except SolverError Bool × Tableau α :=
  let start := t.attach artificial row
  let (outcome, t, goal) := minimise start.budget start row
  let success := Scalar.nearZero goal.constant
  match outcome with
  | .error e => (.error e, t.detach artificial)
  | .ok () =>
    match t.rows.get? artificial with
    | none => (.ok success, t.drop artificial)
    | some last =>
      let t := t.detach artificial
      if !success || last.cells.isEmpty then (.ok success, t)
      else
        match last.cells.keys.find? Symbol.isPivotable with
        | none => (.ok false, t)
        | some entering =>
          (.ok success, (t.enter entering (last.exchange artificial entering)).drop artificial)

end Tableau

end LinearChoice
