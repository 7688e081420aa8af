import LinearChoice.Simplex.Withdraw

/-!
# The incremental solver

Constraints come and go one at a time, and the tableau is optimised in between. A required
constraint that contradicts those already held is refused. Every call answers together with the
state that it leaves, errors included.
-/

set_option autoImplicit false

namespace LinearChoice

structure Held (α : Type) where
  tag : Tag
  strength : Strength α

structure Edit (α : Type) where
  tag : Tag
  constraint : ConstraintId
  suggested : α

structure Solver (α : Type) where
  nextVariable : Nat
  nextSymbol : Nat
  nextConstraint : Nat
  tableau : Tableau α
  constraints : Table ConstraintId (Held α)
  edits : Table Variable (Edit α)
  values : Table Variable α

namespace Solver

variable {α : Type} [Scalar α]

def empty : Solver α :=
  { nextVariable := 0, nextSymbol := 0, nextConstraint := 0, tableau := Tableau.empty
    constraints := Table.empty, edits := Table.empty, values := Table.empty }

instance : Inhabited (Solver α) := ⟨empty⟩

def newVariable (s : Solver α) : Variable × Solver α :=
  (⟨s.nextVariable⟩,
    { s with nextVariable := s.nextVariable + 1, values := s.values.insert ⟨s.nextVariable⟩ 0 })

def currentValue (s : Solver α) (v : Variable) : α := s.tableau.value v

def value (s : Solver α) (v : Variable) : α := (s.values.get? v).getD (s.currentValue v)

omit [Scalar α] in
def hasConstraint (s : Solver α) (id : ConstraintId) : Bool := s.constraints.contains id

omit [Scalar α] in
def constraintCount (s : Solver α) : Nat := s.constraints.size

def optimise (s : Solver α) : Except SolverError Unit × Solver α :=
  let (outcome, t) := s.tableau.optimise
  (outcome, { s with tableau := t })

def rowOf (s : Solver α) (c : Constraint α) (m : Markers α) : Row α :=
  ((s.tableau.express c.expression).addCells m.cells).oriented

def accept (s : Solver α) (tag : Tag) (strength : Strength α) :
    Except SolverError (ConstraintId × Tag) × Solver α :=
  let id : ConstraintId := ⟨s.nextConstraint⟩
  let s := { s with
    nextConstraint := s.nextConstraint + 1
    constraints := s.constraints.insert id ⟨tag, strength⟩ }
  match s.optimise with
  | (.ok (), s) => (.ok (id, tag), s)
  | (.error e, s) => (.error e, s)

def acceptWithSubject (s : Solver α) (row : Row α) (subject : Symbol) (tag : Tag)
    (strength : Strength α) : Except SolverError (ConstraintId × Tag) × Solver α :=
  accept { s with tableau := s.tableau.enter subject (row.solveFor subject) } tag strength

def refuse (s : Solver α) : Except SolverError (ConstraintId × Tag) × Solver α :=
  match s.optimise with
  | (.ok (), s) => (.error .unsatisfiable, s)
  | (.error e, s) => (.error e, s)

def acceptWithArtificial (s : Solver α) (row : Row α) (tag : Tag) (strength : Strength α) :
    Except SolverError (ConstraintId × Tag) × Solver α :=
  let (verdict, t) := s.tableau.introduce (.slack s.nextSymbol) row
  let s := { s with nextSymbol := s.nextSymbol + 1, tableau := t }
  match verdict with
  | .error e => (.error e, s)
  | .ok true => s.accept tag strength
  | .ok false => s.refuse

def insert (s : Solver α) (c : Constraint α) :
    Except SolverError (ConstraintId × Tag) × Solver α :=
  if c.isFinite then
    let m := Markers.ofConstraint c s.nextSymbol
    let row := s.rowOf c m
    let s := { s with nextSymbol := s.nextSymbol + m.count, tableau := s.tableau.addCosts m.costs }
    match row.subject? m.tag with
    | some subject => s.acceptWithSubject row subject m.tag c.strength
    | none =>
      if row.cells.keys.all Symbol.isDummy then
        -- Only required equalities meet in such a row: it repeats them or contradicts them.
        if Scalar.nearZero row.constant then
          s.acceptWithSubject row m.tag.marker m.tag c.strength
        else (.error .unsatisfiable, s)
      else s.acceptWithArtificial row m.tag c.strength
  else (.error (.internal .nonFinite), s)

def addConstraint (s : Solver α) (c : Constraint α) : Except SolverError ConstraintId × Solver α :=
  let (outcome, s) := s.insert c
  (outcome.map Prod.fst, s)

def removeConstraint (s : Solver α) (id : ConstraintId) : Except SolverError Unit × Solver α :=
  match s.constraints.get? id with
  | none => (.error .unknownConstraint, s)
  | some held =>
    let (outcome, t) :=
      (s.tableau.removeCosts held.tag held.strength.weight).withdraw held.tag.marker
    let s := { s with constraints := s.constraints.eraseSwap id, tableau := t }
    match outcome with
    | .error e => (.error e, s)
    | .ok () => s.optimise

def updateVariables (s : Solver α) : Except SolverError Unit × Solver α :=
  if s.tableau.isFeasible then
    (.ok (), { s with values := s.values.mapValues fun v _ => s.currentValue v })
  else (.error .unsatisfiable, s)

end Solver

end LinearChoice
