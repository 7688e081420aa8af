import LinearChoice.Simplex.Dual
import LinearChoice.Simplex.Solver

/-!
# Edit variables

A variable under edit is pulled to a suggested value by an optional constraint of its own. A new
suggestion shifts the constants of the tableau and leaves its costs alone, so that only feasibility
has to be restored.
-/

set_option autoImplicit false

namespace LinearChoice

namespace Tableau

variable {α : Type} [Scalar α]

def shiftRow (t : Tableau α) (s : Symbol) (row : Row α) (x : α) : List Symbol × Tableau α :=
  let shifted := row.shift x
  (if shifted.constant < 0 then [s] else [], t.attach s shifted)

def shiftRows (t : Tableau α) (marker : Symbol) (x : α) : List Symbol × Tableau α :=
  let touched (row : Row α) : Bool := !(row.coefficient marker == 0)
  let shifted (row : Row α) : Row α :=
    if touched row then row.shift (x * row.coefficient marker) else row
  let stack := (t.rows.entries.filter fun e =>
    touched e.2 && decide ((shifted e.2).constant < 0) && !e.1.isExternal).map Prod.fst
  (stack.reverse, { t with rows := t.rows.mapValues fun _ row => shifted row })

def shiftTarget (t : Tableau α) (tag : Tag) (x : α) : List Symbol × Tableau α :=
  match t.rows.get? tag.marker with
  | some row => t.shiftRow tag.marker row (-x)
  | none =>
    match tag.other.bind fun other => (t.rows.get? other).map fun row => (other, row) with
    | some (other, row) => t.shiftRow other row x
    | none => t.shiftRows tag.marker x

end Tableau

namespace Solver

variable {α : Type} [Scalar α]

omit [Scalar α] in
def hasEdit (s : Solver α) (v : Variable) : Bool := s.edits.contains v

def addEdit (s : Solver α) (v : Variable) (strength : Strength α) :
    Except SolverError Unit × Solver α :=
  if s.hasEdit v then (.error (.duplicateEdit v), s)
  else
    let strength := Strength.clipped strength.weight
    if strength.isRequired then (.error .requiredEdit, s)
    else
      match s.insert ⟨Expression.ofVariable v, .equal, strength⟩ with
      | (.error e, s) => (.error e, s)
      | (.ok (id, tag), s) => (.ok (), { s with edits := s.edits.insert v ⟨tag, id, 0⟩ })

def removeEdit (s : Solver α) (v : Variable) : Except SolverError Unit × Solver α :=
  match s.edits.get? v with
  | none => (.error (.unknownEdit v), s)
  | some edit => removeConstraint { s with edits := s.edits.eraseSwap v } edit.constraint

def suggest (s : Solver α) (v : Variable) (x : α) : Except SolverError Unit × Solver α :=
  match s.edits.get? v with
  | none => (.error (.unknownEdit v), s)
  | some edit =>
    let (stack, t) := s.tableau.shiftTarget edit.tag (x - edit.suggested)
    let (outcome, t) := Tableau.restore t.budget stack t
    (outcome, { s with tableau := t, edits := s.edits.insert v { edit with suggested := x } })

end Solver

end LinearChoice
