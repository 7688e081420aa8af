import LinearChoice.Expression.Basic
import LinearChoice.Simplex.Row

/-!
# Tableaux

A tableau holds one row for each basic symbol and the row of the objective. The symbols inside the
rows are parametric: they are free to vary, and stand at zero in the solution that the tableau
shows.
-/

set_option autoImplicit false

namespace LinearChoice

structure Tableau (α : Type) where
  rows : Table Symbol (Row α)
  objective : Row α

namespace Tableau

variable {α : Type} [Scalar α]

def empty : Tableau α := ⟨Table.empty, Row.ofConstant 0⟩

instance : Inhabited (Tableau α) := ⟨empty⟩

def value (t : Tableau α) (v : Variable) : α :=
  match t.rows.get? (.external v) with
  | some row => row.constant
  | none => 0

omit [Scalar α] in
def attach (t : Tableau α) (s : Symbol) (row : Row α) : Tableau α :=
  { t with rows := t.rows.insert s row }

omit [Scalar α] in
def detach (t : Tableau α) (s : Symbol) : Tableau α := { t with rows := t.rows.eraseSwap s }

def substitute (t : Tableau α) (s : Symbol) (row : Row α) : Tableau α :=
  ⟨t.rows.mapValues fun _ r => r.substitute s row, t.objective.substitute s row⟩

def enter (t : Tableau α) (s : Symbol) (row : Row α) : Tableau α :=
  (t.substitute s row).attach s row

def pivot (t : Tableau α) (leaving : Symbol) (row : Row α) (entering : Symbol) : Tableau α :=
  (t.detach leaving).enter entering (row.exchange leaving entering)

omit [Scalar α] in
def drop (t : Tableau α) (s : Symbol) : Tableau α :=
  ⟨t.rows.mapValues fun _ r => r.erase s, t.objective.erase s⟩

def addCosts (t : Tableau α) (costs : List (Symbol × α)) : Tableau α :=
  { t with objective := t.objective.addCells costs }

def express (t : Tableau α) (e : Expression α) : Row α :=
  e.terms.entries.foldl (fun row term =>
    match t.rows.get? (.external term.1) with
    | some basic => row.addScaled basic term.2
    | none => row.addCell (.external term.1) term.2) (Row.ofConstant e.constant)

def negatives (t : Tableau α) : List Symbol :=
  (t.rows.entries.filter fun e => !e.1.isExternal && decide (e.2.constant < 0)).map Prod.fst

def isFeasible (t : Tableau α) : Bool :=
  t.rows.entries.all fun e => e.1.isExternal || !decide (e.2.constant < -Scalar.tolerance)

omit [Scalar α] in
def occurrences (t : Tableau α) : Nat :=
  t.rows.entries.foldl (fun n e => n + 1 + e.2.cells.size) t.objective.cells.size

omit [Scalar α] in
/-- A run that visits no basis twice makes fewer pivots than its symbols have subsets. What is on
top of that leaves room for runs without such a guarantee, beyond any that could be waited for. -/
def budget (t : Tableau α) : Nat := Nat.pow 2 (64 + t.occurrences)

end Tableau

end LinearChoice
