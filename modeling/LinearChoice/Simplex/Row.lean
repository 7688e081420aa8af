import LinearChoice.Scalar
import LinearChoice.Table.Basic
import LinearChoice.Variable

/-!
# Rows

A row is a constant plus weighted symbols. Four kinds of symbols occur: the external variables,
slacks of inequalities, errors of optional constraints, and dummies that mark required equalities
and are held at zero. All but the externals are restricted to non-negative values.
-/

set_option autoImplicit false

namespace LinearChoice

inductive Symbol where
  | external (v : Variable)
  | slack (id : Nat)
  | error (id : Nat)
  | dummy (id : Nat)
  deriving DecidableEq

namespace Symbol

def rank : Symbol → Nat
  | .external _ => 0
  | .slack _ => 1
  | .error _ => 2
  | .dummy _ => 3

def id : Symbol → Nat
  | .external v => v.index
  | .slack i | .error i | .dummy i => i

instance : LT Symbol := ⟨fun a b => a.rank < b.rank ∨ (a.rank = b.rank ∧ a.id < b.id)⟩

instance : DecidableLT Symbol := fun a b =>
  inferInstanceAs (Decidable (a.rank < b.rank ∨ (a.rank = b.rank ∧ a.id < b.id)))

def isExternal : Symbol → Bool
  | .external _ => true
  | _ => false

def isError : Symbol → Bool
  | .error _ => true
  | _ => false

def isDummy : Symbol → Bool
  | .dummy _ => true
  | _ => false

def isPivotable : Symbol → Bool
  | .slack _ | .error _ => true
  | _ => false

def least (l : List Symbol) : Option Symbol :=
  l.foldl (fun best s =>
    match best with
    | none => some s
    | some b => if s < b then some s else some b) none

end Symbol

structure Row (α : Type) where
  constant : α
  cells : Table Symbol α

namespace Row

variable {α : Type} [Scalar α]

def ofConstant (x : α) : Row α := ⟨x, Table.empty⟩

instance : Inhabited (Row α) := ⟨ofConstant 0⟩

def coefficient (r : Row α) (s : Symbol) : α := (r.cells.get? s).getD 0

def shift (r : Row α) (x : α) : Row α := { r with constant := r.constant + x }

def addCell (r : Row α) (s : Symbol) (c : α) : Row α :=
  let total := r.coefficient s + c
  if Scalar.nearZero total then { r with cells := r.cells.eraseSwap s }
  else { r with cells := r.cells.insert s total }

def addCells (r : Row α) (cells : List (Symbol × α)) : Row α :=
  cells.foldl (fun r e => r.addCell e.1 e.2) r

def addScaled (r other : Row α) (k : α) : Row α :=
  (r.shift (other.constant * k)).addCells (other.cells.entries.map fun e => (e.1, e.2 * k))

omit [Scalar α] in
def erase (r : Row α) (s : Symbol) : Row α := { r with cells := r.cells.eraseSwap s }

def negate (r : Row α) : Row α := ⟨-r.constant, r.cells.mapValues fun _ c => -c⟩

/-- The row with a constant that is not negative. As an equation with zero it says the same. -/
def oriented (r : Row α) : Row α := if r.constant < 0 then r.negate else r

def substitute (r : Row α) (s : Symbol) (row : Row α) : Row α :=
  match r.cells.get? s with
  | none => r
  | some c => (r.erase s).addScaled row c

def solveFor (r : Row α) (s : Symbol) : Row α :=
  let k : α :=
    match r.cells.get? s with
    | none => -1
    | some c => -1 / c
  ⟨r.constant * k, (r.cells.eraseSwap s).mapValues fun _ c => c * k⟩

def exchange (r : Row α) (basic s : Symbol) : Row α := (r.addCell basic (-1)).solveFor s

end Row

end LinearChoice
