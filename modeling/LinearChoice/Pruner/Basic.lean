import LinearChoice.Config
import LinearChoice.Constraint.Basic
import LinearChoice.Interval

/-!
# The pruner

For every variable the pruner knows the interval that the committed required constraints on that
variable alone leave to it, and it keeps the committed required constraints on several variables.
Both can be taken back to any earlier mark. Optional constraints never count.
-/

set_option autoImplicit false

namespace LinearChoice

abbrev Bounds (α : Type) := Table Variable (Interval α)

def Bounds.of {α : Type} [ExtendedScalar α] (b : Bounds α) (v : Variable) : Interval α :=
  (b.get? v).getD Interval.unbounded

namespace Constraint

variable {α : Type} [ExtendedScalar α]

def unitBound? (c : Constraint α) : Option (Variable × Interval α) :=
  if c.isRequired then
    match c.expression.terms.entries with
    | [(v, k)] =>
      let x := -c.expression.constant / k
      let flipped := decide (k < 0)
      match c.relation with
      | .equal => some (v, .point x)
      | .atMost => some (v, if flipped then .atLeast x else .atMost x)
      | .atLeast => some (v, if flipped then .atMost x else .atLeast x)
    | _ => none
  else none

def isLinear (c : Constraint α) : Bool := c.isRequired && decide (1 < c.expression.size)

end Constraint

structure PruneMark where
  trail : Nat
  linear : Nat
  deriving DecidableEq

structure Pruner (α : Type) where
  mode : PruneMode
  bounds : Bounds α
  /-- What each change of the bounds replaced, the latest first. -/
  trail : List (Variable × Option (Interval α))
  linear : List (Constraint α)

namespace Pruner

variable {α : Type}

def empty (mode : PruneMode) : Pruner α := ⟨mode, Table.empty, [], []⟩

def setMode (p : Pruner α) (mode : PruneMode) : Pruner α := { p with mode := mode }

def mark (p : Pruner α) : PruneMark := ⟨p.trail.length, p.linear.length⟩

def revert (b : Bounds α) (change : Variable × Option (Interval α)) : Bounds α :=
  match change.2 with
  | some interval => b.insert change.1 interval
  | none => b.eraseShift change.1

def undo (p : Pruner α) (m : PruneMark) : Pruner α :=
  let newer := p.trail.length - m.trail
  { p with
    bounds := (p.trail.take newer).foldl revert p.bounds
    trail := p.trail.drop newer
    linear := p.linear.take m.linear }

variable [ExtendedScalar α]

def commitBound (p : Pruner α) (v : Variable) (interval : Interval α) : Pruner α :=
  let old := p.bounds.get? v
  let next := (old.getD Interval.unbounded).intersect interval
  if old == some next then p
  else { p with trail := (v, old) :: p.trail, bounds := p.bounds.insert v next }

def commitOne (p : Pruner α) (c : Constraint α) : Pruner α :=
  match c.unitBound? with
  | some (v, interval) => p.commitBound v interval
  | none => if c.isLinear then { p with linear := p.linear ++ [c] } else p

def commit (p : Pruner α) (cs : List (Constraint α)) : Pruner α := cs.foldl commitOne p

end Pruner

end LinearChoice
