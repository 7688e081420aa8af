import LinearChoice.Expression.Basic

/-!
# Constraints

A constraint relates an expression to zero and has a strength. The right-hand side of the usual form
is folded into the expression's constant. A constraint of the full strength is required; any weaker
one may be violated at a price.
-/

set_option autoImplicit false

namespace LinearChoice

structure Strength (α : Type) where
  weight : α

namespace Strength

variable {α : Type} [Scalar α]

def required : Strength α := ⟨((1001001000 : Nat) : α)⟩

def strong : Strength α := ⟨((1000000 : Nat) : α)⟩

def medium : Strength α := ⟨((1000 : Nat) : α)⟩

def weak : Strength α := ⟨((1 : Nat) : α)⟩

def clipped (x : α) : Strength α :=
  if x < 0 then ⟨0⟩ else if (required : Strength α).weight < x then required else ⟨x⟩

def isRequired (s : Strength α) : Bool := (required : Strength α).weight ≤ s.weight

end Strength

inductive Relation where
  | atMost
  | equal
  | atLeast
  deriving DecidableEq

structure Constraint (α : Type) where
  expression : Expression α
  relation : Relation
  strength : Strength α

structure ConstraintId where
  index : Nat
  deriving DecidableEq

namespace Constraint

variable {α : Type} [Scalar α]

def relate (lhs : Expression α) (relation : Relation) (rhs : α) : Constraint α :=
  ⟨{ lhs with constant := lhs.constant - rhs }, relation, Strength.required⟩

def rhs (c : Constraint α) : α := 0 - c.expression.constant

def isRequired (c : Constraint α) : Bool := c.strength.isRequired

omit [Scalar α] in
def support (c : Constraint α) : List Variable := c.expression.support

def isFinite (c : Constraint α) : Bool :=
  Scalar.isFinite c.expression.constant &&
    c.expression.terms.entries.all fun t => Scalar.isFinite t.2

def holds (c : Constraint α) (value : Variable → α) (tolerance : α) : Bool :=
  let residual := c.expression.evaluate value
  match c.relation with
  | .equal => Scalar.magnitude residual ≤ tolerance
  | .atMost => residual ≤ tolerance
  | .atLeast => -tolerance ≤ residual

end Constraint

end LinearChoice
