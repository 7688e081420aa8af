import LinearChoice.Constraint.Basic
import LinearChoice.Expression.Text

/-!
# Constraints as text

A constraint is written with its terms on the left, its constant on the right, and its strength only
where it is not required.
-/

set_option autoImplicit false

namespace LinearChoice

def Relation.text : Relation → String
  | .atMost => "<="
  | .equal => "=="
  | .atLeast => ">="

namespace Constraint

variable {α : Type} [Scalar α] [Numeral α]

def render (c : Constraint α) (name : Variable → String) : String :=
  let lhs : Expression α := { c.expression with constant := 0 }
  let body := lhs.render name ++ " " ++ c.relation.text ++ " " ++ Numeral.text c.rhs
  if c.isRequired then body else body ++ " @" ++ Numeral.text c.strength.weight

def text (c : Constraint α) : String := c.render Variable.text

end Constraint

end LinearChoice
