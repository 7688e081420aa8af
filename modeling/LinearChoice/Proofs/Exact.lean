import Mathlib
import LinearChoice.Constraint.Basic
import LinearChoice.Scalar.Rational

/-! Rational arithmetic with an exact zero test, under which the zero test
is equality and a constraint holds when its inequality does. -/

set_option autoImplicit false

namespace LinearChoice

namespace Exact

scoped instance scalar : Scalar ℚ := Scalar.rational 0

end Exact

open scoped Exact

theorem Scalar.magnitude_eq_abs (x : ℚ) : Scalar.magnitude x = |x| := by
  unfold Scalar.magnitude
  split
  · next h => exact (abs_of_neg h).symm
  · next h => exact (abs_of_nonneg (not_lt.mp h)).symm

@[simp] theorem Scalar.tolerance_exact : (Scalar.tolerance : ℚ) = 0 := rfl

@[simp] theorem Scalar.belowLargest_exact (x : ℚ) : Scalar.belowLargest x = true := rfl

theorem Scalar.nearZero_iff (x : ℚ) : Scalar.nearZero x = true ↔ x = 0 := by
  simp [Scalar.nearZero, Scalar.magnitude_eq_abs]

def Relation.Allows : Relation → ℚ → Prop
  | .equal, x => x = 0
  | .atMost, x => x ≤ 0
  | .atLeast, x => 0 ≤ x

theorem Constraint.holds_exact (c : Constraint ℚ) (v : Variable → ℚ) :
    c.holds v 0 = true ↔ c.relation.Allows (c.expression.evaluate v) := by
  unfold Constraint.holds Relation.Allows
  cases c.relation <;> simp [Scalar.magnitude_eq_abs]

end LinearChoice
