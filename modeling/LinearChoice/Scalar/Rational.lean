import Mathlib
import LinearChoice.Scalar

/-!
# Exact rationals

Rational numbers as scalars, for any width of the zero test. With width zero the test is exact and
the ratio tests compare exactly; every rational is finite and none is the greatest.
-/

set_option autoImplicit false

namespace LinearChoice

@[reducible] def Scalar.rational (width : Rat) : Scalar Rat where
  decidableLT := inferInstance
  decidableLE := inferInstance
  isFinite := fun _ => true
  largest? := none
  tolerance := width

end LinearChoice
