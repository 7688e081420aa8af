/-!
# Scalars

The arithmetic on which constraints are stated and solved. Every algorithm of the library is written
once over this interface; binary floating point runs it, and exact rationals, whose zero test may be
exact, are where its algebra is studied.
-/

set_option autoImplicit false

namespace LinearChoice

/-- Arithmetic together with the width of its zero test. No law is assumed: floating point has none
that the algorithms could rely on. -/
class Scalar (α : Type) extends Zero α, One α, Add α, Sub α, Mul α, Div α, Neg α, BEq α, LT α, LE α,
    NatCast α where
  decidableLT : DecidableLT α
  decidableLE : DecidableLE α
  isFinite : α → Bool
  /-- The greatest finite number, where there is one. Ratio tests start below it. -/
  largest? : Option α
  /-- Numbers closer to zero than this count as zero. -/
  tolerance : α

namespace Scalar

variable {α : Type} [Scalar α]

instance (x y : α) : Decidable (x < y) := Scalar.decidableLT x y

instance (x y : α) : Decidable (x ≤ y) := Scalar.decidableLE x y

def magnitude (x : α) : α := if x < 0 then -x else x

def nearZero (x : α) : Bool := x == 0 || decide (magnitude x < tolerance)

def max (x y : α) : α := if x < y then y else if x == x then x else y

def min (x y : α) : α := if y < x then y else if x == x then x else y

def belowLargest (x : α) : Bool :=
  match (largest? : Option α) with
  | none => true
  | some m => decide (x < m)

end Scalar

class ExtendedScalar (α : Type) extends Scalar α where
  negInf : α
  posInf : α
  /-- How far, relative to its ends, an interval may be inverted before it counts as empty. -/
  slack : α

class Numeral (α : Type) where
  text : α → String
  unsigned : α → String

instance : Scalar Float where
  natCast := Float.ofNat
  decidableLT := inferInstance
  decidableLE := inferInstance
  isFinite := Float.isFinite
  largest? := some 1.7976931348623157e308
  tolerance := 1e-8

instance : ExtendedScalar Float where
  negInf := -(1.0 / 0.0)
  posInf := 1.0 / 0.0
  slack := 1e-6

end LinearChoice
