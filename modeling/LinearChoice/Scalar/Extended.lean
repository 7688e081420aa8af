import Mathlib
import LinearChoice.Scalar

/-!
# Rationals with infinite ends

Exact rationals together with two infinities, the ends of one-sided intervals. A sum or product with
an infinity is the infinity that its sign asks for. What has no such answer, as the sum of the two
infinities, is given the value that is simplest to state: the lower one wins a sum, and zero wins a
product.
-/

set_option autoImplicit false

namespace LinearChoice

inductive Extended where
  | negInf
  | finite (q : Rat)
  | posInf
  deriving DecidableEq

namespace Extended

def neg : Extended → Extended
  | negInf => posInf
  | finite q => finite (-q)
  | posInf => negInf

def add : Extended → Extended → Extended
  | negInf, _ => negInf
  | _, negInf => negInf
  | posInf, _ => posInf
  | _, posInf => posInf
  | finite p, finite q => finite (p + q)

def infinite (q : Rat) : Extended :=
  if 0 < q then posInf else if q < 0 then negInf else finite 0

def mul : Extended → Extended → Extended
  | finite p, finite q => finite (p * q)
  | finite p, posInf => infinite p
  | finite p, negInf => infinite (-p)
  | posInf, finite q => infinite q
  | negInf, finite q => infinite (-q)
  | posInf, posInf => posInf
  | posInf, negInf => negInf
  | negInf, posInf => negInf
  | negInf, negInf => posInf

def div : Extended → Extended → Extended
  | x, finite q => mul x (finite q⁻¹)
  | _, _ => finite 0

def lt : Extended → Extended → Prop
  | negInf, negInf => False
  | negInf, _ => True
  | finite _, negInf => False
  | finite p, finite q => p < q
  | finite _, posInf => True
  | posInf, _ => False

def isFinite : Extended → Bool
  | finite _ => true
  | _ => false

instance : LT Extended := ⟨lt⟩

instance : LE Extended := ⟨fun x y => lt x y ∨ x = y⟩

instance : DecidableLT Extended := fun x y =>
  match x, y with
  | negInf, negInf => isFalse id
  | negInf, finite _ => isTrue trivial
  | negInf, posInf => isTrue trivial
  | finite _, negInf => isFalse id
  | finite p, finite q => inferInstanceAs (Decidable (p < q))
  | finite _, posInf => isTrue trivial
  | posInf, _ => isFalse id

instance : DecidableLE Extended := fun x y =>
  inferInstanceAs (Decidable (x < y ∨ x = y))

end Extended

instance : Numeral Extended where
  text
    | .negInf => "-inf"
    | .finite q => toString q
    | .posInf => "inf"
  unsigned
    | .finite q => toString |q|
    | _ => "inf"

@[reducible] def ExtendedScalar.rational (width slack : Rat) : ExtendedScalar Extended where
  zero := .finite 0
  one := .finite 1
  add := Extended.add
  sub x y := Extended.add x (Extended.neg y)
  mul := Extended.mul
  div := Extended.div
  neg := Extended.neg
  natCast n := .finite n
  decidableLT := inferInstance
  decidableLE := inferInstance
  isFinite := Extended.isFinite
  largest? := none
  tolerance := .finite width
  negInf := .negInf
  posInf := .posInf
  slack := .finite slack

end LinearChoice
