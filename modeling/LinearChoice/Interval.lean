import LinearChoice.Scalar

/-!
# Intervals

Closed intervals with possibly infinite ends. An interval may come out inverted; it counts as empty
only when its ends are apart by more than a tolerance that grows with them.
-/

set_option autoImplicit false

namespace LinearChoice

structure Interval (α : Type) where
  lower : α
  upper : α

namespace Interval

variable {α : Type} [ExtendedScalar α]

open ExtendedScalar (negInf posInf slack)

def unbounded : Interval α := ⟨negInf, posInf⟩

omit [ExtendedScalar α] in
def point (x : α) : Interval α := ⟨x, x⟩

def atLeast (x : α) : Interval α := ⟨x, posInf⟩

def atMost (x : α) : Interval α := ⟨negInf, x⟩

instance : BEq (Interval α) := ⟨fun i j => i.lower == j.lower && i.upper == j.upper⟩

def intersect (i j : Interval α) : Interval α :=
  ⟨Scalar.max i.lower j.lower, Scalar.min i.upper j.upper⟩

def tolerance (a b : α) : α :=
  slack * (1 + ([a, b].filter Scalar.isFinite).foldl
    (fun scale x => Scalar.max scale (Scalar.magnitude x)) 0)

def isEmpty (i : Interval α) : Bool := i.upper + tolerance i.lower i.upper < i.lower

def tighterThan (i j : Interval α) : Bool :=
  let slack := tolerance j.lower j.upper
  decide (j.lower + slack < i.lower) || decide (i.upper < j.upper - slack)

end Interval

end LinearChoice
