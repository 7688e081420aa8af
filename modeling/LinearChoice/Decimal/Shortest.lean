/-!
# Shortest decimals

The fewest decimal digits that read back as a given double. A double stands for the interval of real
numbers that round to it. On each decimal grid, coarse to fine, only the two neighbours of the value
itself need a look: if any grid point lies in the interval, one of them does.
-/

set_option autoImplicit false

namespace LinearChoice

structure Decimal where
  digits : Nat
  exponent : Int
  deriving DecidableEq

def Decimal.trim (d : Decimal) : Decimal :=
  if d.digits % 10 = 0 then ⟨d.digits / 10, d.exponent + 1⟩ else d

/-- A positive double and the reals that round to it. `low`, `mid` and `high` count quarters of the
distance to the next double, and one quarter is `2 ^ exponent`. The ends belong to the interval when
`closed` is set. -/
structure RoundingInterval where
  low : Nat
  mid : Nat
  high : Nat
  exponent : Int
  closed : Bool

namespace RoundingInterval

/-- The interval of `mantissa * 2 ^ exponent`. Below a power of two the next double is only half as
far away, unless the numbers are subnormal there. Ties round to the even mantissa. -/
def ofParts (mantissa : Nat) (exponent : Int) : RoundingInterval :=
  let narrow := mantissa == Nat.pow 2 52 && exponent != -1074
  { low := 4 * mantissa - (if narrow then 1 else 2)
    mid := 4 * mantissa
    high := 4 * mantissa + 2
    exponent := exponent - 2
    closed := mantissa % 2 == 0 }

def numerator (r : RoundingInterval) (e : Int) : Nat :=
  Nat.pow 2 r.exponent.toNat * Nat.pow 10 (-e).toNat

def denominator (r : RoundingInterval) (e : Int) : Nat :=
  Nat.pow 2 (-r.exponent).toNat * Nat.pow 10 e.toNat

def admits (r : RoundingInterval) (a b : Nat) : Bool := a < b || (r.closed && a == b)

def nearest? (r : RoundingInterval) (e : Int) : Option Decimal :=
  let n := r.numerator e
  let d := r.denominator e
  let below := r.mid * n / d
  let lowHit := r.admits (r.low * n) (below * d)
  let highHit := r.admits ((below + 1) * d) (r.high * n)
  if lowHit && (!highHit || r.mid * n - below * d < (below + 1) * d - r.mid * n) then
    some ⟨below, e⟩
  else if highHit then
    some ⟨below + 1, e⟩
  else
    none

def digitCount (n : Nat) : Nat := (Nat.toDigits 10 n).length

def magnitude (r : RoundingInterval) : Int :=
  let p := r.mid * r.numerator 0
  let q := r.denominator 0
  if q ≤ p then digitCount (p / q)
  else
    let t := digitCount (q / p)
    if p * Nat.pow 10 (t - 1) = q then 2 - (t : Int) else 1 - (t : Int)

def exact (r : RoundingInterval) : Decimal :=
  ⟨r.mid * Nat.pow 2 r.exponent.toNat * Nat.pow 5 (-r.exponent).toNat,
    -((-r.exponent).toNat : Int)⟩

def shortest (r : RoundingInterval) : Decimal :=
  let found := (List.range 17).findSome? fun i => r.nearest? (r.magnitude - (i + 1 : Nat))
  found.elim r.exact Decimal.trim

end RoundingInterval

end LinearChoice
