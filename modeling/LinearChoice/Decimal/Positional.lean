import LinearChoice.Decimal.Shortest
import LinearChoice.Scalar

/-!
# Positional numerals

How numbers are written: the shortest digits that read back, in plain positional form whatever
their size, with no point when there is no fraction. Negative zero keeps its sign, and what is not
a number has none.
-/

set_option autoImplicit false

namespace LinearChoice

def Decimal.positional (d : Decimal) : String :=
  let digits := Nat.toDigits 10 d.digits
  match d.exponent with
  | .ofNat zeros => String.ofList (digits ++ List.replicate zeros '0')
  | .negSucc k =>
    let places := k + 1
    if places < digits.length then
      let whole := digits.length - places
      String.ofList (digits.take whole ++ '.' :: digits.drop whole)
    else
      String.ofList ('0' :: '.' :: List.replicate (places - digits.length) '0' ++ digits)

def RoundingInterval.ofFloat (x : Float) : RoundingInterval :=
  let bits : Nat := x.toBits.toNat
  let biased : Nat := bits / Nat.pow 2 52 % Nat.pow 2 11
  let fraction : Nat := bits % Nat.pow 2 52
  if biased = 0 then ofParts fraction (-1074)
  else ofParts (fraction + Nat.pow 2 52) ((biased : Int) - 1075)

def numeral (x : Float) : String :=
  if x.isNaN then "NaN"
  else
    let sign := if x.toBits.toNat / Nat.pow 2 63 = 0 then "" else "-"
    let body :=
      if x.isInf then "inf"
      else if x == 0 then "0"
      else (RoundingInterval.ofFloat x).shortest.positional
    sign ++ body

instance : Numeral Float := ⟨numeral, fun x => numeral x.abs⟩

end LinearChoice
