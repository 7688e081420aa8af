import LinearChoice.Decimal.Positional
import LinearChoice.Expression.Basic

/-!
# Expressions as text

Terms are written in order, signs between them, a coefficient only where it is not one. The constant
comes last and is left out when it is close to zero, unless nothing else was written.
-/

set_option autoImplicit false

namespace LinearChoice.Expression

variable {α : Type} [Scalar α]

def joiner (written : String) (c : α) : String :=
  if written.isEmpty then (if c < 0 then "-" else "") else (if c < 0 then " - " else " + ")

variable [Numeral α]

def factor (c : α) : String :=
  if Scalar.tolerance ≤ Scalar.magnitude (Scalar.magnitude c - 1) then Numeral.unsigned c ++ "*"
  else ""

def renderTerms (terms : List (Variable × α)) (name : Variable → String) : String :=
  terms.foldl (fun written t => written ++ joiner written t.2 ++ factor t.2 ++ name t.1) ""

def render (e : Expression α) (name : Variable → String) : String :=
  let written := renderTerms e.terms.entries name
  if written.isEmpty then Numeral.text e.constant
  else if Scalar.nearZero e.constant then written
  else written ++ (if e.constant < 0 then " - " else " + ") ++ Numeral.unsigned e.constant

def text (e : Expression α) : String := e.render Variable.text

end LinearChoice.Expression
