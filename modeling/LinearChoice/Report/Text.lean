import LinearChoice.Decimal.Positional
import LinearChoice.Report.Basic

/-!
# Reports as text

A conflict is told line by line: one line for each disjunction, and under it one for each rejected
alternative, with a count where it was rejected more than once.
-/

set_option autoImplicit false

namespace LinearChoice

def RejectReason.text : RejectReason → String
  | .pruned name lower upper =>
    "pruned: " ++ name ++ " needs " ++ numeral lower ++ " <= " ++ name ++ " <= " ++ numeral upper
  | .infeasible constraint => "infeasible at constraint " ++ toString constraint
  | .noCompletion => "no completion for later disjunctions"

def Rejection.line (alternative : Nat) (r : Rejection) : String :=
  let repeated := if 1 < r.count then " (x" ++ toString r.count ++ ")" else ""
  "    alternative " ++ toString alternative ++ ": " ++ r.reason.text ++ repeated ++ "\n"

def Trace.text (t : Trace) : String :=
  let title :=
    match t.label with
    | some label => t.disjunction.text ++ " (" ++ label ++ ")"
    | none => t.disjunction.text
  let lines := t.rejected.entries.map fun e => e.2.line e.1
  "  disjunction " ++ title ++ ":\n" ++ String.join lines

def Conflict.text (c : Conflict) : String :=
  "no combination of alternatives is consistent\n" ++ String.join (c.traces.map Trace.text)

end LinearChoice
