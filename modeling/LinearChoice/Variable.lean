/-!
# Variables

A variable is a handle: a number given out by the solver that owns it.
-/

set_option autoImplicit false

namespace LinearChoice

structure Variable where
  index : Nat
  deriving DecidableEq

def Variable.text (v : Variable) : String := "v" ++ toString v.index

end LinearChoice
