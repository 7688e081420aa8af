/-!
# Configuration

How a search goes about its work. No setting changes whether a system is satisfiable.
-/

set_option autoImplicit false

namespace LinearChoice

inductive PruneMode where
  | off
  | bounds
  | propagate
  deriving DecidableEq

inductive DecisionOrder where
  | registration
  | fewestAlternatives
  deriving DecidableEq

structure Config where
  prune : PruneMode
  order : DecisionOrder
  stepLimit : Option Nat
  deriving DecidableEq

namespace PruneMode

def standard : PruneMode := .bounds

end PruneMode

namespace DecisionOrder

def standard : DecisionOrder := .registration

end DecisionOrder

def Config.standard : Config := ⟨.standard, .standard, none⟩

end LinearChoice
