import LinearChoice.Config
import LinearChoice.Constraint.Basic
import LinearChoice.Error

/-!
# Disjunctions

A disjunction offers alternatives, of which at least one has to hold; an alternative is a list of
constraints that hold together, possibly none. Disjunctions are numbered as they are registered.
-/

set_option autoImplicit false

namespace LinearChoice

abbrev Alternative (α : Type := Float) := List (Constraint α)

structure DisjunctionId where
  index : Nat
  deriving DecidableEq

def DisjunctionId.text (id : DisjunctionId) : String := "#" ++ toString id.index

structure Disjunction (α : Type := Float) where
  label : Option String
  alternatives : List (Alternative α)
  nonempty : alternatives ≠ []

namespace Disjunction

variable {α : Type}

def ofAlternatives (label : Option String) (alternatives : List (Alternative α)) :
    Except SystemError (Disjunction α) :=
  if h : alternatives = [] then .error .emptyDisjunction else .ok ⟨label, alternatives, h⟩

def withLabel (d : Disjunction α) (label : String) : Disjunction α := { d with label := some label }

def size (d : Disjunction α) : Nat := d.alternatives.length

def isEmpty (d : Disjunction α) : Bool := d.alternatives.isEmpty

def alternative? (d : Disjunction α) (i : Nat) : Option (Alternative α) := d.alternatives[i]?

def constraints (d : Disjunction α) : List (Constraint α) := d.alternatives.flatten

end Disjunction

structure Disjunctions (α : Type := Float) where
  registered : List (Disjunction α)

namespace Disjunctions

variable {α : Type}

def empty : Disjunctions α := ⟨[]⟩

instance : Inhabited (Disjunctions α) := ⟨empty⟩

def size (ds : Disjunctions α) : Nat := ds.registered.length

def isEmpty (ds : Disjunctions α) : Bool := ds.registered.isEmpty

def add (ds : Disjunctions α) (d : Disjunction α) : DisjunctionId × Disjunctions α :=
  (⟨ds.size⟩, ⟨ds.registered ++ [d]⟩)

def get? (ds : Disjunctions α) (id : DisjunctionId) : Option (Disjunction α) :=
  ds.registered[id.index]?

def entries (ds : Disjunctions α) : List (DisjunctionId × Disjunction α) :=
  ds.registered.zipIdx.map fun e => (⟨e.2⟩, e.1)

def decisions (ds : Disjunctions α) : DecisionOrder → List (DisjunctionId × Disjunction α)
  | .registration => ds.entries
  | .fewestAlternatives => ds.entries.mergeSort fun a b => a.2.size ≤ b.2.size

end Disjunctions

end LinearChoice
