import LinearChoice.Constraint.Basic
import LinearChoice.Simplex.Row

/-!
# Markers

Every constraint is known in the tableau by symbols of its own. An inequality has a slack, a
required equality a dummy, and an optional constraint an error for each direction in which it may
be violated, priced by its strength. The first of the symbols is the marker: it goes when the
constraint goes.
-/

set_option autoImplicit false

namespace LinearChoice

structure Tag where
  marker : Symbol
  other : Option Symbol
  deriving DecidableEq

def Tag.symbols (tag : Tag) : List Symbol := tag.marker :: tag.other.toList

structure Markers (α : Type) where
  tag : Tag
  cells : List (Symbol × α)
  costs : List (Symbol × α)
  count : Nat

namespace Markers

variable {α : Type} [Scalar α]

def inequality (sign : α) (strength : Strength α) (n : Nat) : Markers α :=
  if strength.isRequired then
    ⟨⟨.slack n, none⟩, [(.slack n, sign)], [], 1⟩
  else
    ⟨⟨.slack n, some (.error (n + 1))⟩, [(.slack n, sign), (.error (n + 1), -sign)],
      [(.error (n + 1), strength.weight)], 2⟩

def equality (strength : Strength α) (n : Nat) : Markers α :=
  if strength.isRequired then
    ⟨⟨.dummy n, none⟩, [(.dummy n, 1)], [], 1⟩
  else
    ⟨⟨.error n, some (.error (n + 1))⟩, [(.error n, -1), (.error (n + 1), 1)],
      [(.error n, strength.weight), (.error (n + 1), strength.weight)], 2⟩

def ofConstraint (c : Constraint α) (n : Nat) : Markers α :=
  match c.relation with
  | .atMost => inequality 1 c.strength n
  | .equal => equality c.strength n
  | .atLeast => inequality (-1) c.strength n

end Markers

namespace Row

variable {α : Type} [Scalar α]

def subject? (r : Row α) (tag : Tag) : Option Symbol :=
  match r.cells.keys.find? Symbol.isExternal with
  | some s => some s
  | none => tag.symbols.find? fun s => s.isPivotable && decide (r.coefficient s < 0)

end Row

end LinearChoice
