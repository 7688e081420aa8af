import LinearChoice.Constraint.Text
import LinearChoice.Error

/-!
# The variable registry

Names for variables. A name is given once and stays; a variable may have several names and goes by
the earliest. Next to the names the registry holds the values of the last successful solve.
-/

set_option autoImplicit false

namespace LinearChoice

structure Registry (α : Type := Float) where
  names : Table String Variable
  solved : Table Variable α

namespace Registry

variable {α : Type}

def empty : Registry α := ⟨Table.empty, Table.empty⟩

instance : Inhabited (Registry α) := ⟨empty⟩

def entries (r : Registry α) : List (String × Variable) := r.names.entries

def size (r : Registry α) : Nat := r.names.size

def isEmpty (r : Registry α) : Bool := r.names.isEmpty

def register (r : Registry α) (name : String) (v : Variable) : Except SystemError (Registry α) :=
  if r.names.contains name then .error (.duplicateVariable name)
  else .ok { r with names := r.names.insert name v }

def handle? (r : Registry α) (name : String) : Option Variable := r.names.get? name

def nameOf? (r : Registry α) (v : Variable) : Option String :=
  (r.entries.find? fun e => e.2 = v).map Prod.fst

def contains (r : Registry α) (v : Variable) : Bool := r.entries.any fun e => e.2 = v

def displayName (r : Registry α) (v : Variable) : String := (r.nameOf? v).getD v.text

def check (r : Registry α) (c : Constraint α) : Except SystemError Unit :=
  match c.support.find? fun v => !r.contains v with
  | some v => .error (.unregisteredHandle v)
  | none => .ok ()

def checkAll (r : Registry α) : List (Constraint α) → Except SystemError Unit
  | [] => .ok ()
  | c :: rest =>
    match r.check c with
    | .error e => .error e
    | .ok () => r.checkAll rest

def describe [Scalar α] [Numeral α] (r : Registry α) (c : Constraint α) : String :=
  c.render r.displayName

def solvedValue? (r : Registry α) (name : String) : Option α :=
  (r.handle? name).bind r.solved.get?

def value (r : Registry α) (name : String) : Except SystemError α :=
  match r.solvedValue? name with
  | some x => .ok x
  | none => .error (.unknownVariable name)

def values (r : Registry α) : List (String × α) :=
  r.entries.filterMap fun e => (r.solvedValue? e.1).map fun x => (e.1, x)

def recordValues (r : Registry α) (value : Variable → α) : Registry α :=
  { r with solved := Table.ofList (r.entries.map fun e => (e.2, value e.2)) }

def clearValues (r : Registry α) : Registry α := { r with solved := Table.empty }

end Registry

end LinearChoice
