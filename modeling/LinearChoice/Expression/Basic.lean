import LinearChoice.Scalar
import LinearChoice.Table.Basic
import LinearChoice.Variable

/-!
# Linear expressions

A constant plus weighted variables, in the order in which the variables first came in. Terms whose
coefficients cancel are dropped as they are added, so an expression mentions only the variables on
which it depends.
-/

set_option autoImplicit false

namespace LinearChoice

structure Expression (α : Type) where
  constant : α
  terms : Table Variable α

namespace Expression

variable {α : Type} [Scalar α]

def ofConstant (x : α) : Expression α := ⟨x, Table.empty⟩

instance : Inhabited (Expression α) := ⟨ofConstant 0⟩

def coefficient (e : Expression α) (v : Variable) : α := (e.terms.get? v).getD 0

omit [Scalar α] in
def contains (e : Expression α) (v : Variable) : Bool := e.terms.contains v

omit [Scalar α] in
def size (e : Expression α) : Nat := e.terms.size

omit [Scalar α] in
def isEmpty (e : Expression α) : Bool := e.terms.isEmpty

omit [Scalar α] in
def support (e : Expression α) : List Variable := e.terms.keys

def addTerm (e : Expression α) (v : Variable) (c : α) : Expression α :=
  if Scalar.nearZero c then e
  else
    let total := e.coefficient v + c
    if Scalar.nearZero total then { e with terms := e.terms.eraseShift v }
    else { e with terms := e.terms.insert v total }

def addTerms (e : Expression α) (terms : List (Variable × α)) : Expression α :=
  terms.foldl (fun e t => e.addTerm t.1 t.2) e

def sum (terms : List (Variable × α)) : Expression α := (ofConstant 0).addTerms terms

def ofTerm (v : Variable) (c : α) : Expression α := (ofConstant 0).addTerm v c

def ofVariable (v : Variable) : Expression α := ofTerm v 1

def offset (e : Expression α) (x : α) : Expression α := { e with constant := e.constant + x }

def scale (e : Expression α) (k : α) : Expression α :=
  ⟨e.constant * k, e.terms.mapValues fun _ c => c * k⟩

def addScaled (e other : Expression α) (k : α) : Expression α :=
  (e.offset (other.constant * k)).addTerms (other.terms.entries.map fun t => (t.1, t.2 * k))

def evaluate (e : Expression α) (value : Variable → α) : α :=
  e.terms.entries.foldl (fun total t => total + t.2 * value t.1) e.constant

def agrees (a b : Expression α) : Bool :=
  a.constant == b.constant && a.size == b.size &&
    a.terms.entries.all fun t =>
      match b.terms.get? t.1 with
      | some c => t.2 == c
      | none => false

end Expression

end LinearChoice
