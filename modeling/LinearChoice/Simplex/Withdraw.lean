import LinearChoice.Simplex.Markers
import LinearChoice.Simplex.Primal

/-!
# Withdrawing a constraint

A constraint leaves the tableau in two steps: its errors lose their price, and its marker is made
basic, so that the marker's row can be dropped. The row through which the marker becomes basic is
chosen so that the other restricted symbols stay where they are allowed to be.
-/

set_option autoImplicit false

namespace LinearChoice

structure Exits (α : Type) where
  falling : Option (Candidate α)
  rising : Option (Candidate α)
  external : Option (Candidate α)

namespace Tableau

variable {α : Type} [Scalar α]

def removeCosts (t : Tableau α) (tag : Tag) (price : α) : Tableau α :=
  (tag.symbols.filter Symbol.isError).foldl (fun t s =>
    { t with
      objective :=
        match t.rows.get? s with
        | some row => t.objective.addScaled row (-price)
        | none => t.objective.addCell s (-price) }) t

def sooner (ratio : α) (best : Option (Candidate α)) : Bool :=
  match best with
  | none => Scalar.belowLargest ratio
  | some b => decide (ratio < b.ratio)

def considerExit (marker : Symbol) (exits : Exits α) (e : Symbol × Row α) : Exits α :=
  let c := e.2.coefficient marker
  if c == 0 then exits
  else if e.1.isExternal then { exits with external := some ⟨0, e.1, e.2⟩ }
  else if c < 0 then
    let ratio := -e.2.constant / c
    if sooner ratio exits.falling then { exits with falling := some ⟨ratio, e.1, e.2⟩ } else exits
  else
    let ratio := e.2.constant / c
    if sooner ratio exits.rising then { exits with rising := some ⟨ratio, e.1, e.2⟩ } else exits

/-- The row that leaves when a parametric marker has to become basic. A basic dummy goes first: its
equality is redundant, and becoming parametric holds it at zero. -/
def exit? (t : Tableau α) (marker : Symbol) : Option (Candidate α) :=
  match t.rows.entries.find? fun e => e.1.isDummy && !(e.2.coefficient marker == 0) with
  | some e => some ⟨0, e.1, e.2⟩
  | none =>
    let exits := t.rows.entries.foldl (considerExit marker) ⟨none, none, none⟩
    (exits.falling.or exits.rising).or exits.external

def withdraw (t : Tableau α) (marker : Symbol) : Except SolverError Unit × Tableau α :=
  if t.rows.contains marker then (.ok (), t.detach marker)
  else
    match exit? t marker with
    | none => (.error (.internal .noLeavingRow), t)
    | some c => (.ok (), (t.detach c.symbol).substitute marker (c.row.exchange c.symbol marker))

end Tableau

end LinearChoice
